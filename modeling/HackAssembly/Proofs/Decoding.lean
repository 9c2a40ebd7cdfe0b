import HackAssembly.Proofs.Resolution
import Mathlib.Data.List.Basic

/-!
# Machine words read back

The digits of a word tell its instruction as long as loads stay below `57344`: from that number on
the three highest bits are all set, and a word of that form is taken for a computation. Below it,
reading the codes of an assembled program gives back the program with every name resolved, the
numbers that are loaded and the mnemonics of the computations (`instructionList`).
-/

namespace HackAssembly

/-- An instruction in terms of its source: the number that is loaded, or the mnemonics of the three
fields. -/
inductive Resolved
  | load (address : Int)
  | compute (fields : Fields)
  deriving DecidableEq, Repr

/-- The instruction with its fields written as mnemonics. -/
def Instruction.resolved : Instruction → Resolved
  | load value => .load value.toNat
  | compute comp dest jump => .compute ⟨dest.mnemonic, comp.mnemonic, jump.mnemonic⟩

/-- The instruction that sixteen binary digits stand for: after `111` the fields are looked up by
their bits, all other digits are those of a number. -/
def decodeDigits? (s : Bytes) : Option Resolved :=
  (Code.ofDigits? s).bind fun w => (Instruction.decode? w).map Instruction.resolved

/-- The instruction on a line when names have the addresses of a table; a label is none. -/
def SourceLine.resolved? (table : SymbolTable) (l : SourceLine) : Option Resolved :=
  match Statement.parse l.text with
  | .ok (.load target) =>
    if isSignedDigits target then some (.load (signedPlaceValue target))
    else (table.get? target).map .load
  | .ok (.compute fields) => some (.compute fields)
  | _ => none

/-- The instructions of a program in source order, with names resolved by a table. -/
def instructionList (table : SymbolTable) (lines : List Bytes) : List Resolved :=
  (substantive lines).filterMap (SourceLine.resolved? table)

/-! ### Words and their digits -/

namespace Code

theorem ofDigits?_of_isBinary16 {s : Bytes} {v : Int} (h : IsBinary16 s v) :
    ofDigits? s = some (BitVec.ofInt 16 v) := by
  have hall : s.all (fun b => b == byte '0' || b == byte '1') = true := by
    rw [List.all_eq_true]
    intro b hb
    rcases h.digit b hb with rfl | rfl <;> rfl
  rw [ofDigits?, if_pos ⟨h.length, hall⟩, ← binaryValue, ← h.value, BitVec.ofInt_natCast]

theorem ofDigits?_digits (w : Code) : ofDigits? w.digits = some w := by
  rw [ofDigits?_of_isBinary16 (isBinary16_digits w), BitVec.ofInt_natCast, BitVec.ofNat_toNat,
    BitVec.setWidth_eq]

theorem digits_injective {v w : Code} (h : v.digits = w.digits) : v = w := by
  have hread := ofDigits?_digits v
  rw [h, ofDigits?_digits w] at hread
  exact (Option.some.inj hread).symm

end Code

namespace Instruction

/-- A word is marked as a computation exactly from `57344` on. -/
theorem marked_iff (w : Code) : w.extractLsb' 13 3 = computeMark ↔ 57344 ≤ w.toNat := by
  have hlt := w.isLt
  rw [← BitVec.toNat_inj, BitVec.extractLsb'_toNat, Nat.shiftRight_eq_div_pow,
    show computeMark.toNat = 7 from rfl]
  omega

theorem decode?_of_lt {w : Code} (h : w.toNat < 57344) : decode? w = some (load w) := by
  have hunmarked : ¬w.extractLsb' 13 3 = computeMark := by
    rw [marked_iff]
    omega
  rw [decode?, if_neg hunmarked]

theorem le_toNat_encode_compute (c : Comp) (d : Dest) (j : Jump) :
    57344 ≤ (compute c d j).encode.toNat := by
  rw [← marked_iff]
  exact (extract_fields computeMark d.bits j.bits c.bits).1

end Instruction

/-- Encoded fields are the mnemonics of an instruction. -/
theorem exists_of_encodeFields {fields : Fields} {code : Code}
    (h : encodeFields fields = .ok code) :
    ∃ i : Instruction, i.encode = code ∧ i.resolved = .compute fields ∧
      Instruction.decode? code = some i ∧ 57344 ≤ code.toNat := by
  obtain ⟨dest, comp, jump⟩ := fields
  unfold encodeFields at h
  split at h
  · cases h
  · rename_i c hc
    split at h
    · cases h
    · rename_i d hd
      split at h
      · cases h
      · rename_i j hj
        cases h
        refine ⟨.compute c d j, rfl, ?_, Instruction.decode?_encode_compute c d j,
          Instruction.le_toNat_encode_compute c d j⟩
        rw [Instruction.resolved, ← Comp.ofMnemonic?_eq_some_iff.mp hc,
          ← Dest.ofMnemonic?_eq_some_iff.mp hd, ← Jump.ofMnemonic?_eq_some_iff.mp hj]

/-- The word of a load is the word of a computation only from `57344` on. -/
theorem le_of_digits_eq {address : Int} {fields : Fields} {a c : Code}
    (ha : encodeAddress address = .ok a) (hc : encodeFields fields = .ok c)
    (h : a.digits = c.digits) : 57344 ≤ address := by
  obtain rfl := Code.digits_injective h
  obtain ⟨-, -, -, -, hle⟩ := exists_of_encodeFields hc
  have hvalue := (isBinary16_of_encodeAddress ha).value
  rw [(Code.isBinary16_digits a).value] at hvalue
  omega

/-- The bound is exact: the first marked word is that of a computation. -/
example : encodeAddress 57344 = encodeFields ⟨nullMnemonic, ascii "D&A", nullMnemonic⟩ := by decide

theorem decodeDigits?_of_isBinary16 {s : Bytes} {v : Int} (h : IsBinary16 s v) (hv : v < 57344) :
    decodeDigits? s = some (.load v) := by
  have hpos : 0 ≤ v := by
    rw [← h.value]
    omega
  have hvalue : ((BitVec.ofInt 16 v).toNat : Int) = v := by
    rw [BitVec.toNat_ofInt]
    omega
  rw [decodeDigits?, Code.ofDigits?_of_isBinary16 h, Option.bind_some,
    Instruction.decode?_of_lt (by omega), Option.map_some, Instruction.resolved, hvalue]

/-! ### Programs -/

theorem Item.exists_code_of_word? {address? : Bytes → Option Int} {i : Item} {w : Word}
    (h : i.word? address? = some w) : ∃ code : Code, w.code = code.digits := by
  unfold word? at h
  split at h
  · rename_i code _
    cases h
    exact ⟨code, rfl⟩
  · cases h

/-- The code that a line resolves to is read back as the instruction on the line. -/
theorem Resolves.decode {table : SymbolTable} {l : SourceLine} {w : Word} (h : Resolves table l w)
    (hsmall : ∀ address, l.resolved? table = some (.load address) → address < 57344) :
    ∃ i, l.resolved? table = some i ∧ decodeDigits? w.code = some i := by
  cases h with
  | @numeral target _ hparse hnumeral hcode =>
      have hline : l.resolved? table = some (.load (signedPlaceValue target)) := by
        rw [SourceLine.resolved?, hparse]
        exact if_pos hnumeral
      exact ⟨_, hline, decodeDigits?_of_isBinary16 hcode (hsmall _ hline)⟩
  | @symbol target _ address hparse hsymbol haddress hcode =>
      have hline : l.resolved? table = some (.load address) := by
        rw [SourceLine.resolved?, hparse]
        dsimp only
        rw [hsymbol, if_neg Bool.false_ne_true, SymbolTable.address_eq_ok_iff.mp haddress]
        rfl
      exact ⟨_, hline, decodeDigits?_of_isBinary16 hcode (hsmall _ hline)⟩
  | @computation fields code hparse hcode =>
      obtain ⟨i, -, hfields, hdecode, -⟩ := exists_of_encodeFields hcode
      refine ⟨.compute fields, by rw [SourceLine.resolved?, hparse], ?_⟩
      rw [decodeDigits?, Code.ofDigits?_digits, Option.bind_some, hdecode, Option.map_some, hfields]

/-- Only the lines that become words count for the instructions of a program. -/
theorem instructionList_eq (table : SymbolTable) (lines : List Bytes) :
    instructionList table lines =
      (instructionLines lines).filterMap (SourceLine.resolved? table) := by
  rw [instructionList, instructionLines, List.filterMap_filter]
  apply List.filterMap_congr
  intro l _
  rw [SourceLine.isInstruction, SourceLine.resolved?]
  cases Statement.parse l.text with
  | error how => rfl
  | ok statement => cases statement <;> rfl

theorem decode_words {table : SymbolTable} {source : List SourceLine} {words : List Word}
    (h : List.Forall₂ (Resolves table) source words)
    (hsmall : ∀ address, Resolved.load address ∈ source.filterMap (SourceLine.resolved? table) →
      address < 57344) :
    words.map (fun w => decodeDigits? w.code) =
      (source.filterMap (SourceLine.resolved? table)).map some := by
  induction h with
  | nil => rfl
  | @cons l w source words hline _ ih =>
      obtain ⟨i, hi, hdecode⟩ := hline.decode fun address haddress =>
        hsmall address (List.mem_filterMap.mpr ⟨l, List.mem_cons_self, haddress⟩)
      rw [List.filterMap_cons_some hi] at hsmall ⊢
      rw [List.map_cons, List.map_cons, hdecode,
        ih fun address haddress => hsmall address (List.mem_cons_of_mem i haddress)]

namespace Assembler

/-- Every code of an assembled program consists of sixteen binary digits, and as long as all loads
are below `57344` the codes read back give the instructions of the program. From there on only can
a load have the word of a computation. -/
theorem codes_decode_to_instructions (asm : Assembler) (lines : List Bytes) {words : List Word}
    (h : (asm.assemble lines).result = .ok words) :
    let instructions := instructionList (asm.assemble lines).assembler.symbols lines
    (∀ w ∈ words, w.code.length = 16 ∧ ∀ b ∈ w.code, b = byte '0' ∨ b = byte '1') ∧
      ((∀ address, Resolved.load address ∈ instructions → address < 57344) →
        words.map (fun w => decodeDigits? w.code) = instructions.map some) ∧
      ∀ address fields a c, encodeAddress address = .ok a → encodeFields fields = .ok c →
        a.digits = c.digits → 57344 ≤ address := by
  have hassembled := assembled_of_ok asm h
  refine ⟨?_, ?_, ?_⟩
  · intro w hw
    rw [hassembled.words_eq] at hw
    obtain ⟨i, -, hword⟩ := List.mem_filterMap.mp hw
    obtain ⟨code, hcode⟩ := Item.exists_code_of_word? hword
    have hbinary := Code.isBinary16_digits code
    rw [hcode]
    exact ⟨hbinary.length, hbinary.digit⟩
  · rw [instructionList_eq]
    exact decode_words hassembled.resolves
  · intro address fields a c ha hc hdigits
    exact le_of_digits_eq ha hc hdigits

/-- A computation without destination and jump, a label ahead, a variable, and the largest number
that is read back. -/
theorem codes_decode_up_to_57343 :
    let lines := [ascii "@57343", ascii "@END // ahead", ascii "D|M;JNE", ascii "@i",
      ascii "ADM=-1", ascii "(END)", ascii "null=D&A"]
    let words : List Word := [⟨ascii "1101111111111111", 1, ascii "@57343"⟩,
      ⟨ascii "0000000000000101", 2, ascii "@END"⟩, ⟨ascii "1111010101000101", 3, ascii "D|M;JNE"⟩,
      ⟨ascii "0000000000010000", 4, ascii "@i"⟩, ⟨ascii "1110111010111000", 5, ascii "ADM=-1"⟩,
      ⟨ascii "1110000000000000", 7, ascii "null=D&A"⟩]
    let instructions : List Resolved := [.load 57343, .load 5,
      .compute ⟨ascii "null", ascii "D|M", ascii "JNE"⟩, .load 16,
      .compute ⟨ascii "ADM", ascii "-1", ascii "null"⟩,
      .compute ⟨ascii "null", ascii "D&A", ascii "null"⟩]
    (new.assemble lines).result = .ok words ∧
      instructionList (new.assemble lines).assembler.symbols lines = instructions ∧
      words.map (fun w => decodeDigits? w.code) = instructions.map some := by
  intro lines words instructions
  have h : (new.assemble lines).result = .ok words := by decide +kernel
  have hlist : instructionList (new.assemble lines).assembler.symbols lines = instructions := by
    decide +kernel
  have hdecode := (codes_decode_to_instructions new lines h).2.1
  rw [hlist] at hdecode
  refine ⟨h, hlist, hdecode ?_⟩
  intro address hmem
  simp only [instructions, List.mem_cons, Resolved.load.injEq, reduceCtorEq, List.not_mem_nil,
    or_false, false_or] at hmem
  omega

end Assembler

end HackAssembly
