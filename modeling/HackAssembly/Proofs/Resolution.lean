import HackAssembly.Proofs.Binary
import HackAssembly.Proofs.Outcome

/-!
# Resolution against the final table

The words of a program are emitted while the table still grows. `Resolves` says what a word should
be in terms of the finished table; the main statement is that the words are, in order, what the
instruction lines resolve to, so that no address is ever changed after it was used.
-/

namespace HackAssembly

/-- Whether a line holds an instruction that becomes a word: a load or a computation. -/
def SourceLine.isInstruction (l : SourceLine) : Bool :=
  match Statement.parse l.text with
  | .ok (.load _) | .ok (.compute _) => true
  | _ => false

/-- The lines of a program that become words. -/
def instructionLines (lines : List Bytes) : List SourceLine :=
  (substantive lines).filter SourceLine.isInstruction

/-- A word is what a line stands for under a table: it carries the line's number and text, and its
code is the number that is loaded, or the computation's encoding. -/
inductive Resolves (table : SymbolTable) : SourceLine → Word → Prop
  | numeral {l : SourceLine} {target code : Bytes}
      (hparse : Statement.parse l.text = .ok (.load target))
      (hnumeral : isSignedDigits target = true)
      (hcode : IsBinary16 code (signedPlaceValue target)) :
      Resolves table l ⟨code, l.number, l.text⟩
  | symbol {l : SourceLine} {target code : Bytes} {address : Int}
      (hparse : Statement.parse l.text = .ok (.load target))
      (hsymbol : isSignedDigits target = false)
      (haddress : table.address target = .ok address)
      (hcode : IsBinary16 code address) :
      Resolves table l ⟨code, l.number, l.text⟩
  | computation {l : SourceLine} {fields : Fields} {code : Code}
      (hparse : Statement.parse l.text = .ok (.compute fields))
      (hcode : encodeFields fields = .ok code) :
      Resolves table l ⟨code.digits, l.number, l.text⟩

/-- What encoding under the addresses of a table gives is what the line stands for. -/
theorem resolves_of_encodeUnder {table : SymbolTable} {l : SourceLine} {statement : Statement}
    {code : Code} (hparse : Statement.parse l.text = .ok statement)
    (hcode : statement.encodeUnder table.get? = some (.ok code)) :
    Resolves table l ⟨code.digits, l.number, l.text⟩ := by
  cases statement with
  | label name => cases hcode
  | compute fields => exact .computation hparse (Option.some.inj hcode)
  | load target =>
      have hload := Option.some.inj hcode
      split at hload
      · rename_i hnumeral
        exact .numeral hparse hnumeral (isBinary16_of_encodeNumeral hload)
      · rename_i hsymbol
        split at hload
        · rename_i address haddress
          exact .symbol hparse (Bool.eq_false_iff.mpr hsymbol)
            (SymbolTable.address_eq_ok_iff.mpr haddress) (isBinary16_of_encodeAddress hload)
        · cases hload

namespace Item

variable {address? : Bytes → Option Int}

/-- An instruction that is not refused has a word, with the line's number and text. -/
theorem exists_word {i : Item} (hinstruction : i.isInstruction = true)
    (h : i.refusal? address? = none) :
    ∃ code, i.statement.encodeUnder address? = some (.ok code) ∧
      i.word? address? = some ⟨code.digits, i.line.number, i.line.text⟩ := by
  unfold refusal? at h
  unfold word?
  rcases hencode : i.statement.encodeUnder address? with _ | cause | code
  · obtain ⟨line, statement⟩ := i
    cases statement with
    | label name => cases hinstruction
    | load target => cases hencode
    | compute fields => cases hencode
  · rw [hencode] at h
    cases h
  · exact ⟨code, rfl, rfl⟩

theorem word?_of_not_isInstruction {i : Item} (h : i.isInstruction = false) :
    i.word? address? = none := by
  obtain ⟨line, statement⟩ := i
  cases statement with
  | label name => rfl
  | load target => cases h
  | compute fields => cases h

theorem line_source_of_word? {i : Item} {w : Word} (h : i.word? address? = some w) :
    w.line = i.line.number ∧ w.source = i.line.text := by
  unfold word? at h
  split at h
  · cases h
    exact ⟨rfl, rfl⟩
  · cases h

end Item

theorem SourceLine.isInstruction_eq {l : SourceLine} {statement : Statement}
    (h : Statement.parse l.text = .ok statement) :
    l.isInstruction = Item.isInstruction ⟨l, statement⟩ := by
  rw [isInstruction, h]
  cases statement <;> rfl

/-- The words of well-formed lines without refusals are what the instruction lines stand for. -/
theorem forall₂_resolves {table : SymbolTable} {source : List SourceLine}
    (hfault : Program.fault? source = none)
    (hrefusal : (Program.items source).findSome? (Item.refusal? table.get?) = none) :
    List.Forall₂ (Resolves table) (source.filter SourceLine.isInstruction)
      ((Program.items source).filterMap (Item.word? table.get?)) := by
  induction source with
  | nil => exact .nil
  | cons l rest ih =>
      cases hparse : Statement.parse l.text with
      | error how =>
          rw [(Program.items_cons_of_error hparse rest).2] at hfault
          cases hfault
      | ok statement =>
          obtain ⟨hitems, hrest⟩ := Program.items_cons_of_ok hparse rest
          rw [hrest] at hfault
          rw [hitems, List.findSome?_cons] at hrefusal
          rw [hitems, List.filter_cons, SourceLine.isInstruction_eq hparse]
          cases hi : Item.refusal? table.get? ⟨l, statement⟩ with
          | some failure =>
              rw [hi] at hrefusal
              cases hrefusal
          | none =>
              rw [hi] at hrefusal
              have hwords := ih hfault hrefusal
              cases hinstruction : Item.isInstruction ⟨l, statement⟩ with
              | false =>
                  rw [List.filterMap_cons_none (Item.word?_of_not_isInstruction hinstruction)]
                  exact hwords
              | true =>
                  obtain ⟨code, hcode, hword⟩ := Item.exists_word hinstruction hi
                  rw [List.filterMap_cons_some hword]
                  exact .cons (resolves_of_encodeUnder hparse hcode) hwords

theorem Assembled.resolves {lines : List Bytes} {words : List Word} {table : SymbolTable}
    (h : Assembled lines words table) :
    List.Forall₂ (Resolves table) (instructionLines lines) words := by
  have hwords := h.words_eq
  have hencodable := h.encodable
  rw [Program.refusal?] at hencodable
  rw [← h.get?_eq, program, ← Program.items_eq_statements h.wellFormed] at hwords hencodable
  rw [hwords]
  exact forall₂_resolves h.wellFormed hencodable

namespace Assembler

/-- The words of a program are what its instruction lines stand for under the table that the run
leaves, in source order, whatever the assembler was used for before. -/
theorem words_resolve_in_final_table (asm : Assembler) (lines : List Bytes) {words : List Word}
    (h : (asm.assemble lines).result = .ok words) :
    asm.assemble lines = new.assemble lines ∧
      List.Forall₂ (Resolves (asm.assemble lines).assembler.symbols) (instructionLines lines)
        words :=
  ⟨assemble_eq_new asm lines, (assembled_of_ok asm h).resolves⟩

/-- A label used before it is declared, a predefined symbol declared twice as a label, a variable,
and numbers with zeros in front and after a minus sign, after a run that failed. -/
theorem words_resolve_after_failed_run :
    let asm := (new.assemble [ascii "(END)", ascii "@j", ascii "M+1"]).assembler
    let lines := [ascii "@END // ahead", ascii "(SP)", ascii "@SP", ascii "\t@i", ascii "(SP)",
      ascii "0;JMP", ascii "(END)", ascii "@00102", ascii "@-0"]
    let words : List Word := [⟨ascii "0000000000000100", 1, ascii "@END"⟩,
      ⟨ascii "0000000000000011", 3, ascii "@SP"⟩, ⟨ascii "0000000000010000", 4, ascii "@i"⟩,
      ⟨ascii "1110101010000111", 6, ascii "0;JMP"⟩, ⟨ascii "0000000001100110", 8, ascii "@00102"⟩,
      ⟨ascii "0000000000000000", 9, ascii "@-0"⟩]
    (asm.assemble lines).result = .ok words ∧ asm.assemble lines = new.assemble lines ∧
      List.Forall₂ (Resolves (asm.assemble lines).assembler.symbols) (instructionLines lines)
        words := by
  intro asm lines words
  have h : (asm.assemble lines).result = .ok words := by decide +kernel
  exact ⟨h, words_resolve_in_final_table asm lines h⟩

end Assembler

end HackAssembly
