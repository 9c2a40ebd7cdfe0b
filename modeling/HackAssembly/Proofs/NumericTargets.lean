import HackAssembly.Proofs.Binary
import HackAssembly.Proofs.Failures

/-!
# Numbers as targets

A target that is written as a number is loaded as that number. It is never looked up or placed, so
the table stays as it is, and a label with such a name has no bearing on any word. A number is
refused by one of two checks, depending on its size; together they let through exactly the numbers
of a word, for numerals of any length.
-/

namespace HackAssembly

/-! ### Numerals that denote zero -/

namespace Numeral

theorem eq_zero_of_isDigit {b : UInt8} (h : isDigit b = true) (hzero : b.toNat - 48 = 0) :
    b = byte '0' := by
  rw [isDigit, Bool.and_eq_true, decide_eq_true_eq, UInt8.le_iff_toNat_le] at h
  apply UInt8.toNat_inj.mp
  have hlow : (byte '0').toNat = 48 := rfl
  omega

/-- A run of digits denotes zero only if it is made of zeros. -/
theorem placeValue_eq_zero_iff {digits : Bytes} (h : ∀ b ∈ digits, isDigit b = true) :
    placeValue digits = 0 ↔ ∀ b ∈ digits, b = byte '0' := by
  induction digits using List.reverseRecOn with
  | nil => simp [placeValue]
  | append_singleton digits b ih =>
      have hfront : ∀ d ∈ digits, isDigit d = true := fun d hd => h d (by simp [hd])
      have hb : b.toNat - 48 = 0 ↔ b = byte '0' := by
        constructor
        · exact eq_zero_of_isDigit (h b (by simp))
        · rintro rfl
          rfl
      rw [placeValue_snoc, Nat.add_eq_zero_iff, hb, Nat.mul_eq_zero, or_iff_right (by decide),
        ih hfront]
      simp only [List.mem_append, List.mem_singleton, or_imp, forall_and, forall_eq]

end Numeral

/-! ### Loading a number -/

/-- The two checks together: a number is encoded exactly if it fits in a word. -/
theorem encodeNumeral_eq_ok_iff {s : Bytes} :
    (∃ code, encodeNumeral s = .ok code) ↔
      0 ≤ signedPlaceValue s ∧ signedPlaceValue s ≤ 65535 := by
  constructor
  · rintro ⟨code, hcode⟩
    by_contra hwide
    simp only [encodeNumeral, Numeral.toInt_eq_signedPlaceValue] at hcode
    split at hcode
    · rw [encodeAddress_eq_error_iff.mpr ⟨hwide, rfl⟩] at hcode
      cases hcode
    · cases hcode
  · intro hfits
    have h64 : Numeral.fits64 (signedPlaceValue s) = true := by
      rw [Numeral.fits64_iff]
      omega
    simp only [encodeNumeral, Numeral.toInt_eq_signedPlaceValue, if_pos h64]
    exact ⟨_, if_pos hfits⟩

/-- The check that refuses a number: the first if it is not even a signed 64-bit number. -/
theorem encodeNumeral_of_wide {s : Bytes}
    (h : ¬(0 ≤ signedPlaceValue s ∧ signedPlaceValue s ≤ 65535)) :
    encodeNumeral s = .error
      (if -2 ^ 63 ≤ signedPlaceValue s ∧ signedPlaceValue s < 2 ^ 63
        then .addressTooWide (signedPlaceValue s) else .numeralTooLong s) := by
  simp only [encodeNumeral, Numeral.toInt_eq_signedPlaceValue, Numeral.fits64_iff]
  split
  · exact encodeAddress_eq_error_iff.mpr ⟨h, rfl⟩
  · rfl

/-- After a minus sign only zeros denote a number that fits. -/
theorem fits_of_minus_iff {digits : Bytes} (h : isDigits digits = true) :
    (0 ≤ signedPlaceValue (byte '-' :: digits) ∧ signedPlaceValue (byte '-' :: digits) ≤ 65535) ↔
      ∀ b ∈ digits, b = byte '0' := by
  rw [isDigits, Bool.and_eq_true, List.all_eq_true] at h
  rw [← Numeral.placeValue_eq_zero_iff h.2, signedPlaceValue, List.head?_cons, if_pos rfl,
    List.tail_cons]
  omega

/-! ### Labels that are named by a number -/

/-- A line that holds nothing, or a label whose name is a number. -/
def IsIdle (line : Bytes) : Prop :=
  instructionText line = [] ∨ ∃ name, Statement.parse (instructionText line) = .ok (.label name) ∧
    isSignedDigits name = true

/-- The lines are the same, except that some hold nothing or a label named by a number in one list
and again nothing or such a label in the other. -/
def SameButIdle (a b : List Bytes) : Prop :=
  List.Forall₂ (fun line other => line = other ∨ IsIdle line ∧ IsIdle other) a b

namespace Item

def isNumericLabel (i : Item) : Bool :=
  match i.statement with
  | .label name => isSignedDigits name
  | _ => false

theorem exists_of_isNumericLabel {i : Item} (h : i.isNumericLabel = true) :
    ∃ name, i.statement = .label name ∧ isSignedDigits name = true := by
  unfold isNumericLabel at h
  split at h
  · rename_i name hlabel
    exact ⟨name, hlabel, h⟩
  · cases h

end Item

namespace Program

/-- The statements without the labels that are named by a number. -/
def core (items : List Item) : List Item := items.filter fun i => !i.isNumericLabel

theorem core_snoc (items : List Item) (i : Item) :
    core (items ++ [i]) = if i.isNumericLabel then core items else core items ++ [i] := by
  rw [core, List.filter_append, ← core]
  cases h : i.isNumericLabel <;> simp [h]

/-- A view of the statements that skips all labels does not see the difference. -/
theorem filterMap_core {α : Type} {f : Item → Option α}
    (hf : ∀ i, i.isNumericLabel = true → f i = none) (items : List Item) :
    (core items).filterMap f = items.filterMap f := by
  rw [core, List.filterMap_filter]
  apply List.filterMap_congr
  intro i _
  cases h : i.isNumericLabel with
  | true => rw [hf i h]; rfl
  | false => rfl

theorem findSome?_core {α : Type} {f : Item → Option α}
    (hf : ∀ i, i.isNumericLabel = true → f i = none) (items : List Item) :
    (core items).findSome? f = items.findSome? f := by
  rw [← List.head?_filterMap, ← List.head?_filterMap, filterMap_core hf]

theorem target?_of_isNumericLabel {i : Item} (h : i.isNumericLabel = true) : i.target? = none := by
  obtain ⟨name, hname, -⟩ := i.exists_of_isNumericLabel h
  rw [Item.target?, hname]

theorem encodeUnder_of_isNumericLabel {i : Item} (h : i.isNumericLabel = true)
    (address? : Bytes → Option Int) : i.statement.encodeUnder address? = none := by
  obtain ⟨name, hname, -⟩ := i.exists_of_isNumericLabel h
  rw [hname]
  rfl

theorem countP_core (items : List Item) :
    (core items).countP Item.isInstruction = items.countP Item.isInstruction := by
  rw [core, List.countP_filter]
  apply List.countP_congr
  intro i _
  cases h : i.isNumericLabel with
  | false => simp
  | true =>
      obtain ⟨name, hname, -⟩ := i.exists_of_isNumericLabel h
      simp [Item.isInstruction, hname]

theorem labelAddress?_core {name : Bytes} (hname : isSignedDigits name = false)
    (items : List Item) : labelAddress? (core items) name = labelAddress? items name := by
  induction items using List.reverseRecOn with
  | nil => rfl
  | append_singleton items i ih =>
      rw [core_snoc, labelAddress?_snoc]
      cases h : i.isNumericLabel with
      | true =>
          obtain ⟨other, hother, hnumeral⟩ := i.exists_of_isNumericLabel h
          have hne : i.label? ≠ some name := by
            intro hlabel
            rw [Item.label?_eq_some_iff, hother] at hlabel
            cases hlabel
            rw [hname] at hnumeral
            cases hnumeral
          rw [if_pos rfl, if_neg hne, ih]
      | false => rw [if_neg Bool.false_ne_true, labelAddress?_snoc, countP_core, ih]

theorem isVariable_core (items : List Item) : isVariable (core items) = isVariable items := by
  funext target
  rw [isVariable, isVariable]
  cases hnumeral : isSignedDigits target with
  | true => rfl
  | false =>
      have hlabel : (labels (core items)).contains target = (labels items).contains target := by
        rw [Bool.eq_iff_iff, List.contains_iff_mem, List.contains_iff_mem, ← not_iff_not,
          ← labelAddress?_eq_none_iff, ← labelAddress?_eq_none_iff, labelAddress?_core hnumeral]
      rw [hlabel]

theorem variableNames_core (items : List Item) :
    variableNames (core items) = variableNames items := by
  rw [variableNames, isVariable_core, targets,
    filterMap_core (fun _ h => target?_of_isNumericLabel h), ← targets, variableNames]

/-- All names but the numbers mean the same. -/
theorem meaning?_core {name : Bytes} (hname : isSignedDigits name = false) (items : List Item) :
    meaning? (core items) name = meaning? items name := by
  rw [meaning?, meaning?, labelAddress?_core hname, variableNames_core]

theorem encodeUnder_core (items : List Item) (statement : Statement) :
    statement.encodeUnder (meaning? (core items)) = statement.encodeUnder (meaning? items) :=
  Statement.encodeUnder_congr fun _ _ hsymbol => meaning?_core hsymbol items

theorem words_core (items : List Item) :
    (core items).filterMap (Item.word? (meaning? (core items))) =
      items.filterMap (Item.word? (meaning? items)) := by
  have hword : Item.word? (meaning? (core items)) = Item.word? (meaning? items) := by
    funext i
    rw [Item.word?, Item.word?, encodeUnder_core]
  rw [hword]
  apply filterMap_core
  intro i h
  rw [Item.word?, encodeUnder_of_isNumericLabel h]

theorem refusal?_core (items : List Item) : refusal? (core items) = refusal? items := by
  have hrefusal : Item.refusal? (meaning? (core items)) = Item.refusal? (meaning? items) := by
    funext i
    rw [Item.refusal?, Item.refusal?, encodeUnder_core]
  rw [refusal?, hrefusal, refusal?]
  apply findSome?_core
  intro i h
  rw [Item.refusal?, encodeUnder_of_isNumericLabel h]

end Program

/-- An idle line contributes neither a statement that matters nor a fault. -/
theorem IsIdle.cons {line : Bytes} (h : IsIdle line) (number : Nat) (lines : List Bytes) :
    Program.core (Program.statements (substantiveFrom number (line :: lines))) =
        Program.core (Program.statements (substantiveFrom (number + 1) lines)) ∧
      Program.fault? (substantiveFrom number (line :: lines)) =
        Program.fault? (substantiveFrom (number + 1) lines) := by
  rw [substantiveFrom_cons, SourceLine.ofLine?]
  rcases h with hblank | ⟨name, hparse, hnumeral⟩
  · rw [hblank]
    exact ⟨rfl, rfl⟩
  · cases (instructionText line).isEmpty with
    | true => exact ⟨rfl, rfl⟩
    | false =>
        have hitem : SourceLine.item? ⟨number, instructionText line⟩ =
            some ⟨⟨number, instructionText line⟩, .label name⟩ :=
          SourceLine.item?_eq_some_iff.mpr ⟨rfl, hparse⟩
        have hidle : Item.isNumericLabel ⟨⟨number, instructionText line⟩, .label name⟩ = true :=
          hnumeral
        constructor
        · simp only [Bool.false_eq_true, if_false]
          rw [Program.statements, List.filterMap_cons_some hitem, Program.core, List.filter_cons,
            hidle]
          rfl
        · exact (Program.items_cons_of_ok hparse _).2

theorem SameButIdle.core_eq {a b : List Bytes} (h : SameButIdle a b) (number : Nat) :
    Program.core (Program.statements (substantiveFrom number a)) =
        Program.core (Program.statements (substantiveFrom number b)) ∧
      Program.fault? (substantiveFrom number a) = Program.fault? (substantiveFrom number b) := by
  induction h generalizing number with
  | nil => exact ⟨rfl, rfl⟩
  | @cons line other a b hline _ ih =>
      obtain ⟨hcore, hfault⟩ := ih (number + 1)
      rcases hline with rfl | ⟨hidle, hidle'⟩
      · rw [substantiveFrom_cons, substantiveFrom_cons]
        cases SourceLine.ofLine? number line with
        | none => exact ⟨hcore, hfault⟩
        | some l =>
            simp only [Program.statements, Program.fault?, Program.core] at hcore hfault ⊢
            rw [List.findSome?_cons, List.findSome?_cons, hfault]
            refine ⟨?_, rfl⟩
            cases hitem : l.item? with
            | none => rwa [List.filterMap_cons_none hitem, List.filterMap_cons_none hitem]
            | some i =>
                rw [List.filterMap_cons_some hitem, List.filterMap_cons_some hitem,
                  List.filter_cons, List.filter_cons, hcore]
      · obtain ⟨hleft, hleftFault⟩ := hidle.cons number a
        obtain ⟨hright, hrightFault⟩ := hidle'.cons number b
        rw [hleft, hright, hleftFault, hrightFault]
        exact ⟨hcore, hfault⟩

namespace Assembler

/-- The result of a program, as far as its statements and faults decide it. -/
theorem result_eq (asm : Assembler) (lines : List Bytes) :
    (asm.assemble lines).result =
      match failure? lines with
      | some failure => .error failure
      | none =>
        .ok ((program lines).filterMap (Item.word? (Program.meaning? (program lines)))) := by
  cases h : failure? lines with
  | some failure => exact result_of_failure asm h
  | none =>
      obtain ⟨words, hresult, hassembled⟩ := exists_assembled_of_no_failure asm h
      rw [hresult, hassembled.words_eq]

theorem result_of_sameButIdle (asm : Assembler) {a b : List Bytes} (h : SameButIdle a b) :
    (asm.assemble a).result = (asm.assemble b).result := by
  obtain ⟨hcore, hfault⟩ := h.core_eq 1
  rw [← substantive_eq_substantiveFrom, ← substantive_eq_substantiveFrom] at hcore hfault
  have hwords := congrArg (fun items => items.filterMap (Item.word? (Program.meaning? items))) hcore
  have hrefusal := congrArg Program.refusal? hcore
  rw [Program.words_core, Program.words_core] at hwords
  rw [Program.refusal?_core, Program.refusal?_core] at hrefusal
  have hfailure : failure? a = failure? b := by
    rw [failure?, failure?, hfault]
    exact congrArg _ hrefusal
  rw [result_eq, result_eq, hfailure]
  cases failure? b with
  | some failure => rfl
  | none => exact congrArg Except.ok hwords

end Assembler

namespace Emission

/-- Loading a number, whatever the table and the words so far are: nothing changes, and the number
is encoded in sixteen binary digits exactly if it lies in `0 … 65535`. Otherwise it is refused as
out of range, by the first check if it overflows 64 bits and else by the second. After a minus sign
only zeros are accepted, and a label named by a number has no bearing on the result of a program. -/
theorem number_loaded_iff_fits (e : Emission) (s : Bytes) (h : isSignedDigits s = true) :
    let value := signedPlaceValue s
    (e.load s).1 = e ∧
      ((∃ code, (e.load s).2 = .ok code) ↔ 0 ≤ value ∧ value ≤ 65535) ∧
      (∀ code, (e.load s).2 = .ok code → IsBinary16 code.digits value) ∧
      (¬(0 ≤ value ∧ value ≤ 65535) → (e.load s).2 = .error
        (if -2 ^ 63 ≤ value ∧ value < 2 ^ 63 then .addressTooWide value else .numeralTooLong s)) ∧
      (∀ digits, s = byte '-' :: digits →
        ((∃ code, (e.load s).2 = .ok code) ↔ ∀ b ∈ digits, b = byte '0')) ∧
      ∀ (asm : Assembler) (a b : List Bytes), SameButIdle a b →
        (asm.assemble a).result = (asm.assemble b).result := by
  intro value
  have hload : e.load s = (e, encodeNumeral s) := if_pos h
  rw [hload]
  refine ⟨rfl, encodeNumeral_eq_ok_iff, ?_, encodeNumeral_of_wide, ?_, ?_⟩
  · intro code hcode
    exact isBinary16_of_encodeNumeral hcode
  · rintro digits rfl
    exact encodeNumeral_eq_ok_iff.trans (fits_of_minus_iff h)
  · intro asm a b hab
    exact asm.result_of_sameButIdle hab

/-- The largest number after many zeros, minus zero, a number beyond 64 bits, and a number that is
also the name of a label. -/
theorem numbers_loaded_at_the_bounds :
    let e := start SymbolTable.predefined firstVariable
    let largest := List.replicate 30 (byte '0') ++ ascii "65535"
    let beyond := ascii "-9223372036854775809"
    isSignedDigits largest = true ∧ signedPlaceValue largest = 65535 ∧
      (∃ code, (e.load largest).2 = .ok code) ∧
      isSignedDigits (ascii "-00") = true ∧ (∃ code, (e.load (ascii "-00")).2 = .ok code) ∧
      isSignedDigits beyond = true ∧ (e.load beyond).2 = .error (.numeralTooLong beyond) ∧
      (Assembler.new.assemble [ascii "0;JMP", ascii "(7)", ascii "@7"]).result =
        (Assembler.new.assemble [ascii "0;JMP", ascii "// 7", ascii "@7"]).result := by
  intro e largest beyond
  have hlargest : isSignedDigits largest = true := by decide
  have hvalue : signedPlaceValue largest = 65535 := by decide +kernel
  have hzero : isSignedDigits (ascii "-00") = true := by decide
  have hbeyond : isSignedDigits beyond = true := by decide
  obtain ⟨-, hfits, -, -, -, hlabels⟩ := number_loaded_iff_fits e largest hlargest
  obtain ⟨-, -, -, -, hminus, -⟩ := number_loaded_iff_fits e (ascii "-00") hzero
  obtain ⟨-, -, -, hrefused, -, -⟩ := number_loaded_iff_fits e beyond hbeyond
  refine ⟨hlargest, hvalue, hfits.mpr (by rw [hvalue]; decide), hzero,
    (hminus (ascii "00") rfl).mpr (by decide +kernel), hbeyond, hrefused (by decide +kernel), ?_⟩
  apply hlabels
  have hlabel : IsIdle (ascii "(7)") := Or.inr ⟨ascii "7", by decide +kernel, by decide⟩
  have hblank : IsIdle (ascii "// 7") := Or.inl (by decide +kernel)
  exact .cons (Or.inl rfl) (.cons (Or.inr ⟨hlabel, hblank⟩) (.cons (Or.inl rfl) .nil))

end Emission

end HackAssembly
