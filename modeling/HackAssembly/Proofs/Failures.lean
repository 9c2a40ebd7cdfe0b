import HackAssembly.Proofs.Numerals
import HackAssembly.Proofs.Outcome

/-!
# Which failure is reported

A run fails for the first malformed line if there is one, and otherwise for the first line that
cannot be encoded; a program without either is assembled. What keeps a well-formed line from being
encoded is said by `Unencodable` without reference to a run: an unknown mnemonic, or an address that
does not fit in a word. In particular the passes never run out of lines and never meet a name that
has no address.
-/

namespace HackAssembly

/-- Why a statement of a program has no word although its shape is known. The fields of a
computation are looked up in the order operation, destination, jump. -/
inductive Unencodable (items : List Item) : Statement → Cause → Prop
  | comp {fields : Fields} (hcomp : Comp.ofMnemonic? fields.comp = none) :
      Unencodable items (.compute fields) (.unknownMnemonic .comp fields.comp)
  | dest {fields : Fields} {comp : Comp} (hcomp : Comp.ofMnemonic? fields.comp = some comp)
      (hdest : Dest.ofMnemonic? fields.dest = none) :
      Unencodable items (.compute fields) (.unknownMnemonic .dest fields.dest)
  | jump {fields : Fields} {comp : Comp} {dest : Dest}
      (hcomp : Comp.ofMnemonic? fields.comp = some comp)
      (hdest : Dest.ofMnemonic? fields.dest = some dest)
      (hjump : Jump.ofMnemonic? fields.jump = none) :
      Unencodable items (.compute fields) (.unknownMnemonic .jump fields.jump)
  | longNumeral {target : Bytes} (hnumeral : isSignedDigits target = true)
      (hlong : ¬(-2 ^ 63 ≤ signedPlaceValue target ∧ signedPlaceValue target < 2 ^ 63)) :
      Unencodable items (.load target) (.numeralTooLong target)
  | wideNumeral {target : Bytes} (hnumeral : isSignedDigits target = true)
      (hfits : -2 ^ 63 ≤ signedPlaceValue target ∧ signedPlaceValue target < 2 ^ 63)
      (hwide : ¬(0 ≤ signedPlaceValue target ∧ signedPlaceValue target ≤ 65535)) :
      Unencodable items (.load target) (.addressTooWide (signedPlaceValue target))
  | wideSymbol {target : Bytes} {address : Int} (hsymbol : isSignedDigits target = false)
      (haddress : Program.meaning? items target = some address)
      (hwide : ¬(0 ≤ address ∧ address ≤ 65535)) :
      Unencodable items (.load target) (.addressTooWide address)

/-! ### Encoding fails exactly on what cannot be encoded -/

theorem encodeAddress_eq_error_iff {address : Int} {cause : Cause} :
    encodeAddress address = .error cause ↔
      ¬(0 ≤ address ∧ address ≤ 65535) ∧ cause = .addressTooWide address := by
  unfold encodeAddress
  split
  · rename_i hfits
    constructor
    · intro h
      cases h
    · rintro ⟨hwide, -⟩
      exact absurd hfits hwide
  · rename_i hwide
    constructor
    · intro h
      cases h
      exact ⟨hwide, rfl⟩
    · rintro ⟨-, rfl⟩
      rfl

namespace Program

variable {items : List Item}

theorem encodeUnder_of_unencodable {statement : Statement} {cause : Cause}
    (h : Unencodable items statement cause) :
    statement.encodeUnder (meaning? items) = some (.error cause) := by
  cases h with
  | comp hcomp => rw [Statement.encodeUnder, encodeFields, hcomp]
  | dest hcomp hdest => rw [Statement.encodeUnder, encodeFields, hcomp, hdest]
  | jump hcomp hdest hjump => rw [Statement.encodeUnder, encodeFields, hcomp, hdest, hjump]
  | longNumeral hnumeral hlong =>
      rw [← Numeral.fits64_iff, Bool.not_eq_true] at hlong
      rw [Statement.encodeUnder, if_pos hnumeral, encodeNumeral, Numeral.toInt_eq_signedPlaceValue,
        hlong]
      rfl
  | wideNumeral hnumeral hfits hwide =>
      rw [← Numeral.fits64_iff] at hfits
      rw [Statement.encodeUnder, if_pos hnumeral, encodeNumeral, Numeral.toInt_eq_signedPlaceValue,
        hfits]
      exact congrArg some (encodeAddress_eq_error_iff.mpr ⟨hwide, rfl⟩)
  | wideSymbol hsymbol haddress hwide =>
      rw [Statement.encodeUnder, hsymbol, haddress]
      exact congrArg some (encodeAddress_eq_error_iff.mpr ⟨hwide, rfl⟩)

theorem unencodable_of_encodeFields {fields : Fields} {cause : Cause}
    (h : encodeFields fields = .error cause) : Unencodable items (.compute fields) cause := by
  unfold encodeFields at h
  split at h
  · rename_i hcomp
    cases h
    exact .comp hcomp
  · rename_i comp hcomp
    split at h
    · rename_i hdest
      cases h
      exact .dest hcomp hdest
    · rename_i dest hdest
      split at h
      · rename_i hjump
        cases h
        exact .jump hcomp hdest hjump
      · cases h

theorem unencodable_of_encodeNumeral {target : Bytes} {cause : Cause}
    (hnumeral : isSignedDigits target = true) (h : encodeNumeral target = .error cause) :
    Unencodable items (.load target) cause := by
  simp only [encodeNumeral, Numeral.toInt_eq_signedPlaceValue, Numeral.fits64_iff] at h
  split at h
  · rename_i hfits
    obtain ⟨hwide, rfl⟩ := encodeAddress_eq_error_iff.mp h
    exact .wideNumeral hnumeral hfits hwide
  · rename_i hlong
    cases h
    exact .longNumeral hnumeral hlong

/-- A statement of the program that is refused cannot be encoded; that a name has no address is
never the reason. -/
theorem unencodable_of_encodeUnder {i : Item} (hi : i ∈ items) {cause : Cause}
    (h : i.statement.encodeUnder (meaning? items) = some (.error cause)) :
    Unencodable items i.statement cause := by
  obtain ⟨line, statement⟩ := i
  cases statement with
  | label name => cases h
  | compute fields => exact unencodable_of_encodeFields (Option.some.inj h)
  | load target =>
      have hload := Option.some.inj h
      split at hload
      · rename_i hnumeral
        exact unencodable_of_encodeNumeral hnumeral hload
      · rename_i hnot
        have hsymbol := Bool.eq_false_iff.mpr hnot
        obtain ⟨address, haddress⟩ := exists_meaning? hi rfl hsymbol
        rw [haddress] at hload
        obtain ⟨hwide, rfl⟩ := encodeAddress_eq_error_iff.mp hload
        exact .wideSymbol hsymbol haddress hwide

end Program

/-! ### The first line with a fault -/

/-- A line with a property before which there is none. -/
def IsFirst (p : SourceLine → Prop) (source : List SourceLine) (l : SourceLine) : Prop :=
  ∃ before after, source = before ++ l :: after ∧ p l ∧ ∀ m ∈ before, ¬p m

/-- The line has no known shape. -/
def SourceLine.IsMalformed (l : SourceLine) : Prop := ∃ how, Statement.parse l.text = .error how

/-- The line has a known shape, but its statement cannot be encoded in the program. -/
def SourceLine.IsRefusedFor (lines : List Bytes) (l : SourceLine) (cause : Cause) : Prop :=
  ∃ statement, Statement.parse l.text = .ok statement ∧
    Unencodable (program lines) statement cause

/-- The line cannot be encoded in the program, for whatever reason. -/
def SourceLine.IsRefused (lines : List Bytes) (l : SourceLine) : Prop :=
  ∃ cause, l.IsRefusedFor lines cause

theorem IsFirst.mem {p : SourceLine → Prop} {source : List SourceLine} {l : SourceLine}
    (h : IsFirst p source l) : l ∈ source := by
  obtain ⟨before, after, rfl, -, -⟩ := h
  simp

/-- A search that fails on the lines with a property stops at the first of them. -/
theorem exists_isFirst_of_findSome? {source : List SourceLine} {p : SourceLine → Prop}
    {f : SourceLine → Option Failure} {failure : Failure}
    (hp : ∀ l ∈ source, f l = none ↔ ¬p l) (h : source.findSome? f = some failure) :
    ∃ l, IsFirst p source l ∧ f l = some failure := by
  obtain ⟨before, l, after, rfl, hl, hbefore⟩ := List.findSome?_eq_some_iff.mp h
  refine ⟨l, ⟨before, after, rfl, ?_, ?_⟩, hl⟩
  · by_contra hnot
    rw [(hp l (by simp)).mpr hnot] at hl
    cases hl
  · intro m hm
    exact (hp m (by simp [hm])).mp (hbefore m hm)

theorem SourceLine.fault?_eq_some_iff {l : SourceLine} {failure : Failure} :
    l.fault? = some failure ↔
      ∃ how, Statement.parse l.text = .error how ∧ failure = l.failure (.malformed how) := by
  unfold fault?
  cases Statement.parse l.text with
  | ok statement => simp
  | error how => simp [eq_comm]

theorem SourceLine.fault?_eq_none_iff {l : SourceLine} : l.fault? = none ↔ ¬l.IsMalformed := by
  rw [fault?, IsMalformed]
  cases Statement.parse l.text <;> simp

theorem Program.fault?_eq_none_iff {source : List SourceLine} :
    fault? source = none ↔ ∀ l ∈ source, ¬l.IsMalformed := by
  simp only [fault?, List.findSome?_eq_none_iff, SourceLine.fault?_eq_none_iff]

section Refusals

variable {lines : List Bytes}

/-- The failure of a line whose statement cannot be encoded. -/
def SourceLine.refusal? (lines : List Bytes) (l : SourceLine) : Option Failure :=
  l.item?.bind (Item.refusal? (Program.meaning? (program lines)))

theorem Program.refusal?_eq_findSome? :
    refusal? (program lines) = (substantive lines).findSome? (SourceLine.refusal? lines) := by
  rw [refusal?, ← List.head?_filterMap]
  nth_rewrite 2 [program]
  rw [statements, List.filterMap_filterMap, List.head?_filterMap]
  rfl

theorem SourceLine.refusal?_eq_some_iff {l : SourceLine} (hl : l ∈ substantive lines)
    {failure : Failure} :
    l.refusal? lines = some failure ↔
      ∃ cause, l.IsRefusedFor lines cause ∧ failure = l.failure cause := by
  rw [SourceLine.refusal?, item?]
  cases hparse : Statement.parse l.text with
  | error how => simp [IsRefusedFor, hparse]
  | ok statement =>
      have hmem : (⟨l, statement⟩ : Item) ∈ program lines :=
        Program.mem_statements.mpr ⟨hl, hparse⟩
      rw [Option.bind_some, Item.refusal?]
      constructor
      · intro h
        split at h
        · rename_i cause hencode
          cases h
          exact ⟨cause, ⟨statement, hparse, Program.unencodable_of_encodeUnder hmem hencode⟩, rfl⟩
        · cases h
      · rintro ⟨cause, ⟨statement', hparse', hunencodable⟩, rfl⟩
        rw [hparse] at hparse'
        cases hparse'
        rw [Program.encodeUnder_of_unencodable hunencodable]

theorem SourceLine.refusal?_eq_none_iff {l : SourceLine} (hl : l ∈ substantive lines) :
    l.refusal? lines = none ↔ ¬l.IsRefused lines := by
  constructor
  · rintro h ⟨cause, hrefused⟩
    have hsome := (refusal?_eq_some_iff hl).mpr ⟨cause, hrefused, rfl⟩
    rw [h] at hsome
    cases hsome
  · intro hnot
    cases h : l.refusal? lines with
    | none => rfl
    | some failure =>
        obtain ⟨cause, hrefused, -⟩ := (refusal?_eq_some_iff hl).mp h
        exact absurd ⟨cause, hrefused⟩ hnot

theorem Program.refusal?_eq_none_iff :
    refusal? (program lines) = none ↔ ∀ l ∈ substantive lines, ¬l.IsRefused lines := by
  rw [refusal?_eq_findSome?, List.findSome?_eq_none_iff]
  constructor
  · intro h l hl
    exact (SourceLine.refusal?_eq_none_iff hl).mp (h l hl)
  · intro h l hl
    exact (SourceLine.refusal?_eq_none_iff hl).mpr (h l hl)

end Refusals

namespace Assembler

variable (asm : Assembler) {lines : List Bytes}

theorem exists_first_malformed {failure : Failure}
    (h : Program.fault? (substantive lines) = some failure) :
    ∃ l how, IsFirst SourceLine.IsMalformed (substantive lines) l ∧
      Statement.parse l.text = .error how ∧ failure = .atLine l.number l.text (.malformed how) := by
  obtain ⟨l, hfirst, hl⟩ := exists_isFirst_of_findSome?
    (fun l _ => SourceLine.fault?_eq_none_iff) h
  obtain ⟨how, hparse, hfailure⟩ := SourceLine.fault?_eq_some_iff.mp hl
  exact ⟨l, how, hfirst, hparse, hfailure⟩

theorem exists_first_refused {failure : Failure}
    (h : Program.refusal? (program lines) = some failure) :
    ∃ l cause, IsFirst (SourceLine.IsRefused lines) (substantive lines) l ∧
      l.IsRefusedFor lines cause ∧ failure = .atLine l.number l.text cause := by
  rw [Program.refusal?_eq_findSome?] at h
  obtain ⟨l, hfirst, hl⟩ := exists_isFirst_of_findSome?
    (fun l hl => SourceLine.refusal?_eq_none_iff hl) h
  obtain ⟨cause, hrefused, hfailure⟩ := (SourceLine.refusal?_eq_some_iff hfirst.mem).mp hl
  exact ⟨l, cause, hfirst, hrefused, hfailure⟩

/-- Every failure is found on a line of the program, which is malformed or cannot be encoded. -/
theorem exists_line_of_error {failure : Failure}
    (h : (asm.assemble lines).result = .error failure) :
    ∃ l ∈ substantive lines, ∃ cause, failure = .atLine l.number l.text cause ∧
      ((∃ how, cause = .malformed how) ∨ l.IsRefusedFor lines cause) := by
  cases hfault : Program.fault? (substantive lines) with
  | some fault =>
      rw [result_of_fault asm hfault] at h
      cases h
      obtain ⟨l, how, hfirst, -, hfailure⟩ := exists_first_malformed hfault
      exact ⟨l, hfirst.mem, _, hfailure, Or.inl ⟨how, rfl⟩⟩
  | none =>
      cases hrefusal : Program.refusal? (program lines) with
      | some refusal =>
          rw [result_of_refusal asm hfault hrefusal] at h
          cases h
          obtain ⟨l, cause, hfirst, hrefused, hfailure⟩ := exists_first_refused hrefusal
          exact ⟨l, hfirst.mem, cause, hfailure, Or.inr hrefused⟩
      | none =>
          obtain ⟨words, hresult, -⟩ := exists_assembled asm hfault hrefusal
          rw [hresult] at h
          cases h

/-- Exactly which failure a program is refused with: the first malformed line before all others,
then the first line that cannot be encoded; otherwise it is assembled. The failure tells the line's
number and text, and is never about a name without an address or the end of the lines. -/
theorem failure_is_first_fault (asm : Assembler) (lines : List Bytes) :
    let source := substantive lines
    let result := (asm.assemble lines).result
    ((∃ l ∈ source, l.IsMalformed) →
        ∃ l how, IsFirst SourceLine.IsMalformed source l ∧ Statement.parse l.text = .error how ∧
          result = .error (.atLine l.number l.text (.malformed how))) ∧
      ((∀ l ∈ source, ¬l.IsMalformed) → (∃ l ∈ source, l.IsRefused lines) →
        ∃ l cause, IsFirst (SourceLine.IsRefused lines) source l ∧ l.IsRefusedFor lines cause ∧
          result = .error (.atLine l.number l.text cause)) ∧
      ((∀ l ∈ source, ¬l.IsMalformed ∧ ¬l.IsRefused lines) → ∃ words, result = .ok words) ∧
      ∀ failure, result = .error failure →
        ∃ number text cause, failure = .atLine number text cause ∧ 1 ≤ number ∧
          number ≤ lines.length ∧ (lines[number - 1]?).map instructionText = some text ∧
          (∀ name, cause ≠ .undefinedSymbol name) ∧ cause ≠ .noMoreInstructions := by
  refine ⟨?_, ?_, ?_, ?_⟩
  · rintro ⟨m, hm, hmalformed⟩
    cases hfault : Program.fault? (substantive lines) with
    | none => exact absurd hmalformed (Program.fault?_eq_none_iff.mp hfault m hm)
    | some failure =>
        obtain ⟨l, how, hfirst, hparse, rfl⟩ := exists_first_malformed hfault
        exact ⟨l, how, hfirst, hparse, result_of_fault asm hfault⟩
  · rintro hwellFormed ⟨m, hm, hrefused⟩
    have hfault := Program.fault?_eq_none_iff.mpr hwellFormed
    cases hrefusal : Program.refusal? (program lines) with
    | none => exact absurd hrefused (Program.refusal?_eq_none_iff.mp hrefusal m hm)
    | some failure =>
        obtain ⟨l, cause, hfirst, hcause, rfl⟩ := exists_first_refused hrefusal
        exact ⟨l, cause, hfirst, hcause, result_of_refusal asm hfault hrefusal⟩
  · intro h
    obtain ⟨words, hresult, -⟩ := exists_assembled asm
      (Program.fault?_eq_none_iff.mpr fun l hl => (h l hl).1)
      (Program.refusal?_eq_none_iff.mpr fun l hl => (h l hl).2)
    exact ⟨words, hresult⟩
  · intro failure hfailure
    obtain ⟨l, hl, cause, rfl, hcause⟩ := exists_line_of_error asm hfailure
    obtain ⟨hpos, hle, htext⟩ := exists_of_mem_substantive hl
    refine ⟨l.number, l.text, cause, rfl, hpos, hle, htext, ?_⟩
    rcases hcause with ⟨how, rfl⟩ | ⟨statement, -, hunencodable⟩
    · exact ⟨fun _ => Cause.noConfusion, Cause.noConfusion⟩
    · cases hunencodable <;> exact ⟨fun _ => Cause.noConfusion, Cause.noConfusion⟩

/-- A malformed line is reported before an unknown mnemonic and a wide address on earlier lines. -/
example : (new.assemble [ascii "D=Q", ascii "@65536", ascii "", ascii " ?"]).result =
    .error (.atLine 4 (ascii "?") (.malformed .shape)) := by decide +kernel

end Assembler

end HackAssembly
