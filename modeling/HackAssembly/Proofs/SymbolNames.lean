import HackAssembly.Proofs.Correspondence
import Mathlib.Logic.Equiv.Basic

/-!
# Names do not matter

The names of labels and variables leave no trace in the machine code. Every line that declares or
loads a name is replaced by one that has the new name; the words keep their codes and lines, the
table is renamed, and a program that is refused is refused on the same line and for the same reason.
-/

namespace HackAssembly

/-- What stands in place of a line that loads or declares a name. -/
def replacement? (r : Renaming) (line : Bytes) : Option Bytes :=
  match Statement.parse (instructionText line) with
  | .ok (.load target) => some (byte '@' :: r.apply target)
  | .ok (.label name) => some (byte '(' :: r.apply name ++ [byte ')'])
  | _ => none

/-- The line with its name renamed; computations and lines without an instruction stay. -/
def renameLine (r : Renaming) (line : Bytes) : Bytes := (replacement? r line).getD line

variable {r : Renaming}

/-- The replacement of a line says the same with the new name. -/
theorem parse_replacement {line text : Bytes} (h : replacement? r line = some text) :
    Statement.parse text =
      (Statement.parse (instructionText line)).map (Statement.rename r) := by
  unfold replacement? at h
  split at h
  · rename_i target hparse
    cases h
    obtain ⟨-, hne⟩ := Statement.parse_eq_load_iff.mp hparse
    rw [hparse]
    exact Statement.parse_eq_load_iff.mpr ⟨rfl, r.apply_ne_nil hne⟩
  · rename_i name hparse
    cases h
    obtain ⟨-, hne⟩ := Statement.parse_eq_label_iff.mp hparse
    rw [hparse]
    exact Statement.parse_eq_label_iff.mpr ⟨rfl, r.apply_ne_nil hne⟩
  · cases h

theorem ne_nil_of_replacement {line text : Bytes} (h : replacement? r line = some text) :
    instructionText line ≠ [] ∧ text ≠ [] := by
  constructor
  · intro hnil
    rw [replacement?, hnil] at h
    cases h
  · rintro rfl
    unfold replacement? at h
    split at h <;> simp at h

theorem parse_of_no_replacement {line : Bytes} (h : replacement? r line = none) :
    (Statement.parse (instructionText line)).map (Statement.rename r) =
      Statement.parse (instructionText line) := by
  unfold replacement? at h
  split at h
  · cases h
  · cases h
  · rename_i hload hlabel
    cases hparse : Statement.parse (instructionText line) with
    | error how => rfl
    | ok statement =>
        cases statement with
        | load target => exact absurd hparse (hload target)
        | label name => exact absurd hparse (hlabel name)
        | compute fields => rfl

theorem SourceLine.ofLine?_of_ne_nil {line : Bytes} (number : Nat) (h : instructionText line ≠ []) :
    ofLine? number line = some ⟨number, instructionText line⟩ := by
  rw [ofLine?, if_neg (by simpa using h)]

/-- A line and its renamed form correspond, wherever they stand. -/
theorem rel_ofLine?_renameLine {line : Bytes} (number : Nat)
    (h : ∀ text ∈ replacement? r line, instructionText text = text) :
    Option.Rel (SourceLine.Corresponds (fun l m => m.number = l.number) r)
      (SourceLine.ofLine? number line) (SourceLine.ofLine? number (renameLine r line)) := by
  cases hreplacement : replacement? r line with
  | some text =>
      obtain ⟨hline, htext⟩ := ne_nil_of_replacement hreplacement
      have hkept := h text hreplacement
      rw [renameLine, hreplacement, Option.getD_some, SourceLine.ofLine?_of_ne_nil number hline,
        SourceLine.ofLine?_of_ne_nil number (by rwa [hkept]), hkept]
      exact .some ⟨rfl, parse_replacement hreplacement⟩
  | none =>
      rw [renameLine, hreplacement, Option.getD_none]
      by_cases hline : instructionText line = []
      · rw [SourceLine.ofLine?, hline]
        exact .none
      · rw [SourceLine.ofLine?_of_ne_nil number hline]
        exact .some ⟨rfl, (parse_of_no_replacement hreplacement).symm⟩

/-- Changing every line to a corresponding one changes the substantive lines to corresponding
ones. -/
theorem forall₂_substantiveFrom_map {R : SourceLine → SourceLine → Prop} {f : Bytes → Bytes}
    {lines : List Bytes} (h : ∀ line ∈ lines, ∀ number,
      Option.Rel R (SourceLine.ofLine? number line) (SourceLine.ofLine? number (f line)))
    (number : Nat) :
    List.Forall₂ R (substantiveFrom number lines) (substantiveFrom number (lines.map f)) := by
  induction lines generalizing number with
  | nil => exact .nil
  | cons line lines ih =>
      have hhead := h line List.mem_cons_self number
      have hrest := ih (fun other hother => h other (List.mem_cons_of_mem line hother)) (number + 1)
      rw [List.map_cons, substantiveFrom_cons, substantiveFrom_cons]
      generalize SourceLine.ofLine? number line = x at hhead ⊢
      generalize SourceLine.ofLine? number (f line) = y at hhead ⊢
      cases hhead with
      | some hR => exact .cons hR hrest
      | none => exact hrest

/-- Exchanges two names that are neither predefined nor numerals. -/
def Renaming.swap (a b : Name) (ha : (isPredefined a.1 || isSignedDigits a.1) = false)
    (hb : (isPredefined b.1 || isSignedDigits b.1) = false) : Renaming where
  map := Equiv.swap a b
  injective := (Equiv.swap a b).injective
  map_predefined name h := by
    apply Equiv.swap_apply_of_ne_of_ne <;>
      · rintro rfl
        simp [h] at ha hb
  map_numeral name h := by
    apply Equiv.swap_apply_of_ne_of_ne <;>
      · rintro rfl
        simp [h] at ha hb

namespace Assembler

/-- Renaming labels and variables changes neither codes nor lines; the table is renamed with them,
and a failure keeps its line and its cause. -/
theorem renaming_keeps_machine_code (asm : Assembler) (r : Renaming) (lines : List Bytes)
    (h : ∀ line ∈ lines, ∀ text ∈ replacement? r line, instructionText text = text) :
    let original := asm.assemble lines
    let renamed := asm.assemble (lines.map (renameLine r))
    (∃ words words', original.result = .ok words ∧ renamed.result = .ok words' ∧
        words'.map Word.code = words.map Word.code ∧ words'.map Word.line = words.map Word.line ∧
        original.assembler.symbols.IsRenamed r renamed.assembler.symbols) ∨
      ∃ number text text' cause, original.result = .error (.atLine number text cause) ∧
        renamed.result = .error (.atLine number text' cause) := by
  intro original renamed
  have hcorresponds := forall₂_substantiveFrom_map
    (fun line hline number => rel_ofLine?_renameLine number (h line hline)) 1
  rw [← substantive_eq_substantiveFrom, ← substantive_eq_substantiveFrom] at hcorresponds
  rcases assembled_or_refused asm hcorresponds with
    ⟨words, words', hresult, hresult', hwords, hsymbols⟩ | ⟨l, m, cause, hnumber, hresult, hresult'⟩
  · refine Or.inl ⟨words, words', hresult, hresult', ?_, ?_, hsymbols⟩
    · exact map_eq_of_forall₂ (fun _ _ hw => hw.code_eq) hwords
    · apply map_eq_of_forall₂ _ hwords
      intro w w' hw
      obtain ⟨l, m, hnumber, hl, hm⟩ := hw.lines
      rw [hl, hm, hnumber]
  · rw [SourceLine.failure, hnumber] at hresult'
    exact Or.inr ⟨l.number, l.text, m.text, cause, hresult, hresult'⟩

/-- A label and a variable exchange their names, next to a register and a numeral. -/
theorem renaming_swaps_label_and_variable :
    let r := Renaming.swap ⟨ascii "i", by decide⟩ ⟨ascii "LOOP", by decide⟩ (by decide +kernel)
      (by decide +kernel)
    let lines := [ascii "@i // counter", ascii "(LOOP)", ascii " @LOOP", ascii "@R1", ascii "D=M",
      ascii "@7"]
    let lines' := [ascii "@LOOP", ascii "(i)", ascii "@i", ascii "@R1", ascii "D=M", ascii "@7"]
    lines.map (renameLine r) = lines' ∧
      ∃ words words', (new.assemble lines).result = .ok words ∧
        (new.assemble lines').result = .ok words' ∧
        words'.map Word.code = words.map Word.code ∧ words'.map Word.line = words.map Word.line ∧
        (new.assemble lines).assembler.symbols.IsRenamed r
          (new.assemble lines').assembler.symbols := by
  intro r lines lines'
  have hlines : lines.map (renameLine r) = lines' := by decide +kernel
  have hkept : ∀ line ∈ lines, ∀ text ∈ replacement? r line, instructionText text = text := by
    decide +kernel
  have hok : (new.assemble lines).result.isOk = true := by decide +kernel
  have hsame := renaming_keeps_machine_code new r lines hkept
  rw [hlines] at hsame
  refine ⟨hlines, hsame.resolve_right ?_⟩
  rintro ⟨number, text, text', cause, hresult, -⟩
  rw [hresult] at hok
  cases hok

end Assembler

end HackAssembly
