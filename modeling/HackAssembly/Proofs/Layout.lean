import HackAssembly.Proofs.Correspondence
import HackAssembly.Proofs.Trimming

/-!
# Layout does not matter

Blank lines, comments and outer blanks have no influence on what a program is assembled to, only on
the numbers of its lines. Two sources with the same instructions correspond line by line, the first
substantive line of one to the first of the other and so on, and their outcomes differ at most in
line numbers, which are those of lines that belong together.
-/

namespace HackAssembly

/-- The instructions on some lines, in order. -/
def instructionTexts (lines : List Bytes) : List Bytes :=
  (lines.map instructionText).filter fun text => !text.isEmpty

/-- The lines without those that hold no instruction. -/
def withoutBlankLines (lines : List Bytes) : List Bytes :=
  lines.filter fun line => !(instructionText line).isEmpty

/-- For some `k`, the `k`-th substantive line of `a` has number `m` and that of `b` has number
`n`. -/
def Matched (a b : List Bytes) (m n : Int) : Prop :=
  ∃ (k : Nat) (l l' : SourceLine), (substantive a)[k]? = some l ∧ (substantive b)[k]? = some l' ∧
    m = l.number ∧ n = l'.number

/-- Outcomes of `a` and `b` that differ in line numbers only, and there as the substantive lines
are matched. -/
inductive SameUpToLayout (a b : List Bytes) (x y : Outcome) : Prop
  | assembled {words words' : List Word} (ok : x.result = .ok words) (ok' : y.result = .ok words')
      (code : words'.map Word.code = words.map Word.code)
      (source : words'.map Word.source = words.map Word.source)
      (symbols : y.assembler.symbols = x.assembler.symbols)
      (line : List.Forall₂ (Matched a b) (words.map Word.line) (words'.map Word.line)) :
      SameUpToLayout a b x y
  | refused {m n : Nat} {text : Bytes} {cause : Cause}
      (error : x.result = .error (.atLine m text cause))
      (error' : y.result = .error (.atLine n text cause)) (line : Matched a b m n) :
      SameUpToLayout a b x y

theorem map_text_substantive (lines : List Bytes) :
    (substantive lines).map SourceLine.text = instructionTexts lines := by
  have htexts : lines.map instructionText = ((lines.zipIdx 1).map fun numbered =>
      (⟨numbered.2, instructionText numbered.1⟩ : SourceLine)).map SourceLine.text := by
    rw [List.map_map]
    nth_rewrite 1 [← List.zipIdx_map_fst 1 lines]
    rw [List.map_map]
    rfl
  rw [instructionTexts, htexts, List.filter_map]
  rfl

theorem instructionTexts_map_instructionText (lines : List Bytes) :
    instructionTexts (lines.map instructionText) = instructionTexts lines := by
  have hidempotent : instructionText ∘ instructionText = instructionText :=
    funext instructionText_instructionText
  rw [instructionTexts, List.map_map, hidempotent, instructionTexts]

theorem instructionTexts_withoutBlankLines (lines : List Bytes) :
    instructionTexts (withoutBlankLines lines) = instructionTexts lines := by
  rw [instructionTexts, instructionTexts, List.filter_map, List.filter_map, withoutBlankLines,
    List.filter_filter]
  simp only [Function.comp_apply, Bool.and_self]
  rfl

/-- Sources with the same instructions correspond, each substantive line to the one at the same
place in the order. -/
theorem corresponds_of_instructionTexts_eq {a b : List Bytes}
    (h : instructionTexts a = instructionTexts b) :
    List.Forall₂ (SourceLine.Corresponds
        (fun l m => m.text = l.text ∧ Matched a b l.number m.number) Renaming.refl)
      (substantive a) (substantive b) := by
  have htexts : (substantive a).map SourceLine.text = (substantive b).map SourceLine.text :=
    (map_text_substantive a).trans (h.trans (map_text_substantive b).symm)
  have hlength := congrArg List.length htexts
  rw [List.length_map, List.length_map] at hlength
  refine List.forall₂_iff_get.mpr ⟨hlength, ?_⟩
  intro k hk hk'
  have htext : ((substantive b).get ⟨k, hk'⟩).text = ((substantive a).get ⟨k, hk⟩).text := by
    have hget := congrArg (fun texts => texts[k]?) htexts
    simpa [hk, hk', eq_comm] using hget
  refine ⟨⟨htext, k, _, _, List.getElem?_eq_getElem hk, List.getElem?_eq_getElem hk', rfl, rfl⟩, ?_⟩
  rw [htext]
  cases Statement.parse ((substantive a).get ⟨k, hk⟩).text with
  | error how => rfl
  | ok statement => exact congrArg Except.ok (statement.rename_refl).symm

namespace Assembler

theorem sameUpToLayout (asm : Assembler) {a b : List Bytes}
    (h : instructionTexts a = instructionTexts b) :
    SameUpToLayout a b (asm.assemble a) (asm.assemble b) := by
  rcases assembled_or_refused asm (corresponds_of_instructionTexts_eq h) with
    ⟨words, words', hresult, hresult', hwords, hsymbols⟩ |
    ⟨l, m, cause, ⟨htext, hmatched⟩, hresult, hresult'⟩
  · refine .assembled hresult hresult' ?_ ?_ (SymbolTable.eq_of_isRenamed_refl hsymbols) ?_
    · exact map_eq_of_forall₂ (fun _ _ hw => hw.code_eq) hwords
    · apply map_eq_of_forall₂ _ hwords
      intro w w' hw
      obtain ⟨l, m, ⟨htext, -⟩, hl, hm⟩ := hw.lines
      rw [hl, hm, htext]
    · rw [List.forall₂_map_left_iff, List.forall₂_map_right_iff]
      apply hwords.imp
      intro w w' hw
      obtain ⟨l, m, ⟨-, hmatched⟩, hl, hm⟩ := hw.lines
      rwa [hl, hm]
  · rw [SourceLine.failure, htext] at hresult'
    exact .refused hresult hresult' hmatched

/-- The outcome of a program depends on its instructions only, up to line numbers. In particular
every line may be replaced by the instruction on it, and lines without one may be left out. -/
theorem outcome_independent_of_layout (asm : Assembler) :
    (∀ a b, instructionTexts a = instructionTexts b →
        SameUpToLayout a b (asm.assemble a) (asm.assemble b)) ∧
      ∀ lines,
        SameUpToLayout lines (lines.map instructionText) (asm.assemble lines)
            (asm.assemble (lines.map instructionText)) ∧
          SameUpToLayout lines (withoutBlankLines lines) (asm.assemble lines)
            (asm.assemble (withoutBlankLines lines)) := by
  refine ⟨?_, ?_⟩
  · intro a b h
    exact sameUpToLayout asm h
  · intro lines
    exact ⟨sameUpToLayout asm (instructionTexts_map_instructionText lines).symm,
      sameUpToLayout asm (instructionTexts_withoutBlankLines lines).symm⟩

/-- The same two instructions, a name with slashes in it among them, in two layouts. -/
theorem outcome_of_two_layouts :
    let a := [ascii "// start", ascii " @a//b // one // two", ascii "", ascii "\t(a//b)"]
    let b := [ascii "@a//b", ascii " ", ascii "// gap", ascii "(a//b) // end", ascii "//"]
    instructionTexts a = instructionTexts b ∧
      SameUpToLayout a b (new.assemble a) (new.assemble b) := by
  intro a b
  have h : instructionTexts a = instructionTexts b := by decide +kernel
  exact ⟨h, (outcome_independent_of_layout new).1 a b h⟩

end Assembler

end HackAssembly
