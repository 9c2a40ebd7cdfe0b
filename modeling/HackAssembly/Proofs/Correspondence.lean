import HackAssembly.Proofs.Renaming

/-!
# Programs that say the same

Two sources correspond if their substantive lines do, one by one: corresponding lines hold the same
statement up to a renaming, and stand in some further relation `P`, which the applications choose.
Then both sources are assembled or both are refused (`assembled_or_refused`). Their words have the
same codes and come from corresponding lines; a failure has the same cause and is found on
corresponding lines.
-/

namespace HackAssembly

variable {P : SourceLine → SourceLine → Prop} {r : Renaming}

/-- The lines are related and say the same with other names; either both are malformed, and in the
same way, or none is. -/
structure SourceLine.Corresponds (P : SourceLine → SourceLine → Prop) (r : Renaming)
    (l m : SourceLine) : Prop where
  related : P l m
  parse_eq : Statement.parse m.text = (Statement.parse l.text).map (Statement.rename r)

structure Item.Corresponds (P : SourceLine → SourceLine → Prop) (r : Renaming) (i j : Item) :
    Prop where
  related : P i.line j.line
  statement_eq : j.statement = i.statement.rename r

/-- The words have the same code and come from related lines. -/
structure Word.Corresponds (P : SourceLine → SourceLine → Prop) (w w' : Word) : Prop where
  code_eq : w'.code = w.code
  lines : ∃ l m, P l m ∧ w = ⟨w.code, l.number, l.text⟩ ∧ w' = ⟨w'.code, m.number, m.text⟩

/-- The failures have the same cause and are found on related lines. -/
inductive Failure.Corresponds (P : SourceLine → SourceLine → Prop) : Failure → Failure → Prop
  | onLines {l m : SourceLine} (related : P l m) (cause : Cause) :
      Failure.Corresponds P (l.failure cause) (m.failure cause)

namespace SourceLine.Corresponds

variable {l m : SourceLine}

theorem rel_item? (h : l.Corresponds P r m) :
    Option.Rel (Item.Corresponds P r) l.item? m.item? := by
  rw [item?, item?, h.parse_eq]
  cases Statement.parse l.text with
  | ok statement => exact .some ⟨h.related, rfl⟩
  | error how => exact .none

theorem rel_fault? (h : l.Corresponds P r m) :
    Option.Rel (Failure.Corresponds P) l.fault? m.fault? := by
  rw [fault?, fault?, h.parse_eq]
  cases Statement.parse l.text with
  | ok statement => exact .none
  | error how => exact .some (.onLines h.related _)

end SourceLine.Corresponds

namespace Item.Corresponds

variable {items items' : List Item} {i j : Item}

theorem encodeUnder_eq (h : i.Corresponds P r j) (hitems : Renamed r items items')
    (hi : i ∈ items) : j.statement.encodeUnder (Program.meaning? items') =
      i.statement.encodeUnder (Program.meaning? items) := by
  rw [h.statement_eq, Program.encodeUnder_rename hitems hi]

theorem rel_word? (h : i.Corresponds P r j) (hitems : Renamed r items items') (hi : i ∈ items) :
    Option.Rel (Word.Corresponds P) (i.word? (Program.meaning? items))
      (j.word? (Program.meaning? items')) := by
  rw [word?, word?, h.encodeUnder_eq hitems hi]
  rcases i.statement.encodeUnder (Program.meaning? items) with _ | cause | code
  · exact .none
  · exact .none
  · exact .some ⟨rfl, i.line, j.line, h.related, rfl, rfl⟩

theorem rel_refusal? (h : i.Corresponds P r j) (hitems : Renamed r items items')
    (hi : i ∈ items) : Option.Rel (Failure.Corresponds P) (i.refusal? (Program.meaning? items))
      (j.refusal? (Program.meaning? items')) := by
  rw [refusal?, refusal?, h.encodeUnder_eq hitems hi]
  rcases i.statement.encodeUnder (Program.meaning? items) with _ | cause | code
  · exact .none
  · exact .some (.onLines h.related cause)
  · exact .none

end Item.Corresponds

section

variable {items items' : List Item}

theorem renamed_of_corresponds (h : List.Forall₂ (Item.Corresponds P r) items items') :
    Renamed r items items' :=
  h.imp fun _ _ hij => hij.statement_eq

theorem rel_refusal?_of_corresponds (h : List.Forall₂ (Item.Corresponds P r) items items') :
    Option.Rel (Failure.Corresponds P) (Program.refusal? items) (Program.refusal? items') :=
  rel_findSome? (fun _ hi _ hij => hij.rel_refusal? (renamed_of_corresponds h) hi) h

theorem rel_words_of_corresponds (h : List.Forall₂ (Item.Corresponds P r) items items') :
    List.Forall₂ (Word.Corresponds P) (items.filterMap (Item.word? (Program.meaning? items)))
      (items'.filterMap (Item.word? (Program.meaning? items'))) := by
  have hmem : List.Forall₂ (fun i j => i ∈ items ∧ i.Corresponds P r j) items items' :=
    (List.forall₂_and_left items items').mpr ⟨fun _ hi => hi, h⟩
  apply List.rel_filterMap _ hmem
  intro i j hij
  exact hij.2.rel_word? (renamed_of_corresponds h) hij.1

end

namespace Assembler

/-- Corresponding sources are both assembled, and then the tables are related by the renaming, or
they are both refused. -/
theorem assembled_or_refused (asm : Assembler) {a b : List Bytes}
    (h : List.Forall₂ (SourceLine.Corresponds P r) (substantive a) (substantive b)) :
    (∃ words words', (asm.assemble a).result = .ok words ∧ (asm.assemble b).result = .ok words' ∧
        List.Forall₂ (Word.Corresponds P) words words' ∧
        (asm.assemble a).assembler.symbols.IsRenamed r (asm.assemble b).assembler.symbols) ∨
      ∃ l m cause, P l m ∧ (asm.assemble a).result = .error (l.failure cause) ∧
        (asm.assemble b).result = .error (m.failure cause) := by
  have hitems : List.Forall₂ (Item.Corresponds P r) (program a) (program b) :=
    List.rel_filterMap (fun _ _ hlm => hlm.rel_item?) h
  have hfault : Option.Rel (Failure.Corresponds P) (Program.fault? (substantive a))
      (Program.fault? (substantive b)) := rel_findSome? (fun _ _ _ hlm => hlm.rel_fault?) h
  have hfailure : Option.Rel (Failure.Corresponds P) (failure? a) (failure? b) :=
    rel_or hfault (rel_refusal?_of_corresponds hitems)
  generalize ha : failure? a = x at hfailure
  generalize hb : failure? b = y at hfailure
  cases hfailure with
  | some h =>
      cases h with
      | onLines related cause =>
          exact Or.inr ⟨_, _, cause, related, result_of_failure asm ha, result_of_failure asm hb⟩
  | none =>
      obtain ⟨words, hresult, hassembled⟩ := exists_assembled_of_no_failure asm ha
      obtain ⟨words', hresult', hassembled'⟩ := exists_assembled_of_no_failure asm hb
      refine Or.inl ⟨words, words', hresult, hresult', ?_, ?_⟩
      · rw [hassembled.words_eq, hassembled'.words_eq]
        exact rel_words_of_corresponds hitems
      · exact Program.isRenamed_of_meaning? (renamed_of_corresponds hitems) hassembled.get?_eq
          hassembled'.get?_eq

end Assembler

end HackAssembly
