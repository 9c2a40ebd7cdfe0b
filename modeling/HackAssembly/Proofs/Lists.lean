import Mathlib.Data.List.DropRight
import Mathlib.Data.List.Forall2
import Mathlib.Data.List.Induction
import Mathlib.Data.List.Nodup

/-!
# Facts about lists

What the library does not say about first occurrences, positions, lists that correspond item by
item, the ends of lists, and sorting by a number. Nothing here is about programs; the modules that
follow use it for names, statements, words, messages and files.
-/

namespace HackAssembly

section FirstOccurrences

variable {α β : Type} [BEq α] [LawfulBEq α] [BEq β] [LawfulBEq β]

theorem eraseDups_concat (l : List α) (a : α) :
    (l ++ [a]).eraseDups = if a ∈ l then l.eraseDups else l.eraseDups ++ [a] := by
  rw [List.eraseDups_append]
  by_cases h : a ∈ l
  · simp [List.removeAll, h]
  · simp [List.removeAll, h, List.eraseDups_cons]

theorem nodup_eraseDups (l : List α) : l.eraseDups.Nodup := by
  induction l using List.reverseRecOn with
  | nil => exact List.nodup_nil
  | append_singleton l a ih =>
      rw [eraseDups_concat]
      split
      · exact ih
      · rename_i h
        rw [List.nodup_append]
        refine ⟨ih, List.nodup_singleton a, ?_⟩
        intro b hb c hc
        obtain rfl := List.mem_singleton.mp hc
        rintro rfl
        exact h (List.mem_eraseDups.mp hb)

theorem eraseDups_map {f : α → β} (hf : Function.Injective f) (l : List α) :
    (l.map f).eraseDups = l.eraseDups.map f := by
  induction l using List.reverseRecOn with
  | nil => rfl
  | append_singleton l a ih =>
      have hmem : f a ∈ l.map f ↔ a ∈ l := List.mem_map_of_injective hf
      rw [List.map_append, List.map_singleton, eraseDups_concat, eraseDups_concat, ih]
      by_cases h : a ∈ l
      · rw [if_pos h, if_pos (hmem.mpr h)]
      · rw [if_neg h, if_neg (mt hmem.mp h), List.map_append, List.map_singleton]

omit [LawfulBEq α] in
theorem idxOf?_append (left right : List α) (a : α) :
    (left ++ right).idxOf? a =
      (left.idxOf? a).or ((right.idxOf? a).map fun k => k + left.length) :=
  List.findIdx?_append

theorem idxOf?_map {f : α → β} (hf : Function.Injective f) (l : List α) (a : α) :
    (l.map f).idxOf? (f a) = l.idxOf? a := by
  rw [List.idxOf?, List.idxOf?, List.findIdx?_map]
  congr 1
  funext b
  rw [Function.comp_apply, Bool.eq_iff_iff, beq_iff_eq, beq_iff_eq, hf.eq_iff]

end FirstOccurrences

section Correspondence

variable {α β γ δ : Type}

/-- The first hits in two lists whose members give related answers. -/
theorem rel_findSome? {R : α → β → Prop} {S : γ → δ → Prop} {f : α → Option γ}
    {g : β → Option δ} {l : List α} {l' : List β}
    (hfg : ∀ a ∈ l, ∀ b, R a b → Option.Rel S (f a) (g b)) (h : List.Forall₂ R l l') :
    Option.Rel S (l.findSome? f) (l'.findSome? g) := by
  induction h with
  | nil => exact .none
  | @cons a b l l' hab _ ih =>
      have hhead := hfg a List.mem_cons_self b hab
      rw [List.findSome?_cons, List.findSome?_cons]
      generalize f a = x at hhead ⊢
      generalize g b = y at hhead ⊢
      cases hhead with
      | some hS => exact .some hS
      | none => exact ih fun a' ha' => hfg a' (List.mem_cons_of_mem a ha')

theorem rel_or {S : α → β → Prop} {x y : Option α} {x' y' : Option β}
    (hx : Option.Rel S x x') (hy : Option.Rel S y y') : Option.Rel S (x.or y) (x'.or y') := by
  cases hx with
  | some h => exact .some h
  | none => exact hy

theorem map_eq_of_forall₂ {R : α → α → Prop} {f : α → β} {l l' : List α}
    (hf : ∀ a b, R a b → f b = f a) (h : List.Forall₂ R l l') : l'.map f = l.map f := by
  induction h with
  | nil => rfl
  | cons hab _ ih => rw [List.map_cons, List.map_cons, hf _ _ hab, ih]

end Correspondence

section Ends

variable {α : Type} [BEq α] [LawfulBEq α]

theorem dropPrefix?_append (front l : List α) : (front ++ l).dropPrefix? front = some l :=
  List.dropPrefix?_eq_some_iff.mpr ⟨front, rfl, BEq.rfl⟩

theorem dropSuffix?_append (l ending : List α) : (l ++ ending).dropSuffix? ending = some l :=
  List.dropSuffix?_eq_some_iff.mpr ⟨ending, rfl, BEq.rfl⟩

/-- Lists with different last items have different endings. -/
theorem dropSuffix?_concat_of_ne {a b : α} (h : a ≠ b) (l ending : List α) :
    (l ++ [a]).dropSuffix? (ending ++ [b]) = none := by
  rw [Option.eq_none_iff_forall_ne_some]
  intro rest hrest
  obtain ⟨found, hsplit, hfound⟩ := List.dropSuffix?_eq_some_iff.mp hrest
  rw [eq_of_beq hfound, ← List.append_assoc] at hsplit
  obtain ⟨-, hlast⟩ := List.append_inj' hsplit rfl
  exact h (List.singleton_inj.mp hlast)

end Ends

/-- A word behind a list that ends outside of words is the last word of the whole. -/
theorem rtakeWhile_append {α : Type} {p : α → Bool} {l word : List α}
    (hl : l.rtakeWhile p = []) (hword : ∀ a ∈ word, p a = true) :
    (l ++ word).rtakeWhile p = word ∧ (l ++ word).rdropWhile p = l := by
  have htake : (l ++ word).rtakeWhile p = word := by
    have hfront : l.reverse.takeWhile p = [] := List.reverse_eq_nil_iff.mp hl
    rw [List.rtakeWhile, List.reverse_append,
      List.takeWhile_append_of_pos fun a ha => hword a (List.mem_reverse.mp ha), hfront,
      List.append_nil, List.reverse_reverse]
  have hsplit : (l ++ word).rdropWhile p ++ (l ++ word).rtakeWhile p = l ++ word :=
    List.rdropWhile_append_rtakeWhile
  rw [htake] at hsplit
  exact ⟨htake, List.append_cancel_right hsplit⟩

/-- Items that are told apart by a number can be put in order of it in one way only. -/
theorem mergeSort_eq_of_perm {α : Type} {key : α → Nat} {l l' : List α} (h : l.Perm l')
    (hsorted : l'.Pairwise fun a b => key a ≤ key b)
    (hkey : ∀ a ∈ l', ∀ b ∈ l', key a = key b → a = b) :
    l.mergeSort (fun a b => key a ≤ key b) = l' := by
  have hmergeSort : (l.mergeSort fun a b => key a ≤ key b).Pairwise fun a b => key a ≤ key b := by
    have hpairwise : (l.mergeSort fun a b => key a ≤ key b).Pairwise
        fun a b => decide (key a ≤ key b) = true := by
      apply List.pairwise_mergeSort
      · intro a b c hab hbc
        simp only [decide_eq_true_eq] at hab hbc ⊢
        exact Nat.le_trans hab hbc
      · intro a b
        simp only [Bool.or_eq_true, decide_eq_true_eq]
        exact Nat.le_total (key a) (key b)
    simpa using hpairwise
  refine List.Perm.eq_of_pairwise ?_ hmergeSort hsorted ((List.mergeSort_perm _ _).trans h)
  intro a b ha hb hab hba
  rw [List.mem_mergeSort, h.mem_iff] at ha
  exact hkey a ha b hb (Nat.le_antisymm hab hba)

theorem filter_append_eq_left {α : Type} {p : α → Bool} {left right : List α}
    (hleft : ∀ a ∈ left, p a = true) (hright : ∀ a ∈ right, p a = false) :
    (left ++ right).filter p = left := by
  rw [List.filter_append, List.filter_eq_self.mpr hleft,
    List.filter_eq_nil_iff.mpr fun a ha => by rw [hright a ha]; exact Bool.false_ne_true,
    List.append_nil]

end HackAssembly
