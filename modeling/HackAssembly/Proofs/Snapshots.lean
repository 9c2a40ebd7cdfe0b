import HackAssembly.Proofs.TablesAfterFailure
import Mathlib.Data.List.Sort

/-!
# Snapshots of a symbol table

A snapshot lists the bindings of a table by address and then by name. No name is bound twice, so
the order is strict, and there is only one list in strict order with given members. A snapshot is
therefore decided by the last binding of each name, and not by how the table came about.
-/

namespace HackAssembly

/-! ### The order of a snapshot -/

/-- The comparison behind a table is the lexicographic order of byte texts. -/
theorem Bytes.compare_eq_lt_iff {s t : Bytes} : compare s t = .lt ↔ s < t := by
  induction s generalizing t with
  | nil =>
      cases t with
      | nil => simp
      | cons b t => simp [List.compare_nil_cons]
  | cons a s ih =>
      cases t with
      | nil => simp [List.compare_cons_nil]
      | cons b t =>
          rw [List.compare_cons_cons, Ordering.then_eq_lt, Std.compare_eq_lt, ih,
            Std.LawfulEqCmp.compare_eq_iff_eq, List.cons_lt_cons_iff]

namespace Binding

/-- Where a binding stands before another: at a smaller address, or at the same address with a name
that comes first byte by byte. -/
def Precedes (a b : Binding) : Prop :=
  a.address < b.address ∨ a.address = b.address ∧ a.name < b.name

instance : Std.Irrefl Precedes where
  irrefl := by
    rintro a (h | ⟨-, h⟩)
    · exact Int.lt_irrefl _ h
    · exact List.lt_irrefl _ h

theorem Precedes.trans {a b c : Binding} (hab : a.Precedes b) (hbc : b.Precedes c) :
    a.Precedes c := by
  rcases hab with hab | ⟨hab, hnames⟩
  · rcases hbc with hbc | ⟨hbc, -⟩
    · exact Or.inl (by omega)
    · exact Or.inl (by omega)
  · rcases hbc with hbc | ⟨hbc, hnames'⟩
    · exact Or.inl (by omega)
    · exact Or.inr ⟨hab.trans hbc, List.lt_trans hnames hnames'⟩

instance : Std.Antisymm Precedes where
  antisymm a _ hab hba := absurd (hab.trans hba) (Std.Irrefl.irrefl a)

theorem precedes_or_eq_or_precedes (a b : Binding) : a.Precedes b ∨ a = b ∨ b.Precedes a := by
  rcases Int.lt_trichotomy a.address b.address with h | h | h
  · exact Or.inl (Or.inl h)
  · cases hnames : compare a.name b.name with
    | lt => exact Or.inl (Or.inr ⟨h, Bytes.compare_eq_lt_iff.mp hnames⟩)
    | eq => exact Or.inr (Or.inl (Binding.ext (Std.LawfulEqCmp.eq_of_compare hnames) h))
    | gt =>
        have hnames' := Std.OrientedCmp.lt_of_gt hnames
        exact Or.inr (Or.inr (Or.inr ⟨h.symm, Bytes.compare_eq_lt_iff.mp hnames'⟩))
  · exact Or.inr (Or.inr (Or.inl h))

/-- The order that tables are sorted by is the strict one together with equality. -/
theorem le_iff {a b : Binding} : a.le b = true ↔ a.Precedes b ∨ a = b := by
  rw [le, Bool.or_eq_true, Bool.and_eq_true, decide_eq_true_eq, beq_iff_eq,
    Ordering.isLE_iff_eq_lt_or_eq_eq, Bytes.compare_eq_lt_iff, Std.LawfulEqCmp.compare_eq_iff_eq,
    Precedes, Binding.ext_iff]
  tauto

theorem le_trans {a b c : Binding} (hab : a.le b = true) (hbc : b.le c = true) :
    a.le c = true := by
  rw [le_iff] at hab hbc ⊢
  rcases hab with hab | rfl
  · rcases hbc with hbc | rfl
    · exact Or.inl (hab.trans hbc)
    · exact Or.inl hab
  · exact hbc

theorem le_total (a b : Binding) : (a.le b || b.le a) = true := by
  rw [Bool.or_eq_true, le_iff, le_iff]
  rcases precedes_or_eq_or_precedes a b with h | h | h
  · exact Or.inl (Or.inl h)
  · exact Or.inl (Or.inr h)
  · exact Or.inr (Or.inl h)

end Binding

/-! ### The last binding of a name -/

/-- The binding is made, and no later one replaces it. -/
def IsLastBinding (bindings : List Binding) (b : Binding) : Prop :=
  ∃ before after, bindings = before ++ b :: after ∧ ∀ c ∈ after, c.name ≠ b.name

theorem isLastBinding_concat {bindings : List Binding} {b c : Binding} :
    IsLastBinding (bindings ++ [c]) b ↔ c = b ∨ c.name ≠ b.name ∧ IsLastBinding bindings b := by
  constructor
  · rintro ⟨before, after, hsplit, hafter⟩
    rcases List.eq_nil_or_concat' after with rfl | ⟨after, d, rfl⟩
    · obtain ⟨-, hlast⟩ := List.append_inj' hsplit rfl
      exact Or.inl (List.singleton_inj.mp hlast)
    · rw [← List.cons_append, ← List.append_assoc] at hsplit
      obtain ⟨rfl, hlast⟩ := List.append_inj' hsplit rfl
      rw [List.singleton_inj.mp hlast]
      exact Or.inr ⟨hafter d (by simp), before, after, rfl, fun e he => hafter e (by simp [he])⟩
  · rintro (rfl | ⟨hne, before, after, rfl, hafter⟩)
    · exact ⟨bindings, [], rfl, nofun⟩
    · refine ⟨before, after ++ [c], by simp, ?_⟩
      intro d hd
      rcases List.mem_append.mp hd with hd | hd
      · exact hafter d hd
      · rwa [List.mem_singleton.mp hd]

namespace SymbolTable

/-- A name has the address that it was last bound to, or the one that it had before. -/
theorem get?_bindAll_eq_some_iff {t : SymbolTable} {bindings : List Binding} {b : Binding} :
    (t.bindAll bindings).get? b.name = some b.address ↔
      IsLastBinding bindings b ∨
        (∀ c ∈ bindings, c.name ≠ b.name) ∧ t.get? b.name = some b.address := by
  induction bindings using List.reverseRecOn with
  | nil =>
      have hnone : ¬IsLastBinding [] b := by
        rintro ⟨before, after, hsplit, -⟩
        simp at hsplit
      simp [hnone, bindAll]
  | append_singleton bindings c ih =>
      rw [bindAll_concat, get?_insert, isLastBinding_concat, List.forall_mem_append,
        List.forall_mem_singleton]
      by_cases hname : c.name = b.name
      · rw [if_pos hname, Option.some.injEq]
        constructor
        · intro haddress
          exact Or.inl (Or.inl (Binding.ext hname haddress))
        · rintro ((rfl | ⟨hne, -⟩) | ⟨⟨-, hne⟩, -⟩)
          · rfl
          · exact absurd hname hne
          · exact absurd hname hne
      · have hne : c ≠ b := fun h => hname (congrArg Binding.name h)
        rw [if_neg hname, ih]
        simp [hname, hne]

/-! ### Snapshots -/

theorem nodup_names_entries (t : SymbolTable) : (t.entries.map Binding.name).Nodup := by
  have hperm : (t.entries.map Binding.name).Perm t.bindings.keys := by
    rw [← Std.ExtTreeMap.map_fst_toList_eq_keys]
    refine ((List.mergeSort_perm _ _).map Binding.name).trans (List.Perm.of_eq ?_)
    rw [List.map_map]
    rfl
  exact hperm.nodup_iff.mpr Std.ExtTreeMap.nodup_keys

theorem pairwise_entries (t : SymbolTable) : t.entries.Pairwise Binding.Precedes := by
  have hsorted : t.entries.Pairwise fun a b => a.le b = true := by
    apply List.pairwise_mergeSort
    · intro a b c hab hbc
      exact Binding.le_trans hab hbc
    · exact Binding.le_total
  have hnames := List.pairwise_map.mp (nodup_names_entries t)
  refine hsorted.imp₂ ?_ hnames
  intro a b hle hne
  rcases Binding.le_iff.mp hle with h | rfl
  · exact h
  · exact absurd rfl hne

/-- A snapshot is the only list in strict order of all bindings of a table. -/
theorem eq_entries {t : SymbolTable} {snapshot : List Binding}
    (hsorted : snapshot.Pairwise Binding.Precedes)
    (hmem : ∀ b, b ∈ snapshot ↔ t.get? b.name = some b.address) : snapshot = t.entries :=
  hsorted.eq_of_mem_iff (pairwise_entries t) fun b => (hmem b).trans mem_entries.symm

/-- A list of all bindings of a table, each once, in whatever order a walk over the table gives
them. -/
structure IsArrangement (t : SymbolTable) (arrangement : List Binding) : Prop where
  nodup : arrangement.Nodup
  mem_iff : ∀ b, b ∈ arrangement ↔ t.address b.name = .ok b.address

/-- The order leaves a sort no choice: bindings that are all different and of which none comes
before an earlier one are in strict order. -/
theorem pairwise_precedes_of_sorted {sorted : List Binding} (hnodup : sorted.Nodup)
    (hsorted : sorted.Pairwise fun a b => ¬b.Precedes a) : sorted.Pairwise Binding.Precedes := by
  refine hsorted.imp₂ ?_ hnodup
  intro a b hnot hne
  rcases Binding.precedes_or_eq_or_precedes a b with h | h | h
  · exact h
  · exact absurd h hne
  · exact absurd h hnot

/-- Sorting any arrangement of the bindings, by any method, gives the snapshot. -/
theorem eq_entries_of_arrangement {t : SymbolTable} {arrangement sorted : List Binding}
    (h : t.IsArrangement arrangement) (hperm : sorted.Perm arrangement)
    (hsorted : sorted.Pairwise fun a b => ¬b.Precedes a) : sorted = t.entries := by
  apply eq_entries (pairwise_precedes_of_sorted (hperm.nodup_iff.mpr h.nodup) hsorted)
  intro b
  rw [hperm.mem_iff, h.mem_iff, address_eq_ok_iff]

/-- The snapshot of a table after any bindings. It is in strict order, by address and then by name,
and as long as the table is large; it holds exactly the bindings that the table answers with, which
are the last one of each name and the predefined ones of the names that were never bound. Tables
that answer alike have the same snapshot, in whatever order their bindings were met and however
they were sorted. -/
theorem snapshot_of_bindings (bindings : List Binding) :
    let table := predefined.bindAll bindings
    table.entries.Pairwise Binding.Precedes ∧
      table.entries.length = table.size ∧
      (∀ b, b ∈ table.entries ↔ table.address b.name = .ok b.address) ∧
      (∀ b, table.address b.name = .ok b.address ↔
        IsLastBinding bindings b ∨ (∀ c ∈ bindings, c.name ≠ b.name) ∧ b ∈ predefinedSymbols) ∧
      ∀ others, (∀ name, (predefined.bindAll others).address name = table.address name) →
        (predefined.bindAll others).entries = table.entries ∧
        ∀ arrangement sorted, (predefined.bindAll others).IsArrangement arrangement →
          sorted.Perm arrangement → (sorted.Pairwise fun a b => ¬b.Precedes a) →
          sorted = table.entries := by
  intro table
  refine ⟨pairwise_entries table, length_entries table, ?_, ?_, ?_⟩
  · intro b
    rw [mem_entries, address_eq_ok_iff]
  · intro b
    rw [address_eq_ok_iff, get?_bindAll_eq_some_iff, get?_predefined_eq_some_iff]
  · intro others hsame
    have hentries : (predefined.bindAll others).entries = table.entries := by
      apply eq_entries (pairwise_entries _)
      intro b
      rw [mem_entries, ← address_eq_ok_iff, hsame, address_eq_ok_iff]
    refine ⟨hentries, ?_⟩
    intro arrangement sorted harrangement hperm hsorted
    rw [← hentries]
    exact eq_entries_of_arrangement harrangement hperm hsorted

/-- Two orders of insertion, with a replaced binding, a register bound anew, a negative address and
two names at one address. -/
theorem snapshot_of_two_insertion_orders :
    let bindings : List Binding := [⟨ascii "b", 7⟩, ⟨ascii "R0", -5⟩, ⟨ascii "a", 16⟩,
      ⟨ascii "b", 16⟩]
    let others : List Binding := [⟨ascii "R0", 3⟩, ⟨ascii "b", 16⟩, ⟨ascii "a", 16⟩,
      ⟨ascii "R0", -5⟩]
    (predefined.bindAll others).entries = (predefined.bindAll bindings).entries ∧
      (predefined.bindAll bindings).entries.length = 25 ∧
      ⟨ascii "R0", -5⟩ ∈ (predefined.bindAll bindings).entries ∧
      ⟨ascii "b", 7⟩ ∉ (predefined.bindAll bindings).entries := by
  intro bindings others
  obtain ⟨-, hlength, hmem, hlast, hsame⟩ := snapshot_of_bindings bindings
  have htables : predefined.bindAll others = predefined.bindAll bindings := by decide +kernel
  have hregister : IsLastBinding bindings ⟨ascii "R0", -5⟩ :=
    ⟨[⟨ascii "b", 7⟩], [⟨ascii "a", 16⟩, ⟨ascii "b", 16⟩], rfl, by decide⟩
  have hsize : (predefined.bindAll bindings).size = 25 := by decide +kernel
  have haddress : (predefined.bindAll bindings).address (ascii "b") = .ok 16 := by decide +kernel
  refine ⟨(hsame others fun name => by rw [htables]).1, hlength.trans hsize, ?_, ?_⟩
  · exact (hmem _).mpr ((hlast _).mpr (Or.inl hregister))
  · rw [hmem, haddress]
    decide

end SymbolTable

end HackAssembly
