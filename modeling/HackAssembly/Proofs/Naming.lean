import HackAssembly.Proofs.Lists
import HackAssembly.Proofs.Passes

/-!
# What the names of a program mean

The meaning of a name can be read off the statements of a program without any pass: a label stands
for the number of instructions before its last declaration, any other predefined symbol for its
fixed address, and the remaining targets are variables, numbered in the order in which they first
occur. The first pass computes the labels' part of this: `get?_labelTable`.
-/

namespace HackAssembly

/-! ### Symbol tables -/

namespace SymbolTable

theorem contains_insert (t : SymbolTable) (name other : Bytes) (address : Int) :
    (t.insert name address).contains other = (name == other || t.contains other) := by
  rw [contains_eq_isSome_get?, get?_insert, contains_eq_isSome_get?]
  by_cases h : name = other <;> simp [h]

theorem contains_foldl_insert (bindings : List Binding) (t : SymbolTable) (name : Bytes) :
    (bindings.foldl (fun t b => t.insert b.name b.address) t).contains name =
      (t.contains name || bindings.any fun b => b.name == name) := by
  induction bindings generalizing t with
  | nil => simp
  | cons b bindings ih =>
      rw [List.foldl_cons, ih, contains_insert, List.any_cons]
      cases b.name == name <;> simp

theorem contains_predefined (name : Bytes) : predefined.contains name = isPredefined name := by
  rw [predefined, contains_foldl_insert]
  rfl

theorem get?_predefined {b : Binding} (h : b ∈ predefinedSymbols) :
    predefined.get? b.name = some b.address := by
  have hall : ∀ b ∈ predefinedSymbols, predefined.get? b.name = some b.address := by
    decide +kernel
  exact hall b h

theorem address_eq_ok_iff {t : SymbolTable} {name : Bytes} {address : Int} :
    t.address name = .ok address ↔ t.get? name = some address := by
  unfold SymbolTable.address
  cases t.get? name <;> simp

end SymbolTable

namespace LabelScan

theorem run_snoc (s : LabelScan) (items : List Item) (i : Item) :
    s.run (items ++ [i]) = (s.run items).step i := by
  rw [run, List.foldl_append]
  rfl

theorem instructions_run (s : LabelScan) (items : List Item) :
    (s.run items).instructions = s.instructions + items.countP Item.isInstruction := by
  induction items using List.reverseRecOn with
  | nil => rfl
  | append_singleton items i ih =>
      rw [run_snoc, List.countP_append, ← Nat.add_assoc, ← ih]
      obtain ⟨line, statement⟩ := i
      cases statement <;> rfl

end LabelScan

theorem Item.label?_eq_some_iff {i : Item} {name : Bytes} :
    i.label? = some name ↔ i.statement = .label name := by
  unfold label?
  cases i.statement <;> simp

namespace Program

/-- The statements on the well-formed lines of a source. -/
def statements (source : List SourceLine) : List Item := source.filterMap SourceLine.item?

/-- The names that statements declare as labels. -/
def labels (items : List Item) : List Bytes := items.filterMap Item.label?

/-- The names and numerals that statements load. -/
def targets (items : List Item) : List Bytes := items.filterMap Item.target?

/-- How many instructions stand before the last declaration of a label. -/
def labelAddress? (items : List Item) (name : Bytes) : Option Nat :=
  match items.reverse.dropWhile fun i => i.label? != some name with
  | [] => none
  | _ :: before => some (before.countP Item.isInstruction)

/-- Whether a target of the program is a variable: no numeral, not predefined and declared nowhere
in the program. -/
def isVariable (items : List Item) (target : Bytes) : Bool :=
  !isSignedDigits target && !isPredefined target && !(labels items).contains target

/-- The variables of a program, in the order of their first occurrence. -/
def variableNames (items : List Item) : List Bytes :=
  ((targets items).filter (isVariable items)).eraseDups

/-- The address that a name stands for everywhere in a program. -/
def meaning? (items : List Item) (name : Bytes) : Option Int :=
  match labelAddress? items name with
  | some address => some address
  | none =>
    match SymbolTable.predefined.get? name with
    | some address => some address
    | none => ((variableNames items).idxOf? name).map fun k => ((firstVariable + k : Nat) : Int)

/-! ### Labels -/

theorem labelAddress?_snoc (items : List Item) (i : Item) (name : Bytes) :
    labelAddress? (items ++ [i]) name =
      if i.label? = some name then some (items.countP Item.isInstruction)
      else labelAddress? items name := by
  rw [labelAddress?, List.reverse_append, List.reverse_singleton, List.singleton_append,
    List.dropWhile_cons]
  by_cases h : i.label? = some name
  · simp [h]
  · simp [h, labelAddress?]

theorem labelAddress?_eq_none_iff {items : List Item} {name : Bytes} :
    labelAddress? items name = none ↔ name ∉ labels items := by
  induction items using List.reverseRecOn with
  | nil => simp [labelAddress?, labels]
  | append_singleton items i ih =>
      rw [labelAddress?_snoc, labels, List.filterMap_append, List.mem_append, not_or, ← labels,
        ← ih]
      by_cases h : i.label? = some name <;> simp [h]

/-- The declaration that no later one overrides decides the address. -/
theorem labelAddress?_of_last {before after : List Item} {i : Item} {name : Bytes}
    (hi : i.label? = some name) (hafter : ∀ j ∈ after, j.label? ≠ some name) :
    labelAddress? (before ++ i :: after) name = some (before.countP Item.isInstruction) := by
  induction after using List.reverseRecOn with
  | nil => rw [labelAddress?_snoc, if_pos hi]
  | append_singleton after j ih =>
      rw [← List.cons_append, ← List.append_assoc, labelAddress?_snoc, if_neg (hafter j (by simp))]
      exact ih fun k hk => hafter k (by simp [hk])

/-- The table that the first pass leaves. -/
def labelTable (items : List Item) : SymbolTable :=
  ((LabelScan.start SymbolTable.predefined).run items).symbols

/-- After the first pass a name has the address of its last declaration, or what it had before. -/
theorem get?_labelTable (items : List Item) (name : Bytes) :
    (labelTable items).get? name =
      match labelAddress? items name with
      | some address => some (address : Int)
      | none => SymbolTable.predefined.get? name := by
  induction items using List.reverseRecOn with
  | nil => rfl
  | append_singleton items i ih =>
      have hcount := LabelScan.instructions_run (LabelScan.start SymbolTable.predefined) items
      rw [labelTable, LabelScan.run_snoc, labelAddress?_snoc]
      obtain ⟨line, statement⟩ := i
      cases statement with
      | label declared =>
          simp only [LabelScan.step, LabelScan.declare, SymbolTable.get?_insert, hcount]
          rw [← labelTable, ih]
          by_cases h : declared = name <;> simp [h, Item.label?, LabelScan.start]
      | load target => exact ih
      | compute fields => exact ih

theorem contains_labelTable (items : List Item) (name : Bytes) :
    (labelTable items).contains name = (isPredefined name || (labels items).contains name) := by
  rw [SymbolTable.contains_eq_isSome_get?, get?_labelTable, ← SymbolTable.contains_predefined,
    SymbolTable.contains_eq_isSome_get?]
  cases h : labelAddress? items name with
  | none => simp [labelAddress?_eq_none_iff.mp h]
  | some address =>
      have hmem : name ∈ labels items := by
        by_contra hnot
        rw [labelAddress?_eq_none_iff.mpr hnot] at h
        cases h
      simp [hmem]

end Program

end HackAssembly
