import HackAssembly.Proofs.VariableAddresses

/-!
# Other names

A renaming gives the names of a program other names, different ones to different names, and keeps
the predefined symbols and the numerals. What a name means is a matter of where it is declared and
used, so the new name means in the renamed program what the old one means in the original
(`meaning?_apply`), and no further names mean anything.
-/

namespace HackAssembly

/-- What can stand for an address in a source: any text but the empty one. -/
abbrev Name := {text : Bytes // text ≠ []}

/-- An injective map of names that keeps the predefined ones and the numerals. -/
structure Renaming where
  map : Name → Name
  injective : Function.Injective map
  map_predefined : ∀ name : Name, isPredefined name.1 = true → map name = name
  map_numeral : ∀ name : Name, isSignedDigits name.1 = true → map name = name

namespace Renaming

/-- The renaming on all texts; the empty one, which is no name, stays as it is. -/
def apply (r : Renaming) (text : Bytes) : Bytes :=
  if h : text = [] then [] else (r.map ⟨text, h⟩).1

/-- The renaming that keeps every name. -/
def refl : Renaming := ⟨id, Function.injective_id, fun _ _ => rfl, fun _ _ => rfl⟩

variable (r : Renaming)

theorem refl_apply (text : Bytes) : refl.apply text = text := by
  by_cases h : text = [] <;> simp [apply, refl, h]

theorem apply_ne_nil {text : Bytes} (h : text ≠ []) : r.apply text ≠ [] := by
  rw [apply, dif_neg h]
  exact (r.map ⟨text, h⟩).2

theorem apply_injective : Function.Injective r.apply := by
  intro m n h
  by_cases hm : m = []
  · by_contra hne
    have hn : n ≠ [] := fun hn => hne (hm.trans hn.symm)
    apply r.apply_ne_nil hn
    rw [← h, apply, dif_pos hm]
  · have hn : n ≠ [] := by
      rintro rfl
      exact r.apply_ne_nil hm h
    rw [apply, apply, dif_neg hm, dif_neg hn] at h
    exact congrArg Subtype.val (r.injective (Subtype.ext h))

/-- A class of names that the renaming keeps is not entered from outside. -/
theorem apply_of_fixed {p : Bytes → Bool} (hp : ∀ text, p text = true → r.apply text = text)
    (text : Bytes) : p (r.apply text) = p text := by
  cases htext : p text with
  | true => rw [hp text htext, htext]
  | false =>
      by_contra hnot
      have hkept := r.apply_injective (hp _ ((Bool.not_eq_false _).mp hnot))
      rw [hkept, htext] at hnot
      exact hnot rfl

theorem apply_eq_self {text : Bytes} (h : ∀ hne, r.map ⟨text, hne⟩ = ⟨text, hne⟩) :
    r.apply text = text := by
  unfold apply
  split
  · rename_i hnil
    exact hnil.symm
  · rw [h]

theorem apply_predefined {text : Bytes} (h : isPredefined text = true) : r.apply text = text :=
  r.apply_eq_self fun hne => r.map_predefined ⟨text, hne⟩ h

theorem apply_numeral {text : Bytes} (h : isSignedDigits text = true) : r.apply text = text :=
  r.apply_eq_self fun hne => r.map_numeral ⟨text, hne⟩ h

theorem isPredefined_apply (text : Bytes) : isPredefined (r.apply text) = isPredefined text :=
  r.apply_of_fixed (fun _ => r.apply_predefined) text

theorem isSignedDigits_apply (text : Bytes) :
    isSignedDigits (r.apply text) = isSignedDigits text :=
  r.apply_of_fixed (fun _ => r.apply_numeral) text

end Renaming

def Statement.rename (r : Renaming) : Statement → Statement
  | load target => load (r.apply target)
  | label name => label (r.apply name)
  | compute fields => compute fields

theorem Statement.rename_refl (statement : Statement) :
    statement.rename Renaming.refl = statement := by
  cases statement with
  | load target => exact congrArg load (Renaming.refl_apply target)
  | label name => exact congrArg label (Renaming.refl_apply name)
  | compute fields => rfl

/-- The second list has the statements of the first in the same order, with names renamed. -/
def Renamed (r : Renaming) (items items' : List Item) : Prop :=
  List.Forall₂ (fun i j : Item => j.statement = i.statement.rename r) items items'

/-- The second table binds the new names to what the first binds the old ones to. -/
def SymbolTable.IsRenamed (r : Renaming) (s t : SymbolTable) : Prop :=
  ∀ name address, t.get? name = some address ↔
    ∃ old, r.apply old = name ∧ s.get? old = some address

theorem SymbolTable.eq_of_isRenamed_refl {s t : SymbolTable} (h : s.IsRenamed Renaming.refl t) :
    t = s := by
  ext name address
  rw [h name address]
  constructor
  · rintro ⟨old, rfl, hold⟩
    rwa [Renaming.refl_apply]
  · intro hname
    exact ⟨name, Renaming.refl_apply name, hname⟩

namespace Program

variable {r : Renaming} {items items' : List Item}

/-! ### Where names stand -/

theorem label?_renamed {i j : Item} (h : j.statement = i.statement.rename r) :
    j.label? = i.label?.map r.apply := by
  rw [Item.label?, Item.label?, h]
  cases i.statement <;> rfl

theorem target?_renamed {i j : Item} (h : j.statement = i.statement.rename r) :
    j.target? = i.target?.map r.apply := by
  rw [Item.target?, Item.target?, h]
  cases i.statement <;> rfl

theorem filterMap_renamed {f : Item → Option Bytes}
    (hf : ∀ i j : Item, j.statement = i.statement.rename r → f j = (f i).map r.apply)
    (h : Renamed r items items') : items'.filterMap f = (items.filterMap f).map r.apply := by
  induction h with
  | nil => rfl
  | @cons i j items items' hstatement _ ih =>
      rw [List.filterMap_cons, List.filterMap_cons, hf i j hstatement, ih]
      cases f i <;> rfl

theorem labels_renamed (h : Renamed r items items') :
    labels items' = (labels items).map r.apply := filterMap_renamed (fun _ _ => label?_renamed) h

theorem targets_renamed (h : Renamed r items items') :
    targets items' = (targets items).map r.apply := filterMap_renamed (fun _ _ => target?_renamed) h

theorem countP_isInstruction_renamed (h : Renamed r items items') :
    items'.countP Item.isInstruction = items.countP Item.isInstruction := by
  induction h with
  | nil => rfl
  | @cons i j items items' hstatement _ ih =>
      have hkind : j.isInstruction = i.isInstruction := by
        rw [Item.isInstruction, Item.isInstruction, hstatement]
        cases i.statement <;> rfl
      rw [List.countP_cons, List.countP_cons, ih, hkind]

theorem labelAddress?_apply (h : Renamed r items items') (name : Bytes) :
    labelAddress? items' (r.apply name) = labelAddress? items name := by
  have hreverse := List.rel_reverse h
  rw [labelAddress?, labelAddress?]
  -- the search runs backwards, so the induction is along the reversed lists
  generalize items.reverse = later at hreverse ⊢
  generalize items'.reverse = later' at hreverse ⊢
  induction hreverse with
  | nil => rfl
  | @cons i j later later' hstatement hrest ih =>
      have hfound : (j.label? != some (r.apply name)) = (i.label? != some name) := by
        rw [label?_renamed hstatement, Bool.eq_iff_iff, bne_iff_ne, bne_iff_ne]
        cases i.label? with
        | none => simp
        | some other => simp [r.apply_injective.eq_iff]
      rw [List.dropWhile_cons, List.dropWhile_cons, hfound]
      cases i.label? != some name with
      | true => exact ih
      | false => exact congrArg some (countP_isInstruction_renamed hrest)

/-! ### What names mean -/

theorem isVariable_apply (h : Renamed r items items') (name : Bytes) :
    isVariable items' (r.apply name) = isVariable items name := by
  have hlabel : (labels items').contains (r.apply name) = (labels items).contains name := by
    rw [labels_renamed h, Bool.eq_iff_iff, List.contains_iff_mem, List.contains_iff_mem,
      List.mem_map_of_injective r.apply_injective]
  rw [isVariable, isVariable, r.isSignedDigits_apply, r.isPredefined_apply, hlabel]

theorem variableNames_renamed (h : Renamed r items items') :
    variableNames items' = (variableNames items).map r.apply := by
  have hvariable : isVariable items' ∘ r.apply = isVariable items :=
    funext fun name => isVariable_apply h name
  rw [variableNames, targets_renamed h, List.filter_map, hvariable,
    eraseDups_map r.apply_injective, variableNames]

theorem get?_predefined_apply (name : Bytes) :
    SymbolTable.predefined.get? (r.apply name) = SymbolTable.predefined.get? name := by
  cases h : isPredefined name with
  | true => rw [r.apply_predefined h]
  | false =>
      have hnew : isPredefined (r.apply name) = false := by rw [r.isPredefined_apply, h]
      rw [get?_predefined_eq_none h, get?_predefined_eq_none hnew]

theorem meaning?_apply (h : Renamed r items items') (name : Bytes) :
    meaning? items' (r.apply name) = meaning? items name := by
  rw [meaning?, meaning?, labelAddress?_apply h, get?_predefined_apply, variableNames_renamed h,
    idxOf?_map r.apply_injective]

/-- A name that means something in the renamed program is the new name of some name. -/
theorem exists_apply_of_meaning? (h : Renamed r items items') {name : Bytes}
    (hname : (meaning? items' name).isSome = true) : ∃ old, r.apply old = name := by
  rw [isSome_meaning?, variableNames_renamed h, labels_renamed h, List.mem_map, List.mem_map]
    at hname
  rcases hname with ⟨old, -, hold⟩ | hpredefined | ⟨old, -, hold⟩
  · exact ⟨old, hold⟩
  · exact ⟨name, r.apply_predefined hpredefined⟩
  · exact ⟨old, hold⟩

theorem isRenamed_of_meaning? (h : Renamed r items items') {s t : SymbolTable}
    (hs : s.get? = meaning? items) (ht : t.get? = meaning? items') : s.IsRenamed r t := by
  intro name address
  rw [hs, ht]
  constructor
  · intro hname
    obtain ⟨old, rfl⟩ := exists_apply_of_meaning? h (Option.isSome_of_eq_some hname)
    rw [meaning?_apply h] at hname
    exact ⟨old, rfl, hname⟩
  · rintro ⟨old, rfl, hold⟩
    rwa [meaning?_apply h]

/-- Renaming a statement does not change its word, since its name has a meaning. -/
theorem encodeUnder_rename (h : Renamed r items items') {i : Item} (hi : i ∈ items) :
    (i.statement.rename r).encodeUnder (meaning? items') =
      i.statement.encodeUnder (meaning? items) := by
  obtain ⟨line, statement⟩ := i
  cases statement with
  | label name => rfl
  | compute fields => rfl
  | load target =>
      rw [Statement.rename, Statement.encodeUnder, Statement.encodeUnder, r.isSignedDigits_apply]
      cases hnumeral : isSignedDigits target with
      | true => rw [r.apply_numeral hnumeral, if_pos rfl, if_pos rfl]
      | false =>
          obtain ⟨address, haddress⟩ := exists_meaning? hi rfl hnumeral
          rw [meaning?_apply h, haddress, if_neg Bool.false_ne_true, if_neg Bool.false_ne_true]

end Program

end HackAssembly
