import HackAssembly.Proofs.Outcome

/-!
# Variables and the final table

The table of an assembled program binds its variables to consecutive addresses from `16` on, in the
order of their first occurrence, and besides them exactly the predefined symbols and the labels. How
many names it binds then follows from the names alone.
-/

namespace HackAssembly

namespace SymbolTable

/-- A table binds as many names as there are in a list of exactly its names. -/
theorem size_eq_length {t : SymbolTable} {names : List Bytes} (hnodup : names.Nodup)
    (h : ∀ name, t.contains name = true ↔ name ∈ names) : t.size = names.length := by
  have hkeys : t.bindings.keys.Perm names := by
    apply (List.perm_ext_iff_of_nodup Std.ExtTreeMap.nodup_keys hnodup).mpr
    intro name
    rw [Std.ExtTreeMap.mem_keys, ← Std.ExtTreeMap.contains_iff_mem]
    exact h name
  rw [size, ← Std.ExtTreeMap.length_keys, hkeys.length_eq]

end SymbolTable

theorem isPredefined_iff {name : Bytes} :
    isPredefined name = true ↔ name ∈ predefinedSymbols.map Binding.name := by
  simp [isPredefined]

/-- The predefined table holds the predefined symbols and nothing else. -/
theorem SymbolTable.get?_predefined_eq_some_iff {b : Binding} :
    predefined.get? b.name = some b.address ↔ b ∈ predefinedSymbols := by
  constructor
  · intro h
    have hpredefined : isPredefined b.name = true := by
      rw [← contains_predefined, contains_eq_isSome_get?, h]
      rfl
    obtain ⟨c, hc, hname⟩ := List.mem_map.mp (isPredefined_iff.mp hpredefined)
    rw [← hname, get?_predefined hc, Option.some.injEq] at h
    rwa [← Binding.ext hname h]
  · exact get?_predefined

namespace Program

variable {items : List Item}

theorem mem_variableNames {name : Bytes} :
    name ∈ variableNames items ↔ name ∈ targets items ∧ isVariable items name = true := by
  rw [variableNames, List.mem_eraseDups, List.mem_filter]

theorem isVariable_iff {name : Bytes} :
    isVariable items name = true ↔
      isSignedDigits name = false ∧ isPredefined name = false ∧ name ∉ labels items := by
  simp [isVariable, and_assoc]

theorem get?_predefined_eq_none {name : Bytes} (h : isPredefined name = false) :
    SymbolTable.predefined.get? name = none := by
  rw [← SymbolTable.contains_predefined, SymbolTable.contains_eq_isSome_get?] at h
  simpa using h

/-- The `k`-th variable means the `k`-th address from the first one on. -/
theorem meaning?_variable {k : Nat} (hk : k < (variableNames items).length) :
    meaning? items (variableNames items)[k] = some ((firstVariable + k : Nat) : Int) := by
  have hmem : (variableNames items)[k] ∈ variableNames items := List.getElem_mem hk
  obtain ⟨-, hpredefined, hlabel⟩ := isVariable_iff.mp (mem_variableNames.mp hmem).2
  have hindex : (variableNames items).idxOf? (variableNames items)[k] = some k := by
    rw [List.idxOf?_eq_some_iff]
    refine ⟨hk, rfl, ?_⟩
    intro j hj heq
    have hjk := (List.Nodup.getElem_inj_iff (nodup_eraseDups _)).mp heq
    omega
  rw [meaning?, labelAddress?_eq_none_iff.mpr hlabel, get?_predefined_eq_none hpredefined, hindex]
  rfl

theorem isSome_meaning? {name : Bytes} :
    (meaning? items name).isSome = true ↔
      name ∈ variableNames items ∨ isPredefined name = true ∨ name ∈ labels items := by
  rw [← bound?_labelTable, isSome_bound?, contains_labelTable, placed_labelTable]
  simp only [Bool.or_eq_true, List.contains_iff_mem, decide_eq_true_eq]
  rw [or_comm]

/-- A predefined symbol that is not declared keeps its address. -/
theorem meaning?_predefined {b : Binding} (hb : b ∈ predefinedSymbols)
    (hlabel : b.name ∉ labels items) : meaning? items b.name = some b.address := by
  rw [meaning?, labelAddress?_eq_none_iff.mpr hlabel, SymbolTable.get?_predefined hb]

/-- The labels that are not predefined, each once. -/
def ownLabels (items : List Item) : List Bytes :=
  ((labels items).filter fun name => !isPredefined name).eraseDups

theorem mem_ownLabels {name : Bytes} :
    name ∈ ownLabels items ↔ name ∈ labels items ∧ isPredefined name = false := by
  simp [ownLabels]

/-- All names that mean something in a program, each once. -/
theorem nodup_names (items : List Item) :
    (predefinedSymbols.map Binding.name ++ ownLabels items ++ variableNames items).Nodup := by
  rw [List.nodup_append, List.nodup_append]
  refine ⟨⟨by decide +kernel, nodup_eraseDups _, ?_⟩, nodup_eraseDups _, ?_⟩
  · rintro name hpredefined _ hlabel rfl
    have hnot := (mem_ownLabels.mp hlabel).2
    rw [isPredefined_iff.mpr hpredefined] at hnot
    cases hnot
  · rintro name hname _ hvariable rfl
    obtain ⟨-, hnot, hlabel⟩ := isVariable_iff.mp (mem_variableNames.mp hvariable).2
    rcases List.mem_append.mp hname with hpredefined | hown
    · rw [isPredefined_iff.mpr hpredefined] at hnot
      cases hnot
    · exact hlabel (mem_ownLabels.mp hown).1

theorem mem_names {name : Bytes} :
    name ∈ predefinedSymbols.map Binding.name ++ ownLabels items ++ variableNames items ↔
      name ∈ variableNames items ∨ isPredefined name = true ∨ name ∈ labels items := by
  rw [List.mem_append, List.mem_append, ← isPredefined_iff, mem_ownLabels]
  cases isPredefined name <;> simp [or_comm]

end Program

namespace Assembled

variable {lines : List Bytes} {words : List Word} {table : SymbolTable}

theorem contains_iff (h : Assembled lines words table) (name : Bytes) :
    table.contains name = true ↔ name ∈ Program.variableNames (program lines) ∨
      isPredefined name = true ∨ name ∈ Program.labels (program lines) := by
  rw [SymbolTable.contains_eq_isSome_get?, h.get?_eq, Program.isSome_meaning?]

theorem size_eq (h : Assembled lines words table) :
    table.size = 23 + (Program.ownLabels (program lines)).length +
      (Program.variableNames (program lines)).length := by
  have hnames := SymbolTable.size_eq_length (Program.nodup_names (program lines)) fun name =>
    (h.contains_iff name).trans Program.mem_names.symm
  rw [hnames, List.length_append, List.length_append]
  rfl

end Assembled

namespace Assembler

/-- The `k`-th variable of an assembled program is bound to `16 + k`; the table binds the variables
and, apart from them, the predefined symbols and the labels. -/
theorem variables_bound_in_order (asm : Assembler) (lines : List Bytes) {words : List Word}
    (h : (asm.assemble lines).result = .ok words) :
    let variableNames := Program.variableNames (program lines)
    let labels := Program.labels (program lines)
    let table := (asm.assemble lines).assembler.symbols
    (∀ k (hk : k < variableNames.length),
        table.address variableNames[k] = .ok ((16 + k : Nat) : Int)) ∧
      (∀ name, table.contains name = true ↔
        name ∈ variableNames ∨ isPredefined name = true ∨ name ∈ labels) ∧
      variableNames.Nodup ∧
      (∀ name ∈ variableNames, isPredefined name = false ∧ name ∉ labels) ∧
      (∀ b ∈ predefinedSymbols, b.name ∉ labels → table.address b.name = .ok b.address) ∧
      table.size = 23 + (labels.filter fun name => !isPredefined name).eraseDups.length +
        variableNames.length := by
  have hassembled := assembled_of_ok asm h
  refine ⟨?_, hassembled.contains_iff, nodup_eraseDups _, ?_, ?_, hassembled.size_eq⟩
  · intro k hk
    rw [SymbolTable.address_eq_ok_iff, hassembled.get?_eq]
    exact Program.meaning?_variable hk
  · intro name hname
    exact (Program.isVariable_iff.mp (Program.mem_variableNames.mp hname).2).2
  · intro b hb hlabel
    rw [SymbolTable.address_eq_ok_iff, hassembled.get?_eq]
    exact Program.meaning?_predefined hb hlabel

/-- Two variables, one of them used twice, among a label that is declared later and a device that
is declared as a label. -/
theorem variables_bound_around_labels :
    let lines := [ascii "@i", ascii "@LOOP", ascii "@j", ascii "(LOOP)", ascii "@i",
      ascii "(KBD)", ascii "@KBD"]
    let words : List Word := [⟨ascii "0000000000010000", 1, ascii "@i"⟩,
      ⟨ascii "0000000000000011", 2, ascii "@LOOP"⟩, ⟨ascii "0000000000010001", 3, ascii "@j"⟩,
      ⟨ascii "0000000000010000", 5, ascii "@i"⟩, ⟨ascii "0000000000000100", 7, ascii "@KBD"⟩]
    let table := (new.assemble lines).assembler.symbols
    (new.assemble lines).result = .ok words ∧
      Program.variableNames (program lines) = [ascii "i", ascii "j"] ∧
      table.address (ascii "j") = .ok 17 ∧ table.address (ascii "SCREEN") = .ok 16384 ∧
      table.size = 26 := by
  intro lines words table
  have h : (new.assemble lines).result = .ok words := by decide +kernel
  have hnames : Program.variableNames (program lines) = [ascii "i", ascii "j"] := by
    decide +kernel
  have hlabels : Program.labels (program lines) = [ascii "LOOP", ascii "KBD"] := by
    decide +kernel
  obtain ⟨hvariable, -, -, -, hpredefined, hsize⟩ := variables_bound_in_order new lines h
  refine ⟨h, hnames, ?_, ?_, ?_⟩
  · simpa [hnames] using hvariable 1 (by rw [hnames]; decide)
  · exact hpredefined ⟨ascii "SCREEN", 16384⟩ (by decide) (by rw [hlabels]; decide)
  · rw [hsize, hnames, hlabels]
    decide

end Assembler

end HackAssembly
