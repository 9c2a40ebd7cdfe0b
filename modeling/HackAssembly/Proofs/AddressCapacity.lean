import HackAssembly.Proofs.Failures
import HackAssembly.Proofs.LabelAddresses
import HackAssembly.Proofs.VariableAddresses

/-!
# How much a program can address

A word can hold the addresses `0 … 65535`. Variables are placed from `16` on, so there is room for
`65520` of them, and a label can be loaded if at most `65535` instructions stand before its last
declaration. A program that is otherwise well written is assembled exactly if it keeps to these two
limits; if not, it is refused for the first line that oversteps one of them.
-/

namespace HackAssembly

/-- All shapes and mnemonics are known and all numbers fit in a word. What is left open is whether
the addresses of names do. -/
structure WellWritten (lines : List Bytes) : Prop where
  shape : ∀ l ∈ substantive lines, ¬l.IsMalformed
  mnemonics : ∀ l ∈ substantive lines, ∀ fields, Statement.parse l.text = .ok (.compute fields) →
    ∃ (comp : Comp) (dest : Dest) (jump : Jump),
      fields = ⟨dest.mnemonic, comp.mnemonic, jump.mnemonic⟩
  numbers : ∀ l ∈ substantive lines, ∀ target, Statement.parse l.text = .ok (.load target) →
    isSignedDigits target = true → 0 ≤ signedPlaceValue target ∧ signedPlaceValue target ≤ 65535

/-- The number of instructions on the lines before a given one. -/
def instructionsBefore (lines : List Bytes) (d : Nat) : Nat :=
  (instructionLines lines).countP fun l => l.number < d

/-- There is a word for the address of every variable and of every label that is loaded. -/
structure AddressesFit (lines : List Bytes) : Prop where
  room : (Program.variableNames (program lines)).length ≤ 65520
  reach : ∀ name ∈ Program.targets (program lines), isSignedDigits name = false →
    ∀ d, IsLastDeclaration lines name d → instructionsBefore lines d ≤ 65535

/-- The line loads a label that is too far behind, or is the first to load the variable for which
there is no room, with the address that does not fit. -/
inductive Oversteps (lines : List Bytes) : SourceLine → Nat → Prop
  | farLabel {l : SourceLine} {name : Bytes} {d : Nat}
      (hload : Statement.parse l.text = .ok (.load name)) (hsymbol : isSignedDigits name = false)
      (hdeclared : IsLastDeclaration lines name d) (hfar : 65535 < instructionsBefore lines d) :
      Oversteps lines l (instructionsBefore lines d)
  | newVariable {l : SourceLine} {name : Bytes}
      (hname : (Program.variableNames (program lines))[65520]? = some name)
      (hfirst : IsFirst (fun m => Statement.parse m.text = .ok (.load name))
        (substantive lines) l) :
      Oversteps lines l 65536

/-! ### Labels and the instructions before them -/

/-- The lines that become words are those of the statements that do. -/
theorem instructionLines_eq (lines : List Bytes) :
    instructionLines lines = ((program lines).filter Item.isInstruction).map Item.line := by
  rw [instructionLines, program, Program.statements]
  induction substantive lines with
  | nil => rfl
  | cons l source ih =>
      cases hparse : Statement.parse l.text with
      | error how =>
          have hitem : l.item? = none := by rw [SourceLine.item?, hparse]
          have hnot : ¬l.isInstruction = true := by rw [SourceLine.isInstruction, hparse]; simp
          rw [List.filter_cons_of_neg hnot, List.filterMap_cons_none hitem, ih]
      | ok statement =>
          have hitem : l.item? = some ⟨l, statement⟩ := by rw [SourceLine.item?, hparse]
          rw [List.filter_cons, SourceLine.isInstruction_eq hparse,
            List.filterMap_cons_some hitem, List.filter_cons, ih]
          split <;> rfl

/-- A name that is declared has a last declaration. -/
theorem Program.exists_last_label {items : List Item} {name : Bytes} (h : name ∈ labels items) :
    ∃ before i after, items = before ++ i :: after ∧ i.label? = some name ∧
      ∀ j ∈ after, j.label? ≠ some name := by
  induction items with
  | nil => cases h
  | cons i rest ih =>
      by_cases hlater : name ∈ labels rest
      · obtain ⟨before, j, after, rfl, hj, hafter⟩ := ih hlater
        exact ⟨i :: before, j, after, rfl, hj, hafter⟩
      · have hnone : ∀ j ∈ rest, j.label? ≠ some name := fun j hj hlabel =>
          hlater (List.mem_filterMap.mpr ⟨j, hj, hlabel⟩)
        obtain ⟨j, hj, hlabel⟩ := List.mem_filterMap.mp h
        rcases List.mem_cons.mp hj with rfl | hrest
        · exact ⟨[], j, rest, rfl, hlabel, hnone⟩
        · exact absurd hlabel (hnone j hrest)

namespace IsLastDeclaration

variable {lines : List Bytes} {name : Bytes}

theorem exists_of_mem_labels (h : name ∈ Program.labels (program lines)) :
    ∃ d, IsLastDeclaration lines name d := by
  obtain ⟨before, i, after, hsplit, hi, hafter⟩ := Program.exists_last_label h
  have hsorted := pairwise_program lines
  rw [hsplit, List.pairwise_append] at hsorted
  obtain ⟨-, -, hbefore⟩ := hsorted
  have hmem : i ∈ program lines := by simp [hsplit]
  obtain ⟨hline, hparse⟩ := Program.mem_statements.mp hmem
  rw [Item.label?_eq_some_iff.mp hi] at hparse
  refine ⟨i.line.number, ⟨i.line, hline, rfl, hparse⟩, ?_⟩
  intro l hl hlabel
  have hother : (⟨l, .label name⟩ : Item) ∈ program lines :=
    Program.mem_statements.mpr ⟨hl, hlabel⟩
  rw [hsplit, List.mem_append, List.mem_cons] at hother
  rcases hother with hmem | rfl | hmem
  · exact (hbefore _ hmem i List.mem_cons_self).le
  · exact Nat.le_refl _
  · exact absurd rfl (hafter _ hmem)

theorem mem_labels {d : Nat} (h : IsLastDeclaration lines name d) :
    name ∈ Program.labels (program lines) := by
  obtain ⟨l, hl, -, hparse⟩ := h.declares
  exact mem_labels_program hl hparse

theorem unique {d e : Nat} (hd : IsLastDeclaration lines name d)
    (he : IsLastDeclaration lines name e) : d = e := by
  obtain ⟨l, hl, rfl, hparse⟩ := hd.declares
  obtain ⟨m, hm, rfl, hparse'⟩ := he.declares
  exact Nat.le_antisymm (he.last l hl hparse) (hd.last m hm hparse')

/-- The label stands for the number of instructions before its last declaration. -/
theorem labelAddress?_eq {d : Nat} (h : IsLastDeclaration lines name d) :
    Program.labelAddress? (program lines) name = some (instructionsBefore lines d) := by
  obtain ⟨before, after, i, hsplit, hi, hbefore, hafter, hlast⟩ := h.split
  have hlabel : i.isInstruction = false := by rw [Item.isInstruction, hi]
  rw [instructionsBefore, instructionLines_eq, hsplit,
    Program.labelAddress?_of_last (Item.label?_eq_some_iff.mpr hi) hlast, List.countP_map,
    List.countP_filter, List.countP_append, List.countP_cons_of_neg (by simp [hlabel])]
  have hfront : before.countP Item.isInstruction = before.countP fun j =>
      ((fun l : SourceLine => decide (l.number < d)) ∘ Item.line) j && j.isInstruction := by
    apply List.countP_congr
    intro j hj
    simp [hbefore j hj]
  have hrest : (after.countP fun j =>
      ((fun l : SourceLine => decide (l.number < d)) ∘ Item.line) j && j.isInstruction) = 0 := by
    apply List.countP_eq_zero.mpr
    intro j hj
    have hlt := hafter j hj
    simp [hlt.le]
  rw [hfront, hrest, Nat.add_zero]

theorem meaning?_eq {d : Nat} (h : IsLastDeclaration lines name d) :
    Program.meaning? (program lines) name = some (instructionsBefore lines d : Int) := by
  rw [Program.meaning?, h.labelAddress?_eq]

/-- The address of a label comes from its last declaration. -/
theorem exists_of_labelAddress? {k : Nat}
    (h : Program.labelAddress? (program lines) name = some k) :
    ∃ d, IsLastDeclaration lines name d ∧ instructionsBefore lines d = k := by
  have hmem : name ∈ Program.labels (program lines) := by
    by_contra hnot
    rw [Program.labelAddress?_eq_none_iff.mpr hnot] at h
    cases h
  obtain ⟨d, hd⟩ := exists_of_mem_labels hmem
  rw [hd.labelAddress?_eq] at h
  exact ⟨d, hd, Option.some.inj h⟩

end IsLastDeclaration

/-! ### What names can stand for -/

namespace Program

variable {items : List Item} {name : Bytes} {address : Int}

theorem predefined_fits (h : SymbolTable.predefined.get? name = some address) :
    0 ≤ address ∧ address ≤ 65535 := by
  have hb : (⟨name, address⟩ : Binding) ∈ predefinedSymbols :=
    SymbolTable.get?_predefined_eq_some_iff.mp h
  have hall : ∀ b ∈ predefinedSymbols, 0 ≤ b.address ∧ b.address ≤ 65535 := by decide
  exact hall _ hb

/-- A name stands for a label's address, a predefined one or that of a variable. -/
theorem meaning?_cases (h : meaning? items name = some address) :
    (∃ k, labelAddress? items name = some k ∧ address = (k : Int)) ∨
      SymbolTable.predefined.get? name = some address ∨
      ∃ k, (variableNames items)[k]? = some name ∧ address = ((firstVariable + k : Nat) : Int) := by
  unfold meaning? at h
  split at h
  · rename_i k hlabel
    cases h
    exact Or.inl ⟨k, hlabel, rfl⟩
  · split at h
    · rename_i found hpredefined
      cases h
      exact Or.inr (Or.inl hpredefined)
    · obtain ⟨k, hk, rfl⟩ := Option.map_eq_some_iff.mp h
      obtain ⟨hlt, hget, -⟩ := List.idxOf?_eq_some_iff.mp hk
      exact Or.inr (Or.inr ⟨k, List.getElem?_eq_some_iff.mpr ⟨hlt, hget⟩, rfl⟩)

theorem mem_targets_statements {source : List SourceLine} {name : Bytes} :
    name ∈ targets (statements source) ↔
      ∃ m ∈ source, Statement.parse m.text = .ok (.load name) := by
  rw [targets, List.mem_filterMap]
  constructor
  · rintro ⟨⟨m, statement⟩, hi, htarget⟩
    obtain ⟨hm, hparse⟩ := mem_statements.mp hi
    cases statement with
    | load target =>
        cases htarget
        exact ⟨m, hm, hparse⟩
    | label _ => cases htarget
    | compute _ => cases htarget
  · rintro ⟨m, hm, hparse⟩
    exact ⟨⟨m, .load name⟩, mem_statements.mpr ⟨hm, hparse⟩, rfl⟩

theorem meaning?_getElem? {k : Nat} (h : (variableNames items)[k]? = some name) :
    isSignedDigits name = false ∧ meaning? items name = some ((firstVariable + k : Nat) : Int) := by
  obtain ⟨hk, rfl⟩ := List.getElem?_eq_some_iff.mp h
  obtain ⟨-, hvariable⟩ := mem_variableNames.mp (List.getElem_mem hk)
  exact ⟨(isVariable_iff.mp hvariable).1, meaning?_variable hk⟩

end Program

/-- What keeps a well-written line from being encoded is the address of a symbol. -/
theorem WellWritten.isRefusedFor_iff {lines : List Bytes} (h : WellWritten lines) {l : SourceLine}
    (hl : l ∈ substantive lines) {cause : Cause} :
    l.IsRefusedFor lines cause ↔ ∃ name address,
      Statement.parse l.text = .ok (.load name) ∧ isSignedDigits name = false ∧
      Program.meaning? (program lines) name = some address ∧
      ¬(0 ≤ address ∧ address ≤ 65535) ∧ cause = .addressTooWide address := by
  constructor
  · rintro ⟨statement, hparse, hwhy⟩
    have hknown : ∀ fields, statement = .compute fields →
        ∃ (comp : Comp) (dest : Dest) (jump : Jump),
          fields = ⟨dest.mnemonic, comp.mnemonic, jump.mnemonic⟩ := by
      rintro fields rfl
      exact h.mnemonics l hl fields hparse
    cases hwhy with
    | comp hcomp =>
        obtain ⟨comp, dest, jump, rfl⟩ := hknown _ rfl
        rw [Comp.ofMnemonic?_mnemonic] at hcomp
        cases hcomp
    | dest _ hdest =>
        obtain ⟨comp, dest, jump, rfl⟩ := hknown _ rfl
        rw [Dest.ofMnemonic?_mnemonic] at hdest
        cases hdest
    | jump _ _ hjump =>
        obtain ⟨comp, dest, jump, rfl⟩ := hknown _ rfl
        rw [Jump.ofMnemonic?_mnemonic] at hjump
        cases hjump
    | @longNumeral target hnumeral hlong =>
        obtain ⟨hlow, hhigh⟩ := h.numbers l hl target hparse hnumeral
        omega
    | @wideNumeral target hnumeral _ hwide =>
        exact absurd (h.numbers l hl target hparse hnumeral) hwide
    | @wideSymbol target address hsymbol haddress hwide =>
        exact ⟨target, address, hparse, hsymbol, haddress, hwide, rfl⟩
  · rintro ⟨name, address, hparse, hsymbol, haddress, hwide, rfl⟩
    exact ⟨.load name, hparse, .wideSymbol hsymbol haddress hwide⟩

/-! ### The first line that oversteps a limit -/

section Refused

variable {lines : List Bytes} {l : SourceLine} {name : Bytes}

/-- A line that loads a label too far behind cannot be encoded. -/
theorem isRefusedFor_of_far {d : Nat} (hload : Statement.parse l.text = .ok (.load name))
    (hsymbol : isSignedDigits name = false) (hdeclared : IsLastDeclaration lines name d)
    (hfar : 65535 < instructionsBefore lines d) :
    l.IsRefusedFor lines (.addressTooWide (instructionsBefore lines d)) :=
  ⟨.load name, hload, .wideSymbol hsymbol hdeclared.meaning?_eq (by omega)⟩

/-- A line that loads the variable for which there is no room cannot be encoded. -/
theorem isRefusedFor_of_variable
    (hname : (Program.variableNames (program lines))[65520]? = some name)
    (hload : Statement.parse l.text = .ok (.load name)) :
    l.IsRefusedFor lines (.addressTooWide 65536) := by
  obtain ⟨hsymbol, hmeaning⟩ := Program.meaning?_getElem? hname
  exact ⟨.load name, hload, .wideSymbol hsymbol hmeaning (by decide)⟩

theorem Oversteps.isRefused {address : Nat} (h : Oversteps lines l address) :
    l.IsRefused lines := by
  cases h with
  | farLabel hload hsymbol hdeclared hfar =>
      exact ⟨_, isRefusedFor_of_far hload hsymbol hdeclared hfar⟩
  | newVariable hname hfirst =>
      obtain ⟨-, -, -, hload, -⟩ := hfirst
      exact ⟨_, isRefusedFor_of_variable hname hload⟩

theorem Oversteps.not_addressesFit {address : Nat} (hl : l ∈ substantive lines)
    (h : Oversteps lines l address) : ¬AddressesFit lines := by
  intro hfit
  cases h with
  | farLabel hload hsymbol hdeclared hfar =>
      have hle := hfit.reach _ (Program.mem_targets_statements.mpr ⟨l, hl, hload⟩) hsymbol _
        hdeclared
      omega
  | newVariable hname _ =>
      have hlt := (List.getElem?_eq_some_iff.mp hname).1
      have hle := hfit.room
      omega

/-- If no line is refused, all addresses fit. -/
theorem addressesFit_of_not_isRefused (h : ∀ m ∈ substantive lines, ¬m.IsRefused lines) :
    AddressesFit lines where
  room := by
    by_contra hmany
    obtain ⟨name, hname⟩ : ∃ name, (Program.variableNames (program lines))[65520]? = some name :=
      ⟨_, List.getElem?_eq_getElem (by omega)⟩
    obtain ⟨htarget, -⟩ := Program.mem_variableNames.mp (List.mem_of_getElem? hname)
    obtain ⟨m, hm, hload⟩ := Program.mem_targets_statements.mp htarget
    exact h m hm ⟨_, isRefusedFor_of_variable hname hload⟩
  reach := by
    intro name htarget hsymbol d hdeclared
    by_contra hfar
    obtain ⟨m, hm, hload⟩ := Program.mem_targets_statements.mp htarget
    exact h m hm ⟨_, isRefusedFor_of_far hload hsymbol hdeclared (by omega)⟩

end Refused

/-- The variables that some statements load come first, in front of those of later statements. -/
theorem Program.variableNames_split (left right : List Item) :
    ∃ seen later, variableNames (left ++ right) = seen ++ later ∧
      ∀ name, name ∈ seen ↔ name ∈ targets left ∧ isVariable (left ++ right) name = true := by
  rw [variableNames, targets_append, List.filter_append, List.eraseDups_append]
  refine ⟨_, _, rfl, ?_⟩
  intro name
  rw [List.mem_eraseDups, List.mem_filter]

/-- When a variable has been loaded, so have all variables that are placed before it. -/
theorem Program.mem_targets_of_le {left right : List Item} {j k : Nat} {name other : Bytes}
    (hjk : j ≤ k) (hname : (variableNames (left ++ right))[k]? = some name)
    (hloaded : name ∈ targets left) (hother : (variableNames (left ++ right))[j]? = some other) :
    other ∈ targets left := by
  have hvariable := (mem_variableNames.mp (List.mem_of_getElem? hname)).2
  have hnodup : (variableNames (left ++ right)).Nodup := nodup_eraseDups _
  obtain ⟨seen, later, hsplit, hseen⟩ := variableNames_split left right
  obtain ⟨n, hn⟩ := List.mem_iff_getElem?.mp ((hseen name).mpr ⟨hloaded, hvariable⟩)
  have hlt : n < seen.length := (List.getElem?_eq_some_iff.mp hn).1
  rw [hsplit] at hname hother hnodup
  have hindex : n = k := by
    have hwhole : n < (seen ++ later).length := by
      rw [List.length_append]
      omega
    apply (List.getElem?_inj hwhole hnodup).mp
    rw [List.getElem?_append_left hlt, hn, hname]
  rw [List.getElem?_append_left (by omega)] at hother
  exact ((hseen other).mp (List.mem_of_getElem? hother)).1

section First

variable {lines : List Bytes} {l : SourceLine}

/-- The statements up to a line and those after it. -/
theorem program_of_split {before after : List SourceLine}
    (h : substantive lines = before ++ l :: after) :
    program lines = Program.statements (before ++ [l]) ++ Program.statements after := by
  rw [program, h, List.append_cons, Program.statements, List.filterMap_append]
  rfl

/-- The first line that loads a variable without room loads the first such variable. -/
theorem oversteps_of_first_variable (h : IsFirst (SourceLine.IsRefused lines) (substantive lines) l)
    {name : Bytes} {k : Nat} (hload : Statement.parse l.text = .ok (.load name))
    (hname : (Program.variableNames (program lines))[k]? = some name) (hk : 65520 ≤ k) :
    k = 65520 ∧ Oversteps lines l 65536 := by
  obtain ⟨before, after, hsplit, -, hbefore⟩ := h
  have hprogram := program_of_split hsplit
  have hlt := (List.getElem?_eq_some_iff.mp hname).1
  obtain ⟨first, hfirst⟩ : ∃ first, (Program.variableNames (program lines))[65520]? = some first :=
    ⟨_, List.getElem?_eq_getElem (by omega)⟩
  have hloaded : name ∈ Program.targets (Program.statements (before ++ [l])) :=
    Program.mem_targets_statements.mpr ⟨l, by simp, hload⟩
  have hmem : first ∈ Program.targets (Program.statements (before ++ [l])) := by
    apply Program.mem_targets_of_le hk _ hloaded
    · rwa [← hprogram]
    · rwa [← hprogram]
  have hnew : ∀ m ∈ before, Statement.parse m.text ≠ .ok (.load first) := fun m hm hmload =>
    hbefore m hm ⟨_, isRefusedFor_of_variable hfirst hmload⟩
  -- the variable is loaded up to this line, and not before it
  have hsame : first = name := by
    obtain ⟨m, hm, hmload⟩ := Program.mem_targets_statements.mp hmem
    rcases List.mem_append.mp hm with hm | hm
    · exact absurd hmload (hnew m hm)
    · rw [List.mem_singleton.mp hm, hload] at hmload
      cases hmload
      rfl
  subst hsame
  refine ⟨?_, .newVariable hfirst ⟨before, after, hsplit, hload, hnew⟩⟩
  exact (List.getElem?_inj hlt (nodup_eraseDups _)).mp (hname.trans hfirst.symm)

/-- The first line that cannot be encoded oversteps a limit. -/
theorem WellWritten.oversteps_of_first (h : WellWritten lines) {cause : Cause}
    (hfirst : IsFirst (SourceLine.IsRefused lines) (substantive lines) l)
    (hrefused : l.IsRefusedFor lines cause) :
    ∃ address, Oversteps lines l address ∧ cause = .addressTooWide address := by
  obtain ⟨name, address, hload, hsymbol, hmeaning, hwide, rfl⟩ :=
    (h.isRefusedFor_iff hfirst.mem).mp hrefused
  rcases Program.meaning?_cases hmeaning with ⟨k, hlabel, rfl⟩ | hpredefined | ⟨k, hname, rfl⟩
  · obtain ⟨d, hd, rfl⟩ := IsLastDeclaration.exists_of_labelAddress? hlabel
    exact ⟨_, .farLabel hload hsymbol hd (by omega), rfl⟩
  · exact absurd (Program.predefined_fits hpredefined) hwide
  · have hk : 65520 ≤ k := by
      rw [firstVariable] at hwide
      omega
    obtain ⟨rfl, hoversteps⟩ := oversteps_of_first_variable hfirst hload hname hk
    exact ⟨65536, hoversteps, rfl⟩

end First

namespace Assembler

/-- A well-written program is assembled exactly if it has at most `65520` variables and at most
`65535` instructions before each label that it loads. If not, it is refused for the first line that
loads a label too far behind or the variable for which there is no room. -/
theorem assembled_iff_addresses_fit (asm : Assembler) (lines : List Bytes) (h : WellWritten lines) :
    let result := (asm.assemble lines).result
    ((∃ words, result = .ok words) ↔ AddressesFit lines) ∧
      (¬AddressesFit lines →
        ∃ l address, IsFirst (fun m => ∃ a, Oversteps lines m a) (substantive lines) l ∧
          Oversteps lines l address ∧
          result = .error (.atLine l.number l.text (.addressTooWide address))) := by
  have hfault := Program.fault?_eq_none_iff.mpr h.shape
  cases hrefusal : Program.refusal? (program lines) with
  | none =>
      have hfit := addressesFit_of_not_isRefused (Program.refusal?_eq_none_iff.mp hrefusal)
      obtain ⟨words, hresult, -⟩ := exists_assembled asm hfault hrefusal
      exact ⟨⟨fun _ => hfit, fun _ => ⟨words, hresult⟩⟩, fun hnot => absurd hfit hnot⟩
  | some failure =>
      have hresult := result_of_refusal asm hfault hrefusal
      obtain ⟨l, cause, hfirst, hcause, rfl⟩ := exists_first_refused hrefusal
      obtain ⟨address, hoversteps, rfl⟩ := h.oversteps_of_first hfirst hcause
      have hnot := hoversteps.not_addressesFit hfirst.mem
      obtain ⟨before, after, hsplit, -, hbefore⟩ := hfirst
      have hearlier : ∀ m ∈ before, ¬∃ a, Oversteps lines m a := fun m hm ⟨_, hm'⟩ =>
        hbefore m hm hm'.isRefused
      refine ⟨⟨?_, fun hfit => absurd hfit hnot⟩, fun _ => ?_⟩
      · rintro ⟨words, hwords⟩
        rw [hresult] at hwords
        cases hwords
      · exact ⟨l, address, ⟨before, after, hsplit, ⟨address, hoversteps⟩, hearlier⟩, hoversteps,
          hresult⟩

end Assembler

/-! ### The boundary -/

/-- A program that loads a label some times, jumps some times, and then declares the label. -/
def labelBehind (loads jumps : Nat) : List Bytes :=
  List.replicate loads (ascii "@L") ++ (List.replicate jumps (ascii "0;JMP") ++ [ascii "(L)"])

theorem substantiveFrom_cons_of_trimmed {line : Bytes} (hne : line ≠ [])
    (htext : instructionText line = line) (number : Nat) (rest : List Bytes) :
    substantiveFrom number (line :: rest) =
      ⟨number, line⟩ :: substantiveFrom (number + 1) rest := by
  rw [substantiveFrom_cons, SourceLine.ofLine?, htext, if_neg (by simpa using hne)]

theorem substantiveFrom_replicate_append {line : Bytes} (hne : line ≠ [])
    (htext : instructionText line = line) (number n : Nat) (rest : List Bytes) :
    substantiveFrom number (List.replicate n line ++ rest) =
      (List.range' number n).map (⟨·, line⟩) ++ substantiveFrom (number + n) rest := by
  induction n generalizing number with
  | zero => rfl
  | succ n ih =>
      rw [List.replicate_succ, List.cons_append, substantiveFrom_cons_of_trimmed hne htext, ih,
        List.range'_succ, List.map_cons, List.cons_append, Nat.add_assoc, Nat.add_comm 1 n]

/-- The same instruction on consecutive lines counts as often as it stands there. -/
theorem countP_repeated {text : Bytes} {first n d : Nat} (h : first + n ≤ d)
    (hinstruction : ∀ number, SourceLine.isInstruction ⟨number, text⟩ = true) :
    ((List.range' first n).map (⟨·, text⟩)).countP (fun l : SourceLine =>
      decide (l.number < d) && l.isInstruction) = n := by
  rw [List.countP_map, List.countP_eq_length.mpr, List.length_range']
  intro number hnumber
  simp only [List.mem_range'_1] at hnumber
  have hlt : number < d := by omega
  simp [hinstruction, hlt]

namespace labelBehind

variable {loads jumps : Nat} {l : SourceLine}

theorem substantive_eq (loads jumps : Nat) : substantive (labelBehind loads jumps) =
    (List.range' 1 loads).map (⟨·, ascii "@L"⟩) ++
      ((List.range' (1 + loads) jumps).map (⟨·, ascii "0;JMP"⟩) ++
        [⟨1 + loads + jumps, ascii "(L)"⟩]) := by
  rw [substantive_eq_substantiveFrom, labelBehind,
    substantiveFrom_replicate_append (by decide) (by decide +kernel),
    substantiveFrom_replicate_append (by decide) (by decide +kernel),
    substantiveFrom_cons_of_trimmed (by decide) (by decide +kernel)]
  rfl

theorem parse_load : Statement.parse (ascii "@L") = .ok (.load (ascii "L")) := by decide +kernel

theorem parse_jump : Statement.parse (ascii "0;JMP") =
    .ok (.compute ⟨Dest.null.mnemonic, Comp.zero.mnemonic, Jump.always.mnemonic⟩) := by
  decide +kernel

theorem parse_label : Statement.parse (ascii "(L)") = .ok (.label (ascii "L")) := by
  decide +kernel

/-- What the lines are. -/
theorem parse_of_mem (h : l ∈ substantive (labelBehind loads jumps)) :
    (1 ≤ l.number ∧ l.number ≤ loads ∧ l.text = ascii "@L" ∧
        Statement.parse l.text = .ok (.load (ascii "L"))) ∨
      Statement.parse l.text =
        .ok (.compute ⟨Dest.null.mnemonic, Comp.zero.mnemonic, Jump.always.mnemonic⟩) ∨
      (l.number = 1 + loads + jumps ∧ Statement.parse l.text = .ok (.label (ascii "L"))) := by
  rw [substantive_eq, List.mem_append, List.mem_append, List.mem_map, List.mem_map,
    List.mem_singleton] at h
  rcases h with ⟨number, hnumber, rfl⟩ | ⟨number, -, rfl⟩ | rfl
  · rw [List.mem_range'_1] at hnumber
    have hle : number ≤ loads := by omega
    exact Or.inl ⟨hnumber.1, hle, rfl, parse_load⟩
  · exact Or.inr (Or.inl parse_jump)
  · exact Or.inr (Or.inr ⟨rfl, parse_label⟩)

theorem eq_of_load {name : Bytes} (h : l ∈ substantive (labelBehind loads jumps))
    (hload : Statement.parse l.text = .ok (.load name)) :
    1 ≤ l.number ∧ l.number ≤ loads ∧ l.text = ascii "@L" ∧ name = ascii "L" := by
  rcases parse_of_mem h with ⟨hpos, hle, htext, hparse⟩ | hparse | ⟨-, hparse⟩
  · rw [hparse] at hload
    cases hload
    exact ⟨hpos, hle, htext, rfl⟩
  · rw [hparse] at hload
    cases hload
  · rw [hparse] at hload
    cases hload

theorem eq_of_label {name : Bytes} (h : l ∈ substantive (labelBehind loads jumps))
    (hlabel : Statement.parse l.text = .ok (.label name)) :
    l.number = 1 + loads + jumps ∧ name = ascii "L" := by
  rcases parse_of_mem h with ⟨-, -, -, hparse⟩ | hparse | ⟨hnumber, hparse⟩
  · rw [hparse] at hlabel
    cases hlabel
  · rw [hparse] at hlabel
    cases hlabel
  · rw [hparse] at hlabel
    cases hlabel
    exact ⟨hnumber, rfl⟩

theorem wellWritten (loads jumps : Nat) : WellWritten (labelBehind loads jumps) where
  shape := by
    rintro l hl ⟨how, hmalformed⟩
    rcases parse_of_mem hl with ⟨-, -, -, hparse⟩ | hparse | ⟨-, hparse⟩ <;>
      · rw [hparse] at hmalformed
        cases hmalformed
  mnemonics := by
    intro l hl fields hcompute
    rcases parse_of_mem hl with ⟨-, -, -, hparse⟩ | hparse | ⟨-, hparse⟩
    · rw [hparse] at hcompute
      cases hcompute
    · rw [hparse] at hcompute
      cases hcompute
      exact ⟨_, _, _, rfl⟩
    · rw [hparse] at hcompute
      cases hcompute
  numbers := by
    intro l hl target hload hnumeral
    obtain ⟨-, -, -, rfl⟩ := eq_of_load hl hload
    cases hnumeral

theorem isLastDeclaration (loads jumps : Nat) :
    IsLastDeclaration (labelBehind loads jumps) (ascii "L") (1 + loads + jumps) where
  declares := by
    refine ⟨⟨1 + loads + jumps, ascii "(L)"⟩, ?_, rfl, parse_label⟩
    simp [substantive_eq]
  last := by
    intro l hl hlabel
    exact (eq_of_label hl hlabel).1.le

theorem instructionsBefore_eq (loads jumps : Nat) :
    instructionsBefore (labelBehind loads jumps) (1 + loads + jumps) = loads + jumps := by
  have hload (number : Nat) : SourceLine.isInstruction ⟨number, ascii "@L"⟩ = true := by
    rw [SourceLine.isInstruction, parse_load]
  have hjump (number : Nat) : SourceLine.isInstruction ⟨number, ascii "0;JMP"⟩ = true := by
    rw [SourceLine.isInstruction, parse_jump]
  rw [instructionsBefore, instructionLines, substantive_eq, List.countP_filter, List.countP_append,
    List.countP_append, countP_repeated (Nat.le_add_right _ _) hload,
    countP_repeated (Nat.le_refl _) hjump]
  simp

theorem variableNames_eq (loads jumps : Nat) :
    Program.variableNames (program (labelBehind loads jumps)) = [] := by
  apply List.eq_nil_iff_forall_not_mem.mpr
  intro name hname
  obtain ⟨htarget, hvariable⟩ := Program.mem_variableNames.mp hname
  obtain ⟨m, hm, hload⟩ := Program.mem_targets_statements.mp htarget
  obtain ⟨-, -, -, rfl⟩ := eq_of_load hm hload
  exact (Program.isVariable_iff.mp hvariable).2.2 (isLastDeclaration loads jumps).mem_labels

/-- The label is out of reach only for a line that loads it. -/
theorem addressesFit_iff : AddressesFit (labelBehind loads jumps) ↔
    loads = 0 ∨ loads + jumps ≤ 65535 := by
  constructor
  · intro hfit
    rcases Nat.eq_zero_or_pos loads with hzero | hpos
    · exact Or.inl hzero
    · have hfirst : (⟨1, ascii "@L"⟩ : SourceLine) ∈ substantive (labelBehind loads jumps) := by
        simp [substantive_eq, hpos]
      have hle := hfit.reach _ (Program.mem_targets_statements.mpr ⟨_, hfirst, parse_load⟩)
        (by decide) _ (isLastDeclaration loads jumps)
      rw [instructionsBefore_eq] at hle
      exact Or.inr hle
  · intro hfew
    refine ⟨by simp [variableNames_eq], ?_⟩
    intro name htarget hsymbol d hdeclared
    obtain ⟨m, hm, hload⟩ := Program.mem_targets_statements.mp htarget
    obtain ⟨hpos, hle, -, rfl⟩ := eq_of_load hm hload
    rw [hdeclared.unique (isLastDeclaration loads jumps), instructionsBefore_eq]
    omega

theorem eq_of_oversteps {address : Nat} (hl : l ∈ substantive (labelBehind loads jumps))
    (h : Oversteps (labelBehind loads jumps) l address) :
    1 ≤ l.number ∧ l.number ≤ loads ∧ l.text = ascii "@L" ∧ address = loads + jumps := by
  cases h with
  | farLabel hload _ hdeclared _ =>
      obtain ⟨hpos, hle, htext, rfl⟩ := eq_of_load hl hload
      rw [hdeclared.unique (isLastDeclaration loads jumps), instructionsBefore_eq]
      exact ⟨hpos, hle, htext, rfl⟩
  | newVariable hname _ =>
      rw [variableNames_eq] at hname
      cases hname

end labelBehind

/-- A label that is loaded once may stand behind `65534` jumps, and not behind one more. -/
theorem Assembler.label_loaded_up_to_65535 :
    (∃ words, (new.assemble (labelBehind 1 65534)).result = .ok words) ∧
      (new.assemble (labelBehind 1 65535)).result =
        .error (.atLine 1 (ascii "@L") (.addressTooWide 65536)) := by
  obtain ⟨hfits, -⟩ := assembled_iff_addresses_fit new _ (labelBehind.wellWritten 1 65534)
  obtain ⟨-, hfails⟩ := assembled_iff_addresses_fit new _ (labelBehind.wellWritten 1 65535)
  have hnot : ¬AddressesFit (labelBehind 1 65535) := by
    rw [labelBehind.addressesFit_iff]
    omega
  obtain ⟨l, address, hfirst, hoversteps, hresult⟩ := hfails hnot
  obtain ⟨hpos, hle, htext, rfl⟩ := labelBehind.eq_of_oversteps hfirst.mem hoversteps
  rw [htext, show l.number = 1 by omega] at hresult
  exact ⟨hfits.mpr (labelBehind.addressesFit_iff.mpr (Or.inr (Nat.le_refl _))), hresult⟩

end HackAssembly
