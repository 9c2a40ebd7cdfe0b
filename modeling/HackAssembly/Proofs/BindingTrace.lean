import HackAssembly.Proofs.LogReading
import HackAssembly.Proofs.TablesAfterFailure
import Mathlib.Data.Nat.SuccPred

/-!
# What a run says about its table

Every binding of a run is traced when it is made. Made again on a table with the predefined symbols
only, the traced bindings give the table that the run leaves, wherever it ends (`replay`). Warnings
go with the declarations of labels that the first pass has met: one if the name was declared before,
which tells the line of its last declaration, and one if the name is predefined. All of this is said
of notices first, and of the messages in the log by reading the notices back from them.
-/

namespace HackAssembly

namespace Notice

/-- The binding that is traced; a warning traces none. -/
def binding? : Notice → Option Binding
  | labelBound name address | variableBound name address => some ⟨name, address⟩
  | redeclared .. | shadows .. => none

/-- The variable that is placed. -/
def placed? : Notice → Option Bytes
  | variableBound name _ => some name
  | _ => none

def isWarning (n : Notice) : Bool := n.severity = .warning

/-- Whether the notice says that a label was declared before. -/
def isRedeclaration : Notice → Bool
  | redeclared .. => true
  | _ => false

theorem shown_of_isWarning {n : Notice} (h : n.isWarning = true) (verbosity : Int) :
    n.shown verbosity = true := by
  rw [shown, Bool.or_eq_true]
  exact Or.inl h

/-- From the tracing verbosity on, everything is shown. -/
theorem filter_shown {verbosity : Int} (h : traceVerbosity ≤ verbosity.bmod 4294967296)
    (log : List Notice) : log.filter (shown verbosity) = log := by
  apply List.filter_eq_self.mpr
  intro n _
  rw [shown, Bool.or_eq_true]
  exact Or.inr (decide_eq_true h)

/-- The warnings are the same at every verbosity. -/
theorem filter_isWarning_shown (verbosity : Int) (log : List Notice) :
    (log.filter (shown verbosity)).filter isWarning = log.filter isWarning := by
  rw [List.filter_filter]
  apply List.filter_congr
  intro n _
  cases hwarning : n.isWarning with
  | false => rfl
  | true => rw [shown_of_isWarning hwarning, Bool.and_true]

theorem mem_iff_of_isWarning {left right : List Notice}
    (h : left.filter isWarning = right.filter isWarning) {n : Notice} (hn : n.isWarning = true) :
    n ∈ left ↔ n ∈ right := by
  have hmem : n ∈ left.filter isWarning ↔ n ∈ right.filter isWarning := by rw [h]
  rwa [List.mem_filter, List.mem_filter, hn, and_iff_left rfl, and_iff_left rfl] at hmem

theorem countP_isRedeclaration_eq {left right : List Notice}
    (h : left.filter isWarning = right.filter isWarning) :
    left.countP isRedeclaration = right.countP isRedeclaration := by
  have hwarning : isRedeclaration = fun n => n.isRedeclaration && n.isWarning := by
    funext n
    cases n <;> rfl
  rw [hwarning, ← List.countP_filter, ← List.countP_filter, h]

end Notice

namespace SymbolTable

theorem bindAll_append (t : SymbolTable) (left right : List Binding) :
    t.bindAll (left ++ right) = (t.bindAll left).bindAll right := List.foldl_append

theorem contains_bindAll {t : SymbolTable} {bindings : List Binding} {name : Bytes} :
    (t.bindAll bindings).contains name = false ↔
      t.contains name = false ∧ name ∉ bindings.map Binding.name := by
  rw [bindAll, contains_foldl_insert]
  simp

end SymbolTable

/-- The table that comes of making the traced bindings again, one after another. -/
def replay (log : List Notice) : SymbolTable :=
  SymbolTable.predefined.bindAll (log.filterMap Notice.binding?)

/-! ### The trace of the first pass -/

namespace LabelScan

theorem filterMap_binding?_notices (s : LabelScan) (line : Nat) (name : Bytes) :
    (s.notices line name).filterMap Notice.binding? = [⟨name, s.instructions⟩] := by
  unfold notices
  cases s.declared[name]? <;> cases isPredefined name <;> rfl

theorem filterMap_placed?_notices (s : LabelScan) (line : Nat) (name : Bytes) :
    (s.notices line name).filterMap Notice.placed? = [] := by
  unfold notices
  cases s.declared[name]? <;> cases isPredefined name <;> rfl

theorem log_declare (s : LabelScan) (line : Nat) (name : Bytes) :
    (s.declare line name).log.toList = s.log.toList ++ s.notices line name := by
  simp [declare]

/-- The log tells how the table came about, and of no variable. -/
structure Traced (s : LabelScan) : Prop where
  replay_eq : replay s.log.toList = s.symbols
  noVariable : s.log.toList.filterMap Notice.placed? = []

theorem Traced.step {s : LabelScan} (h : s.Traced) (i : Item) : (s.step i).Traced := by
  obtain ⟨line, statement⟩ := i
  cases statement with
  | load target => exact ⟨h.replay_eq, h.noVariable⟩
  | compute fields => exact ⟨h.replay_eq, h.noVariable⟩
  | label name =>
      have hlog : (s.step ⟨line, .label name⟩).log.toList =
          s.log.toList ++ s.notices line.number name := log_declare s line.number name
      constructor
      · rw [replay, hlog, List.filterMap_append, filterMap_binding?_notices,
          SymbolTable.bindAll_concat, ← replay, h.replay_eq]
        rfl
      · rw [hlog, List.filterMap_append, h.noVariable, filterMap_placed?_notices]
        rfl

theorem traced_run (items : List Item) :
    ((start SymbolTable.predefined).run items).Traced := by
  induction items using List.reverseRecOn with
  | nil => exact ⟨rfl, rfl⟩
  | append_singleton items i ih =>
      rw [run_snoc]
      exact ih.step i

end LabelScan

/-! ### The trace of the second pass -/

namespace Emission

/-- The variables placed so far: they make up the log, and the table is that of the first pass with
these bindings made in the same order. -/
structure Traced (table : SymbolTable) (placed : List Binding) (e : Emission) : Prop where
  log : e.log.toList = placed.map fun b => .variableBound b.name b.address
  symbols : e.symbols = table.bindAll placed
  nodup : (placed.map Binding.name).Nodup

namespace Traced

variable {table : SymbolTable} {placed : List Binding} {e : Emission}

theorem start (table : SymbolTable) (nextVariable : Nat) :
    Traced table [] (Emission.start table nextVariable) := ⟨rfl, rfl, List.nodup_nil⟩

/-- A name is placed only if it is bound nowhere, so never twice. -/
theorem allocate (h : Traced table placed e) (name : Bytes) :
    ∃ placed', Traced table placed' (e.allocate name) := by
  unfold Emission.allocate
  cases hcontains : e.symbols.contains name with
  | true => exact ⟨placed, h⟩
  | false =>
      rw [h.symbols, SymbolTable.contains_bindAll] at hcontains
      refine ⟨placed ++ [⟨name, e.nextVariable⟩], ?_, ?_, ?_⟩
      · simp [h.log]
      · simp [SymbolTable.bindAll_concat, h.symbols]
      · rw [List.map_append, List.map_singleton, List.nodup_append]
        refine ⟨h.nodup, List.nodup_singleton _, ?_⟩
        rintro other hother _ hname rfl
        rw [List.mem_singleton.mp hname] at hother
        exact hcontains.2 hother

theorem encode (h : Traced table placed e) (statement : Statement) :
    ∃ placed', Traced table placed' (e.encode statement).1 := by
  cases statement with
  | label name => exact ⟨placed, h⟩
  | compute fields => exact ⟨placed, h⟩
  | load target =>
      rw [Emission.encode, Emission.load]
      cases isSignedDigits target with
      | true => exact ⟨placed, h⟩
      | false => exact h.allocate target

theorem step (h : Traced table placed e) (i : Item) :
    ∃ placed', Traced table placed' (e.step i).1 := by
  obtain ⟨placed', hnext⟩ := h.encode i.statement
  refine ⟨placed', ?_⟩
  rw [Emission.step]
  rcases hencode : e.encode i.statement with ⟨e', _ | cause | code⟩
  all_goals rw [hencode] at hnext
  · exact hnext
  · exact hnext
  · exact ⟨hnext.log, hnext.symbols, hnext.nodup⟩

theorem run (h : Traced table placed e) (items : List Item) :
    ∃ placed', Traced table placed' (e.run items).1 := by
  induction items generalizing placed e with
  | nil => exact ⟨placed, h⟩
  | cons i rest ih =>
      obtain ⟨placed', hnext⟩ := h.step i
      rw [Emission.run]
      rcases hstep : e.step i with ⟨e', _ | failure⟩
      · rw [hstep] at hnext
        exact ih hnext
      · rw [hstep] at hnext
        exact ⟨placed', hnext⟩

end Traced

end Emission

/-! ### Warnings -/

/-- One of the statements declares the name on the given line. -/
def Declares (items : List Item) (name : Bytes) (line : Nat) : Prop :=
  ∃ i ∈ items, i.label? = some name ∧ i.line.number = line

theorem declares_concat {items : List Item} {i : Item} {name : Bytes} {line : Nat} :
    Declares (items ++ [i]) name line ↔
      Declares items name line ∨ i.label? = some name ∧ i.line.number = line := by
  simp only [Declares, List.mem_append, List.mem_singleton]
  constructor
  · rintro ⟨j, hj | rfl, hlabel⟩
    · exact Or.inl ⟨j, hj, hlabel⟩
    · exact Or.inr hlabel
  · rintro (⟨j, hj, hlabel⟩ | hlabel)
    · exact ⟨j, Or.inl hj, hlabel⟩
    · exact ⟨i, Or.inr rfl, hlabel⟩

section Declarations

variable {items : List Item} {i : Item} {name : Bytes} {line k : Nat}

theorem Declares.mem_labels (h : Declares items name line) : name ∈ Program.labels items := by
  obtain ⟨j, hj, hlabel, -⟩ := h
  exact List.mem_filterMap.mpr ⟨j, hj, hlabel⟩

theorem exists_declares (h : name ∈ Program.labels items) : ∃ line, Declares items name line := by
  obtain ⟨j, hj, hlabel⟩ := List.mem_filterMap.mp h
  exact ⟨_, j, hj, hlabel, rfl⟩

theorem Declares.lt_last (h : Declares items name line)
    (hlast : ∀ j ∈ items, j.line.number < i.line.number) : line < i.line.number := by
  obtain ⟨j, hj, -, rfl⟩ := h
  exact hlast j hj

/-- A later statement does not change what was declared before a line. -/
theorem earlier_concat (hline : line ≤ i.line.number) :
    {k | k < line ∧ Declares (items ++ [i]) name k} = {k | k < line ∧ Declares items name k} := by
  ext k
  constructor
  · rintro ⟨hk, hdeclares⟩
    rcases declares_concat.mp hdeclares with hold | ⟨-, rfl⟩
    · exact ⟨hk, hold⟩
    · omega
  · rintro ⟨hk, hold⟩
    exact ⟨hk, declares_concat.mpr (Or.inl hold)⟩

theorem earlier_eq_all (hlast : ∀ j ∈ items, j.line.number < i.line.number) :
    {k | k < i.line.number ∧ Declares items name k} = {k | Declares items name k} := by
  ext k
  exact ⟨And.right, fun hk => ⟨hk.lt_last hlast, hk⟩⟩

theorem exists_isGreatest {p : Nat → Prop} (h : ∃ k, p k) (hbound : ∀ k, p k → k < line) :
    ∃ k, IsGreatest {k | p k} k :=
  BddAbove.exists_isGreatest_of_nonempty ⟨line, fun k hk => (hbound k hk).le⟩ h

end Declarations

namespace LabelScan

variable {items : List Item} {s : LabelScan} {i : Item}

theorem redeclared_mem_notices {l line earlier : Nat} {n name : Bytes} :
    .redeclared line name earlier ∈ s.notices l n ↔
      line = l ∧ name = n ∧ s.declared[n]? = some earlier := by
  unfold notices
  cases s.declared[n]? <;> cases isPredefined n <;> simp [eq_comm]

theorem shadows_mem_notices {l line : Nat} {n name : Bytes} :
    .shadows line name ∈ s.notices l n ↔ line = l ∧ name = n ∧ isPredefined n = true := by
  unfold notices
  cases s.declared[n]? <;> cases isPredefined n <;> simp

theorem nodup_warnings_notices (s : LabelScan) (l : Nat) (n : Bytes) :
    ((s.notices l n).filter Notice.isWarning).Nodup := by
  unfold notices
  cases s.declared[n]? <;> cases isPredefined n <;> simp [Notice.isWarning, Notice.severity]

theorem countP_isRedeclaration_notices (s : LabelScan) (l : Nat) (n : Bytes) :
    (s.notices l n).countP Notice.isRedeclaration = if s.declared[n]?.isSome then 1 else 0 := by
  unfold notices
  cases s.declared[n]? <;> cases isPredefined n <;> rfl

/-- What the first pass has said after some statements. -/
structure Warned (items : List Item) (s : LabelScan) : Prop where
  declared : ∀ name line,
    s.declared[name]? = some line ↔ IsGreatest {k | Declares items name k} line
  redeclared : ∀ line name earlier, .redeclared line name earlier ∈ s.log.toList ↔
    Declares items name line ∧ IsGreatest {k | k < line ∧ Declares items name k} earlier
  shadows : ∀ line name, .shadows line name ∈ s.log.toList ↔
    Declares items name line ∧ isPredefined name = true
  nodup : (s.log.toList.filter Notice.isWarning).Nodup
  count : s.log.toList.countP Notice.isRedeclaration + (Program.labels items).eraseDups.length =
    (Program.labels items).length

namespace Warned

theorem start (symbols : SymbolTable) : Warned [] (LabelScan.start symbols) := by
  have hnone : ∀ name line, ¬Declares [] name line := by
    rintro name line ⟨i, hi, -⟩
    cases hi
  constructor
  · intro name line
    have hempty : (LabelScan.start symbols).declared[name]? = none :=
      Std.ExtTreeMap.getElem?_empty
    rw [hempty]
    exact ⟨nofun, fun hline => absurd hline.1 (hnone name line)⟩
  · intro line name earlier
    exact ⟨nofun, fun h => absurd h.1 (hnone name line)⟩
  · intro line name
    exact ⟨nofun, fun h => absurd h.1 (hnone name line)⟩
  · exact List.nodup_nil
  · rfl

theorem instruction (h : Warned items s) (hi : i.label? = none) :
    Warned (items ++ [i]) { s with instructions := s.instructions + 1 } := by
  have hdeclares : Declares (items ++ [i]) = Declares items := by
    funext name line
    rw [declares_concat, hi]
    simp
  have hlabels : Program.labels (items ++ [i]) = Program.labels items := by
    rw [Program.labels, List.filterMap_append, List.filterMap_cons_none hi]
    exact List.append_nil _
  constructor
  · rw [hdeclares]
    exact h.declared
  · rw [hdeclares]
    exact h.redeclared
  · rw [hdeclares]
    exact h.shadows
  · exact h.nodup
  · rw [hlabels]
    exact h.count

variable {name : Bytes}

theorem isSome_declared (h : Warned items s)
    (hlast : ∀ j ∈ items, j.line.number < i.line.number) (name : Bytes) :
    s.declared[name]?.isSome = true ↔ name ∈ Program.labels items := by
  rw [Option.isSome_iff_exists]
  constructor
  · rintro ⟨line, hline⟩
    exact Declares.mem_labels ((h.declared name line).mp hline).1
  · intro hmem
    obtain ⟨line, hline⟩ := exists_isGreatest (exists_declares hmem) fun k hk => hk.lt_last hlast
    exact ⟨line, (h.declared name line).mpr hline⟩

theorem declared_declare (h : Warned items s) (hi : i.label? = some name)
    (hlast : ∀ j ∈ items, j.line.number < i.line.number) (other : Bytes) (line : Nat) :
    (s.declare i.line.number name).declared[other]? = some line ↔
      IsGreatest {k | Declares (items ++ [i]) other k} line := by
  rw [LabelScan.declare, Std.ExtTreeMap.getElem?_insert]
  simp only [Std.LawfulEqCmp.compare_eq_iff_eq]
  by_cases hname : name = other
  · subst hname
    have hgreatest : IsGreatest {k | Declares (items ++ [i]) name k} i.line.number := by
      refine ⟨declares_concat.mpr (Or.inr ⟨hi, rfl⟩), ?_⟩
      intro k hk
      rcases declares_concat.mp hk with hold | ⟨-, rfl⟩
      · exact (hold.lt_last hlast).le
      · exact Nat.le_refl _
    rw [if_pos rfl, Option.some.injEq]
    constructor
    · rintro rfl
      exact hgreatest
    · exact hgreatest.unique
  · have hsame : Declares (items ++ [i]) other = Declares items other := by
      funext k
      rw [declares_concat, hi]
      simp [hname]
    rw [if_neg hname, hsame]
    exact h.declared other line

theorem redeclared_declare (h : Warned items s) (hi : i.label? = some name)
    (hlast : ∀ j ∈ items, j.line.number < i.line.number) (line : Nat) (other : Bytes)
    (earlier : Nat) :
    .redeclared line other earlier ∈ (s.declare i.line.number name).log.toList ↔
      Declares (items ++ [i]) other line ∧
        IsGreatest {k | k < line ∧ Declares (items ++ [i]) other k} earlier := by
  rw [log_declare, List.mem_append, redeclared_mem_notices, h.redeclared, declares_concat, hi,
    Option.some.injEq]
  constructor
  · rintro (⟨hold, hgreatest⟩ | ⟨rfl, rfl, hknown⟩)
    · exact ⟨Or.inl hold, by rwa [earlier_concat (hold.lt_last hlast).le]⟩
    · refine ⟨Or.inr ⟨rfl, rfl⟩, ?_⟩
      rwa [earlier_concat (Nat.le_refl _), earlier_eq_all hlast, ← h.declared]
  · rintro ⟨hold | ⟨rfl, rfl⟩, hgreatest⟩
    · rw [earlier_concat (hold.lt_last hlast).le] at hgreatest
      exact Or.inl ⟨hold, hgreatest⟩
    · rw [earlier_concat (Nat.le_refl _), earlier_eq_all hlast, ← h.declared] at hgreatest
      exact Or.inr ⟨rfl, rfl, hgreatest⟩

theorem shadows_declare (h : Warned items s) (hi : i.label? = some name) (line : Nat)
    (other : Bytes) :
    .shadows line other ∈ (s.declare i.line.number name).log.toList ↔
      Declares (items ++ [i]) other line ∧ isPredefined other = true := by
  rw [log_declare, List.mem_append, shadows_mem_notices, h.shadows, declares_concat, hi,
    Option.some.injEq]
  constructor
  · rintro (⟨hold, hpredefined⟩ | ⟨rfl, rfl, hpredefined⟩)
    · exact ⟨Or.inl hold, hpredefined⟩
    · exact ⟨Or.inr ⟨rfl, rfl⟩, hpredefined⟩
  · rintro ⟨hold | ⟨rfl, rfl⟩, hpredefined⟩
    · exact Or.inl ⟨hold, hpredefined⟩
    · exact Or.inr ⟨rfl, rfl, hpredefined⟩

/-- The warnings of a declaration tell its line, which no earlier warning does. -/
theorem nodup_declare (h : Warned items s)
    (hlast : ∀ j ∈ items, j.line.number < i.line.number) :
    ((s.declare i.line.number name).log.toList.filter Notice.isWarning).Nodup := by
  rw [log_declare, List.filter_append, List.nodup_append]
  refine ⟨h.nodup, nodup_warnings_notices _ _ _, ?_⟩
  rintro n hold _ hnew rfl
  obtain ⟨hold, hwarning⟩ := List.mem_filter.mp hold
  obtain ⟨hnew, -⟩ := List.mem_filter.mp hnew
  cases n with
  | redeclared line other earlier =>
      have hlt := ((h.redeclared line other earlier).mp hold).1.lt_last hlast
      have heq := (redeclared_mem_notices.mp hnew).1
      omega
  | shadows line other =>
      have hlt := ((h.shadows line other).mp hold).1.lt_last hlast
      have heq := (shadows_mem_notices.mp hnew).1
      omega
  | labelBound _ _ => cases hwarning
  | variableBound _ _ => cases hwarning

theorem count_declare (h : Warned items s) (hi : i.label? = some name)
    (hlast : ∀ j ∈ items, j.line.number < i.line.number) :
    (s.declare i.line.number name).log.toList.countP Notice.isRedeclaration +
        (Program.labels (items ++ [i])).eraseDups.length =
      (Program.labels (items ++ [i])).length := by
  have hlabels : Program.labels (items ++ [i]) = Program.labels items ++ [name] := by
    rw [Program.labels, List.filterMap_append, List.filterMap_cons_some hi]
    rfl
  have hcount := h.count
  rw [log_declare, List.countP_append, countP_isRedeclaration_notices, hlabels, eraseDups_concat,
    List.length_append, List.length_singleton]
  by_cases hmem : name ∈ Program.labels items
  · rw [if_pos ((h.isSome_declared hlast name).mpr hmem), if_pos hmem]
    omega
  · rw [if_neg (mt (h.isSome_declared hlast name).mp hmem), if_neg hmem, List.length_append,
      List.length_singleton]
    omega

/-- One statement of the first pass, which stands behind all earlier ones. -/
theorem step (h : Warned items s) (hlast : ∀ j ∈ items, j.line.number < i.line.number) :
    Warned (items ++ [i]) (s.step i) := by
  rw [LabelScan.step]
  cases hstatement : i.statement with
  | load target => exact h.instruction (by rw [Item.label?, hstatement])
  | compute fields => exact h.instruction (by rw [Item.label?, hstatement])
  | label name =>
      have hi := Item.label?_eq_some_iff.mpr hstatement
      exact ⟨h.declared_declare hi hlast, h.redeclared_declare hi hlast, h.shadows_declare hi,
        h.nodup_declare hlast, h.count_declare hi hlast⟩

end Warned

theorem warned_run (symbols : SymbolTable) {items : List Item}
    (hsorted : items.Pairwise fun i j => i.line.number < j.line.number) :
    Warned items ((start symbols).run items) := by
  induction items using List.reverseRecOn with
  | nil => exact Warned.start symbols
  | append_singleton items i ih =>
      rw [List.pairwise_append] at hsorted
      obtain ⟨hitems, -, hlast⟩ := hsorted
      rw [run_snoc]
      exact (ih hitems).step fun j hj => hlast j hj i (by simp)

end LabelScan

/-! ### The notices of a run -/

theorem pairwise_items (lines : List Bytes) :
    (Program.items (substantive lines)).Pairwise fun i j => i.line.number < j.line.number :=
  (pairwise_program lines).sublist ((List.takeWhile_sublist _).filterMap _)

section Placements

variable (placed : List Binding)

theorem filterMap_binding?_variableBound :
    (placed.map fun b => Notice.variableBound b.name b.address).filterMap Notice.binding? =
      placed := by
  rw [List.filterMap_map]
  exact List.filterMap_some

theorem filterMap_placed?_variableBound :
    (placed.map fun b => Notice.variableBound b.name b.address).filterMap Notice.placed? =
      placed.map Binding.name := by
  rw [List.filterMap_map]
  exact congrFun List.filterMap_eq_map placed

theorem filter_isWarning_variableBound :
    (placed.map fun b => Notice.variableBound b.name b.address).filter Notice.isWarning = [] := by
  simp [Notice.isWarning, Notice.severity]

end Placements

namespace Assembler

/-- The notices of a run are those of the first pass and one for each variable placed. -/
theorem log_eq (asm : Assembler) (lines : List Bytes) :
    let labels := (LabelScan.start SymbolTable.predefined).run (Program.items (substantive lines))
    ∃ placed : List Binding,
      (asm.assemble lines).log =
        labels.log.toList ++ placed.map (fun b => .variableBound b.name b.address) ∧
      (asm.assemble lines).assembler.symbols = labels.symbols.bindAll placed ∧
      (placed.map Binding.name).Nodup := by
  intro labels
  rw [assemble_eq]
  cases hfault : Program.fault? (substantive lines) with
  | some failure =>
      simp only [hfault]
      exact ⟨[], (List.append_nil _).symm, rfl, List.nodup_nil⟩
  | none =>
      obtain ⟨placed, htraced⟩ :=
        (Emission.Traced.start labels.symbols firstVariable).run (Program.items (substantive lines))
      simp only [hfault]
      exact ⟨placed, congrArg (labels.log.toList ++ ·) htraced.log, htraced.symbols, htraced.nodup⟩

theorem replay_log (asm : Assembler) (lines : List Bytes) :
    replay (asm.assemble lines).log = (asm.assemble lines).assembler.symbols ∧
      ((asm.assemble lines).log.filterMap Notice.placed?).Nodup := by
  obtain ⟨placed, hlog, hsymbols, hnodup⟩ := log_eq asm lines
  have htraced := LabelScan.traced_run (Program.items (substantive lines))
  rw [hlog, hsymbols, replay, List.filterMap_append, List.filterMap_append,
    filterMap_binding?_variableBound, filterMap_placed?_variableBound, htraced.noVariable,
    SymbolTable.bindAll_append, ← replay, htraced.replay_eq]
  exact ⟨rfl, hnodup⟩

/-- The warnings of a run are those of the first pass. -/
theorem filter_isWarning_log (asm : Assembler) (lines : List Bytes) :
    (asm.assemble lines).log.filter Notice.isWarning =
      ((LabelScan.start SymbolTable.predefined).run
        (Program.items (substantive lines))).log.toList.filter Notice.isWarning := by
  obtain ⟨placed, hlog, -, -⟩ := log_eq asm lines
  rw [hlog, List.filter_append, filter_isWarning_variableBound, List.append_nil]

section Told

variable (asm : Assembler) (lines : List Bytes) (verbosity : Int)

/-- The notices that are shown can be read off the messages. -/
theorem told_eq : ((asm.assemble lines).logged verbosity).filterMap LogLine.notice? =
    (asm.assemble lines).log.filter (Notice.shown verbosity) :=
  Notice.filterMap_notice?_map_line _

/-- The warnings that are read off the messages are those of the first pass, at every verbosity. -/
theorem filter_isWarning_told :
    (((asm.assemble lines).logged verbosity).filterMap LogLine.notice?).filter Notice.isWarning =
      ((LabelScan.start SymbolTable.predefined).run
        (Program.items (substantive lines))).log.toList.filter Notice.isWarning := by
  rw [told_eq, Notice.filter_isWarning_shown, filter_isWarning_log]

theorem redeclared_told_iff (line : Nat) (name : Bytes) (earlier : Nat) :
    .redeclared line name earlier ∈
        ((asm.assemble lines).logged verbosity).filterMap LogLine.notice? ↔
      Declares (Program.items (substantive lines)) name line ∧
        IsGreatest {k | k < line ∧ Declares (Program.items (substantive lines)) name k}
          earlier := by
  rw [Notice.mem_iff_of_isWarning (filter_isWarning_told asm lines verbosity) rfl]
  exact (LabelScan.warned_run SymbolTable.predefined (pairwise_items lines)).redeclared ..

theorem shadows_told_iff (line : Nat) (name : Bytes) :
    .shadows line name ∈ ((asm.assemble lines).logged verbosity).filterMap LogLine.notice? ↔
      Declares (Program.items (substantive lines)) name line ∧ isPredefined name = true := by
  rw [Notice.mem_iff_of_isWarning (filter_isWarning_told asm lines verbosity) rfl]
  exact (LabelScan.warned_run SymbolTable.predefined (pairwise_items lines)).shadows ..

end Told

/-- What the log of a run tells, whether the run is assembled or refused, by the texts of its
messages. Every line is a message that can be read, and is written whole if there is room for it.
From verbosity two on, as a number of 32 bits, the messages tell how the table came about, with each
variable once. At every verbosity there is a warning for a declaration that the first pass has met
exactly if the name was declared on an earlier line, which tells the last such line, and another one
exactly if the name is predefined; no warning comes twice, and there are none besides. -/
theorem notices_tell_bindings (asm : Assembler) (lines : List Bytes) (verbosity : Int) :
    let outcome := asm.assemble lines
    let handled := Program.items (substantive lines)
    let logged := outcome.logged verbosity
    let told := logged.filterMap LogLine.notice?
    (∀ l ∈ logged, l.notice?.isSome = true ∧ (l.message.length ≤ l.room → l.text = l.message)) ∧
      (2 ≤ verbosity.bmod 4294967296 →
        replay told = outcome.assembler.symbols ∧ (told.filterMap Notice.placed?).Nodup) ∧
      (∀ name line, Declares handled name line →
        ((∃ earlier, .redeclared line name earlier ∈ told) ↔
          ∃ k, k < line ∧ Declares handled name k) ∧
        (∀ earlier, .redeclared line name earlier ∈ told →
          IsGreatest {k | k < line ∧ Declares handled name k} earlier) ∧
        (.shadows line name ∈ told ↔ isPredefined name = true)) ∧
      (∀ n ∈ told, n.isWarning = true → ∃ name line, Declares handled name line ∧
        (n = .shadows line name ∨ ∃ earlier, n = .redeclared line name earlier)) ∧
      (told.filter Notice.isWarning).Nodup ∧
      told.countP Notice.isRedeclaration + (Program.labels handled).eraseDups.length =
        (Program.labels handled).length := by
  intro outcome handled logged told
  have hwarned := LabelScan.warned_run SymbolTable.predefined (pairwise_items lines)
  have hsame := filter_isWarning_told asm lines verbosity
  have hredeclared := redeclared_told_iff asm lines verbosity
  have hshadows := shadows_told_iff asm lines verbosity
  refine ⟨?_, ?_, ?_, ?_, ?_, ?_⟩
  · intro l hl
    obtain ⟨n, -, rfl⟩ := List.mem_map.mp hl
    exact ⟨by rw [Notice.notice?_line, Option.isSome_some], Notice.text_line⟩
  · intro htraced
    rw [show told = _ from told_eq asm lines verbosity, Notice.filter_shown htraced]
    exact replay_log asm lines
  · intro name line hdeclares
    refine ⟨⟨?_, ?_⟩, ?_, ?_⟩
    · rintro ⟨earlier, hmem⟩
      exact ⟨earlier, ((hredeclared line name earlier).mp hmem).2.1⟩
    · intro hexists
      obtain ⟨earlier, hgreatest⟩ := exists_isGreatest hexists fun k hk => hk.1
      exact ⟨earlier, (hredeclared line name earlier).mpr ⟨hdeclares, hgreatest⟩⟩
    · intro earlier hmem
      exact ((hredeclared line name earlier).mp hmem).2
    · exact (hshadows line name).trans (and_iff_right hdeclares)
  · intro n hmem hwarning
    cases n with
    | redeclared line name earlier =>
        exact ⟨name, line, ((hredeclared line name earlier).mp hmem).1, Or.inr ⟨earlier, rfl⟩⟩
    | shadows line name =>
        exact ⟨name, line, ((hshadows line name).mp hmem).1, Or.inl rfl⟩
    | labelBound _ _ => cases hwarning
    | variableBound _ _ => cases hwarning
  · rw [show told.filter _ = _ from hsame]
    exact hwarned.nodup
  · rw [Notice.countP_isRedeclaration_eq hsame]
    exact hwarned.count

/-- A run that is refused after a label was declared three times and a device once; the variable
behind the refused line is not placed. The log is traced at verbosity two, and tells the warnings
alone at zero. -/
theorem notices_of_refused_run :
    let lines := [ascii "(A)", ascii "@x -> 7", ascii "(KBD)", ascii "@A", ascii "(A) // again",
      ascii "@x -> 7", ascii "@y", ascii "D=Q", ascii "@z", ascii "(A)"]
    let outcome := new.assemble lines
    (outcome.logged 2).map LogLine.message = [ascii "label A -> 0",
        ascii "line 3: label KBD shadows the predefined symbol", ascii "label KBD -> 1",
        ascii "line 5: label A already declared at line 1, last declaration wins",
        ascii "label A -> 2",
        ascii "line 10: label A already declared at line 5, last declaration wins",
        ascii "label A -> 6", ascii "variable x -> 7 -> 16", ascii "variable y -> 17"] ∧
      replay ((outcome.logged 2).filterMap LogLine.notice?) = outcome.assembler.symbols ∧
      .redeclared 10 (ascii "A") 5 ∈ (outcome.logged 0).filterMap LogLine.notice? ∧
      IsGreatest {k | k < 10 ∧ Declares (Program.items (substantive lines)) (ascii "A") k} 5 := by
  intro lines outcome
  have hdeclares : Declares (Program.items (substantive lines)) (ascii "A") 10 :=
    ⟨⟨⟨10, ascii "(A)"⟩, .label (ascii "A")⟩, by decide +kernel, rfl, rfl⟩
  have htold : .redeclared 10 (ascii "A") 5 ∈ (outcome.logged 0).filterMap LogLine.notice? := by
    decide +kernel
  refine ⟨by decide +kernel, ((notices_tell_bindings new lines 2).2.1 (by decide)).1, htold, ?_⟩
  exact ((notices_tell_bindings new lines 0).2.2.1 _ _ hdeclares).2.1 5 htold

end Assembler

end HackAssembly
