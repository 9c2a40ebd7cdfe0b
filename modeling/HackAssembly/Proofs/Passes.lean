import HackAssembly.Assembler
import Mathlib.Data.List.Basic

/-!
# What the passes see

A cursor has some substantive lines ahead of it, and a pass takes them in one after another: the
cursor never runs off the program, and it skips nothing but blanks and comments. Sent back to the
beginning, it sees all of them again. An outcome of the assembler is therefore a matter of the list
of substantive lines alone (`assemble_eq`), and the second pass meets well-formed lines only.
-/

namespace HackAssembly

/-- The substantive lines among lines of which the first has the given number. -/
def substantiveFrom (number : Nat) (lines : List Bytes) : List SourceLine :=
  (lines.zipIdx number).filterMap fun (line, number) => SourceLine.ofLine? number line

theorem substantive_eq_substantiveFrom (lines : List Bytes) :
    substantive lines = substantiveFrom 1 lines := by
  rw [substantive, substantiveFrom, ← List.filterMap_eq_filter, List.filterMap_map]
  apply List.filterMap_congr
  rintro ⟨line, number⟩ -
  cases h : (instructionText line).isEmpty <;> simp [SourceLine.ofLine?, Option.guard, h]

theorem substantiveFrom_cons (number : Nat) (line : Bytes) (lines : List Bytes) :
    substantiveFrom number (line :: lines) =
      match SourceLine.ofLine? number line with
      | some found => found :: substantiveFrom (number + 1) lines
      | none => substantiveFrom (number + 1) lines := by
  rw [substantiveFrom, List.zipIdx_cons, List.filterMap_cons]
  dsimp only
  cases SourceLine.ofLine? number line <;> rfl

theorem eq_of_ofLine? {number : Nat} {line : Bytes} {found : SourceLine}
    (h : SourceLine.ofLine? number line = some found) : found = ⟨number, instructionText line⟩ := by
  rw [SourceLine.ofLine?] at h
  split at h
  · cases h
  · cases h
    rfl

/-- A substantive line has its number among all lines and the text that the line there holds. -/
theorem exists_of_mem_substantive {lines : List Bytes} {l : SourceLine}
    (h : l ∈ substantive lines) :
    1 ≤ l.number ∧ l.number ≤ lines.length ∧
      (lines[l.number - 1]?).map instructionText = some l.text := by
  obtain ⟨⟨line, number⟩, hmem, rfl⟩ := List.mem_map.mp (List.mem_filter.mp h).1
  obtain ⟨hpos, hget⟩ := List.mk_mem_zipIdx_iff_le_and_getElem?_sub.mp hmem
  obtain ⟨hlt, -⟩ := List.getElem?_eq_some_iff.mp hget
  dsimp only
  rw [hget]
  exact ⟨hpos, by omega, rfl⟩

/-- The substantive lines come in the order of their numbers. -/
theorem pairwise_substantive (lines : List Bytes) :
    (substantive lines).Pairwise fun l m => l.number < m.number := by
  have hnumbers : (lines.zipIdx 1).Pairwise fun a b => a.2 < b.2 := by
    have hrange := List.pairwise_lt_range' (s := 1) (n := lines.length)
    rwa [← List.zipIdx_map_snd 1, List.pairwise_map] at hrange
  apply List.Pairwise.filter
  rw [List.pairwise_map]
  exact hnumbers

namespace Cursor

/-- Looking for the next instruction finds the first substantive line and leaves the others. -/
theorem substantiveFrom_eq_seek (number : Nat) (ahead : List Bytes) :
    substantiveFrom number ahead =
      match seek number ahead with
      | some (found, rest) => found :: substantiveFrom (found.number + 1) rest
      | none => [] := by
  induction ahead generalizing number with
  | nil => rfl
  | cons line ahead ih =>
      rw [substantiveFrom_cons, seek]
      cases hline : SourceLine.ofLine? number line with
      | some found => rw [eq_of_ofLine? hline]
      | none => exact ih (number + 1)

/-- The substantive lines that are still ahead. -/
def pending (c : Cursor) : List SourceLine := substantiveFrom (c.passed + 1) c.ahead

theorem pending_ofLines (lines : List Bytes) : (ofLines lines).pending = substantive lines :=
  (substantive_eq_substantiveFrom lines).symm

theorem hasMore_eq_false_of_pending {c : Cursor} (h : c.pending = []) : c.hasMore = false := by
  rw [pending, substantiveFrom_eq_seek] at h
  unfold hasMore
  cases hseek : seek (c.passed + 1) c.ahead with
  | some found => simp [hseek] at h
  | none => rfl

/-- With a line pending the cursor moves on to it, and only the lines after it stay pending. -/
theorem advance_of_pending {c : Cursor} {l : SourceLine} {rest : List SourceLine}
    (h : c.pending = l :: rest) :
    c.hasMore = true ∧ ∃ next, c.advance = (.ok (), next) ∧ next.place = .on l ∧
      next.pending = rest ∧ next.lines = c.lines := by
  rw [pending, substantiveFrom_eq_seek] at h
  cases hseek : seek (c.passed + 1) c.ahead with
  | none => simp [hseek] at h
  | some pair =>
      obtain ⟨found, after⟩ := pair
      simp only [hseek, List.cons.injEq] at h
      obtain ⟨rfl, hrest⟩ := h
      refine ⟨by rw [hasMore, hseek]; rfl, ?_⟩
      exact ⟨{ c with ahead := after, passed := found.number, place := .on found },
        by rw [advance, hseek], rfl, hrest, rfl⟩

theorem item_of_place {c : Cursor} {l : SourceLine} (h : c.place = .on l) :
    c.item = match Statement.parse l.text with
      | .ok statement => .ok ⟨l, statement⟩
      | .error how => .error (l.failure (.malformed how)) := by
  rw [item, statement, lineNumber, text, h]
  dsimp only
  cases Statement.parse l.text <;> rfl

end Cursor

/-! ### Programs as lists -/

namespace SourceLine

def item? (l : SourceLine) : Option Item :=
  match Statement.parse l.text with
  | .ok statement => some ⟨l, statement⟩
  | .error _ => none

def fault? (l : SourceLine) : Option Failure :=
  match Statement.parse l.text with
  | .ok _ => none
  | .error how => some (l.failure (.malformed how))

theorem item?_eq_some_iff {l : SourceLine} {i : Item} :
    l.item? = some i ↔ i.line = l ∧ Statement.parse l.text = .ok i.statement := by
  obtain ⟨line, statement⟩ := i
  unfold item?
  cases Statement.parse l.text with
  | ok found => simp [eq_comm]
  | error how => simp

end SourceLine

namespace Program

/-- The statements before the first malformed line. -/
def items (source : List SourceLine) : List Item :=
  (source.takeWhile fun l => l.fault?.isNone).filterMap SourceLine.item?

/-- The fault of the first malformed line. -/
def fault? (source : List SourceLine) : Option Failure := source.findSome? SourceLine.fault?

/-- Takes lines into a state with `step`, up to the first failure. -/
def takeIn {σ : Type} (step : σ → Item → σ × Option Failure) (s : σ) :
    List SourceLine → σ × Option Failure
  | [] => (s, none)
  | l :: rest =>
    match Statement.parse l.text with
    | .error how => (s, some (l.failure (.malformed how)))
    | .ok statement =>
      match step s ⟨l, statement⟩ with
      | (s, some failure) => (s, some failure)
      | (s, none) => takeIn step s rest

end Program

def LabelScan.run (s : LabelScan) (items : List Item) : LabelScan := items.foldl step s

/-- Takes in statements until one fails. -/
def Emission.run (e : Emission) : List Item → Emission × Option Failure
  | [] => (e, none)
  | i :: rest =>
    match e.step i with
    | (e, none) => e.run rest
    | (e, some failure) => (e, some failure)

/-! ### Passes over a cursor are passes over a list -/

namespace Cursor

/-- A pass takes in exactly the pending lines, whatever the state is, and keeps the program. -/
theorem pass_eq_takeIn {σ : Type} (step : σ → Item → σ × Option Failure) (c : Cursor) (s : σ) :
    (c.pass step s).state = (Program.takeIn step s c.pending).1 ∧
      (c.pass step s).failure? = (Program.takeIn step s c.pending).2 ∧
      (c.pass step s).cursor.lines = c.lines := by
  induction hpending : c.pending generalizing c s with
  | nil =>
      rw [pass, hasMore_eq_false_of_pending hpending]
      exact ⟨rfl, rfl, rfl⟩
  | cons l rest ih =>
      obtain ⟨hmore, next, hadvance, hplace, hrest, hlines⟩ := advance_of_pending hpending
      rw [pass, if_pos hmore]
      split
      · rename_i hfail
        rw [hadvance] at hfail
        cases hfail
      · rename_i hok
        rw [hadvance] at hok
        cases hok
        rw [item_of_place hplace, Program.takeIn]
        cases Statement.parse l.text with
        | error how => exact ⟨rfl, rfl, hlines⟩
        | ok statement =>
            dsimp only
            rcases step s ⟨l, statement⟩ with ⟨s', _ | failure⟩
            · obtain ⟨hstate, hfailure, hkept⟩ := ih next s' hrest
              exact ⟨hstate, hfailure, hkept.trans hlines⟩
            · exact ⟨rfl, rfl, hlines⟩

end Cursor

namespace Program

theorem items_cons_of_error {l : SourceLine} {how : Malformation}
    (h : Statement.parse l.text = .error how) (rest : List SourceLine) :
    items (l :: rest) = [] ∧ fault? (l :: rest) = some (l.failure (.malformed how)) := by
  have hfault : l.fault? = some (l.failure (.malformed how)) := by rw [SourceLine.fault?, h]
  constructor
  · rw [items, List.takeWhile_cons, hfault]
    rfl
  · rw [fault?, List.findSome?_cons, hfault]

theorem items_cons_of_ok {l : SourceLine} {statement : Statement}
    (h : Statement.parse l.text = .ok statement) (rest : List SourceLine) :
    items (l :: rest) = ⟨l, statement⟩ :: items rest ∧ fault? (l :: rest) = fault? rest := by
  have hfault : l.fault? = none := by rw [SourceLine.fault?, h]
  have hitem : l.item? = some ⟨l, statement⟩ := by rw [SourceLine.item?, h]
  constructor
  · rw [items, List.takeWhile_cons, hfault]
    exact List.filterMap_cons_some hitem
  · rw [fault?, List.findSome?_cons, hfault]
    rfl

/-- The first pass takes in the statements before the first malformed line and reports that line. -/
theorem takeIn_accept (s : LabelScan) (source : List SourceLine) :
    takeIn LabelScan.accept s source = (s.run (items source), fault? source) := by
  induction source generalizing s with
  | nil => rfl
  | cons l rest ih =>
      rw [takeIn]
      cases hparse : Statement.parse l.text with
      | error how =>
          obtain ⟨hitems, hfault⟩ := items_cons_of_error hparse rest
          rw [hitems, hfault]
          rfl
      | ok statement =>
          obtain ⟨hitems, hfault⟩ := items_cons_of_ok hparse rest
          rw [hitems, hfault]
          exact ih (s.step ⟨l, statement⟩)

/-- Without a malformed line the second pass takes in all statements. -/
theorem takeIn_step {source : List SourceLine} (h : fault? source = none) (e : Emission) :
    takeIn Emission.step e source = e.run (items source) := by
  induction source generalizing e with
  | nil => rfl
  | cons l rest ih =>
      rw [takeIn]
      cases hparse : Statement.parse l.text with
      | error how =>
          rw [(items_cons_of_error hparse rest).2] at h
          cases h
      | ok statement =>
          obtain ⟨hitems, hfault⟩ := items_cons_of_ok hparse rest
          rw [hfault] at h
          rw [hitems, Emission.run]
          dsimp only
          rcases e.step ⟨l, statement⟩ with ⟨e', _ | failure⟩
          · exact ih h e'
          · rfl

end Program

namespace Assembler

/-- What assembling gives, as a function of the substantive lines: the labels before the first
malformed line, and if there is none the words of all statements. -/
theorem assemble_eq (asm : Assembler) (lines : List Bytes) :
    asm.assemble lines =
      let source := substantive lines
      let labels := (LabelScan.start SymbolTable.predefined).run (Program.items source)
      match Program.fault? source with
      | some failure =>
        { assembler := ⟨labels.symbols, firstVariable⟩
          result := .error failure
          log := labels.log.toList }
      | none =>
        let (emission, failure?) :=
          (Emission.start labels.symbols firstVariable).run (Program.items source)
        { assembler := ⟨emission.symbols, emission.nextVariable⟩
          result := emission.result failure?
          log := labels.log.toList ++ emission.log.toList } := by
  obtain ⟨hlabels, hfault, hlines⟩ := Cursor.pass_eq_takeIn LabelScan.accept
    (Cursor.ofLines lines) (LabelScan.start SymbolTable.predefined)
  rw [Cursor.pending_ofLines, Program.takeIn_accept] at hlabels hfault
  simp only [assemble, reset, hlabels, hfault]
  cases hsource : Program.fault? (substantive lines) with
  | some failure => rfl
  | none =>
      -- the cursor of the second pass is the one of the first, sent back
      have hrewind : ((Cursor.ofLines lines).pass LabelScan.accept
          (LabelScan.start SymbolTable.predefined)).cursor.rewind = Cursor.ofLines lines := by
        rw [Cursor.rewind, hlines]
        rfl
      obtain ⟨hstate, hfailure, -⟩ := Cursor.pass_eq_takeIn Emission.step (Cursor.ofLines lines)
        (Emission.start ((LabelScan.start SymbolTable.predefined).run
          (Program.items (substantive lines))).symbols firstVariable)
      rw [Cursor.pending_ofLines, Program.takeIn_step hsource] at hstate hfailure
      simp only [hrewind, hstate, hfailure]

/-- Nothing of the programs that an assembler has seen before shows in what it does next. -/
theorem assemble_eq_new (asm : Assembler) (lines : List Bytes) :
    asm.assemble lines = new.assemble lines := by
  rw [assemble_eq, assemble_eq]

end Assembler

end HackAssembly
