import HackAssembly.Proofs.Naming

/-!
# The second pass

The second pass starts from the table of the first and only adds to it: a target that is no numeral
and has no address yet is placed at the next free one. What it knows after some statements is
`Emitted`; every statement keeps that, also one that ends the pass (`Emitted.step`), so a whole run
can be read off the statements (`Emitted.run`). Since no address changes once it is given, words can
be computed from the addresses that names have at the very end.
-/

namespace HackAssembly

/-- The word of a statement when names have the given addresses; a label has none. -/
def Statement.encodeUnder (address? : Bytes → Option Int) : Statement → Option (Except Cause Code)
  | .load target =>
    some (if isSignedDigits target then encodeNumeral target
      else match address? target with
        | some address => encodeAddress address
        | none => .error (.undefinedSymbol target))
  | .compute fields => some (encodeFields fields)
  | .label _ => none

/-- Only the address of a loaded name matters. -/
theorem Statement.encodeUnder_congr {address? other? : Bytes → Option Int} {statement : Statement}
    (h : ∀ target, statement = .load target → isSignedDigits target = false →
      address? target = other? target) :
    statement.encodeUnder address? = statement.encodeUnder other? := by
  cases statement with
  | label name => rfl
  | compute fields => rfl
  | load target =>
      cases hsymbol : isSignedDigits target with
      | true => simp only [encodeUnder, hsymbol, if_true]
      | false => simp only [encodeUnder, h target rfl hsymbol]

namespace Item

/-- The word that an item contributes when names have the given addresses. -/
def word? (address? : Bytes → Option Int) (i : Item) : Option Word :=
  match i.statement.encodeUnder address? with
  | some (.ok code) => some ⟨code.digits, i.line.number, i.line.text⟩
  | _ => none

/-- The failure of an item that cannot be encoded when names have the given addresses. -/
def refusal? (address? : Bytes → Option Int) (i : Item) : Option Failure :=
  match i.statement.encodeUnder address? with
  | some (.error cause) => some (i.line.failure cause)
  | _ => none

end Item

namespace Program

/-- Whether the second pass has to place a target that the table of the first pass says nothing
about. -/
def needsPlace (table : SymbolTable) (target : Bytes) : Bool :=
  !isSignedDigits target && !table.contains target

/-- The variables of some statements, in the order of their first occurrence. -/
def placed (table : SymbolTable) (items : List Item) : List Bytes :=
  ((targets items).filter (needsPlace table)).eraseDups

/-- The address that a name has after some statements. -/
def bound? (table : SymbolTable) (items : List Item) (name : Bytes) : Option Int :=
  match table.get? name with
  | some address => some address
  | none => ((placed table items).idxOf? name).map fun k => ((firstVariable + k : Nat) : Int)

/-- The statements up to and including the first one that is refused. -/
def reached (address? : Bytes → Option Int) : List Item → List Item
  | [] => []
  | i :: rest => if (i.refusal? address?).isSome then [i] else i :: reached address? rest

theorem reached_eq_self {address? : Bytes → Option Int} {items : List Item}
    (h : items.findSome? (Item.refusal? address?) = none) : reached address? items = items := by
  induction items with
  | nil => rfl
  | cons i rest ih =>
      rw [List.findSome?_cons] at h
      cases hi : i.refusal? address? with
      | some failure => simp [hi] at h
      | none =>
          rw [hi] at h
          rw [reached, hi, ih h]
          rfl

/-! ### Variables in the order of their first occurrence -/

theorem targets_append (left right : List Item) :
    targets (left ++ right) = targets left ++ targets right := List.filterMap_append

theorem mem_placed {table : SymbolTable} {items : List Item} {name : Bytes} :
    name ∈ placed table items ↔ name ∈ targets items ∧ needsPlace table name = true := by
  rw [placed, List.mem_eraseDups, List.mem_filter]

/-- Later statements append to the list of variables. -/
theorem placed_append (table : SymbolTable) (left right : List Item) :
    placed table (left ++ right) = placed table left ++
      (((targets right).filter (needsPlace table)).removeAll
        ((targets left).filter (needsPlace table))).eraseDups := by
  rw [placed, targets_append, List.filter_append, List.eraseDups_append, placed]

theorem placed_snoc_of_mem {table : SymbolTable} {items : List Item} {i : Item}
    (h : ∀ target, i.target? = some target → needsPlace table target = true →
      target ∈ placed table items) :
    placed table (items ++ [i]) = placed table items := by
  rw [placed_append]
  have hnone : ((targets [i]).filter (needsPlace table)).removeAll
      ((targets items).filter (needsPlace table)) = [] := by
    apply List.eq_nil_iff_forall_not_mem.mpr
    intro target hmem
    rw [List.removeAll, List.mem_filter, List.mem_filter] at hmem
    obtain ⟨⟨htarget, hneeds⟩, hnew⟩ := hmem
    have hi : i.target? = some target := by
      simpa [targets, List.mem_filterMap] using htarget
    have hold := mem_placed.mp (h target hi hneeds)
    simp [List.mem_filter, hold] at hnew
  rw [hnone, List.eraseDups_nil, List.append_nil]

theorem placed_snoc_of_not_mem {table : SymbolTable} {items : List Item} {i : Item}
    {target : Bytes} (hi : i.target? = some target) (hneeds : needsPlace table target = true)
    (hnew : target ∉ placed table items) :
    placed table (items ++ [i]) = placed table items ++ [target] := by
  rw [placed_append]
  have hone : ((targets [i]).filter (needsPlace table)).removeAll
      ((targets items).filter (needsPlace table)) = [target] := by
    rw [placed, List.mem_eraseDups] at hnew
    have htargets : (targets [i]).filter (needsPlace table) = [target] := by
      simp [targets, hi, hneeds]
    rw [htargets, List.removeAll, List.filter_cons_of_pos (by simp [hnew]), List.filter_nil]
  rw [hone, List.eraseDups_cons]
  rfl

/-- An address that a name has is kept by all later statements. -/
theorem bound?_append {table : SymbolTable} {left : List Item} {name : Bytes} {address : Int}
    (h : bound? table left name = some address) (right : List Item) :
    bound? table (left ++ right) name = some address := by
  rw [bound?] at h ⊢
  cases hget : table.get? name with
  | some known => rwa [hget] at h
  | none =>
      rw [hget] at h
      dsimp only at h ⊢
      obtain ⟨k, hk, rfl⟩ := Option.map_eq_some_iff.mp h
      rw [placed_append, idxOf?_append, hk]
      rfl

theorem isSome_bound? (table : SymbolTable) (items : List Item) (name : Bytes) :
    (bound? table items name).isSome =
      (table.contains name || decide (name ∈ placed table items)) := by
  rw [bound?, SymbolTable.contains_eq_isSome_get?]
  cases table.get? name with
  | some address => rfl
  | none =>
      by_cases h : name ∈ placed table items
      · have hindex := List.isSome_idxOf?.mpr h
        simp [h, hindex]
      · have hindex := List.idxOf?_eq_none_iff.mpr h
        simp [h, hindex]

/-- A target has an address as soon as it has been met, and keeps it. -/
theorem exists_bound? (table : SymbolTable) (left : List Item) {i : Item} {target : Bytes}
    (hi : i.target? = some target) (hsymbol : isSignedDigits target = false) :
    ∃ address, ∀ right, bound? table (left ++ i :: right) target = some address := by
  have hsome : (bound? table (left ++ [i]) target).isSome = true := by
    rw [isSome_bound?]
    cases hcontains : table.contains target with
    | true => rfl
    | false =>
        have hneeds : needsPlace table target = true := by
          rw [needsPlace, hsymbol, hcontains]
          rfl
        have hmem : target ∈ targets (left ++ [i]) := by
          rw [targets_append, List.mem_append]
          exact Or.inr (List.mem_filterMap.mpr ⟨i, by simp, hi⟩)
        simp [mem_placed.mpr ⟨hmem, hneeds⟩]
  obtain ⟨address, haddress⟩ := Option.isSome_iff_exists.mp hsome
  refine ⟨address, ?_⟩
  intro right
  rw [List.append_cons]
  exact bound?_append haddress right

/-- How a statement is encoded does not depend on the statements after it. -/
theorem encodeUnder_append (table : SymbolTable) (left : List Item) (i : Item) (right : List Item) :
    i.statement.encodeUnder (bound? table (left ++ [i])) =
      i.statement.encodeUnder (bound? table (left ++ i :: right)) := by
  apply Statement.encodeUnder_congr
  intro target hload hsymbol
  have htarget : i.target? = some target := by rw [Item.target?, hload]
  obtain ⟨address, haddress⟩ := exists_bound? table left htarget hsymbol
  rw [haddress, haddress]

end Program

/-! ### What the pass knows -/

/-- The table and the next free address after the statements `done`. -/
structure Placed (table : SymbolTable) (done : List Item) (e : Emission) : Prop where
  symbols : ∀ name, e.symbols.get? name = Program.bound? table done name
  nextVariable : e.nextVariable = firstVariable + (Program.placed table done).length

namespace Placed

variable {table : SymbolTable} {done : List Item} {e : Emission}

theorem contains_eq (h : Placed table done e) (name : Bytes) :
    e.symbols.contains name =
      (table.contains name || decide (name ∈ Program.placed table done)) := by
  rw [SymbolTable.contains_eq_isSome_get?, h.symbols, Program.isSome_bound?]

/-- A statement that brings no new variable leaves table and counter as they are. -/
theorem snoc_of_mem (h : Placed table done e) {i : Item}
    (hi : ∀ target, i.target? = some target → Program.needsPlace table target = true →
      target ∈ Program.placed table done) : Placed table (done ++ [i]) e := by
  have hplaced := Program.placed_snoc_of_mem hi
  constructor
  · intro name
    rw [h.symbols, Program.bound?, Program.bound?, hplaced]
  · rw [h.nextVariable, hplaced]

/-- Allocation keeps pace with the list of variables. -/
theorem allocate (h : Placed table done e) {i : Item} {target : Bytes}
    (hi : i.target? = some target) (hsymbol : isSignedDigits target = false) :
    Placed table (done ++ [i]) (e.allocate target) := by
  unfold Emission.allocate
  cases hcontains : e.symbols.contains target with
  | true =>
      rw [if_pos rfl]
      apply h.snoc_of_mem
      intro other hother hneeds
      obtain rfl : target = other := Option.some.inj (hi.symm.trans hother)
      rw [h.contains_eq] at hcontains
      rw [Program.needsPlace] at hneeds
      simp_all
  | false =>
      rw [if_neg Bool.false_ne_true]
      rw [h.contains_eq, Bool.or_eq_false_iff, decide_eq_false_iff_not] at hcontains
      obtain ⟨habsent, hnew⟩ := hcontains
      have hneeds : Program.needsPlace table target = true := by
        rw [Program.needsPlace, hsymbol, habsent]
        rfl
      have hplaced := Program.placed_snoc_of_not_mem hi hneeds hnew
      constructor
      · intro name
        dsimp only
        rw [SymbolTable.get?_insert, h.symbols, h.nextVariable, Program.bound?, Program.bound?,
          hplaced, idxOf?_append]
        by_cases hname : target = name
        · subst hname
          have hget : table.get? target = none := by
            rw [SymbolTable.contains_eq_isSome_get?] at habsent
            simpa using habsent
          rw [if_pos rfl, hget, List.idxOf?_eq_none_iff.mpr hnew]
          simp
        · simp [hname]
      · dsimp only
        rw [h.nextVariable, hplaced, List.length_append]
        rfl

/-- A statement is encoded with the addresses that names have right after it. -/
theorem encode (h : Placed table done e) (i : Item) :
    Placed table (done ++ [i]) (e.encode i.statement).1 ∧
      (e.encode i.statement).1.words = e.words ∧
      (e.encode i.statement).2 =
        i.statement.encodeUnder (Program.bound? table (done ++ [i])) := by
  obtain ⟨line, statement⟩ := i
  cases statement with
  | label name => exact ⟨h.snoc_of_mem (by intro _ hi; cases hi), rfl, rfl⟩
  | compute fields => exact ⟨h.snoc_of_mem (by intro _ hi; cases hi), rfl, rfl⟩
  | load target =>
      rw [Emission.encode, Emission.load, Statement.encodeUnder]
      cases hsymbol : isSignedDigits target with
      | true =>
          refine ⟨h.snoc_of_mem ?_, rfl, rfl⟩
          intro other hother hneeds
          obtain rfl : target = other := Option.some.inj hother
          rw [Program.needsPlace, hsymbol] at hneeds
          cases hneeds
      | false =>
          have hnext := h.allocate (i := ⟨line, .load target⟩) rfl hsymbol
          refine ⟨hnext, ?_, ?_⟩
          · show (e.allocate target).words = e.words
            unfold Emission.allocate
            split <;> rfl
          · show some (((e.allocate target).symbols.address target).bind encodeAddress) = _
            rw [SymbolTable.address, hnext.symbols]
            cases Program.bound? table (done ++ [⟨line, .load target⟩]) target <;> rfl

end Placed

/-- The pass over `items` after the statements `done`: the table as in `Placed`, and one word for
each instruction that could be encoded, under the addresses that names have in the end. -/
structure Emitted (table : SymbolTable) (items done : List Item) (e : Emission) : Prop
    extends Placed table done e where
  words : e.words.toList = done.filterMap (Item.word? (Program.bound? table items))

namespace Emitted

variable {table : SymbolTable} {items done : List Item} {e : Emission}

theorem start (table : SymbolTable) (items : List Item) :
    Emitted table items [] (Emission.start table firstVariable) where
  symbols name := by
    show table.get? name = _
    unfold Program.bound?
    cases table.get? name <;> rfl
  nextVariable := rfl
  words := rfl

/-- One statement of the pass, whether it is encoded or refused. -/
theorem step (h : Emitted table items done e) {i : Item} {rest : List Item}
    (hitems : items = done ++ i :: rest) :
    Emitted table items (done ++ [i]) (e.step i).1 ∧
      (e.step i).2 = i.refusal? (Program.bound? table items) := by
  obtain ⟨hplaced, hwords, hcode⟩ := h.toPlaced.encode i
  rw [Program.encodeUnder_append table done i rest, ← hitems] at hcode
  have hsnoc : (done ++ [i]).filterMap (Item.word? (Program.bound? table items)) =
      e.words.toList ++ (i.word? (Program.bound? table items)).toList := by
    rw [List.filterMap_append, h.words]
    cases hword : i.word? (Program.bound? table items) <;> simp [hword]
  rw [Emission.step, Item.refusal?, ← hcode]
  rw [Item.word?, ← hcode] at hsnoc
  rcases hencode : e.encode i.statement with ⟨e', _ | cause | code⟩
  all_goals
    rw [hencode] at hplaced hwords hsnoc
    dsimp only at hwords hsnoc
  · refine ⟨⟨hplaced, ?_⟩, rfl⟩
    rw [hsnoc, hwords]
    simp
  · refine ⟨⟨hplaced, ?_⟩, rfl⟩
    rw [hsnoc, hwords]
    simp
  · refine ⟨⟨⟨hplaced.symbols, hplaced.nextVariable⟩, ?_⟩, rfl⟩
    rw [hsnoc, ← hwords]
    simp [Emission.push]

/-- A run of the pass: it fails with the first refusal if there is one, and what it knows in the
end is what the statements up to there give. -/
theorem run (h : Emitted table items done e) {rest : List Item} (hitems : items = done ++ rest) :
    Emitted table items (done ++ Program.reached (Program.bound? table items) rest) (e.run rest).1 ∧
      (e.run rest).2 = rest.findSome? (Item.refusal? (Program.bound? table items)) := by
  induction rest generalizing done e with
  | nil => exact ⟨by rwa [Program.reached, List.append_nil], rfl⟩
  | cons i rest ih =>
      obtain ⟨hstep, hrefusal⟩ := h.step hitems
      rw [Emission.run, Program.reached, List.findSome?_cons, ← hrefusal]
      rcases hnext : e.step i with ⟨e', _ | failure⟩
      · rw [hnext] at hstep
        obtain ⟨hrun, hfailure⟩ := ih hstep (by rw [hitems]; simp)
        refine ⟨?_, hfailure⟩
        simpa using hrun
      · rw [hnext] at hstep
        exact ⟨hstep, rfl⟩

end Emitted

end HackAssembly
