import HackAssembly.Proofs.Failures
import HackAssembly.Proofs.LabelAddresses
import HackAssembly.Proofs.VariableAddresses

/-!
# The table after a failed run

A run that fails leaves its table as far as it got. A malformed line ends the first pass, so the
table holds the labels before that line and no variable. A statement that cannot be encoded ends the
second pass, so the table holds all labels, and the variables up to that statement; its own is among
them, since a variable is placed before it is known whether its address fits.
-/

namespace HackAssembly

namespace SymbolTable

/-- Makes bindings one after another. -/
def bindAll (t : SymbolTable) (bindings : List Binding) : SymbolTable :=
  bindings.foldl (fun t b => t.insert b.name b.address) t

theorem bindAll_concat (t : SymbolTable) (bindings : List Binding) (b : Binding) :
    t.bindAll (bindings ++ [b]) = (t.bindAll bindings).insert b.name b.address := by
  rw [bindAll, List.foldl_append]
  rfl

end SymbolTable

namespace Program

/-- The labels in the order of their declarations, each with the number of instructions that stand
before it. -/
def declarations (items : List Item) : List Binding :=
  items.zipIdx.filterMap fun (i, k) =>
    i.label?.map fun name => ⟨name, (items.take k).countP Item.isInstruction⟩

/-- The names bound to consecutive addresses from the first one on. -/
def placements (names : List Bytes) : List Binding :=
  names.mapIdx fun k name => ⟨name, (firstVariable + k : Nat)⟩

/-! ### What the first pass has bound -/

theorem declarations_concat (items : List Item) (i : Item) :
    declarations (items ++ [i]) =
      match i.label? with
      | some name => declarations items ++ [⟨name, items.countP Item.isInstruction⟩]
      | none => declarations items := by
  have hold : items.zipIdx.filterMap (fun (j, k) => j.label?.map fun name =>
      (⟨name, ((items ++ [i]).take k).countP Item.isInstruction⟩ : Binding)) =
        declarations items := by
    apply List.filterMap_congr
    rintro ⟨j, k⟩ hmem
    have hlt : k < items.length := by simpa using List.snd_lt_of_mem_zipIdx hmem
    dsimp only
    rw [List.take_append_of_le_length hlt.le]
  rw [declarations, List.zipIdx_append, List.filterMap_append, Nat.zero_add, List.zipIdx_singleton,
    hold]
  cases hlabel : i.label? <;> simp [hlabel]

/-- The first pass binds the labels in the order of their declarations. -/
theorem labelTable_eq_bindAll (items : List Item) :
    labelTable items = SymbolTable.predefined.bindAll (declarations items) := by
  induction items using List.reverseRecOn with
  | nil => rfl
  | append_singleton items i ih =>
      have hcount := LabelScan.instructions_run (LabelScan.start SymbolTable.predefined) items
      rw [LabelScan.start, Nat.zero_add] at hcount
      rw [declarations_concat, labelTable, LabelScan.run_snoc]
      obtain ⟨line, statement⟩ := i
      cases statement with
      | label name =>
          simp only [LabelScan.step, LabelScan.declare, Item.label?, SymbolTable.bindAll_concat]
          rw [← ih, LabelScan.start, hcount]
          rfl
      | load target => exact ih
      | compute fields => exact ih

/-! ### What the second pass has bound -/

/-- Placing fresh names leaves all other bindings as they are. -/
theorem get?_bindAll_placements {table : SymbolTable} {names : List Bytes} (hnodup : names.Nodup)
    (hfresh : ∀ name ∈ names, table.get? name = none) (name : Bytes) :
    (table.bindAll (placements names)).get? name =
      match table.get? name with
      | some address => some address
      | none => (names.idxOf? name).map fun k => ((firstVariable + k : Nat) : Int) := by
  induction names using List.reverseRecOn with
  | nil =>
      show table.get? name = _
      cases table.get? name <;> rfl
  | append_singleton names last ih =>
      rw [List.nodup_append] at hnodup
      obtain ⟨hnames, -, hlast⟩ := hnodup
      have hnew : last ∉ names := fun hmem => hlast last hmem last (by simp) rfl
      rw [placements, List.mapIdx_concat, SymbolTable.bindAll_concat, SymbolTable.get?_insert,
        ← placements, ih hnames fun other hother => hfresh other (by simp [hother]), idxOf?_append]
      by_cases hname : last = name
      · subst hname
        rw [if_pos rfl, hfresh last (by simp), List.idxOf?_eq_none_iff.mpr hnew]
        simp
      · simp [hname]

end Program

/-- After some statements of the second pass the table is that of the first pass with the variables
of these statements placed one after another. -/
theorem Placed.symbols_eq {table : SymbolTable} {done : List Item} {e : Emission}
    (h : Placed table done e) :
    e.symbols = table.bindAll (Program.placements (Program.placed table done)) := by
  have hfresh : ∀ name ∈ Program.placed table done, table.get? name = none := by
    intro name hname
    have hneeds := (Program.mem_placed.mp hname).2
    rw [Program.needsPlace, SymbolTable.contains_eq_isSome_get?] at hneeds
    simp_all
  apply SymbolTable.ext_get?
  intro name
  rw [h.symbols, Program.bound?]
  exact (Program.get?_bindAll_placements (nodup_eraseDups _) hfresh name).symm

/-! ### Where the passes end -/

theorem Program.line_mem_of_mem_statements {source : List SourceLine} {i : Item}
    (h : i ∈ statements source) : i.line ∈ source := (mem_statements.mp h).1

/-- A refused item tells its line and why it cannot be encoded. -/
theorem Item.encodeUnder_of_refusal? {address? : Bytes → Option Int} {i : Item} {number : Nat}
    {text : Bytes} {cause : Cause} (h : i.refusal? address? = some (.atLine number text cause)) :
    i.statement.encodeUnder address? = some (.error cause) ∧ i.line.number = number ∧
      i.line.text = text := by
  unfold refusal? at h
  split at h
  · rename_i found hcode
    cases h
    exact ⟨hcode, rfl, rfl⟩
  · cases h

theorem Unencodable.ne_malformed {items : List Item} {statement : Statement} {cause : Cause}
    (h : Unencodable items statement cause) (how : Malformation) : cause ≠ .malformed how := by
  cases h <;> nofun

section Ends

variable {lines : List Bytes}

/-- The first pass ends at the first malformed line with the statements on the lines before it. -/
theorem items_eq_before {l : SourceLine}
    (h : IsFirst SourceLine.IsMalformed (substantive lines) l) :
    Program.items (substantive lines) =
      (program lines).filter fun i => i.line.number < l.number := by
  obtain ⟨before, after, hsplit, ⟨how, hl⟩, hbefore⟩ := h
  have hsorted := pairwise_substantive lines
  rw [hsplit, List.pairwise_append, List.pairwise_cons] at hsorted
  obtain ⟨-, ⟨hafter, -⟩, hfront⟩ := hsorted
  have hprogram : program lines = Program.statements before ++ Program.statements after := by
    have hitem : l.item? = none := by rw [SourceLine.item?, hl]
    rw [program, hsplit, Program.statements, List.filterMap_append,
      List.filterMap_cons_none hitem]
    rfl
  have hitems : Program.items (substantive lines) = Program.statements before := by
    have hformed : ∀ m ∈ before, m.fault?.isNone = true := by
      intro m hm
      rw [SourceLine.fault?_eq_none_iff.mpr (hbefore m hm)]
      rfl
    have hfault : l.fault?.isNone = false := by
      rw [SourceLine.fault?, hl]
      rfl
    rw [Program.items, hsplit, List.takeWhile_append_of_pos hformed, List.takeWhile_cons, hfault,
      if_neg Bool.false_ne_true, List.append_nil, Program.statements]
  rw [hitems, hprogram, filter_append_eq_left]
  · intro i hi
    simpa using hfront i.line (Program.line_mem_of_mem_statements hi) l List.mem_cons_self
  · intro i hi
    have hlt := hafter i.line (Program.line_mem_of_mem_statements hi)
    simpa using hlt.le

theorem Program.reached_of_split {address? : Bytes → Option Int} {before : List Item} {i : Item}
    (hbefore : ∀ j ∈ before, j.refusal? address? = none)
    (hi : (i.refusal? address?).isSome = true) (after : List Item) :
    reached address? (before ++ i :: after) = before ++ [i] := by
  induction before with
  | nil =>
      rw [List.nil_append, reached, if_pos hi]
      rfl
  | cons j before ih =>
      rw [List.cons_append, reached, hbefore j (by simp), if_neg (by simp),
        ih fun k hk => hbefore k (by simp [hk])]
      rfl

/-- The second pass ends with the statement that it refuses. -/
theorem reached_eq_upTo {before after : List Item} {i : Item}
    (hsplit : program lines = before ++ i :: after)
    (hbefore : ∀ j ∈ before, j.refusal? (Program.meaning? (program lines)) = none)
    (hi : (i.refusal? (Program.meaning? (program lines))).isSome = true) :
    Program.reached (Program.meaning? (program lines)) (program lines) = before ++ [i] ∧
      (program lines).filter (fun j => j.line.number ≤ i.line.number) = before ++ [i] := by
  have hsorted := pairwise_program lines
  rw [hsplit, List.pairwise_append, List.pairwise_cons] at hsorted
  obtain ⟨-, ⟨hafter, -⟩, hfront⟩ := hsorted
  constructor
  · have hreached := Program.reached_of_split hbefore hi after
    rwa [← hsplit] at hreached
  · rw [hsplit, List.append_cons, filter_append_eq_left]
    · intro j hj
      rcases List.mem_append.mp hj with hj | hj
      · simpa using (hfront j hj i List.mem_cons_self).le
      · obtain rfl := List.mem_singleton.mp hj
        simp
    · intro j hj
      simpa using hafter j hj

end Ends

namespace Assembler

variable (asm : Assembler) {lines : List Bytes}

theorem symbols_of_first_malformed {l : SourceLine}
    (h : IsFirst SourceLine.IsMalformed (substantive lines) l) :
    (asm.assemble lines).assembler.symbols =
      Program.labelTable ((program lines).filter fun i => i.line.number < l.number) := by
  have hmalformed : l.IsMalformed := by
    obtain ⟨-, -, -, hl, -⟩ := h
    exact hl
  cases hfault : Program.fault? (substantive lines) with
  | none => exact absurd hmalformed (Program.fault?_eq_none_iff.mp hfault l h.mem)
  | some failure =>
      rw [assemble_eq, ← items_eq_before h]
      simp only [hfault]
      rfl

theorem symbols_of_refused (hfault : Program.fault? (substantive lines) = none)
    {before after : List Item} {i : Item} (hsplit : program lines = before ++ i :: after)
    (hbefore : ∀ j ∈ before, j.refusal? (Program.meaning? (program lines)) = none)
    (hi : (i.refusal? (Program.meaning? (program lines))).isSome = true) :
    let upTo := (program lines).filter fun j => j.line.number ≤ i.line.number
    let table := (asm.assemble lines).assembler.symbols
    table = (Program.labelTable (program lines)).bindAll (Program.placements
        ((Program.targets upTo).filter (Program.isVariable (program lines))).eraseDups) ∧
      ∀ target, i.target? = some target → isSignedDigits target = false →
        table.get? target = Program.meaning? (program lines) target := by
  obtain ⟨e, hemitted, hasm, -⟩ := assemble_of_wellFormed asm hfault
  obtain ⟨hreached, hupTo⟩ := reached_eq_upTo hsplit hbefore hi
  rw [hreached] at hemitted
  dsimp only
  rw [hasm, hupTo]
  constructor
  · rw [hemitted.symbols_eq, Program.placed, Program.needsPlace_labelTable]
  · intro target htarget hsymbol
    obtain ⟨address, haddress⟩ :=
      Program.exists_bound? (Program.labelTable (program lines)) before htarget hsymbol
    rw [hemitted.symbols, haddress [], ← Program.bound?_labelTable, ← haddress after, ← hsplit]

/-- The table that a failed run leaves. If the failure is a malformed line, it holds the labels of
the lines before that one and no variable. If not, it holds all labels and the variables loaded up
to the failing line, placed from `16` on in the order of their first occurrence; a symbol on the
failing line itself is bound, to the address that does not fit. -/
theorem table_of_failed_run (asm : Assembler) (lines : List Bytes) {e : Nat} {text : Bytes}
    {cause : Cause} (h : (asm.assemble lines).result = .error (.atLine e text cause)) :
    let table := (asm.assemble lines).assembler.symbols
    let before := (program lines).filter fun i => i.line.number < e
    let upTo := (program lines).filter fun i => i.line.number ≤ e
    let variableNames :=
      ((Program.targets upTo).filter (Program.isVariable (program lines))).eraseDups
    ((∃ how, cause = .malformed how) →
        table = SymbolTable.predefined.bindAll (Program.declarations before) ∧
        ∀ name, table.contains name = true ↔
          isPredefined name = true ∨ name ∈ Program.labels before) ∧
      ((∀ how, cause ≠ .malformed how) →
        table = (SymbolTable.predefined.bindAll (Program.declarations (program lines))).bindAll
          (variableNames.mapIdx fun k name => ⟨name, ((16 + k : Nat) : Int)⟩) ∧
        ∀ target, Statement.parse text = .ok (.load target) → isSignedDigits target = false →
          ∃ address, cause = .addressTooWide address ∧ table.address target = .ok address) := by
  intro table before upTo variableNames
  cases hfault : Program.fault? (substantive lines) with
  | some failure =>
      rw [result_of_fault asm hfault] at h
      cases h
      obtain ⟨l, how, hfirst, -, hfailure⟩ := exists_first_malformed hfault
      cases hfailure
      have htable : table = Program.labelTable before := symbols_of_first_malformed asm hfirst
      refine ⟨fun _ => ⟨?_, ?_⟩, fun hnot => absurd rfl (hnot how)⟩
      · rw [htable, Program.labelTable_eq_bindAll]
      · intro name
        rw [htable, Program.contains_labelTable, Bool.or_eq_true, List.contains_iff_mem]
  | none =>
      cases hrefusal : Program.refusal? (program lines) with
      | none =>
          obtain ⟨words, hresult, -⟩ := exists_assembled asm hfault hrefusal
          rw [hresult] at h
          cases h
      | some failure =>
          rw [result_of_refusal asm hfault hrefusal] at h
          cases h
          obtain ⟨front, i, rest, hsplit, hi, hfront⟩ := List.findSome?_eq_some_iff.mp hrefusal
          obtain ⟨hcode, hline, htext⟩ := i.encodeUnder_of_refusal? hi
          have hmem : i ∈ program lines := by simp [hsplit]
          have hwhy := Program.unencodable_of_encodeUnder hmem hcode
          obtain ⟨htable, hsymbols⟩ := symbols_of_refused asm hfault hsplit hfront (by rw [hi]; rfl)
          rw [hline] at htable
          refine ⟨?_, fun _ => ⟨?_, ?_⟩⟩
          · rintro ⟨how, hmalformed⟩
            exact absurd hmalformed (hwhy.ne_malformed how)
          · rw [← Program.labelTable_eq_bindAll]
            exact htable
          · intro target hparse hsymbol
            have hload : i.statement = .load target := by
              have hitem := (Program.mem_statements.mp hmem).2
              rw [htext, hparse] at hitem
              exact (Except.ok.inj hitem).symm
            rw [hload] at hwhy
            cases hwhy with
            | longNumeral hnumeral _ => exact absurd hnumeral (by simp [hsymbol])
            | wideNumeral hnumeral _ _ => exact absurd hnumeral (by simp [hsymbol])
            | @wideSymbol _ address _ haddress _ =>
                refine ⟨address, rfl, SymbolTable.address_eq_ok_iff.mpr ?_⟩
                rw [hsymbols target (by rw [Item.target?, hload]) hsymbol, haddress]

/-- A malformed line between two declarations of a label and a further one, and an unknown mnemonic
between variables and labels. -/
theorem tables_of_two_failed_runs :
    let a := [ascii "(A)", ascii "@x", ascii "@END", ascii "(A) // again", ascii "D+1",
      ascii "(END)"]
    let b := [ascii "@x", ascii "(R1)", ascii "@y", ascii "@x", ascii "D=Q", ascii "@z",
      ascii "(END)"]
    (new.assemble a).result = .error (.atLine 5 (ascii "D+1") (.malformed .shape)) ∧
      (new.assemble a).assembler.symbols =
        SymbolTable.predefined.bindAll [⟨ascii "A", 0⟩, ⟨ascii "A", 2⟩] ∧
      (new.assemble b).result =
        .error (.atLine 5 (ascii "D=Q") (.unknownMnemonic .comp (ascii "Q"))) ∧
      (new.assemble b).assembler.symbols =
        (SymbolTable.predefined.bindAll [⟨ascii "R1", 1⟩, ⟨ascii "END", 5⟩]).bindAll
          [⟨ascii "x", 16⟩, ⟨ascii "y", 17⟩] := by
  intro a b
  have ha : (new.assemble a).result = .error (.atLine 5 (ascii "D+1") (.malformed .shape)) := by
    decide +kernel
  have hb : (new.assemble b).result =
      .error (.atLine 5 (ascii "D=Q") (.unknownMnemonic .comp (ascii "Q"))) := by decide +kernel
  have htable := ((table_of_failed_run new a ha).1 ⟨.shape, rfl⟩).1
  have htable' := ((table_of_failed_run new b hb).2 nofun).1
  have hdeclared : Program.declarations ((program a).filter fun i => i.line.number < 5) =
      [⟨ascii "A", 0⟩, ⟨ascii "A", 2⟩] := by decide +kernel
  have hdeclared' : Program.declarations (program b) = [⟨ascii "R1", 1⟩, ⟨ascii "END", 5⟩] := by
    decide +kernel
  have hnames : ((Program.targets ((program b).filter fun i => i.line.number ≤ 5)).filter
      (Program.isVariable (program b))).eraseDups = [ascii "x", ascii "y"] := by decide +kernel
  rw [hdeclared] at htable
  rw [hdeclared', hnames] at htable'
  exact ⟨ha, htable, hb, htable'⟩

end Assembler

end HackAssembly
