import HackAssembly.Proofs.Allocation
import Mathlib.Data.List.TakeWhile

/-!
# The outcome of a program

Both passes together: what the assembler does with a program is decided by its substantive lines
and by what its names mean. A malformed line is reported before anything else; then the first
statement that cannot be encoded under the meaning of the names; a program without either is
assembled, and the table left behind is the meaning of its names (`Assembled`).
-/

namespace HackAssembly

/-- The statements of the program that the lines hold. -/
def program (lines : List Bytes) : List Item := Program.statements (substantive lines)

namespace Program

/-- The failure of the first statement that cannot be encoded. -/
def refusal? (items : List Item) : Option Failure :=
  items.findSome? (Item.refusal? (meaning? items))

theorem items_eq_statements {source : List SourceLine} (h : fault? source = none) :
    items source = statements source := by
  have hall : ∀ l ∈ source, l.fault?.isNone = true := by
    intro l hl
    rw [List.findSome?_eq_none_iff.mp h l hl]
    rfl
  rw [items, List.takeWhile_eq_self_iff.mpr hall, statements]

theorem mem_statements {source : List SourceLine} {i : Item} :
    i ∈ statements source ↔ i.line ∈ source ∧ Statement.parse i.line.text = .ok i.statement := by
  rw [statements, List.mem_filterMap]
  constructor
  · rintro ⟨l, hl, hitem⟩
    obtain ⟨rfl, hparse⟩ := SourceLine.item?_eq_some_iff.mp hitem
    exact ⟨hl, hparse⟩
  · rintro ⟨hline, hparse⟩
    exact ⟨i.line, hline, SourceLine.item?_eq_some_iff.mpr ⟨rfl, hparse⟩⟩

/-! ### The passes compute the meaning -/

theorem needsPlace_labelTable (items : List Item) :
    needsPlace (labelTable items) = isVariable items := by
  funext target
  rw [needsPlace, isVariable, contains_labelTable, Bool.not_or, Bool.and_assoc]

theorem placed_labelTable (items : List Item) :
    placed (labelTable items) items = variableNames items := by
  rw [placed, needsPlace_labelTable, variableNames]

theorem bound?_labelTable (items : List Item) :
    bound? (labelTable items) items = meaning? items := by
  funext name
  rw [bound?, get?_labelTable, placed_labelTable, meaning?]
  cases labelAddress? items name <;> rfl

/-- Every name that a program loads means something in it. -/
theorem exists_meaning? {items : List Item} {i : Item} {target : Bytes} (hi : i ∈ items)
    (htarget : i.target? = some target) (hsymbol : isSignedDigits target = false) :
    ∃ address, meaning? items target = some address := by
  obtain ⟨left, right, hsplit⟩ := List.append_of_mem hi
  obtain ⟨address, haddress⟩ := exists_bound? (labelTable items) left htarget hsymbol
  refine ⟨address, ?_⟩
  rw [← bound?_labelTable, hsplit, ← haddress right, ← hsplit]

theorem emitted_run (items : List Item) :
    Emitted (labelTable items) items (reached (meaning? items) items)
        ((Emission.start (labelTable items) firstVariable).run items).1 ∧
      ((Emission.start (labelTable items) firstVariable).run items).2 = refusal? items := by
  have hrun := (Emitted.start (labelTable items) items).run rfl
  rwa [bound?_labelTable, List.nil_append] at hrun

end Program

/-- What it means that lines are assembled to words with a table left behind. -/
structure Assembled (lines : List Bytes) (words : List Word) (table : SymbolTable) : Prop where
  wellFormed : Program.fault? (substantive lines) = none
  encodable : Program.refusal? (program lines) = none
  words_eq : words = (program lines).filterMap (Item.word? (Program.meaning? (program lines)))
  get?_eq : table.get? = Program.meaning? (program lines)

theorem Assembled.not_refused {lines : List Bytes} {words : List Word} {table : SymbolTable}
    (h : Assembled lines words table) {i : Item} (hi : i ∈ program lines) :
    i.refusal? (Program.meaning? (program lines)) = none :=
  List.findSome?_eq_none_iff.mp h.encodable i hi

namespace Assembler

variable (asm : Assembler) {lines : List Bytes}

theorem result_of_fault {failure : Failure}
    (h : Program.fault? (substantive lines) = some failure) :
    (asm.assemble lines).result = .error failure := by
  rw [assemble_eq]
  simp only [h]

/-- The second pass of a program without malformed lines, in terms of what its names mean. -/
theorem assemble_of_wellFormed (h : Program.fault? (substantive lines) = none) :
    ∃ e, Emitted (Program.labelTable (program lines)) (program lines)
          (Program.reached (Program.meaning? (program lines)) (program lines)) e ∧
      (asm.assemble lines).assembler = ⟨e.symbols, e.nextVariable⟩ ∧
      (asm.assemble lines).result = e.result (Program.refusal? (program lines)) := by
  obtain ⟨hemitted, hfailure⟩ := Program.emitted_run (program lines)
  refine ⟨_, hemitted, ?_, ?_⟩
  all_goals
    rw [assemble_eq]
    simp only [h, Program.items_eq_statements h]
  · rfl
  · rw [← hfailure]
    rfl

theorem result_of_refusal {failure : Failure} (h : Program.fault? (substantive lines) = none)
    (hrefusal : Program.refusal? (program lines) = some failure) :
    (asm.assemble lines).result = .error failure := by
  obtain ⟨e, -, -, hresult⟩ := assemble_of_wellFormed asm h
  rw [hresult, hrefusal, Emission.result]

/-- A program without malformed lines and without refused statements is assembled. -/
theorem exists_assembled (h : Program.fault? (substantive lines) = none)
    (hrefusal : Program.refusal? (program lines) = none) :
    ∃ words, (asm.assemble lines).result = .ok words ∧
      Assembled lines words (asm.assemble lines).assembler.symbols := by
  obtain ⟨e, hemitted, hasm, hresult⟩ := assemble_of_wellFormed asm h
  have hreached : Program.reached (Program.meaning? (program lines)) (program lines) =
      program lines := Program.reached_eq_self hrefusal
  rw [hreached] at hemitted
  rw [hrefusal] at hresult
  refine ⟨e.words.toList, hresult, h, hrefusal, ?_, ?_⟩
  · rw [hemitted.words, Program.bound?_labelTable]
  · funext name
    rw [hasm, hemitted.symbols, Program.bound?_labelTable]

/-- The failure that a program is refused with: malformed lines come before refused statements. -/
def failure? (lines : List Bytes) : Option Failure :=
  (Program.fault? (substantive lines)).or (Program.refusal? (program lines))

theorem result_of_failure {failure : Failure} (h : failure? lines = some failure) :
    (asm.assemble lines).result = .error failure := by
  rw [failure?, Option.or_eq_some_iff] at h
  rcases h with hfault | ⟨hfault, hrefusal⟩
  · exact result_of_fault asm hfault
  · exact result_of_refusal asm hfault hrefusal

theorem exists_assembled_of_no_failure (h : failure? lines = none) :
    ∃ words, (asm.assemble lines).result = .ok words ∧
      Assembled lines words (asm.assemble lines).assembler.symbols := by
  rw [failure?, Option.or_eq_none_iff] at h
  exact exists_assembled asm h.1 h.2

theorem assembled_of_ok {words : List Word} (h : (asm.assemble lines).result = .ok words) :
    Assembled lines words (asm.assemble lines).assembler.symbols := by
  cases hfault : Program.fault? (substantive lines) with
  | some failure =>
      rw [result_of_fault asm hfault] at h
      cases h
  | none =>
      cases hrefusal : Program.refusal? (program lines) with
      | some failure =>
          rw [result_of_refusal asm hfault hrefusal] at h
          cases h
      | none =>
          obtain ⟨words', hresult, hassembled⟩ := exists_assembled asm hfault hrefusal
          rw [hresult] at h
          cases h
          exact hassembled

end Assembler

end HackAssembly
