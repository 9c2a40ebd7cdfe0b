import HackAssembly.Source.Cursor
import Mathlib.Data.List.GetD

/-!
# Requests to a cursor

What can be asked of a cursor, one request after another. A cursor can also be kept as the index of
its line together with the text of the instruction there (`LineIndex`); then nothing but the text
tells an instruction from the ends of the program, and the two fields have to fit each other. They
do after every sequence of requests (`LineIndex.Kept`), because a line index that follows a cursor
goes on following it (`LineIndex.Follows.answer`).
-/

namespace HackAssembly

/-- What can be asked of a cursor. -/
inductive Request
  | hasMore
  | advance
  | rewind
  | kind
  | symbol
  | dest
  | comp
  | jump
  | lineNumber
  | text
  deriving DecidableEq, Repr

inductive Reply
  | flag (value : Bool)
  | moved (result : Except Cause Unit)
  | rewound
  | kind (result : Except Failure Kind)
  | bytes (value : Bytes)
  | number (value : Nat)

/-- The replies to requests, each made of the state that the ones before it left, and the last of
these states. -/
def Request.serve {σ : Type} (answer : σ → Request → Reply × σ) (s : σ) :
    List Request → List Reply × σ
  | [] => ([], s)
  | request :: rest =>
    let (reply, next) := answer s request
    let (replies, last) := serve answer next rest
    (reply :: replies, last)

theorem Request.serve_cons {σ : Type} (answer : σ → Request → Reply × σ) (s : σ)
    (request : Request) (rest : List Request) :
    serve answer s (request :: rest) =
      ((answer s request).1 :: (serve answer (answer s request).2 rest).1,
        (serve answer (answer s request).2 rest).2) := rfl

/-- Two states whose replies agree, and that stay related, agree on every sequence of requests. -/
theorem Request.serve_of_answer {σ τ : Type} {answer : σ → Request → Reply × σ}
    {answer' : τ → Request → Reply × τ} {R : σ → τ → Prop}
    (hanswer : ∀ {s t}, R s t → ∀ request, (answer s request).1 = (answer' t request).1 ∧
      R (answer s request).2 (answer' t request).2)
    {s : σ} {t : τ} (h : R s t) (requests : List Request) :
    (serve answer s requests).1 = (serve answer' t requests).1 ∧
      R (serve answer s requests).2 (serve answer' t requests).2 := by
  induction requests generalizing s t with
  | nil => exact ⟨rfl, h⟩
  | cons request rest ih =>
      obtain ⟨hreply, hnext⟩ := hanswer h request
      obtain ⟨hreplies, hlast⟩ := ih hnext
      rw [serve_cons, serve_cons, hreply, hreplies]
      exact ⟨rfl, hlast⟩

/-- Answers a request by the cursor's operation of that name. -/
def Cursor.answer (c : Cursor) : Request → Reply × Cursor
  | .hasMore => (.flag c.hasMore, c)
  | .advance => (.moved c.advance.1, c.advance.2)
  | .rewind => (.rewound, c.rewind)
  | .kind => (.kind c.kind, c)
  | .symbol => (.bytes c.symbol, c)
  | .dest => (.bytes c.fields.dest, c)
  | .comp => (.bytes c.fields.comp, c)
  | .jump => (.bytes c.fields.jump, c)
  | .lineNumber => (.number c.lineNumber, c)
  | .text => (.bytes c.text, c)

/-! ### A line by its index -/

/-- A cursor as the index of the current line, counted from zero, and the text of its instruction.
Before the first line the index is `-1`, and past the last it is the number of lines. -/
structure LineIndex where
  lines : List Bytes
  current : Int
  text : Bytes

namespace LineIndex

def holdsInstruction (line : Bytes) : Bool := !(instructionText line).isEmpty

def ofLines (lines : List Bytes) : LineIndex := ⟨lines, -1, []⟩

/-- The index of the first line past the current one that holds an instruction. -/
def next? (x : LineIndex) : Option Nat :=
  let first := (x.current + 1).toNat
  ((x.lines.drop first).findIdx? holdsInstruction).map (first + ·)

def advance (x : LineIndex) : Except Cause Unit × LineIndex :=
  match x.next? with
  | some i => (.ok (), { x with current := i, text := instructionText (x.lines.getD i []) })
  | none => (.error .noMoreInstructions, { x with current := x.lines.length, text := [] })

def lineNumber (x : LineIndex) : Nat := (x.current + 1).toNat

def statement (x : LineIndex) : Except Failure Statement :=
  if x.current < 0 ∨ x.lines.length ≤ x.current then .error (.bare .noMoreInstructions)
  else
    match Statement.parse x.text with
    | .ok statement => .ok statement
    | .error how => .error (.atLine x.lineNumber x.text (.malformed how))

def symbol (x : LineIndex) : Bytes :=
  match x.statement with
  | .ok statement => statement.symbol
  | .error _ => []

def answer (x : LineIndex) : Request → Reply × LineIndex
  | .hasMore => (.flag x.next?.isSome, x)
  | .advance => (.moved x.advance.1, x.advance.2)
  | .rewind => (.rewound, ofLines x.lines)
  | .kind => (.kind (x.statement.map Statement.kind), x)
  | .symbol => (.bytes x.symbol, x)
  | .dest => (.bytes (Fields.ofText x.text).dest, x)
  | .comp => (.bytes (Fields.ofText x.text).comp, x)
  | .jump => (.bytes (Fields.ofText x.text).jump, x)
  | .lineNumber => (.number x.lineNumber, x)
  | .text => (.bytes x.text, x)

/-- The fields fit each other: there is a text exactly on a line, and then it is the instruction of
that line. -/
structure Kept (x : LineIndex) : Prop where
  neg_one_le : -1 ≤ x.current
  le_length : x.current ≤ x.lines.length
  text_ne_nil_iff : x.text ≠ [] ↔ 0 ≤ x.current ∧ x.current < x.lines.length
  text_eq : ∀ i line, x.current = (i : Nat) → x.lines[i]? = some line →
    x.text = instructionText line

end LineIndex

/-- The index of a place among the lines of a program. -/
def Place.index (lines : List Bytes) : Place → Int
  | .start => -1
  | .on line => line.number - 1
  | .finished => lines.length

namespace LineIndex

/-- The index and the text are those of the cursor's place, and the cursor has the lines past the
index ahead of it. -/
structure Follows (x : LineIndex) (c : Cursor) : Prop where
  lines_eq : x.lines = c.lines
  current_eq : x.current = c.place.index c.lines
  text_eq : x.text = c.text
  on_line : ∀ l, c.place = .on l → 1 ≤ l.number ∧ l.text ≠ [] ∧
    (c.lines[l.number - 1]?).map instructionText = some l.text
  passed_eq : c.passed = min (x.current + 1).toNat c.lines.length
  ahead_eq : c.ahead = c.lines.drop c.passed

end LineIndex

/-- Looking for the next instruction line by line finds the first that holds one. -/
theorem Cursor.seek_eq_findIdx? (number : Nat) (ahead : List Bytes) :
    seek number ahead = (ahead.findIdx? LineIndex.holdsInstruction).map fun k =>
      (⟨number + k, instructionText (ahead.getD k [])⟩, ahead.drop (k + 1)) := by
  induction ahead generalizing number with
  | nil => rfl
  | cons line ahead ih =>
      rw [seek, List.findIdx?_cons, SourceLine.ofLine?, LineIndex.holdsInstruction]
      cases (instructionText line).isEmpty with
      | false => rfl
      | true =>
          rw [if_pos rfl]
          dsimp only
          rw [ih (number + 1), Bool.not_true, if_neg Bool.false_ne_true, Option.map_map]
          congr 1
          funext k
          simp [Nat.add_assoc, Nat.add_comm 1 k]

/-- The next line of an index holds an instruction. -/
theorem LineIndex.exists_of_next? {x : LineIndex} {i : Nat} (h : x.next? = some i) :
    ∃ hi : i < x.lines.length, instructionText x.lines[i] ≠ [] := by
  obtain ⟨k, hfound, rfl⟩ := Option.map_eq_some_iff.mp h
  obtain ⟨hk, hholds, -⟩ := List.findIdx?_eq_some_iff_getElem.mp hfound
  rw [List.length_drop] at hk
  rw [List.getElem_drop] at hholds
  exact ⟨by omega, by simpa [holdsInstruction] using hholds⟩

namespace LineIndex.Follows

variable {x : LineIndex} {c : Cursor}

theorem ofLines (lines : List Bytes) :
    Follows (LineIndex.ofLines lines) (Cursor.ofLines lines) where
  lines_eq := rfl
  current_eq := rfl
  text_eq := rfl
  on_line := by
    intro l hl
    cases hl
  passed_eq := by simp [LineIndex.ofLines, Cursor.ofLines]
  ahead_eq := rfl

/-- The cursor looks through the lines past the index. -/
theorem seek_eq (h : Follows x c) :
    Cursor.seek (c.passed + 1) c.ahead = x.next?.map fun i =>
      (⟨i + 1, instructionText (x.lines.getD i [])⟩, x.lines.drop (i + 1)) := by
  have hahead : c.ahead = x.lines.drop (x.current + 1).toNat := by
    rw [h.ahead_eq, h.passed_eq, h.lines_eq]
    rcases Nat.le_total (x.current + 1).toNat c.lines.length with hle | hle
    · rw [Nat.min_eq_left hle]
    · rw [Nat.min_eq_right hle, List.drop_length, List.drop_of_length_le hle]
  rw [Cursor.seek_eq_findIdx?, hahead, next?, Option.map_map]
  cases hfound : (x.lines.drop (x.current + 1).toNat).findIdx? holdsInstruction with
  | none => rfl
  | some k =>
      -- a line was found, so there are lines past the index
      obtain ⟨hk, -⟩ := List.findIdx?_eq_some_iff_getElem.mp hfound
      rw [List.length_drop, h.lines_eq] at hk
      have hnumber : c.passed + 1 + k = (x.current + 1).toNat + k + 1 := by
        rw [h.passed_eq]
        omega
      rw [Option.map_some, Option.map_some, Function.comp_apply, hnumber, List.drop_drop,
        List.getD_eq_getElem?_getD, List.getElem?_drop, List.getD_eq_getElem?_getD, Nat.add_assoc]

theorem hasMore_eq (h : Follows x c) : x.next?.isSome = c.hasMore := by
  rw [Cursor.hasMore, h.seek_eq, Option.isSome_map]

theorem advance (h : Follows x c) :
    x.advance.1 = c.advance.1 ∧ Follows x.advance.2 c.advance.2 := by
  rw [LineIndex.advance, Cursor.advance, h.seek_eq]
  cases hnext : x.next? with
  | none =>
      refine ⟨rfl, h.lines_eq, congrArg (fun lines : List Bytes => (lines.length : Int)) h.lines_eq,
        rfl, ?_, ?_, List.drop_length.symm⟩
      · intro l hl
        cases hl
      · show c.lines.length = min (((x.lines.length : Nat) : Int) + 1).toNat c.lines.length
        rw [h.lines_eq]
        omega
  | some i =>
      obtain ⟨hi, hholds⟩ := exists_of_next? hnext
      have htext : instructionText (x.lines.getD i []) = instructionText x.lines[i] := by
        rw [List.getD_eq_getElem]
      refine ⟨rfl, h.lines_eq, ?_, rfl, ?_, ?_, ?_⟩
      · show (i : Int) = ((i + 1 : Nat) : Int) - 1
        omega
      · intro l hl
        cases hl
        refine ⟨Nat.succ_pos i, ?_, ?_⟩
        · rw [htext]
          exact hholds
        · show (c.lines[i + 1 - 1]?).map instructionText = some (instructionText _)
          rw [Nat.add_sub_cancel, ← h.lines_eq, List.getElem?_eq_getElem hi, htext]
          rfl
      · show i + 1 = min ((i : Int) + 1).toNat c.lines.length
        rw [← h.lines_eq]
        omega
      · show x.lines.drop (i + 1) = c.lines.drop (i + 1)
        rw [h.lines_eq]

theorem lineNumber_eq (h : Follows x c) : x.lineNumber = c.lineNumber := by
  rw [LineIndex.lineNumber, Cursor.lineNumber, h.current_eq]
  cases hplace : c.place with
  | start => rfl
  | on l =>
      have hpos := (h.on_line l hplace).1
      show ((l.number : Int) - 1 + 1).toNat = l.number
      omega
  | finished => rfl

/-- The index is that of a line exactly when the cursor stands on one. -/
theorem outside_iff (h : Follows x c) :
    (x.current < 0 ∨ x.lines.length ≤ x.current) ↔ ∀ l, c.place ≠ .on l := by
  rw [h.current_eq, h.lines_eq]
  cases hplace : c.place with
  | start => exact ⟨fun _ _ => Place.noConfusion, fun _ => Or.inl (Int.negSucc_lt_zero 0)⟩
  | finished => exact ⟨fun _ _ => Place.noConfusion, fun _ => Or.inr (Int.le_refl _)⟩
  | on l =>
      obtain ⟨hpos, -, hget⟩ := h.on_line l hplace
      obtain ⟨line, hline, -⟩ := Option.map_eq_some_iff.mp hget
      obtain ⟨hlt, -⟩ := List.getElem?_eq_some_iff.mp hline
      constructor
      · intro houtside
        rw [Place.index] at houtside
        omega
      · intro hnot
        exact absurd rfl (hnot l)

theorem statement_eq (h : Follows x c) : x.statement = c.statement := by
  have houtside := h.outside_iff
  rw [LineIndex.statement, Cursor.statement]
  cases hplace : c.place with
  | start => rw [if_pos (houtside.mpr (by simp [hplace]))]
  | finished => rw [if_pos (houtside.mpr (by simp [hplace]))]
  | on l =>
      have htext : x.text = l.text := by rw [h.text_eq, Cursor.text, hplace]
      have hnumber : x.lineNumber = l.number := by rw [h.lineNumber_eq, Cursor.lineNumber, hplace]
      rw [if_neg (mt houtside.mp fun hnot => hnot l hplace)]
      cases hparse : Statement.parse l.text <;> simp only [htext, hnumber, hparse]

/-- One request: the replies agree, and the index still follows the cursor. -/
theorem answer (h : Follows x c) (request : Request) :
    (x.answer request).1 = (c.answer request).1 ∧
      Follows (x.answer request).2 (c.answer request).2 := by
  cases request with
  | hasMore => exact ⟨congrArg Reply.flag h.hasMore_eq, h⟩
  | advance => exact ⟨congrArg Reply.moved h.advance.1, h.advance.2⟩
  | rewind =>
      refine ⟨rfl, ?_⟩
      show Follows (LineIndex.ofLines x.lines) (Cursor.ofLines c.lines)
      rw [h.lines_eq]
      exact ofLines c.lines
  | kind =>
      refine ⟨congrArg Reply.kind ?_, h⟩
      rw [h.statement_eq]
      rfl
  | symbol =>
      refine ⟨congrArg Reply.bytes ?_, h⟩
      rw [LineIndex.symbol, h.statement_eq]
      rfl
  | dest => exact ⟨congrArg (fun text => Reply.bytes (Fields.ofText text).dest) h.text_eq, h⟩
  | comp => exact ⟨congrArg (fun text => Reply.bytes (Fields.ofText text).comp) h.text_eq, h⟩
  | jump => exact ⟨congrArg (fun text => Reply.bytes (Fields.ofText text).jump) h.text_eq, h⟩
  | lineNumber => exact ⟨congrArg Reply.number h.lineNumber_eq, h⟩
  | text => exact ⟨congrArg Reply.bytes h.text_eq, h⟩

/-- An index that follows a cursor has the text that belongs to it. -/
theorem kept (h : Follows x c) : x.Kept := by
  have hindex := h.current_eq
  have htext := h.text_eq
  rw [Cursor.text] at htext
  have hlines := congrArg List.length h.lines_eq
  cases hplace : c.place with
  | start =>
      rw [hplace] at hindex htext
      rw [Place.index] at hindex
      refine ⟨by omega, by omega, ⟨absurd htext, by omega⟩, by omega⟩
  | finished =>
      rw [hplace] at hindex htext
      rw [Place.index] at hindex
      refine ⟨by omega, by omega, ⟨absurd htext, by omega⟩, ?_⟩
      intro i line hi hline
      obtain ⟨hlt, -⟩ := List.getElem?_eq_some_iff.mp hline
      omega
  | on l =>
      obtain ⟨hpos, hne, hget⟩ := h.on_line l hplace
      rw [hplace] at hindex htext
      rw [Place.index] at hindex
      rw [← h.lines_eq] at hget
      obtain ⟨found, hfound, hinstruction⟩ := Option.map_eq_some_iff.mp hget
      obtain ⟨hlt, -⟩ := List.getElem?_eq_some_iff.mp hfound
      refine ⟨by omega, by omega, ?_, ?_⟩
      · rw [htext]
        exact ⟨fun _ => by omega, fun _ => hne⟩
      · intro i line hi hline
        rw [show l.number - 1 = i by omega, hline] at hfound
        rw [Option.some.inj hfound, hinstruction]
        exact htext

end LineIndex.Follows

end HackAssembly
