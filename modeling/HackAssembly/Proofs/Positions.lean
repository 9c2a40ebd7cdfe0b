import HackAssembly.Proofs.Passes
import HackAssembly.Proofs.Requests

/-!
# Where a cursor stands

All that a cursor shows is a matter of a position among the substantive lines of its program: before
the first of them, on one of them, or past the last. `Position.answer` says how a position answers
requests and which of them move it. A cursor represents a position (`Represents`), every request
keeps that, and so any sequence of requests has the same replies from both.
-/

namespace HackAssembly

/-! ### Positions -/

/-- A position among the substantive lines of a program. -/
inductive Position (lines : List Bytes)
  | beforeFirst
  | onLine (k : Fin (substantive lines).length)
  | exhausted
  deriving DecidableEq, Repr

namespace Position

variable {lines : List Bytes}

/-- The index of the line that the next move leads to. -/
def next? : Position lines → Option (Fin (substantive lines).length)
  | beforeFirst => if h : 0 < (substantive lines).length then some ⟨0, h⟩ else none
  | onLine k => if h : k + 1 < (substantive lines).length then some ⟨k + 1, h⟩ else none
  | exhausted => none

def lineNumber : Position lines → Nat
  | beforeFirst => 0
  | onLine k => (substantive lines)[k].number
  | exhausted => lines.length + 1

def text : Position lines → Bytes
  | onLine k => (substantive lines)[k].text
  | _ => []

/-- The statement on the line; off every line there is none to be read. -/
def statement : Position lines → Except Failure Statement
  | onLine k =>
    match Statement.parse (substantive lines)[k].text with
    | .ok statement => .ok statement
    | .error how => .error ((substantive lines)[k].failure (.malformed how))
  | _ => .error (.bare .noMoreInstructions)

def symbol (p : Position lines) : Bytes :=
  match p.statement with
  | .ok statement => statement.symbol
  | .error _ => []

/-- Answers a request. A move that leads nowhere fails and exhausts the position; rewinding leads
back before the first line, and no other request changes the position. -/
def answer (p : Position lines) : Request → Reply × Position lines
  | .hasMore => (.flag p.next?.isSome, p)
  | .advance =>
    match p.next? with
    | some k => (.moved (.ok ()), onLine k)
    | none => (.moved (.error .noMoreInstructions), exhausted)
  | .rewind => (.rewound, beforeFirst)
  | .kind => (.kind (p.statement.map Statement.kind), p)
  | .symbol => (.bytes p.symbol, p)
  | .dest => (.bytes (Fields.ofText p.text).dest, p)
  | .comp => (.bytes (Fields.ofText p.text).comp, p)
  | .jump => (.bytes (Fields.ofText p.text).jump, p)
  | .lineNumber => (.number p.lineNumber, p)
  | .text => (.bytes p.text, p)

/-- The substantive lines past a position. -/
def pending : Position lines → List SourceLine
  | beforeFirst => substantive lines
  | onLine k => (substantive lines).drop (k + 1)
  | exhausted => []

theorem pending_eq_next? (p : Position lines) :
    p.pending = match p.next? with
      | some k => (substantive lines)[k] :: (onLine k).pending
      | none => [] := by
  cases p with
  | beforeFirst =>
      by_cases h : 0 < (substantive lines).length
      · rw [next?, dif_pos h]
        exact List.drop_eq_getElem_cons h
      · rw [next?, dif_neg h]
        exact List.eq_nil_of_length_eq_zero (Nat.eq_zero_of_not_pos h)
  | onLine k =>
      by_cases h : k + 1 < (substantive lines).length
      · rw [next?, dif_pos h]
        exact List.drop_eq_getElem_cons h
      · rw [next?, dif_neg h]
        exact List.drop_of_length_le (by omega)
  | exhausted => rfl

/-- Only rewinding leaves the end. -/
theorem exhausted_of_no_rewind {requests : List Request} (h : .rewind ∉ requests) :
    (Request.serve answer (exhausted : Position lines) requests).2 = exhausted := by
  induction requests with
  | nil => rfl
  | cons request rest ih =>
      rw [List.mem_cons, not_or] at h
      have hstay : (answer (exhausted : Position lines) request).2 = exhausted := by
        cases request with
        | rewind => exact absurd rfl h.1
        | _ => rfl
      rw [Request.serve_cons, hstay]
      exact ih h.2

theorem kind_eq_bare_iff (p : Position lines) :
    p.statement.map Statement.kind = .error (.bare .noMoreInstructions) ↔
      p = beforeFirst ∨ p = exhausted := by
  cases p with
  | beforeFirst => exact ⟨fun _ => Or.inl rfl, fun _ => rfl⟩
  | exhausted => exact ⟨fun _ => Or.inr rfl, fun _ => rfl⟩
  | onLine k =>
      constructor
      · intro h
        rw [statement] at h
        cases hparse : Statement.parse (substantive lines)[k].text with
        | ok found =>
            rw [hparse] at h
            cases h
        | error how =>
            rw [hparse] at h
            cases h
      · rintro (h | h) <;> cases h

/-- The place of a cursor that represents the position. -/
def place : Position lines → Place
  | beforeFirst => .start
  | onLine k => .on (substantive lines)[k]
  | exhausted => .finished

end Position

/-! ### Cursors represent positions -/

/-- The cursor stands at the position, with the lines past it still ahead. -/
structure Represents {lines : List Bytes} (c : Cursor) (p : Position lines) : Prop where
  lines_eq : c.lines = lines
  place_eq : c.place = p.place
  pending_eq : c.pending = p.pending

theorem Cursor.seek_eq_none_of_pending {c : Cursor} (h : c.pending = []) :
    seek (c.passed + 1) c.ahead = none := by
  rw [pending, substantiveFrom_eq_seek] at h
  cases hseek : seek (c.passed + 1) c.ahead with
  | some found => simp [hseek] at h
  | none => rfl

namespace Represents

variable {lines : List Bytes} {c : Cursor} {p : Position lines}

theorem ofLines (lines : List Bytes) :
    Represents (Cursor.ofLines lines) (.beforeFirst : Position lines) :=
  ⟨rfl, rfl, Cursor.pending_ofLines lines⟩

theorem hasMore_eq (h : Represents c p) : c.hasMore = p.next?.isSome := by
  have hpending := h.pending_eq.trans p.pending_eq_next?
  cases hnext : p.next? with
  | some k =>
      rw [hnext] at hpending
      exact (Cursor.advance_of_pending hpending).1
  | none =>
      rw [hnext] at hpending
      exact Cursor.hasMore_eq_false_of_pending hpending

/-- Moving the cursor moves the position. -/
theorem advance (h : Represents c p) :
    (.moved c.advance.1 : Reply) = (p.answer .advance).1 ∧
      Represents c.advance.2 (p.answer .advance).2 := by
  have hpending := h.pending_eq.trans p.pending_eq_next?
  rw [Position.answer]
  cases hnext : p.next? with
  | some k =>
      rw [hnext] at hpending
      obtain ⟨-, next, hadvance, hplace, hrest, hlines⟩ := Cursor.advance_of_pending hpending
      rw [hadvance]
      exact ⟨rfl, hlines.trans h.lines_eq, hplace, hrest⟩
  | none =>
      rw [hnext] at hpending
      rw [Cursor.advance, Cursor.seek_eq_none_of_pending hpending]
      exact ⟨rfl, h.lines_eq, rfl, rfl⟩

theorem lineNumber_eq (h : Represents c p) : c.lineNumber = p.lineNumber := by
  rw [Cursor.lineNumber, h.place_eq, h.lines_eq]
  cases p <;> rfl

theorem text_eq (h : Represents c p) : c.text = p.text := by
  rw [Cursor.text, h.place_eq]
  cases p <;> rfl

theorem statement_eq (h : Represents c p) : c.statement = p.statement := by
  rw [Cursor.statement, h.place_eq]
  cases p <;> rfl

theorem kind_eq (h : Represents c p) : c.kind = p.statement.map Statement.kind := by
  rw [Cursor.kind, h.statement_eq]

/-- One request: the replies agree, and the cursor still represents the position. -/
theorem answer (h : Represents c p) (request : Request) :
    (c.answer request).1 = (p.answer request).1 ∧
      Represents (c.answer request).2 (p.answer request).2 := by
  cases request with
  | advance => exact h.advance
  | rewind =>
      refine ⟨rfl, ?_⟩
      show Represents (Cursor.ofLines c.lines) .beforeFirst
      rw [h.lines_eq]
      exact ofLines lines
  | hasMore => exact ⟨congrArg Reply.flag h.hasMore_eq, h⟩
  | kind => exact ⟨congrArg Reply.kind h.kind_eq, h⟩
  | symbol =>
      refine ⟨congrArg Reply.bytes ?_, h⟩
      rw [Cursor.symbol, h.statement_eq]
      rfl
  | dest => exact ⟨congrArg (fun text => Reply.bytes (Fields.ofText text).dest) h.text_eq, h⟩
  | comp => exact ⟨congrArg (fun text => Reply.bytes (Fields.ofText text).comp) h.text_eq, h⟩
  | jump => exact ⟨congrArg (fun text => Reply.bytes (Fields.ofText text).jump) h.text_eq, h⟩
  | lineNumber => exact ⟨congrArg Reply.number h.lineNumber_eq, h⟩
  | text => exact ⟨congrArg Reply.bytes h.text_eq, h⟩

end Represents

namespace Cursor

theorem hasMore_iff_advance (c : Cursor) :
    c.hasMore = true ↔ ∃ next, c.advance = (.ok (), next) := by
  rw [hasMore, advance]
  cases seek (c.passed + 1) c.ahead <;> simp

/-- Whatever is asked of a cursor from the beginning on, in any order, it replies as its position
does. It has more exactly if the next move succeeds, it knows no kind exactly before the first
line and past the last, and once past the last line it stays there until it is rewound. Kept as an
index and a text it replies the same, and the two always fit each other. -/
theorem replies_as_position (lines : List Bytes) (requests : List Request) :
    let cursor := Request.serve answer (ofLines lines) requests
    let position := Request.serve Position.answer (.beforeFirst : Position lines) requests
    let indexed := Request.serve LineIndex.answer (LineIndex.ofLines lines) requests
    cursor.1 = position.1 ∧
      cursor.2.lineNumber = position.2.lineNumber ∧ cursor.2.text = position.2.text ∧
      (cursor.2.hasMore = true ↔ ∃ next, cursor.2.advance = (.ok (), next)) ∧
      (cursor.2.kind = .error (.bare .noMoreInstructions) ↔
        position.2 = .beforeFirst ∨ position.2 = .exhausted) ∧
      (position.2 = .exhausted → ∀ more : List Request, .rewind ∉ more →
        (Request.serve Position.answer position.2 more).2 = .exhausted) ∧
      indexed.1 = position.1 ∧ indexed.2.Kept ∧
      indexed.2.current = cursor.2.place.index lines ∧ indexed.2.text = cursor.2.text := by
  intro cursor position indexed
  obtain ⟨hreplies, hlast⟩ := Request.serve_of_answer Represents.answer (Represents.ofLines lines)
    requests
  obtain ⟨hindexed, hfollows⟩ := Request.serve_of_answer LineIndex.Follows.answer
    (LineIndex.Follows.ofLines lines) requests
  refine ⟨hreplies, hlast.lineNumber_eq, hlast.text_eq, hasMore_iff_advance _, ?_, ?_,
    hindexed.trans hreplies, hfollows.kept, ?_, hfollows.text_eq⟩
  · rw [hlast.kind_eq]
    exact Position.kind_eq_bare_iff _
  · intro hexhausted more hmore
    rw [hexhausted]
    exact Position.exhausted_of_no_rewind hmore
  · rw [hfollows.current_eq, hlast.lines_eq]

end Cursor

end HackAssembly
