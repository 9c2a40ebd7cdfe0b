import HackAssembly.Source.Line
import HackAssembly.Source.Statement

/-!
# The instruction cursor

A cursor walks over the lines of a program and stops only at those that hold an instruction. It
stands before the first line, on an instruction, or past the last line, and can be sent back to the
beginning at any time.
-/

namespace HackAssembly

inductive Place
  | start
  | on (line : SourceLine)
  | finished
  deriving DecidableEq, Repr

/-- A position in a program: the lines ahead, how many are passed, and where it stands. -/
structure Cursor where
  lines : List Bytes
  ahead : List Bytes
  passed : Nat
  place : Place
  deriving DecidableEq, Repr

namespace Cursor

def ofLines (lines : List Bytes) : Cursor := ⟨lines, lines, 0, .start⟩

/-- The first instruction among lines of which the first has the given number, and the lines
after it. -/
def seek (number : Nat) : List Bytes → Option (SourceLine × List Bytes)
  | [] => none
  | line :: rest =>
    match SourceLine.ofLine? number line with
    | some found => some (found, rest)
    | none => seek (number + 1) rest

def hasMore (c : Cursor) : Bool := (seek (c.passed + 1) c.ahead).isSome

/-- Moves to the next instruction. When there is none, moves past the last line and fails. -/
def advance (c : Cursor) : Except Cause Unit × Cursor :=
  match seek (c.passed + 1) c.ahead with
  | some (found, rest) =>
    (.ok (), { c with ahead := rest, passed := found.number, place := .on found })
  | none =>
    (.error .noMoreInstructions,
      { c with ahead := [], passed := c.lines.length, place := .finished })

theorem length_lt_of_seek {number : Nat} {ahead rest : List Bytes} {found : SourceLine}
    (h : seek number ahead = some (found, rest)) : rest.length < ahead.length := by
  induction ahead generalizing number with
  | nil => cases h
  | cons line ahead ih =>
      rw [seek] at h
      split at h
      · cases h
        simp
      · exact Nat.lt_succ_of_lt (ih h)

/-- A move to an instruction leaves fewer lines ahead. -/
theorem length_ahead_lt_of_advance {c next : Cursor} (h : c.advance = (.ok (), next)) :
    next.ahead.length < c.ahead.length := by
  rw [advance] at h
  split at h
  · rename_i hseek
    cases h
    exact length_lt_of_seek hseek
  · cases h

def rewind (c : Cursor) : Cursor := ofLines c.lines

/-- The number of the current line: zero before the first, one more than there are lines past the
last. -/
def lineNumber (c : Cursor) : Nat :=
  match c.place with
  | .start => 0
  | .on line => line.number
  | .finished => c.lines.length + 1

/-- The text of the current instruction, empty off every instruction. -/
def text (c : Cursor) : Bytes :=
  match c.place with
  | .on line => line.text
  | _ => []

def statement (c : Cursor) : Except Failure Statement :=
  match c.place with
  | .on line =>
    match Statement.parse line.text with
    | .ok statement => .ok statement
    | .error how => .error (.atLine line.number line.text (.malformed how))
  | _ => .error (.bare .noMoreInstructions)

def kind (c : Cursor) : Except Failure Kind := c.statement.map Statement.kind

/-- The symbol of the current instruction, empty where there is none. -/
def symbol (c : Cursor) : Bytes :=
  match c.statement with
  | .ok statement => statement.symbol
  | .error _ => []

/-- The fields of the current text, whatever its shape. -/
def fields (c : Cursor) : Fields := Fields.ofText c.text

end Cursor

end HackAssembly
