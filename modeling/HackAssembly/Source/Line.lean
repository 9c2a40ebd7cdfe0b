import HackAssembly.Text.Blank

/-!
# Source lines

A line holds at most one instruction, surrounded by blanks and followed by a comment. A comment
starts with `//` at the beginning of the trimmed line or right after a space or a tab, so that a
name may contain `//`. The lines of a program that hold an instruction are its substantive lines;
they keep the number they have among all lines, counted from one.
-/

namespace HackAssembly

namespace Comment

def opens (b : UInt8) : Bool := b == byte ' ' || b == byte '\t'

/-- The position of the first comment in a text whose first byte has position `i`; `mayOpen` tells
whether a comment may start with that byte. -/
def startFrom (i : Nat) (mayOpen : Bool) : Bytes → Option Nat
  | [] => none
  | b :: rest =>
    if mayOpen && b == byte '/' && rest.head? == some (byte '/') then some i
    else startFrom (i + 1) (opens b) rest

def start? (s : Bytes) : Option Nat := startFrom 0 true s

end Comment

/-- The instruction on a line: what is left without the comment and the outer blanks. -/
def instructionText (line : Bytes) : Bytes :=
  let s := Blank.trim line
  match Comment.start? s with
  | none => s
  | some i => Blank.trim (s.take i)

/-- A line that holds an instruction: its number among all lines and the instruction's text. -/
structure SourceLine where
  number : Nat
  text : Bytes
  deriving DecidableEq, Repr

namespace SourceLine

/-- The numbered line, if there is an instruction on it. -/
def ofLine? (number : Nat) (line : Bytes) : Option SourceLine :=
  let text := instructionText line
  if text.isEmpty then none else some ⟨number, text⟩

end SourceLine

/-- The substantive lines of a program, in order: the number and the instruction of every line
whose instruction is not empty. -/
def substantive (lines : List Bytes) : List SourceLine :=
  ((lines.zipIdx 1).map fun (line, number) => ⟨number, instructionText line⟩).filter
    fun l => !l.text.isEmpty

end HackAssembly
