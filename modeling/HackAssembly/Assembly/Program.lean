import HackAssembly.Source.Line
import HackAssembly.Source.Statement

/-!
# Programs

A program is a list of statements, each with the line that it stands on. What goes wrong with a
statement is reported with the number and the text of its line.
-/

namespace HackAssembly

structure Item where
  line : SourceLine
  statement : Statement
  deriving DecidableEq, Repr

namespace SourceLine

def failure (l : SourceLine) (cause : Cause) : Failure := .atLine l.number l.text cause

end SourceLine

namespace Item

/-- Whether the statement becomes a machine word. -/
def isInstruction (i : Item) : Bool :=
  match i.statement with
  | .label _ => false
  | _ => true

def label? (i : Item) : Option Bytes :=
  match i.statement with
  | .label name => some name
  | _ => none

def target? (i : Item) : Option Bytes :=
  match i.statement with
  | .load target => some target
  | _ => none

end Item

end HackAssembly
