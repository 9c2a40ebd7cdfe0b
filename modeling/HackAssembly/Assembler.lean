import HackAssembly.Assembly.Emission
import HackAssembly.Assembly.Labels
import HackAssembly.Assembly.Pass

/-!
# The assembler

Two passes over the statements of a program: the first binds the labels, the second emits the words
and places the variables. An assembler holds the symbols of the last program that it was given,
whether that was assembled or refused; it forgets them before the next one.
-/

namespace HackAssembly

/-- The symbols bound so far and the address of the next variable. -/
structure Assembler where
  symbols : SymbolTable
  nextVariable : Nat
  deriving DecidableEq

/-- What assembling a program gives: the assembler afterwards, the words or the failure, and all
notices in order. -/
structure Outcome where
  assembler : Assembler
  result : Except Failure (List Word)
  log : List Notice

/-- The lines of the log that appear at a verbosity. -/
def Outcome.logged (o : Outcome) (verbosity : Int) : List LogLine :=
  (o.log.filter (Notice.shown verbosity)).map Notice.line

namespace Assembler

def new : Assembler := ⟨SymbolTable.predefined, firstVariable⟩

/-- Forgets the symbols of earlier programs. -/
def reset (asm : Assembler) : Assembler :=
  { asm with symbols := SymbolTable.predefined, nextVariable := firstVariable }

/-- Assembles the lines of a program. Both passes use one cursor, which is sent back in between. -/
def assemble (asm : Assembler) (lines : List Bytes) : Outcome :=
  let asm := asm.reset
  let first := (Cursor.ofLines lines).pass LabelScan.accept (LabelScan.start asm.symbols)
  let labels := first.state
  match first.failure? with
  | some failure =>
    { assembler := { asm with symbols := labels.symbols }
      result := .error failure
      log := labels.log.toList }
  | none =>
    let second := first.cursor.rewind.pass Emission.step
      (Emission.start labels.symbols asm.nextVariable)
    let emission := second.state
    { assembler := ⟨emission.symbols, emission.nextVariable⟩
      result := emission.result second.failure?
      log := labels.log.toList ++ emission.log.toList }

end Assembler

end HackAssembly
