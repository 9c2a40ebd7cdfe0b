import HackAssembly.LogLine
import HackAssembly.Text.Numeral

/-!
# Notices

What the assembler has to say about a program besides its words: warnings about labels, and a trace
of every binding. Warnings are always shown, the trace from verbosity two on.
-/

namespace HackAssembly

inductive Notice
  /-- A label was declared before; its last earlier declaration is on line `earlier`. -/
  | redeclared (line : Nat) (name : Bytes) (earlier : Nat)
  /-- A label has the name of a predefined symbol. -/
  | shadows (line : Nat) (name : Bytes)
  | labelBound (name : Bytes) (address : Int)
  | variableBound (name : Bytes) (address : Int)
  deriving DecidableEq, Repr

/-- The verbosity from which on bindings are traced. -/
def traceVerbosity : Int := 2

namespace Notice

def severity : Notice → Severity
  | redeclared .. | shadows .. => .warning
  | labelBound .. | variableBound .. => .info

def reporter : Notice → Reporter
  | redeclared .. | shadows .. | labelBound .. => .labelling
  | variableBound .. => .allocation

/-- Whether the notice appears at a verbosity, which counts as a signed 32-bit number. -/
def shown (verbosity : Int) (n : Notice) : Bool :=
  n.severity = .warning || traceVerbosity ≤ verbosity.bmod 4294967296

def message : Notice → Bytes
  | redeclared line name earlier =>
    ascii "line " ++ Numeral.ofNat line ++ ascii ": label " ++ name ++
      ascii " already declared at line " ++ Numeral.ofNat earlier ++
      ascii ", last declaration wins"
  | shadows line name =>
    ascii "line " ++ Numeral.ofNat line ++ ascii ": label " ++ name ++
      ascii " shadows the predefined symbol"
  | labelBound name address =>
    ascii "label " ++ name ++ ascii " -> " ++ Numeral.ofInt address
  | variableBound name address =>
    ascii "variable " ++ name ++ ascii " -> " ++ Numeral.ofInt address

def line (n : Notice) : LogLine := ⟨n.severity, n.reporter, n.message⟩

end Notice

end HackAssembly
