import HackAssembly.Assembly.Program
import HackAssembly.Assembly.Notice
import HackAssembly.SymbolTable

/-!
# Labels

The first pass binds every label to the number of instructions that stand before it. A label may be
declared again, and may have the name of a predefined symbol; the last declaration wins, and both
are worth a warning.
-/

namespace HackAssembly

/-- What the first pass knows after some statements. -/
structure LabelScan where
  /-- The number of instructions so far. -/
  instructions : Nat
  /-- The line of the last declaration of each label so far. -/
  declared : Std.ExtTreeMap Bytes Nat
  symbols : SymbolTable
  log : Array Notice

namespace LabelScan

def start (symbols : SymbolTable) : LabelScan := ⟨0, ∅, symbols, #[]⟩

/-- What declaring a label gives rise to. -/
def notices (s : LabelScan) (line : Nat) (name : Bytes) : List Notice :=
  (match s.declared[name]? with
    | some earlier => [.redeclared line name earlier]
    | none => []) ++
  (if isPredefined name then [.shadows line name] else []) ++
  [.labelBound name s.instructions]

def declare (s : LabelScan) (line : Nat) (name : Bytes) : LabelScan :=
  { instructions := s.instructions
    declared := s.declared.insert name line
    symbols := s.symbols.insert name s.instructions
    log := s.log ++ s.notices line name }

def step (s : LabelScan) (i : Item) : LabelScan :=
  match i.statement with
  | .label name => s.declare i.line.number name
  | _ => { s with instructions := s.instructions + 1 }

/-- Takes in one statement and refuses none. -/
def accept (s : LabelScan) (i : Item) : LabelScan × Option Failure := (s.step i, none)

end LabelScan

end HackAssembly
