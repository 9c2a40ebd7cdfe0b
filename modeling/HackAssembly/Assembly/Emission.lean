import HackAssembly.Assembly.Encoding
import HackAssembly.Assembly.Notice
import HackAssembly.Assembly.Program
import HackAssembly.Assembly.Word
import HackAssembly.SymbolTable

/-!
# Emission

The second pass turns every instruction into a word. A target that is not a numeral and not bound
yet is a variable and takes the next free address, before it is known whether that address fits in
a word. The pass stops at the first instruction that cannot be encoded and keeps what it has bound.
-/

namespace HackAssembly

/-- Where variables are placed from. -/
def firstVariable : Nat := 16

/-- What the second pass has done after some statements. -/
structure Emission where
  symbols : SymbolTable
  nextVariable : Nat
  words : Array Word
  log : Array Notice

namespace Emission

def start (symbols : SymbolTable) (nextVariable : Nat) : Emission :=
  ⟨symbols, nextVariable, #[], #[]⟩

/-- Binds a name that is not bound yet to the next free address. -/
def allocate (e : Emission) (name : Bytes) : Emission :=
  if e.symbols.contains name then e
  else
    { symbols := e.symbols.insert name e.nextVariable
      nextVariable := e.nextVariable + 1
      words := e.words
      log := e.log.push (.variableBound name e.nextVariable) }

def load (e : Emission) (target : Bytes) : Emission × Except Cause Code :=
  if isSignedDigits target then
    (e, encodeNumeral target)
  else
    let e := e.allocate target
    (e, (e.symbols.address target).bind encodeAddress)

/-- The word of a statement; a label has none. -/
def encode (e : Emission) : Statement → Emission × Option (Except Cause Code)
  | .load target => let (e, code) := e.load target; (e, some code)
  | .compute fields => (e, some (encodeFields fields))
  | .label _ => (e, none)

def push (e : Emission) (line : SourceLine) (code : Code) : Emission :=
  { e with words := e.words.push ⟨code.digits, line.number, line.text⟩ }

def step (e : Emission) (i : Item) : Emission × Option Failure :=
  match e.encode i.statement with
  | (e, none) => (e, none)
  | (e, some (.ok code)) => (e.push i.line code, none)
  | (e, some (.error cause)) => (e, some (i.line.failure cause))

/-- The words of the pass, unless a failure ended it early. -/
def result (e : Emission) : Option Failure → Except Failure (List Word)
  | some failure => .error failure
  | none => .ok e.words.toList

end Emission

end HackAssembly
