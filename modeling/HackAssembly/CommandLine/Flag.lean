import HackAssembly.CommandLine.Integer
import HackAssembly.CommandLine.Toolkit
import HackAssembly.Text.Quoted

/-!
# Flags

The flags that the command line knows, with their long names and their letters, and what setting
them does. A switch can be given without a value. The flags of the library that writes the log are
among them; setting one concerns that library only, apart from the verbosity.
-/

namespace HackAssembly

/-- What the flags choose. -/
structure Options where
  /-- The output file; empty for an output next to each source. -/
  output : Bytes
  listing : Bool
  symbols : Bool
  /-- How many files may be assembled at once. -/
  jobs : Int
  verbosity : Int
  help : Bool
  deriving DecidableEq, Repr

namespace Options

/-- No flag given. -/
def default (kit : Toolkit) : Options := ⟨[], false, false, kit.processors, 0, false⟩

end Options

/-- A flag of the command line. -/
inductive Flag
  | output
  | listing
  | symbols
  | jobs
  | verbosity
  | help
  | log (f : LogFlag)
  deriving DecidableEq, Repr

/-- How the value of a flag is read. -/
inductive ValueReader
  | truthValue
  | integer
  | decimal
  deriving DecidableEq, Repr

/-- Why the value of a flag is refused: it cannot be read, or the library that the flag belongs to
does not take it. -/
inductive ValueFault
  | unreadable (reader : ValueReader) (fault : IntegerFault)
  | notTaken (reason : Bytes)
  deriving DecidableEq, Repr

namespace ValueReader

def name : ValueReader → Bytes
  | truthValue => ascii "strconv.ParseBool"
  | integer => ascii "strconv.ParseInt"
  | decimal => ascii "strconv.Atoi"

end ValueReader

namespace IntegerFault

def message : IntegerFault → Bytes
  | malformed => ascii "invalid syntax"
  | outOfRange => ascii "value out of range"

end IntegerFault

namespace ValueFault

def message (value : Bytes) : ValueFault → Bytes
  | unreadable reader fault =>
    reader.name ++ ascii ": parsing " ++ quote value ++ ascii ": " ++ fault.message
  | notTaken reason => reason

end ValueFault

/-- The spellings of a truth value. -/
def truthSpellings : List (Bytes × Bool) :=
  (["1", "t", "T", "TRUE", "true", "True"].map fun s => (ascii s, true)) ++
    ["0", "f", "F", "FALSE", "false", "False"].map fun s => (ascii s, false)

/-- Reads a truth value. -/
def readTruthValue (s : Bytes) : Except ValueFault Bool :=
  match truthSpellings.lookup s with
  | some b => .ok b
  | none => .error (.unreadable .truthValue .malformed)

namespace Flag

def all (kit : Toolkit) : List Flag :=
  [output, listing, symbols, jobs, verbosity, help] ++ kit.logFlags.map log

/-- The long name, used after two dashes. -/
def name : Flag → Bytes
  | output => ascii "output"
  | listing => ascii "listing"
  | symbols => ascii "symbols"
  | jobs => ascii "jobs"
  | verbosity => ascii "v"
  | help => ascii "help"
  | log f => f.name

/-- The letter, used after one dash. -/
def letter? : Flag → Option UInt8
  | output => some (byte 'o')
  | listing => some (byte 'l')
  | symbols => none
  | jobs => some (byte 'j')
  | verbosity => some (byte 'v')
  | help => some (byte 'h')
  | log _ => none

/-- Whether the flag can stand without a value. -/
def isSwitch : Flag → Bool
  | listing | symbols | help => true
  | log f => f.isSwitch
  | _ => false

/-- The value of a switch that stands without one. -/
def switchValue : Bytes := ascii "true"

def ofName? (kit : Toolkit) (name : Bytes) : Option Flag :=
  (all kit).find? fun f => f.name == name

def ofLetter? (kit : Toolkit) (letter : UInt8) : Option Flag :=
  (all kit).find? fun f => f.letter? == some letter

/-- The flag as messages name it. -/
def title (f : Flag) : Bytes :=
  match f.letter? with
  | some letter => ascii "-" ++ [letter] ++ ascii ", --" ++ f.name
  | none => ascii "--" ++ f.name

/-- Sets the flag to a value. -/
def set (kit : Toolkit) (f : Flag) (value : Bytes) (o : Options) : Except ValueFault Options :=
  match f with
  | output => .ok { o with output := value }
  | listing => (readTruthValue value).map fun b => { o with listing := b }
  | symbols => (readTruthValue value).map fun b => { o with symbols := b }
  | help => (readTruthValue value).map fun b => { o with help := b }
  | jobs =>
    match readInteger value with
    | .ok n => .ok { o with jobs := n }
    | .error fault => .error (.unreadable .integer fault)
  | verbosity =>
    match readDecimal value with
    | .ok n => .ok { o with verbosity := n }
    | .error fault => .error (.unreadable .decimal fault)
  | log f =>
    match kit.logRefusal? f value with
    | none => .ok o
    | some reason => .error (.notTaken reason)

end Flag

end HackAssembly
