import HackAssembly.CommandLine.Flag

/-!
# Reading the arguments

Flags and files may come in any order. A long flag has its value after an equals sign or in the
next argument; letters may be grouped after one dash, and the first of them that takes a value
takes the rest of the group or the next argument. Two dashes alone end the flags; one dash alone is
a file.
-/

namespace HackAssembly

/-- Why the arguments are refused. -/
inductive UsageError
  | badFlag (argument : Bytes)
  | unknownFlag (name : Bytes)
  | unknownLetter (letter : UInt8) (group : Bytes)
  | missingValue (argument : Bytes)
  | missingLetterValue (letter : UInt8) (group : Bytes)
  | invalidValue (flag : Flag) (value : Bytes) (fault : ValueFault)
  | noFiles
  deriving DecidableEq, Repr

namespace UsageError

/-- A letter of a group between quotation marks. -/
def quoteLetter (letter : UInt8) : Bytes := quoteChar (Char.ofNat letter.toNat)

def message : UsageError → Bytes
  | badFlag argument => ascii "bad flag syntax: " ++ argument
  | unknownFlag name => ascii "unknown flag: --" ++ name
  | unknownLetter letter group =>
    ascii "unknown shorthand flag: " ++ quoteLetter letter ++ ascii " in -" ++ group
  | missingValue argument => ascii "flag needs an argument: " ++ argument
  | missingLetterValue letter group =>
    ascii "flag needs an argument: " ++ quoteLetter letter ++ ascii " in -" ++ group
  | invalidValue flag value fault =>
    ascii "invalid argument " ++ quote value ++ ascii " for " ++ quote flag.title ++
      ascii " flag: " ++ fault.message value
  | noFiles => ascii "requires at least 1 arg(s), only received 0"

end UsageError

/-- The options and the files of a command. -/
structure Arguments where
  options : Options
  files : List Bytes
  deriving DecidableEq, Repr

namespace Arguments

variable (kit : Toolkit)

/-- Groups that begin like this are meant for a test runner and are passed over. -/
def ignoredGroup : Bytes := ascii "test."

/-- Sets a flag. -/
def set (flag : Flag) (value : Bytes) (o : Options) : Except UsageError Options :=
  match flag.set kit value o with
  | .ok o => .ok o
  | .error fault => .error (.invalidValue flag value fault)

/-- Reads a group of letters. The second component tells whether the next argument was used. -/
def readGroup (next? : Option Bytes) (o : Options) : Bytes → Except UsageError (Options × Bool)
  | [] => .ok (o, false)
  | letter :: rest =>
    if ignoredGroup.isPrefixOf (letter :: rest) then .ok (o, false)
    else match Flag.ofLetter? kit letter with
      | none => .error (.unknownLetter letter (letter :: rest))
      | some flag =>
        if rest.head? = some (byte '=') ∧ 1 < rest.length then
          (set kit flag rest.tail o).map (·, false)
        else if flag.isSwitch then
          match set kit flag Flag.switchValue o with
          | .ok o => readGroup next? o rest
          | .error e => .error e
        else if !rest.isEmpty then
          (set kit flag rest o).map (·, false)
        else match next? with
          | some value => (set kit flag value o).map (·, true)
          | none => .error (.missingLetterValue letter (letter :: rest))

/-- Reads a long flag, given what follows the two dashes. -/
def readLong (argument : Bytes) (next? : Option Bytes) (o : Options) (text : Bytes) :
    Except UsageError (Options × Bool) :=
  if text.isEmpty || text.head? == some (byte '-') || text.head? == some (byte '=') then
    .error (.badFlag argument)
  else
    let assigned := Bytes.cut? (byte '=') text
    let name := (assigned.map Prod.fst).getD text
    match Flag.ofName? kit name with
    | none => .error (.unknownFlag name)
    | some flag =>
      match assigned with
      | some (_, value) => (set kit flag value o).map (·, false)
      | none =>
        if flag.isSwitch then (set kit flag Flag.switchValue o).map (·, false)
        else match next? with
          | some value => (set kit flag value o).map (·, true)
          | none => .error (.missingValue argument)

/-- Whether an argument is a file. -/
def isFile (argument : Bytes) : Bool :=
  argument.head? != some (byte '-') || argument.length == 1

/-- Reads one argument. The second component tells whether the next one was used. -/
def readOne (a : Arguments) (argument : Bytes) (next? : Option Bytes) :
    Except UsageError (Arguments × Bool) :=
  if isFile argument then
    .ok ({ a with files := a.files ++ [argument] }, false)
  else
    let flags :=
      if (ascii "--").isPrefixOf argument then
        readLong kit argument next? a.options (argument.drop 2)
      else
        readGroup kit next? a.options argument.tail
    flags.map fun (options, used) => ({ a with options := options }, used)

/-- Reads arguments after others. -/
def readMore (a : Arguments) : List Bytes → Except UsageError Arguments
  | [] => .ok a
  | argument :: rest =>
    if argument = ascii "--" then .ok { a with files := a.files ++ rest }
    else match readOne kit a argument rest.head?, rest with
      | .error e, _ => .error e
      | .ok (a, true), _ :: others => readMore a others
      | .ok (a, _), rest => readMore a rest

/-- Reads all arguments of a command. -/
def read (arguments : List Bytes) : Except UsageError Arguments :=
  readMore kit ⟨Options.default kit, []⟩ arguments

end Arguments

end HackAssembly
