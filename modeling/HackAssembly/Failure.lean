import HackAssembly.Text.Numeral
import HackAssembly.Text.Quoted

/-!
# What can go wrong in a program

A cause says which rule was broken; a failure is a cause together with the line it was found on,
if there is one. The wording of the messages is here and nowhere else.
-/

namespace HackAssembly

/-- How a line fails to have the form of an instruction. -/
inductive Malformation
  | shape
  | emptyAddress
  | emptyLabel
  deriving DecidableEq, Repr

inductive Field
  | comp
  | dest
  | jump
  deriving DecidableEq, Repr

/-- Why a program, or a request about one, is refused. -/
inductive Cause
  | malformed (how : Malformation)
  | unknownMnemonic (field : Field) (text : Bytes)
  | undefinedSymbol (name : Bytes)
  /-- An address outside `0 … 65535`. -/
  | addressTooWide (address : Int)
  /-- A numeral whose value is not even a signed 64-bit number. -/
  | numeralTooLong (text : Bytes)
  | noMoreInstructions
  deriving DecidableEq, Repr

/-- A cause, with the number and the text of the line that it was found on if it has one. -/
inductive Failure
  | bare (cause : Cause)
  | atLine (number : Nat) (text : Bytes) (cause : Cause)
  deriving DecidableEq, Repr

namespace Malformation

/-- What is said of the malformation beyond its being one. -/
def detail : Malformation → Bytes
  | shape => []
  | emptyAddress => ascii ": empty address"
  | emptyLabel => ascii ": empty label"

end Malformation

namespace Field

def name : Field → Bytes
  | comp => ascii "comp"
  | dest => ascii "dest"
  | jump => ascii "jump"

end Field

namespace Cause

def message : Cause → Bytes
  | malformed how => ascii "malformed instruction" ++ how.detail
  | unknownMnemonic field text =>
    ascii "unknown mnemonic: " ++ field.name ++ ascii " " ++ quote text
  | undefinedSymbol name => ascii "undefined symbol: " ++ name
  | addressTooWide address =>
    ascii "address out of range: " ++ Numeral.ofInt address ++ ascii " does not fit in 16 bits"
  | numeralTooLong text => ascii "address out of range: " ++ text
  | noMoreInstructions => ascii "no more instructions"

end Cause

namespace Failure

def cause : Failure → Cause
  | bare cause => cause
  | atLine _ _ cause => cause

def message : Failure → Bytes
  | bare cause => cause.message
  | atLine number text cause =>
    ascii "syntax err at line " ++ Numeral.ofNat number ++ ascii ": " ++ cause.message ++
      ascii " near " ++ quote text

end Failure

end HackAssembly
