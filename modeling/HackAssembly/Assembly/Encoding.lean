import HackAssembly.Failure
import HackAssembly.Machine.Instruction
import HackAssembly.Source.Statement

/-!
# Encoding addresses and computations

From a resolved address or the written fields of a computation to a machine word. The fields are
looked up in the order operation, destination, jump, and the first unknown one is reported.
-/

namespace HackAssembly

def encodeAddress (address : Int) : Except Cause Code :=
  if 0 ≤ address ∧ address ≤ Code.largest then
    .ok (Instruction.load (BitVec.ofInt 16 address)).encode
  else
    .error (.addressTooWide address)

/-- The word that loads the number a signed numeral denotes. -/
def encodeNumeral (numeral : Bytes) : Except Cause Code :=
  let value := Numeral.toInt numeral
  if Numeral.fits64 value then encodeAddress value else .error (.numeralTooLong numeral)

def encodeFields (fields : Fields) : Except Cause Code :=
  match Comp.ofMnemonic? fields.comp with
  | none => .error (.unknownMnemonic .comp fields.comp)
  | some comp =>
    match Dest.ofMnemonic? fields.dest with
    | none => .error (.unknownMnemonic .dest fields.dest)
    | some dest =>
      match Jump.ofMnemonic? fields.jump with
      | none => .error (.unknownMnemonic .jump fields.jump)
      | some jump => .ok (Instruction.compute comp dest jump).encode

end HackAssembly
