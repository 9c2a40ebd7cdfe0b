import HackAssembly.Text.Numeral

/-!
# Integers on the command line

Two ways to write an integer: in base ten only, or as a literal whose first characters may choose
the base (`0x`, `0o`, `0b`, or a leading zero for base eight) and whose digits may be separated by
underscores. Digits are read from the left, and the first thing wrong is the one reported.
-/

namespace HackAssembly

/-- What is wrong with an integer. -/
inductive IntegerFault
  | malformed
  | outOfRange
  deriving DecidableEq, Repr

namespace IntegerLiteral

/-- The underscore between digits. -/
def separator : UInt8 := byte '_'

/-- The lower case of an ASCII letter. -/
def lower (b : UInt8) : UInt8 := b ||| 0x20

/-- The value of a digit in bases up to 36. -/
def digitValue? (b : UInt8) : Option Nat :=
  if isDigit b then some (b.toNat - 48)
  else if byte 'a' ≤ lower b ∧ lower b ≤ byte 'z' then some ((lower b).toNat - 87)
  else none

/-- Continues a number with more digits. The number may not reach `2 ^ 64` on the way. -/
def readDigits (base : Nat) (separated : Bool) (n : Nat) : Bytes → Except IntegerFault Nat
  | [] => .ok n
  | b :: rest =>
    if separated && b == separator then readDigits base separated n rest
    else match digitValue? b with
      | none => .error .malformed
      | some d =>
        if base ≤ d then .error .malformed
        else if 2 ^ 64 ≤ n * base + d then .error .outOfRange
        else readDigits base separated (n * base + d) rest

/-- Whether every separator stands between two digits; `digitBefore` tells whether a digit comes
before the text. -/
def wellSeparated (digitBefore : Bool) : Bytes → Bool
  | [] => true
  | b :: rest =>
    if b == separator then
      digitBefore && rest.head?.any (· != separator) && wellSeparated false rest
    else
      wellSeparated true rest

/-- The base that an unsigned literal chooses, and its digits. -/
def chooseBase (s : Bytes) : Nat × Bytes :=
  match s with
  | zero :: mark :: digit :: rest =>
    if zero = byte '0' then
      if lower mark = byte 'b' then (2, digit :: rest)
      else if lower mark = byte 'o' then (8, digit :: rest)
      else if lower mark = byte 'x' then (16, digit :: rest)
      else (8, mark :: digit :: rest)
    else (10, s)
  | zero :: rest => if zero = byte '0' then (8, rest) else (10, s)
  | [] => (10, s)

/-- The number that an unsigned literal in a chosen base denotes. -/
def readUnsigned (s : Bytes) : Except IntegerFault Nat :=
  let (base, digits) := chooseBase s
  match readDigits base true 0 digits with
  | .error fault => .error fault
  | .ok n =>
    if wellSeparated (digits.length < s.length) digits then .ok n else .error .malformed

/-- Splits off a sign; the first component tells whether it is a minus sign. -/
def splitSign (s : Bytes) : Bool × Bytes :=
  if s.head? = some (byte '-') then (true, s.tail)
  else if s.head? = some (byte '+') then (false, s.tail)
  else (false, s)

/-- A signed 64-bit integer from a sign and a text read by `read`. -/
def readSigned (read : Bytes → Except IntegerFault Nat) (s : Bytes) : Except IntegerFault Int :=
  let (negative, digits) := splitSign s
  if digits.isEmpty then .error .malformed
  else match read digits with
    | .error fault => .error fault
    | .ok n =>
      let value : Int := if negative then -n else n
      if Numeral.fits64 value then .ok value else .error .outOfRange

end IntegerLiteral

/-- Reads an integer literal in a base of its choice. -/
def readInteger (s : Bytes) : Except IntegerFault Int :=
  IntegerLiteral.readSigned IntegerLiteral.readUnsigned s

/-- Reads an integer in base ten. -/
def readDecimal (s : Bytes) : Except IntegerFault Int :=
  IntegerLiteral.readSigned (IntegerLiteral.readDigits 10 false 0) s

end HackAssembly
