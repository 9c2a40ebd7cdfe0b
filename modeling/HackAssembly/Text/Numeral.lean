import HackAssembly.Text.Bytes

/-!
# Decimal numerals

Recognising and reading numerals of any length, and writing numbers in base ten.
-/

namespace HackAssembly

def isDigit (b : UInt8) : Bool := byte '0' ≤ b && b ≤ byte '9'

/-- Whether `s` is a non-empty run of decimal digits. -/
def isDigits (s : Bytes) : Bool := !s.isEmpty && s.all isDigit

/-- Removes a minus sign in front of `s`. -/
def unsigned (s : Bytes) : Bytes := if s.head? = some (byte '-') then s.tail else s

/-- Whether `s` is a run of decimal digits after at most one minus sign. -/
def isSignedDigits (s : Bytes) : Bool := isDigits (unsigned s)

namespace Numeral

/-- The number that a run of decimal digits denotes. -/
def toNat (s : Bytes) : Nat := s.foldl (fun n b => 10 * n + (b.toNat - 48)) 0

/-- The integer that a run of decimal digits denotes, after at most one minus sign. -/
def toInt (s : Bytes) : Int :=
  if s.head? = some (byte '-') then -(toNat s.tail : Int) else toNat s

def ofNat (n : Nat) : Bytes := (Nat.toDigits 10 n).map byte

/-- An integer in base ten, with a minus sign when it is negative. -/
def ofInt : Int → Bytes
  | .ofNat n => ofNat n
  | .negSucc n => byte '-' :: ofNat (n + 1)

/-- Whether an integer is one of the signed 64-bit numbers. -/
def fits64 (n : Int) : Bool := -9223372036854775808 ≤ n && n ≤ 9223372036854775807

end Numeral

end HackAssembly
