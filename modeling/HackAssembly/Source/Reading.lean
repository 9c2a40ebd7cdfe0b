import HackAssembly.Text.Bytes

/-!
# Lines of a text

A text is cut into lines at its newlines. The last line needs no newline, and an empty rest after
the last newline is no line. Carriage returns at the end of a line belong to its terminator.
-/

namespace HackAssembly

/-- The carriage return that some terminators have before the newline. -/
def carriageReturn : UInt8 := 0x0D

def withoutReturns (line : Bytes) : Bytes :=
  (line.reverse.dropWhile (· == carriageReturn)).reverse

/-- The pieces of a text that its newlines end, and a last one that is not empty. -/
def pieces (text : Bytes) : List Bytes :=
  let parts := text.splitOn Bytes.newline
  if parts.getLast? = some [] then parts.dropLast else parts

def readLines (text : Bytes) : List Bytes := (pieces text).map withoutReturns

end HackAssembly
