import HackAssembly.Text.Utf8
import HackAssembly.Text.Printable

/-!
# Quoted text

Messages show a text between quotation marks on one line. Printable characters stand for
themselves; a backslash and the mark itself are escaped; the control characters that have a letter
use it; everything else is written by its hexadecimal code: `\xNN` for other ASCII controls and for
a byte that is not part of well-formed UTF-8, `\uNNNN` or `\UNNNNNNNN` for other characters.
-/

namespace HackAssembly

namespace Quoted

/-- The last `width` hexadecimal digits of `n`, in lower case. -/
def hex (width n : Nat) : Bytes :=
  (List.range width).reverse.map fun i => byte (Nat.digitChar (n / Nat.pow 16 i % 16))

/-- The letters of the control characters that have one. -/
def controlLetters : List (Char × Char) :=
  [('\x07', 'a'), ('\x08', 'b'), ('\x0c', 'f'), ('\x0a', 'n'), ('\x0d', 'r'), ('\x09', 't'),
   ('\x0b', 'v')]

/-- How a character is shown between two of `mark`. -/
def character (mark c : Char) : Bytes :=
  if c = mark ∨ c = '\\' then
    byte '\\' :: Utf8.encode c
  else if isPrintable c then
    Utf8.encode c
  else match controlLetters.lookup c with
    | some letter => [byte '\\', byte letter]
    | none =>
      if c.toNat < 0x80 then ascii "\\x" ++ hex 2 c.toNat
      else if c.toNat < 0x10000 then ascii "\\u" ++ hex 4 c.toNat
      else ascii "\\U" ++ hex 8 c.toNat

def stray (b : UInt8) : Bytes := ascii "\\x" ++ hex 2 b.toNat

/-- Appends the shown form of `s` to the reversed text `shown`. -/
def showOnto (mark : Char) (shown : Bytes) (s : Bytes) : Bytes :=
  match s with
  | [] => shown
  | b :: rest =>
    match Utf8.first? (b :: rest) with
    | none => showOnto mark ((stray b).reverse ++ shown) rest
    | some c =>
      showOnto mark ((character mark c).reverse ++ shown) (rest.drop ((Utf8.encode c).length - 1))
termination_by s.length
decreasing_by
  · simp
  · simp only [List.length_cons, List.length_drop]
    omega

end Quoted

def doubleMark : Char := '\x22'

def singleMark : Char := '\x27'

/-- A text between double quotation marks. -/
def quote (s : Bytes) : Bytes :=
  byte doubleMark :: (Quoted.showOnto doubleMark [] s).reverse ++ [byte doubleMark]

/-- A character between single quotation marks. -/
def quoteChar (c : Char) : Bytes :=
  byte singleMark :: Quoted.character singleMark c ++ [byte singleMark]

end HackAssembly
