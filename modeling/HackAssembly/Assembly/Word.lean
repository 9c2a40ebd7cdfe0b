import HackAssembly.Text.Numeral

/-!
# Emitted words

An emitted word is the text of a machine word with the source line it came from. Words are written
one per line, or laid out in a listing next to their source.
-/

namespace HackAssembly

/-- A machine word in binary digits, with the number and the text of its source line. -/
structure Word where
  code : Bytes
  line : Int
  source : Bytes
  deriving DecidableEq, Repr

namespace Word

def codeLine (w : Word) : Bytes := w.code ++ [Bytes.newline]

/-- The line of a listing: the line number in five columns or more, the code and the source. -/
def listingLine (w : Word) : Bytes :=
  Bytes.padLeft 5 (Numeral.ofInt w.line) ++ ascii "  " ++ w.code ++ ascii "  " ++ w.source ++
    [Bytes.newline]

end Word

def codeText (words : List Word) : Bytes := words.flatMap Word.codeLine

/-- Every word next to the source line that it came from. -/
def listing (words : List Word) : Bytes := words.flatMap Word.listingLine

end HackAssembly
