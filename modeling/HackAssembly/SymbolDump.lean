import HackAssembly.SymbolTable
import HackAssembly.Text.Quoted

/-!
# Symbol dumps

One way to print the symbols of a file: as a literal of a list of records. What is built and saved
does not depend on it, so the modules about building take any other way as well.
-/

namespace HackAssembly

namespace SymbolDump

/-- Up to this many symbols are printed one by one. -/
def longest : Nat := 1024

def listType : Bytes := ascii "[]assembler.SymbolEntry"

def entry (b : Binding) : Bytes :=
  ascii "  assembler.SymbolEntry\x7b\n" ++
    ascii "    Name:    " ++ quote b.name ++ ascii ",\n" ++
    ascii "    Address: " ++ Numeral.ofInt b.address ++ ascii ",\n" ++
    ascii "  \x7d,\n"

/-- The symbols in order; a list that is too long is only hinted at. -/
def render (entries : List Binding) : Bytes :=
  if entries.length ≤ longest then
    listType ++ ascii "\x7b\n" ++ entries.flatMap entry ++ ascii "\x7d\n"
  else
    listType ++ ascii "\x7b...\x7d\n"

end SymbolDump

end HackAssembly
