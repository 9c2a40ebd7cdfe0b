import HackAssembly.Build.File

/-!
# Reports

What is printed about the files that have been built: a listing of the words, the symbols, or both.
How a list of symbols is printed is left open; it is a parameter `render` of a report.
-/

namespace HackAssembly

structure ReportOptions where
  listing : Bool
  symbols : Bool
  deriving DecidableEq, Repr

namespace Built

def report (render : List Binding → Bytes) (options : ReportOptions) (b : Built) : Bytes :=
  (if options.listing then b.path ++ ascii ":\n" ++ listing b.words else []) ++
  (if options.symbols then b.path ++ ascii " symbols:\n" ++ render b.symbols.entries else [])

end Built

end HackAssembly
