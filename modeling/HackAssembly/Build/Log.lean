import HackAssembly.Assembly.Notice

/-!
# The log of a build

What is reported while files are assembled. The notices of the assembler are part of it; how long
a file took is known only outside and is put in when an entry is written.
-/

namespace HackAssembly

inductive LogEntry
  | started (path : Bytes)
  | notice (n : Notice)
  | saved (path : Bytes) (words : Nat) (output : Bytes)
  | failed (message : Bytes)
  deriving DecidableEq, Repr

namespace LogEntry

def severity : LogEntry → Severity
  | notice n => n.severity
  | failed _ => .error
  | _ => .info

def reporter : LogEntry → Reporter
  | notice n => n.reporter
  | _ => .building

def shown (verbosity : Int) : LogEntry → Bool
  | notice n => n.shown verbosity
  | _ => true

/-- The text of an entry, given how long the file took. -/
def message (elapsed : Bytes) : LogEntry → Bytes
  | started path => path ++ ascii ": translating"
  | notice n => n.message
  | saved path words output =>
    path ++ ascii ": " ++ Numeral.ofNat words ++ ascii " words written to " ++ output ++
      ascii " in " ++ elapsed
  | failed message => ascii "assembly failed: " ++ message

def line (elapsed : Bytes) (e : LogEntry) : LogLine := ⟨e.severity, e.reporter, e.message elapsed⟩

end LogEntry

end HackAssembly
