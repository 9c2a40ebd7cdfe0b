import HackAssembly.SymbolTable

/-!
# What the command line takes from outside

A command prints symbols and a help text, knows how many processors there are, and passes on some
flags to the library that writes the log. None of this is its own; it is brought along as a toolkit.
-/

namespace HackAssembly

/-- A flag of the library that writes the log. -/
structure LogFlag where
  name : Bytes
  /-- Whether the flag can stand without a value. -/
  isSwitch : Bool
  deriving DecidableEq, Repr

structure Toolkit where
  /-- How a list of symbols is printed. -/
  renderSymbols : List Binding → Bytes
  /-- What is printed when help is asked for. -/
  usage : Bytes
  /-- How many processors there are, and so how many files are built at once if nothing is said. -/
  processors : Int
  logFlags : List LogFlag
  /-- Why the library refuses a value for one of its flags, if it does. -/
  logRefusal? : LogFlag → Bytes → Option Bytes

end HackAssembly
