import HackAssembly.Build.Batch
import HackAssembly.CommandLine.Arguments

/-!
# The command

Reads the arguments and builds the files that they name.
-/

namespace HackAssembly

/-- Why a command failed. -/
inductive CommandError
  | usage (e : UsageError)
  | batch (e : BatchError)
  deriving DecidableEq, Repr

namespace CommandError

def message : CommandError → Bytes
  | usage e => e.message
  | batch e => e.message

end CommandError

/-- What a command did: the store afterwards, the entries of the log that its verbosity shows, what
it printed, and why it failed. -/
structure CommandRun where
  store : Store
  log : List LogEntry
  printed : Bytes
  failure? : Option CommandError

/-- Runs a command in a working directory, with the choices that decide in which order files are
finished if several are built at once. -/
def runCommand (kit : Toolkit) (store : Store) (choices : List Nat) (arguments : List Bytes) :
    CommandRun :=
  match Arguments.read kit arguments with
  | .error e => ⟨store, [], [], some (.usage e)⟩
  | .ok ⟨options, files⟩ =>
    if options.help then ⟨store, [], kit.usage, none⟩
    else if files.isEmpty then ⟨store, [], [], some (.usage .noFiles)⟩
    else
      let (batch, printed) := buildBatch kit.renderSymbols store none
        ⟨options.output, options.jobs, ⟨options.listing, options.symbols⟩⟩ choices files
      ⟨batch.store, batch.log.filter (LogEntry.shown options.verbosity), printed,
        batch.failure?.map .batch⟩

namespace CommandRun

/-- The log of the whole program, which ends with the failure. -/
def fullLog (r : CommandRun) : List LogEntry :=
  match r.failure? with
  | some e => r.log ++ [.failed e.message]
  | none => r.log

/-- The exit code of the program. -/
def exitCode (r : CommandRun) : Nat := if r.failure?.isSome then 1 else 0

end CommandRun

end HackAssembly
