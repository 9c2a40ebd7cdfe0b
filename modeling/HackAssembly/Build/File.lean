import HackAssembly.Assembler
import HackAssembly.Build.Log
import HackAssembly.Files.Saving
import HackAssembly.Source.Reading

/-!
# Building one file

A source file is read, assembled and saved. The output is either complete or not there: it is
created only after the program has been assembled, and removed if it cannot be written to the end.
A build can be cancelled before it starts and before it saves.
-/

namespace HackAssembly

/-- How many times a build may ask whether it has been cancelled before the answer is yes; `none`
if it never is. -/
abbrev Cancellation := Option Nat

namespace Cancellation

/-- The answer to the question asked for the `n`-th time, counted from one. -/
def answer (c : Cancellation) (n : Nat) : Bool :=
  match c with
  | none => false
  | some before => before < n

end Cancellation

inductive BuildError
  | canceled
  | unreadable (e : FileError)
  | refused (failure : Failure)
  | unsaved (e : Store.SaveError)
  deriving DecidableEq, Repr

namespace BuildError

def message : BuildError → Bytes
  | canceled => ascii "context canceled"
  | unreadable e => e.message
  | refused failure => failure.message
  | unsaved e => e.message

end BuildError

/-- A file that has been built: its path, its words and its symbols. -/
structure Built where
  path : Bytes
  words : List Word
  symbols : SymbolTable

/-- The store after building a file, the log, and the file built or the error. -/
structure FileBuild where
  store : Store
  log : List LogEntry
  result : Except BuildError Built

def sourceExtension : Bytes := ascii ".asm"

def outputExtension : Bytes := ascii ".hack"

/-- Where the words of a source go: to the given output, or next to the source. -/
def outputPath (path output : Bytes) : Bytes :=
  if output.isEmpty then Bytes.withoutEnding path sourceExtension ++ outputExtension else output

def buildFile (store : Store) (cancellation : Cancellation) (path output : Bytes) : FileBuild :=
  if cancellation.answer 1 then ⟨store, [], .error .canceled⟩
  else
    let started := [LogEntry.started path]
    match store.read path with
    | .error e => ⟨store, started, .error (.unreadable e)⟩
    | .ok text =>
      let outcome := Assembler.new.assemble (readLines text)
      let log := started ++ outcome.log.map LogEntry.notice
      match outcome.result with
      | .error failure => ⟨store, log, .error (.refused failure)⟩
      | .ok words =>
        if cancellation.answer 2 then ⟨store, log, .error .canceled⟩
        else match store.saveLines output (words.map Word.codeLine) with
          | (store, .error e) => ⟨store, log, .error (.unsaved e)⟩
          | (store, .ok ()) =>
            ⟨store, log ++ [.saved path words.length output],
              .ok ⟨path, words, outcome.assembler.symbols⟩⟩

end HackAssembly
