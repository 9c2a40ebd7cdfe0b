import HackAssembly.Build.Pool
import HackAssembly.Build.Report
import HackAssembly.Text.Quoted

/-!
# Building several files

Files are built one after another, in the order in which a pool of workers finishes them; a build
counts as one step. The first failure cancels the builds after it, so that they do nothing, and it
is the failure of the whole batch. What was built is reported at the end, also after a failure.
-/

namespace HackAssembly

structure BatchOptions where
  /-- The output for a single file; empty for an output next to each source. -/
  output : Bytes
  /-- How many files may be built at once. -/
  jobs : Int
  report : ReportOptions
  deriving DecidableEq, Repr

inductive BatchError
  | sharedOutput (files : Nat)
  | notSource (path : Bytes)
  | file (path : Bytes) (e : BuildError)
  deriving DecidableEq, Repr

namespace BatchError

def message : BatchError → Bytes
  | sharedOutput files =>
    ascii "-o can only be used with a single input file, got " ++ Numeral.ofNat files
  | notSource path =>
    ascii "expected assembly file with filename ending in '.asm', got " ++ quote path
  | file path e => path ++ ascii ": " ++ e.message

end BatchError

/-- The store after a batch, the log, the files built and the failure that ended it. -/
structure Batch where
  store : Store
  log : List LogEntry
  built : List Built
  failure? : Option BatchError

namespace Batch

/-- Builds files in order. After a failure the rest is built too, but cancelled from the start. -/
def run (store : Store) (cancellation : Cancellation) (output : Bytes) : List Bytes → Batch
  | [] => ⟨store, [], [], none⟩
  | path :: rest =>
    let first := buildFile store cancellation path (outputPath path output)
    match first.result with
    | .error e =>
      let others := run first.store (some 0) output rest
      ⟨others.store, first.log ++ others.log, others.built, some (.file path e)⟩
    | .ok built =>
      let others := run first.store cancellation output rest
      ⟨others.store, first.log ++ others.log, built :: others.built, others.failure?⟩

/-- What is wrong with a batch before anything is built. -/
def refusal? (output : Bytes) (paths : List Bytes) : Option BatchError :=
  if !output.isEmpty && 1 < paths.length then some (.sharedOutput paths.length)
  else (paths.find? fun path => !Bytes.endsWith path sourceExtension).map .notSource

end Batch

/-- How many files are built at once; at least one. -/
def BatchOptions.workers (o : BatchOptions) : Nat := (max o.jobs 1).toNat

/-- Builds files as asked, and prints the report. The files are finished in the order in which the
choices let a pool finish them, and reported in the order in which they are given. -/
def buildBatch (render : List Binding → Bytes) (store : Store) (cancellation : Cancellation)
    (options : BatchOptions) (choices : List Nat) (paths : List Bytes) : Batch × Bytes :=
  match Batch.refusal? options.output paths with
  | some e => (⟨store, [], [], some e⟩, [])
  | none =>
    let order := poolOrder options.workers choices paths.zipIdx
    let batch := Batch.run store cancellation options.output (order.map Prod.fst)
    (batch, (inPosition (order.map Prod.snd) batch.built).flatMap
      (Built.report render options.report))

end HackAssembly
