import HackAssembly.CommandLine.Command
import HackAssembly.SymbolDump

/-!
# The program

The outer layer: it loads what stands at the paths of a command, runs the command, and carries out
on the file system what the command did to the store. Files are built one after another, whatever
the number of jobs.
-/

namespace HackAssembly.Main

def bytesOf (s : String) : Bytes := s.toUTF8.data.toList

def textOf (b : Bytes) : String := (String.fromUTF8? ⟨b.toArray⟩).getD ""

/-- What is printed when help is asked for. -/
def usage : Bytes :=
  ascii "hackasm translates programs written in the hack assemble language into\n" ++
  ascii "the 16 bits binary instructions executed by the hack CPU. Every file.asm given on\n" ++
  ascii "the command line produces file.hack, one binary word per line.\n\n" ++
  ascii "Several files are assembled in parallel. Output is only written for files that\n" ++
  ascii "assemble without error.\n\n" ++
  ascii "Usage:\n  hackasm [flags] file.asm...\n"

/-- The flags for the log besides the verbosity. -/
def logFlags : List LogFlag :=
  [⟨ascii "alsologtostderr", true⟩, ⟨ascii "log_backtrace_at", false⟩, ⟨ascii "log_dir", false⟩,
    ⟨ascii "log_link", false⟩, ⟨ascii "logbuflevel", false⟩, ⟨ascii "logtostderr", true⟩,
    ⟨ascii "stderrthreshold", false⟩, ⟨ascii "vmodule", false⟩]

/-- A switch has to be given a truth value. -/
def logRefusal? (f : LogFlag) (value : Bytes) : Option Bytes :=
  if f.isSwitch && !(readTruthValue value).isOk then some (ascii "parse error") else none

def toolkit : Toolkit where
  renderSymbols := SymbolDump.render
  usage := usage
  processors := 1
  logFlags := logFlags
  logRefusal? := logRefusal?

/-- The paths that a command reads or writes. -/
def touched (arguments : List Bytes) : List Bytes :=
  match Arguments.read toolkit arguments with
  | .ok ⟨options, files⟩ => files ++ files.map (outputPath · options.output)
  | .error _ => []

/-- A location with the directories that lead to it, the outermost first. -/
def ancestry : Location → List Location
  | [] => []
  | name :: parent => ancestry parent ++ [name :: parent]

/-- The path to a location from the root. -/
def pathText (l : Location) : String := textOf (byte '/' :: l.path)

/-- Adds what stands at a location to a store. -/
def load (store : Store) (location : Location) : IO Store := do
  let place := (← IO.currentDir) / pathText location
  if ← place.isDir then
    return store.insert location .directory
  else if ← place.pathExists then
    return store.insert location (.file (← IO.FS.readBinFile place).data.toList)
  else
    return store

/-- Writes the file at a location if it differs from what was loaded. -/
def carryOut (before after : Store) (location : Location) : IO Unit := do
  if before.node? location ≠ after.node? location then
    if let some (.file data) := after.node? location then
      IO.FS.writeBinFile ((← IO.currentDir) / pathText location) ⟨data.toArray⟩

def writeLine (out : IO.FS.Stream) (line : Bytes) : IO Unit :=
  out.write ⟨(line ++ [Bytes.newline]).toArray⟩

def run (arguments : List Bytes) : IO UInt32 := do
  let started ← IO.monoMsNow
  let home := Path.location [] (bytesOf (← IO.currentDir).toString)
  let locations := (touched arguments).map (Path.location home)
  let before ← (locations.flatMap ancestry).foldlM load (Store.empty home)
  let command := runCommand toolkit before [] arguments
  locations.forM (carryOut before command.store)
  let elapsed := bytesOf (toString ((← IO.monoMsNow) - started) ++ "ms")
  let errors ← IO.getStderr
  command.fullLog.forM fun entry => writeLine errors (entry.line elapsed).render
  (← IO.getStdout).write ⟨command.printed.toArray⟩
  return command.exitCode.toUInt32

end HackAssembly.Main

def main (args : List String) : IO UInt32 :=
  HackAssembly.Main.run (args.map HackAssembly.Main.bytesOf)
