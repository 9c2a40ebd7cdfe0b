import HackAssembly.Text.Bytes

/-!
# Sources and sinks of bytes

Bytes are read from a supply and written to a sink, and both may give out. A supply that breaks
delivers nothing of use. Lines on their way to a sink are collected into blocks; a piece of a line
that is longer than a block and finds nothing collected goes to the sink by itself. A sink may
have a capacity. It takes a piece whole even where that goes beyond the capacity, and of a block as
much as there is room for; what it took it keeps.
-/

namespace HackAssembly

/-- Bytes to be read. With a limit, reading breaks once that many bytes have been delivered. -/
structure Supply where
  bytes : Bytes
  limit : Option Nat
  deriving DecidableEq, Repr

namespace Supply

/-- All bytes, if they can be read to the end. A break right at the end is still met. -/
def contents? (s : Supply) : Option Bytes :=
  match s.limit with
  | none => some s.bytes
  | some n => if n ≤ s.bytes.length then none else some s.bytes

end Supply

/-- What reaches a sink at once. -/
inductive Chunk
  | block (bytes : Bytes)
  | piece (bytes : Bytes)
  deriving DecidableEq, Repr

namespace Chunk

/-- How many bytes are collected before they go to the sink. -/
def blockSize : Nat := 4096

def bytes : Chunk → Bytes
  | block bytes => bytes
  | piece bytes => bytes

/-- The chunks in which lines reach a sink after the bytes collected so far. -/
def ofLines (collected : Bytes) : List Bytes → List Chunk
  | [] => if collected.isEmpty then [] else [block collected]
  | line :: rest =>
    if collected.length + line.length ≤ blockSize then
      ofLines (collected ++ line) rest
    else if collected.isEmpty then
      piece line :: ofLines [] rest
    else
      let fill := blockSize - collected.length
      let left := line.drop fill
      block (collected ++ line.take fill) ::
        (if left.length ≤ blockSize then ofLines left rest else piece left :: ofLines [] rest)

/-- Nothing is lost or reordered on the way. -/
theorem flatMap_bytes_ofLines (collected : Bytes) (lines : List Bytes) :
    (ofLines collected lines).flatMap bytes = collected ++ lines.flatten := by
  induction lines generalizing collected with
  | nil =>
      rw [ofLines]
      split
      · simp_all
      · simp [bytes]
  | cons line rest ih =>
      rw [ofLines]
      split
      · rw [ih]
        simp
      · split
        · simp_all [bytes]
        · simp only [List.flatMap_cons, bytes]
          split
          · rw [ih, List.append_assoc, ← List.append_assoc (line.take _), List.take_append_drop]
            simp
          · rw [List.flatMap_cons, ih, bytes, List.append_assoc,
              ← List.append_assoc (line.take _), List.take_append_drop]
            simp

end Chunk

/-- Something to write to. The capacity, if there is one, is the room that is left for blocks. -/
structure Sink where
  capacity : Option Nat
  deriving DecidableEq, Repr

/-- What became of a text that was written: the bytes taken, and whether these are all. -/
structure Written where
  taken : Bytes
  complete : Bool
  deriving DecidableEq, Repr

namespace Written

/-- The same after `bytes` had been taken. -/
def after (bytes : Bytes) (w : Written) : Written := { w with taken := bytes ++ w.taken }

end Written

namespace Sink

/-- Whether there is room for `n` more bytes. -/
def hasRoom (s : Sink) (n : Nat) : Bool := s.capacity.all (n ≤ ·)

/-- The sink after `n` bytes more. One that holds more than its capacity has no room left. -/
def filled (s : Sink) (n : Nat) : Sink := ⟨s.capacity.map (· - n)⟩

/-- Takes chunks until a block does not fit, and of that block what there is room for. -/
def takeChunks (s : Sink) : List Chunk → Written
  | [] => ⟨[], true⟩
  | .piece bytes :: rest => ((s.filled bytes.length).takeChunks rest).after bytes
  | .block bytes :: rest =>
    if s.hasRoom bytes.length then ((s.filled bytes.length).takeChunks rest).after bytes
    else ⟨bytes.take (s.capacity.getD 0), false⟩

/-- Writes lines. -/
def writeLines (s : Sink) (lines : List Bytes) : Written := s.takeChunks (Chunk.ofLines [] lines)

theorem takeChunks_unbounded (chunks : List Chunk) :
    takeChunks ⟨none⟩ chunks = ⟨chunks.flatMap Chunk.bytes, true⟩ := by
  induction chunks with
  | nil => rfl
  | cons chunk rest ih =>
      cases chunk with
      | block bytes => simp [takeChunks, hasRoom, filled, ih, Written.after, Chunk.bytes]
      | piece bytes => simp [takeChunks, filled, ih, Written.after, Chunk.bytes]

/-- A sink without a capacity takes everything. -/
theorem writeLines_unbounded (lines : List Bytes) :
    writeLines ⟨none⟩ lines = ⟨lines.flatten, true⟩ := by
  rw [writeLines, takeChunks_unbounded, Chunk.flatMap_bytes_ofLines, List.nil_append]

end Sink

end HackAssembly
