import HackAssembly.Files.Store
import HackAssembly.Stream

/-!
# Saving lines

Lines are saved step by step: a file is created, or the one that is there is emptied; then the lines
are written to its end, in the chunks in which they are collected. When a chunk is refused the file
is removed again.
-/

namespace HackAssembly.Store

/-- Creates an empty file at a path or empties the one that is there; a device stays what it is. -/
def createEmpty (s : Store) (path : Bytes) : Except FileError (Location × Store) :=
  match s.create path with
  | .error e => .error e
  | .ok l => .ok (l, if s.node? l = some .full then s else s.insert l (.file []))

/-- Writes bytes to the end of the file at a location. A full device takes none. -/
def append (s : Store) (l : Location) (bytes : Bytes) : Except FileFault Store :=
  match s.node? l with
  | some (.file data) => .ok (s.insert l (.file (data ++ bytes)))
  | some .full => if bytes.isEmpty then .ok s else .error .noSpace
  | some .directory => .error .isDirectory
  | none => .error .notExist

/-- Writes chunks in order, up to the first that is refused. -/
def appendChunks (s : Store) (l : Location) : List Chunk → Store × Option FileFault
  | [] => (s, none)
  | chunk :: rest =>
    match s.append l chunk.bytes with
    | .error fault => (s, some fault)
    | .ok s => s.appendChunks l rest

/-- Saves lines at a path. A file that cannot be written to the end is removed. -/
def saveLines (s : Store) (path : Bytes) (lines : List Bytes) : Store × Except SaveError Unit :=
  match s.createEmpty path with
  | .error e => (s, .error (.notCreated e))
  | .ok (l, created) =>
    match created.appendChunks l (Chunk.ofLines [] lines) with
    | (written, none) => (written, .ok ())
    | (written, some fault) =>
      (written.erase l, .error (.notWritten path ⟨.writing, path, fault⟩))

/-! ### The steps together -/

theorem node?_ne_directory_of_create {s : Store} {path : Bytes} {l : Location}
    (h : s.create path = .ok l) : s.node? l ≠ some .directory := by
  unfold create at h
  split at h
  · cases h
  · split at h
    · cases h
    · rename_i hfile
      split at h
      · cases h
      · cases h
        exact fun hdirectory => hfile (Or.inr hdirectory)

/-- A file takes every chunk. -/
theorem appendChunks_file {s : Store} {l : Location} (h : s.node? l ≠ some .directory)
    (data : Bytes) (chunks : List Chunk) :
    (s.insert l (.file data)).appendChunks l chunks =
      (s.insert l (.file (data ++ chunks.flatMap Chunk.bytes)), none) := by
  induction chunks generalizing data with
  | nil => rw [appendChunks, List.flatMap_nil, List.append_nil]
  | cons chunk rest ih =>
      have hnode : (s.insert l (.file data)).node? l = some (.file data) := by
        rw [node?_insert_of_ne_directory h, if_pos rfl]
      rw [appendChunks, append, hnode]
      dsimp only
      rw [insert_insert, ih, List.flatMap_cons, List.append_assoc]

/-- A full device refuses the first chunk that is not empty, and does not change. -/
theorem appendChunks_full {s : Store} {l : Location} (h : s.node? l = some .full)
    (chunks : List Chunk) :
    s.appendChunks l chunks =
      (s, if (chunks.flatMap Chunk.bytes).isEmpty then none else some .noSpace) := by
  induction chunks with
  | nil => rfl
  | cons chunk rest ih =>
      rw [appendChunks, append, h, List.flatMap_cons]
      cases hbytes : chunk.bytes with
      | nil => exact ih
      | cons b bytes => rfl

/-- Saving line by line amounts to saving the whole text at once. -/
theorem saveLines_eq_save (s : Store) (path : Bytes) (lines : List Bytes) :
    s.saveLines path lines = s.save path lines.flatten := by
  rw [saveLines, createEmpty, save]
  cases hcreate : s.create path with
  | error e => rfl
  | ok l =>
      have htext := Chunk.flatMap_bytes_ofLines [] lines
      rw [List.nil_append] at htext
      dsimp only
      by_cases hfull : s.node? l = some .full
      · rw [if_pos hfull, if_pos hfull, appendChunks_full hfull, htext]
        cases lines.flatten.isEmpty <;> rfl
      · rw [if_neg hfull, if_neg hfull,
          appendChunks_file (node?_ne_directory_of_create hcreate), htext, List.nil_append]

end HackAssembly.Store
