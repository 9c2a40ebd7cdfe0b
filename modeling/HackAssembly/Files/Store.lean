import HackAssembly.Files.Fault
import Std.Data.ExtTreeMap

/-!
# File stores

A store is a tree of files and a working directory in it, from which paths that do not begin at the
root are followed. Besides regular files and directories a store may hold full devices: such a
device can be opened and closed, but takes no byte. Two stores with the same working directory and
the same nodes at the same locations are equal.
-/

namespace HackAssembly

inductive Node
  | file (data : Bytes)
  | directory
  | full
  deriving DecidableEq, Repr

/-- A place in the tree: the names that lead to it from the root, the innermost first. -/
abbrev Location := List Bytes

namespace Path

def parentName : Bytes := ascii ".."

def selfName : Bytes := ascii "."

def longestName : Nat := 255

/-- Paths of this length and longer are refused. -/
def lengthBound : Nat := 4096

def names (path : Bytes) : List Bytes := (path.splitOn (byte '/')).filter (!·.isEmpty)

def beginsAtRoot (path : Bytes) : Bool := path.head? == some (byte '/')

def endsInSlash (path : Bytes) : Bool := path.getLast? == some (byte '/')

def endsInOverlongName (path : Bytes) : Bool :=
  (names path).getLast?.any (longestName < ·.length)

/-- Where one more name leads from a directory. The name `..` leads back to the parent, and the root
is its own parent. -/
def follow (dir : Location) (name : Bytes) : Location :=
  if name = selfName then dir
  else if name = parentName then dir.tail
  else name :: dir

/-- Where a path starts from. -/
def origin (home : Location) (path : Bytes) : Location := if beginsAtRoot path then [] else home

/-- Where a path leads in a working directory, whether there is something or not. -/
def location (home : Location) (path : Bytes) : Location :=
  (names path).foldl follow (origin home path)

end Path

namespace Location

/-- The names joined by slashes, the outermost first. -/
def path (l : Location) : Bytes := [byte '/'].intercalate l.reverse

/-- The location as seen from a directory that it lies in. -/
def below? (home l : Location) : Option Location :=
  if home.isSuffixOf l && home.length < l.length then some (l.take (l.length - home.length))
  else none

end Location

/-- The nodes of a tree by location, and the working directory. -/
structure Store where
  home : Location
  nodes : Std.ExtTreeMap Location Node
  deriving DecidableEq

namespace Store

def empty (home : Location) : Store := ⟨home, ∅⟩

/-- Where a path leads. -/
def locate (s : Store) (path : Bytes) : Location := Path.location s.home path

/-- The node at a location. The working directory is always there, and so are the directories
that it lies in. -/
def node? (s : Store) (l : Location) : Option Node :=
  if l.isSuffixOf s.home then some .directory else s.nodes[l]?

def insert (s : Store) (l : Location) (n : Node) : Store := { s with nodes := s.nodes.insert l n }

def erase (s : Store) (l : Location) : Store := { s with nodes := s.nodes.erase l }

@[simp]
theorem home_insert (s : Store) (l : Location) (n : Node) : (s.insert l n).home = s.home := rfl

@[simp]
theorem home_erase (s : Store) (l : Location) : (s.erase l).home = s.home := rfl

/-- Where there is no directory, there may be another node or none, but not the working directory
or one that it lies in. -/
theorem not_isSuffixOf_home {s : Store} {l : Location} (h : s.node? l ≠ some .directory) :
    l.isSuffixOf s.home = false := by
  cases hhome : l.isSuffixOf s.home with
  | false => rfl
  | true => exact absurd (if_pos hhome) h

/-- Inserting changes one location only. -/
theorem node?_insert_of_ne_directory {s : Store} {l : Location}
    (h : s.node? l ≠ some .directory) (n : Node) (other : Location) :
    (s.insert l n).node? other = if l = other then some n else s.node? other := by
  have hl := not_isSuffixOf_home h
  rw [node?, node?, home_insert, insert, Std.ExtTreeMap.getElem?_insert]
  simp only [Std.LawfulEqCmp.compare_eq_iff_eq]
  by_cases hother : l = other
  · subst hother
    simp [hl]
  · simp [hother]

theorem node?_erase_of_ne_directory {s : Store} {l : Location}
    (h : s.node? l ≠ some .directory) (other : Location) :
    (s.erase l).node? other = if l = other then none else s.node? other := by
  have hl := not_isSuffixOf_home h
  rw [node?, node?, home_erase, erase, Std.ExtTreeMap.getElem?_erase]
  simp only [Std.LawfulEqCmp.compare_eq_iff_eq]
  by_cases hother : l = other
  · subst hother
    simp [hl]
  · simp [hother]

/-- The last node put at a location is the one that counts. -/
theorem insert_insert (s : Store) (l : Location) (m n : Node) :
    (s.insert l m).insert l n = s.insert l n := by
  rw [insert, insert, insert]
  congr 1
  apply Std.ExtTreeMap.ext_getElem?
  intro other
  simp only [Std.ExtTreeMap.getElem?_insert]
  split <;> rfl

/-- Nodes at different locations can be put there in any order. -/
theorem insert_comm (s : Store) {l k : Location} (h : l ≠ k) (m n : Node) :
    (s.insert l m).insert k n = (s.insert k n).insert l m := by
  rw [insert, insert, insert, insert]
  congr 1
  apply Std.ExtTreeMap.ext_getElem?
  intro other
  simp only [Std.ExtTreeMap.getElem?_insert, Std.LawfulEqCmp.compare_eq_iff_eq]
  by_cases hl : l = other
  · have hk : k ≠ other := fun hk => h (hl.trans hk.symm)
    simp [hl, hk]
  · simp [hl]

/-- Puts directories at a location and above it where there is nothing. -/
def makeDirectories (s : Store) : Location → Store
  | [] => s
  | name :: parent =>
    let s := s.makeDirectories parent
    if (s.node? (name :: parent)).isNone then s.insert (name :: parent) .directory else s

/-- Puts a node at a path, with the directories that lead to it. -/
def put (s : Store) (path : Bytes) (n : Node) : Store :=
  let l := s.locate path
  (s.makeDirectories l.tail).insert l n

/-- Everything below the working directory with its path from there, ordered by path. -/
def entries (s : Store) : List (Bytes × Node) :=
  let below := s.nodes.toList.filterMap fun (l, n) =>
    (Location.below? s.home l).map fun l => (l.path, n)
  below.mergeSort fun a b => (compare a.1 b.1).isLE

/-! ### Resolving paths -/

/-- Follows names from a directory. Every name but the last has to lead to a directory, and the
last is not looked up. -/
def walk (s : Store) (dir : Location) : List Bytes → Except FileFault Location
  | [] => .ok dir
  | [name] => .ok (Path.follow dir name)
  | name :: rest =>
    if Path.longestName < name.length then .error .nameTooLong
    else match s.node? (Path.follow dir name) with
      | none => .error .notExist
      | some .directory => s.walk (Path.follow dir name) rest
      | some _ => .error .notDirectory

def resolve (s : Store) (path : Bytes) : Except FileFault Location :=
  if 0 ∈ path then .error .invalidArgument
  else if Path.lengthBound ≤ path.length then .error .nameTooLong
  else if path.isEmpty then .error .notExist
  else s.walk (Path.origin s.home path) (Path.names path)

/-! ### Reading and saving -/

/-- The contents of the file at a path. A full device has no end and exhausts the memory. -/
def read (s : Store) (path : Bytes) : Except FileError Bytes :=
  match s.resolve path with
  | .error fault => .error ⟨.opening, path, fault⟩
  | .ok l =>
    if Path.endsInOverlongName path then .error ⟨.opening, path, .nameTooLong⟩
    else match s.node? l with
    | none => .error ⟨.opening, path, .notExist⟩
    | some .directory => .error ⟨.reading, path, .isDirectory⟩
    | some (.file data) =>
      if Path.endsInSlash path then .error ⟨.opening, path, .notDirectory⟩ else .ok data
    | some .full =>
      .error (if Path.endsInSlash path then ⟨.opening, path, .notDirectory⟩
        else ⟨.reading, path, .noMemory⟩)

inductive SaveError
  | notCreated (e : FileError)
  | notWritten (output : Bytes) (e : FileError)
  deriving DecidableEq, Repr

/-- The location at which a path can be opened for writing. That the path means a directory is
noticed before its last name is looked up. -/
def create (s : Store) (path : Bytes) : Except FileError Location :=
  match s.resolve path with
  | .error fault => .error ⟨.opening, path, fault⟩
  | .ok l =>
    if Path.endsInSlash path ∨ s.node? l = some .directory then
      .error ⟨.opening, path, .isDirectory⟩
    else if Path.endsInOverlongName path then
      .error ⟨.opening, path, .nameTooLong⟩
    else
      .ok l

/-- Writes a whole file, replacing what it held. A file that cannot be written to the end is
removed. -/
def save (s : Store) (path : Bytes) (text : Bytes) : Store × Except SaveError Unit :=
  match s.create path with
  | .error e => (s, .error (.notCreated e))
  | .ok l =>
    if s.node? l = some .full then
      if text.isEmpty then (s, .ok ())
      else (s.erase l, .error (.notWritten path ⟨.writing, path, .noSpace⟩))
    else
      (s.insert l (.file text), .ok ())

namespace SaveError

def fileError : SaveError → FileError
  | notCreated e => e
  | notWritten _ e => e

def message : SaveError → Bytes
  | notCreated e => e.message
  | notWritten output e =>
    ascii "failed to save to path: " ++ output ++ ascii ", err: " ++ e.message

end SaveError

end Store

end HackAssembly
