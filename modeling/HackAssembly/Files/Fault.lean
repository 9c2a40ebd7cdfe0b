import HackAssembly.Text.Bytes

/-!
# File errors

Why a request about a file is refused, with the request and the path that it was made for.
-/

namespace HackAssembly

/-- Why the file system refuses a request. -/
inductive FileFault
  | notExist
  | notDirectory
  | isDirectory
  | noSpace
  | invalidArgument
  | nameTooLong
  | noMemory
  deriving DecidableEq, Repr

inductive FileRequest
  | opening
  | reading
  | writing
  deriving DecidableEq, Repr

/-- A request about a path that was refused. -/
structure FileError where
  request : FileRequest
  path : Bytes
  fault : FileFault
  deriving DecidableEq, Repr

namespace FileFault

def message : FileFault → Bytes
  | notExist => ascii "no such file or directory"
  | notDirectory => ascii "not a directory"
  | isDirectory => ascii "is a directory"
  | noSpace => ascii "no space left on device"
  | invalidArgument => ascii "invalid argument"
  | nameTooLong => ascii "file name too long"
  | noMemory => ascii "cannot allocate memory"

end FileFault

namespace FileRequest

def verb : FileRequest → Bytes
  | opening => ascii "open"
  | reading => ascii "read"
  | writing => ascii "write"

end FileRequest

namespace FileError

def message (e : FileError) : Bytes :=
  e.request.verb ++ ascii " " ++ e.path ++ ascii ": " ++ e.fault.message

end FileError

end HackAssembly
