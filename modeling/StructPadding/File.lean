/-!
# Files

What a path leads to. A program that reads files is given a lookup, so that it can be run on files
that are made up as well as on those of a disk.
-/

namespace StructPadding

/-- Why a path does not lead where it should. -/
inductive FileError where
  | notFound
  | alreadyExists
  | notDirectory
  | isDirectory
  | nameTooLong
  /-- A path with a zero byte, which no file can have. -/
  | zeroByte
  /-- Another complaint of the system, in its own words. -/
  | other (text : String)
deriving DecidableEq

def FileError.message : FileError → String
  | notFound => "No such file or directory (os error 2)"
  | alreadyExists => "File exists (os error 17)"
  | notDirectory => "Not a directory (os error 20)"
  | isDirectory => "Is a directory (os error 21)"
  | nameTooLong => "File name too long (os error 36)"
  | zeroByte => "file name contained an unexpected NUL byte"
  | other text => text

/-- What stands under a name. -/
inductive Entry where
  | file (bytes : List UInt8)
  | directory
deriving DecidableEq

/-- What each path leads to. -/
abbrev Lookup :=
  String → Except FileError Entry

namespace Lookup

def finds (look : Lookup) (path : String) : Bool :=
  match look path with
  | .ok _ => true
  | .error _ => false

/-- The bytes of the file at a path. -/
def read (look : Lookup) (path : String) : Except FileError (List UInt8) :=
  match look path with
  | .ok (.file bytes) => .ok bytes
  | .ok .directory => .error .isDirectory
  | .error e => .error e

end Lookup

end StructPadding
