import StructPadding.File
import StructPadding.Path
import StructPadding.Text.Utf8

/-!
# Directories

A directory with everything in it, to read from and write to. Paths start in the directory and are
followed part by part. What lies around it is not known, except that there is something.
-/

namespace StructPadding

/-- The entries of a directory at any depth, each under the names that lead to it, innermost first.
-/
structure Directory where
  entries : List (List String × Entry) := []

namespace Directory

/-- Where a path has led so far. -/
inductive Spot where
  /-- A directory around this one. -/
  | outside
  | entry (names : List String) (e : Entry)
  /-- A name that is not taken, in a directory that is there. -/
  | free (names : List String)
deriving DecidableEq

/-- How many bytes a name may have. -/
def nameLimit : Nat :=
  255

/-- How many bytes a path may have. -/
def pathLimit : Nat :=
  4095

/-- What stands under some names. -/
def entry? (d : Directory) (names : List String) : Option Entry :=
  if names.isEmpty then some .directory else d.entries.lookup names

/-- Follows one part of a path inside a directory. -/
def enter (d : Directory) (names : List String) (part : String) : Except FileError Spot :=
  if part = "" ∨ part = "." then .ok (.entry names .directory)
  else if part = ".." then
    match names with
    | [] => .ok .outside
    | _ :: outer => .ok (.entry outer .directory)
  else if nameLimit < Text.Utf8.size part.toList then .error .nameTooLong
  else
    match d.entry? (part :: names) with
    | some e => .ok (.entry (part :: names) e)
    | none => .ok (.free (part :: names))

/-- Follows one part of a path. -/
def follow (d : Directory) (spot : Spot) (part : String) : Except FileError Spot :=
  match spot with
  | .outside => if part ∈ ["", ".", ".."] then .ok .outside else .error .notFound
  | .entry _ (.file _) => .error .notDirectory
  | .entry names .directory => d.enter names part
  | .free names => if part = "" then .ok (.free names) else .error .notFound

/-- Where a path leads. -/
def locate (d : Directory) (path : String) : Except FileError Spot :=
  if path.toList.contains '\x00' then .error .zeroByte
  else if pathLimit < Text.Utf8.size path.toList then .error .nameTooLong
  else
    match Path.parts path with
    | [] => .error .notFound
    | first :: rest =>
      if first ≠ "" then (first :: rest).foldlM d.follow (.entry [] .directory)
      else if rest.isEmpty then .error .notFound
      else rest.foldlM d.follow .outside

/-- What a path leads to. -/
def look (d : Directory) : Lookup := fun path =>
  match d.locate path with
  | .ok .outside => .ok .directory
  | .ok (.entry _ e) => .ok e
  | .ok (.free _) => .error .notFound
  | .error e => .error e

/-- Puts an entry under some names, in place of what stands there. -/
def put (d : Directory) (names : List String) (e : Entry) : Directory :=
  ⟨(names, e) :: d.entries.filter fun entry => entry.1 ≠ names⟩

/-- Writes a file, new or in place of one that is there. A path that ends in a slash is refused as
that of a directory, whatever stands there. -/
def write (d : Directory) (path : String) (bytes : List UInt8) : Except FileError Directory :=
  match d.locate (Path.trimSlashes path) with
  | .error e => .error e
  | .ok spot =>
    if Path.isSlashed path then .error .isDirectory
    else
      match spot with
      | .entry names (.file _) | .free names => .ok (d.put names (.file bytes))
      | .outside | .entry _ .directory => .error .isDirectory

/-- Makes a directory inside one that is there. -/
def make (d : Directory) (path : String) : Except FileError Directory :=
  match d.locate path with
  | .ok (.free names) => .ok (d.put names .directory)
  | .ok _ => .error .alreadyExists
  | .error e => .error e

/-- Makes a directory unless it is there. -/
def ensure (d : Directory) (path : String) : Except FileError Directory :=
  match d.make path, d.look path with
  | .error _, .ok .directory => .ok d
  | made, _ => made

/-- What comes of changing a directory: the change, or the directory as it was. -/
def settle (d : Directory) : Except FileError Directory → Except FileError Unit × Directory
  | .ok changed => (.ok (), changed)
  | .error e => (.error e, d)

/-- Makes a directory and those around it unless they are there. The components of its path come
last one first. Directories that were made stay when one of those inside them cannot be made. -/
def ensureAll (d : Directory) : List Path.Component → Except FileError Unit × Directory
  | [] => (.ok (), d)
  | c :: outer =>
    let path := Path.join (c :: outer).reverse
    match d.ensure path with
    | .error .notFound =>
      match d.ensureAll outer with
      | (.ok (), around) => around.settle (around.ensure path)
      | failed => failed
    | made => d.settle made

end Directory

end StructPadding
