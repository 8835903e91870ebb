/-!
# Paths

Paths are texts with slashes. Empty parts and parts of a single dot say nothing, except for a dot at
the very start.
-/

namespace StructPadding.Path

/-- A part of a path that says something. -/
inductive Component where
  | root
  | here
  | up
  | name (s : String)
deriving DecidableEq

/-- How a component is written, the root apart, which is the slash before the others. -/
def Component.text : Component → String
  | root => ""
  | here => "."
  | up => ".."
  | name s => s

/-- The parts of a path between slashes. -/
def parts (path : String) : List String :=
  (path.toList.splitOn '/').map String.ofList

/-- Whether a path ends in a slash, so that it can only be that of a directory. -/
def isSlashed (path : String) : Bool :=
  path.toList.getLast? == some '/'

/-- The path without the slashes at its end, unless it is all slashes. -/
def trimSlashes (path : String) : String :=
  match path.toList.reverse.dropWhile (· == '/') with
  | [] => path
  | kept => String.ofList kept.reverse

/-- What a part says, unless it is at the very start. -/
def component? (part : String) : Option Component :=
  if part = "" ∨ part = "." then none
  else if part = ".." then some .up
  else some (.name part)

/-- The components of a path. -/
def components (path : String) : List Component :=
  match parts path with
  | [] => []
  | first :: rest =>
    let rooted := path.toList.head? == some '/'
    let start :=
      if rooted then [.root]
      else if first = "." then [.here]
      else (component? first).toList
    start ++ rest.filterMap component?

/-- The components of the directory a path lies in; neither the root nor an empty path has one. -/
def parent? (path : String) : Option (List Component) :=
  match (components path).getLast? with
  | none => none
  | some .root => none
  | some _ => some (components path).dropLast

/-- The path with these components. -/
def join : List Component → String
  | .root :: cs => "/" ++ "/".intercalate (cs.map Component.text)
  | cs => "/".intercalate (cs.map Component.text)

/-- The characters after the last dot of a name, unless there is no other character before it. -/
def extensionOf? (name : String) : Option String :=
  let backwards := name.toList.reverse
  let ending := backwards.takeWhile (· ≠ '.')
  match backwards.drop (ending.length + 1) with
  | [] => none
  | _ :: _ => some (String.ofList ending.reverse)

/-- The extension of the name a path ends in. -/
def extension? (path : String) : Option String :=
  match (components path).getLast? with
  | some (.name s) => extensionOf? s
  | _ => none

/-- Whether a path lies in a directory `vendor`, directly or not. -/
def isVendored (path : String) : Bool :=
  match parent? path with
  | some directory => directory.contains (.name "vendor")
  | none => false

end StructPadding.Path
