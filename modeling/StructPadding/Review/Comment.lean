import StructPadding.Config
import StructPadding.Extraction
import StructPadding.Partition
import StructPadding.Review.Revision

/-!
# Review comments

A change to a file gets a comment for each struct it touches that could do with less padding. What
cannot be analysed is noted and passed over, and a file in a vendored directory or without a head
version is not looked at. A breakdown on one struct ends the whole review.
-/

namespace StructPadding.Review

/-- A change to a file: what it was before, unless it is new, and what it is now, unless it is gone.
-/
structure FileChange where
  path : String
  base : Option (List UInt8)
  head : Option (List UInt8)
deriving DecidableEq

/-- A comment on a line of a file. -/
structure Comment where
  file : String
  line : Nat
  text : String
deriving DecidableEq

/-- The layouts that are sound. -/
def soundLayouts : List Layout → Journal (List Layout)
  | [] => pure []
  | l :: ls => do
    match l.check with
    | .ok _ =>
      let rest ← soundLayouts ls
      return l :: rest
    | .error e =>
      .note .warn s!"skipping struct {l.name} with invalid layout: {e.message}"
      soundLayouts ls

/-- The sound layouts of the base version of a file. If they cannot be extracted there are none. -/
def baseLayouts (config : Config) (change : FileChange) : Journal (List Layout) := do
  match change.base with
  | none => return []
  | some base =>
    match ← extract config.target config.recordRule change.path base with
    | .ok layouts => soundLayouts layouts
    | .error e =>
      .note .warn
        s!"unable to get structs from base revision of {change.path}: {e.message change.path}"
      return []

/-- The comments that suggestions make for a file. -/
def commentsOf (path : String) : List Suggestion → Journal (List Comment)
  | [] => pure []
  | s :: ss => do
    .note .debug s!"comment was added with suggestions for struct {s.name}"
    let rest ← commentsOf path ss
    return ⟨path, s.line, s.comment Go.fence⟩ :: rest

/-- The comments on a file whose structs are known. -/
def commentsOn (config : Config) (change : FileChange) (head : List UInt8)
    (headLayouts : List Layout) : Journal (Except Breakdown (List Comment)) := do
  let names := ", ".intercalate (headLayouts.map Layout.name)
  .note .debug ("structs found in head: " ++ names)
  let before ← baseLayouts config change
  match ← revisions (change.base.getD []) head before headLayouts with
  | .error e => return .error (.inverted e)
  | .ok changed =>
    let names := ", ".intercalate (changed.map fun r => r.head.name)
    .note .debug ("these structs changed: " ++ names)
    match ← consultAll config.recordRule config.reportRegressions changed with
    | .error e => return .error (.column e)
    | .ok suggestions =>
      let comments ← commentsOf change.path suggestions
      return .ok comments

/-- The comments on one changed file. -/
def commentsFor (config : Config) (change : FileChange) :
    Journal (Except Breakdown (List Comment)) := do
  match change.head with
  | none => return .ok []
  | some head =>
    if config.excludeVendored && Path.isVendored change.path then
      .note .debug s!"skipping vendored file {change.path}"
      return .ok []
    else
      .note .info s!"analyzing {change.path}"
      match ← extract config.target config.recordRule change.path head with
      | .error e =>
        .note .error
          s!"unable to get structs from head revision of {change.path}: {e.message change.path}"
        return .ok []
      | .ok layouts =>
        let headLayouts ← soundLayouts layouts
        commentsOn config change head headLayouts

/-- The comments on the changes that are left, file by file. -/
def reviewEach (config : Config) : List FileChange → Journal (Except Breakdown (List Comment))
  | [] => return .ok []
  | change :: changes => do
    match ← commentsFor config change with
    | .error e => return .error e
    | .ok comments =>
      match ← reviewEach config changes with
      | .error e => return .error e
      | .ok rest => return .ok (comments ++ rest)

/-- The comments on a change of several files, in their order. -/
def review (config : Config) (changes : List FileChange) :
    Journal (Except Breakdown (List Comment)) := do
  .note .debug s!"[TIMER] review of {changes.length} files started"
  reviewEach config changes

namespace FileChange

/-- A version of a file in JSON: its bytes, or null. -/
def versionJson : Option (List UInt8) → Json
  | some bytes => .array (bytes.map fun b => .int b.toNat)
  | none => .null

def toJson (c : FileChange) : Json :=
  .object [("path", .string c.path), ("base", versionJson c.base), ("head", versionJson c.head)]

/-- The parts of a change that were read so far. -/
structure Parts where
  path : Option String := none
  base : Option (List UInt8) := none
  head : Option (List UInt8) := none

/-- Decodes a change in which at most `limit` lists and objects are nested. -/
def ofNode : Nat → Json.Node → Json.Decoded FileChange :=
  Json.RecordShape.decode ⟨"FileChange", ["path", "base", "head"], 3⟩ ({} : Parts)
    (fun limit p (key, n) =>
      let version := n.asOption (Json.Node.asList (fun _ => Json.Node.asByte) limit)
      if key = "path" then n.asPath.map fun s => { p with path := some s }
      else if key = "base" then version.map fun v => { p with base := v }
      else version.map fun v => { p with head := v })
    fun p => do
      let path ← Json.require "path" p.path
      return ⟨path, p.base, p.head⟩

end FileChange

namespace Comment

def toJson (c : Comment) : Json :=
  .object [("file", .string c.file), ("line", .int c.line), ("text", .string c.text)]

/-- The parts of a comment that were read so far. -/
structure Parts where
  file : Option String := none
  line : Option Nat := none
  text : Option String := none

/-- Decodes a comment in which at most `limit` lists and objects are nested. -/
def ofNode : Nat → Json.Node → Json.Decoded Comment :=
  Json.RecordShape.decode ⟨"Comment", ["file", "line", "text"], 3⟩ ({} : Parts)
    (fun _ p (key, n) =>
      if key = "file" then n.asPath.map fun s => { p with file := some s }
      else if key = "line" then n.asCount.map fun line => { p with line := some line }
      else n.asString.map fun s => { p with text := some s })
    fun p => do
      let file ← Json.require "file" p.file
      let line ← Json.require "line" p.line
      let text ← Json.require "text" p.text
      return ⟨file, line, text⟩

end Comment

end StructPadding.Review
