import StructPadding.Descriptor.Json
import StructPadding.Layout
import StructPadding.Placement

/-!
# Manifests

A manifest lists structs with the descriptors of their fields, as found by another tool. It is read
from JSON and laid out.
-/

namespace StructPadding

namespace LineRange

def toJson (r : LineRange) : Json :=
  .object [("start", .int r.first), ("end", .int r.last)]

/-- Decodes a range in which at most `limit` lists and objects are nested. -/
def ofNode : Nat → Json.Node → Json.Decoded LineRange :=
  Json.RecordShape.decode ⟨"LineRange", ["start", "end"], 2⟩
    ((none, none) : Option Nat × Option Nat)
    (fun _ (first, last) (key, n) =>
      if key = "start" then n.asCount.map fun line => (some line, last)
      else n.asCount.map fun line => (first, some line))
    fun (first, last) => do
      let first ← Json.require "start" first
      let last ← Json.require "end" last
      return ⟨first, last⟩

end LineRange

namespace Manifest

/-- A struct as a manifest has it. -/
structure Struct where
  name : String
  lines : LineRange
  fields : List Descriptor

namespace Struct

def toJson (s : Struct) : Json :=
  .object [("name", .string s.name), ("lines", s.lines.toJson),
    ("fields", .array (Descriptor.toJsons s.fields))]

/-- The parts of a struct that were read so far. -/
structure Parts where
  name : Option String := none
  lines : Option LineRange := none
  fields : Option (List Descriptor) := none

/-- Decodes a struct in which at most `limit` lists and objects are nested. -/
def ofNode : Nat → Json.Node → Json.Decoded Struct :=
  Json.RecordShape.decode ⟨"ManifestStruct", ["name", "lines", "fields"], 3⟩ ({} : Parts)
    (fun limit p (key, n) =>
      if key = "name" then n.asString.map fun s => { p with name := some s }
      else if key = "lines" then (LineRange.ofNode limit n).map fun r => { p with lines := some r }
      else (Descriptor.ofNodes limit n).map fun ds => { p with fields := some ds })
    fun p => do
      let name ← Json.require "name" p.name
      let lines ← Json.require "lines" p.lines
      let fields ← Json.require "fields" p.fields
      return ⟨name, lines, fields⟩

/-- A struct of a manifest, laid out. -/
def layout (rule : RecordRule) (s : Struct) : Except LayoutError Layout := do
  let fields ← place rule s.fields 0
  return ⟨s.name, s.lines, fields⟩

end Struct

end Manifest

/-- The structs of a manifest. -/
structure Manifest where
  structs : List Manifest.Struct

namespace Manifest

def toJson (m : Manifest) : Json :=
  .object [("structs", .array (m.structs.map Struct.toJson))]

/-- Decodes a manifest in which at most `limit` lists and objects are nested. -/
def ofNode : Nat → Json.Node → Json.Decoded Manifest :=
  Json.RecordShape.decode ⟨"Manifest", ["structs"], 1⟩ (none : Option (List Struct))
    (fun limit _ (_, n) => (Json.Node.asList Struct.ofNode limit n).map some)
    fun structs => do
      return ⟨← Json.require "structs" structs⟩

/-- The structs of a manifest, laid out in order. -/
def layouts (rule : RecordRule) (m : Manifest) : Except LayoutError (List Layout) :=
  m.structs.mapM (Struct.layout rule)

end Manifest

end StructPadding
