import StructPadding.Descriptor
import StructPadding.Json.Decode

/-!
# Descriptors in JSON

A descriptor is written with its name, type, size and alignment, and a record with its fields too.
In reading, a size may be left out of a record with fields, and counts as zero then.
-/

namespace StructPadding.Descriptor

mutual

def toJson : Descriptor → Json
  | leaf name typeName size align =>
    .object [("name", .string name), ("type", .string typeName), ("size", .int size.toInt),
      ("align", .int align.toInt)]
  | record name typeName size align children =>
    .object [("name", .string name), ("type", .string typeName), ("size", .int size.toInt),
      ("align", .int align.toInt), ("nested", .array (toJsons children))]

def toJsons : List Descriptor → List Json
  | [] => []
  | d :: ds => d.toJson :: toJsons ds

end

/-- The fields of a descriptor that were read so far. -/
structure Parts where
  name : Option String := none
  typeName : Option String := none
  size : Option Int64 := none
  align : Option Int64 := none
  nested : Option (List Descriptor) := none

def shape : Json.RecordShape :=
  ⟨"RawFieldSpec", ["name", "type", "size", "align", "nested"], 4⟩

/-- The descriptor made of its parts. -/
def ofParts (p : Parts) : Json.Decoded Descriptor := do
  let name ← Json.require "name" p.name
  let typeName ← Json.require "type" p.typeName
  let align ← Json.require "align" p.align
  match p.size, p.nested with
  | some size, none => return .leaf name typeName size align
  | some size, some children => return .record name typeName size align children
  | none, some (child :: children) => return .record name typeName 0 align (child :: children)
  | none, _ => throw (.noSize name)

/-- Reads one field of a descriptor; `children` reads the list of its own fields. -/
def readField (children : Json.Node → Json.Decoded (List Descriptor)) (p : Parts) :
    String × Json.Node → Json.Decoded Parts
  | ("name", n) => n.asString.map fun s => { p with name := some s }
  | ("type", n) => n.asString.map fun s => { p with typeName := some s }
  | ("size", n) => (n.asOption Json.Node.asInt64).map fun i => { p with size := i }
  | ("align", n) => n.asInt64.map fun i => { p with align := some i }
  | (_, n) => (n.asOption children).map fun ds => { p with nested := ds }

mutual

/-- Decodes a descriptor in which at most `limit` lists and objects are nested. -/
def ofNode : Nat → Json.Node → Json.Decoded Descriptor
  | 0, n => .error (shape.refuse n)
  | limit + 1, n => do
    let entries ← shape.entries n
    let parts ← entries.fields.foldlM (readField (ofNodes limit)) {}
    entries.close
    ofParts parts

/-- Decodes a list of descriptors. -/
def ofNodes : Nat → Json.Node → Json.Decoded (List Descriptor)
  | 0, n => .error (n.refuseList)
  | limit + 1, n => do
    let (items, close) ← n.items
    let ds ← items.mapM (ofNode limit)
    close
    return ds

end

end StructPadding.Descriptor
