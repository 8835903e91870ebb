import StructPadding.Json.Scan
import StructPadding.Text.Quoted

/-!
# Decoding

What a reading should hold, told from left to right. A record is an object with its fields in any
order, unknown ones skipped, or a list of its fields in the order of declaration. A decoder of
such a value takes the number of lists and objects that may be nested in it.
-/

namespace StructPadding.Json

/-- Why a reading does not hold what it should. -/
inductive DecodeError where
  | fault (fault : Fault)
  /-- A value of the wrong kind. -/
  | wrongType (got : Node) (wanted : String)
  | outOfRange (value : Int) (wanted : String)
  | duplicateField (name : String)
  | missingField (name : String)
  /-- A list too short for the fields of a record. -/
  | wrongLength (length : Nat) (record : String) (fields : Nat)
  | unknownVariant (name : String) (known : List String)
  /-- A variant that has a value, given by its name alone. -/
  | bareVariant
  /-- A descriptor that neither has a size nor is a record with fields. -/
  | noSize (field : String)

/-- A value as a complaint calls it. -/
def Node.describe : Node → String
  | null => "null"
  | bool value => s!"boolean `{value}`"
  | int value => s!"integer `{value}`"
  | float negative value => s!"floating point `{value.text negative}`"
  | text value => "string " ++ Text.quoted value
  | list .. => "sequence"
  | object .. => "map"
  | spoiled _ fault => fault.message
  | broken _ kept _ => kept.message
  | missing fault => fault.message

namespace DecodeError

def message : DecodeError → String
  | fault f => f.message
  | wrongType got wanted => s!"invalid type: {got.describe}, expected {wanted}"
  | outOfRange value wanted => s!"invalid value: integer `{value}`, expected {wanted}"
  | duplicateField name => s!"duplicate field `{name}`"
  | missingField name => s!"missing field `{name}`"
  | wrongLength length record fields =>
    let elements := if fields = 1 then "1 element" else s!"{fields} elements"
    s!"invalid length {length}, expected struct {record} with {elements}"
  | unknownVariant name known =>
    let names := " or ".intercalate (known.map fun k => s!"`{k}`")
    s!"unknown variant `{name}`, expected {names}"
  | bareVariant => "invalid type: unit variant, expected newtype variant"
  | noSize field => s!"field `{field}` has no size"

end DecodeError

/-- The outcome of decoding. -/
abbrev Decoded (α : Type) : Type :=
  Except DecodeError α

namespace Node

/-- The complaint about a value that should have been something else. -/
def unlike (n : Node) (wanted : String) : DecodeError :=
  match n with
  | spoiled _ fault => .fault fault
  | broken _ kept _ => .fault kept
  | missing fault => .fault fault
  | n => .wrongType n wanted

/-- Complains about a fault, if there is one. -/
def complain : Option Fault → Decoded Unit
  | none => .ok ()
  | some fault => .error (.fault fault)

def asText (n : Node) (wanted : String) : Decoded String :=
  match n with
  | text value => .ok value
  | n => .error (n.unlike wanted)

def asString (n : Node) : Decoded String :=
  n.asText "a string"

def asPath (n : Node) : Decoded String :=
  n.asText "path string"

def asBool : Node → Decoded Bool
  | bool value => .ok value
  | n => .error (n.unlike "a boolean")

/-- An integer from `low` on and below `high`. -/
def asInteger (low high : Int) (wanted : String) : Node → Decoded Int
  | int value => if low ≤ value ∧ value < high then .ok value else .error (.outOfRange value wanted)
  | n => .error (n.unlike wanted)

def asInt64 (n : Node) : Decoded Int64 :=
  (n.asInteger (-0x8000000000000000) 0x8000000000000000 "i64").map Int64.ofInt

def asUInt64 (n : Node) : Decoded UInt64 :=
  (n.asInteger 0 UInt64.size "u64").map fun value => UInt64.ofNat value.toNat

def asByte (n : Node) : Decoded UInt8 :=
  (n.asInteger 0 UInt8.size "u8").map fun value => UInt8.ofNat value.toNat

/-- A count or a line number. -/
def asCount (n : Node) : Decoded Nat :=
  (n.asInteger 0 UInt64.size "usize").map Int.toNat

def asNull : Node → Decoded Unit
  | null => .ok ()
  | n => .error (n.unlike "unit")

/-- A value, or null for its absence. -/
def asOption {α : Type} (decode : Node → Decoded α) : Node → Decoded (Option α)
  | null => .ok none
  | n => (decode n).map some

/-- The items of a list, and what is wrong behind the last of them. -/
def items : Node → Decoded (List Node × Decoded Unit)
  | list items ending => .ok (items, complain ending.listFault?)
  | n => .error (n.unlike "a sequence")

/-- The complaint about a value that should be a list and may not be entered. -/
def refuseList : Node → DecodeError
  | list .. => .fault .tooDeep
  | n => n.unlike "a sequence"

/-- A list of values of one kind. -/
def asList {α : Type} (decode : Nat → Node → Decoded α) : Nat → Node → Decoded (List α)
  | 0, n => .error n.refuseList
  | limit + 1, n => do
    let (items, close) ← n.items
    let values ← items.mapM (decode limit)
    close
    return values

end Node

/-- The fields of a record, each with its value, in the order of the text, and what is wrong behind
the last of them. -/
structure Entries where
  fields : List (String × Node)
  close : Decoded Unit

/-- The shape of a record: its name, its fields in the order of declaration, and how many of them a
list has to give. -/
structure RecordShape where
  name : String
  fields : List String
  required : Nat

namespace RecordShape

/-- The entries of a record that is written as an object. -/
def objectEntries (shape : RecordShape) (seen : List String) (ending : Ending) :
    List (Node × Node) → Entries
  | [] => ⟨[], Node.complain ending.objectFault?⟩
  | (key, value) :: members =>
    match key with
    | .text name =>
      if shape.fields.contains name then
        if seen.contains name then ⟨[], .error (.duplicateField name)⟩
        else
          let rest := objectEntries shape (name :: seen) ending members
          ⟨(name, value) :: rest.fields, rest.close⟩
      else
        match value.skipFault? with
        | some fault => ⟨[], .error (.fault fault)⟩
        | none => objectEntries shape seen ending members
    | .spoiled _ fault => ⟨[], .error (.fault fault)⟩
    | .broken _ kept _ => ⟨[], .error (.fault kept)⟩
    | _ => ⟨[], .error (.fault .keyNotString)⟩

/-- The entries of a record that is written as a list. -/
def listEntries (shape : RecordShape) (items : List Node) (ending : Ending) : Entries :=
  let close : Decoded Unit :=
    if shape.fields.length < items.length then .error (.fault .trailingCharacters)
    else if shape.fields.length = items.length then Node.complain ending.recordFault?
    else do
      Node.complain ending.listFault?
      if items.length < shape.required then
        throw (.wrongLength items.length shape.name shape.fields.length)
  ⟨shape.fields.zip items, close⟩

/-- The entries of a record. -/
def entries (shape : RecordShape) : Node → Decoded Entries
  | .object members ending => .ok (objectEntries shape [] ending members)
  | .list items ending => .ok (listEntries shape items ending)
  | n => .error (n.unlike ("struct " ++ shape.name))

/-- The complaint about a value that should be a record and may not be entered. -/
def refuse (shape : RecordShape) : Node → DecodeError
  | .object .. | .list .. => .fault .tooDeep
  | n => n.unlike ("struct " ++ shape.name)

/-- A record that is read field by field; `step` takes up one field, within what is left of the
limit. -/
def decode {σ α : Type} (shape : RecordShape) (start : σ)
    (step : Nat → σ → String × Node → Decoded σ) (finish : σ → Decoded α) : Nat → Node → Decoded α
  | 0, n => .error (shape.refuse n)
  | limit + 1, n => do
    let entries ← shape.entries n
    let parts ← entries.fields.foldlM (step limit) start
    entries.close
    finish parts

end RecordShape

/-- A field that has to be there. -/
def require {α : Type} (name : String) : Option α → Decoded α
  | some value => .ok value
  | none => .error (.missingField name)

/-- How many lists and objects a text may nest. -/
def textLimit : Nat :=
  127

/-- Decodes a whole text: one value and nothing but blanks after it. -/
def decodeText {α : Type} (decode : Nat → Node → Decoded α) (bytes : List UInt8) : Decoded α := do
  let document := read bytes
  let value ← decode textLimit document.root
  if document.trailing then throw (.fault .trailingCharacters)
  return value

/-- Decodes a value that is not limited in depth. -/
def decodeNode {α : Type} (decode : Nat → Node → Decoded α) (n : Node) : Decoded α :=
  decode n.depth n

end StructPadding.Json
