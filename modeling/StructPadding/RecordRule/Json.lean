import StructPadding.Json.Decode
import StructPadding.Placement

/-!
# Record rules in JSON

The natural rule is a word; a fixed rule is an object with the number of bytes.
-/

namespace StructPadding.RecordRule

def toJson : RecordRule → Json
  | fixed bytes => .object [("fixed", .int bytes.toNat)]
  | natural => .string "natural"

/-- Whether a variant of this name has a value. -/
def variant (name : String) : Json.Decoded Bool :=
  if name = "fixed" then .ok true
  else if name = "natural" then .ok false
  else .error (.unknownVariant name ["fixed", "natural"])

/-- Decodes the only member of an object: the variant and its value. -/
def ofMember (key value : Json.Node) : Json.Decoded RecordRule := do
  let name ← key.asString
  if ← variant name then
    return .fixed (← value.asUInt64)
  else do
    value.asNull
    return .natural

/-- Decodes a rule: a word, or an object with one member. -/
def ofNode (limit : Nat) : Json.Node → Json.Decoded RecordRule
  | .text name => do
    if ← variant name then throw .bareVariant
    return .natural
  | .spoiled true fault => .error (.fault fault)
  | .broken true kept _ => .error (.fault kept)
  | .missing fault => .error (.fault fault)
  | .object members ending =>
    if limit = 0 then .error (.fault .tooDeep)
    else
      match members with
      | [] => .error (.fault (if ending = .ended then .endInObject else .expectedValue))
      | (key, value) :: more => do
        let rule ← ofMember key value
        match more, ending with
        | [], .closed => return rule
        | [], .ended => throw (.fault .endInObject)
        | _, _ => throw (.fault .expectedValue)
  | _ => .error (.fault .expectedValue)

end StructPadding.RecordRule
