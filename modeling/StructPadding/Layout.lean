import StructPadding.Field

/-!
# Layouts

A layout is a record declaration with its fields placed, and the source lines it spans.
-/

namespace StructPadding

/-- Source lines from `first` to `last`, both included and counted from 1. -/
structure LineRange where
  first : Nat
  last : Nat
deriving DecidableEq

namespace LineRange

def contains (r : LineRange) (line : Nat) : Bool :=
  r.first ≤ line && line ≤ r.last

end LineRange

/-- A declaration of a record with its fields from left to right, padding included. -/
structure Layout (ω : Type := UInt64) where
  name : String
  lines : LineRange
  fields : List (Field ω)
deriving DecidableEq

namespace Layout

variable {ω : Type}

/-- The first field of a name; padding has none. -/
def field? (l : Layout ω) (name : String) : Option (Field ω) :=
  l.fields.find? fun f => !f.isPadding && f.name == name

variable [Measure ω]

/-- The bytes of the record, padding included. -/
def size (l : Layout ω) : ω :=
  Field.totalSize l.fields

/-- The padding bytes of the record, those inside nested records included. -/
def padding (l : Layout ω) : ω :=
  Field.totalPadding l.fields

end Layout

end StructPadding
