/-!
# Layout errors

What can be wrong with field descriptors, or with fields that claim to be placed.
-/

namespace StructPadding

/-- Why descriptors cannot be placed, or why placed fields do not form a record. -/
inductive LayoutError where
  | negativeSize (field : String) (size : Int64)
  | negativeAlignment (field : String) (align : Int64)
  /-- The alignment is not a power of two. A record's own alignment is reported without a name. -/
  | invalidAlignment (field : String) (align : Int64)
  /-- The size does not fit the signed word of a descriptor. -/
  | sizeOverflow (field : String) (size : Nat)
  | misaligned (field : String) (offset align : Nat)
  | discontiguous (field : String) (expected found : Nat)
  /-- The fields of a record end elsewhere than the record. -/
  | sizeMismatch (field : String) (start stop size : Nat)
deriving DecidableEq

namespace LayoutError

def message : LayoutError → String
  | negativeSize field size => s!"field `{field}` has negative size {size.toInt}"
  | negativeAlignment field align => s!"field `{field}` has negative alignment {align.toInt}"
  | invalidAlignment field align =>
    s!"field `{field}` has invalid alignment {align.toInt}, expected a power of two"
  | sizeOverflow field size => s!"field `{field}` has size {size}, too large for a field descriptor"
  | misaligned field offset align =>
    s!"field `{field}` at offset {offset} is not aligned to {align}"
  | discontiguous field expected found =>
    s!"field `{field}` starts at {found}, expected {expected}"
  | sizeMismatch field start stop size =>
    s!"field `{field}` spans {start}-{stop} but has size {size}"

end LayoutError

end StructPadding
