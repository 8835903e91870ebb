import StructPadding.Layout

/-!
# Partition check

Placed fields form a record when each starts where the one before it ends, on its own boundary, and
the fields of a record end where the record does.
-/

namespace StructPadding

variable {ω : Type} [Measure ω]

namespace Field

/-- A field starts where it is expected to. -/
def checkStart (name : String) (expected start : ω) : Except LayoutError Unit :=
  if start = expected then .ok ()
  else .error (.discontiguous name (Measure.toNat expected) (Measure.toNat start))

/-- A field starts on its own boundary. -/
def checkBoundary (name : String) (start : ω) (align : Alignment) : Except LayoutError Unit :=
  if Alignment.onBoundary (Measure.toNat start) align.bytes then .ok ()
  else .error (.misaligned name (Measure.toNat start) align.bytes)

mutual

/-- Checks a field that should start at `expected`. -/
def check (expected : ω) : Field ω → Except LayoutError Unit
  | padding start _ => checkStart "" expected start
  | leaf name _ start _ _ align => do
    checkStart name expected start
    checkBoundary name start align
  | record name typeName start align widened children => do
    checkStart name expected start
    checkBoundary name start align
    unless children.isEmpty do
      let reached ← checkAll start children
      let f := record name typeName start align widened children
      unless reached = f.stop do
        throw (.sizeMismatch name (Measure.toNat start) (Measure.toNat reached)
          (Measure.toNat f.size))

/-- Checks neighbouring fields from `expected` on; the result is where the last one ends. -/
def checkAll (expected : ω) : List (Field ω) → Except LayoutError ω
  | [] => .ok expected
  | f :: fs => do
    check expected f
    checkAll f.stop fs

end

end Field

namespace Layout

/-- Checks that the fields of a layout are contiguous and aligned, at every depth. -/
def check (l : Layout ω) : Except LayoutError Unit := do
  let base := (l.fields.head?.map Field.start).getD 0
  let _ ← Field.checkAll base l.fields
  return ()

end Layout

end StructPadding
