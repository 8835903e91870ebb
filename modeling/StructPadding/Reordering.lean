import StructPadding.Layout
import StructPadding.Placement

/-!
# Reordering

A declaration often loses padding when its fields are sorted: empty fields first, then by falling
alignment, falling size and rising name. Inline records are sorted as well, before the record around
them, so that they take their new size there. The fields of any other record belong to the
declaration of its type and stay as they are.
-/

namespace StructPadding

variable {ω : Type} [Measure ω]

namespace Field

/-- The proposed order of two fields. Sizes are the declared ones, so that an empty field at the end
of a record is still empty. -/
def order (a b : Field ω) : Ordering :=
  (compare (Measure.toNat b.declared == 0) (Measure.toNat a.declared == 0)).then <|
  (compare b.alignBytes a.alignBytes).then <|
  (compare (Measure.toNat b.declared) (Measure.toNat a.declared)).then <|
  compare a.name b.name

/-- The fields in the proposed order; fields that tie keep theirs. -/
def sort (fields : List (Field ω)) : List (Field ω) :=
  fields.mergeSort fun a b => (order a b).isLE

mutual

/-- A field as it enters the proposal: an inline record has its own fields reordered. -/
def rearrange (rule : RecordRule) : Field ω → Except LayoutError (Field ω)
  | padding start size => .ok (padding start size)
  | leaf name typeName start size declared align =>
    .ok (leaf name typeName start size declared align)
  | record name typeName start align widened children =>
    if (record name typeName start align widened children).isInlineRecord then do
      let inner ← rearrangeAll rule children
      let ds ← toDescriptors (sort inner)
      let placed ← place rule ds 0
      return record name typeName start align false placed
    else .ok (record name typeName start align widened children)

/-- The fields as they enter the proposal, padding left out and not yet sorted. -/
def rearrangeAll (rule : RecordRule) : List (Field ω) → Except LayoutError (List (Field ω))
  | [] => .ok []
  | f :: fs =>
    if f.isPadding then rearrangeAll rule fs
    else do
      let g ← rearrange rule f
      let gs ← rearrangeAll rule fs
      return g :: gs

end

end Field

namespace Layout

/-- The proposed layout of a declaration: its fields sorted and placed again. -/
def reorder (rule : RecordRule) (l : Layout ω) : Except LayoutError (Layout ω) := do
  let fields ← Field.rearrangeAll rule l.fields
  let ds ← Field.toDescriptors (Field.sort fields)
  let placed ← place rule ds 0
  return { l with fields := placed }

end Layout

end StructPadding
