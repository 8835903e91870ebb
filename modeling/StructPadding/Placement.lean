import StructPadding.Field

/-!
# Placement

Fields are placed in the order given, each at the next offset its alignment allows, and gaps become
padding. A record is then rounded up to the alignment its rule asks for. Descriptors are checked on
the way, so the first malformed one is the one reported.
-/

namespace StructPadding

/-- The alignment of a record as a whole. -/
inductive RecordRule where
  /-- Every record is rounded up to this many bytes. -/
  | fixed (bytes : UInt64)
  /-- A record takes the largest alignment among its fields. -/
  | natural
deriving DecidableEq

namespace RecordRule

/-- Records are rounded up to eight bytes unless told otherwise. -/
def standard : RecordRule :=
  fixed 8

/-- The alignment of `n` bytes for a record, or the complaint that there is none. -/
def demand (n : Nat) : Except LayoutError Alignment :=
  match Alignment.ofBytes? n with
  | some a => .ok a
  | none => .error (.invalidAlignment "" (Int64.ofNat n))

/-- The largest alignment that descriptors ask for, at least one byte. -/
def widest : List Descriptor → Nat
  | [] => 1
  | d :: ds => max d.align.toInt.toNat (widest ds)

/-- The alignment of a record with these fields. -/
def alignment : RecordRule → List Descriptor → Except LayoutError Alignment
  | fixed n, _ => demand n.toNat
  | natural, ds => demand (widest ds)

end RecordRule

namespace Descriptor

/-- The alignment of a well-formed descriptor: the size is not negative, and the alignment is a
power of two. -/
def check (d : Descriptor) : Except LayoutError Alignment :=
  if d.size.toInt < 0 then .error (.negativeSize d.name d.size)
  else if d.align.toInt < 0 then .error (.negativeAlignment d.name d.align)
  else
    match Alignment.ofBytes? d.align.toInt.toNat with
    | some a => .ok a
    | none => .error (.invalidAlignment d.name d.align)

end Descriptor

section

variable {ω : Type} [Measure ω]

open StructPadding.Measure (advance distance)

/-- Padding of a size, if there is any. -/
def gap (start size : ω) : List (Field ω) :=
  if size = 0 then [] else [.padding start size]

/-- The offset after the last of the fields, or `base` if there are none. -/
def endOf (base : ω) (fields : List (Field ω)) : ω :=
  match fields.getLast? with
  | some f => f.stop
  | none => base

/-- The fields with the last one made at least one byte long. -/
def widenLast : List (Field ω) → List (Field ω)
  | [] => []
  | [f] => [f.widen]
  | f :: fs => f :: widenLast fs

/-- Rounds a record of placed fields up to its alignment, counted from where it starts. A record
without fields stays empty. -/
def closeRecord (rule : RecordRule) (ds : List Descriptor) (base : ω) (fields : List (Field ω)) :
    Except LayoutError (List (Field ω)) :=
  if fields.isEmpty then .ok []
  else do
    let fields := widenLast fields
    let align ← rule.alignment ds
    let stop := endOf base fields
    let used := distance base stop
    return fields ++ gap stop (distance used (Measure.roundUp align used))

mutual

/-- Places one field at or after `offset`, behind the padding it needs. -/
def placeField (rule : RecordRule) (offset : ω) :
    Descriptor → Except LayoutError (List (Field ω))
  | .leaf name typeName size align => do
    let boundary ← (Descriptor.leaf name typeName size align).check
    let start := advance boundary offset
    let bytes := Measure.ofNat size.toInt.toNat
    return gap offset (distance offset start) ++ [.leaf name typeName start bytes bytes boundary]
  | .record name typeName size align children => do
    let boundary ← (Descriptor.record name typeName size align children).check
    let start := advance boundary offset
    if children.isEmpty then
      let bytes := Measure.ofNat size.toInt.toNat
      return gap offset (distance offset start) ++ [.leaf name typeName start bytes bytes boundary]
    else
      let inner ← placeSiblings rule start children
      let inner ← closeRecord rule children start inner
      return gap offset (distance offset start) ++
        [.record name typeName start boundary false inner]

/-- Places fields one after another from `offset` on. -/
def placeSiblings (rule : RecordRule) (offset : ω) :
    List Descriptor → Except LayoutError (List (Field ω))
  | [] => .ok []
  | d :: ds => do
    let placed ← placeField rule offset d
    let rest ← placeSiblings rule (endOf offset placed) ds
    return placed ++ rest

end

/-- Lays a record out from `base` on, nested records included. -/
def place (rule : RecordRule) (ds : List Descriptor) (base : ω) :
    Except LayoutError (List (Field ω)) := do
  let fields ← placeSiblings rule base ds
  closeRecord rule ds base fields

end

end StructPadding
