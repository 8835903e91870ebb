import StructPadding.Descriptor
import StructPadding.LayoutError
import StructPadding.Measure
import StructPadding.Text.Blank

/-!
# Placed fields

A placed field has an offset from the start of the outermost record. Gaps between fields are fields
of their own. A leaf keeps the size it was declared with next to the size it takes up, which is one
byte more than nothing when an empty field ends a record. A record takes up what its fields do. Only
if their sizes wrap around to nothing, a record that ends another one is given a byte as well.
-/

namespace StructPadding

/-- A stretch of memory with an offset. -/
inductive Field (ω : Type := UInt64) where
  | padding (start size : ω)
  | leaf (name typeName : String) (start size declared : ω) (align : Alignment)
  | record (name typeName : String) (start : ω) (align : Alignment) (widened : Bool)
    (children : List (Field ω))

namespace Field

variable {ω : Type}

section DecidableEq

variable [DecidableEq ω]

mutual

def decEq : (f g : Field ω) → Decidable (f = g)
  | padding start size, padding start' size' =>
    decidable_of_iff (start = start' ∧ size = size') (by rw [padding.injEq])
  | leaf name typeName start size declared align,
    leaf name' typeName' start' size' declared' align' =>
    decidable_of_iff (name = name' ∧ typeName = typeName' ∧ start = start' ∧ size = size' ∧
      declared = declared' ∧ align = align') (by rw [leaf.injEq])
  | record name typeName start align widened children,
    record name' typeName' start' align' widened' children' =>
    match decEqAll children children' with
    | isTrue h =>
      decidable_of_iff (name = name' ∧ typeName = typeName' ∧ start = start' ∧ align = align' ∧
        widened = widened') (by simp [h])
    | isFalse h => isFalse (by simp [h])
  | padding .., leaf .. | padding .., record .. | leaf .., padding .. | leaf .., record ..
  | record .., padding .. | record .., leaf .. => isFalse nofun

def decEqAll : (fs gs : List (Field ω)) → Decidable (fs = gs)
  | [], [] => isTrue rfl
  | [], _ :: _ | _ :: _, [] => isFalse nofun
  | f :: fs, g :: gs =>
    match decEq f g, decEqAll fs gs with
    | isTrue hf, isTrue hfs => isTrue (by rw [hf, hfs])
    | isFalse hf, _ => isFalse (by simp [hf])
    | _, isFalse hfs => isFalse (by simp [hfs])

end

instance : DecidableEq (Field ω) :=
  decEq

end DecidableEq

def name : Field ω → String
  | padding .. => ""
  | leaf name .. => name
  | record name .. => name

def typeName : Field ω → String
  | padding .. => ""
  | leaf _ typeName .. => typeName
  | record _ typeName .. => typeName

def start : Field ω → ω
  | padding start _ => start
  | leaf _ _ start .. => start
  | record _ _ start .. => start

/-- The alignment a field asks for; padding asks for none. -/
def align? : Field ω → Option Alignment
  | padding .. => none
  | leaf _ _ _ _ _ align => some align
  | record _ _ _ align _ _ => some align

/-- The alignment in bytes, 0 for padding. -/
def alignBytes (f : Field ω) : Nat :=
  match f.align? with
  | some a => a.bytes
  | none => 0

def isPadding : Field ω → Bool
  | padding .. => true
  | _ => false

/-- The fields of a record, and none for anything else. -/
def children : Field ω → List (Field ω)
  | record _ _ _ _ _ children => children
  | _ => []

/-- Whether a type spelled like this is written out in place: `struct`, blanks, an opening brace. -/
def spelledOut (typeName : String) : Bool :=
  let cs := typeName.toList
  "struct".toList.isPrefixOf cs && (Text.trimStart (cs.drop 6)).head? == some '\x7b'

/-- A record whose fields are written out where it is used. The fields of any other record belong
to the declaration of its type. -/
def isInlineRecord (f : Field ω) : Bool :=
  !f.children.isEmpty && spelledOut f.typeName

variable [Measure ω]

mutual

/-- The bytes a field takes up. -/
def size : Field ω → ω
  | padding _ size => size
  | leaf _ _ _ size _ _ => size
  | record _ _ _ _ false children => totalSize children
  | record _ _ _ _ true _ => 1

/-- The bytes that neighbouring fields take up together. -/
def totalSize : List (Field ω) → ω
  | [] => 0
  | f :: fs => f.size + totalSize fs

end

/-- The size a field was declared with. -/
def declared : Field ω → ω
  | padding _ size => size
  | leaf _ _ _ _ declared _ => declared
  | record _ _ _ _ _ children => totalSize children

/-- The offset right after a field. -/
def stop (f : Field ω) : ω :=
  f.start + f.size

mutual

/-- The padding bytes of a field, those inside nested records included. -/
def paddingBytes : Field ω → ω
  | padding _ size => size
  | leaf .. => 0
  | record _ _ _ _ _ children => totalPadding children

/-- The padding bytes of neighbouring fields. -/
def totalPadding : List (Field ω) → ω
  | [] => 0
  | f :: fs => f.paddingBytes + totalPadding fs

end

/-- A field of size zero made one byte long, so that what follows it lies outside of it. -/
def widen : Field ω → Field ω
  | padding start size => padding start size
  | leaf name typeName start size declared align =>
    leaf name typeName start (if size = 0 then 1 else size) declared align
  | record name typeName start align widened children =>
    record name typeName start align (widened || totalSize children = 0) children

mutual

/-- The descriptor a field would be placed from; none for padding. The alignment goes back to a
signed word, which takes 2^63 for a negative number. -/
def toDescriptor : Field ω → Except LayoutError (Option Descriptor)
  | padding .. => .ok none
  | leaf name typeName _ _ declared align =>
    let bytes := Measure.toNat declared
    if bytes < 0x8000000000000000 then
      .ok (some (.leaf name typeName (Int64.ofNat bytes) (Int64.ofNat align.bytes)))
    else .error (.sizeOverflow name bytes)
  | record name typeName _ align _ children => do
    let nested ← toDescriptors children
    return some (.record name typeName 0 (Int64.ofNat align.bytes) nested)

/-- The descriptors of neighbouring fields, padding left out. -/
def toDescriptors : List (Field ω) → Except LayoutError (List Descriptor)
  | [] => .ok []
  | f :: fs => do
    let d? ← f.toDescriptor
    let ds ← toDescriptors fs
    return d?.toList ++ ds

end

/-- One line about a field: what it is, where it lies, and its size and alignment. -/
def text (f : Field) : String :=
  let span := s!"{f.start}-{f.stop} (size {f.size}, align {f.alignBytes})"
  if f.isPadding then "*padding: " ++ span ++ "*"
  else f.name ++ " " ++ f.typeName ++ ": " ++ span

end Field

end StructPadding
