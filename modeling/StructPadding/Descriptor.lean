/-!
# Field descriptors

A descriptor is a field before it is placed: a name, the spelling of its type, and a size and an
alignment in bytes. Both numbers are signed 64-bit words, because they come from outside and a
malformed one is reported rather than trusted. A record carries the descriptors of its fields; the
size of a record with fields is that of the fields once they are placed.
-/

namespace StructPadding

/-- A field to be placed: one block of memory, or a record of further fields. -/
inductive Descriptor where
  | leaf (name typeName : String) (size align : Int64)
  | record (name typeName : String) (size align : Int64) (children : List Descriptor)

namespace Descriptor

def name : Descriptor → String
  | leaf name _ _ _ => name
  | record name _ _ _ _ => name

def typeName : Descriptor → String
  | leaf _ typeName _ _ => typeName
  | record _ typeName _ _ _ => typeName

def size : Descriptor → Int64
  | leaf _ _ size _ => size
  | record _ _ size _ _ => size

def align : Descriptor → Int64
  | leaf _ _ _ align => align
  | record _ _ _ align _ => align

/-- The fields of a record, and none for a leaf. -/
def children : Descriptor → List Descriptor
  | leaf .. => []
  | record _ _ _ _ children => children

end Descriptor

end StructPadding
