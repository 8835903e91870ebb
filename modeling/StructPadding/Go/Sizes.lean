/-!
# Sizes of predeclared types

The size and the alignment of the types that need no declaration, for a target with pointers of a
given width. No alignment is larger than a pointer.
-/

namespace StructPadding.Go

/-- A target machine, by the bytes of its pointers. -/
structure Target where
  word : UInt64
deriving DecidableEq

namespace Target

/-- The size of a predeclared type, and the alignment it would have by itself. -/
def natural? (t : Target) (name : String) : Option (UInt64 × UInt64) :=
  match name with
  | "bool" | "int8" | "uint8" | "byte" => some (1, 1)
  | "int16" | "uint16" => some (2, 2)
  | "int32" | "uint32" | "rune" | "float32" => some (4, 4)
  | "int64" | "uint64" | "float64" => some (8, 8)
  | "complex64" => some (8, 4)
  | "complex128" => some (16, 8)
  | "int" | "uint" | "uintptr" => some (t.word, t.word)
  | "string" | "error" | "any" => some (2 * t.word, t.word)
  | _ => none

/-- The size and the alignment of a predeclared type. -/
def predeclared? (t : Target) (name : String) : Option (UInt64 × UInt64) :=
  (t.natural? name).map fun (size, align) => (size, min align t.word)

end Target

end StructPadding.Go
