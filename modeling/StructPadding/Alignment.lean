/-!
# Alignments

An alignment is a power-of-two number of bytes below 2^64, held by its exponent, so every value of
the type is one. Offsets are 64-bit words and `roundUpWord` rounds them up by clearing the low bits.
`roundUp` says in natural numbers what that is, the least multiple of the alignment at or past an
offset.
-/

namespace StructPadding

/-- A power-of-two byte boundary below 2^64. -/
structure Alignment where
  exponent : Fin 64
deriving DecidableEq

namespace Alignment

/-- The boundary in bytes. -/
def bytes (a : Alignment) : Nat :=
  Nat.pow 2 a.exponent.val

/-- The alignment of `n` bytes, if `n` is a power of two below 2^64. -/
def ofBytes? (n : Nat) : Option Alignment :=
  if h : n.log2 < 64 then
    if Nat.pow 2 n.log2 = n then some ⟨⟨n.log2, h⟩⟩ else none
  else none

/-- Eight bytes, the alignment of a record unless a rule says otherwise. -/
def word : Alignment :=
  ⟨3⟩

/-- The least multiple of the alignment that is not below `offset`. -/
def roundUp (a : Alignment) (offset : Nat) : Nat :=
  offset + (a.bytes - offset % a.bytes) % a.bytes

/-- Rounding up on 64-bit words: add all but one byte of the boundary, then clear the low bits. -/
def roundUpWord (a : Alignment) (offset : UInt64) : UInt64 :=
  let boundary := UInt64.ofNat a.bytes
  (offset + boundary - 1) &&& ~~~(boundary - 1)

/-- Whether `offset` lies on a boundary of `align` bytes; everything lies on a boundary of none. -/
def onBoundary (offset align : Nat) : Bool :=
  align == 0 || offset % align == 0

theorem bytes_pos (a : Alignment) : 0 < a.bytes :=
  Nat.two_pow_pos _

theorem bytes_lt (a : Alignment) : a.bytes < UInt64.size :=
  Nat.pow_lt_pow_right (by decide : 1 < 2) a.exponent.isLt

theorem ofBytes?_bytes (a : Alignment) : ofBytes? a.bytes = some a := by
  simp [ofBytes?, bytes]

theorem bytes_of_ofBytes? {n : Nat} {a : Alignment} (h : ofBytes? n = some a) : a.bytes = n := by
  unfold ofBytes? at h
  split at h
  · split at h
    · obtain rfl := Option.some.inj h
      assumption
    · simp at h
  · simp at h

end Alignment

end StructPadding
