import StructPadding.Alignment

/-!
# Measures

Offsets and sizes are 64-bit words, and sums of words wrap around at 2^64. The same definitions also
count in natural numbers. There nothing wraps, so that what a layout ought to be can be said and
proved, and words are as good as numbers as long as everything ends below 2^64.
-/

namespace StructPadding

/-- What offsets and sizes are counted in. -/
class Measure (ω : Type) extends Add ω, Sub ω, Zero ω, One ω, LT ω where
  decEq : DecidableEq ω
  decLt : DecidableLT ω
  ofNat : Nat → ω
  toNat : ω → Nat
  /-- Rounds up to a multiple of an alignment. -/
  roundUp : Alignment → ω → ω
  toNat_ofNat : ∀ n < UInt64.size, toNat (ofNat n) = n
  add_zero : ∀ x : ω, x + 0 = x
  zero_add : ∀ x : ω, 0 + x = x
  add_assoc : ∀ x y z : ω, x + y + z = x + (y + z)
  add_sub_of_lt : ∀ x y : ω, x < y → x + (y - x) = y

namespace Measure

instance {ω : Type} [Measure ω] : DecidableEq ω :=
  decEq

instance {ω : Type} [Measure ω] : DecidableLT ω :=
  decLt

theorem add_sub_of_lt_word (x y : UInt64) (_ : x < y) : x + (y - x) = y := by
  rw [UInt64.add_comm, UInt64.sub_add_cancel]

instance : Measure UInt64 where
  zero := 0
  one := 1
  decEq := inferInstance
  decLt := inferInstance
  ofNat := UInt64.ofNat
  toNat := UInt64.toNat
  roundUp := Alignment.roundUpWord
  toNat_ofNat _ h := UInt64.toNat_ofNat_of_lt' h
  add_zero := UInt64.add_zero
  zero_add := UInt64.zero_add
  add_assoc := UInt64.add_assoc
  add_sub_of_lt := add_sub_of_lt_word

instance : Measure Nat where
  zero := 0
  one := 1
  decEq := inferInstance
  decLt := inferInstance
  ofNat n := n
  toNat n := n
  roundUp := Alignment.roundUp
  toNat_ofNat _ _ := rfl
  add_zero := Nat.add_zero
  zero_add := Nat.zero_add
  add_assoc := Nat.add_assoc
  add_sub_of_lt _ _ h := Nat.add_sub_of_le (Nat.le_of_lt h)

variable {ω : Type} [Measure ω]

/-- How far one offset lies behind another, which is nothing if it lies before it. -/
def distance (start stop : ω) : ω :=
  if start < stop then stop - start else 0

/-- Where a field of an alignment goes that may not start before an offset: on to the next boundary,
unless that has wrapped around. -/
def advance (a : Alignment) (offset : ω) : ω :=
  let aligned := roundUp a offset
  if offset < aligned then aligned else offset

end Measure

end StructPadding
