/-!
# Double-precision numbers

A finite double is a mantissa of at most 53 bits times a power of two. Arithmetic rounds the exact
quotient to the nearest double, ties to the even mantissa. A decimal literal is read in two steps,
its digits first and then the power of ten, so a long literal is rounded twice.
-/

namespace StructPadding.Decimal

/-- The number `mantissa * 2 ^ exponent`, with at most 53 bits and an exponent of at least -1074. -/
structure Double where
  mantissa : Nat
  exponent : Int
deriving DecidableEq

namespace Double

def zero : Double :=
  ⟨0, -1074⟩

/-- The nearest natural number to `num / den`, ties to even. -/
def roundDiv (num den : Nat) : Nat :=
  let q := num / den
  let r := num % den
  if den < 2 * r || (2 * r == den && q % 2 == 1) then q + 1 else q

/-- A quotient of naturals scaled by a power of two, as a quotient again. -/
def scale (num den : Nat) (exponent : Int) : Nat × Nat :=
  if 0 ≤ exponent then (num * Nat.pow 2 exponent.toNat, den)
  else (num, den * Nat.pow 2 (-exponent).toNat)

/-- The double nearest to `num / den`, or nothing when it is past the largest one. -/
def ofRatio (num den : Nat) : Option Double :=
  if num = 0 then some zero
  else
    let guess : Int := (num.log2 : Int) - den.log2 - 52
    let (n, d) := scale num den (-guess)
    let exponent := max (if n / d < Nat.pow 2 52 then guess - 1 else guess) (-1074)
    let (n, d) := scale num den (-exponent)
    let m := roundDiv n d
    let rounded : Double := if m = Nat.pow 2 53 then ⟨Nat.pow 2 52, exponent + 1⟩ else ⟨m, exponent⟩
    if 971 < rounded.exponent then none else some rounded

/-- The product of two doubles. -/
def mul (a b : Double) : Option Double :=
  let (n, d) := scale (a.mantissa * b.mantissa) 1 (a.exponent + b.exponent)
  ofRatio n d

/-- The quotient of two doubles. -/
def div (a b : Double) : Option Double :=
  let (n, d) := scale a.mantissa b.mantissa (a.exponent - b.exponent)
  ofRatio n d

/-- A power of ten as a double. -/
def tenPow (k : Nat) : Option Double :=
  ofRatio (Nat.pow 10 k) 1

/-- Multiplies a double by a power of ten. An exponent below -308 is taken off in steps of 308, of
which three leave nothing of any number that digits can give. -/
def shiftTen (steps : Nat) (f : Double) (exponent : Int) : Option Double :=
  if exponent.natAbs ≤ 308 then do
    let pow ← tenPow exponent.natAbs
    if 0 ≤ exponent then mul f pow else div f pow
  else if f.mantissa = 0 then some f
  else if 0 ≤ exponent then none
  else
    match steps with
    | 0 => some zero
    | steps + 1 => do
      let pow ← tenPow 308
      let f ← div f pow
      shiftTen steps f (exponent + 308)

/-- The double that a decimal literal stands for, or nothing when it is out of range. -/
def ofDecimal (digits : Nat) (exponent : Int) : Option Double := do
  let f ← ofRatio digits 1
  shiftTen 3 f exponent

end Double

end StructPadding.Decimal
