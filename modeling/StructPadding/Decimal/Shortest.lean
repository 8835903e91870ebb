import StructPadding.Decimal.Double

/-!
# Shortest decimals

The text of a double has the fewest digits that read back as it, and of those the nearest to it.
-/

namespace StructPadding.Decimal.Double

/-- Whether `digits * 10 ^ exponent` lies between the midpoints to the neighbouring doubles, the
midpoints themselves counting when the mantissa is even. -/
def readsBack (x : Double) (digits : Nat) (exponent : Int) : Bool :=
  let below := if x.mantissa = Nat.pow 2 52 && -1074 < x.exponent then 1 else 2
  let (a, b) := if 0 ≤ exponent then (digits * Nat.pow 10 exponent.toNat, 1)
    else (digits, Nat.pow 10 (-exponent).toNat)
  let (lo, d) := scale (4 * x.mantissa - below) 1 (x.exponent - 2)
  let (hi, _) := scale (4 * x.mantissa + 2) 1 (x.exponent - 2)
  if x.mantissa % 2 = 0 then lo * b ≤ a * d && a * d ≤ hi * b
  else lo * b < a * d && a * d < hi * b

/-- The exponent of the leading decimal digit of `num / den`, found from an estimate by the bits. -/
def leading (num den : Nat) : Int :=
  let bits : Int := (num.log2 : Int) - den.log2
  let guess := (bits - 1) * 30103 / 100000 - 1
  let reached (k : Int) : Bool :=
    if 0 ≤ k then den * Nat.pow 10 k.toNat ≤ num else den ≤ num * Nat.pow 10 (-k).toNat
  if reached (guess + 3) then guess + 3
  else if reached (guess + 2) then guess + 2
  else if reached (guess + 1) then guess + 1
  else guess

/-- The decimal with digits down to the place `10 ^ place` that is nearest to `num / den` and reads
back, if one of the two neighbours there does. -/
def neighbour? (x : Double) (num den : Nat) (place : Int) : Option (Nat × Int) :=
  let (n, d) := if 0 ≤ place then (num, den * Nat.pow 10 place.toNat)
    else (num * Nat.pow 10 (-place).toNat, den)
  let lower := n / d
  let rest := n % d
  match readsBack x lower place, readsBack x (lower + 1) place with
  | true, true =>
    some (if 2 * rest < d || (2 * rest == d && lower % 2 == 0) then lower else lower + 1, place)
  | true, false => some (lower, place)
  | false, true => some (lower + 1, place)
  | false, false => none

/-- Digits without the zeros at their end, which go to the exponent. -/
def stripZeros : Nat → Nat → Int → Nat × Int
  | 0, digits, exponent => (digits, exponent)
  | steps + 1, digits, exponent =>
    if digits ≠ 0 ∧ digits % 10 = 0 then stripZeros steps (digits / 10) (exponent + 1)
    else (digits, exponent)

/-- The shortest digits of a double that is not zero, and the place of the last one. -/
def shortest (x : Double) : Nat × Int :=
  let (num, den) := scale x.mantissa 1 x.exponent
  let top := leading num den
  let found := (List.range 17).findSome? fun (k : Nat) => neighbour? x num den (top - k)
  let (digits, place) := found.getD (0, 0)
  stripZeros 17 digits place

/-- The text of a double: positional from 10^-5 up to 10^16 and always with a point, beyond that one
digit before the point and a signed exponent. -/
def text (negative : Bool) (x : Double) : String :=
  let sign := if negative then "-" else ""
  let body :=
    if x.mantissa = 0 then "0.0"
    else
      let (digits, place) := x.shortest
      let ds := Nat.toDigits 10 digits
      let top := place + ds.length - 1
      if -5 ≤ top ∧ top ≤ 15 then
        if 0 ≤ place then String.ofList (ds ++ List.replicate place.toNat '0') ++ ".0"
        else if 0 ≤ top then
          let whole := (top + 1).toNat
          String.ofList (ds.take whole) ++ "." ++ String.ofList (ds.drop whole)
        else "0." ++ String.ofList (List.replicate (-top - 1).toNat '0' ++ ds)
      else
        let fraction := if ds.length = 1 then "" else "." ++ String.ofList (ds.drop 1)
        let mark := if top < 0 then "-" else "+"
        String.ofList (ds.take 1) ++ fraction ++ s!"e{mark}{top.natAbs}"
  sign ++ body

end StructPadding.Decimal.Double
