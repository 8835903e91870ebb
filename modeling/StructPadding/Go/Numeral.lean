/-!
# Integer literals

The value of a Go integer literal: hexadecimal, binary and octal with a mark after a zero, octal
after a plain zero, decimal otherwise, with underscores anywhere. A literal that is no integer, or
is too large for 64 bits, has no value.
-/

namespace StructPadding.Go.Numeral

/-- The value of a digit below the radix; letters count from ten. -/
def digit? (radix : Nat) (c : Char) : Option Nat :=
  let d :=
    if '0' ≤ c ∧ c ≤ '9' then some (c.toNat - '0'.toNat)
    else if 'a' ≤ c ∧ c ≤ 'z' then some (c.toNat - 'a'.toNat + 10)
    else none
  d.filter (· < radix)

/-- The number that digits stand for, most significant first, after those read so far. -/
def digits? (radix : Nat) : Nat → List Char → Option Nat
  | n, [] => some n
  | n, c :: cs => do
    let d ← digit? radix c
    digits? radix (n * radix + d) cs

/-- The number that at least one digit stands for, if it fits 64 bits. -/
def read? (radix : Nat) (cs : List Char) : Option Nat :=
  if cs.isEmpty then none else (digits? radix 0 cs).filter (· < UInt64.size)

/-- The digits of a literal as they are read: without underscores, letters in lower case. -/
def plain (cs : List Char) : List Char :=
  (cs.filter (· ≠ '_')).map Char.toLower

/-- The value of a literal. -/
def value? (cs : List Char) : Option Nat :=
  match plain cs with
  | '0' :: 'x' :: ds => read? 16 ds
  | '0' :: 'b' :: ds => read? 2 ds
  | '0' :: 'o' :: ds => read? 8 ds
  | '0' :: d :: ds => read? 8 (d :: ds)
  | ds => read? 10 ds

end StructPadding.Go.Numeral
