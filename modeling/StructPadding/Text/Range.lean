/-!
# Character ranges

A property of characters is given by the ascending ranges of code points that have it.
-/

namespace StructPadding.Text

/-- Whether the code point `n` lies in one of the ascending, disjoint `ranges`. -/
def inRanges (n : Nat) : List (Nat × Nat) → Bool
  | [] => false
  | (first, last) :: rest => first ≤ n && (n ≤ last || inRanges n rest)

end StructPadding.Text
