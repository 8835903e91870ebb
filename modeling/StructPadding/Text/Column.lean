/-!
# Columns

Texts that stand under one another are filled up to a common width. A width that is not known
beforehand has a limit.
-/

namespace StructPadding.Text

/-- The text filled up with blanks on the right to a width in characters. -/
def padRight (width : Nat) (s : String) : String :=
  s ++ String.ofList (List.replicate (width - s.length) ' ')

/-- The widest column that texts can be filled up to. -/
def maxWidth : Nat :=
  65535

/-- A column that is wider. -/
structure TooWide where
  width : Nat
deriving DecidableEq

/-- Checks that texts can be filled up to a width. -/
def checkWidth (width : Nat) : Except TooWide Unit :=
  if width ≤ maxWidth then .ok () else .error ⟨width⟩

end StructPadding.Text
