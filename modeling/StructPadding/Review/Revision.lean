import StructPadding.Diff.Script
import StructPadding.Review.Advice

/-!
# Revisions

Which declarations a change touches: those with a touched line between their first and last one.
Each is paired with the declaration of its name before the change.
-/

namespace StructPadding.Review

/-- A declaration whose last line comes before its first one. Nothing can be looked up between them.
-/
structure InvertedRange where
  name : String
  lines : LineRange
deriving DecidableEq

/-- Why a review comes to nothing: a declaration ends before it starts, or a proposal cannot be
shown. -/
inductive Breakdown where
  | inverted (range : InvertedRange)
  | column (fault : Text.TooWide)
deriving DecidableEq

def Breakdown.message : Breakdown → String
  | inverted range => s!"struct {range.name} ends before it starts"
  | column fault => s!"a column of {fault.width} characters is too wide"

/-- Whether one of the lines lies in a declaration. With no lines at all no declaration is looked
at. -/
def touches (lines : List Nat) (l : Layout) : Except InvertedRange Bool :=
  if lines.isEmpty then .ok false
  else if l.lines.last < l.lines.first then .error ⟨l.name, l.lines⟩
  else .ok (lines.any l.lines.contains)

/-- The declarations with one of the lines in them, in their order. -/
def touched (lines : List Nat) : List Layout → Except InvertedRange (List Layout)
  | [] => .ok []
  | l :: ls => do
    let hit ← touches lines l
    let rest ← touched lines ls
    return if hit then l :: rest else rest

/-- A declaration with the first one of its name among those of the base. -/
def pair (base : List Layout) (l : Layout) : Revised :=
  ⟨l, base.find? fun b => b.name == l.name⟩

/-- The declarations that a change touches. -/
def revised (base head : List UInt8) (baseLayouts headLayouts : List Layout) :
    Except InvertedRange (List Revised) := do
  let ls ← touched (Diff.changedLines base head) headLayouts
  return ls.map (pair baseLayouts)

/-- The declarations that a change touches, with a note on the lines it touches. -/
def revisions (base head : List UInt8) (baseLayouts headLayouts : List Layout) :
    Journal (Except InvertedRange (List Revised)) := do
  let lines := (Diff.changedLines base head).map toString
  .note .trace ("changed lines: \x7b" ++ ", ".intercalate lines ++ "\x7d")
  return revised base head baseLayouts headLayouts

end StructPadding.Review
