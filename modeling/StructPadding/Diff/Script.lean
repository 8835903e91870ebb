import StructPadding.Diff.Block
import StructPadding.Diff.Snake

/-!
# Edit scripts

The edits from one list of lines to another: common lines at both ends are kept, and what is left
between them is cut in two at a place where a shortest edit can be cut, and each half is done the
same way.
-/

namespace StructPadding.Diff

/-- Whether a cut leaves something on both sides. -/
def cuts (x y n m : Nat) : Prop :=
  x ≤ n ∧ y ≤ m ∧ (x, y) ≠ (0, 0) ∧ (x, y) ≠ (n, m)

instance (x y n m : Nat) : Decidable (cuts x y n m) :=
  inferInstanceAs (Decidable (_ ∧ _))

theorem cuts_lt {x y n m : Nat} (h : cuts x y n m) : x + y < n + m ∧ n - x + (m - y) < n + m := by
  obtain ⟨hx, hy, hstart, hstop⟩ := h
  simp only [ne_eq, Prod.mk.injEq] at hstart hstop
  omega

/-- A list without so many items at its start and at its end. -/
def between {α : Type} (start stop : Nat) (xs : List α) : List α :=
  (xs.drop start).take (xs.length - start - stop)

theorem length_between_le {α : Type} (start stop : Nat) (xs : List α) :
    (between start stop xs).length ≤ xs.length := by
  simp only [between, List.length_take, List.length_drop]
  omega

/-- The edits from `a` to `b`, not yet in normal form. -/
def edits {α : Type} [DecidableEq α] (a b : List α) (fs : Frontiers) : List Block × Frontiers :=
  let start := commonPrefix a b
  let stop := commonSuffix (a.drop start) (b.drop start)
  let left := between start stop a
  let right := between start stop b
  let (middle, fs) :=
    if left.isEmpty then ([⟨.inserted, right.length⟩], fs)
    else if right.isEmpty then ([⟨.deleted, left.length⟩], fs)
    else
      match middleSnake left right fs with
      | (some (x, y), fs) =>
        if h : cuts x y left.length right.length then
          have := cuts_lt h
          let (first, fs) := edits (left.take x) (right.take y) fs
          let (second, fs) := edits (left.drop x) (right.drop y) fs
          (first ++ second, fs)
        else ([⟨.deleted, left.length⟩, ⟨.inserted, right.length⟩], fs)
      | (none, fs) => ([⟨.deleted, left.length⟩, ⟨.inserted, right.length⟩], fs)
  (⟨.equal, start⟩ :: middle ++ [⟨.equal, stop⟩], fs)
termination_by a.length + b.length
decreasing_by
  all_goals
    have hleft := length_between_le start stop a
    have hright := length_between_le start stop b
    simp +zetaDelta only [List.length_take, List.length_drop] at this hleft hright ⊢
    omega

/-- The diff from one list of lines to another. -/
def compare {α : Type} [DecidableEq α] (a b : List α) : List Block :=
  let fresh := Frontier.new (maxEdits a.length b.length)
  normal (edits a b ⟨fresh, fresh⟩).1

/-- The diff from a base text to a head text. -/
def ofTexts (base head : List UInt8) : List Block :=
  compare (splitLines base) (splitLines head)

/-- The head lines that a diff touches, after `line` lines of the head. An inserted line is touched
itself; deleted lines touch the line before them, which is 0 at the top. -/
def touchedFrom (line : Nat) : List Block → List Nat
  | [] => []
  | ⟨.deleted, _⟩ :: blocks => line :: touchedFrom line blocks
  | ⟨.inserted, n⟩ :: blocks =>
    (List.range n).map (line + 1 + ·) ++ touchedFrom (line + n) blocks
  | ⟨.equal, n⟩ :: blocks => touchedFrom (line + n) blocks

/-- The head lines touched by the edit from `base` to `head`, in rising order. -/
def changedLines (base head : List UInt8) : List Nat :=
  touchedFrom 0 (ofTexts base head)

end StructPadding.Diff
