/-!
# Meeting in the middle

Two lists are compared from both ends at once. After `d` edits each search knows, for every
diagonal, how far into the first list it can get; where the two searches overlap, a shortest edit
can be cut in two. Each search keeps its reach in a buffer that is used again for further lists,
whatever is left in it. Reading or writing past the ends of a buffer or a list ends the search
without a result.
-/

namespace StructPadding.Diff

/-- The number of items that two lists have in common at their start. -/
def commonPrefix {α : Type} [DecidableEq α] : List α → List α → Nat
  | a :: as, b :: bs => if a = b then commonPrefix as bs + 1 else 0
  | _, _ => 0

/-- The number of items that two lists have in common at their end. -/
def commonSuffix {α : Type} [DecidableEq α] (a b : List α) : Nat :=
  commonPrefix a.reverse b.reverse

/-- A bound on the edits that either search has to make on lists of these lengths. -/
def maxEdits (n m : Nat) : Nat :=
  (n + m + 1) / 2 + 1

/-- How far a search gets on the diagonals from `-offset` on. -/
structure Frontier where
  offset : Nat
  cells : Array Int

namespace Frontier

/-- A buffer for searches with so many edits. -/
def new (edits : Nat) : Frontier :=
  ⟨edits, Array.replicate (2 * edits) 0⟩

/-- The reach on a diagonal of the buffer. -/
def read? (f : Frontier) (k : Int) : Option Int :=
  if 0 ≤ k + f.offset then f.cells[(k + f.offset).toNat]? else none

/-- Sets the reach on a diagonal of the buffer. -/
def write? (f : Frontier) (k reach : Int) : Option Frontier :=
  if h : 0 ≤ k + f.offset ∧ (k + f.offset).toNat < f.cells.size then
    some ⟨f.offset, f.cells.set (k + f.offset).toNat reach h.2⟩
  else none

/-- Where a search gets on a diagonal with its `d`-th edit, from the better of the two diagonals
next to it. -/
def step? (f : Frontier) (d k : Int) : Option Int :=
  if k = -d then f.read? (k + 1)
  else if k = d then (f.read? (k - 1)).map (· + 1)
  else do
    let below ← f.read? (k - 1)
    let above ← f.read? (k + 1)
    return if below < above then above else below + 1

/-- Whether a search that gets to `x` on the diagonal `k` overlaps with another one, which keeps its
reach here and has been on fewer than `limit` diagonals to either side. On lists of lengths `n` and
`n - delta` the other search, which comes from their ends, counts its diagonals from `delta` down.
-/
def meets? (other : Frontier) (n delta : Int) (limit : Nat) (k x : Int) : Option Bool :=
  if (k - delta).natAbs < limit then
    (other.read? (-(k - delta))).map fun y => x + y ≥ n
  else some false

end Frontier

/-- Moves from `x` along a diagonal for as long as the lists agree. -/
def slide? {α : Type} [DecidableEq α] (a b : List α) (k x : Int) : Option Int :=
  let y := x - k
  if x < a.length ∧ 0 ≤ y ∧ y < b.length then
    if 0 ≤ x then some (x + commonPrefix (a.drop x.toNat) (b.drop y.toNat)) else none
  else some x

/-- Where a search overlaps with the other one: the diagonal, and the run of equal items there. -/
structure Meeting where
  diagonal : Int
  start : Int
  stop : Int

/-- Makes the `d`-th edit on `count` diagonals from `k` downwards, until `meets` says that the other
search was met there. -/
def sweep? {α : Type} [DecidableEq α] (a b : List α) (d : Int) (meets : Int → Int → Option Bool) :
    Nat → Int → Frontier → Option (Option Meeting × Frontier)
  | 0, _, f => some (none, f)
  | count + 1, k, f => do
    let start ← f.step? d k
    let stop ← slide? a b k start
    let f ← f.write? k stop
    if ← meets k stop then return (some ⟨k, start, stop⟩, f)
    else sweep? a b d meets count (k - 2) f

/-- The reach of both searches. -/
structure Frontiers where
  forward : Frontier
  backward : Frontier

/-- Searches on with `left` more edits from the `d`-th on. The searches can only overlap in the
forward sweep if the lengths differ by an odd number, and in the backward sweep otherwise. The
backward search runs on the reversed lists. -/
def search {α : Type} [DecidableEq α] (a b : List α) :
    Nat → Nat → Frontiers → Option (Nat × Nat) × Frontiers
  | 0, _, fs => (none, fs)
  | left + 1, d, fs =>
    let n : Int := a.length
    let m : Int := b.length
    let delta := n - m
    let odd := delta % 2 = 1
    let meetsForward := fs.backward.meets? n delta (if odd then d else 0)
    match sweep? a b d meetsForward (d + 1) d fs.forward with
    | none => (none, fs)
    | some (some hit, forward) =>
      (some (hit.start.toNat, (hit.start - hit.diagonal).toNat), { fs with forward })
    | some (none, forward) =>
      let meetsBackward := forward.meets? n delta (if odd then 0 else d + 1)
      match sweep? a.reverse b.reverse d meetsBackward (d + 1) d fs.backward with
      | none => (none, { fs with forward })
      | some (some hit, backward) =>
        (some ((n - hit.stop).toNat, (m - (hit.stop - hit.diagonal)).toNat), ⟨forward, backward⟩)
      | some (none, backward) => search a b left (d + 1) ⟨forward, backward⟩

/-- A place where a shortest edit from one list to the other can be cut in two. -/
def middleSnake {α : Type} [DecidableEq α] (a b : List α) (fs : Frontiers) :
    Option (Nat × Nat) × Frontiers :=
  match fs.forward.write? 1 0, fs.backward.write? 1 0 with
  | some forward, some backward =>
    search a b (maxEdits a.length b.length) 0 ⟨forward, backward⟩
  | _, _ => (none, fs)

end StructPadding.Diff
