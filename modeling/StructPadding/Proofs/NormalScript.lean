import Mathlib.Data.List.Chain
import StructPadding.Proofs.ChangedLines

/-!
# Scripts in normal form

A diff can be followed from the start of both lists to their ends (`walk`), wherever the search
cuts the lists, and also where it finds no cut (`edits_turns`). Gathering the edits between two
equal runs leaves a normal form (`normalFrom_normal`): what is gathered stands before an equal run
or at the end, and an equal run that meets another one is joined with it.
-/

namespace StructPadding.Diff

variable {α : Type}

/-! ## Following a script -/

/-- What is left of both lists behind a diff. A diff that runs past an end, or over lines that
differ as if they were equal, cannot be followed. -/
def walk [DecidableEq α] : List Block → List α → List α → Option (List α × List α)
  | [], a, b => some (a, b)
  | ⟨.equal, n⟩ :: s, a, b =>
    if n ≤ a.length ∧ n ≤ b.length ∧ a.take n = b.take n then walk s (a.drop n) (b.drop n) else none
  | ⟨.deleted, n⟩ :: s, a, b => if n ≤ a.length then walk s (a.drop n) b else none
  | ⟨.inserted, n⟩ :: s, a, b => if n ≤ b.length then walk s a (b.drop n) else none

theorem walk_of_turns [DecidableEq α] {s : List Block} {a b : List α} (h : Turns s a b) :
    walk s a b = some ([], []) := by
  induction h with
  | nil => rfl
  | equal c _ ih => simpa [walk] using ih
  | deleted c _ ih => simpa [walk] using ih
  | inserted c _ ih => simpa [walk] using ih

theorem turns_replaced (left right : List α) :
    Turns [⟨.deleted, left.length⟩, ⟨.inserted, right.length⟩] left right := by
  have h := (Turns.deleted_only left).append (Turns.inserted_only right)
  rwa [List.append_nil, List.nil_append] at h

/-- The edits turn the one list into the other, whatever the search finds and whatever was left in
its buffers. -/
theorem edits_turns [DecidableEq α] (a b : List α) :
    ∀ fs : Frontiers, Turns (edits a b fs).1 a b := by
  induction hlen : a.length + b.length using Nat.strong_induction_on generalizing a b with
  | _ len ih =>
    intro fs
    obtain ⟨front, back, hfront, hback, ht⟩ := trimmed a b
    rw [edits]
    simp only []
    rw [← hback, ← hfront] at ht ⊢
    have hleft := congrArg List.length ht.eqLeft
    have hright := congrArg List.length ht.eqRight
    simp only [List.length_append] at hleft hright
    generalize between front.length back.length a = left at *
    generalize between front.length back.length b = right at *
    refine Turns.wrap ?_ ht
    -- Nothing is known of the cut, only that both halves are shorter when one is made.
    by_cases hnil : left = []
    · subst hnil
      exact Turns.inserted_only right
    by_cases hnil' : right = []
    · subst hnil'
      rw [if_neg (by simpa using hnil)]
      exact Turns.deleted_only left
    rw [if_neg (by simpa using hnil), if_neg (by simpa using hnil')]
    rcases middleSnake left right fs with ⟨_ | ⟨x, y⟩, fs'⟩
    · exact turns_replaced left right
    · dsimp only
      split_ifs with hcuts
      · have hlt := cuts_lt hcuts
        have hx := hcuts.1
        have hy := hcuts.2.1
        have hfirst := ih _ (by simp only [List.length_take]; omega) (left.take x) (right.take y)
          rfl fs'
        have hsecond := ih _ (by simp only [List.length_drop]; omega) (left.drop x) (right.drop y)
          rfl (edits (left.take x) (right.take y) fs').2
        exact hfirst.join hsecond
      · exact turns_replaced left right

/-! ## Normal form -/

/-- A block may stand right before another one: they are of different kinds, and nothing is deleted
right behind inserted lines. -/
def Block.Before (x y : Block) : Prop :=
  x.kind ≠ y.kind ∧ ¬(x.kind = .inserted ∧ y.kind = .deleted)

structure Normal (s : List Block) : Prop where
  nonempty : ∀ x ∈ s, 1 ≤ x.count
  apart : s.IsChain Block.Before

theorem before_of_equal {x y : Block} (hy : y.kind = .equal) (hx : x.kind ≠ .equal) :
    x.Before y := by
  refine ⟨by rwa [hy], ?_⟩
  rintro ⟨-, h⟩
  rw [h] at hy
  cases hy

theorem isChain_block_append {kind : BlockKind} {s : List Block} (n : Nat)
    (h : s.IsChain Block.Before) (hhead : ∀ x ∈ s.head?, Block.Before ⟨kind, n⟩ x) :
    (block kind n ++ s).IsChain Block.Before := by
  unfold block
  split_ifs
  · exact h
  · exact List.isChain_cons.2 ⟨hhead, h⟩

theorem isChain_gathered (deleted inserted : Nat) {s : List Block} (h : s.IsChain Block.Before)
    (hhead : ∀ x ∈ s.head?, x.kind = .equal) :
    (block .deleted deleted ++ block .inserted inserted ++ s).IsChain Block.Before := by
  rw [List.append_assoc]
  refine isChain_block_append deleted (isChain_block_append inserted h ?_) ?_
  · intro x hx
    exact before_of_equal (hhead x hx) (by simp)
  · intro x hx
    unfold block at hx
    split_ifs at hx
    · exact before_of_equal (hhead x hx) (by simp)
    · obtain rfl : ⟨.inserted, inserted⟩ = x := by simpa using hx
      exact ⟨by simp, by simp⟩

theorem isChain_joinEqual (n : Nat) {s : List Block} (h : s.IsChain Block.Before) :
    (joinEqual n s).IsChain Block.Before ∧ ∀ x ∈ (joinEqual n s).head?, x.kind = .equal := by
  unfold joinEqual
  split
  · obtain ⟨hhead, htail⟩ := List.isChain_cons.1 h
    exact ⟨List.isChain_cons.2 ⟨hhead, htail⟩, by simp⟩
  · rename_i hne
    refine ⟨List.isChain_cons.2 ⟨fun x hx => ?_, h⟩, by simp⟩
    rcases s with _ | ⟨⟨_ | _ | _, m⟩, s⟩
    · cases hx
    · exact absurd rfl (hne m s)
    · obtain rfl : ⟨.inserted, m⟩ = x := by simpa using hx
      exact ⟨by simp, by simp⟩
    · obtain rfl : ⟨.deleted, m⟩ = x := by simpa using hx
      exact ⟨by simp, by simp⟩

theorem isChain_normalFrom : ∀ (s : List Block) (deleted inserted : Nat),
    (normalFrom deleted inserted s).IsChain Block.Before
  | [], del, ins => by
    simpa [normalFrom] using isChain_gathered del ins .nil (by simp)
  | ⟨.deleted, n⟩ :: s, del, ins => isChain_normalFrom s (del + n) ins
  | ⟨.inserted, n⟩ :: s, del, ins => isChain_normalFrom s del (ins + n)
  | ⟨.equal, n⟩ :: s, del, ins => by
    simp only [normalFrom]
    split_ifs
    · exact isChain_normalFrom s del ins
    · obtain ⟨hchain, hhead⟩ := isChain_joinEqual n (isChain_normalFrom s 0 0)
      exact isChain_gathered del ins hchain hhead

theorem normalFrom_normal (s : List Block) (deleted inserted : Nat) :
    Normal (normalFrom deleted inserted s) :=
  ⟨count_pos_of_mem_normalFrom s deleted inserted, isChain_normalFrom s deleted inserted⟩

/-- The diff of two texts can be followed through all lines of both, and it is in normal form: no
block is empty, neighbours differ in kind, and deleted lines come before inserted ones. -/
theorem ofTexts_normal (base head : List UInt8) :
    walk (ofTexts base head) (splitLines base) (splitLines head) = some ([], []) ∧
      Normal (ofTexts base head) := by
  have hturns := edits_turns (splitLines base) (splitLines head)
    ⟨.new (maxEdits (splitLines base).length (splitLines head).length),
      .new (maxEdits (splitLines base).length (splitLines head).length)⟩
  exact ⟨walk_of_turns (turns_normalFrom hturns [] []), normalFrom_normal _ 0 0⟩

end StructPadding.Diff
