import StructPadding.Diff.Script
import StructPadding.Proofs.MiddleSnake

/-!
# Shortest scripts

A diff is a script: followed from the start of both lists, its blocks turn the one list into the
other (`Turns`). No script touches fewer lines than the lists are edits apart
(`Turns.distance_le`), and the script that is put together from the two halves around a middle snake
touches no more (`edits_shortest`). Gathering the edits between equal runs only moves deletions
before insertions, which stand side by side there.
-/

namespace StructPadding.Diff

variable {α : Type}

/-- The blocks turn the first list into the second: equal lines are walked over in both, deleted
ones in the first only, inserted ones in the second only. -/
inductive Turns : List Block → List α → List α → Prop
  | nil : Turns [] [] []
  | equal {blocks : List Block} {a b : List α} (c : List α) (h : Turns blocks a b) :
    Turns (⟨.equal, c.length⟩ :: blocks) (c ++ a) (c ++ b)
  | deleted {blocks : List Block} {a b : List α} (c : List α) (h : Turns blocks a b) :
    Turns (⟨.deleted, c.length⟩ :: blocks) (c ++ a) b
  | inserted {blocks : List Block} {a b : List α} (c : List α) (h : Turns blocks a b) :
    Turns (⟨.inserted, c.length⟩ :: blocks) a (c ++ b)

/-- The number of deleted and inserted lines. -/
def edited : List Block → Nat
  | [] => 0
  | ⟨.equal, _⟩ :: blocks => edited blocks
  | ⟨.deleted, n⟩ :: blocks => n + edited blocks
  | ⟨.inserted, n⟩ :: blocks => n + edited blocks

theorem edited_append : ∀ s s' : List Block, edited (s ++ s') = edited s + edited s'
  | [], s' => by simp [edited]
  | ⟨.equal, n⟩ :: s, s' => by simp [edited, edited_append s s']
  | ⟨.deleted, n⟩ :: s, s' => by simp [edited, edited_append s s', Nat.add_assoc]
  | ⟨.inserted, n⟩ :: s, s' => by simp [edited, edited_append s s', Nat.add_assoc]

namespace Turns

theorem append {s s' : List Block} {a b a' b' : List α} (h : Turns s a b) (h' : Turns s' a' b') :
    Turns (s ++ s') (a ++ a') (b ++ b') := by
  induction h with
  | nil => exact h'
  | equal c _ ih =>
    rw [List.append_assoc, List.append_assoc]
    exact ih.equal c
  | deleted c _ ih =>
    rw [List.append_assoc]
    exact ih.deleted c
  | inserted c _ ih =>
    rw [List.append_assoc]
    exact ih.inserted c

/-- The scripts of two halves, one after the other. -/
theorem join {s s' : List Block} {a b : List α} {x y : Nat} (h : Turns s (a.take x) (b.take y))
    (h' : Turns s' (a.drop x) (b.drop y)) : Turns (s ++ s') a b := by
  have hboth := h.append h'
  rwa [List.take_append_drop, List.take_append_drop] at hboth

theorem equal_only (c : List α) : Turns [⟨.equal, c.length⟩] c c := by
  simpa using nil.equal c

theorem deleted_only (c : List α) : Turns [⟨.deleted, c.length⟩] c [] := by
  simpa using nil.deleted c

theorem inserted_only (c : List α) : Turns [⟨.inserted, c.length⟩] [] c := by
  simpa using nil.inserted c

/-- No script is shorter than the distance. -/
theorem distance_le [DecidableEq α] {s : List Block} {a b : List α} (h : Turns s a b) :
    distance a b ≤ edited s := by
  induction h with
  | nil => simp [edited]
  | equal c _ ih =>
    rw [distance_append_left]
    exact ih
  | @deleted _ a b c _ ih =>
    have := distance_append_le c [] a b
    rw [List.nil_append, distance_nil_right] at this
    simp only [edited]
    omega
  | @inserted _ a b c _ ih =>
    have := distance_append_le [] c a b
    rw [List.nil_append, distance_nil_left] at this
    simp only [edited]
    omega

end Turns

/-! ## Normal form -/

theorem turns_block_deleted (c : List α) : Turns (block .deleted c.length) c [] := by
  unfold block
  split_ifs with h
  · rw [List.length_eq_zero_iff.1 h]
    exact .nil
  · exact Turns.deleted_only c

theorem turns_block_inserted (c : List α) : Turns (block .inserted c.length) [] c := by
  unfold block
  split_ifs with h
  · rw [List.length_eq_zero_iff.1 h]
    exact .nil
  · exact Turns.inserted_only c

theorem turns_joinEqual {s : List Block} {a b : List α} (c : List α) (h : Turns s a b) :
    Turns (joinEqual c.length s) (c ++ a) (c ++ b) := by
  cases h with
  | nil => exact Turns.nil.equal c
  | equal c' h =>
    rw [← List.append_assoc, ← List.append_assoc]
    simpa [joinEqual] using h.equal (c ++ c')
  | deleted c' h => exact (h.deleted c').equal c
  | inserted c' h => exact (h.inserted c').equal c

/-- The lines deleted and inserted so far stand before what is left of both lists. -/
theorem turns_normalFrom {s : List Block} {a b : List α} (h : Turns s a b) :
    ∀ del ins : List α, Turns (normalFrom del.length ins.length s) (del ++ a) (ins ++ b) := by
  induction h with
  | nil =>
    intro del ins
    simpa [normalFrom] using (turns_block_deleted del).append (turns_block_inserted ins)
  | equal c h ih =>
    intro del ins
    simp only [normalFrom]
    split_ifs with hc
    · rw [List.length_eq_zero_iff.1 hc]
      exact ih del ins
    · have hedits := (turns_block_deleted del).append (turns_block_inserted ins)
      rw [List.append_nil, List.nil_append] at hedits
      exact hedits.append (turns_joinEqual c (ih [] []))
  | deleted c h ih =>
    intro del ins
    have := ih (del ++ c) ins
    rwa [List.length_append, List.append_assoc] at this
  | inserted c h ih =>
    intro del ins
    have := ih del (ins ++ c)
    rwa [List.length_append, List.append_assoc] at this

theorem edited_block : ∀ {kind} (n : Nat), kind ≠ .equal → edited (block kind n) = n
  | .equal, n, h => absurd rfl h
  | .deleted, n, _ | .inserted, n, _ => by
    unfold block
    split_ifs with h <;> simp [edited, h]

theorem edited_joinEqual (n : Nat) (s : List Block) : edited (joinEqual n s) = edited s := by
  unfold joinEqual
  split <;> simp [edited]

theorem edited_normalFrom : ∀ (s : List Block) (deleted inserted : Nat),
    edited (normalFrom deleted inserted s) = deleted + inserted + edited s
  | [], del, ins => by
    simp [normalFrom, edited, edited_append, edited_block]
  | ⟨.deleted, n⟩ :: s, del, ins => by
    simp only [normalFrom, edited, edited_normalFrom s]
    omega
  | ⟨.inserted, n⟩ :: s, del, ins => by
    simp only [normalFrom, edited, edited_normalFrom s]
    omega
  | ⟨.equal, n⟩ :: s, del, ins => by
    simp only [normalFrom, edited]
    split_ifs
    · exact edited_normalFrom s del ins
    · rw [edited_append, edited_append, edited_block del (by simp), edited_block ins (by simp),
        edited_joinEqual, edited_normalFrom s]
      omega

/-! ## Trimming the ends -/

variable [DecidableEq α]

theorem take_commonPrefix : ∀ a b : List α,
    a.take (commonPrefix a b) = b.take (commonPrefix a b)
  | [], b => by simp [commonPrefix]
  | x :: a, [] => by simp [commonPrefix]
  | x :: a, y :: b => by
    simp only [commonPrefix]
    split_ifs with h
    · rw [List.take_succ_cons, List.take_succ_cons, h, take_commonPrefix a b]
    · rfl

theorem commonPrefix_le : ∀ a b : List α,
    commonPrefix a b ≤ a.length ∧ commonPrefix a b ≤ b.length
  | [], b => by simp [commonPrefix]
  | x :: a, [] => by simp [commonPrefix]
  | x :: a, y :: b => by
    simp only [commonPrefix, List.length_cons]
    have := commonPrefix_le a b
    split_ifs <;> omega

theorem commonSuffix_le (a b : List α) :
    commonSuffix a b ≤ a.length ∧ commonSuffix a b ≤ b.length := by
  simpa [commonSuffix] using commonPrefix_le a.reverse b.reverse

theorem drop_commonSuffix (a b : List α) :
    a.drop (a.length - commonSuffix a b) = b.drop (b.length - commonSuffix a b) := by
  have := congrArg List.reverse (take_commonPrefix a.reverse b.reverse)
  rwa [List.take_reverse, List.take_reverse, List.reverse_reverse, List.reverse_reverse] at this

/-- A pair of lists without their common ends, and the ends. -/
structure Trimmed (a b left right front back : List α) : Prop where
  eqLeft : a = front ++ left ++ back
  eqRight : b = front ++ right ++ back
  heads : ∀ x y l r, left = x :: l → right = y :: r → x ≠ y
  lasts : left ≠ [] → right ≠ [] → left.getLast? ≠ right.getLast?

omit [DecidableEq α] in
theorem Turns.wrap {a b left right front back : List α} {s : List Block} (h : Turns s left right)
    (ht : Trimmed a b left right front back) :
    Turns (⟨.equal, front.length⟩ :: s ++ [⟨.equal, back.length⟩]) a b := by
  rw [ht.eqLeft, ht.eqRight]
  exact ((Turns.equal_only front).append h).append (Turns.equal_only back)

omit [DecidableEq α] in
theorem between_eq_take (p t : Nat) (a : List α) :
    between p t a = (a.drop p).take ((a.drop p).length - t) := by
  rw [between, List.length_drop]

omit [DecidableEq α] in
theorem getElem?_of_between {p t : Nat} {a l : List α} {x : α} (h : between p t a = x :: l) :
    a[p]? = some x := by
  have := congrArg (·[0]?) h
  simp only [between, List.getElem?_cons_zero, List.getElem?_take, List.getElem?_drop] at this
  split_ifs at this
  exact this

omit [DecidableEq α] in
theorem getLast?_take_length_sub {u : List α} {t : Nat} (h : u.take (u.length - t) ≠ []) :
    (u.take (u.length - t)).getLast? = u.reverse[t]? := by
  have hlen : 0 < (u.take (u.length - t)).length := List.length_pos_iff.2 h
  rw [List.length_take] at hlen
  rw [List.getLast?_eq_getElem?, List.length_take, List.getElem?_take_of_lt (by omega),
    List.getElem?_reverse (by omega)]
  congr 1
  omega

theorem trimmed (a b : List α) :
    ∃ front back : List α, front.length = commonPrefix a b ∧
      back.length = commonSuffix (a.drop (commonPrefix a b)) (b.drop (commonPrefix a b)) ∧
      Trimmed a b
        (between (commonPrefix a b)
          (commonSuffix (a.drop (commonPrefix a b)) (b.drop (commonPrefix a b))) a)
        (between (commonPrefix a b)
          (commonSuffix (a.drop (commonPrefix a b)) (b.drop (commonPrefix a b))) b)
        front back := by
  have hstart := commonPrefix_le a b
  have hfront := take_commonPrefix a b
  have hagree := not_agree_commonPrefix a b
  generalize commonPrefix a b = p at *
  have hstop := commonSuffix_le (a.drop p) (b.drop p)
  have hback := drop_commonSuffix (a.drop p) (b.drop p)
  have hlast := not_agree_commonPrefix (a.drop p).reverse (b.drop p).reverse
  rw [← commonSuffix] at hlast
  generalize commonSuffix (a.drop p) (b.drop p) = t at *
  refine ⟨a.take p, (a.drop p).drop ((a.drop p).length - t), ?_, ?_, ?_, ?_, ?_, ?_⟩
  · rw [List.length_take]
    omega
  · rw [List.length_drop (l := a.drop p)]
    omega
  · rw [between_eq_take, List.append_assoc, List.take_append_drop, List.take_append_drop]
  · rw [hfront, hback, between_eq_take, List.append_assoc, List.take_append_drop,
      List.take_append_drop]
  · rintro x y l r hx hy rfl
    exact hagree ⟨x, getElem?_of_between hx, getElem?_of_between hy⟩
  · intro hl hr heq
    rw [between_eq_take] at hl hr
    rw [between_eq_take, between_eq_take, getLast?_take_length_sub hl,
      getLast?_take_length_sub hr] at heq
    have hlen := List.length_pos_iff.2 hl
    rw [List.length_take] at hlen
    have hget := List.getElem?_eq_getElem (l := (a.drop p).reverse) (i := t)
      (by rw [List.length_reverse]; omega)
    exact hlast ⟨_, hget, heq ▸ hget⟩

/-! ## Shortest edits -/

/-- The edits turn the one list into the other with as few edits as there can be, and leave room in
the buffers. -/
structure Shortest (a b : List α) (n : Nat) (result : List Block × Frontiers) : Prop where
  turns : Turns result.1 a b
  edited : edited result.1 = distance a b
  roomForward : result.2.forward.Room n
  roomBackward : result.2.backward.Room n

theorem Shortest.wrap {a b left right front back : List α} {n : Nat}
    {result : List Block × Frontiers} (h : Shortest left right n result)
    (ht : Trimmed a b left right front back) :
    Shortest a b n (⟨.equal, front.length⟩ :: result.1 ++ [⟨.equal, back.length⟩], result.2) := by
  refine ⟨h.turns.wrap ht, ?_, h.roomForward, h.roomBackward⟩
  rw [ht.eqLeft, ht.eqRight, distance_append_right, distance_append_left, ← h.edited]
  simp [Diff.edited, edited_append]

/-- Lists that differ at both ends are cut somewhere between their corners. -/
theorem Halves.cuts {a b : List α} {x y : Nat} (h : Halves a b x y) (hfar : 2 ≤ distance a b) :
    cuts x y a.length b.length := by
  refine ⟨h.left, h.right, fun hstart => ?_, fun hstop => ?_⟩
  · have := h.before
    simp only [Prod.mk.injEq] at hstart
    simp only [hstart.1, hstart.2, List.take_zero, distance_nil_left, List.length_nil] at this
    omega
  · have := h.after
    simp only [Prod.mk.injEq] at hstop
    simp only [hstop.1, hstop.2, List.drop_length, distance_nil_left, List.length_nil] at this
    omega

/-- The edits of the two halves, one after the other. -/
theorem Shortest.join {a b : List α} {x y n : Nat} {first second : List Block × Frontiers}
    (h : Halves a b x y) (h₁ : Shortest (a.take x) (b.take y) n first)
    (h₂ : Shortest (a.drop x) (b.drop y) n second) :
    Shortest a b n (first.1 ++ second.1, second.2) := by
  refine ⟨h₁.turns.join h₂.turns, ?_, h₂.roomForward, h₂.roomBackward⟩
  have hbefore := h.before
  have hafter := h.after
  simp only [edited_append, h₁.edited, h₂.edited]
  omega

theorem maxEdits_mono {n m n' m' : Nat} (h : n' + m' ≤ n + m) : maxEdits n' m' ≤ maxEdits n m := by
  unfold maxEdits
  omega

/-- Every search for a cut that the edits from one list to the other make has a result, so none
reads or writes past the ends of its buffers. -/
inductive Searched : List α → List α → Frontiers → Prop
  | ends {a b left right : List α} {fs : Frontiers} {front back : Nat}
    (hfront : front = commonPrefix a b)
    (hback : back = commonSuffix (a.drop front) (b.drop front))
    (hleft : between front back a = left) (hright : between front back b = right)
    (h : left = [] ∨ right = []) : Searched a b fs
  | halves {a b left right : List α} {fs fs' : Frontiers} {front back x y : Nat}
    (hfront : front = commonPrefix a b)
    (hback : back = commonSuffix (a.drop front) (b.drop front))
    (hleft : between front back a = left) (hright : between front back b = right)
    (hsnake : middleSnake left right fs = (some (x, y), fs'))
    (hcuts : cuts x y left.length right.length)
    (first : Searched (left.take x) (right.take y) fs')
    (second : Searched (left.drop x) (right.drop y) (edits (left.take x) (right.take y) fs').2) :
    Searched a b fs

theorem edits_shortest (n : Nat) : ∀ (a b : List α) (fs : Frontiers),
    maxEdits a.length b.length ≤ n → fs.forward.Room n → fs.backward.Room n →
    Searched a b fs ∧ Shortest a b n (edits a b fs) := by
  intro a b
  induction hlen : a.length + b.length using Nat.strong_induction_on generalizing a b with
  | _ len ih =>
    intro fs hn hf hb
    obtain ⟨front, back, hfront, hback, ht⟩ := trimmed a b
    rw [edits]
    simp only []
    rw [← hback, ← hfront] at ht ⊢
    rw [← hfront] at hback
    have hleft := congrArg List.length ht.eqLeft
    have hright := congrArg List.length ht.eqRight
    simp only [List.length_append] at hleft hright
    generalize hinner : between front.length back.length a = left at *
    generalize hinner' : between front.length back.length b = right at *
    rcases left with _ | ⟨x, l⟩
    · exact ⟨.ends hfront hback hinner hinner' (.inl rfl),
        .wrap ⟨Turns.inserted_only right, by simp [edited], hf, hb⟩ ht⟩
    rcases right with _ | ⟨y, r⟩
    · exact ⟨.ends hfront hback hinner hinner' (.inr rfl),
        .wrap ⟨Turns.deleted_only (x :: l), by simp [edited], hf, hb⟩ ht⟩
    have hsmall : maxEdits (x :: l).length (y :: r).length ≤ n :=
      (maxEdits_mono (by omega)).trans hn
    obtain ⟨i, j, fs', hsnake, hhalves, hf', hb'⟩ :=
      middleSnake_halves (.inl (List.cons_ne_nil x l)) hsmall hf hb
    have hcuts := hhalves.cuts
      (two_le_distance (ht.heads x y l r rfl rfl) (ht.lasts (by simp) (by simp)))
    have hlt := cuts_lt hcuts
    have hi := hhalves.left
    have hj := hhalves.right
    simp only [List.isEmpty_cons, Bool.false_eq_true, if_false, hsnake, dif_pos hcuts]
    obtain ⟨hsearched, hfirst⟩ := ih _ (by simp only [List.length_take]; omega) ((x :: l).take i)
      ((y :: r).take j) rfl fs'
      ((maxEdits_mono (by simp only [List.length_take]; omega)).trans hsmall) hf' hb'
    obtain ⟨hsearched', hsecond⟩ := ih _ (by simp only [List.length_drop]; omega)
      ((x :: l).drop i) ((y :: r).drop j) rfl _
      ((maxEdits_mono (by simp only [List.length_drop]; omega)).trans hsmall) hfirst.roomForward
      hfirst.roomBackward
    exact ⟨.halves hfront hback hinner hinner' hsnake hcuts hsearched hsearched',
      (Shortest.join hhalves hfirst hsecond).wrap ht⟩

theorem compare_searched (a b : List α) :
    Searched a b ⟨.new (maxEdits a.length b.length), .new (maxEdits a.length b.length)⟩ :=
  (edits_shortest _ a b _ le_rfl (Frontier.room_new _) (Frontier.room_new _)).1

/-- A diff turns the one list into the other, with as few edits as there can be. -/
theorem compare_shortest (a b : List α) :
    Turns (compare a b) a b ∧ edited (compare a b) = distance a b := by
  obtain ⟨-, h⟩ := edits_shortest (maxEdits a.length b.length) a b
    ⟨.new (maxEdits a.length b.length), .new (maxEdits a.length b.length)⟩ le_rfl
    (Frontier.room_new _) (Frontier.room_new _)
  refine ⟨turns_normalFrom h.turns [] [], ?_⟩
  rw [compare, normal, edited_normalFrom, h.edited]
  omega

/-- The diff of two texts is a script from the lines of the one to the lines of the other. Its
deleted and inserted lines are as many as both texts have together less twice the length of a
longest common subsequence of their lines, and no script has fewer. -/
theorem ofTexts_minimal (base head : List UInt8) :
    Turns (ofTexts base head) (splitLines base) (splitLines head) ∧
      (∃ c, LongestCommon c (splitLines base) (splitLines head)) ∧
      (∀ c, LongestCommon c (splitLines base) (splitLines head) →
        edited (ofTexts base head) + 2 * c.length =
          (splitLines base).length + (splitLines head).length) ∧
      ∀ script, Turns script (splitLines base) (splitLines head) →
        edited (ofTexts base head) ≤ edited script := by
  obtain ⟨hturns, hedited⟩ := compare_shortest (splitLines base) (splitLines head)
  refine ⟨hturns, exists_longestCommon _ _, fun c hc => ?_, fun script hs => ?_⟩
  · rw [ofTexts, hedited]
    exact hc.distance_eq
  · rw [ofTexts, hedited]
    exact hs.distance_le

end StructPadding.Diff
