import Mathlib.Order.Nat
import StructPadding.Diff.Snake

/-!
# Edit distance

The distance between two lists is the least number of items to delete and insert. What an edit does
not touch is common to both lists, so the distance is the lengths together less twice the length of
a longest common subsequence (`LongestCommon.distance_eq`). Neither changes when both lists are
reversed, so the distance can be read from either end (`distance_concat`).
-/

namespace StructPadding.Diff

variable {α : Type}

/-- A longest list that both lists hold in order, with gaps. -/
structure LongestCommon (c a b : List α) : Prop where
  left : c.Sublist a
  right : c.Sublist b
  longest : ∀ c' : List α, c'.Sublist a → c'.Sublist b → c'.length ≤ c.length

variable [DecidableEq α]

/-- The least number of items to delete from the one list and insert to get the other. -/
def distance : List α → List α → Nat
  | [], bs => bs.length
  | as, [] => as.length
  | a :: as, b :: bs =>
    if a = b then distance as bs
    else min (distance as (b :: bs)) (distance (a :: as) bs) + 1

@[simp]
theorem distance_nil_left (b : List α) : distance [] b = b.length := by
  cases b <;> simp [distance]

@[simp]
theorem distance_nil_right (a : List α) : distance a [] = a.length := by
  cases a <;> simp [distance]

theorem distance_cons_self (x : α) (a b : List α) :
    distance (x :: a) (x :: b) = distance a b := by
  simp [distance]

theorem distance_cons_of_ne {x y : α} (h : x ≠ y) (a b : List α) :
    distance (x :: a) (y :: b) = min (distance a (y :: b)) (distance (x :: a) b) + 1 := by
  simp [distance, h]

/-! ## Longest common subsequences -/

omit [DecidableEq α] in
/-- A common subsequence of two lists with different heads does without one of them. -/
theorem sublist_cons_of_ne {x y : α} (h : x ≠ y) {c a b : List α}
    (ha : c.Sublist (x :: a)) (hb : c.Sublist (y :: b)) : c.Sublist a ∨ c.Sublist b := by
  rcases List.sublist_cons_iff.1 ha with ha | ⟨r, rfl, -⟩
  · exact .inl ha
  · rcases List.sublist_cons_iff.1 hb with hb | ⟨r', hr, -⟩
    · exact .inr hb
    · simp only [List.cons.injEq] at hr
      exact absurd hr.1 h

theorem distance_add_le : ∀ (a b : List α) {c : List α}, c.Sublist a → c.Sublist b →
    distance a b + 2 * c.length ≤ a.length + b.length
  | [], b, c, ha, _ => by
    rw [List.sublist_nil] at ha
    simp [ha]
  | x :: a, [], c, _, hb => by
    rw [List.sublist_nil] at hb
    simp [hb]
  | x :: a, y :: b, c, ha, hb => by
    by_cases h : x = y
    · subst h
      have ih := distance_add_le a b (c := c.tail) (by simpa using ha.tail) (by simpa using hb.tail)
      rw [distance_cons_self]
      simp only [List.length_tail, List.length_cons] at ih ⊢
      omega
    · rw [distance_cons_of_ne h]
      rcases sublist_cons_of_ne h ha hb with hc | hc
      · have ih := distance_add_le a (y :: b) hc hb
        simp only [List.length_cons] at ih ⊢
        omega
      · have ih := distance_add_le (x :: a) b ha hc
        simp only [List.length_cons] at ih ⊢
        omega

theorem exists_common : ∀ a b : List α, ∃ c : List α, c.Sublist a ∧ c.Sublist b ∧
    distance a b + 2 * c.length = a.length + b.length
  | [], b => ⟨[], by simp, by simp, by simp⟩
  | x :: a, [] => ⟨[], by simp, by simp, by simp⟩
  | x :: a, y :: b => by
    by_cases h : x = y
    · subst h
      obtain ⟨c, ha, hb, hc⟩ := exists_common a b
      refine ⟨x :: c, ha.cons_cons x, hb.cons_cons x, ?_⟩
      rw [distance_cons_self]
      simp only [List.length_cons]
      omega
    · rw [distance_cons_of_ne h]
      -- the cheaper of the two edits also gives the common subsequence
      rcases Nat.le_total (distance a (y :: b)) (distance (x :: a) b) with hle | hle
      · obtain ⟨c, ha, hb, hc⟩ := exists_common a (y :: b)
        refine ⟨c, ha.cons x, hb, ?_⟩
        rw [Nat.min_eq_left hle]
        simp only [List.length_cons] at hc ⊢
        omega
      · obtain ⟨c, ha, hb, hc⟩ := exists_common (x :: a) b
        refine ⟨c, ha, hb.cons y, ?_⟩
        rw [Nat.min_eq_right hle]
        simp only [List.length_cons] at hc ⊢
        omega

theorem exists_longestCommon (a b : List α) : ∃ c, LongestCommon c a b := by
  obtain ⟨c, ha, hb, hc⟩ := exists_common a b
  refine ⟨c, ha, hb, fun c' ha' hb' => ?_⟩
  have := distance_add_le a b ha' hb'
  omega

theorem LongestCommon.distance_eq {c a b : List α} (h : LongestCommon c a b) :
    distance a b + 2 * c.length = a.length + b.length := by
  obtain ⟨c', ha, hb, hc⟩ := exists_common a b
  have h1 := h.longest c' ha hb
  have h2 := distance_add_le a b h.left h.right
  omega

/-! ## Both ends -/

theorem distance_reverse (a b : List α) : distance a.reverse b.reverse = distance a b := by
  obtain ⟨c, ha, hb, hc⟩ := exists_common a b
  obtain ⟨r, har, hbr, hr⟩ := exists_common a.reverse b.reverse
  have h1 := distance_add_le a.reverse b.reverse ha.reverse hb.reverse
  have h2 := distance_add_le a b (List.reverse_sublist.1 (by simpa using har))
    (List.reverse_sublist.1 (by simpa using hbr)) (c := r.reverse)
  simp only [List.length_reverse] at hr h1 h2
  omega

theorem distance_comm (a b : List α) : distance a b = distance b a := by
  obtain ⟨c, ha, hb, hc⟩ := exists_common a b
  obtain ⟨r, hbr, har, hr⟩ := exists_common b a
  have h1 := distance_add_le b a hb ha
  have h2 := distance_add_le a b har hbr
  omega

theorem distance_append_le (a b a' b' : List α) :
    distance (a ++ a') (b ++ b') ≤ distance a b + distance a' b' := by
  obtain ⟨c, ha, hb, hc⟩ := exists_common a b
  obtain ⟨c', ha', hb', hc'⟩ := exists_common a' b'
  have := distance_add_le (a ++ a') (b ++ b') (ha.append ha') (hb.append hb')
  simp only [List.length_append] at this
  omega

theorem distance_append_left : ∀ p a b : List α, distance (p ++ a) (p ++ b) = distance a b
  | [], a, b => rfl
  | x :: p, a, b => by
    rw [List.cons_append, List.cons_append, distance_cons_self, distance_append_left p a b]

theorem distance_self (a : List α) : distance a a = 0 := by
  simpa using distance_append_left a [] []

theorem distance_append_right (a b s : List α) :
    distance (a ++ s) (b ++ s) = distance a b := by
  rw [← distance_reverse, List.reverse_append, List.reverse_append, distance_append_left,
    distance_reverse]

theorem distance_concat_of_ne {x y : α} (h : x ≠ y) (a b : List α) :
    distance (a ++ [x]) (b ++ [y]) =
      min (distance a (b ++ [y])) (distance (a ++ [x]) b) + 1 := by
  rw [← distance_reverse, ← distance_reverse a, ← distance_reverse _ b]
  simp only [List.reverse_append, List.reverse_cons, List.reverse_nil, List.nil_append,
    List.singleton_append]
  exact distance_cons_of_ne h _ _

/-! ## Size -/

theorem distance_le (a b : List α) : distance a b ≤ a.length + b.length := by
  have := distance_add_le a b (List.nil_sublist a) (List.nil_sublist b)
  omega

theorem length_le_distance (a b : List α) :
    a.length ≤ b.length + distance a b ∧ b.length ≤ a.length + distance a b := by
  obtain ⟨c, ha, hb, hc⟩ := exists_common a b
  have h1 := ha.length_le
  have h2 := hb.length_le
  omega

theorem distance_parity (a b : List α) : distance a b % 2 = (a.length + b.length) % 2 := by
  obtain ⟨c, -, -, hc⟩ := exists_common a b
  omega

theorem eq_of_distance_eq_zero {a b : List α} (h : distance a b = 0) : a = b := by
  obtain ⟨c, ha, hb, hc⟩ := exists_common a b
  have h1 := ha.length_le
  have h2 := hb.length_le
  rw [← ha.eq_of_length (by omega), ← hb.eq_of_length (by omega)]

/-- One edit only shows at one end: lists that differ in their first and in their last item are
further apart. -/
theorem two_le_distance {x y : α} {a b : List α} (hhead : x ≠ y)
    (hlast : (x :: a).getLast? ≠ (y :: b).getLast?) : 2 ≤ distance (x :: a) (y :: b) := by
  rw [distance_cons_of_ne hhead]
  by_contra hlt
  rcases Nat.le_total (distance a (y :: b)) (distance (x :: a) b) with hle | hle
  · have := eq_of_distance_eq_zero (a := a) (b := y :: b) (by omega)
    simp [this] at hlast
  · have := eq_of_distance_eq_zero (a := x :: a) (b := b) (by omega)
    simp [← this] at hlast

/-! ## Cutting in two -/

theorem distance_le_cut (a b : List α) (x y : Nat) :
    distance a b ≤ distance (a.take x) (b.take y) + distance (a.drop x) (b.drop y) := by
  have := distance_append_le (a.take x) (b.take y) (a.drop x) (b.drop y)
  rwa [List.take_append_drop, List.take_append_drop] at this

/-- A shortest edit can be cut after any number of its steps. -/
theorem exists_cut : ∀ (a b : List α) (t : Nat), t ≤ distance a b →
    ∃ i j, i ≤ a.length ∧ j ≤ b.length ∧ distance (a.take i) (b.take j) ≤ t ∧
      distance (a.drop i) (b.drop j) + t ≤ distance a b
  | a, b, 0, _ => ⟨0, 0, by simp, by simp, by simp, by simp⟩
  | [], b, t + 1, h => by
    rw [distance_nil_left] at h
    refine ⟨0, t + 1, by simp, h, ?_, ?_⟩
    · simp only [List.take_nil, distance_nil_left, List.length_take]
      omega
    · simp only [List.drop_nil, distance_nil_left, List.length_drop]
      omega
  | x :: a, [], t + 1, h => by
    rw [distance_nil_right] at h
    refine ⟨t + 1, 0, h, by simp, ?_, ?_⟩
    · simp only [List.take_nil, distance_nil_right, List.length_take]
      omega
    · simp only [List.drop_nil, distance_nil_right, List.length_drop]
      omega
  | x :: a, y :: b, t + 1, h => by
    by_cases hxy : x = y
    · subst hxy
      rw [distance_cons_self] at h
      obtain ⟨i, j, hi, hj, h1, h2⟩ := exists_cut a b (t + 1) h
      refine ⟨i + 1, j + 1, by simpa using hi, by simpa using hj, ?_, ?_⟩
      · rwa [List.take_succ_cons, List.take_succ_cons, distance_cons_self]
      · rwa [List.drop_succ_cons, List.drop_succ_cons, distance_cons_self]
    · rw [distance_cons_of_ne hxy] at h ⊢
      rcases Nat.le_total (distance a (y :: b)) (distance (x :: a) b) with hle | hle
      · obtain ⟨i, j, hi, hj, h1, h2⟩ := exists_cut a (y :: b) t (by omega)
        refine ⟨i + 1, j, by simpa using hi, hj, ?_, ?_⟩
        · have := distance_append_le [x] [] (a.take i) ((y :: b).take j)
          simp only [List.singleton_append, List.nil_append, distance_nil_right,
            List.length_singleton] at this
          rw [List.take_succ_cons]
          omega
        · rw [List.drop_succ_cons]
          omega
      · obtain ⟨i, j, hi, hj, h1, h2⟩ := exists_cut (x :: a) b t (by omega)
        refine ⟨i, j + 1, hi, by simpa using hj, ?_, ?_⟩
        · have := distance_append_le [] [y] ((x :: a).take i) (b.take j)
          simp only [List.singleton_append, List.nil_append, distance_nil_left,
            List.length_singleton] at this
          rw [List.take_succ_cons]
          omega
        · rw [List.drop_succ_cons]
          omega
termination_by a b => a.length + b.length

end StructPadding.Diff
