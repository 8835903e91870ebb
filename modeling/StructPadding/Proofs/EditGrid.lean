import StructPadding.Proofs.EditDistance

/-!
# The edit grid

A point `(x, y)` stands for the first `x` items of one list and the first `y` of another. A search
may also step past the ends of the lists, where nothing matches any more and every step costs an
edit. `reach` is what it costs to get to a point, in the grid or past it. It never falls along a
diagonal (`reach_le_diagonal`), and a point past the grid costs more than going straight to the
corner (`distance_of_outside`), so two searches that overlap bound the distance
(`distance_of_overlap`).
-/

namespace StructPadding.Diff

variable {α : Type} [DecidableEq α] (a b : List α)

/-- The edits it takes to get to a point of the grid. -/
def reach (x y : Nat) : Nat :=
  distance (a.take x) (b.take y) + (x - a.length) + (y - b.length)

/-- Both lists go on with the same item. -/
def Agree (x y : Nat) : Prop :=
  ∃ c, a[x]? = some c ∧ b[y]? = some c

@[simp]
theorem reach_zero : reach a b 0 0 = 0 := by
  simp [reach]

theorem reach_of_le {x y : Nat} (hx : x ≤ a.length) (hy : y ≤ b.length) :
    reach a b x y = distance (a.take x) (b.take y) := by
  unfold reach
  omega

/-- The way from a point to the far corner, walked backwards. -/
theorem reach_reverse {x y : Nat} (hx : x ≤ a.length) (hy : y ≤ b.length) :
    reach a.reverse b.reverse (a.length - x) (b.length - y) =
      distance (a.drop x) (b.drop y) := by
  rw [reach_of_le _ _ (by simp) (by simp), List.take_reverse, List.take_reverse,
    distance_reverse, Nat.sub_sub_self hx, Nat.sub_sub_self hy]

theorem reach_parity (x y : Nat) : reach a b x y % 2 = (x + y) % 2 := by
  have := distance_parity (a.take x) (b.take y)
  simp only [List.length_take] at this
  unfold reach
  omega

theorem le_add_reach (x y : Nat) : x ≤ y + reach a b x y ∧ y ≤ x + reach a b x y := by
  have := length_le_distance (a.take x) (b.take y)
  simp only [List.length_take] at this
  unfold reach
  omega

/-! ## Single steps -/

variable {a b}

theorem distance_concat_left (a b : List α) (x : α) :
    distance (a ++ [x]) b ≤ distance a b + 1 ∧ distance a b ≤ distance (a ++ [x]) b + 1 := by
  constructor
  · simpa using distance_append_le a b [x] []
  · obtain ⟨c, ha, hb, hc⟩ := exists_common (a ++ [x]) b
    obtain ⟨c₁, c₂, rfl, h₁, h₂⟩ := List.sublist_append_iff.1 ha
    have := distance_add_le a b h₁ ((List.sublist_append_left c₁ c₂).trans hb)
    have hone := h₂.length_le
    simp only [List.length_append, List.length_singleton] at this hone hc
    omega

theorem reach_delete (x y : Nat) :
    reach a b (x + 1) y ≤ reach a b x y + 1 ∧ reach a b x y ≤ reach a b (x + 1) y + 1 := by
  unfold reach
  by_cases hx : x < a.length
  · rw [List.take_add_one, List.getElem?_eq_getElem hx]
    have := distance_concat_left (a.take x) (b.take y) a[x]
    simp only [Option.toList_some]
    omega
  · rw [List.take_of_length_le (l := a) (by omega), List.take_of_length_le (l := a) (by omega)]
    omega

theorem reach_comm (x y : Nat) : reach a b x y = reach b a y x := by
  unfold reach
  rw [distance_comm]
  omega

theorem reach_insert (x y : Nat) :
    reach a b x (y + 1) ≤ reach a b x y + 1 ∧ reach a b x y ≤ reach a b x (y + 1) + 1 := by
  rw [reach_comm x (y + 1), reach_comm x y]
  exact reach_delete y x

theorem reach_keep {x y : Nat} (h : Agree a b x y) :
    reach a b (x + 1) (y + 1) = reach a b x y := by
  obtain ⟨c, ha, hb⟩ := h
  obtain ⟨hx, -⟩ := List.getElem?_eq_some_iff.1 ha
  obtain ⟨hy, -⟩ := List.getElem?_eq_some_iff.1 hb
  rw [reach_of_le _ _ hx hy, reach_of_le _ _ hx.le hy.le, List.take_add_one, List.take_add_one, ha,
    hb]
  exact distance_append_right _ _ _

/-- Where the lists do not go on with the same item, the last step to a point was an edit. -/
theorem reach_edit {x y : Nat} (h : ¬Agree a b x y) :
    min (reach a b x (y + 1)) (reach a b (x + 1) y) + 1 ≤ reach a b (x + 1) (y + 1) := by
  by_cases hx : x < a.length
  · by_cases hy : y < b.length
    · have hne : a[x] ≠ b[y] := fun he =>
        h ⟨a[x], List.getElem?_eq_getElem hx, by rw [List.getElem?_eq_getElem hy, he]⟩
      have := distance_concat_of_ne hne (a.take x) (b.take y)
      rw [reach_of_le _ _ hx.le hy, reach_of_le _ _ hx hy.le, reach_of_le _ _ hx hy]
      simp only [List.take_add_one, List.getElem?_eq_getElem hx, List.getElem?_eq_getElem hy,
        Option.toList_some]
      omega
    · refine le_trans (Nat.add_le_add_right (Nat.min_le_right _ _) 1) ?_
      unfold reach
      rw [List.take_of_length_le (l := b) (by omega), List.take_of_length_le (l := b) (by omega)]
      omega
  · refine le_trans (Nat.add_le_add_right (Nat.min_le_left _ _) 1) ?_
    unfold reach
    rw [List.take_of_length_le (l := a) (by omega), List.take_of_length_le (l := a) (by omega)]
    omega

/-! ## Diagonals -/

theorem reach_le_succ_succ (x y : Nat) : reach a b x y ≤ reach a b (x + 1) (y + 1) := by
  by_cases h : Agree a b x y
  · exact (reach_keep h).ge
  · have hedit := reach_edit h
    have hinsert := (reach_insert (a := a) (b := b) x y).2
    have hdelete := (reach_delete (a := a) (b := b) x y).2
    omega

theorem reach_le_diagonal (x y : Nat) : ∀ t, reach a b x y ≤ reach a b (x + t) (y + t)
  | 0 => le_rfl
  | t + 1 => (reach_le_diagonal x y t).trans (reach_le_succ_succ (x + t) (y + t))

theorem reach_slide {x y : Nat} : ∀ t, (∀ s < t, Agree a b (x + s) (y + s)) →
    reach a b (x + t) (y + t) = reach a b x y
  | 0, _ => rfl
  | t + 1, h => by
    rw [← Nat.add_assoc, ← Nat.add_assoc, reach_keep (h t (Nat.lt_succ_self t)),
      reach_slide t fun s hs => h s (by omega)]

theorem distance_drop_slide {x y : Nat} : ∀ t, (∀ s < t, Agree a b (x + s) (y + s)) →
    distance (a.drop (x + t)) (b.drop (y + t)) = distance (a.drop x) (b.drop y)
  | 0, _ => rfl
  | t + 1, h => by
    obtain ⟨c, ha, hb⟩ := h t (Nat.lt_succ_self t)
    obtain ⟨hx, rfl⟩ := List.getElem?_eq_some_iff.1 ha
    obtain ⟨hy, he⟩ := List.getElem?_eq_some_iff.1 hb
    rw [← distance_drop_slide t fun s hs => h s (by omega), List.drop_eq_getElem_cons hx,
      List.drop_eq_getElem_cons hy, he, distance_cons_self, Nat.add_assoc, Nat.add_assoc]

/-! ## Past the grid and across it -/

theorem distance_drop_le {x y : Nat} (hx : x ≤ a.length) (hy : y ≤ b.length) :
    distance a b ≤ reach a b x y + distance (a.drop x) (b.drop y) := by
  rw [reach_of_le _ _ hx hy]
  exact distance_le_cut a b x y

/-- To get to a point past the grid and back to the diagonal of the far corner takes two edits more
than to get to the corner. -/
theorem distance_of_outside {x y e : Nat} (hout : ¬(x ≤ a.length ∧ y ≤ b.length))
    (hx : x + b.length ≤ y + a.length + e) (hy : y + a.length ≤ x + b.length + e) :
    distance a b + 2 ≤ reach a b x y + e := by
  have hcut := distance_le_cut a b x y
  have hrest := distance_le (a.drop x) (b.drop y)
  simp only [List.length_drop] at hrest
  unfold reach
  omega

/-- A search from the start and one from the end that overlap on a diagonal: the edits of both are
enough, and two too many if the first one is past the grid. -/
theorem distance_of_overlap (x y x' y' : Nat) (hover : a.length ≤ x + x')
    (hdiag : x + x' + b.length = y + y' + a.length) :
    (x ≤ a.length ∧ y ≤ b.length ∧
        distance (a.drop x) (b.drop y) ≤ reach a.reverse b.reverse x' y') ∨
      distance a b + 2 ≤ reach a b x y + reach a.reverse b.reverse x' y' := by
  by_cases hin : x ≤ a.length ∧ y ≤ b.length
  · refine .inl ⟨hin.1, hin.2, ?_⟩
    have := reach_le_diagonal (a := a.reverse) (b := b.reverse) (a.length - x) (b.length - y)
      (x + x' - a.length)
    rw [reach_reverse a b hin.1 hin.2] at this
    rwa [show a.length - x + (x + x' - a.length) = x' by omega,
      show b.length - y + (x + x' - a.length) = y' by omega] at this
  · refine .inr (distance_of_outside hin ?_ ?_) <;>
      have := le_add_reach a.reverse b.reverse x' y' <;> omega

end StructPadding.Diff
