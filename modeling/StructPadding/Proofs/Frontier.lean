import StructPadding.Proofs.EditGrid

/-!
# Frontiers

A sweep with `d` edits leaves in its buffer, for every diagonal it visits, the furthest point that
`d` edits get to there. The furthest point of the sweep before on either neighbour is one edit away
from the diagonal; from the better of the two the lists are followed for as long as they agree
(`slide?_furthest`). A sweep reads only diagonals of the sweep before and writes only its own, so
both stand in one buffer, and whatever else the buffer holds is never looked at.
-/

namespace StructPadding.Diff

variable {α : Type} [DecidableEq α]

/-! ## Runs of equal items -/

omit [DecidableEq α] in
theorem agree_drop {a b : List α} {i j s : Nat} :
    Agree (a.drop i) (b.drop j) s s ↔ Agree a b (i + s) (j + s) := by
  simp only [Agree, List.getElem?_drop]

theorem agree_of_lt_commonPrefix : ∀ (a b : List α) {s : Nat}, s < commonPrefix a b → Agree a b s s
  | [], _, s, h => by simp [commonPrefix] at h
  | _ :: _, [], s, h => by simp [commonPrefix] at h
  | x :: a, y :: b, s, h => by
    simp only [commonPrefix] at h
    split_ifs at h with hxy
    · subst hxy
      rcases s with _ | s
      · exact ⟨x, rfl, rfl⟩
      · obtain ⟨c, ha, hb⟩ := agree_of_lt_commonPrefix a b (s := s) (by omega)
        exact ⟨c, by simpa using ha, by simpa using hb⟩
    · omega

theorem not_agree_commonPrefix : ∀ a b : List α,
    ¬Agree a b (commonPrefix a b) (commonPrefix a b)
  | [], _, ⟨c, ha, _⟩ => by simp at ha
  | _ :: _, [], ⟨c, _, hb⟩ => by simp at hb
  | x :: a, y :: b, ⟨c, ha, hb⟩ => by
    simp only [commonPrefix] at ha hb
    split_ifs at ha hb with hxy
    · exact not_agree_commonPrefix a b ⟨c, by simpa using ha, by simpa using hb⟩
    · simp only [List.getElem?_cons_zero, Option.some.injEq] at ha hb
      exact hxy (ha.trans hb.symm)

/-! ## Furthest points -/

variable (a b : List α)

/-- The furthest point on the diagonal `k` that `d` edits get to. -/
def Furthest (d : Nat) (k x : Int) : Prop :=
  ∃ i j : Nat, x = i ∧ k = i - j ∧ reach a b i j ≤ d ∧ d < reach a b (i + 1) (j + 1)

/-- A point on the diagonal `k` within `d` edits, with nothing next to the rest of the diagonal
that is closer. -/
def Landing (d : Nat) (k : Int) (i j : Nat) : Prop :=
  k = i - j ∧ reach a b i j ≤ d ∧
    ∀ t, d ≤ reach a b (i + t) (j + t + 1) ∧ d ≤ reach a b (i + t + 1) (j + t)

variable {a b}

theorem Furthest.le {d i j : Nat} {k x : Int} (h : Furthest a b d k x) (hk : k = i - j)
    (hr : reach a b i j ≤ d) : (i : Int) ≤ x := by
  obtain ⟨i', j', rfl, hk', -, hfar⟩ := h
  by_contra hlt
  have := reach_le_diagonal (a := a) (b := b) (i' + 1) (j' + 1) (i - (i' + 1))
  rw [show i' + 1 + (i - (i' + 1)) = i by omega, show j' + 1 + (i - (i' + 1)) = j by omega] at this
  omega

theorem Furthest.beyond {d i j : Nat} {k x : Int} (h : Furthest a b d k x) (hk : k = i - j)
    (hx : x < i) : d + 1 ≤ reach a b i j := by
  by_contra hlt
  have := h.le hk (by omega)
  omega

theorem Furthest.run {d k i j : Nat} {x : Int} (hl : Landing a b d (i - j : Int) i j)
    (hx : x = i + k) (hagree : ∀ s < k, Agree a b (i + s) (j + s))
    (hstop : ¬Agree a b (i + k) (j + k)) : Furthest a b d (i - j : Int) x := by
  obtain ⟨-, hreach, hnext⟩ := hl
  refine ⟨i + k, j + k, by omega, by omega, by rwa [reach_slide k hagree], ?_⟩
  have hedit := reach_edit hstop
  have := hnext k
  omega

theorem slide?_furthest {d i j : Nat} {k : Int} (hl : Landing a b d k i j) :
    ∃ r : Nat, slide? a b k i = some ((i + r : Nat) : Int) ∧ Furthest a b d k (i + r : Nat) ∧
      ∀ s < r, Agree a b (i + s) (j + s) := by
  obtain rfl := hl.1
  unfold slide?
  by_cases hin : i < a.length ∧ j < b.length
  · rw [if_pos (by omega), if_pos (by omega), Int.toNat_natCast,
      show ((i : Int) - (i - j)).toNat = j by omega]
    have hagree : ∀ s < commonPrefix (a.drop i) (b.drop j), Agree a b (i + s) (j + s) :=
      fun s hs => agree_drop.1 (agree_of_lt_commonPrefix _ _ hs)
    refine ⟨commonPrefix (a.drop i) (b.drop j), by simp, Furthest.run hl (by simp) hagree ?_,
      hagree⟩
    exact fun h => not_agree_commonPrefix _ _ (agree_drop.2 h)
  · rw [if_neg (by omega)]
    refine ⟨0, by simp, Furthest.run (k := 0) hl (by simp) (by simp) ?_, by simp⟩
    -- past the ends of the lists there is nothing to agree on
    rintro ⟨c, ha, hb⟩
    obtain ⟨hi, -⟩ := List.getElem?_eq_some_iff.1 ha
    obtain ⟨hj, -⟩ := List.getElem?_eq_some_iff.1 hb
    omega

/-! ## Buffers -/

namespace Frontier

/-- The buffer has a cell for every diagonal from `-n` to `n - 1`. -/
structure Room (f : Frontier) (n : Nat) : Prop where
  offset : n ≤ f.offset
  size : f.cells.size = 2 * f.offset

theorem room_new (n : Nat) : (new n).Room n :=
  ⟨le_rfl, by simp [new]⟩

theorem read?_of_room {f : Frontier} {n : Nat} {k : Int} (hr : f.Room n) (hlo : -n ≤ k)
    (hhi : k < n) : ∃ x, f.read? k = some x := by
  obtain ⟨hoffset, hsize⟩ := hr
  unfold read?
  rw [if_pos (by omega), Array.getElem?_eq_getElem (by omega)]
  exact ⟨_, rfl⟩

theorem write?_of_room {f : Frontier} {n : Nat} {k : Int} (x : Int) (hr : f.Room n) (hlo : -n ≤ k)
    (hhi : k < n) :
    ∃ f', f.write? k x = some f' ∧ f'.Room n ∧ f'.read? k = some x ∧
      ∀ j, j ≠ k → f'.read? j = f.read? j := by
  obtain ⟨hoffset, hsize⟩ := hr
  unfold write?
  rw [dif_pos (by omega)]
  refine ⟨_, rfl, ⟨hoffset, by simpa using hsize⟩, ?_, fun j hj => ?_⟩
  · simp only [read?]
    rw [if_pos (by omega), Array.getElem?_set, if_pos rfl]
  · simp only [read?]
    split_ifs with hpos
    · rw [Array.getElem?_set, if_neg (by omega)]
    · rfl

end Frontier

/-! ## Sweeps -/

/-- The diagonals that `d` edits end on. -/
def Level (d : Nat) (k : Int) : Prop :=
  -d ≤ k ∧ k ≤ d ∧ (k - d) % 2 = 0

theorem level_of_reach {d i j : Nat} (h : reach a b i j = d) : Level d (i - j) := by
  have hle := le_add_reach a b i j
  have hpar := reach_parity a b i j
  unfold Level
  omega

variable (a b)

/-- The buffer holds the furthest points for `d` edits. -/
def Filled (d : Nat) (f : Frontier) : Prop :=
  ∀ k, Level d k → ∃ x, f.read? k = some x ∧ Furthest a b d k x

/-- The buffer holds what a sweep with `d` edits starts from. -/
def Ready : Nat → Frontier → Prop
  | 0, f => f.read? 1 = some 0
  | d + 1, f => Filled a b d f

variable {a b}

theorem Ready.write {d : Nat} {f f' : Frontier} {k : Int} (h : Ready a b d f) (hk : Level d k)
    (hother : ∀ j, j ≠ k → f'.read? j = f.read? j) : Ready a b d f' := by
  rcases d with _ | d
  · exact (hother 1 (by unfold Level at hk; omega)).trans h
  · intro j hj
    rw [hother j (by unfold Level at hk hj; omega)]
    exact h j hj

/-- From the better neighbour, one edit lands on the diagonal. -/
theorem step?_landing {d : Nat} {f : Frontier} {k : Int} (hf : Ready a b d f) (hk : Level d k) :
    ∃ i j : Nat, f.step? d k = some (i : Int) ∧ Landing a b d k i j := by
  obtain ⟨hlo, hhi, hpar⟩ := hk
  rcases d with _ | d
  · refine ⟨0, 0, ?_, by omega, by simp, by simp⟩
    unfold Frontier.step?
    obtain rfl : k = 0 := by omega
    exact hf
  unfold Frontier.step?
  split_ifs with hfirst hlast
  · -- the lowest diagonal has a neighbour above only
    obtain ⟨x, hx, hfar⟩ := hf (k + 1) ⟨by omega, by omega, by omega⟩
    obtain ⟨i, j, rfl, hij, hreach, -⟩ := id hfar
    refine ⟨i, j + 1, hx, by omega, ?_, fun t => ⟨?_, ?_⟩⟩
    · exact (reach_insert i j).1.trans (by omega)
    · have := le_add_reach a b (i + t) (j + 1 + t + 1)
      omega
    · exact hfar.beyond (by omega) (by omega)
  · -- the highest diagonal has a neighbour below only
    obtain ⟨x, hx, hfar⟩ := hf (k - 1) ⟨by omega, by omega, by omega⟩
    obtain ⟨i, j, rfl, hij, hreach, -⟩ := id hfar
    refine ⟨i + 1, j, by simp [hx], by omega, ?_, fun t => ⟨?_, ?_⟩⟩
    · exact (reach_delete i j).1.trans (by omega)
    · exact hfar.beyond (by omega) (by omega)
    · have := le_add_reach a b (i + 1 + t + 1) (j + t)
      omega
  · obtain ⟨x, hx, hbelow⟩ := hf (k - 1) ⟨by omega, by omega, by omega⟩
    obtain ⟨x', hx', habove⟩ := hf (k + 1) ⟨by omega, by omega, by omega⟩
    obtain ⟨i, j, rfl, hij, hreach, -⟩ := id hbelow
    obtain ⟨i', j', rfl, hij', hreach', -⟩ := id habove
    simp only [hx, hx', Option.bind_eq_bind, Option.bind_some, Option.pure_def]
    split_ifs with hlt
    · refine ⟨i', j' + 1, rfl, by omega, (reach_insert i' j').1.trans (by omega),
        fun t => ⟨?_, ?_⟩⟩
      · exact hbelow.beyond (by omega) (by omega)
      · exact habove.beyond (by omega) (by omega)
    · refine ⟨i + 1, j, by simp, by omega, (reach_delete i j).1.trans (by omega),
        fun t => ⟨?_, ?_⟩⟩
      · exact hbelow.beyond (by omega) (by omega)
      · exact habove.beyond (by omega) (by omega)

variable (a b) in
/-- What a sweep with `d` edits ends with: every diagonal seen and the other search met on none of
them, or the diagonal where it was met, with the run of equal items there. -/
def Swept (d n : Nat) (meets : Int → Int → Option Bool) :
    Option (Option Meeting × Frontier) → Prop
  | none => False
  | some (none, f) => f.Room n ∧
    ∀ k, Level d k → ∃ x, f.read? k = some x ∧ Furthest a b d k x ∧ meets k x = some false
  | some (some hit, f) => f.Room n ∧ Level d hit.diagonal ∧
    Furthest a b d hit.diagonal hit.stop ∧ meets hit.diagonal hit.stop = some true ∧
    ∃ i j r : Nat, Landing a b d hit.diagonal i j ∧ hit.start = i ∧ hit.stop = (i + r : Nat) ∧
      ∀ s < r, Agree a b (i + s) (j + s)

/-- The sweep goes down the diagonals, so those above `k` are done when it comes to `k`. -/
theorem sweep?_swept {d n : Nat} (hn : d < n) {meets : Int → Int → Option Bool}
    (hmeets : ∀ k x, Level d k → ∃ v, meets k x = some v) :
    ∀ (count : Nat) (k : Int) (f : Frontier), 2 * (count : Int) = k + d + 2 → k ≤ d →
      f.Room n → Ready a b d f →
      (∀ j, Level d j → k < j →
        ∃ x, f.read? j = some x ∧ Furthest a b d j x ∧ meets j x = some false) →
      Swept a b d n meets (sweep? a b d meets count k f)
  | 0, k, f, hk, _, hroom, _, habove => by
    simp only [sweep?, Swept]
    exact ⟨hroom, fun j hj => habove j hj (by unfold Level at hj; omega)⟩
  | count + 1, k, f, hk, hle, hroom, hready, habove => by
    have hlevel : Level d k := ⟨by omega, hle, by omega⟩
    obtain ⟨i, j, hstep, hland⟩ := step?_landing hready hlevel
    obtain ⟨r, hslide, hfar, hagree⟩ := slide?_furthest hland
    obtain ⟨f', hwrite, hroom', hread, hother⟩ :=
      Frontier.write?_of_room ((i + r : Nat) : Int) hroom (k := k) (by omega) (by omega)
    obtain ⟨v, hv⟩ := hmeets k ((i + r : Nat) : Int) hlevel
    simp only [sweep?, hstep, hslide, hwrite, hv, Option.bind_eq_bind, Option.bind_some]
    cases v
    · refine sweep?_swept hn hmeets count (k - 2) f' (by omega) (by omega) hroom'
        (hready.write hlevel hother) fun l hl hlt => ?_
      by_cases hlk : l = k
      · subst hlk
        exact ⟨_, hread, hfar, hv⟩
      · rw [hother l hlk]
        exact habove l hl (by unfold Level at hl; omega)
    · exact ⟨hroom', hlevel, hfar, hv, i, j, r, hland, rfl, rfl, hagree⟩

theorem sweep?_full {d n : Nat} (hn : d < n) {meets : Int → Int → Option Bool} {f : Frontier}
    (hmeets : ∀ k x, ∃ v, meets k x = some v) (hroom : f.Room n) (hready : Ready a b d f) :
    Swept a b d n meets (sweep? a b d meets (d + 1) d f) :=
  sweep?_swept hn (fun k x _ => hmeets k x) (d + 1) d f (by omega) (by omega) hroom hready
    fun _ hj hlt => by unfold Level at hj; omega

theorem filled_of_swept {d n : Nat} {meets : Int → Int → Option Bool} {f : Frontier}
    (h : Swept a b d n meets (some (none, f))) : Filled a b d f := by
  intro k hk
  obtain ⟨x, hx, hfar, -⟩ := h.2 k hk
  exact ⟨x, hx, hfar⟩

end StructPadding.Diff
