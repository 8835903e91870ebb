import StructPadding.Proofs.Frontier

/-!
# Meeting in the middle

The search from the start with `d` edits and the one from the end with `e` meet exactly when the
lists are `d + e` edits apart: a shortest edit cut after `d` steps is a place where they overlap
(`meets?_of_cut`), and where they overlap before that the lists would be closer than they are. So
the first meeting is on a shortest edit, and halves it (`middleSnake_halves`). The number of edits
has the parity of the difference of the lengths, which says in which of the two sweeps to look.
-/

namespace StructPadding.Diff

variable {α : Type} [DecidableEq α] {a b : List α}

/-- A place on a shortest edit with half of the edits before it and half behind. -/
structure Halves (a b : List α) (x y : Nat) : Prop where
  left : x ≤ a.length
  right : y ≤ b.length
  before : distance (a.take x) (b.take y) = (distance a b + 1) / 2
  after : distance (a.drop x) (b.drop y) = distance a b / 2

/-! ## The overlap test -/

theorem Frontier.Room.meets?_total {f : Frontier} {n : Nat} (hr : f.Room n) (limit : Nat)
    (hlimit : limit ≤ n) (len delta k x : Int) : ∃ v, f.meets? len delta limit k x = some v := by
  unfold meets?
  split_ifs with hnear
  · obtain ⟨y, hy⟩ := read?_of_room hr (k := -(k - delta)) (by omega) (by omega)
    rw [hy]
    exact ⟨_, rfl⟩
  · exact ⟨false, rfl⟩

theorem Frontier.meets?_zero (f : Frontier) (len delta k x : Int) :
    f.meets? len delta 0 k x = some false := by
  simp [meets?]

theorem Frontier.meets?_eq_true {f : Frontier} {len delta k x : Int} {limit : Nat} :
    f.meets? len delta limit k x = some true ↔
      (k - delta).natAbs < limit ∧ ∃ y, f.read? (-(k - delta)) = some y ∧ len ≤ x + y := by
  unfold meets?
  split_ifs with hnear
  · simp [hnear]
  · simp [hnear]

/-- Where a shortest edit can be cut, both searches get far enough to overlap. -/
theorem meets?_of_cut {d e i j : Nat} {f : Frontier} {x : Int}
    (hf : Filled a.reverse b.reverse e f) (hi : i ≤ a.length) (hj : j ≤ b.length)
    (hbefore : reach a b i j = d) (hafter : distance (a.drop i) (b.drop j) = e)
    (hx : Furthest a b d (i - j) x) :
    f.meets? a.length (a.length - b.length) (e + 1) (i - j) x = some true := by
  rw [← reach_reverse a b hi hj] at hafter
  have hlevel := level_of_reach hafter
  obtain ⟨y, hy, hfar⟩ := hf _ hlevel
  have h1 := hx.le rfl hbefore.le
  have h2 := hfar.le rfl hafter.le
  rw [Frontier.meets?_eq_true]
  refine ⟨by unfold Level at hlevel; omega, y, ?_, by omega⟩
  rw [← hy]
  congr 1
  omega

/-- A sweep that meets the other search nowhere: the lists are not that close. -/
theorem distance_ne_of_missed {d e n : Nat} {f g : Frontier}
    (hf : Filled a.reverse b.reverse e f)
    (hmiss : Swept a b d n (f.meets? a.length (a.length - b.length) (e + 1)) (some (none, g))) :
    distance a b ≠ d + e := by
  intro hd
  obtain ⟨i, j, hi, hj, hbefore, hafter⟩ := exists_cut a b d (by omega)
  rw [← reach_of_le a b hi hj] at hbefore
  have hsum := distance_drop_le hi hj
  have hreach : reach a b i j = d := by omega
  obtain ⟨x, -, hx, hfalse⟩ := hmiss.2 (i - j) (level_of_reach hreach)
  rw [meets?_of_cut hf hi hj hreach (by omega) hx] at hfalse
  simp at hfalse

/-- Where a sweep meets the other search, the run of equal items found there lies on a shortest
edit, unless the lists are closer than both searches together. -/
theorem cut_of_hit {d e i j r : Nat} {f : Frontier} (hf : Filled a.reverse b.reverse e f)
    (hlow : d + e ≤ distance a b) (hland : Landing a b d (i - j) i j)
    (hagree : ∀ s < r, Agree a b (i + s) (j + s))
    (hlevel : Level e (-((i - j : Int) - (a.length - b.length))))
    (hhit : f.meets? a.length (a.length - b.length) (e + 1) (i - j) (i + r : Nat) = some true) :
    i + r ≤ a.length ∧ j + r ≤ b.length ∧ reach a b i j = d ∧
      distance (a.drop (i + r)) (b.drop (j + r)) = e := by
  obtain ⟨-, hreach, -⟩ := hland
  obtain ⟨-, y, hy, hover⟩ := Frontier.meets?_eq_true.1 hhit
  obtain ⟨y', hy', i', j', rfl, hdiag, hback, -⟩ := hf _ hlevel
  obtain rfl : y = i' := by rw [hy] at hy'; exact Option.some.inj hy'
  have hslide := reach_slide r hagree
  rcases distance_of_overlap (a := a) (b := b) (i + r) (j + r) i' j' (by omega)
    (by omega) with ⟨hi, hj, hafter⟩ | hfar
  · have hsum := distance_drop_le hi hj
    exact ⟨hi, hj, by omega, by omega⟩
  · omega

/-! ## The search -/

/-- What both searches know before their `d`-th edit. -/
structure Searching (a b : List α) (n d : Nat) (fs : Frontiers) : Prop where
  roomForward : fs.forward.Room n
  roomBackward : fs.backward.Room n
  forward : Ready a b d fs.forward
  backward : Ready a.reverse b.reverse d fs.backward
  /-- The searches with fewer edits did not meet. -/
  below : 2 * d ≤ distance a b + distance a b % 2

theorem halves_of_forward {n d : Nat} {fs : Frontiers} {hit : Meeting} {f : Frontier}
    (h : Searching a b n d fs) (hodd : ((a.length : Int) - b.length) % 2 = 1)
    (hs : Swept a b d n (fs.backward.meets? a.length (a.length - b.length) d)
      (some (some hit, f))) :
    Halves a b hit.start.toNat (hit.start - hit.diagonal).toNat := by
  obtain ⟨-, hlevel, -, hhit, i, j, r, hland, hstart, hstop, hagree⟩ := hs
  have hpar := distance_parity a b
  have hbelow := h.below
  rcases d with _ | e
  · simp [Frontier.meets?_zero] at hhit
  have hk := hland.1
  rw [hk] at hland hhit hlevel
  rw [hstop] at hhit
  have hnear := (Frontier.meets?_eq_true.1 hhit).1
  obtain ⟨hi, hj, hbefore, hafter⟩ := cut_of_hit h.backward (by omega) hland hagree
    (by unfold Level at hlevel ⊢; omega) hhit
  rw [reach_of_le _ _ (by omega) (by omega)] at hbefore
  rw [distance_drop_slide r hagree] at hafter
  have hsum := distance_le_cut a b i j
  rw [hstart, hk, show (i : Int).toNat = i by omega, show ((i : Int) - (i - j)).toNat = j by omega]
  exact ⟨by omega, by omega, by omega, by omega⟩

/-- The backward search runs on the reversed lists, and is cut behind its run of equal items. -/
theorem halves_of_backward {n d : Nat} {forward f : Frontier} {hit : Meeting}
    (hforward : Filled a b d forward) (heven : ((a.length : Int) - b.length) % 2 ≠ 1)
    (hbelow : 2 * d ≤ distance a b + distance a b % 2)
    (hs : Swept a.reverse b.reverse d n
      (forward.meets? a.length (a.length - b.length) (d + 1)) (some (some hit, f))) :
    Halves a b (a.length - hit.stop : Int).toNat
      (b.length - (hit.stop - hit.diagonal) : Int).toNat := by
  obtain ⟨-, hlevel, -, hhit, i, j, r, hland, -, hstop, hagree⟩ := hs
  have hpar := distance_parity a b
  have hk := hland.1
  rw [hk] at hland hhit hlevel
  rw [hstop] at hhit
  have hnear := (Frontier.meets?_eq_true.1 hhit).1
  obtain ⟨hi, hj, hbefore, hafter⟩ := cut_of_hit (a := a.reverse) (b := b.reverse)
    (by simpa using hforward) (by rw [distance_reverse]; omega) hland hagree
    (by simp only [List.length_reverse]; unfold Level at hlevel ⊢; omega) (by simpa using hhit)
  simp only [List.length_reverse] at hi hj
  rw [← reach_slide r hagree] at hbefore
  rw [List.drop_reverse, List.drop_reverse, distance_reverse] at hafter
  have hx : a.length - (a.length - (i + r)) = i + r := by omega
  have hy : b.length - (b.length - (j + r)) = j + r := by omega
  have hback := reach_reverse a b (x := a.length - (i + r)) (y := b.length - (j + r)) (by omega)
    (by omega)
  rw [hx, hy, hbefore] at hback
  have hsum := distance_le_cut a b (a.length - (i + r)) (b.length - (j + r))
  rw [hstop, hk, show ((a.length : Int) - (i + r : Nat)).toNat = a.length - (i + r) by omega,
    show ((b.length : Int) - ((i + r : Nat) - (i - j))).toNat = b.length - (j + r) by omega]
  exact ⟨by omega, by omega, by omega, by omega⟩

theorem below_of_missed {n d : Nat} {fs : Frontiers} {forward backward : Frontier}
    (h : Searching a b n d fs)
    (hforward : Swept a b d n (fs.backward.meets? a.length (a.length - b.length)
      (if ((a.length : Int) - b.length) % 2 = 1 then d else 0)) (some (none, forward)))
    (hbackward : Swept a.reverse b.reverse d n (forward.meets? a.length (a.length - b.length)
      (if ((a.length : Int) - b.length) % 2 = 1 then 0 else d + 1)) (some (none, backward))) :
    2 * (d + 1) ≤ distance a b + distance a b % 2 := by
  have hpar := distance_parity a b
  have hbelow := h.below
  by_cases hodd : ((a.length : Int) - b.length) % 2 = 1
  · rw [if_pos hodd] at hforward
    rcases d with _ | e
    · omega
    · have := distance_ne_of_missed h.backward hforward
      omega
  · rw [if_neg hodd] at hbackward
    have := distance_ne_of_missed (a := a.reverse) (b := b.reverse) (e := d) (f := forward)
      (by simpa using filled_of_swept hforward) (by simpa using hbackward)
    rw [distance_reverse] at this
    omega

/-- After a round in which the searches did not meet, both know as much about one more edit. -/
theorem Searching.next {n d : Nat} {fs : Frontiers} {forward backward : Frontier}
    (h : Searching a b n d fs)
    (hforward : Swept a b d n (fs.backward.meets? a.length (a.length - b.length)
      (if ((a.length : Int) - b.length) % 2 = 1 then d else 0)) (some (none, forward)))
    (hbackward : Swept a.reverse b.reverse d n (forward.meets? a.length (a.length - b.length)
      (if ((a.length : Int) - b.length) % 2 = 1 then 0 else d + 1)) (some (none, backward))) :
    Searching a b n (d + 1) ⟨forward, backward⟩ :=
  ⟨hforward.1, hbackward.1, filled_of_swept hforward, filled_of_swept hbackward,
    below_of_missed h hforward hbackward⟩

/-- The forward sweep of a round. The searches can only overlap in it if the lengths differ by an
odd number. -/
theorem Searching.swept_forward {n d : Nat} {fs : Frontiers} (hn : d < n)
    (h : Searching a b n d fs) :
    Swept a b d n (fs.backward.meets? a.length (a.length - b.length)
        (if ((a.length : Int) - b.length) % 2 = 1 then d else 0))
      (sweep? a b d (fs.backward.meets? a.length (a.length - b.length)
        (if ((a.length : Int) - b.length) % 2 = 1 then d else 0)) (d + 1) d fs.forward) :=
  sweep?_full hn (h.roomBackward.meets?_total _ (by split_ifs <;> omega) _ _) h.roomForward
    h.forward

/-- The backward sweep of a round, after the forward sweep. -/
theorem Searching.swept_backward {n d : Nat} {fs : Frontiers} {forward : Frontier} (hn : d < n)
    (h : Searching a b n d fs) (hroom : forward.Room n) :
    Swept a.reverse b.reverse d n (forward.meets? a.length (a.length - b.length)
        (if ((a.length : Int) - b.length) % 2 = 1 then 0 else d + 1))
      (sweep? a.reverse b.reverse d (forward.meets? a.length (a.length - b.length)
        (if ((a.length : Int) - b.length) % 2 = 1 then 0 else d + 1)) (d + 1) d fs.backward) :=
  sweep?_full hn (hroom.meets?_total _ (by split_ifs <;> omega) _ _) h.roomBackward h.backward

/-- A round of the search: the searches meet halfway, or they know as much about one more edit. -/
theorem search_step {n d : Nat} (left : Nat) {fs : Frontiers} (hn : d < n)
    (h : Searching a b n d fs) :
    (∃ x y fs', search a b (left + 1) d fs = (some (x, y), fs') ∧ Halves a b x y ∧
        fs'.forward.Room n ∧ fs'.backward.Room n) ∨
      ∃ fs', search a b (left + 1) d fs = search a b left (d + 1) fs' ∧
        Searching a b n (d + 1) fs' := by
  simp only [search]
  have hforward := h.swept_forward hn
  rcases hfs : sweep? a b d (fs.backward.meets? a.length (a.length - b.length)
    (if ((a.length : Int) - b.length) % 2 = 1 then d else 0)) (d + 1) d fs.forward
    with _ | ⟨_ | hit, forward⟩ <;> rw [hfs] at hforward
  · exact hforward.elim
  · have hbackward := h.swept_backward hn hforward.1
    simp only []
    rcases hbs : sweep? a.reverse b.reverse d (forward.meets? a.length (a.length - b.length)
      (if ((a.length : Int) - b.length) % 2 = 1 then 0 else d + 1)) (d + 1) d fs.backward
      with _ | ⟨_ | hit, backward⟩ <;> rw [hbs] at hbackward
    · exact hbackward.elim
    · exact .inr ⟨_, rfl, h.next hforward hbackward⟩
    · refine .inl ⟨_, _, _, rfl, ?_, hforward.1, hbackward.1⟩
      split_ifs at hbackward with hodd
      · simp [Swept, Frontier.meets?_zero] at hbackward
      · exact halves_of_backward (filled_of_swept hforward) hodd h.below hbackward
  · refine .inl ⟨_, _, _, rfl, ?_, hforward.1, h.roomBackward⟩
    split_ifs at hforward with hodd
    · exact halves_of_forward h hodd hforward
    · simp [Swept, Frontier.meets?_zero] at hforward

/-- The searches meet before they run out of edits, since no two lists are further apart. -/
theorem search_halves {n : Nat} (hn : maxEdits a.length b.length ≤ n) :
    ∀ (left d : Nat) (fs : Frontiers), left + d = maxEdits a.length b.length →
      Searching a b n d fs →
      ∃ x y fs', search a b left d fs = (some (x, y), fs') ∧ Halves a b x y ∧
        fs'.forward.Room n ∧ fs'.backward.Room n
  | 0, d, fs, hleft, h => by
    have hbelow := h.below
    have hle := distance_le a b
    unfold maxEdits at hleft
    omega
  | left + 1, d, fs, hleft, h => by
    rcases search_step left (by omega) h with hmet | ⟨fs', hnext, h'⟩
    · exact hmet
    · rw [hnext]
      exact search_halves hn left (d + 1) fs' (by omega) h'

/-- Both searches start from the edge of the grid, whatever the buffers hold. -/
theorem middleSnake_starts {n : Nat} {fs : Frontiers} (hne : a ≠ [] ∨ b ≠ [])
    (hn : maxEdits a.length b.length ≤ n) (hf : fs.forward.Room n) (hb : fs.backward.Room n) :
    ∃ fs', middleSnake a b fs = search a b (maxEdits a.length b.length) 0 fs' ∧
      Searching a b n 0 fs' := by
  have htwo : 2 ≤ n := by
    refine le_trans ?_ hn
    unfold maxEdits
    rcases hne with hne | hne
    · have := List.length_pos_iff.2 hne
      omega
    · have := List.length_pos_iff.2 hne
      omega
  obtain ⟨forward, hwf, hrf, hzf, -⟩ := Frontier.write?_of_room 0 hf (k := 1) (by omega) (by omega)
  obtain ⟨backward, hwb, hrb, hzb, -⟩ :=
    Frontier.write?_of_room 0 hb (k := 1) (by omega) (by omega)
  simp only [middleSnake, hwf, hwb]
  exact ⟨_, rfl, hrf, hrb, hzf, hzb, by omega⟩

/-- The middle snake halves a shortest edit, whatever the buffers hold. -/
theorem middleSnake_halves {n : Nat} {fs : Frontiers} (hne : a ≠ [] ∨ b ≠ [])
    (hn : maxEdits a.length b.length ≤ n) (hf : fs.forward.Room n) (hb : fs.backward.Room n) :
    ∃ x y fs', middleSnake a b fs = (some (x, y), fs') ∧ Halves a b x y ∧
      fs'.forward.Room n ∧ fs'.backward.Room n := by
  obtain ⟨fs', hsearch, h⟩ := middleSnake_starts hne hn hf hb
  rw [hsearch]
  exact search_halves hn _ 0 fs' rfl h

end StructPadding.Diff
