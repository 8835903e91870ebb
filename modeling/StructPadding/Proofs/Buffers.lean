import StructPadding.Proofs.ShortestScript

/-!
# What a search depends on

A search reads the diagonals of the level before and those of the other search, and on both stand
the furthest points, which the lists alone determine (`Furthest.unique`). So two searches on the
same lists go the same way, whatever their buffers held before and however large they are
(`search_congr`), and the middle snake is a place of the lists (`middleSnake_splits`).
-/

namespace StructPadding.Diff

variable {α : Type} [DecidableEq α] {a b : List α}

/-! ## Buffers that agree -/

theorem Furthest.unique {d : Nat} {k x y : Int} (hx : Furthest a b d k x)
    (hy : Furthest a b d k y) : x = y := by
  obtain ⟨i, j, rfl, hk, hreach, -⟩ := id hx
  obtain ⟨i', j', rfl, hk', hreach', -⟩ := id hy
  exact Int.le_antisymm (hy.le hk hreach) (hx.le hk' hreach')

theorem Filled.agree {d : Nat} {f g : Frontier} {k : Int} (hf : Filled a b d f)
    (hg : Filled a b d g) (hk : Level d k) : f.read? k = g.read? k := by
  obtain ⟨x, hx, hfar⟩ := hf k hk
  obtain ⟨y, hy, hfar'⟩ := hg k hk
  rw [hx, hy, hfar.unique hfar']

theorem step?_congr {d : Nat} {f g : Frontier} {k : Int} (hf : Ready a b d f)
    (hg : Ready a b d g) (hk : Level d k) : f.step? d k = g.step? d k := by
  obtain ⟨hlo, hhi, hpar⟩ := hk
  rcases d with _ | d
  · obtain rfl : k = 0 := by omega
    exact hf.trans hg.symm
  have hbelow : k ≠ -(d + 1 : Nat) → f.read? (k - 1) = g.read? (k - 1) := fun _ =>
    Filled.agree hf hg ⟨by omega, by omega, by omega⟩
  have habove : k ≠ (d + 1 : Nat) → f.read? (k + 1) = g.read? (k + 1) := fun _ =>
    Filled.agree hf hg ⟨by omega, by omega, by omega⟩
  unfold Frontier.step?
  split_ifs with hfirst hlast
  · exact habove (by omega)
  · rw [hbelow (by omega)]
  · rw [hbelow hfirst, habove hlast]

/-- The overlap test reads diagonals of one level only, if the limit is of the right parity. -/
theorem Frontier.meets?_congr {d e limit : Nat} {f g : Frontier} {len delta k : Int}
    (hagree : ∀ j, Level e j → f.read? j = g.read? j) (hlimit : limit ≤ e + 1)
    (hpar : (d + e - delta) % 2 = 0) (hk : Level d k) (x : Int) :
    f.meets? len delta limit k x = g.meets? len delta limit k x := by
  unfold meets?
  split_ifs with hnear
  · rw [hagree (-(k - delta)) (by unfold Level at hk ⊢; omega)]
  · rfl

theorem sweep?_congr {d n n' : Nat} (hn : d < n) (hn' : d < n')
    {meets meets' : Int → Int → Option Bool}
    (hmeets : ∀ k x, Level d k → meets k x = meets' k x) :
    ∀ (count : Nat) (k : Int) (f g : Frontier), 2 * (count : Int) = k + d + 2 → k ≤ d →
      f.Room n → g.Room n' → Ready a b d f → Ready a b d g →
      (sweep? a b d meets count k f).map Prod.fst =
        (sweep? a b d meets' count k g).map Prod.fst := by
  intro count
  induction count with
  | zero => intros; rfl
  | succ count ih =>
    intro k f g hk hle hf hg hready hready'
    have hlevel : Level d k := ⟨by omega, hle, by omega⟩
    obtain ⟨i, j, hstep, hland⟩ := step?_landing hready hlevel
    have hstep' := (step?_congr hready hready' hlevel).symm.trans hstep
    obtain ⟨r, hslide, -⟩ := slide?_furthest hland
    obtain ⟨f', hwrite, hroom, -, hother⟩ :=
      Frontier.write?_of_room ((i + r : Nat) : Int) hf (k := k) (by omega) (by omega)
    obtain ⟨g', hwrite', hroom', -, hother'⟩ :=
      Frontier.write?_of_room ((i + r : Nat) : Int) hg (k := k) (by omega) (by omega)
    simp only [sweep?, hstep, hstep', hslide, hwrite, hwrite', hmeets k _ hlevel,
      Option.bind_eq_bind, Option.bind_some]
    rcases meets' k ((i + r : Nat) : Int) with _ | _ | _
    · rfl
    · exact ih (k - 2) f' g' (by omega) (by omega) hroom hroom' (hready.write hlevel hother)
        (hready'.write hlevel hother')
    · rfl

/-! ## The search -/

/-- In the forward sweep the other search is one edit behind. -/
theorem meetsForward_congr {n n' d : Nat} {fs gs : Frontiers} (h : Searching a b n d fs)
    (h' : Searching a b n' d gs) (k x : Int) (hk : Level d k) :
    fs.backward.meets? a.length (a.length - b.length)
        (if ((a.length : Int) - b.length) % 2 = 1 then d else 0) k x =
      gs.backward.meets? a.length (a.length - b.length)
        (if ((a.length : Int) - b.length) % 2 = 1 then d else 0) k x := by
  rcases d with _ | e
  · rw [ite_self, Frontier.meets?_zero, Frontier.meets?_zero]
  split_ifs with hodd
  · exact Frontier.meets?_congr (fun j hj => Filled.agree h.backward h'.backward hj) le_rfl
      (by omega) hk x
  · rw [Frontier.meets?_zero, Frontier.meets?_zero]

theorem meetsBackward_congr {d : Nat} {f g : Frontier} (hf : Filled a b d f)
    (hg : Filled a b d g) (k x : Int) (hk : Level d k) :
    f.meets? a.length (a.length - b.length)
        (if ((a.length : Int) - b.length) % 2 = 1 then 0 else d + 1) k x =
      g.meets? a.length (a.length - b.length)
        (if ((a.length : Int) - b.length) % 2 = 1 then 0 else d + 1) k x := by
  split_ifs with hodd
  · rw [Frontier.meets?_zero, Frontier.meets?_zero]
  · exact Frontier.meets?_congr (fun j hj => Filled.agree hf hg hj) le_rfl (by omega) hk x

/-- Two searches that know the same meet at the same place. -/
theorem search_congr {n n' : Nat} : ∀ (left d : Nat) (fs gs : Frontiers), left + d ≤ n →
    left + d ≤ n' → Searching a b n d fs → Searching a b n' d gs →
    (search a b left d fs).1 = (search a b left d gs).1 := by
  intro left
  induction left with
  | zero => intros; rfl
  | succ left ih =>
    intro d fs gs hn hn' h h'
    have hd : d < n := by omega
    have hd' : d < n' := by omega
    have hforward := h.swept_forward hd
    have hforward' := h'.swept_forward hd'
    have hsame := sweep?_congr hd hd' (meetsForward_congr h h') (d + 1) d fs.forward gs.forward
      (by omega) (by omega) h.roomForward h'.roomForward h.forward h'.forward
    simp only [search]
    generalize sweep? a b d (fs.backward.meets? _ _ _) (d + 1) d fs.forward = result at *
    generalize sweep? a b d (gs.backward.meets? _ _ _) (d + 1) d gs.forward = result' at *
    rcases result with _ | ⟨_ | hit, f⟩ <;> rcases result' with _ | ⟨_ | hit', g⟩ <;>
      simp only [Option.map_none, Option.map_some, Option.some.injEq, reduceCtorEq] at hsame
    · rfl
    · have hbackward := h.swept_backward hd hforward.1
      have hbackward' := h'.swept_backward hd' hforward'.1
      have hsame := sweep?_congr hd hd'
        (meetsBackward_congr (filled_of_swept hforward) (filled_of_swept hforward')) (d + 1) d
        fs.backward gs.backward (by omega) (by omega) h.roomBackward h'.roomBackward h.backward
        h'.backward
      simp only []
      generalize sweep? a.reverse b.reverse d (f.meets? _ _ _) (d + 1) d fs.backward = result at *
      generalize sweep? a.reverse b.reverse d (g.meets? _ _ _) (d + 1) d gs.backward = result' at *
      rcases result with _ | ⟨_ | hit, f'⟩ <;> rcases result' with _ | ⟨_ | hit', g'⟩ <;>
        simp only [Option.map_none, Option.map_some, Option.some.injEq, reduceCtorEq] at hsame
      · rfl
      · exact ih (d + 1) ⟨f, f'⟩ ⟨g, g'⟩ (by omega) (by omega)
          (h.next hforward hbackward) (h'.next hforward' hbackward')
      · subst hsame
        rfl
    · subst hsame
      rfl

theorem middleSnake_congr {n n' : Nat} {fs gs : Frontiers} (hne : a ≠ [] ∨ b ≠ [])
    (hn : maxEdits a.length b.length ≤ n) (hf : fs.forward.Room n) (hb : fs.backward.Room n)
    (hn' : maxEdits a.length b.length ≤ n') (hf' : gs.forward.Room n')
    (hb' : gs.backward.Room n') : (middleSnake a b fs).1 = (middleSnake a b gs).1 := by
  obtain ⟨fs', hsearch, h⟩ := middleSnake_starts hne hn hf hb
  obtain ⟨gs', hsearch', h'⟩ := middleSnake_starts hne hn' hf' hb'
  rw [hsearch, hsearch']
  exact search_congr _ 0 fs' gs' hn hn' h h'

/-! ## The cut -/

/-- Where a shortest edit is halved, longest common subsequences of both halves make up one of the
whole. -/
theorem Halves.longestCommon {x y : Nat} (h : Halves a b x y) :
    ∃ c₁ c₂, LongestCommon c₁ (a.take x) (b.take y) ∧ LongestCommon c₂ (a.drop x) (b.drop y) ∧
      LongestCommon (c₁ ++ c₂) a b := by
  obtain ⟨c₁, h₁⟩ := exists_longestCommon (a.take x) (b.take y)
  obtain ⟨c₂, h₂⟩ := exists_longestCommon (a.drop x) (b.drop y)
  have hleft := h₁.left.append h₂.left
  have hright := h₁.right.append h₂.right
  rw [List.take_append_drop] at hleft hright
  refine ⟨c₁, c₂, h₁, h₂, hleft, hright, fun c ha hb => ?_⟩
  have hle := distance_add_le a b ha hb
  have hfirst := h₁.distance_eq
  have hsecond := h₂.distance_eq
  have hx := h.left
  have hy := h.right
  have hbefore := h.before
  have hafter := h.after
  simp only [List.length_take, List.length_drop, List.length_append] at *
  omega

/-- For lists that differ at both ends the search in the middle has a result, so it stays within the
lists and the buffers: a place other than the corners that cuts a longest common subsequence in two.
It is the same place for all buffers that were made for lists as long or longer, whatever they hold.
So the edits from one list to another are always put together from the two sides of a cut. -/
theorem middleSnake_splits :
    (∀ a b : List α, a ≠ [] → b ≠ [] → a.head? ≠ b.head? → a.getLast? ≠ b.getLast? →
      ∃ x y, cuts x y a.length b.length ∧
        (∃ c₁ c₂, LongestCommon c₁ (a.take x) (b.take y) ∧
          LongestCommon c₂ (a.drop x) (b.drop y) ∧ LongestCommon (c₁ ++ c₂) a b) ∧
        ∀ (n m : Nat) (fs : Frontiers), a.length + b.length ≤ n + m →
          fs.forward.Room (maxEdits n m) → fs.backward.Room (maxEdits n m) →
          (middleSnake a b fs).1 = some (x, y)) ∧
    ∀ (a b : List α) (n m : Nat) (fs : Frontiers), a.length + b.length ≤ n + m →
      fs.forward.Room (maxEdits n m) → fs.backward.Room (maxEdits n m) → Searched a b fs := by
  refine ⟨fun a b ha hb hheads hlasts => ?_, fun a b n m fs hlen hf hb =>
    (edits_shortest _ a b fs (maxEdits_mono hlen) hf hb).1⟩
  have hfresh := Frontier.room_new (maxEdits a.length b.length)
  obtain ⟨gs, hf', hb'⟩ : ∃ gs : Frontiers, gs.forward.Room (maxEdits a.length b.length) ∧
      gs.backward.Room (maxEdits a.length b.length) := ⟨⟨_, _⟩, hfresh, hfresh⟩
  obtain ⟨x, y, fs', hsnake, hhalves, -⟩ := middleSnake_halves (.inl ha) le_rfl hf' hb'
  have hfar : 2 ≤ distance a b := by
    rcases a with _ | ⟨c, a⟩
    · exact absurd rfl ha
    rcases b with _ | ⟨e, b⟩
    · exact absurd rfl hb
    exact two_le_distance (fun h => hheads (by rw [h]; rfl)) hlasts
  refine ⟨x, y, hhalves.cuts hfar, hhalves.longestCommon, fun n m fs hlen hf hb => ?_⟩
  rw [middleSnake_congr (.inl ha) (maxEdits_mono hlen) hf hb le_rfl hf' hb', hsnake]

/-- Buffers that were used for other lists before, one of them for longer ones. -/
theorem middleSnake_splits_used :
    ([1, 2, 3] ≠ [] ∧ [3, 1, 4] ≠ [] ∧ [1, 2, 3].head? ≠ [3, 1, 4].head? ∧
      [1, 2, 3].getLast? ≠ [3, 1, 4].getLast?) ∧
    Frontier.Room ⟨4, #[7, -1, 0, 3, 9, 2, 2, 5]⟩ (maxEdits 3 3) ∧
    Frontier.Room ⟨5, #[1, 1, 8, -4, 6, 0, 0, 3, 3, 2]⟩ (maxEdits 3 3) ∧
    ∃ x y, cuts x y 3 3 ∧
      (middleSnake [1, 2, 3] [3, 1, 4]
        ⟨⟨4, #[7, -1, 0, 3, 9, 2, 2, 5]⟩, ⟨5, #[1, 1, 8, -4, 6, 0, 0, 3, 3, 2]⟩⟩).1 =
        some (x, y) := by
  have hends : [1, 2, 3] ≠ [] ∧ [3, 1, 4] ≠ [] ∧ [1, 2, 3].head? ≠ [3, 1, 4].head? ∧
      [1, 2, 3].getLast? ≠ [3, 1, 4].getLast? := by decide
  have hf : Frontier.Room ⟨4, #[7, -1, 0, 3, 9, 2, 2, 5]⟩ (maxEdits 3 3) := ⟨by decide, rfl⟩
  have hb : Frontier.Room ⟨5, #[1, 1, 8, -4, 6, 0, 0, 3, 3, 2]⟩ (maxEdits 3 3) := ⟨by decide, rfl⟩
  obtain ⟨x, y, hcuts, -, hsnake⟩ :=
    middleSnake_splits.1 [1, 2, 3] [3, 1, 4] hends.1 hends.2.1 hends.2.2.1 hends.2.2.2
  exact ⟨hends, hf, hb, x, y, hcuts, hsnake 3 3 ⟨_, _⟩ le_rfl hf hb⟩

end StructPadding.Diff
