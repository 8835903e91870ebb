import StructPadding.Proofs.ShortestScript
import StructPadding.Review.Revision

/-!
# Untouched lines

Lines of the head that an edit does not touch stand in the base as they are, in one piece
(`verbatim_of_untouched`). They lie in equal runs of the diff; nothing is inserted between them, and
what is deleted between two of them would touch the first of the two. So a declaration that a change
passes over reads the same as before.
-/

namespace StructPadding.Diff

variable {α : Type}

/-- The lines from `first` to `last` of the head, counted from 1, stand in the base in one piece. -/
def Verbatim (base head : List α) (first last : Nat) : Prop :=
  ∃ j, ∀ i, first + i ≤ last → Agree base head (j + i) (first - 1 + i)

theorem agree_append (c c' : List α) {a b : List α} {x y : Nat} (h : Agree a b x y) :
    Agree (c ++ a) (c' ++ b) (c.length + x) (c'.length + y) := by
  obtain ⟨l, ha, hb⟩ := h
  refine ⟨l, ?_, ?_⟩
  · rw [List.getElem?_append_right (by omega), Nat.add_sub_cancel_left, ha]
  · rw [List.getElem?_append_right (by omega), Nat.add_sub_cancel_left, hb]

theorem agree_self {s a b : List α} {x : Nat} (h : x < s.length) :
    Agree (s ++ a) (s ++ b) x x :=
  ⟨s[x], by rw [List.getElem?_append_left h, List.getElem?_eq_getElem h],
    by rw [List.getElem?_append_left h, List.getElem?_eq_getElem h]⟩

/-- Untouched lines right at the start, with nothing deleted before them. -/
theorem agree_of_untouched {blocks : List Block} {a b : List α} (h : Turns blocks a b) :
    ∀ line last, last ≤ line + b.length →
      (∀ t ∈ touchedFrom line blocks, t < line ∨ last < t) →
      ∀ i, line + i < last → Agree a b i i := by
  induction h with
  | nil =>
    intro line last hlast _ i hi
    simp only [List.length_nil] at hlast
    omega
  | equal c _ ih =>
    intro line last hlast hout i hi
    rw [List.length_append] at hlast
    by_cases hc : i < c.length
    · exact agree_self hc
    · have := ih (line + c.length) last (by omega)
        (fun t ht => (hout t ht).imp (by omega) id) (i - c.length) (by omega)
      have := agree_append c c this
      rwa [Nat.add_sub_of_le (by omega)] at this
  | deleted c _ ih =>
    intro line last hlast hout i hi
    have := hout line List.mem_cons_self
    omega
  | inserted c _ ih =>
    intro line last hlast hout i hi
    rcases c with _ | ⟨x, c⟩
    · exact ih line last hlast (by simpa [touchedFrom] using hout) i hi
    · have := hout (line + 1) (List.mem_append_left _ (by simp))
      omega

/-- Untouched lines further on: the script is followed up to the equal run they start in. -/
theorem occurs_of_untouched {blocks : List Block} {a b : List α} (h : Turns blocks a b) :
    ∀ line first last, line < first → last ≤ line + b.length →
      (∀ t ∈ touchedFrom line blocks, t < first ∨ last < t) →
      ∃ j, ∀ i, first + i ≤ last → Agree a b (j + i) (first - 1 - line + i) := by
  induction h with
  | nil =>
    intro line first last hfirst hlast _
    simp only [List.length_nil] at hlast
    exact ⟨0, fun i hi => by omega⟩
  | equal c h ih =>
    intro line first last hfirst hlast hout
    rw [List.length_append] at hlast
    by_cases hc : line + c.length < first
    · obtain ⟨j, hj⟩ := ih (line + c.length) first last hc (by omega) hout
      refine ⟨c.length + j, fun i hi => ?_⟩
      have := agree_append c c (hj i hi)
      rwa [← Nat.add_assoc, show c.length + (first - 1 - (line + c.length) + i) =
        first - 1 - line + i by omega] at this
    · -- the lines start in this run and may go on in the next ones
      refine ⟨first - 1 - line, fun i hi => ?_⟩
      by_cases hin : first - 1 - line + i < c.length
      · exact agree_self hin
      · have := agree_of_untouched h (line + c.length) last (by omega)
          (fun t ht => (hout t ht).imp (by omega) id) (first - 1 - line + i - c.length) (by omega)
        have := agree_append c c this
        rwa [Nat.add_sub_of_le (by omega)] at this
  | deleted c _ ih =>
    intro line first last hfirst hlast hout
    obtain ⟨j, hj⟩ := ih line first last hfirst hlast
      fun t ht => hout t (List.mem_cons_of_mem _ ht)
    refine ⟨c.length + j, fun i hi => ?_⟩
    have := agree_append c [] (hj i hi)
    simpa [Nat.add_assoc] using this
  | inserted c _ ih =>
    intro line first last hfirst hlast hout
    rw [List.length_append] at hlast
    by_cases hc : line + c.length < first
    · obtain ⟨j, hj⟩ := ih (line + c.length) first last hc (by omega)
        fun t ht => hout t (List.mem_append_right _ ht)
      refine ⟨j, fun i hi => ?_⟩
      have := agree_append [] c (hj i hi)
      rw [List.length_nil, Nat.zero_add, List.nil_append] at this
      rwa [show c.length + (first - 1 - (line + c.length) + i) = first - 1 - line + i by omega]
        at this
    · have := hout first (List.mem_append_left _ (List.mem_map.2 ⟨first - line - 1, by
        rw [List.mem_range]; omega, by omega⟩))
      exact ⟨0, fun i hi => by omega⟩

theorem verbatim_of_untouched {base head : List UInt8} {first last : Nat} (hfirst : 1 ≤ first)
    (hlast : last ≤ (splitLines head).length)
    (hout : ∀ t ∈ changedLines base head, ¬(first ≤ t ∧ t ≤ last)) :
    Verbatim (splitLines base) (splitLines head) first last := by
  have hturns := (compare_shortest (splitLines base) (splitLines head)).1
  obtain ⟨j, hj⟩ := occurs_of_untouched hturns 0 first last (by omega) (by omega)
    fun t ht => by
      have := hout t ht
      omega
  exact ⟨j, fun i hi => by simpa using hj i hi⟩

/-! ## No change at all -/

theorem eq_of_touchedFrom_eq_nil {blocks : List Block} {a b : List α} (h : Turns blocks a b) :
    ∀ line, touchedFrom line blocks = [] → a = b := by
  induction h with
  | nil => exact fun _ _ => rfl
  | equal c _ ih =>
    intro line hnil
    rw [ih _ hnil]
  | deleted c _ ih =>
    intro line hnil
    simp [touchedFrom] at hnil
  | inserted c _ ih =>
    intro line hnil
    simp only [touchedFrom, List.append_eq_nil_iff, List.map_eq_nil_iff, List.range_eq_nil,
      List.length_eq_zero_iff] at hnil
    obtain ⟨rfl, hnil⟩ := hnil
    exact ih _ hnil

theorem count_pos_of_mem_block {kind : BlockKind} {n : Nat} {x : Block} (h : x ∈ block kind n) :
    0 < x.count := by
  unfold block at h
  split_ifs at h with hn
  · simp at h
  · simp only [List.mem_singleton] at h
    rw [h]
    exact Nat.pos_of_ne_zero hn

theorem count_pos_of_mem_joinEqual {n : Nat} (hn : n ≠ 0) {s : List Block}
    (hs : ∀ x ∈ s, 0 < x.count) : ∀ x ∈ joinEqual n s, 0 < x.count := by
  unfold joinEqual
  split
  · rename_i more s
    intro x hx
    rcases List.mem_cons.1 hx with rfl | hx
    · simp only
      omega
    · exact hs x (List.mem_cons_of_mem _ hx)
  · intro x hx
    rcases List.mem_cons.1 hx with rfl | hx
    · exact Nat.pos_of_ne_zero hn
    · exact hs x hx

theorem count_pos_of_mem_normalFrom : ∀ (s : List Block) (deleted inserted : Nat),
    ∀ x ∈ normalFrom deleted inserted s, 0 < x.count
  | [], del, ins, x, hx => by
    rcases List.mem_append.1 hx with hx | hx <;> exact count_pos_of_mem_block hx
  | ⟨.deleted, n⟩ :: s, del, ins, x, hx => count_pos_of_mem_normalFrom s _ _ x hx
  | ⟨.inserted, n⟩ :: s, del, ins, x, hx => count_pos_of_mem_normalFrom s _ _ x hx
  | ⟨.equal, n⟩ :: s, del, ins, x, hx => by
    simp only [normalFrom] at hx
    split_ifs at hx with hn
    · exact count_pos_of_mem_normalFrom s del ins x hx
    · rcases List.mem_append.1 hx with hx | hx
      · rcases List.mem_append.1 hx with hx | hx <;> exact count_pos_of_mem_block hx
      · exact count_pos_of_mem_joinEqual hn (count_pos_of_mem_normalFrom s 0 0) x hx

theorem touchedFrom_eq_nil : ∀ (s : List Block) (line : Nat), (∀ x ∈ s, 0 < x.count) →
    edited s = 0 → touchedFrom line s = []
  | [], _, _, _ => rfl
  | ⟨.equal, n⟩ :: s, line, hpos, h =>
    touchedFrom_eq_nil s (line + n) (fun x hx => hpos x (List.mem_cons_of_mem _ hx)) h
  | ⟨.deleted, n⟩ :: s, line, hpos, h => by
    have := hpos _ List.mem_cons_self
    simp only [edited] at h this
    omega
  | ⟨.inserted, n⟩ :: s, line, hpos, h => by
    have := hpos _ List.mem_cons_self
    simp only [edited] at h this
    omega

theorem changedLines_eq_nil_iff (base head : List UInt8) :
    changedLines base head = [] ↔ splitLines base = splitLines head := by
  obtain ⟨hturns, hedited⟩ := compare_shortest (splitLines base) (splitLines head)
  constructor
  · exact eq_of_touchedFrom_eq_nil hturns 0
  · intro h
    refine touchedFrom_eq_nil _ 0 (count_pos_of_mem_normalFrom _ 0 0) ?_
    rw [ofTexts, hedited, h, distance_self]

end StructPadding.Diff

namespace StructPadding.Review

open Diff (Verbatim changedLines splitLines)

/-! ## Declarations -/

theorem touches_eq_false {lines : List Nat} {l : Layout} (h : touches lines l = .ok false) :
    ∀ t ∈ lines, ¬(l.lines.first ≤ t ∧ t ≤ l.lines.last) := by
  unfold touches at h
  split_ifs at h with hempty hinverted
  · rw [List.isEmpty_iff] at hempty
    simp [hempty]
  · simp only [Except.ok.injEq, List.any_eq_false, LineRange.contains, Bool.and_eq_true,
      decide_eq_true_eq] at h
    exact h

theorem touches_ok (lines : List Nat) {l : Layout} (h : l.lines.first ≤ l.lines.last) :
    ∃ hit, touches lines l = .ok hit := by
  unfold touches
  split_ifs with hempty hinverted
  · exact ⟨false, rfl⟩
  · omega
  · exact ⟨_, rfl⟩

theorem touched_cons_eq_ok {lines : List Nat} {l : Layout} {ls hits : List Layout}
    (h : touched lines (l :: ls) = .ok hits) :
    ∃ hit rest, touches lines l = .ok hit ∧ touched lines ls = .ok rest ∧
      hits = if hit then l :: rest else rest := by
  rw [touched] at h
  rcases hl : touches lines l with e | hit <;> rw [hl] at h
  · cases h
  rcases hls : touched lines ls with e | rest <;> rw [hls] at h
  · cases h
  · exact ⟨hit, rest, rfl, rfl, (Except.ok.inj h).symm⟩

/-- A declaration that is passed over has none of the lines in it. -/
theorem untouched_of_notMem {lines : List Nat} : ∀ {ls hits : List Layout} {l : Layout},
    touched lines ls = .ok hits → l ∈ ls → l ∉ hits →
      ∀ t ∈ lines, ¬(l.lines.first ≤ t ∧ t ≤ l.lines.last)
  | [], _, _, _, hl, _ => by simp at hl
  | m :: ls, hits, l, h, hl, hout => by
    obtain ⟨hit, rest, hm, hrest, rfl⟩ := touched_cons_eq_ok h
    rcases List.mem_cons.1 hl with rfl | hl
    · cases hit
      · exact touches_eq_false hm
      · simp at hout
    · refine untouched_of_notMem hrest hl fun hmem => hout ?_
      cases hit
      · exact hmem
      · exact List.mem_cons_of_mem _ hmem

theorem touched_ok {lines : List Nat} : ∀ {ls : List Layout},
    (∀ l ∈ ls, l.lines.first ≤ l.lines.last) → ∃ hits, touched lines ls = .ok hits
  | [], _ => ⟨[], rfl⟩
  | l :: ls, h => by
    obtain ⟨hit, hl⟩ := touches_ok lines (h l List.mem_cons_self)
    obtain ⟨rest, hrest⟩ := touched_ok fun m hm => h m (List.mem_cons_of_mem _ hm)
    rw [touched, hl, hrest]
    exact ⟨_, rfl⟩

theorem revised_eq_ok {base head : List UInt8} {bs hs : List Layout} {rs : List Revised}
    (h : revised base head bs hs = .ok rs) :
    ∃ hits, touched (changedLines base head) hs = .ok hits ∧ rs = hits.map (pair bs) := by
  unfold revised at h
  rcases ht : touched (changedLines base head) hs with e | hits <;> rw [ht] at h
  · cases h
  · exact ⟨hits, rfl, (Except.ok.inj h).symm⟩

/-- Whatever head lines a change does not touch are in the base as they are, in one piece; in
particular those of every declaration that is not listed as revised. The revised declarations can be
listed unless a declaration ends before it starts. A change touches no line at all exactly if the
texts have the same lines. -/
theorem untouched_verbatim (base head : List UInt8) :
    (∀ first last, 1 ≤ first → first ≤ last → last ≤ (splitLines head).length →
      (∀ t ∈ changedLines base head, ¬(first ≤ t ∧ t ≤ last)) →
      Verbatim (splitLines base) (splitLines head) first last) ∧
    (∀ baseLayouts headLayouts,
      (∀ rs, revised base head baseLayouts headLayouts = .ok rs →
        ∀ l ∈ headLayouts, 1 ≤ l.lines.first → l.lines.first ≤ l.lines.last →
          l.lines.last ≤ (splitLines head).length → (∀ r ∈ rs, r.head ≠ l) →
          Verbatim (splitLines base) (splitLines head) l.lines.first l.lines.last) ∧
      ((∀ l ∈ headLayouts, l.lines.first ≤ l.lines.last) →
        ∃ rs, revised base head baseLayouts headLayouts = .ok rs)) ∧
    (changedLines base head = [] ↔ splitLines base = splitLines head) := by
  refine ⟨fun first last hfirst _ hlast hout => Diff.verbatim_of_untouched hfirst hlast hout,
    fun bs hs => ⟨fun rs hrs l hl hfirst _ hlast hout => ?_, fun hranges => ?_⟩,
    Diff.changedLines_eq_nil_iff base head⟩
  · obtain ⟨hits, ht, rfl⟩ := revised_eq_ok hrs
    refine Diff.verbatim_of_untouched hfirst hlast (untouched_of_notMem ht hl fun hmem => ?_)
    exact hout _ (List.mem_map_of_mem hmem) rfl
  · obtain ⟨hits, ht⟩ := touched_ok hranges
    unfold revised
    rw [ht]
    exact ⟨_, rfl⟩

end StructPadding.Review
