import Mathlib.Data.List.Chain
import Mathlib.Order.Bounds.Defs
import StructPadding.Proofs.Contiguous
import StructPadding.Proofs.Described
import StructPadding.Proofs.Nested
import StructPadding.Proofs.Siblings

/-!
# Sequential allocation

What a layout looks like, said without placing anything (`Sequential`): the fields are contiguous,
each starts at the least multiple of its alignment that the field before it leaves free, the gaps
are real and never two in a row, and the whole is rounded up to the alignment of the record and no
further. Placing gives such a layout at every depth (`place_sequential`), because each step adds one
field behind at most one gap (`Lined.cons`) and closing a record only changes its end.
-/

namespace StructPadding

open StructPadding.Field (unpadded)

section

variable {ω : Type} [Measure ω]

/-- Each field with the offset where the one before it ends; the first has `base`. -/
def Field.seams (base : ω) (fs : List (Field ω)) : List (ω × Field ω) :=
  (base :: fs.map Field.stop).zip fs

open StructPadding.Field (seams)

@[simp]
theorem seams_nil (base : ω) : seams base [] = [] := rfl

@[simp]
theorem seams_cons (base : ω) (f : Field ω) (fs : List (Field ω)) :
    seams base (f :: fs) = (base, f) :: seams f.stop fs := rfl

theorem seams_concat (f : Field ω) : ∀ (base : ω) (fs : List (Field ω)),
    seams base (fs ++ [f]) = seams base fs ++ [(endOf base fs, f)]
  | base, [] => rfl
  | base, g :: fs => by
    have hend := endOf_append_cons base [] fs g
    rw [List.nil_append] at hend
    rw [List.cons_append, seams_cons, seams_concat f g.stop fs, seams_cons, hend, List.cons_append]

/-- The bytes that a record of these fields is rounded up to a multiple of. -/
def RecordRule.Rounds : RecordRule → List (Field ω) → Nat → Prop
  | fixed m, _, n => n = m.toNat
  | natural, fs, n => IsGreatest {m | ∃ f ∈ fs, f.alignBytes = m} n

/-- The fields of one record, allocated one after another from `base` on. -/
structure Sequential (rule : RecordRule) (base : ω) (fs : List (Field ω)) : Prop where
  contiguous : ∀ p ∈ seams base fs, p.2.start = p.1
  least : ∀ p ∈ seams base (unpadded fs),
    IsLeast {x | p.2.alignBytes ∣ x ∧ Measure.toNat p.1 ≤ x} (Measure.toNat p.2.start)
  nonempty : ∀ f ∈ fs, f.isPadding → 0 < Measure.toNat f.size
  apart : fs.IsChain fun f g => ¬(f.isPadding ∧ g.isPadding)
  /-- Only the last field may take up more than it was declared with, to be no less than a byte. -/
  declared : ∀ f ∈ (unpadded fs).dropLast, f.size = f.declared
  last : ∀ f ∈ (unpadded fs).getLast?, Measure.toNat f.size = max 1 (Measure.toNat f.declared)
  rounded : fs ≠ [] → ∃ n, rule.Rounds fs n ∧ n ∣ Measure.toNat (Field.totalSize fs) ∧
    ∀ before start size, fs = before ++ [.padding start size] → Measure.toNat size < n

end

open StructPadding.Field (seams)

/-! ## Fields in a line -/

/-- Fields placed one after another, before the record is rounded up. -/
structure Lined (offset : Nat) (fs : List (Field Nat)) : Prop where
  least : ∀ p ∈ seams offset (unpadded fs), IsLeast {x | p.2.alignBytes ∣ x ∧ p.1 ≤ x} p.2.start
  nonempty : ∀ f ∈ fs, f.isPadding → 0 < f.size
  apart : fs.IsChain fun f g => ¬(f.isPadding ∧ g.isPadding)
  declared : ∀ f ∈ unpadded fs, f.size = f.declared ∧ f.widen.size = max 1 f.declared
  last : ∀ f ∈ fs.getLast?, f.isPadding = false

theorem size_pos_of_mem_gap {start size : Nat} {f : Field Nat} (h : f ∈ gap start size) :
    0 < f.size := by
  unfold gap at h
  split_ifs at h with hnone
  · cases h
  · rw [List.mem_singleton.1 h, Field.size]
    exact Nat.pos_of_ne_zero hnone

theorem isChain_gap (R : Field Nat → Field Nat → Prop) (start size : Nat) :
    (gap start size).IsChain R := by
  unfold gap
  split_ifs <;> simp

/-- One field more, behind the gap it needs. -/
theorem Lined.cons {a : Alignment} {offset : Nat} {f : Field Nat} {fs : List (Field Nat)}
    (h : Lined f.stop fs) (hf : f.isPadding = false) (halign : f.alignBytes = a.bytes)
    (hstart : f.start = a.roundUp offset)
    (hdeclared : f.size = f.declared ∧ f.widen.size = max 1 f.declared) :
    Lined offset (gap offset (a.roundUp offset - offset) ++ f :: fs) := by
  have hunpadded : unpadded (gap offset (a.roundUp offset - offset) ++ f :: fs) =
      f :: unpadded fs := by
    rw [Field.unpadded_append, Field.unpadded_gap, List.nil_append, Field.unpadded_cons_of _ hf]
  refine ⟨?_, ?_, ?_, ?_, ?_⟩
  · rw [hunpadded, seams_cons, List.forall_mem_cons]
    refine ⟨?_, h.least⟩
    simp only [halign, hstart]
    exact a.isLeast_roundUp offset
  · intro g hg hpadding
    rcases List.mem_append.1 hg with hg | hg
    · exact size_pos_of_mem_gap hg
    · rcases List.mem_cons.1 hg with rfl | hg
      · rw [hf] at hpadding
        cases hpadding
      · exact h.nonempty g hg hpadding
  · refine (isChain_gap _ _ _).append (List.isChain_cons.2 ⟨?_, h.apart⟩) ?_
    · simp [hf]
    · simp [hf]
  · rw [hunpadded, List.forall_mem_cons]
    exact ⟨hdeclared, h.declared⟩
  · intro g hg
    rcases List.eq_nil_or_concat fs with rfl | ⟨fs, e, rfl⟩
    · simp only [List.getLast?_append, List.getLast?_singleton, Option.some_or,
        Option.mem_some_iff] at hg
      rw [← hg, hf]
    · have happend : gap offset (a.roundUp offset - offset) ++ f :: fs.concat e =
          gap offset (a.roundUp offset - offset) ++ f :: fs ++ [e] := by simp
      rw [happend, List.getLast?_concat] at hg
      exact h.last g (by simpa using hg)

theorem Placed.lined {rule : RecordRule} {offset : Nat} {ds : List Descriptor}
    {fs : List (Field Nat)} (h : Placed rule offset ds fs) : Lined offset fs := by
  induction h using Placed.numbers_induction with
  | nil => exact ⟨by simp [unpadded], by simp, by simp, by simp [unpadded], by simp⟩
  | @leaf offset d ds a fs hleaf hcheck _ ih =>
    refine Lined.cons ih rfl rfl rfl ⟨rfl, ?_⟩
    simp only [Field.widen, Field.size, Field.declared]
    split_ifs <;> omega
  | @record offset d ds a inner closed fs hrecord hcheck nested hclose _ _ ih =>
    have hpos := nested.totalSize_closed_pos hrecord hclose
    refine Lined.cons (by rwa [Field.stop, Field.start, Field.size]) rfl rfl rfl ?_
    rw [widen_record hpos, Field.size, Field.declared]
    exact ⟨rfl, (max_eq_right hpos).symm⟩

/-! ## Closing the line -/

namespace Lined

variable {base : Nat} {front : List (Field Nat)} {f : Field Nat}

theorem isPadding_eq_false (h : Lined base (front ++ [f])) : f.isPadding = false :=
  h.last f (by simp)

theorem unpadded_closed (h : Lined base (front ++ [f])) (x y : Nat) :
    unpadded (front ++ [f.widen] ++ gap x y) = unpadded front ++ [f.widen] := by
  have hf := h.isPadding_eq_false
  rw [Field.unpadded_append, Field.unpadded_append, Field.unpadded_gap, List.append_nil,
    Field.unpadded_cons_of [] (by rw [Field.isPadding_widen, hf])]
  rfl

theorem unpadded_concat (h : Lined base (front ++ [f])) :
    unpadded (front ++ [f]) = unpadded front ++ [f] := by
  rw [Field.unpadded_append, Field.unpadded_cons_of [] h.isPadding_eq_false]
  rfl

/-- Widening the last field leaves it where it is. -/
theorem least_closed (h : Lined base (front ++ [f])) (x y : Nat) :
    ∀ p ∈ seams base (unpadded (front ++ [f.widen] ++ gap x y)),
      IsLeast {x | p.2.alignBytes ∣ x ∧ p.1 ≤ x} p.2.start := by
  have hleast := h.least
  rw [h.unpadded_concat, seams_concat] at hleast
  rw [h.unpadded_closed, seams_concat]
  intro p hp
  rcases List.mem_append.1 hp with hp | hp
  · exact hleast p (List.mem_append_left _ hp)
  · have hlast := hleast _ (List.mem_append_right _ (List.mem_singleton_self _))
    obtain rfl := List.mem_singleton.1 hp
    cases f <;> exact hlast

theorem nonempty_closed (h : Lined base (front ++ [f])) (x y : Nat) :
    ∀ g ∈ front ++ [f.widen] ++ gap x y, g.isPadding → 0 < g.size := by
  intro g hg hpadding
  rcases List.mem_append.1 hg with hg | hg
  · rcases List.mem_append.1 hg with hg | hg
    · exact h.nonempty g (List.mem_append_left _ hg) hpadding
    · rw [List.mem_singleton.1 hg, Field.isPadding_widen, h.isPadding_eq_false] at hpadding
      cases hpadding
  · exact size_pos_of_mem_gap hg

theorem apart_closed (h : Lined base (front ++ [f])) (x y : Nat) :
    (front ++ [f.widen] ++ gap x y).IsChain fun f g => ¬(f.isPadding ∧ g.isPadding) := by
  have hf := h.isPadding_eq_false
  refine (h.apart.left_of_append.append (.singleton _) ?_).append (isChain_gap _ x y) ?_
  · simp [hf]
  · simp [hf]

end Lined

theorem contiguous_of_checkAll : ∀ {base stop : Nat} {fs : List (Field Nat)},
    Field.checkAll base fs = .ok stop → ∀ p ∈ seams base fs, p.2.start = p.1
  | base, stop, [], _, p, hp => by simp at hp
  | base, stop, f :: fs, h, p, hp => by
    obtain ⟨hf, hfs⟩ := Field.checkAll_cons.1 h
    rcases List.mem_cons.1 hp with rfl | hp
    · exact Field.start_of_check hf
    · exact contiguous_of_checkAll hfs p hp

theorem exists_widest_mem : ∀ {ds : List Descriptor}, ds ≠ [] → (∀ d ∈ ds, d.Valid) →
    ∃ d ∈ ds, d.align.toInt.toNat = RecordRule.widest ds
  | [d], _, hds => by
    obtain ⟨a, ha⟩ := Descriptor.valid_iff.1 (hds d List.mem_cons_self)
    have hbytes := (Descriptor.check_eq_ok.1 ha).2
    have hpos := a.bytes_pos
    refine ⟨d, List.mem_cons_self, ?_⟩
    simp only [RecordRule.widest]
    omega
  | d :: e :: ds, _, hds => by
    obtain ⟨g, hg, hwidest⟩ := exists_widest_mem (List.cons_ne_nil e ds) fun x hx =>
      hds x (List.mem_cons_of_mem d hx)
    rw [RecordRule.widest, ← hwidest]
    rcases Nat.le_total g.align.toInt.toNat d.align.toInt.toNat with hle | hle
    · exact ⟨d, List.mem_cons_self, (Nat.max_eq_left hle).symm⟩
    · exact ⟨g, List.mem_cons_of_mem d hg, (Nat.max_eq_right hle).symm⟩

/-- The alignment of a record is the one that its rule asks for. -/
theorem rounds_of_place {rule : RecordRule} {ds : List Descriptor} {base : Nat}
    {fs : List (Field Nat)} {a : Alignment} (h : place rule ds base = .ok fs) (hne : ds ≠ [])
    (ha : rule.alignment ds = .ok a) : rule.Rounds fs a.bytes := by
  rcases rule with n | _
  · exact RecordRule.demand_eq_ok.1 ha
  · have hbytes : a.bytes = RecordRule.widest ds := RecordRule.demand_eq_ok.1 ha
    have hrealises := realises_of_place h
    have hvalid : ∀ d ∈ ds, d.Valid := fun d hd => ((describes_of_place h).valid.mem d hd).1
    have haligns : (unpadded fs).map Field.alignBytes = ds.map fun d => d.align.toInt.toNat := by
      clear h hne ha hbytes hvalid
      generalize unpadded fs = gs at hrealises
      induction hrealises with
      | nil => rfl
      | cons hd _ ih => rw [List.map_cons, List.map_cons, hd.alignBytes, ih]
    rw [hbytes]
    constructor
    · obtain ⟨d, hd, hwidest⟩ := exists_widest_mem hne hvalid
      have hmem : RecordRule.widest ds ∈ (unpadded fs).map Field.alignBytes := by
        rw [haligns, ← hwidest]
        exact List.mem_map_of_mem hd
      obtain ⟨f, hf, halign⟩ := List.mem_map.1 hmem
      exact ⟨f, (Field.mem_unpadded.1 hf).1, halign⟩
    · rintro m ⟨f, hf, rfl⟩
      rcases hpadding : f.isPadding with _ | _
      · have hmem : f.alignBytes ∈ (unpadded fs).map Field.alignBytes :=
          List.mem_map_of_mem (Field.mem_unpadded.2 ⟨hf, hpadding⟩)
        rw [haligns] at hmem
        obtain ⟨d, hd, halign⟩ := List.mem_map.1 hmem
        rw [← halign]
        exact RecordRule.align_le_widest hd
      · cases f <;> first | exact Nat.zero_le _ | cases hpadding

/-- The padding at the end of a closed record is what rounding up adds. -/
theorem size_of_gap_eq {front before : List (Field Nat)} {f : Field Nat}
    {x y start size : Nat} (hf : f.isPadding = false)
    (h : front ++ [f] ++ gap x y = before ++ [.padding start size]) : size = y := by
  unfold gap at h
  split_ifs at h
  · rw [List.append_nil] at h
    obtain ⟨-, hlast⟩ := List.append_inj' h rfl
    simp only [List.cons.injEq, and_true] at hlast
    rw [hlast] at hf
    cases hf
  · obtain ⟨-, hlast⟩ := List.append_inj' h rfl
    simp only [List.cons.injEq, Field.padding.injEq, and_true] at hlast
    exact hlast.2.symm

theorem sequential_of_place {rule : RecordRule} {ds : List Descriptor} {base : Nat}
    {fs : List (Field Nat)} (h : place rule ds base = .ok fs) : Sequential rule base fs := by
  have hcontiguous := contiguous_of_checkAll (checkAll_of_place h)
  obtain ⟨inner, hinner, hclose⟩ := place_eq_ok.1 h
  have hlined := hinner.lined
  rcases List.eq_nil_or_concat inner with rfl | ⟨front, f, rfl⟩
  · obtain rfl := Except.ok.inj hclose
    exact ⟨hcontiguous, hlined.least, hlined.nonempty, hlined.apart, by simp [unpadded],
      by simp [unpadded], fun hne => absurd rfl hne⟩
  rw [List.concat_eq_append] at hlined hinner hclose
  have hne : ds ≠ [] := fun hnil => by simpa using hinner.eq_nil_iff.2 hnil
  obtain ⟨a, ha, hsize⟩ := hinner.totalSize_closed hne hclose
  have hround := rounds_of_place h hne ha
  obtain ⟨a', ha', rfl⟩ := (closeRecord_eq_ok (by simp)).1 hclose
  obtain rfl := Except.ok.inj (ha.symm.trans ha')
  rw [widenLast_append_cons, widenLast, trailing_nat] at hround hcontiguous hsize ⊢
  refine ⟨hcontiguous, hlined.least_closed _ _, hlined.nonempty_closed _ _,
    hlined.apart_closed _ _, ?_, ?_, fun _ => ⟨a.bytes, hround, ?_, ?_⟩⟩
  · intro g hg
    rw [hlined.unpadded_closed, List.dropLast_concat] at hg
    refine (hlined.declared g ?_).1
    rw [hlined.unpadded_concat]
    exact List.mem_append_left _ hg
  · intro g hg
    rw [hlined.unpadded_closed, List.getLast?_concat, Option.mem_some_iff] at hg
    have hdeclared := (hlined.declared f (by rw [hlined.unpadded_concat]; simp)).2
    rw [← hg, hdeclared]
    cases f <;> rfl
  · rw [hsize]
    exact a.dvd_roundUp _
  · intro before start size hfs
    have hf : f.widen.isPadding = false := by
      rw [Field.isPadding_widen, hlined.isPadding_eq_false]
    have hpos := a.bytes_pos
    have hlt := a.roundUp_lt (endOf base (front ++ [f.widen]) - base)
    rw [size_of_gap_eq hf hfs, Measure.toNat_nat]
    omega

/-! ## Words -/

open StructPadding.Field (wordsAll)

theorem stop_le_of_contiguous {f : Field Nat} : ∀ {base : Nat} {fs : List (Field Nat)},
    (∀ p ∈ seams base fs, p.2.start = p.1) → f ∈ fs → f.stop ≤ base + Field.totalSize fs
  | base, g :: fs, h, hf => by
    rw [seams_cons, List.forall_mem_cons] at h
    obtain ⟨hg, hfs⟩ := h
    have hstop : g.stop = base + g.size := by rw [Field.stop, hg]
    rw [Field.totalSize]
    rcases List.mem_cons.1 hf with rfl | hf
    · omega
    · have := stop_le_of_contiguous hfs hf
      omega

theorem seams_words (base : Nat) (fs : List (Field Nat)) :
    seams (UInt64.ofNat base) (wordsAll fs) =
      (seams base fs).map fun p => (.ofNat p.1, p.2.words) := by
  induction fs generalizing base with
  | nil => rfl
  | cons f fs ih => rw [wordsAll, seams_cons, seams_cons, Field.stop_words, ih, List.map_cons]

theorem mem_of_mem_seams {base : Nat} {fs : List (Field Nat)} {p : Nat × Field Nat}
    (h : p ∈ seams base fs) : (p.1 = base ∨ ∃ g ∈ fs, p.1 = g.stop) ∧ p.2 ∈ fs := by
  induction fs generalizing base with
  | nil => cases h
  | cons f fs ih =>
    rcases List.mem_cons.1 h with rfl | h
    · exact ⟨.inl rfl, List.mem_cons_self⟩
    · obtain ⟨hstart | ⟨g, hg, hstop⟩, hmem⟩ := ih h
      · exact ⟨.inr ⟨f, List.mem_cons_self, hstart⟩, List.mem_cons_of_mem f hmem⟩
      · exact ⟨.inr ⟨g, List.mem_cons_of_mem f hg, hstop⟩, List.mem_cons_of_mem f hmem⟩

theorem rounds_words {rule : RecordRule} {fs : List (Field Nat)} {n : Nat}
    (h : rule.Rounds fs n) : rule.Rounds (wordsAll fs) n := by
  rcases rule with m | _
  · exact h
  · simpa [RecordRule.Rounds, Field.wordsAll_eq_map] using h

namespace Sequential

variable {rule : RecordRule} {base : Nat} {fs : List (Field Nat)}

theorem stop_lt (h : Sequential rule base fs) (hroom : base + Field.totalSize fs < UInt64.size)
    {f : Field Nat} (hf : f ∈ fs) : f.stop < UInt64.size :=
  (stop_le_of_contiguous h.contiguous hf).trans_lt hroom

theorem size_lt (h : Sequential rule base fs) (hroom : base + Field.totalSize fs < UInt64.size)
    {f : Field Nat} (hf : f ∈ fs) : f.size < UInt64.size :=
  (Nat.le_add_left _ _).trans_lt (h.stop_lt hroom hf)

theorem least_words (h : Sequential rule base fs)
    (hroom : base + Field.totalSize fs < UInt64.size) :
    ∀ p ∈ seams (UInt64.ofNat base) (unpadded (wordsAll fs)),
      IsLeast {x | p.2.alignBytes ∣ x ∧ Measure.toNat p.1 ≤ x} (Measure.toNat p.2.start) := by
  rw [Field.unpadded_words, seams_words, List.forall_mem_map]
  intro p hp
  have hmem : ∀ {f}, f ∈ unpadded fs → f ∈ fs := fun hf => (Field.mem_unpadded.1 hf).1
  obtain ⟨hbefore, hfield⟩ := mem_of_mem_seams hp
  have hseam : p.1 < UInt64.size := by
    rcases hbefore with hbase | ⟨g, hg, hstop⟩
    · omega
    · exact hstop ▸ h.stop_lt hroom (hmem hg)
  have hstart : p.2.start < UInt64.size :=
    (Nat.le_add_right _ _).trans_lt (h.stop_lt hroom (hmem hfield))
  rw [Field.alignBytes_words, Field.start_words, measure_word hseam, measure_word hstart]
  exact h.least p hp

theorem last_words (h : Sequential rule base fs)
    (hroom : base + Field.totalSize fs < UInt64.size) :
    ∀ f ∈ (unpadded (wordsAll fs)).getLast?,
      Measure.toNat f.size = max 1 (Measure.toNat f.declared) := by
  intro g hg
  rw [Field.unpadded_words, Field.wordsAll_eq_map, List.getLast?_map] at hg
  obtain ⟨f, hf, rfl⟩ := Option.map_eq_some_iff.1 hg
  have hlast := h.last f hf
  have hsize := h.size_lt hroom (Field.mem_unpadded.1 (List.mem_of_getLast? hf)).1
  simp only [Measure.toNat_nat] at hlast
  rw [Field.size_words, Field.declared_words, measure_word hsize, measure_word (by omega), hlast]

theorem trailing_words (h : Sequential rule base fs)
    (hroom : base + Field.totalSize fs < UInt64.size) {n : Nat}
    (hlt : ∀ before start size, fs = before ++ [.padding start size] → size < n)
    {before : List Field} {start size : UInt64}
    (hfs : wordsAll fs = before ++ [.padding start size]) : Measure.toNat size < n := by
  rcases List.eq_nil_or_concat fs with rfl | ⟨front, f, rfl⟩
  · simp [wordsAll] at hfs
  rw [List.concat_eq_append] at h hroom hfs hlt
  rw [Field.wordsAll_append] at hfs
  obtain ⟨-, hlast⟩ := List.append_inj' hfs rfl
  have hpadding : f.words = .padding start size := List.head_eq_of_cons_eq hlast
  cases f with
  | padding start' size' =>
    rw [Field.words, Field.padding.injEq] at hpadding
    have hsize : size' < UInt64.size := h.size_lt hroom (f := .padding start' size') (by simp)
    rw [← hpadding.2, measure_word hsize]
    exact hlt front start' size' rfl
  | _ => cases hpadding

/-- A sequential allocation with room for it is one in words. -/
theorem words (h : Sequential rule base fs) (hroom : base + Field.totalSize fs < UInt64.size) :
    Sequential rule (UInt64.ofNat base) (wordsAll fs) := by
  refine ⟨?_, h.least_words hroom, ?_, ?_, ?_, h.last_words hroom, fun hne => ?_⟩
  · rw [seams_words, List.forall_mem_map]
    intro p hp
    rw [Field.start_words, h.contiguous p hp]
  · rw [Field.wordsAll_eq_map, List.forall_mem_map]
    intro f hf hpadding
    rw [Field.isPadding_words] at hpadding
    rw [Field.size_words, measure_word (h.size_lt hroom hf)]
    exact h.nonempty f hf hpadding
  · rw [Field.wordsAll_eq_map, List.isChain_map]
    simpa using h.apart
  · rw [Field.unpadded_words, Field.wordsAll_eq_map, ← List.map_dropLast, List.forall_mem_map]
    intro f hf
    rw [Field.size_words, Field.declared_words, h.declared f hf]
  · obtain ⟨n, hround, hdvd, htrailing⟩ := h.rounded (by rintro rfl; exact hne rfl)
    refine ⟨n, rounds_words hround, ?_, fun before start size => h.trailing_words hroom htrailing⟩
    rwa [Field.totalSize_words, measure_word (by omega)]

end Sequential

/-- No field of a layout in numbers ends after it. -/
theorem stop_le_of_place {rule : RecordRule} {ds : List Descriptor} {base : Nat}
    {fs : List (Field Nat)} (h : place rule ds base = .ok fs) {f : Field Nat}
    (hwithin : f.Within fs) : f.stop ≤ base + Field.totalSize fs := by
  rcases hwithin.cases with hf | ⟨g, hg, hf⟩
  · exact stop_le_of_contiguous (sequential_of_place h).contiguous hf
  · have hrecord := Field.isRecord_of_mem_children hf
    obtain ⟨d, hd⟩ := stems_of_place h (describes_of_place h).valid hrecord hg
    have hspans := spans_of_place h hrecord hg
    have hstop := hspans.stop_le
    rw [Field.stop, hspans.size] at hstop
    exact (stop_le_of_contiguous (sequential_of_place hd.placed).contiguous hf).trans hstop

/-- A record in a layout in numbers, told of its words. -/
theorem sequential_of_within {rule : RecordRule} {ds : List Descriptor} {base : Nat}
    {fs : List (Field Nat)} (h : place rule ds base = .ok fs)
    (hroom : base + Field.totalSize fs < UInt64.size) {f : Field Nat} (hwithin : f.Within fs)
    (hf : f.isRecord) : f.words.children ≠ [] ∧ Sequential rule f.words.start f.words.children ∧
      endOf f.words.start f.words.children = f.words.stop := by
  obtain ⟨d, hd⟩ := stems_of_place h (describes_of_place h).valid hf hwithin
  have hspans := spans_of_place h hf hwithin
  have hstop : f.start + Field.totalSize f.children = f.stop := by rw [Field.stop, hspans.size]
  rw [Field.children_words, Field.start_words, Field.stop_words, endOf_words,
    Field.endOf_of_checkAll (checkAll_of_place hd.placed), hstop]
  refine ⟨fun hnil => ?_, (sequential_of_place hd.placed).words ?_, rfl⟩
  · have hpos := hspans.pos
    rw [Field.wordsAll_eq_map, List.map_eq_nil_iff] at hnil
    rw [hnil, Field.totalSize] at hpos
    cases hpos
  · exact hstop.trans_lt (hspans.stop_le.trans_lt hroom)

/-- A layout that does not wrap around is a sequential allocation of its descriptors, in their
order, and so is each record in it, from where the record starts to where it ends. No field ends
past 2^64, and the check accepts the layout. -/
theorem place_sequential {rule : RecordRule} {ds : List Descriptor} {base : UInt64}
    {fs : List Field} (h : place rule ds base = .ok fs) (hfits : Fits rule ds base.toNat) :
    Describes ds fs ∧ Sequential rule base fs ∧
      (∀ f : Field, f.Within fs → f.isRecord → f.children ≠ [] ∧
        Sequential rule f.start f.children ∧ endOf f.start f.children = f.stop) ∧
      (∀ f : Field, f.Within fs → f.start.toNat + f.size.toNat < UInt64.size) ∧
      ∀ name lines, Layout.check ⟨name, lines, fs⟩ = .ok () := by
  have hcheck : ∀ name lines, Layout.check ⟨name, lines, fs⟩ = .ok () := fun name lines =>
    check_of_place (l := ⟨name, lines, fs⟩) h hfits
  have hdescribes := describes_of_place h
  obtain ⟨es, hes, rfl⟩ := hfits.words h
  have hroom := hfits.lt hes
  have hall := (sequential_of_place hes).words hroom
  rw [UInt64.ofNat_toNat] at hall
  refine ⟨hdescribes, hall, fun f hwithin hf => ?_, fun f hwithin => ?_, hcheck⟩
  · obtain ⟨e, he, rfl⟩ := Field.within_words hwithin
    exact sequential_of_within hes hroom he (by simpa using hf)
  · obtain ⟨e, he, rfl⟩ := Field.within_words hwithin
    have hstop := (stop_le_of_place hes he).trans_lt hroom
    rw [Field.stop] at hstop
    rw [Field.start_words, Field.size_words, toNat_word (by omega), toNat_word (by omega)]
    exact hstop

/-- Leaves of no size at either end, and a record that is aligned less than its fields. -/
def uneven : List Descriptor :=
  [.leaf "z" "[0]int64" 0 8, .leaf "ok" "bool" 1 1,
    .record "in" "In" 0 2 [.leaf "n" "int32" 4 4, .leaf "e" "[0]int8" 0 1],
    .leaf "end" "[0]int16" 0 2]

theorem place_sequential_uneven : ∃ fs : List Field, place .natural uneven 4 = .ok fs ∧
    Fits .natural uneven 4 ∧
    (fs.map fun f => (f.name, f.start, f.stop)) = [("", 4, 8), ("z", 8, 8), ("ok", 8, 9),
      ("", 9, 10), ("in", 10, 18), ("end", 18, 19), ("", 19, 20)] ∧
    Describes uneven fs ∧ Sequential .natural 4 fs ∧
      (∀ f : Field, f.Within fs → f.isRecord → f.children ≠ [] ∧
        Sequential .natural f.start f.children ∧ endOf f.start f.children = f.stop) ∧
      (∀ f : Field, f.Within fs → f.start.toNat + f.size.toNat < UInt64.size) ∧
      ∀ name lines, Layout.check ⟨name, lines, fs⟩ = .ok () := by
  have hplace : place .natural uneven (4 : UInt64) = .ok
      [.padding 4 4, .leaf "z" "[0]int64" 8 0 0 ⟨⟨3, by decide⟩⟩,
        .leaf "ok" "bool" 8 1 1 ⟨⟨0, by decide⟩⟩, .padding 9 1,
        .record "in" "In" 10 ⟨⟨1, by decide⟩⟩ false
          [.padding 10 2, .leaf "n" "int32" 12 4 4 ⟨⟨2, by decide⟩⟩,
            .leaf "e" "[0]int8" 16 1 0 ⟨⟨0, by decide⟩⟩, .padding 17 1],
        .leaf "end" "[0]int16" 18 1 0 ⟨⟨1, by decide⟩⟩, .padding 19 1] := by decide +kernel
  have hfits : Fits .natural uneven (4 : UInt64).toNat := by decide +kernel
  exact ⟨_, hplace, hfits, by decide +kernel, place_sequential hplace hfits⟩

end StructPadding
