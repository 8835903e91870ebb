import StructPadding.Partition
import StructPadding.Proofs.Words

/-!
# Placed fields pass the check

Placed fields start where the ones before them end, on their boundaries, and the fields of a record
end where the record does. So the check accepts every layout that came out of a placement
(`check_of_place`), at whatever offset.
-/

namespace StructPadding

variable {ω : Type} [Measure ω]

namespace Field

theorem checkStart_eq_ok {name : String} {expected start : ω} {u : Unit} :
    checkStart name expected start = .ok u ↔ start = expected := by
  unfold checkStart
  split_ifs with h <;> simp [h]

theorem checkBoundary_eq_ok {name : String} {start : ω} {a : Alignment} {u : Unit} :
    checkBoundary name start a = .ok u ↔ a.bytes ∣ Measure.toNat start := by
  have hpos := a.bytes_pos
  unfold checkBoundary
  simp only [Alignment.onBoundary, Bool.or_eq_true, beq_iff_eq, ← Nat.dvd_iff_mod_eq_zero]
  split_ifs with h
  · simp [h.resolve_left (by omega)]
  · simpa using fun hdvd => h (.inr hdvd)

section

variable {name typeName : String} {start size declared expected : ω} {a : Alignment}

theorem check_padding_eq_ok :
    (padding start size).check expected = .ok () ↔ start = expected := by
  rw [check, checkStart_eq_ok]

theorem check_leaf_eq_ok : (leaf name typeName start size declared a).check expected = .ok () ↔
    start = expected ∧ a.bytes ∣ Measure.toNat start := by
  rw [check, bind_eq_ok]
  simp only [checkStart_eq_ok, checkBoundary_eq_ok, exists_const]

/-- The fields of a record follow one another from its start to its end. -/
theorem check_record_eq_ok {widened : Bool} {children : List (Field ω)} :
    (record name typeName start a widened children).check expected = .ok () ↔
      start = expected ∧ a.bytes ∣ Measure.toNat start ∧ (children ≠ [] →
        checkAll start children = .ok (record name typeName start a widened children).stop) := by
  rw [check, bind_eq_ok]
  simp only [bind_eq_ok, checkStart_eq_ok, checkBoundary_eq_ok, exists_const]
  refine and_congr_right fun _ => and_congr_right fun _ => ?_
  split_ifs with hempty
  · simp [List.isEmpty_iff.1 hempty, pure, Except.pure]
  · have hne : children ≠ [] := fun h => hempty (List.isEmpty_iff.2 h)
    simp only [bind_eq_ok, hne, ne_eq, not_false_eq_true, forall_const]
    constructor
    · rintro ⟨reached, hreached, h⟩
      split_ifs at h with hstop
      rw [hreached, hstop]
    · intro h
      exact ⟨_, h, by rw [if_pos rfl]; rfl⟩

end

theorem start_of_check {expected : ω} {f : Field ω} (h : f.check expected = .ok ()) :
    f.start = expected := by
  cases f with
  | padding => exact check_padding_eq_ok.1 h
  | leaf => exact (check_leaf_eq_ok.1 h).1
  | record => exact (check_record_eq_ok.1 h).1

theorem checkAll_cons {expected stop : ω} {f : Field ω} {fs : List (Field ω)} :
    checkAll expected (f :: fs) = .ok stop ↔
      f.check expected = .ok () ∧ checkAll f.stop fs = .ok stop := by
  rw [checkAll, bind_eq_ok]
  constructor
  · rintro ⟨⟨⟩, hf, hfs⟩
    exact ⟨hf, hfs⟩
  · rintro ⟨hf, hfs⟩
    exact ⟨(), hf, hfs⟩

theorem checkAll_append {stop : ω} : ∀ {expected : ω} {fs gs : List (Field ω)},
    checkAll expected (fs ++ gs) = .ok stop ↔
      ∃ middle, checkAll expected fs = .ok middle ∧ checkAll middle gs = .ok stop
  | expected, [], gs => by simp [checkAll]
  | expected, f :: fs, gs => by
    rw [List.cons_append, checkAll_cons, checkAll_append]
    constructor
    · rintro ⟨hf, middle, hfs, hgs⟩
      exact ⟨middle, checkAll_cons.2 ⟨hf, hfs⟩, hgs⟩
    · rintro ⟨middle, hfs, hgs⟩
      obtain ⟨hf, hfs⟩ := checkAll_cons.1 hfs
      exact ⟨hf, middle, hfs, hgs⟩

/-- Fields that pass the check end as far on as they are long. -/
theorem stop_of_checkAll {stop : ω} : ∀ {expected : ω} {fs : List (Field ω)},
    checkAll expected fs = .ok stop → stop = expected + totalSize fs
  | expected, [], h => by
    rw [checkAll] at h
    rw [totalSize, Measure.add_zero, Except.ok.inj h]
  | expected, f :: fs, h => by
    obtain ⟨hf, hfs⟩ := checkAll_cons.1 h
    rw [stop_of_checkAll hfs, Field.stop, start_of_check hf, totalSize, Measure.add_assoc]

theorem endOf_of_checkAll {stop : ω} : ∀ {expected : ω} {fs : List (Field ω)},
    checkAll expected fs = .ok stop → endOf expected fs = stop
  | expected, [], h => by
    rw [checkAll] at h
    exact Except.ok.inj h
  | expected, f :: fs, h => by
    obtain ⟨-, hfs⟩ := checkAll_cons.1 h
    rw [← List.nil_append (f :: fs), endOf_append_cons, endOf_of_checkAll hfs]

/-! ## What was placed in numbers -/

theorem checkAll_gap (start size : Nat) :
    checkAll start (gap start size) = .ok (start + size) := by
  unfold gap
  split_ifs with hnone
  · rw [checkAll, hnone, Nat.add_zero]
  · rw [checkAll_cons, check_padding_eq_ok, Field.stop, Field.start, Field.size, checkAll]
    exact ⟨rfl, rfl⟩

theorem check_widen {expected : Nat} {f : Field Nat} (h : f.check expected = .ok ())
    (hsolid : f.Solid) : f.widen.check expected = .ok () := by
  cases f with
  | padding => exact check_padding_eq_ok.2 (check_padding_eq_ok.1 h)
  | leaf => exact check_leaf_eq_ok.2 (check_leaf_eq_ok.1 h)
  | record => rwa [widen_record hsolid]

theorem checkAll_widenLast {stop : Nat} : ∀ {expected : Nat} {fs : List (Field Nat)},
    checkAll expected fs = .ok stop → (∀ f ∈ fs, f.Solid) →
      ∃ stop', checkAll expected (widenLast fs) = .ok stop'
  | expected, [], h, _ => ⟨stop, h⟩
  | expected, [f], h, hsolid => by
    obtain ⟨hf, -⟩ := checkAll_cons.1 h
    exact ⟨_, checkAll_cons.2 ⟨check_widen hf (hsolid f List.mem_cons_self), by rw [checkAll]⟩⟩
  | expected, f :: g :: fs, h, hsolid => by
    obtain ⟨hf, hrest⟩ := checkAll_cons.1 h
    obtain ⟨stop', hstop'⟩ := checkAll_widenLast hrest fun e he =>
      hsolid e (List.mem_cons_of_mem f he)
    rw [widenLast_cons (List.cons_ne_nil g fs)]
    exact ⟨stop', checkAll_cons.2 ⟨hf, hstop'⟩⟩

end Field

open StructPadding.Field (checkAll)

/-- Rounding a record up keeps its fields contiguous. -/
theorem checkAll_closeRecord {rule : RecordRule} {ds : List Descriptor} {base stop : Nat}
    {inner closed : List (Field Nat)} (h : checkAll base inner = .ok stop)
    (hsolid : ∀ f ∈ inner, f.Solid) (hclose : closeRecord rule ds base inner = .ok closed) :
    checkAll base closed = .ok (base + Field.totalSize closed) := by
  have hsome : ∃ stop', checkAll base closed = .ok stop' := by
    by_cases hne : inner = []
    · subst hne
      obtain rfl := Except.ok.inj hclose
      exact ⟨stop, h⟩
    · obtain ⟨a, -, rfl⟩ := (closeRecord_eq_ok hne).1 hclose
      obtain ⟨reached, hreached⟩ := Field.checkAll_widenLast h hsolid
      rw [Field.endOf_of_checkAll hreached, trailing_nat]
      exact ⟨_, Field.checkAll_append.2 ⟨reached, hreached, Field.checkAll_gap _ _⟩⟩
  obtain ⟨stop', hstop'⟩ := hsome
  rw [hstop', Field.stop_of_checkAll hstop']

theorem Placed.checkAll {rule : RecordRule} {offset : Nat} {ds : List Descriptor}
    {fs : List (Field Nat)} (h : Placed rule offset ds fs) :
    ∃ stop, checkAll offset fs = .ok stop := by
  -- the gap before a field ends on the field's boundary
  have hgap : ∀ (a : Alignment) (offset : Nat),
      Field.checkAll offset (gap offset (a.roundUp offset - offset)) = .ok (a.roundUp offset) := by
    intro a offset
    rw [Field.checkAll_gap, Nat.add_sub_cancel' (a.le_roundUp offset)]
  induction h using Placed.numbers_induction with
  | nil offset => exact ⟨offset, by rw [Field.checkAll]⟩
  | @leaf offset d ds a fs hleaf hcheck _ ih =>
    obtain ⟨stop, hstop⟩ := ih
    refine ⟨stop, Field.checkAll_append.2 ⟨_, hgap a offset, ?_⟩⟩
    exact Field.checkAll_cons.2 ⟨Field.check_leaf_eq_ok.2 ⟨rfl, a.dvd_roundUp offset⟩, hstop⟩
  | @record offset d ds a inner closed fs hrecord hcheck nested hclose _ ihNested ihTail =>
    obtain ⟨_, hinner⟩ := ihNested
    obtain ⟨stop, hstop⟩ := ihTail
    refine ⟨stop, Field.checkAll_append.2 ⟨_, hgap a offset, ?_⟩⟩
    have hrecord : (Field.record d.name d.typeName (a.roundUp offset) a false closed).stop =
        a.roundUp offset + Field.totalSize closed := by rw [Field.stop, Field.start, Field.size]
    refine Field.checkAll_cons.2 ⟨Field.check_record_eq_ok.2 ⟨rfl, a.dvd_roundUp offset, ?_⟩, ?_⟩
    · rw [hrecord]
      exact fun _ => checkAll_closeRecord hinner nested.solid hclose
    · rwa [hrecord]

theorem checkAll_of_place {rule : RecordRule} {ds : List Descriptor} {base : Nat}
    {fs : List (Field Nat)} (h : place rule ds base = .ok fs) :
    checkAll base fs = .ok (base + Field.totalSize fs) := by
  obtain ⟨inner, hinner, hclose⟩ := place_eq_ok.1 h
  obtain ⟨_, hplaced⟩ := hinner.checkAll
  exact checkAll_closeRecord hplaced hinner.solid hclose

/-! ## What was placed in words -/

namespace Field

theorem dvd_word {a : Alignment} {n : Nat} (h : a.bytes ∣ n) :
    a.bytes ∣ Measure.toNat (UInt64.ofNat n) := by
  have hword : Measure.toNat (UInt64.ofNat n) = n % UInt64.size := UInt64.toNat_ofNat'
  rw [hword]
  exact (Nat.dvd_mod_iff a.bytes_dvd_size).2 h

mutual

theorem check_words : ∀ (f : Field Nat) {expected : Nat}, f.check expected = .ok () →
    f.words.check (UInt64.ofNat expected) = .ok ()
  | padding start size, expected, h => by
    rw [check_padding_eq_ok] at h
    rw [words, check_padding_eq_ok, h]
  | leaf name typeName start size declared align, expected, h => by
    obtain ⟨rfl, hdvd⟩ := check_leaf_eq_ok.1 h
    exact check_leaf_eq_ok.2 ⟨rfl, dvd_word hdvd⟩
  | record name typeName start align widened children, expected, h => by
    obtain ⟨rfl, hdvd, hchildren⟩ := check_record_eq_ok.1 h
    have hstop := stop_words (record name typeName start align widened children)
    rw [words] at hstop ⊢
    refine check_record_eq_ok.2 ⟨rfl, dvd_word hdvd, fun hne => ?_⟩
    rw [hstop]
    exact checkAll_words children (hchildren (by rintro rfl; exact hne rfl))

theorem checkAll_words : ∀ (fs : List (Field Nat)) {expected stop : Nat},
    checkAll expected fs = .ok stop →
      checkAll (UInt64.ofNat expected) (wordsAll fs) = .ok (UInt64.ofNat stop)
  | [], expected, stop, h => by
    rw [checkAll] at h
    rw [Except.ok.inj h]
    rfl
  | f :: fs, expected, stop, h => by
    obtain ⟨hf, hfs⟩ := checkAll_cons.1 h
    rw [wordsAll, checkAll_cons, stop_words]
    exact ⟨check_words f hf, checkAll_words fs hfs⟩

end

end Field

/-- The check accepts what was placed without wrapping around. -/
theorem check_of_place {rule : RecordRule} {ds : List Descriptor} {base : UInt64} {l : Layout}
    (h : place rule ds base = .ok l.fields) (hfits : Fits rule ds base.toNat) :
    l.check = .ok () := by
  obtain ⟨es, hes, hwords⟩ := hfits.words h
  have hall := Field.checkAll_words es (checkAll_of_place hes)
  rw [← hwords, UInt64.ofNat_toNat] at hall
  -- the check starts at the first field instead of the base
  have hbase : ∃ stop, Field.checkAll ((l.fields.head?.map Field.start).getD 0) l.fields =
      .ok stop := by
    rcases hfields : l.fields with _ | ⟨f, fs⟩
    · exact ⟨0, rfl⟩
    · rw [hfields] at hall
      have hstart := Field.start_of_check (Field.checkAll_cons.1 hall).1
      rw [List.head?_cons, Option.map_some, Option.getD_some, hstart, hall]
      exact ⟨_, rfl⟩
  obtain ⟨stop, hstop⟩ := hbase
  unfold Layout.check
  simp only [hstop]
  rfl

end StructPadding
