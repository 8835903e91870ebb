import StructPadding.Proofs.Words

/-!
# Shifting

Fields placed further on by a multiple of every alignment among them come out the same, only further
on (`Placed.shift`). The alignment of a record as a whole need not divide the distance: the padding
at the end of a record is counted from where the record starts. What cannot be placed here cannot be
placed there either, for the same reason. A record that is aligned at least as much as its fields
looks the same wherever it is placed (`place_of_enclosing`).
-/

namespace StructPadding

section

variable {ω : Type} [Measure ω]

namespace Field

mutual

/-- A field moved on by some bytes, with everything in it. -/
def shift (n : ω) : Field ω → Field ω
  | padding start size => padding (start + n) size
  | leaf name typeName start size declared align =>
    leaf name typeName (start + n) size declared align
  | record name typeName start align widened children =>
    record name typeName (start + n) align widened (shiftAll n children)

/-- Neighbouring fields moved on by some bytes. -/
def shiftAll (n : ω) : List (Field ω) → List (Field ω)
  | [] => []
  | f :: fs => f.shift n :: shiftAll n fs

end

theorem shiftAll_eq_map (n : ω) (fs : List (Field ω)) : shiftAll n fs = fs.map (shift n) := by
  induction fs with
  | nil => rw [shiftAll, List.map_nil]
  | cons f fs ih => rw [shiftAll, List.map_cons, ih]

mutual

@[simp]
theorem size_shift (n : ω) : ∀ f : Field ω, (f.shift n).size = f.size
  | padding .. => by simp [shift, size]
  | leaf .. => by simp [shift, size]
  | record _ _ _ _ false children => by simp [shift, size, totalSize_shiftAll n children]
  | record _ _ _ _ true _ => by simp [shift, size]

@[simp]
theorem totalSize_shiftAll (n : ω) : ∀ fs : List (Field ω),
    totalSize (shiftAll n fs) = totalSize fs
  | [] => by simp [shiftAll]
  | f :: fs => by simp [shiftAll, totalSize, size_shift n f, totalSize_shiftAll n fs]

end

end Field

end

namespace Field

mutual

theorem words_shift (n : Nat) : ∀ f : Field Nat, (f.shift n).words = f.words.shift (.ofNat n)
  | padding .. => by rw [shift, words, words, shift, UInt64.ofNat_add]
  | leaf .. => by rw [shift, words, words, shift, UInt64.ofNat_add]
  | record _ _ _ _ _ children => by
    rw [shift, words, words, shift, UInt64.ofNat_add, wordsAll_shift n children]

theorem wordsAll_shift (n : Nat) : ∀ fs : List (Field Nat),
    wordsAll (shiftAll n fs) = shiftAll (.ofNat n) (wordsAll fs)
  | [] => rfl
  | f :: fs => by rw [shiftAll, wordsAll, wordsAll, shiftAll, words_shift n f, wordsAll_shift n fs]

end

@[simp]
theorem start_shift (n : Nat) (f : Field Nat) : (f.shift n).start = f.start + n := by
  cases f <;> simp [shift, start]

theorem stop_shift (n : Nat) (f : Field Nat) : (f.shift n).stop = f.stop + n := by
  rw [stop, stop, start_shift, size_shift]
  omega

theorem widen_shift (n : Nat) (f : Field Nat) : (f.shift n).widen = f.widen.shift n := by
  cases f <;> simp [shift, widen]

end Field

open StructPadding.Field (shiftAll shiftAll_eq_map)

theorem gap_shift (n start size : Nat) : gap (start + n) size = shiftAll n (gap start size) := by
  unfold gap
  split_ifs
  · rw [shiftAll]
  · rw [shiftAll, Field.shift, shiftAll]

theorem endOf_shift (n base : Nat) (fs : List (Field Nat)) :
    endOf (base + n) (shiftAll n fs) = endOf base fs + n := by
  rw [shiftAll_eq_map]
  unfold endOf
  rw [List.getLast?_map]
  cases fs.getLast? with
  | none => rfl
  | some f => exact Field.stop_shift n f

theorem widenLast_shift (n : Nat) : ∀ fs : List (Field Nat),
    widenLast (shiftAll n fs) = shiftAll n (widenLast fs)
  | [] => by simp [shiftAll, widenLast]
  | [f] => by simp [shiftAll, widenLast, Field.widen_shift]
  | f :: g :: fs => by
    have ih := widenLast_shift n (g :: fs)
    rw [shiftAll_eq_map] at ih ⊢
    rw [List.map_cons, widenLast_cons (by simp), ih, widenLast_cons (List.cons_ne_nil g fs),
      shiftAll]

theorem closeRecord_shift {rule : RecordRule} {ds : List Descriptor} {base : Nat}
    {inner fs : List (Field Nat)} (n : Nat) (h : closeRecord rule ds base inner = .ok fs) :
    closeRecord rule ds (base + n) (shiftAll n inner) = .ok (shiftAll n fs) := by
  by_cases hne : inner = []
  · subst hne
    obtain rfl := Except.ok.inj h
    rw [shiftAll_eq_map]
    rfl
  · obtain ⟨a, ha, rfl⟩ := (closeRecord_eq_ok hne).1 h
    refine (closeRecord_eq_ok (by simpa [shiftAll_eq_map] using hne)).2 ⟨a, ha, ?_⟩
    rw [widenLast_shift, endOf_shift, trailing_nat, trailing_nat, Nat.add_sub_add_right, gap_shift,
      shiftAll_eq_map, shiftAll_eq_map, shiftAll_eq_map, List.map_append]

/-- Fields come out the same at any offset that their alignments do not tell apart. -/
theorem Placed.shift {rule : RecordRule} {offset n : Nat} {ds : List Descriptor}
    {fs : List (Field Nat)} (h : Placed rule offset ds fs)
    (hn : Everywhere (fun d => d.align.toInt.toNat ∣ n) ds) :
    Placed rule (offset + n) ds (shiftAll n fs) := by
  induction h using Placed.numbers_induction with
  | nil => exact .nil _
  | @leaf offset d ds a fs hleaf hcheck _ ih =>
    obtain ⟨hd, -⟩ := hn.mem d List.mem_cons_self
    rw [Descriptor.align_of_check hcheck] at hd
    cases hn with
    | cons _ _ tail =>
      have htail := ih tail
      rw [Nat.add_right_comm, ← Alignment.roundUp_add hd] at htail
      have hplaced := Placed.leaf_numbers hleaf hcheck htail
      rw [Alignment.roundUp_add hd, Nat.add_sub_add_right, gap_shift] at hplaced
      simpa [shiftAll_eq_map, Field.shift] using hplaced
  | @record offset d ds a inner closed fs hrecord hcheck _ hclose _ ihNested ihTail =>
    obtain ⟨hd, -⟩ := hn.mem d List.mem_cons_self
    rw [Descriptor.align_of_check hcheck] at hd
    cases hn with
    | cons _ nested tail =>
      have hinner := ihNested nested
      have hclosed := closeRecord_shift n hclose
      have htail := ihTail tail
      rw [Nat.add_right_comm, ← Field.totalSize_shiftAll n] at htail
      rw [← Alignment.roundUp_add hd] at hinner hclosed htail
      have hplaced := Placed.record_numbers hrecord hcheck hinner hclosed htail
      rw [Alignment.roundUp_add hd, Nat.add_sub_add_right, gap_shift] at hplaced
      simpa [shiftAll_eq_map, Field.shift] using hplaced

theorem place_shift {rule : RecordRule} {ds : List Descriptor} {base n : Nat}
    {fs : List (Field Nat)} (h : place rule ds base = .ok fs)
    (hn : Everywhere (fun d => d.align.toInt.toNat ∣ n) ds) :
    place rule ds (base + n) = .ok (shiftAll n fs) := by
  obtain ⟨inner, hinner, hclose⟩ := place_eq_ok.1 h
  exact place_eq_ok.2 ⟨_, hinner.shift hn, closeRecord_shift n hclose⟩

theorem Descriptor.Valid.align_pos {d : Descriptor} (h : d.Valid) : 0 < d.align.toInt := by
  obtain ⟨e, he⟩ := h.align
  have hpos : 0 < Nat.pow 2 e := Nat.two_pow_pos e
  omega

/-- Fields are laid out alike at any two offsets that lie a multiple of every alignment among them
apart, if neither layout wraps around: each start is as much further on, all else is the same, and
so is the error if they cannot be placed. The alignment of the record as a whole is not among them.
-/
theorem place_add {rule : RecordRule} {ds : List Descriptor} {base n : UInt64}
    (hn : Everywhere (fun d => d.align.toInt ∣ n.toNat) ds)
    (hfits : Fits rule ds (base.toNat + n.toNat)) :
    place rule ds (base + n) = (place rule ds base).map (shiftAll n) := by
  rcases h : place rule ds base with e | fs
  · have hfailure : failure? (place rule ds (base + n)) = failure? (place rule ds base) := by
      rw [failure?_place, failure?_place]
    rw [h] at hfailure
    exact failure?_eq_some_iff.1 hfailure
  · have hvalid := (describes_of_place h).valid
    have hdvd : Everywhere (fun d => d.align.toInt.toNat ∣ n.toNat) ds := by
      refine (hvalid.and hn).imp fun d hd => ?_
      have hpos := hd.1.align_pos
      rw [← Int.natCast_dvd_natCast, Int.toNat_of_nonneg (Int.le_of_lt hpos)]
      exact hd.2
    obtain ⟨es, hes⟩ := exists_numbers h base.toNat
    -- the layout in numbers has room at the first offset as well as at the second
    have hshift := place_shift hes hdvd
    have hroom := hfits.lt hshift
    rw [Field.totalSize_shiftAll] at hroom
    have hfirst := place_words hes (by omega)
    have hsecond := place_words hshift (by rwa [Field.totalSize_shiftAll])
    rw [UInt64.ofNat_toNat, h] at hfirst
    rw [UInt64.ofNat_add, UInt64.ofNat_toNat, UInt64.ofNat_toNat, Field.wordsAll_shift,
      UInt64.ofNat_toNat, ← Except.ok.inj hfirst] at hsecond
    rw [hsecond]
    rfl

/-- The distance is no multiple of the alignment that records have here. -/
theorem place_add_worn : Everywhere (fun d => d.align.toInt ∣ (24 : UInt64).toNat) worn ∧
    Fits (.fixed 16) worn (6 + 24) ∧ ¬(16 ∣ 24) ∧
    place (.fixed 16) worn (6 + 24) = .ok (shiftAll 24 wornFields) ∧
    ((shiftAll 24 wornFields).map fun f => (f.name, f.start, f.stop)) = [("in", 30, 46),
      ("", 46, 48), ("box", 48, 72), ("end", 72, 73), ("", 73, 78)] := by
  have hworn : Everywhere (fun d => d.align.toInt ∣ (24 : UInt64).toNat) worn :=
    .cons (by decide) (.cons (by decide) .nil (.cons (by decide) .nil .nil))
      (.cons (by decide) .nil (.cons (by decide) .nil .nil))
  have hfits : Fits (.fixed 16) worn ((6 : UInt64).toNat + (24 : UInt64).toNat) := by
    decide +kernel
  have hplace := place_add hworn hfits
  rw [place_worn] at hplace
  exact ⟨hworn, hfits, by decide, hplace, by decide +kernel⟩

/-! ## Records wherever they are -/

theorem align_dvd {d e : Descriptor} (hd : d.Valid) (he : e.Valid)
    (hle : e.align.toInt.toNat ≤ d.align.toInt.toNat) :
    e.align.toInt.toNat ∣ d.align.toInt.toNat := by
  obtain ⟨a, ha⟩ := Descriptor.valid_iff.1 hd
  obtain ⟨b, hb⟩ := Descriptor.valid_iff.1 he
  rw [Descriptor.align_of_check ha, Descriptor.align_of_check hb] at hle ⊢
  exact Alignment.bytes_dvd hle

/-- A valid descriptor that, if it is a record, is aligned at least as much as each of its fields.
-/
structure Descriptor.Enclosing (d : Descriptor) : Prop where
  valid : d.Valid
  inner : ∀ e ∈ d.children, e.align.toInt ≤ d.align.toInt

/-- A valid descriptor that, if it is a record, has the largest alignment among its fields. -/
structure Descriptor.Spanning (d : Descriptor) : Prop where
  valid : d.Valid
  record : d.children ≠ [] → d.align.toInt.toNat = RecordRule.widest d.children

theorem Descriptor.Spanning.enclosing {d : Descriptor} (h : d.Spanning) : d.Enclosing := by
  refine ⟨h.valid, fun e he => ?_⟩
  have hle := RecordRule.align_le_widest he
  have hpos := h.valid.align_pos
  rw [← h.record (List.ne_nil_of_mem he)] at hle
  omega

/-- The alignment of a record is a multiple of those inside it. -/
theorem align_dvd_of_mem {d e : Descriptor} (hd : d.Enclosing)
    (hnested : Everywhere Descriptor.Enclosing d.children) (he : e ∈ d.children) :
    e.align.toInt.toNat ∣ d.align.toInt.toNat := by
  refine align_dvd hd.valid (hnested.mem e he).1.valid ?_
  have hle := hd.inner e he
  omega

theorem everywhere_align_dvd {n : Nat} {ds : List Descriptor}
    (hds : Everywhere Descriptor.Enclosing ds) :
    (∀ d ∈ ds, d.align.toInt.toNat ∣ n) → Everywhere (fun d => d.align.toInt.toNat ∣ n) ds := by
  induction hds with
  | nil => exact fun _ => .nil
  | @cons d ds head nested _ ihNested ihTail =>
    intro hn
    have hd := hn d List.mem_cons_self
    refine .cons hd (ihNested fun e he => ?_) (ihTail fun e he => hn e (List.mem_cons_of_mem _ he))
    exact Nat.dvd_trans (align_dvd_of_mem head nested he) hd

theorem place_of_enclosing {rule : RecordRule} {d : Descriptor} {base : Nat}
    {fs : List (Field Nat)} (hd : d.Enclosing)
    (hnested : Everywhere Descriptor.Enclosing d.children)
    (hbase : d.align.toInt.toNat ∣ base) (hfs : place rule d.children 0 = .ok fs) :
    place rule d.children base = .ok (shiftAll base fs) := by
  have hdvd := everywhere_align_dvd hnested fun e he =>
    Nat.dvd_trans (align_dvd_of_mem hd hnested he) hbase
  have hshift := place_shift hfs hdvd
  rwa [Nat.zero_add] at hshift

theorem place_of_spanning {rule : RecordRule} {d : Descriptor} {base : Nat}
    {fs : List (Field Nat)} (hd : d.Spanning) (hnested : Everywhere Descriptor.Spanning d.children)
    (hbase : d.align.toInt.toNat ∣ base) (hfs : place rule d.children 0 = .ok fs) :
    place rule d.children base = .ok (shiftAll base fs) :=
  place_of_enclosing hd.enclosing (hnested.imp fun _ he => he.enclosing) hbase hfs

/-- What a record holds is what it is laid out as by itself, moved on to where the record starts. -/
theorem Stems.children_words {rule : RecordRule} {P : Descriptor → Prop} {f : Field Nat}
    {d : Descriptor} {fs : List Field} (h : Stems rule P f d) (hd : d.Spanning)
    (hnested : Everywhere Descriptor.Spanning d.children)
    (hroom : f.start + Field.totalSize f.children < UInt64.size)
    (hfs : place rule d.children (0 : UInt64) = .ok fs) :
    Field.wordsAll f.children = shiftAll (.ofNat f.start) fs := by
  obtain ⟨es, hes⟩ := exists_numbers hfs 0
  have hchildren : f.children = shiftAll f.start es :=
    Except.ok.inj (h.placed.symm.trans (place_of_spanning hd hnested h.aligned hes))
  rw [hchildren, Field.totalSize_shiftAll] at hroom
  have hwords := @place_words rule d.children 0 es hes (by omega)
  rw [hchildren, Field.wordsAll_shift, ← Except.ok.inj (hwords.symm.trans hfs)]

end StructPadding
