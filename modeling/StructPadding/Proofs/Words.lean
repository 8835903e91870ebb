import StructPadding.Layout
import StructPadding.Proofs.Faults
import StructPadding.Proofs.Nested
import StructPadding.Proofs.Siblings

/-!
# Words

A layout of words is the layout of numbers, each number taken as a word, as long as the latter ends
below 2^64 (`place_words`). Sums of words are the words of the sums whatever they are, so room is
needed only where offsets are compared or rounded up.
-/

namespace StructPadding

/-! ## One word -/

theorem toNat_word {n : Nat} (h : n < UInt64.size) : (UInt64.ofNat n).toNat = n :=
  UInt64.toNat_ofNat_of_lt' h

theorem measure_word {n : Nat} (h : n < UInt64.size) : Measure.toNat (UInt64.ofNat n) = n :=
  toNat_word h

theorem word_eq_zero {n : Nat} (h : n < UInt64.size) : UInt64.ofNat n = 0 ↔ n = 0 := by
  rw [← UInt64.toNat_inj, toNat_word h]
  rfl

namespace Measure

/-- Rounding up in words is rounding up, if the multiple is a word. -/
theorem roundUp_word {a : Alignment} {n : Nat} (h : a.roundUp n < UInt64.size) :
    roundUp a (UInt64.ofNat n) = UInt64.ofNat (a.roundUp n) := by
  have hle := a.le_roundUp n
  have hpos := a.bytes_pos
  -- the next multiple after this one is 2^64 at most
  have hrest := Nat.le_of_dvd (by omega) (Nat.dvd_sub a.bytes_dvd_size (a.dvd_roundUp n))
  have hn : (UInt64.ofNat n).toNat = n := toNat_word (by omega)
  apply UInt64.toNat_inj.1
  rw [toNat_word h]
  have hround := Alignment.toNat_roundUpWord (a := a) (v := UInt64.ofNat n) (by rw [hn]; omega)
  rwa [hn] at hround

theorem lt_word {m n : Nat} (hm : m < UInt64.size) (hn : n < UInt64.size) :
    UInt64.ofNat m < UInt64.ofNat n ↔ m < n := by
  rw [UInt64.lt_iff_toNat_lt, toNat_word hm, toNat_word hn]

theorem advance_word {a : Alignment} {n : Nat} (h : a.roundUp n < UInt64.size) :
    advance a (UInt64.ofNat n) = UInt64.ofNat (a.roundUp n) := by
  have hle := a.le_roundUp n
  simp only [advance, roundUp_word h]
  split_ifs with hlt
  · rfl
  · have : a.roundUp n = n := by
      rw [lt_word (by omega) h] at hlt
      omega
    rw [this]

theorem distance_word {m n : Nat} (hm : m < UInt64.size) (hn : n < UInt64.size) :
    distance (UInt64.ofNat m) (UInt64.ofNat n) = UInt64.ofNat (n - m) := by
  unfold distance
  simp only [lt_word hm hn]
  split_ifs with hlt
  · rw [UInt64.ofNat_sub hlt.le]
  · rw [Nat.sub_eq_zero_of_le (by omega)]
    rfl

end Measure

open StructPadding.Measure (advance distance)

/-! ## Fields -/

namespace Field

mutual

/-- A field with its offsets and sizes as words. -/
def words : Field Nat → Field
  | padding start size => padding (.ofNat start) (.ofNat size)
  | leaf name typeName start size declared align =>
    leaf name typeName (.ofNat start) (.ofNat size) (.ofNat declared) align
  | record name typeName start align widened children =>
    record name typeName (.ofNat start) align widened (wordsAll children)

def wordsAll : List (Field Nat) → List Field
  | [] => []
  | f :: fs => f.words :: wordsAll fs

end

theorem wordsAll_eq_map (fs : List (Field Nat)) : wordsAll fs = fs.map words := by
  induction fs with
  | nil => rfl
  | cons f fs ih => rw [wordsAll, ih, List.map_cons]

@[simp]
theorem wordsAll_append (fs gs : List (Field Nat)) :
    wordsAll (fs ++ gs) = wordsAll fs ++ wordsAll gs := by
  simp [wordsAll_eq_map]

variable (f : Field Nat)

@[simp]
theorem name_words : f.words.name = f.name := by
  cases f <;> simp [words, name]

@[simp]
theorem typeName_words : f.words.typeName = f.typeName := by
  cases f <;> simp [words, typeName]

@[simp]
theorem start_words : f.words.start = .ofNat f.start := by
  cases f <;> simp [words, start]

@[simp]
theorem alignBytes_words : f.words.alignBytes = f.alignBytes := by
  cases f <;> simp [words, alignBytes, align?]

@[simp]
theorem isPadding_words : f.words.isPadding = f.isPadding := by
  cases f <;> simp [words, isPadding]

@[simp]
theorem isRecord_words : f.words.isRecord = f.isRecord := by
  cases f <;> simp [words, isRecord]

@[simp]
theorem children_words : f.words.children = wordsAll f.children := by
  cases f <;> simp [words, children, wordsAll]

mutual

@[simp]
theorem size_words : ∀ f : Field Nat, f.words.size = .ofNat f.size
  | padding .. => by simp [words, size]
  | leaf .. => by simp [words, size]
  | record _ _ _ _ false children => by simp [words, size, totalSize_words children]
  | record _ _ _ _ true _ => by simp [words, size]

@[simp]
theorem totalSize_words : ∀ fs : List (Field Nat), totalSize (wordsAll fs) = .ofNat (totalSize fs)
  | [] => by simp [wordsAll, totalSize]
  | f :: fs => by
    rw [wordsAll, totalSize, totalSize, size_words f, totalSize_words fs, UInt64.ofNat_add]

end

@[simp]
theorem declared_words : f.words.declared = .ofNat f.declared := by
  cases f <;> simp [words, declared]

@[simp]
theorem stop_words : f.words.stop = .ofNat f.stop := by
  rw [stop, stop, start_words, size_words, UInt64.ofNat_add]

mutual

@[simp]
theorem paddingBytes_words : ∀ f : Field Nat, f.words.paddingBytes = .ofNat f.paddingBytes
  | padding .. => by simp [words, paddingBytes]
  | leaf .. => by simp [words, paddingBytes]
  | record _ _ _ _ _ children => by simp [words, paddingBytes, totalPadding_words children]

@[simp]
theorem totalPadding_words : ∀ fs : List (Field Nat),
    totalPadding (wordsAll fs) = .ofNat (totalPadding fs)
  | [] => by simp [wordsAll, totalPadding]
  | f :: fs => by
    rw [wordsAll, totalPadding, totalPadding, paddingBytes_words f, totalPadding_words fs,
      UInt64.ofNat_add]

end

@[simp]
theorem unpadded_words (fs : List (Field Nat)) :
    unpadded (wordsAll fs) = wordsAll (unpadded fs) := by
  simp [unpadded, wordsAll_eq_map, List.filter_map, Function.comp_def]

theorem map_name_words (fs : List (Field Nat)) :
    (wordsAll fs).map name = fs.map name := by
  simp [wordsAll_eq_map, Function.comp_def]

/-- The fields at any depth of words are the words of those in numbers. -/
theorem within_words {f : Field} {fs : List (Field Nat)} (h : f.Within (wordsAll fs)) :
    ∃ e : Field Nat, e.Within fs ∧ f = e.words := by
  generalize hgs : wordsAll fs = gs at h
  induction h generalizing fs with
  | here h =>
    rw [← hgs, wordsAll_eq_map, List.mem_map] at h
    obtain ⟨e, he, rfl⟩ := h
    exact ⟨e, .here he, rfl⟩
  | inside hg _ ih =>
    rw [← hgs, wordsAll_eq_map, List.mem_map] at hg
    obtain ⟨e, he, rfl⟩ := hg
    obtain ⟨e', he', hf⟩ := ih (children_words e).symm
    exact ⟨e', .inside he he', hf⟩

end Field

open StructPadding.Field (wordsAll)

/-! ## Placing -/

theorem gap_words {start size : Nat} (h : size < UInt64.size) :
    gap (UInt64.ofNat start) (.ofNat size) = wordsAll (gap start size) := by
  unfold gap
  simp only [word_eq_zero h]
  split_ifs <;> rfl

@[simp]
theorem endOf_words (base : Nat) (fs : List (Field Nat)) :
    endOf (UInt64.ofNat base) (wordsAll fs) = .ofNat (endOf base fs) := by
  rcases List.eq_nil_or_concat fs with rfl | ⟨fs, f, rfl⟩
  · rfl
  · rw [List.concat_eq_append, Field.wordsAll_append, endOf_append_singleton, wordsAll, wordsAll,
      endOf_append_singleton, Field.stop_words]

theorem widen_words {f : Field Nat} (hsize : f.size < UInt64.size)
    (hdeclared : f.declared < UInt64.size) : f.words.widen = f.widen.words := by
  cases f with
  | padding => rfl
  | leaf name typeName start size declared align =>
    have hzero : UInt64.ofNat size = 0 ↔ size = 0 := word_eq_zero (by rwa [Field.size] at hsize)
    simp only [Field.words, Field.widen, hzero]
    split_ifs <;> rfl
  | record name typeName start align widened children =>
    have hzero : UInt64.ofNat (Field.totalSize children) = 0 ↔ Field.totalSize children = 0 :=
      word_eq_zero hdeclared
    simp only [Field.words, Field.widen, Field.totalSize_words, hzero]

theorem widenLast_words {fs : List (Field Nat)}
    (h : ∀ f ∈ fs, f.size < UInt64.size ∧ f.declared < UInt64.size) :
    widenLast (wordsAll fs) = wordsAll (widenLast fs) := by
  rcases List.eq_nil_or_concat fs with rfl | ⟨fs, f, rfl⟩
  · rfl
  · rw [List.concat_eq_append] at h ⊢
    obtain ⟨hsize, hdeclared⟩ := h f (by simp)
    rw [Field.wordsAll_append, widenLast_append_cons, Field.wordsAll_append, wordsAll, wordsAll,
      widenLast_append_cons, widenLast, widenLast, wordsAll, wordsAll, widen_words hsize hdeclared]

theorem trailing_words {a : Alignment} {base stop : Nat} (hle : base ≤ stop)
    (hroom : base + a.roundUp (stop - base) < UInt64.size) :
    trailing a (UInt64.ofNat base) (.ofNat stop) = wordsAll (trailing a base stop) := by
  have hround := a.le_roundUp (stop - base)
  rw [trailing_nat, ← gap_words (by omega), trailing, Measure.distance_word (by omega) (by omega),
    Measure.roundUp_word (by omega), Measure.distance_word (by omega) (by omega)]

theorem size_le_totalSize {f : Field Nat} {fs : List (Field Nat)} (h : f ∈ fs) :
    f.size ≤ Field.totalSize fs := by
  induction fs with
  | nil => cases h
  | cons g fs ih =>
    rw [Field.totalSize]
    rcases List.mem_cons.1 h with rfl | h
    · exact Nat.le_add_right _ _
    · exact (ih h).trans (Nat.le_add_left _ _)

namespace Placed

variable {rule : RecordRule} {offset : Nat} {ds : List Descriptor} {fs closed : List (Field Nat)}

/-- Before its record is closed, a field is as large as declared. -/
theorem declared_eq (h : Placed rule offset ds fs) : ∀ f ∈ fs, f.declared = f.size := by
  have hgap : ∀ {f : Field Nat} {start size : Nat}, f ∈ gap start size → f.declared = f.size := by
    intro f start size hf
    unfold gap at hf
    split_ifs at hf
    · cases hf
    · rw [List.mem_singleton.1 hf, Field.declared, Field.size]
  induction h using numbers_induction with
  | nil => simp
  | leaf _ _ _ ih =>
    rw [List.forall_mem_append, List.forall_mem_cons]
    exact ⟨fun f hf => hgap hf, by rw [Field.declared, Field.size], ih⟩
  | record _ _ _ _ _ _ ih =>
    rw [List.forall_mem_append, List.forall_mem_cons]
    exact ⟨fun f hf => hgap hf, by rw [Field.declared, Field.size], ih⟩

theorem closeRecord_words (h : Placed rule offset ds fs)
    (hclose : closeRecord rule ds offset fs = .ok closed)
    (hroom : offset + Field.totalSize closed < UInt64.size) :
    closeRecord rule ds (UInt64.ofNat offset) (wordsAll fs) = .ok (wordsAll closed) := by
  by_cases hne : ds = []
  · obtain rfl := h.eq_nil_iff.2 hne
    obtain rfl := Except.ok.inj hclose
    rfl
  · have hfs : fs ≠ [] := fun hnil => hne (h.eq_nil_iff.1 hnil)
    obtain ⟨a, ha, hsize⟩ := h.totalSize_closed hne hclose
    have hle := a.le_roundUp (Field.totalSize fs + Descriptor.widening ds)
    have hend : endOf offset (widenLast fs) =
        offset + (Field.totalSize fs + Descriptor.widening ds) := by
      rw [h.endOf_widenLast, h.totalSize_widenLast]
    obtain ⟨a', ha', rfl⟩ := (closeRecord_eq_ok hfs).1 hclose
    obtain rfl := Except.ok.inj (ha.symm.trans ha')
    have hbounds : ∀ f ∈ fs, f.size < UInt64.size ∧ f.declared < UInt64.size := by
      intro f hf
      have := size_le_totalSize hf
      rw [h.declared_eq f hf]
      omega
    refine (closeRecord_eq_ok (by simpa [Field.wordsAll_eq_map] using hfs)).2 ⟨a, ha, ?_⟩
    rw [widenLast_words hbounds, endOf_words, Field.wordsAll_append, hend,
      trailing_words (Nat.le_add_right _ _)]
    rw [Nat.add_sub_cancel_left, ← hsize]
    exact hroom

theorem words (h : Placed rule offset ds fs)
    (hroom : offset + Field.totalSize fs < UInt64.size) :
    Placed rule (UInt64.ofNat offset) ds (wordsAll fs) := by
  induction h using numbers_induction with
  | nil => exact .nil _
  | @leaf offset d ds a fs hleaf hcheck _ ih =>
    have hle := a.le_roundUp offset
    simp only [Field.totalSize_append, Field.totalSize_gap, Field.totalSize, Field.size] at hroom
    have hadvance : advance a (UInt64.ofNat offset) = .ofNat (a.roundUp offset) :=
      Measure.advance_word (by omega)
    have htail := ih (by omega)
    rw [UInt64.ofNat_add, ← hadvance] at htail
    have hplaced := Placed.leaf hleaf hcheck htail
    rw [hadvance, Measure.distance_word (by omega) (by omega), gap_words (by omega)] at hplaced
    rwa [Field.wordsAll_append, wordsAll, Field.words]
  | @record offset d ds a inner closed fs hrecord hcheck nested hclose _ ihNested ihTail =>
    have hle := a.le_roundUp offset
    have hclosed := nested.totalSize_le_closed hclose
    simp only [Field.totalSize_append, Field.totalSize_gap, Field.totalSize, Field.size] at hroom
    have hadvance : advance a (UInt64.ofNat offset) = .ofNat (a.roundUp offset) :=
      Measure.advance_word (by omega)
    have hinner := ihNested (by omega)
    have hcloseWords := nested.closeRecord_words hclose (by omega)
    have htail := ihTail (by omega)
    rw [UInt64.ofNat_add, ← Field.totalSize_words, ← hadvance] at htail
    rw [← hadvance] at hinner hcloseWords
    have hplaced := Placed.record hrecord hcheck hinner hcloseWords htail
    rw [hadvance, Measure.distance_word (by omega) (by omega), gap_words (by omega)] at hplaced
    rwa [Field.wordsAll_append, wordsAll, Field.words]

end Placed

/-- The words of a layout in numbers are the layout in words, if it ends below 2^64. -/
theorem place_words {rule : RecordRule} {ds : List Descriptor} {base : Nat}
    {fs : List (Field Nat)} (h : place rule ds base = .ok fs)
    (hroom : base + Field.totalSize fs < UInt64.size) :
    place rule ds (UInt64.ofNat base) = .ok (wordsAll fs) := by
  obtain ⟨inner, hinner, hclose⟩ := place_eq_ok.1 h
  have hle := hinner.totalSize_le_closed hclose
  exact place_eq_ok.2 ⟨_, hinner.words (by omega), hinner.closeRecord_words hclose hroom⟩

/-! ## Room -/

/-- The layout in numbers ends below 2^64. -/
def Fits (rule : RecordRule) (ds : List Descriptor) (base : Nat) : Prop :=
  ∀ fs ∈ (place rule ds base).toOption, base + Field.totalSize fs < UInt64.size

instance (rule : RecordRule) (ds : List Descriptor) (base : Nat) : Decidable (Fits rule ds base) :=
  inferInstanceAs (Decidable (∀ fs ∈ (place rule ds base).toOption, _))

namespace Fits

variable {rule : RecordRule} {ds : List Descriptor}

theorem lt {base : Nat} (hfits : Fits rule ds base) {fs : List (Field Nat)}
    (h : place rule ds base = .ok fs) : base + Field.totalSize fs < UInt64.size :=
  hfits fs (by rw [h]; rfl)

theorem of_place {base : Nat} {fs : List (Field Nat)} (h : place rule ds base = .ok fs)
    (hlt : base + Field.totalSize fs < UInt64.size) : Fits rule ds base := by
  intro fs' hfs'
  rw [h] at hfs'
  obtain rfl := Option.some.inj hfs'
  exact hlt

/-- A layout with room for it is the one in numbers. -/
theorem words {base : UInt64} (hfits : Fits rule ds base.toNat) {fs : List Field}
    (h : place rule ds base = .ok fs) :
    ∃ es, place rule ds base.toNat = .ok es ∧ fs = wordsAll es := by
  obtain ⟨es, hes⟩ := exists_numbers h base.toNat
  have hwords := place_words hes (hfits.lt hes)
  rw [UInt64.ofNat_toNat, h] at hwords
  exact ⟨es, hes, Except.ok.inj hwords⟩

theorem of_plainAll {base : Nat} (hfits : Fits rule (Descriptor.plainAll ds) base) :
    Fits rule ds base := by
  intro fs hfs
  rcases h : place rule ds base with e | es <;> rw [h] at hfs
  · cases hfs
  · obtain rfl := Option.some.inj hfs
    exact hfits.lt (place_plainAll h)

end Fits

/-- Nothing in a layout wraps around: laid out in numbers, its fields end below 2^64. -/
def Layout.Fits (rule : RecordRule) (l : Layout) : Prop :=
  ∀ ds ∈ (Field.toDescriptors l.fields).toOption, StructPadding.Fits rule ds 0

instance (rule : RecordRule) (l : Layout) : Decidable (l.Fits rule) :=
  inferInstanceAs (Decidable (∀ ds ∈ (Field.toDescriptors l.fields).toOption, _))

theorem Layout.Fits.of_place {rule : RecordRule} {l : Layout} {ds : List Descriptor}
    (hfits : l.Fits rule) (h : place rule ds (0 : UInt64) = .ok l.fields) :
    StructPadding.Fits rule ds 0 := by
  have hdescriptors := (describes_of_place h).toDescriptors
  exact .of_plainAll (hfits _ (by rw [hdescriptors]; rfl))

end StructPadding
