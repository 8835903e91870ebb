import StructPadding.Proofs.Placed

/-!
# Layouts in numbers

Counted in natural numbers, a field starts at the next multiple of its alignment and nothing wraps
around, so that placed fields follow one another without holes (`Placed.endOf_widenLast`), a record
takes up its fields rounded up (`Placed.totalSize_closed`), and no record is empty. The relation
`Placed` is told again in these terms (`Placed.numbers_induction`).
-/

namespace StructPadding

namespace Measure

@[simp]
theorem ofNat_nat (n : Nat) : (ofNat n : Nat) = n :=
  rfl

@[simp]
theorem toNat_nat (n : Nat) : toNat n = n :=
  rfl

@[simp]
theorem roundUp_nat (a : Alignment) (n : Nat) : roundUp a n = a.roundUp n :=
  rfl

@[simp]
theorem distance_nat (x y : Nat) : distance x y = y - x := by
  unfold distance
  split_ifs <;> omega

@[simp]
theorem advance_nat (a : Alignment) (n : Nat) : advance a n = a.roundUp n := by
  have := a.le_roundUp n
  simp only [advance, roundUp_nat]
  split_ifs <;> omega

end Measure

open StructPadding.Measure (advance distance)

/-! ## Neighbours without holes -/

section

variable {ω : Type} [Measure ω]

namespace Field

@[simp]
theorem totalSize_append : ∀ fs gs : List (Field ω),
    totalSize (fs ++ gs) = totalSize fs + totalSize gs
  | [], gs => by simp [totalSize, Measure.zero_add]
  | f :: fs, gs => by simp [totalSize, totalSize_append fs gs, Measure.add_assoc]

@[simp]
theorem totalSize_gap (start size : ω) : totalSize (gap start size) = size := by
  unfold gap
  split_ifs with h
  · rw [totalSize, h]
  · rw [totalSize, totalSize, Field.size, Measure.add_zero]

end Field

theorem Measure.add_distance_advance (a : Alignment) (offset : ω) :
    offset + distance offset (advance a offset) = advance a offset := by
  unfold distance
  split_ifs with hlt
  · exact Measure.add_sub_of_lt _ _ hlt
  · rw [Measure.add_zero]
    simp only [advance] at hlt ⊢
    split_ifs at hlt ⊢ with hround
    · exact absurd hround hlt
    · rfl

/-- A field behind the padding it needs, with others behind it. -/
theorem endOf_gap_append {a : Alignment} {offset : ω} {f : Field ω} {fs : List (Field ω)}
    (hstart : f.start = advance a offset)
    (htail : endOf f.stop fs = f.stop + Field.totalSize fs) :
    endOf offset (gap offset (distance offset (advance a offset)) ++ f :: fs) =
      offset + Field.totalSize (gap offset (distance offset (advance a offset)) ++ f :: fs) := by
  rw [endOf_append_cons, htail, Field.stop, hstart, Field.totalSize_append, Field.totalSize_gap,
    Field.totalSize, ← Measure.add_assoc, ← Measure.add_assoc, Measure.add_distance_advance]

/-- Widening the last field does not open a hole either. -/
theorem endOf_gap_widenLast {a : Alignment} {offset : ω} {f : Field ω} {fs : List (Field ω)}
    (hstart : f.start = advance a offset)
    (htail : endOf f.stop (widenLast fs) = f.stop + Field.totalSize (widenLast fs)) :
    endOf offset (widenLast (gap offset (distance offset (advance a offset)) ++ f :: fs)) =
      offset + Field.totalSize
        (widenLast (gap offset (distance offset (advance a offset)) ++ f :: fs)) := by
  rw [widenLast_append_cons]
  by_cases hne : fs = []
  · subst hne
    have hwiden : f.widen.start = f.start := by cases f <;> rfl
    exact endOf_gap_append (hwiden.trans hstart) (Measure.add_zero _).symm
  · rw [widenLast_cons hne]
    exact endOf_gap_append hstart htail

namespace Placed

variable {rule : RecordRule} {offset : ω} {ds : List Descriptor} {fs : List (Field ω)}

/-- Placed fields follow one another without holes. -/
theorem endOf_widenLast (h : Placed rule offset ds fs) :
    endOf offset (widenLast fs) = offset + Field.totalSize (widenLast fs) := by
  induction h with
  | nil => exact (Measure.add_zero _).symm
  | leaf _ _ _ ih => exact endOf_gap_widenLast rfl ih
  | record _ _ _ _ _ _ ih => exact endOf_gap_widenLast rfl ih

end Placed

end

/-! ## The relation in numbers -/

theorem trailing_nat (a : Alignment) (base stop : Nat) :
    trailing a base stop = gap stop (a.roundUp (stop - base) - (stop - base)) := by
  simp [trailing]

namespace Placed

variable {rule : RecordRule} {offset : Nat} {d : Descriptor} {ds : List Descriptor} {a : Alignment}
  {inner closed fs : List (Field Nat)}

theorem leaf_numbers (hleaf : d.children = []) (hcheck : d.check = .ok a)
    (tail : Placed rule (a.roundUp offset + d.bytes) ds fs) :
    Placed rule offset (d :: ds) (gap offset (a.roundUp offset - offset) ++
      .leaf d.name d.typeName (a.roundUp offset) d.bytes d.bytes a :: fs) := by
  have h : Placed rule offset (d :: ds) _ := .leaf hleaf hcheck (by simpa using tail)
  simpa using h

theorem record_numbers (hrecord : d.children ≠ []) (hcheck : d.check = .ok a)
    (nested : Placed rule (a.roundUp offset) d.children inner)
    (hclose : closeRecord rule d.children (a.roundUp offset) inner = .ok closed)
    (tail : Placed rule (a.roundUp offset + Field.totalSize closed) ds fs) :
    Placed rule offset (d :: ds) (gap offset (a.roundUp offset - offset) ++
      .record d.name d.typeName (a.roundUp offset) a false closed :: fs) := by
  have h : Placed rule offset (d :: ds) _ := .record hrecord hcheck (by simpa using nested)
    (by simpa using hclose) (by simpa using tail)
  simpa using h

/-- Placed fields in numbers, one by one. -/
@[elab_as_elim]
theorem numbers_induction
    {motive : ∀ (offset : Nat) (ds : List Descriptor) (fs : List (Field Nat)),
      Placed rule offset ds fs → Prop}
    (nil : ∀ offset, motive offset [] [] (.nil offset))
    (leaf : ∀ {offset d ds a fs} (hleaf : d.children = []) (hcheck : d.check = .ok a)
      (tail : Placed rule (a.roundUp offset + d.bytes) ds fs), motive _ ds fs tail →
      motive offset (d :: ds) _ (leaf_numbers hleaf hcheck tail))
    (record : ∀ {offset d ds a inner closed fs} (hrecord : d.children ≠ [])
      (hcheck : d.check = .ok a) (nested : Placed rule (a.roundUp offset) d.children inner)
      (hclose : closeRecord rule d.children (a.roundUp offset) inner = .ok closed)
      (tail : Placed rule (a.roundUp offset + Field.totalSize closed) ds fs),
      motive _ d.children inner nested → motive _ ds fs tail →
      motive offset (d :: ds) _ (record_numbers hrecord hcheck nested hclose tail))
    {offset : Nat} {ds : List Descriptor} {fs : List (Field Nat)} (h : Placed rule offset ds fs) :
    motive offset ds fs h := by
  induction h with
  | nil offset => exact nil offset
  | @leaf offset d ds a fs hleaf hcheck tail ih =>
    simp only [Measure.advance_nat, Measure.distance_nat, Measure.ofNat_nat] at tail ih ⊢
    exact leaf hleaf hcheck tail ih
  | @record offset d ds a inner closed fs hrecord hcheck nested hclose tail ihNested ihTail =>
    simp only [Measure.advance_nat, Measure.distance_nat] at nested hclose tail ihNested ihTail ⊢
    exact record hrecord hcheck nested hclose tail ihNested ihTail

end Placed

/-! ## The size of a record -/

theorem widen_record {name typeName : String} {start : Nat} {a : Alignment} {widened : Bool}
    {children : List (Field Nat)} (hpos : 0 < Field.totalSize children) :
    (Field.record name typeName start a widened children).widen =
      .record name typeName start a widened children := by
  have hne : Field.totalSize children ≠ 0 := by omega
  simp [Field.widen, hne]

namespace Placed

variable {rule : RecordRule} {offset : Nat} {ds : List Descriptor} {fs closed : List (Field Nat)}

/-- The size of a closed record, given what widening its last field makes of it. -/
theorem totalSize_closed_of_widenLast {n : Nat} (h : Placed rule offset ds fs) (hne : ds ≠ [])
    (hwiden : Field.totalSize (widenLast fs) = n)
    (hclose : closeRecord rule ds offset fs = .ok closed) :
    ∃ a, rule.alignment ds = .ok a ∧ Field.totalSize closed = a.roundUp n := by
  obtain ⟨a, ha, rfl⟩ := (closeRecord_eq_ok fun hfs => hne (h.eq_nil_iff.1 hfs)).1 hclose
  have hle := a.le_roundUp n
  refine ⟨a, ha, ?_⟩
  rw [h.endOf_widenLast, hwiden, trailing_nat, Nat.add_sub_cancel_left, Field.totalSize_append,
    Field.totalSize_gap, hwiden]
  omega

/-- Widening adds the byte of a leaf of no size at the end, so that no record is empty. -/
theorem widenLast_and_pos (h : Placed rule offset ds fs) :
    Field.totalSize (widenLast fs) = Field.totalSize fs + Descriptor.widening ds ∧
      (ds ≠ [] → 0 < Field.totalSize fs + Descriptor.widening ds) := by
  induction h using numbers_induction with
  | nil => exact ⟨rfl, fun hne => absurd rfl hne⟩
  | @leaf offset d ds a fs hleaf hcheck tail ih =>
    rw [widenLast_append_cons]
    rcases ds with _ | ⟨e, ds⟩
    · obtain rfl := tail.eq_nil_iff.2 rfl
      simp only [widenLast, Field.widen, Field.totalSize_append, Field.totalSize, Field.size,
        Descriptor.widening, Descriptor.Void, hleaf, List.isEmpty_nil, true_and]
      split_ifs <;> omega
    · have hne : fs ≠ [] := fun h => by simpa using tail.eq_nil_iff.1 h
      have hpos := ih.2 (by simp)
      rw [widenLast_cons hne]
      simp only [Field.totalSize_append, Field.totalSize, ih.1, Descriptor.widening]
      omega
  | @record offset d ds a inner closed fs hrecord hcheck nested hclose tail ihNested ih =>
    obtain ⟨b, -, hsize⟩ := nested.totalSize_closed_of_widenLast hrecord ihNested.1 hclose
    have hclosed := Alignment.roundUp_pos (a := b) (ihNested.2 hrecord)
    rw [← hsize] at hclosed
    rw [widenLast_append_cons]
    rcases ds with _ | ⟨e, ds⟩
    · obtain rfl := tail.eq_nil_iff.2 rfl
      rw [widenLast, widen_record hclosed]
      simp only [Field.totalSize_append, Field.totalSize, Field.size, Descriptor.widening,
        Descriptor.Void, hrecord, List.isEmpty_iff, false_and, if_false]
      omega
    · have hne : fs ≠ [] := fun h => by simpa using tail.eq_nil_iff.1 h
      rw [widenLast_cons hne]
      simp only [Field.totalSize_append, Field.totalSize, Field.size, ih.1, Descriptor.widening]
      omega

theorem totalSize_widenLast (h : Placed rule offset ds fs) :
    Field.totalSize (widenLast fs) = Field.totalSize fs + Descriptor.widening ds :=
  h.widenLast_and_pos.1

/-- No record is empty. -/
theorem totalSize_pos (h : Placed rule offset ds fs) (hne : ds ≠ []) :
    0 < Field.totalSize fs + Descriptor.widening ds :=
  h.widenLast_and_pos.2 hne

/-- A record takes up its fields, with the byte at the end if there is one, rounded up. -/
theorem totalSize_closed (h : Placed rule offset ds fs) (hne : ds ≠ [])
    (hclose : closeRecord rule ds offset fs = .ok closed) :
    ∃ a, rule.alignment ds = .ok a ∧
      Field.totalSize closed = a.roundUp (Field.totalSize fs + Descriptor.widening ds) :=
  h.totalSize_closed_of_widenLast hne h.totalSize_widenLast hclose

theorem totalSize_le_closed (h : Placed rule offset ds fs)
    (hclose : closeRecord rule ds offset fs = .ok closed) :
    Field.totalSize fs ≤ Field.totalSize closed := by
  by_cases hne : ds = []
  · obtain rfl := h.eq_nil_iff.2 hne
    exact Nat.zero_le _
  · obtain ⟨a, -, hsize⟩ := h.totalSize_closed hne hclose
    have := a.le_roundUp (Field.totalSize fs + Descriptor.widening ds)
    omega

theorem totalSize_closed_pos (h : Placed rule offset ds fs) (hne : ds ≠ [])
    (hclose : closeRecord rule ds offset fs = .ok closed) : 0 < Field.totalSize closed := by
  obtain ⟨a, -, hsize⟩ := h.totalSize_closed hne hclose
  rw [hsize]
  exact Alignment.roundUp_pos (h.totalSize_pos hne)

end Placed

/-- A field that is no empty record. -/
def Field.Solid : Field Nat → Prop
  | record _ _ _ _ _ children => 0 < totalSize children
  | _ => True

theorem Field.solid_of_mem_gap {f : Field Nat} {start size : Nat} (h : f ∈ gap start size) :
    f.Solid := by
  unfold gap at h
  split_ifs at h
  · cases h
  · rw [List.mem_singleton.1 h]
    trivial

theorem Placed.solid {rule : RecordRule} {offset : Nat} {ds : List Descriptor}
    {fs : List (Field Nat)} (h : Placed rule offset ds fs) : ∀ f ∈ fs, f.Solid := by
  induction h using numbers_induction with
  | nil => simp
  | leaf _ _ _ ih =>
    intro f hf
    rcases List.mem_append.1 hf with hf | hf
    · exact Field.solid_of_mem_gap hf
    · rcases List.mem_cons.1 hf with rfl | hf
      · trivial
      · exact ih f hf
  | record hrecord _ nested hclose _ _ ih =>
    intro f hf
    rcases List.mem_append.1 hf with hf | hf
    · exact Field.solid_of_mem_gap hf
    · rcases List.mem_cons.1 hf with rfl | hf
      · exact nested.totalSize_closed_pos hrecord hclose
      · exact ih f hf

end StructPadding
