import StructPadding.Proofs.Described

/-!
# The first fault

Placing checks on the way: each descriptor before the fields in it, and the alignment of a record
behind all of its fields (`recordCheckpoints`). It fails exactly if something is wrong at one of the
checkpoints, with what is wrong at the first of them (`failure?_place`), so it makes no difference
where the record is placed. The largest of valid alignments is valid, so a rule that takes the
largest alignment has no faults of its own.
-/

namespace StructPadding

/-! ## Checkpoints -/

/-- What is checked while fields are placed. -/
inductive Checkpoint where
  | descriptor (d : Descriptor)
  /-- The alignment of a record, once its fields are placed. -/
  | record

namespace Descriptor

/-- The end of a record. Without fields there is nothing to round up. -/
def closing (ds : List Descriptor) : List Checkpoint :=
  if ds.isEmpty then [] else [.record]

mutual

/-- A descriptor is checked before the fields in it. -/
def checkpoints : Descriptor → List Checkpoint
  | leaf name typeName size align => [.descriptor (leaf name typeName size align)]
  | record name typeName size align children =>
    .descriptor (record name typeName size align children) ::
      (checkpointsAll children ++ closing children)

def checkpointsAll : List Descriptor → List Checkpoint
  | [] => []
  | d :: ds => d.checkpoints ++ checkpointsAll ds

end

/-- The checkpoints of a record with these fields. -/
def recordCheckpoints (ds : List Descriptor) : List Checkpoint :=
  checkpointsAll ds ++ closing ds

/-- What is wrong with a descriptor: first comes its size, then the sign of its alignment, then
whether that is a power of two. -/
def fault? (d : Descriptor) : Option LayoutError :=
  if d.size.toInt < 0 then some (.negativeSize d.name d.size)
  else if d.align.toInt < 0 then some (.negativeAlignment d.name d.align)
  else if d.align.toInt.toNat.isPowerOfTwo then none
  else some (.invalidAlignment d.name d.align)

end Descriptor

/-- What is wrong at a checkpoint. The alignment of a record can only be wrong if the rule is to
round up to so many bytes. -/
def RecordRule.fault? (rule : RecordRule) : Checkpoint → Option LayoutError
  | .descriptor d => d.fault?
  | .record =>
    match rule with
    | fixed n =>
      if n.toNat.isPowerOfTwo then none else some (.invalidAlignment "" (Int64.ofNat n.toNat))
    | natural => none

open Descriptor (checkpointsAll closing recordCheckpoints)

/-! ## Failures -/

section Failure

variable {ε α β : Type}

/-- The error of a computation that fails. -/
def failure? : Except ε α → Option ε
  | .ok _ => none
  | .error e => some e

theorem failure?_eq_some_iff {x : Except ε α} {e : ε} : failure? x = some e ↔ x = .error e := by
  cases x <;> simp [failure?]

/-- Of two computations in a row the first that fails gives the error. -/
theorem failure?_bind {x : Except ε α} {f : α → Except ε β} {o : Option ε}
    (h : ∀ a, x = .ok a → failure? (f a) = o) : failure? (x >>= f) = (failure? x).or o := by
  cases x with
  | ok a => exact h a rfl
  | error e => rfl

theorem failure?_bind_pure (x : Except ε α) (f : α → β) :
    failure? (x >>= fun a => pure (f a)) = failure? x := by
  rw [failure?_bind (o := none) fun _ _ => rfl, Option.or_none]

end Failure

theorem Alignment.ofBytes?_cases {n : Nat} (h : n < UInt64.size) :
    (n.isPowerOfTwo ∧ ∃ a, ofBytes? n = some a) ∨ (¬n.isPowerOfTwo ∧ ofBytes? n = none) := by
  by_cases hpow : n.isPowerOfTwo
  · obtain ⟨e, rfl⟩ := hpow
    obtain ⟨a, ha⟩ := exists_bytes_eq h
    exact .inl ⟨⟨e, rfl⟩, a, ofBytes?_eq_some_iff.2 ha⟩
  · refine .inr ⟨hpow, Option.eq_none_iff_forall_ne_some.2 fun a ha => hpow ?_⟩
    exact ⟨a.exponent, (bytes_of_ofBytes? ha).symm⟩

theorem failure?_check (d : Descriptor) : failure? d.check = d.fault? := by
  have hlt := d.align.toInt_lt
  unfold Descriptor.check Descriptor.fault?
  by_cases hsize : d.size.toInt < 0
  · rw [if_pos hsize, if_pos hsize]
    rfl
  by_cases hsign : d.align.toInt < 0
  · rw [if_neg hsize, if_neg hsize, if_pos hsign, if_pos hsign]
    rfl
  rw [if_neg hsize, if_neg hsize, if_neg hsign, if_neg hsign]
  obtain ⟨hpow, a, ha⟩ | ⟨hpow, ha⟩ := Alignment.ofBytes?_cases (n := d.align.toInt.toNat)
    (by unfold UInt64.size; omega)
  · rw [ha, if_pos hpow]
    rfl
  · rw [ha, if_neg hpow]
    rfl

theorem failure?_demand {n : Nat} (h : n < UInt64.size) :
    failure? (RecordRule.demand n) =
      if n.isPowerOfTwo then none else some (.invalidAlignment "" (Int64.ofNat n)) := by
  unfold RecordRule.demand
  obtain ⟨hpow, a, ha⟩ | ⟨hpow, ha⟩ := Alignment.ofBytes?_cases h
  · rw [ha, if_pos hpow]
    rfl
  · rw [ha, if_neg hpow]
    rfl

variable {ω : Type} [Measure ω]

/-- Fields that were placed are valid, and then the largest alignment among them is too. -/
theorem failure?_closeRecord {rule : RecordRule} {offset : ω} {ds : List Descriptor}
    {fs : List (Field ω)} (h : Placed rule offset ds fs) :
    failure? (closeRecord rule ds offset fs) = (closing ds).findSome? rule.fault? := by
  by_cases hds : ds = []
  · obtain rfl := h.eq_nil_iff.2 hds
    rw [hds]
    rfl
  · have hempty : ¬fs.isEmpty := fun hfs => hds (h.eq_nil_iff.1 (List.isEmpty_iff.1 hfs))
    have hclosing : closing ds = [.record] := if_neg fun hnil => hds (List.isEmpty_iff.1 hnil)
    unfold closeRecord
    rw [if_neg hempty, failure?_bind_pure, hclosing, List.findSome?_singleton]
    cases rule with
    | fixed n => exact failure?_demand n.toNat_lt
    | natural =>
      have hsound : RecordRule.natural.Sound := trivial
      obtain ⟨a, ha⟩ := RecordRule.alignment_succeeds hsound fun d hd =>
        (h.describes.valid.mem d hd).1
      rw [ha]
      rfl

mutual

theorem failure?_placeField (rule : RecordRule) : ∀ (d : Descriptor) (offset : ω),
    failure? (placeField rule offset d) = d.checkpoints.findSome? rule.fault?
  | .leaf name typeName size align, offset => by
    rw [placeField, failure?_bind_pure, failure?_check, Descriptor.checkpoints,
      List.findSome?_singleton]
    rfl
  | .record name typeName size align children, offset => by
    rw [placeField, Descriptor.checkpoints, ← List.singleton_append, List.findSome?_append,
      List.findSome?_singleton, List.findSome?_append]
    rw [failure?_bind (o := ((checkpointsAll children).findSome? rule.fault?).or
      ((closing children).findSome? rule.fault?)), failure?_check]
    · rfl
    · intro a ha
      -- a record without fields is placed like a leaf, and nothing else is checked
      split_ifs with hempty
      · rw [List.isEmpty_iff.1 hempty]
        rfl
      · rw [← failure?_placeSiblings rule children (Measure.advance a offset)]
        refine failure?_bind fun inner hinner => ?_
        rw [failure?_bind_pure]
        exact failure?_closeRecord (placeSiblings_eq_ok.1 hinner)

theorem failure?_placeSiblings (rule : RecordRule) : ∀ (ds : List Descriptor) (offset : ω),
    failure? (placeSiblings rule offset ds) = (checkpointsAll ds).findSome? rule.fault?
  | [], offset => rfl
  | d :: ds, offset => by
    rw [placeSiblings, checkpointsAll, List.findSome?_append, ← failure?_placeField rule d offset]
    refine failure?_bind fun placed _ => ?_
    rw [failure?_bind_pure, failure?_placeSiblings rule ds]

end

theorem failure?_place (rule : RecordRule) (ds : List Descriptor) (base : ω) :
    failure? (place rule ds base) = (recordCheckpoints ds).findSome? rule.fault? := by
  rw [place, recordCheckpoints, List.findSome?_append, ← failure?_placeSiblings rule ds base]
  exact failure?_bind fun fs hfs => failure?_closeRecord (placeSiblings_eq_ok.1 hfs)

theorem RecordRule.sound_iff {rule : RecordRule} :
    rule.Sound ↔ ∀ n, rule = .fixed n → n.toNat.isPowerOfTwo := by
  cases rule with
  | natural => simp [Sound]
  | fixed n =>
    constructor
    · rintro ⟨a, ha⟩ _ ⟨⟩
      exact ⟨a.exponent, ha.symm⟩
    · intro h
      obtain ⟨-, a, ha⟩ | ⟨hpow, -⟩ := Alignment.ofBytes?_cases n.toNat_lt
      · exact ⟨a, Alignment.bytes_of_ofBytes? ha⟩
      · exact absurd (h n rfl) hpow

theorem place_ok_iff {rule : RecordRule} {ds : List Descriptor} {base : ω} :
    (∃ fs, place rule ds base = .ok fs) ↔
      Everywhere Descriptor.Valid ds ∧ (ds ≠ [] → rule.Sound) := by
  constructor
  · rintro ⟨fs, hfs⟩
    exact ⟨(describes_of_place hfs).valid, sound_of_place hfs⟩
  · rintro ⟨hvalid, hsound⟩
    by_cases hds : ds = []
    · exact ⟨[], by rw [hds]; rfl⟩
    · exact place_succeeds (hsound hds) hvalid base

/-- What can be laid out in words can be laid out in numbers, from any offset on. -/
theorem exists_numbers {rule : RecordRule} {ds : List Descriptor} {base : UInt64} {fs : List Field}
    (h : place rule ds base = .ok fs) (n : Nat) :
    ∃ es : List (Field Nat), place rule ds n = .ok es :=
  place_ok_iff.2 (place_ok_iff.1 ⟨fs, h⟩)

/-- Placing succeeds exactly if the descriptors are valid at every depth and the bytes that a rule
fixes for records, if there is a record at all, are a power of two. Otherwise it reports what is
wrong at the first checkpoint where something is. It makes no difference from where on the fields
are placed. -/
theorem place_reports_first (rule : RecordRule) (ds : List Descriptor) (base : UInt64) :
    ((∃ fs, place rule ds base = .ok fs) ↔ Everywhere Descriptor.Valid ds ∧
      (ds ≠ [] → ∀ n, rule = .fixed n → n.toNat.isPowerOfTwo)) ∧
    (∀ e, place rule ds base = .error e ↔
      (recordCheckpoints ds).findSome? rule.fault? = some e) ∧
    ∀ other : UInt64, failure? (place rule ds other) = failure? (place rule ds base) := by
  refine ⟨?_, fun e => ?_, fun other => ?_⟩
  · rw [place_ok_iff, RecordRule.sound_iff]
  · rw [← failure?_eq_some_iff, failure?_place]
  · rw [failure?_place, failure?_place]

/-- The record inside is closed before the field behind it is looked at. -/
example : place (.fixed 12) [.record "in" "In" 0 4 [.leaf "n" "int32" 4 4],
    .leaf "bad" "int8" (-1) 1] (0 : UInt64) = .error (.invalidAlignment "" 12) := by
  rfl

end StructPadding
