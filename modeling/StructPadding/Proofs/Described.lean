import Mathlib.Data.List.Forall2
import StructPadding.Proofs.Placed

/-!
# Descriptors of placed fields

Placed fields still hold the descriptors they were placed from (`Describes`): names, types, declared
sizes and alignments, whatever the offsets and the padding are. Reading the descriptors back gives
them in their plain form (`Describes.toDescriptors`), in which a record has no size of its own and
is never without fields; and the plain form is placed just like the other one (`Placed.plain`), so
a layout holds all there is to know to lay it out again.
-/

namespace StructPadding

variable {ω : Type} [Measure ω]

/-- Fields of these descriptors in this order, with padding anywhere between them. -/
inductive Describes : List Descriptor → List (Field ω) → Prop
  | nil : Describes [] []
  | padding {ds : List Descriptor} {fs : List (Field ω)} (start size : ω)
    (tail : Describes ds fs) : Describes ds (.padding start size :: fs)
  | leaf {d : Descriptor} {ds : List Descriptor} {a : Alignment} {fs : List (Field ω)}
    (start size : ω) (hleaf : d.children = []) (hcheck : d.check = .ok a)
    (tail : Describes ds fs) :
    Describes (d :: ds) (.leaf d.name d.typeName start size (Measure.ofNat d.bytes) a :: fs)
  | record {d : Descriptor} {ds : List Descriptor} {a : Alignment} {inner fs : List (Field ω)}
    (start : ω) (widened : Bool) (hrecord : d.children ≠ []) (hcheck : d.check = .ok a)
    (nested : Describes d.children inner) (tail : Describes ds fs) :
    Describes (d :: ds) (.record d.name d.typeName start a widened inner :: fs)

namespace Describes

variable {ds : List Descriptor} {fs : List (Field ω)}

theorem ne_nil (h : Describes ds fs) (hne : ds ≠ []) : fs ≠ [] := by
  cases h with
  | nil => exact absurd rfl hne
  | _ => exact List.cons_ne_nil _ _

theorem gap_append (x y : ω) (h : Describes ds fs) : Describes ds (gap x y ++ fs) := by
  unfold gap
  split_ifs
  · exact h
  · exact .padding _ _ h

theorem append_gap (x y : ω) (h : Describes ds fs) : Describes ds (fs ++ gap x y) := by
  induction h with
  | nil =>
    rw [List.nil_append, ← List.append_nil (gap x y)]
    exact .gap_append x y .nil
  | padding start size _ ih => exact .padding start size ih
  | leaf start size hleaf hcheck _ ih => exact .leaf start size hleaf hcheck ih
  | record start widened hrecord hcheck nested _ _ ih =>
    exact .record start widened hrecord hcheck nested ih

theorem widenLast (h : Describes ds fs) : Describes ds (widenLast fs) := by
  induction h with
  | nil => exact .nil
  | @padding ds fs start size tail ih =>
    by_cases hne : fs = []
    · subst hne
      exact .padding start size tail
    · rw [widenLast_cons hne]
      exact .padding start size ih
  | @leaf d ds a fs start size hleaf hcheck tail ih =>
    by_cases hne : fs = []
    · subst hne
      exact .leaf start _ hleaf hcheck tail
    · rw [widenLast_cons hne]
      exact .leaf start size hleaf hcheck ih
  | @record d ds a inner fs start widened hrecord hcheck nested tail _ ih =>
    by_cases hne : fs = []
    · subst hne
      exact .record start _ hrecord hcheck nested tail
    · rw [widenLast_cons hne]
      exact .record start widened hrecord hcheck nested ih

theorem valid (h : Describes ds fs) : Everywhere Descriptor.Valid ds := by
  induction h with
  | nil => exact .nil
  | padding _ _ _ ih => exact ih
  | leaf start size hleaf hcheck _ ih =>
    exact .cons (Descriptor.valid_iff.2 ⟨_, hcheck⟩) (hleaf ▸ .nil) ih
  | record start widened hrecord hcheck _ _ ihNested ihTail =>
    exact .cons (Descriptor.valid_iff.2 ⟨_, hcheck⟩) ihNested ihTail

end Describes

theorem Placed.describes {rule : RecordRule} {offset : ω} {ds : List Descriptor}
    {fs : List (Field ω)} (h : Placed rule offset ds fs) : Describes ds fs := by
  induction h with
  | nil => exact .nil
  | leaf hleaf hcheck _ ih => exact .gap_append _ _ (.leaf _ _ hleaf hcheck ih)
  | @record _ d _ _ _ _ _ hrecord hcheck nested hclose _ ihNested ihTail =>
    have hclosed := closeRecord_preserves (Describes d.children) Describes.widenLast
      Describes.append_gap ihNested hclose
    exact .gap_append _ _ (.record _ false hrecord hcheck hclosed ihTail)

theorem describes_of_place {rule : RecordRule} {ds : List Descriptor} {base : ω}
    {fs : List (Field ω)} (h : place rule ds base = .ok fs) : Describes ds fs := by
  obtain ⟨inner, hinner, hclose⟩ := place_eq_ok.1 h
  exact closeRecord_preserves (Describes ds) Describes.widenLast Describes.append_gap
    hinner.describes hclose

/-! ## Plain descriptors -/

namespace Descriptor

mutual

/-- A descriptor without what placing forgets: a record's own size, and a record's being one when it
has no fields. -/
def plain : Descriptor → Descriptor
  | leaf name typeName size align => leaf name typeName size align
  | record name typeName size align children =>
    if children.isEmpty then leaf name typeName size align
    else record name typeName 0 align (plainAll children)

def plainAll : List Descriptor → List Descriptor
  | [] => []
  | d :: ds => d.plain :: plainAll ds

end

theorem plainAll_eq_map : ∀ ds : List Descriptor, plainAll ds = ds.map plain
  | [] => by rw [plainAll, List.map_nil]
  | d :: ds => by rw [plainAll, List.map_cons, plainAll_eq_map ds]

theorem plain_of_leaf {d : Descriptor} (h : d.children = []) :
    d.plain = leaf d.name d.typeName d.size d.align := by
  rcases d with _ | ⟨name, typeName, size, align, children⟩
  · rw [plain]
    rfl
  · obtain rfl : children = [] := h
    rw [plain]
    rfl

theorem plain_of_record {d : Descriptor} (h : d.children ≠ []) :
    d.plain = record d.name d.typeName 0 d.align (plainAll d.children) := by
  rcases d with _ | ⟨name, typeName, size, align, children⟩
  · exact absurd rfl h
  · have hempty : ¬ children.isEmpty = true := fun hempty => h (List.isEmpty_iff.1 hempty)
    rw [plain, if_neg hempty]
    rfl

theorem name_plain (d : Descriptor) : d.plain.name = d.name := by
  by_cases h : d.children = []
  · rw [plain_of_leaf h]
    rfl
  · rw [plain_of_record h]
    rfl

theorem typeName_plain (d : Descriptor) : d.plain.typeName = d.typeName := by
  by_cases h : d.children = []
  · rw [plain_of_leaf h]
    rfl
  · rw [plain_of_record h]
    rfl

theorem align_plain (d : Descriptor) : d.plain.align = d.align := by
  by_cases h : d.children = []
  · rw [plain_of_leaf h]
    rfl
  · rw [plain_of_record h]
    rfl

theorem children_plain (d : Descriptor) : d.plain.children = plainAll d.children := by
  by_cases h : d.children = []
  · rw [plain_of_leaf h, h]
    rfl
  · rw [plain_of_record h]
    rfl

theorem check_plain {d : Descriptor} {a : Alignment} (h : d.check = .ok a) :
    d.plain.check = .ok a := by
  obtain ⟨hsize, halign⟩ := check_eq_ok.1 h
  refine check_eq_ok.2 ⟨?_, by rwa [align_plain]⟩
  by_cases hc : d.children = []
  · rwa [plain_of_leaf hc]
  · rw [plain_of_record hc]
    exact show 0 ≤ (0 : Int64).toInt by decide

mutual

theorem plain_plain : ∀ d : Descriptor, d.plain.plain = d.plain
  | leaf .. => by rw [plain, plain]
  | record name typeName size align [] => by simp [plain]
  | record name typeName size align (d :: ds) => by
    simp [plain, plainAll, plain_plain d, plainAll_plainAll ds]

theorem plainAll_plainAll : ∀ ds : List Descriptor, plainAll (plainAll ds) = plainAll ds
  | [] => by simp [plainAll]
  | d :: ds => by simp [plainAll, plain_plain d, plainAll_plainAll ds]

end

theorem bytes_plain {d : Descriptor} (h : d.children = []) : d.plain.bytes = d.bytes := by
  rw [plain_of_leaf h]
  rfl

theorem ofNat_toInt_toNat {x : Int64} (h : 0 ≤ x.toInt) : Int64.ofNat x.toInt.toNat = x := by
  have hlt := x.toInt_lt
  refine Int64.toInt.inj ?_
  rw [Int64.toInt_ofNat_of_lt (by omega)]
  omega

end Descriptor

open Descriptor (plain plainAll)

theorem toDescriptor_leaf {d : Descriptor} {a : Alignment} (start size : ω)
    (hleaf : d.children = []) (hcheck : d.check = .ok a) :
    (Field.leaf d.name d.typeName start size (Measure.ofNat d.bytes) a).toDescriptor =
      .ok (some d.plain) := by
  obtain ⟨hsize, halign⟩ := Descriptor.check_eq_ok.1 hcheck
  have hlt := d.size.toInt_lt
  have hbytes : d.bytes < 0x8000000000000000 := by
    unfold Descriptor.bytes
    omega
  have hexact : Measure.toNat (Measure.ofNat d.bytes : ω) = d.bytes :=
    Measure.toNat_ofNat d.bytes (by unfold UInt64.size; omega)
  rw [Field.toDescriptor, hexact, if_pos hbytes, Descriptor.plain_of_leaf hleaf, Descriptor.bytes,
    Descriptor.ofNat_toInt_toNat hsize,
    show a.bytes = d.align.toInt.toNat by omega, Descriptor.ofNat_toInt_toNat (by omega)]

theorem toDescriptor_record {d : Descriptor} {a : Alignment} {inner : List (Field ω)} (start : ω)
    (widened : Bool) (hrecord : d.children ≠ []) (hcheck : d.check = .ok a)
    (hinner : Field.toDescriptors inner = .ok (plainAll d.children)) :
    (Field.record d.name d.typeName start a widened inner).toDescriptor = .ok (some d.plain) := by
  obtain ⟨-, halign⟩ := Descriptor.check_eq_ok.1 hcheck
  rw [Field.toDescriptor, hinner, Descriptor.plain_of_record hrecord,
    show a.bytes = d.align.toInt.toNat by omega, Descriptor.ofNat_toInt_toNat (by omega)]
  rfl

/-- The descriptors of placed fields are those they were placed from. -/
theorem Describes.toDescriptors {ds : List Descriptor} {fs : List (Field ω)}
    (h : Describes ds fs) :
    Field.toDescriptors fs = .ok (plainAll ds) := by
  induction h with
  | nil => rw [Field.toDescriptors, plainAll]
  | padding start size _ ih =>
    rw [Field.toDescriptors, Field.toDescriptor, ih]
    rfl
  | leaf start size hleaf hcheck _ ih =>
    rw [Field.toDescriptors, toDescriptor_leaf start size hleaf hcheck, ih, plainAll]
    rfl
  | record start widened hrecord hcheck _ _ ihNested ihTail =>
    rw [Field.toDescriptors, toDescriptor_record start widened hrecord hcheck ihNested, ihTail,
      plainAll]
    rfl

theorem Field.toDescriptors_cons {f : Field ω} {fs : List (Field ω)} {ds : List Descriptor} :
    Field.toDescriptors (f :: fs) = .ok ds ↔ ∃ d? ds', f.toDescriptor = .ok d? ∧
      Field.toDescriptors fs = .ok ds' ∧ ds = d?.toList ++ ds' := by
  rw [Field.toDescriptors]
  simp only [bind_eq_ok, pure, Except.pure, Except.ok.injEq]
  constructor
  · rintro ⟨d?, hd, ds', hds', rfl⟩
    exact ⟨d?, ds', hd, hds', rfl⟩
  · rintro ⟨d?, ds', hd, hds', rfl⟩
    exact ⟨d?, hd, ds', hds', rfl⟩

theorem toDescriptors_of_forall₂ {ds : List Descriptor} {fs : List (Field ω)}
    (h : List.Forall₂ (fun f d => f.toDescriptor = .ok (some d.plain)) fs ds) :
    Field.toDescriptors fs = .ok (plainAll ds) := by
  induction h with
  | nil => rw [Field.toDescriptors, plainAll]
  | cons hd _ ih =>
    rw [Field.toDescriptors, hd, ih, plainAll]
    rfl

theorem widest_plainAll : ∀ ds : List Descriptor,
    RecordRule.widest (plainAll ds) = RecordRule.widest ds
  | [] => by rw [plainAll]
  | d :: ds => by
    rw [plainAll, RecordRule.widest, RecordRule.widest, Descriptor.align_plain, widest_plainAll ds]

theorem alignment_plainAll (rule : RecordRule) (ds : List Descriptor) :
    rule.alignment (plainAll ds) = rule.alignment ds := by
  cases rule with
  | fixed n => rfl
  | natural => rw [RecordRule.alignment, RecordRule.alignment, widest_plainAll]

theorem closeRecord_plainAll (rule : RecordRule) (ds : List Descriptor) (base : ω)
    (fs : List (Field ω)) :
    closeRecord rule (plainAll ds) base fs = closeRecord rule ds base fs := by
  unfold closeRecord
  rw [alignment_plainAll]

/-- The plain descriptors are placed like the others. -/
theorem Placed.plain {rule : RecordRule} {offset : ω} {ds : List Descriptor}
    {fs : List (Field ω)} (h : Placed rule offset ds fs) : Placed rule offset (plainAll ds) fs := by
  induction h with
  | nil => exact .nil _
  | @leaf offset d ds a fs hleaf hcheck _ ih =>
    rw [← Descriptor.bytes_plain hleaf] at ih ⊢
    rw [← Descriptor.name_plain, ← Descriptor.typeName_plain]
    refine .leaf ?_ (Descriptor.check_plain hcheck) ih
    rw [Descriptor.children_plain, hleaf]
    rfl
  | @record offset d ds a inner closed fs hrecord hcheck _ hclose _ ihNested ihTail =>
    rw [← closeRecord_plainAll, ← Descriptor.children_plain] at hclose
    rw [← Descriptor.children_plain] at ihNested
    rw [← Descriptor.name_plain, ← Descriptor.typeName_plain]
    refine .record ?_ (Descriptor.check_plain hcheck) ihNested hclose ihTail
    rw [Descriptor.children_plain, Descriptor.plainAll_eq_map]
    simpa using hrecord

theorem place_plainAll {rule : RecordRule} {ds : List Descriptor} {base : ω}
    {fs : List (Field ω)} (h : place rule ds base = .ok fs) :
    place rule (plainAll ds) base = .ok fs := by
  obtain ⟨inner, hinner, hclose⟩ := place_eq_ok.1 h
  exact place_eq_ok.2 ⟨inner, hinner.plain, by rwa [closeRecord_plainAll]⟩

/-- The descriptors that placed fields are read back as are those they were placed from, in their
plain form, and placing these once more changes nothing. -/
theorem toDescriptors_of_place {rule : RecordRule} {ds : List Descriptor} {base : UInt64}
    {fs : List Field} (h : place rule ds base = .ok fs) :
    Field.toDescriptors fs = .ok (plainAll ds) ∧ place rule (plainAll ds) base = .ok fs := by
  have hdescribes := describes_of_place h
  exact ⟨hdescribes.toDescriptors, place_plainAll h⟩

/-- Records with sizes that say nothing, or without fields, and empty leaves that are widened. -/
def worn : List Descriptor :=
  [.record "in" "In" 7 2 [.leaf "n" "int32" 4 4, .leaf "e" "[0]int8" 0 1],
    .record "box" "Box" 24 8 [], .record "end" "[0]In" 0 2 []]

def wornFields : List Field :=
  (place (.fixed 16) worn 6).toOption.getD []

theorem place_worn : place (.fixed 16) worn 6 = .ok wornFields := by
  decide +kernel

theorem toDescriptors_of_place_worn : place (.fixed 16) worn 6 = .ok wornFields ∧
    (wornFields.map fun f => (f.name, f.start, f.stop)) = [("in", 6, 22), ("", 22, 24),
      ("box", 24, 48), ("end", 48, 49), ("", 49, 54)] ∧
    Field.toDescriptors wornFields = .ok [.record "in" "In" 0 2 [.leaf "n" "int32" 4 4,
      .leaf "e" "[0]int8" 0 1], .leaf "box" "Box" 24 8, .leaf "end" "[0]In" 0 2] ∧
    place (.fixed 16) [.record "in" "In" 0 2 [.leaf "n" "int32" 4 4, .leaf "e" "[0]int8" 0 1],
      .leaf "box" "Box" 24 8, .leaf "end" "[0]In" 0 2] 6 = .ok wornFields :=
  ⟨place_worn, by decide +kernel, toDescriptors_of_place place_worn⟩

end StructPadding
