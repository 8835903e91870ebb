import Mathlib.Data.List.Forall2
import StructPadding.Proofs.Extent

/-!
# Siblings

The fields of a placed record, padding left out, are its descriptors one by one (`Realises`): a leaf
with the size it was declared with, and a record laid out from where it starts, which is the next
boundary of its alignment.
-/

namespace StructPadding

variable {ω : Type}

namespace Field

/-- The fields that are not padding. -/
def unpadded (fs : List (Field ω)) : List (Field ω) :=
  fs.filter fun f => !f.isPadding

@[simp]
theorem unpadded_append (fs gs : List (Field ω)) :
    unpadded (fs ++ gs) = unpadded fs ++ unpadded gs :=
  List.filter_append ..

theorem unpadded_cons_of {f : Field ω} (fs : List (Field ω)) (h : f.isPadding = false) :
    unpadded (f :: fs) = f :: unpadded fs := by
  simp [unpadded, h]

theorem unpadded_cons_padding {f : Field ω} (fs : List (Field ω)) (h : f.isPadding = true) :
    unpadded (f :: fs) = unpadded fs := by
  simp [unpadded, h]

theorem mem_unpadded {f : Field ω} {fs : List (Field ω)} :
    f ∈ unpadded fs ↔ f ∈ fs ∧ f.isPadding = false := by
  simp [unpadded]

variable [Measure ω]

@[simp]
theorem unpadded_gap (start size : ω) : unpadded (gap start size) = [] := by
  unfold gap
  split_ifs <;> rfl

@[simp]
theorem isPadding_widen (f : Field ω) : f.widen.isPadding = f.isPadding := by
  cases f <;> rfl

end Field

variable [Measure ω]

open StructPadding.Measure (advance)
open StructPadding.Field (unpadded)

/-- A field that a descriptor was placed as, whatever its offset. -/
inductive Realises (rule : RecordRule) : Descriptor → Field ω → Prop
  | leaf {d : Descriptor} {a : Alignment} (start size : ω) (hleaf : d.children = [])
    (hcheck : d.check = .ok a) :
    Realises rule d (.leaf d.name d.typeName start size (Measure.ofNat d.bytes) a)
  | record {d : Descriptor} {a : Alignment} {inner : List (Field ω)} (offset : ω) (widened : Bool)
    (hrecord : d.children ≠ []) (hcheck : d.check = .ok a)
    (hinner : place rule d.children (advance a offset) = .ok inner) :
    Realises rule d (.record d.name d.typeName (advance a offset) a widened inner)

namespace Realises

variable {rule : RecordRule} {d : Descriptor} {f : Field ω}

theorem widen (h : Realises rule d f) : Realises rule d f.widen := by
  cases h with
  | leaf start size hleaf hcheck => exact .leaf start _ hleaf hcheck
  | record offset widened hrecord hcheck hinner => exact .record offset _ hrecord hcheck hinner

theorem alignBytes (h : Realises rule d f) : f.alignBytes = d.align.toInt.toNat := by
  rcases h with ⟨_, _, _, hcheck⟩ | ⟨_, _, _, hcheck, _⟩ <;>
    exact (Descriptor.align_of_check hcheck).symm

theorem isPadding (h : Realises rule d f) : f.isPadding = false := by
  cases h <;> rfl

end Realises

theorem realises_widenLast {rule : RecordRule} : ∀ {fs : List (Field ω)} {ds : List Descriptor},
    List.Forall₂ (Realises rule) ds (unpadded fs) →
      List.Forall₂ (Realises rule) ds (unpadded (widenLast fs))
  | [], ds, h => h
  | [f], ds, h => by
    rcases hf : f.isPadding with _ | _
    · rw [Field.unpadded_cons_of [] hf] at h
      rw [widenLast, Field.unpadded_cons_of [] ((Field.isPadding_widen f).trans hf)]
      rcases h with _ | ⟨hd, htail⟩
      exact .cons hd.widen htail
    · cases f <;> first | exact h | cases hf
  | f :: g :: fs, ds, h => by
    rw [widenLast_cons (List.cons_ne_nil g fs)]
    rcases hf : f.isPadding with _ | _
    · rw [Field.unpadded_cons_of _ hf] at h ⊢
      rcases h with _ | ⟨hd, htail⟩
      exact .cons hd (realises_widenLast htail)
    · rw [Field.unpadded_cons_padding _ hf] at h ⊢
      exact realises_widenLast h

theorem Placed.realises {rule : RecordRule} {offset : ω} {ds : List Descriptor}
    {fs : List (Field ω)} (h : Placed rule offset ds fs) :
    List.Forall₂ (Realises rule) ds (unpadded fs) := by
  induction h with
  | nil => exact .nil
  | leaf hleaf hcheck _ ih =>
    rw [Field.unpadded_append, Field.unpadded_gap, List.nil_append, Field.unpadded_cons_of _ rfl]
    exact .cons (.leaf _ _ hleaf hcheck) ih
  | @record offset d ds a inner closed fs hrecord hcheck nested hclose _ _ ih =>
    rw [Field.unpadded_append, Field.unpadded_gap, List.nil_append, Field.unpadded_cons_of _ rfl]
    have hinner := place_eq_ok.2 ⟨inner, nested, hclose⟩
    exact .cons (.record offset false hrecord hcheck hinner) ih

/-- The fields of a placed record are its descriptors in their order. -/
theorem realises_of_place {rule : RecordRule} {ds : List Descriptor} {base : ω}
    {fs : List (Field ω)} (h : place rule ds base = .ok fs) :
    List.Forall₂ (Realises rule) ds (unpadded fs) := by
  obtain ⟨inner, hinner, hclose⟩ := place_eq_ok.1 h
  refine closeRecord_preserves (fun fs => List.Forall₂ (Realises rule) ds (unpadded fs))
    realises_widenLast (fun x y h => ?_) hinner.realises hclose
  rwa [Field.unpadded_append, Field.unpadded_gap, List.append_nil]

end StructPadding
