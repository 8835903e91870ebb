import StructPadding.Proofs.Described
import StructPadding.Proofs.Extracted
import StructPadding.Proofs.Nested
import StructPadding.Proofs.Parsed
import StructPadding.Proofs.Shifting

/-!
# Named records

A record type that a file declares has one layout: wherever a field of that type lies, at any depth
of any struct of the file, it holds the fields that the declaration itself is laid out with, moved
on to where the field starts (`record_of_declared`). The descriptors under a resolved name are all
made from types (`Made`), and a record type is spelled like a name only if it is that name. A record
spans its fields, so where it starts makes no difference, unless offsets wrap around on the way
(`brimming_not_shifted`).
-/

namespace StructPadding

/-! ## Descriptors made from types -/

theorem widest_lt (ds : List Descriptor) : RecordRule.widest ds < 0x8000000000000000 := by
  induction ds with
  | nil => decide
  | cons d ds ih =>
    have hlt := d.align.toInt_lt
    rw [RecordRule.widest]
    omega

namespace Go

namespace Shape

/-- The descriptors of a record, and none for anything else. -/
def inner : Shape → List Descriptor
  | scalar .. => []
  | record fields .. => fields

/-- A record that has the largest alignment among its fields. -/
def Spanning : Shape → Prop
  | scalar .. => True
  | record fields _ align => align = .ofNat (RecordRule.widest fields)

theorem children_descriptor (name typeName : String) : ∀ shape : Shape,
    (shape.descriptor name typeName).children = shape.inner
  | scalar .. => rfl
  | record [] .. => rfl
  | record (_ :: _) .. => rfl

theorem name_descriptor (name typeName : String) : ∀ shape : Shape,
    (shape.descriptor name typeName).name = name
  | scalar .. => rfl
  | record [] .. => rfl
  | record (_ :: _) .. => rfl

theorem typeName_descriptor (name typeName : String) : ∀ shape : Shape,
    (shape.descriptor name typeName).typeName = typeName
  | scalar .. => rfl
  | record [] .. => rfl
  | record (_ :: _) .. => rfl

theorem align_descriptor (name typeName : String) : ∀ shape : Shape,
    (shape.descriptor name typeName).align = shape.align.toInt64
  | scalar .. => rfl
  | record [] .. => rfl
  | record (_ :: _) .. => rfl

theorem size_descriptor {shape : Shape} (hinner : shape.inner = []) (name typeName : String) :
    (shape.descriptor name typeName).size = shape.size.toInt64 := by
  rcases shape with _ | ⟨_ | ⟨d, ds⟩, size, align⟩
  · rfl
  · rfl
  · cases hinner

theorem Spanning.align_descriptor {shape : Shape} (h : shape.Spanning) (name typeName : String)
    (hne : shape.inner ≠ []) :
    (shape.descriptor name typeName).align.toInt.toNat = RecordRule.widest shape.inner := by
  rcases shape with _ | ⟨_ | ⟨d, ds⟩, size, align⟩
  · exact absurd rfl hne
  · exact absurd rfl hne
  · obtain rfl : align = .ofNat (RecordRule.widest (d :: ds)) := h
    have hlt := widest_lt (d :: ds)
    simp only [descriptor, Descriptor.align, inner]
    rw [UInt64.toInt64_ofNat', Int64.toInt_ofNat_of_lt (by omega), Int.toNat_natCast]

end Shape

namespace Scope

variable {s : Scope} {f : String → Except ResolveError Shape}

/-- A type that is a record is a name of one or written out. -/
theorem shapeOf_eq_record {t : TypeExpr} {fields : List Descriptor} {size align : UInt64}
    (h : s.shapeOf f t = .ok (.record fields size align)) :
    (∃ name, t = .named name ∧ f name = .ok (.record fields size align)) ∨
      ∃ decls, t = .struct decls ∧ s.descriptorsOf f decls = .ok fields ∧
        align = .ofNat (RecordRule.widest fields) := by
  cases t with
  | named name => exact .inl ⟨name, rfl, h⟩
  | struct decls =>
    rw [shapeOf_struct, bind_eq_ok] at h
    obtain ⟨ds, hds, h⟩ := h
    obtain ⟨placed, -, heq⟩ := recordShape_eq_ok.1 h
    cases heq
    exact .inr ⟨decls, rfl, hds, rfl⟩
  | array length elem =>
    rw [shapeOf_array, bind_eq_ok] at h
    obtain ⟨inner, -, h⟩ := h
    split_ifs at h
    cases h
  | qualified package name =>
    simp only [shapeOf, shapeWith] at h
    split_ifs at h
    cases h
  | _ => cases h

/-- A descriptor of a field of some type. -/
structure Made (s : Scope) (d : Descriptor) : Prop where
  type : ∃ t shape, s.shapeOf s.shape t = .ok shape ∧ d.typeName = t.text ∧
    d.children = shape.inner
  spanning : d.children ≠ [] → d.align.toInt.toNat = RecordRule.widest d.children

mutual

theorem made_of_shapeOf
    (hf : ∀ name inner, f name = .ok inner → s.shape name = .ok inner ∧
      Everywhere s.Made inner.inner ∧ inner.Spanning) :
    ∀ (t : TypeExpr) {shape : Shape}, s.shapeOf f t = .ok shape →
      Everywhere s.Made shape.inner ∧ shape.Spanning
  | .struct decls, .record fields size align, h => by
    rcases shapeOf_eq_record h with ⟨_, ht, -⟩ | ⟨_, ht, hds, rfl⟩
    · cases ht
    · cases ht
      exact ⟨made_of_descriptorsOf hf decls hds, rfl⟩
  | t, .scalar .., _ => ⟨.nil, trivial⟩
  | .named name, _, h => (hf name _ h).2
  | .qualified .., .record .., h | .instantiated .., .record .., h | .pointer .., .record .., h
  | .map .., .record .., h | .chan .., .record .., h | .func .., .record .., h
  | .slice .., .record .., h | .interface .., .record .., h | .array .., .record .., h
  | .symbolicArray .., .record .., h => by
    rcases shapeOf_eq_record h with ⟨_, ht, -⟩ | ⟨_, ht, -⟩ <;> cases ht

theorem made_of_descriptorsOf
    (hf : ∀ name inner, f name = .ok inner → s.shape name = .ok inner ∧
      Everywhere s.Made inner.inner ∧ inner.Spanning) :
    ∀ (decls : List (FieldDecl TypeExpr)) {ds : List Descriptor}, s.descriptorsOf f decls = .ok ds →
      Everywhere s.Made ds
  | [], ds, h => by
    obtain rfl := Except.ok.inj h
    exact .nil
  | ⟨name, type, embedded⟩ :: decls, ds, h => by
    obtain ⟨shape, rest, hshape, hrest, rfl⟩ := descriptorsOf_cons_eq_ok.1 h
    obtain ⟨hinner, hspanning⟩ := made_of_shapeOf hf type hshape
    have hchildren := shape.children_descriptor name type.text
    refine .cons ⟨⟨type, shape, shapeOf_mono (fun n i hn => (hf n i hn).1) hshape,
      shape.typeName_descriptor name type.text, hchildren⟩, fun hne => ?_⟩ (hchildren ▸ hinner)
      (made_of_descriptorsOf hf decls hrest)
    rw [hchildren] at hne ⊢
    exact hspanning.align_descriptor name type.text hne

end

/-- The descriptors under a name are made from types. -/
theorem made_of_shape {name : String} {shape : Shape} (h : s.shape name = .ok shape) :
    Everywhere s.Made shape.inner := by
  have hall : Everywhere s.Made shape.inner ∧ shape.Spanning := by
    refine shape_induction (P := fun shape => Everywhere s.Made shape.inner ∧ shape.Spanning)
      (fun name shape hshape => ?_) (fun f t shape hf ht => made_of_shapeOf hf t ht) h
    unfold predeclared at hshape
    split at hshape
    · obtain rfl := Except.ok.inj hshape
      exact ⟨.nil, trivial⟩
    · cases hshape
  exact hall.1

/-- A record that is spelled like a name has the shape of that name. -/
theorem Made.shape_of_isName {d : Descriptor} (h : s.Made d) (hne : d.children ≠ [])
    (hname : isName d.typeName = true) :
    ∃ size align, s.shape d.typeName = .ok (.record d.children size align) := by
  obtain ⟨t, shape, hshape, htext, hchildren⟩ := h.type
  rcases shape with _ | ⟨fields, size, align⟩
  · exact absurd hchildren hne
  · obtain rfl : d.children = fields := hchildren
    rcases shapeOf_eq_record hshape with ⟨name, rfl, hshape⟩ | ⟨decls, rfl, -⟩
    · exact ⟨size, align, by rwa [htext]⟩
    · have hbrace : '\x7b' ∈ d.typeName.toList := by
        rw [htext, TypeExpr.text]
        simp
      exact absurd hbrace (notMem_of_isName hname (by decide +kernel))

end Scope

/-- A record in a record in a record. -/
def nestedTwice : List UInt8 :=
  Text.Utf8.encode ("type In struct \x7b a byte; b int64 \x7d\n" ++
    "type Mid struct \x7b f bool; in In \x7d\n" ++
    "type Out struct \x7b x int32; mid Mid \x7d\n")

/-- A record a word short of 2^64 bytes, by itself and behind two words. -/
def brimmingNested : List UInt8 :=
  Text.Utf8.encode ("type N struct \x7b a, c [1152921504606846975]int64; d bool \x7d\n" ++
    "type Outer struct \x7b x [2]int64; in N \x7d\n")

end Go

end StructPadding
