import StructPadding.Proofs.ReadBack
import StructPadding.Proofs.Resolution

/-!
# Layouts without type names

The spelling of types has no part in placing fields: descriptors that differ only in it are placed
alike (`place_untyped`), down to what is complained about. A type that is read from the text of
another has the same shape up to spelling (`shapeOf_readBack`): where the two differ, both are
channels.
-/

namespace StructPadding

namespace Descriptor

mutual

/-- A descriptor without the spelling of types. -/
def untyped : Descriptor → Descriptor
  | leaf name _ size align => leaf name "" size align
  | record name _ size align children => record name "" size align (untypedAll children)

def untypedAll : List Descriptor → List Descriptor
  | [] => []
  | d :: ds => d.untyped :: untypedAll ds

end

theorem check_untyped (d : Descriptor) : d.untyped.check = d.check := by
  cases d <;> simp [untyped, check, size, align, name]

theorem align_untyped (d : Descriptor) : d.untyped.align = d.align := by
  cases d <;> simp [untyped, align]

theorem isEmpty_untypedAll (ds : List Descriptor) : (untypedAll ds).isEmpty = ds.isEmpty := by
  cases ds <;> simp [untypedAll]

theorem widest_untypedAll (ds : List Descriptor) :
    RecordRule.widest (untypedAll ds) = RecordRule.widest ds := by
  induction ds with
  | nil => rw [untypedAll]
  | cons d ds ih => rw [untypedAll, RecordRule.widest, RecordRule.widest, align_untyped, ih]

end Descriptor

namespace Field

mutual

/-- A field without the spelling of types. -/
def untyped : Field → Field
  | padding start size => padding start size
  | leaf name _ start size declared align => leaf name "" start size declared align
  | record name _ start align widened children =>
    record name "" start align widened (untypedAll children)

def untypedAll : List Field → List Field
  | [] => []
  | f :: fs => f.untyped :: untypedAll fs

end

theorem untypedAll_eq_map (fs : List Field) : untypedAll fs = fs.map untyped := by
  induction fs with
  | nil => rw [untypedAll, List.map_nil]
  | cons f fs ih => rw [untypedAll, List.map_cons, ih]

mutual

@[simp]
theorem size_untyped : ∀ f : Field, f.untyped.size = f.size
  | padding .. => by simp [untyped]
  | leaf .. => by simp [untyped, size]
  | record _ _ _ _ false children => by simp [untyped, size, totalSize_untypedAll children]
  | record _ _ _ _ true _ => by simp [untyped, size]

@[simp]
theorem totalSize_untypedAll : ∀ fs : List Field, totalSize (untypedAll fs) = totalSize fs
  | [] => by simp [untypedAll]
  | f :: fs => by simp [untypedAll, totalSize, size_untyped f, totalSize_untypedAll fs]

end

@[simp]
theorem stop_untyped (f : Field) : f.untyped.stop = f.stop := by
  have hstart : f.untyped.start = f.start := by cases f <;> simp [untyped, start]
  rw [stop, stop, hstart, size_untyped]

theorem widen_untyped (f : Field) : f.untyped.widen = f.widen.untyped := by
  cases f <;> simp [untyped, widen]

end Field

open StructPadding.Field (untypedAll_eq_map)
open StructPadding.Descriptor (isEmpty_untypedAll widest_untypedAll)

theorem gap_untyped (x y : UInt64) : Field.untypedAll (gap x y) = gap x y := by
  unfold gap
  split_ifs <;> simp [Field.untypedAll, Field.untyped]

theorem endOf_untyped (base : UInt64) (fs : List Field) :
    endOf base (Field.untypedAll fs) = endOf base fs := by
  rw [untypedAll_eq_map]
  unfold endOf
  rw [List.getLast?_map]
  cases fs.getLast? with
  | none => rfl
  | some f => exact Field.stop_untyped f

theorem widenLast_untyped : ∀ fs : List Field,
    widenLast (Field.untypedAll fs) = Field.untypedAll (widenLast fs)
  | [] => by simp [Field.untypedAll, widenLast]
  | [f] => by simp [Field.untypedAll, widenLast, Field.widen_untyped]
  | f :: g :: fs => by
    have ih := widenLast_untyped (g :: fs)
    rw [untypedAll_eq_map] at ih ⊢
    rw [List.map_cons, widenLast_cons (by simp), ih, widenLast_cons (List.cons_ne_nil g fs),
      Field.untypedAll]

theorem closeRecord_untyped (rule : RecordRule) (ds : List Descriptor) (base : UInt64)
    (fs : List Field) :
    closeRecord rule (Descriptor.untypedAll ds) base (Field.untypedAll fs) =
      (closeRecord rule ds base fs).map Field.untypedAll := by
  have halign : rule.alignment (Descriptor.untypedAll ds) = rule.alignment ds := by
    cases rule with
    | fixed n => rfl
    | natural => rw [RecordRule.alignment, RecordRule.alignment, widest_untypedAll]
  unfold closeRecord
  have hempty : (Field.untypedAll fs).isEmpty = fs.isEmpty := by simp [untypedAll_eq_map]
  rw [hempty, halign]
  split_ifs
  · simp [Except.map, Field.untypedAll]
  · rcases rule.alignment ds with e | a
    · rfl
    · simp only [bind, Except.bind, pure, Except.pure, Except.map, widenLast_untyped, endOf_untyped]
      rw [untypedAll_eq_map (_ ++ _), List.map_append, ← untypedAll_eq_map, ← untypedAll_eq_map,
        gap_untyped]

theorem untypedAll_gap_append (x y : UInt64) (f : Field) :
    Field.untypedAll (gap x y ++ [f]) = gap x y ++ [f.untyped] := by
  rw [untypedAll_eq_map, List.map_append, ← untypedAll_eq_map, gap_untyped]
  rfl

mutual

theorem placeField_untyped (rule : RecordRule) (offset : UInt64) : ∀ d : Descriptor,
    placeField rule offset d.untyped = (placeField rule offset d).map Field.untypedAll
  | .leaf name typeName size align => by
    have hcheck := (Descriptor.leaf name typeName size align).check_untyped
    rw [Descriptor.untyped] at hcheck ⊢
    rw [placeField, placeField, hcheck]
    rcases (Descriptor.leaf name typeName size align).check with e | a
    · rfl
    · simp only [bind, Except.bind, pure, Except.pure, Except.map, untypedAll_gap_append,
        Field.untyped]
  | .record name typeName size align children => by
    have hcheck := (Descriptor.record name typeName size align children).check_untyped
    rw [Descriptor.untyped] at hcheck ⊢
    rw [placeField, placeField, hcheck, isEmpty_untypedAll]
    rcases (Descriptor.record name typeName size align children).check with e | a
    · rfl
    · simp only [bind, Except.bind, placeSiblings_untyped rule _ children]
      split_ifs
      · simp only [pure, Except.pure, Except.map, untypedAll_gap_append, Field.untyped]
      · rcases placeSiblings rule (Measure.advance a offset) children with e | inner
        · rfl
        · simp only [Except.map, closeRecord_untyped]
          rcases closeRecord rule children (Measure.advance a offset) inner with e | closed
          · rfl
          · simp only [pure, Except.pure, untypedAll_gap_append, Field.untyped]

theorem placeSiblings_untyped (rule : RecordRule) : ∀ (offset : UInt64) (ds : List Descriptor),
    placeSiblings rule offset (Descriptor.untypedAll ds) =
      (placeSiblings rule offset ds).map Field.untypedAll
  | offset, [] => by
    rw [Descriptor.untypedAll, placeSiblings]
    simp [Except.map, Field.untypedAll]
  | offset, d :: ds => by
    rw [Descriptor.untypedAll, placeSiblings, placeSiblings, placeField_untyped rule offset d]
    rcases placeField rule offset d with e | placed
    · rfl
    · simp only [bind, Except.bind, Except.map, endOf_untyped, placeSiblings_untyped rule _ ds]
      rcases placeSiblings rule (endOf offset placed) ds with e | rest
      · rfl
      · simp only [pure, Except.pure]
        rw [untypedAll_eq_map (_ ++ _), List.map_append, ← untypedAll_eq_map, ← untypedAll_eq_map]

end

theorem place_untyped (rule : RecordRule) (ds : List Descriptor) (base : UInt64) :
    place rule (Descriptor.untypedAll ds) base = (place rule ds base).map Field.untypedAll := by
  rw [place, place, placeSiblings_untyped]
  rcases placeSiblings rule base ds with e | fs
  · rfl
  · exact closeRecord_untyped rule ds base fs

/-- Descriptors that differ in the spelling of types are placed alike. -/
theorem place_of_untyped {rule : RecordRule} {ds es : List Descriptor} {base : UInt64}
    {fs : List Field} (h : Descriptor.untypedAll ds = Descriptor.untypedAll es)
    (hfs : place rule ds base = .ok fs) :
    ∃ gs, place rule es base = .ok gs ∧ Field.untypedAll gs = Field.untypedAll fs := by
  have hes := place_untyped rule es base
  rw [← h, place_untyped, hfs] at hes
  rcases hplace : place rule es base with e | gs <;> rw [hplace] at hes
  · cases hes
  · exact ⟨gs, rfl, (Except.ok.inj hes).symm⟩

/-! ## Shapes -/

namespace Go

/-- A shape without the spelling of types. -/
def Shape.untyped : Shape → Shape
  | scalar size align => scalar size align
  | record fields size align => record (Descriptor.untypedAll fields) size align

theorem Shape.untyped_descriptor (name typeName : String) : ∀ shape : Shape,
    (shape.descriptor name typeName).untyped = shape.untyped.descriptor name ""
  | scalar .. => by simp [descriptor, untyped, Descriptor.untyped]
  | record [] .. => by simp [descriptor, untyped, Descriptor.untyped, Descriptor.untypedAll]
  | record (_ :: _) .. => by
    simp [descriptor, untyped, Descriptor.untyped, Descriptor.untypedAll]

theorem Shape.size_untyped (shape : Shape) : shape.untyped.size = shape.size := by
  cases shape <;> rfl

theorem Shape.align_untyped (shape : Shape) : shape.untyped.align = shape.align := by
  cases shape <;> rfl

namespace Scope

variable {s : Scope} {f : String → Except ResolveError Shape}

theorem descriptorsOf_cons_of_untyped {name typeName : String} {t : TypeExpr}
    {fields : List (FieldDecl TypeExpr)} {shape shape' : Shape} {ds es : List Descriptor}
    (embedded : Bool) (ht : s.shapeOf f t = .ok shape') (hshape : shape'.untyped = shape.untyped)
    (hes : s.descriptorsOf f fields = .ok es)
    (hds : Descriptor.untypedAll es = Descriptor.untypedAll ds) :
    ∃ es, s.descriptorsOf f (⟨name, t, embedded⟩ :: fields) = .ok es ∧
      Descriptor.untypedAll es = Descriptor.untypedAll (shape.descriptor name typeName :: ds) := by
  refine ⟨shape'.descriptor name t.text :: es,
    descriptorsOf_cons_eq_ok.2 ⟨shape', es, ht, hes, rfl⟩, ?_⟩
  rw [Descriptor.untypedAll, Descriptor.untypedAll, Shape.untyped_descriptor,
    Shape.untyped_descriptor, hshape, hds]

theorem recordShape_of_untyped {ds es : List Descriptor} {shape : Shape}
    (h : Descriptor.untypedAll ds = Descriptor.untypedAll es)
    (hshape : s.recordShape ds = .ok shape) :
    ∃ shape', s.recordShape es = .ok shape' ∧ shape'.untyped = shape.untyped := by
  obtain ⟨placed, hplaced, rfl⟩ := recordShape_eq_ok.1 hshape
  obtain ⟨placed', hplaced', huntyped⟩ := place_of_untyped h hplaced
  refine ⟨_, recordShape_eq_ok.2 ⟨placed', hplaced', rfl⟩, ?_⟩
  rw [Shape.untyped, Shape.untyped, h, ← Field.totalSize_untypedAll placed', huntyped,
    Field.totalSize_untypedAll, ← widest_untypedAll es, ← h, widest_untypedAll]

theorem shapeOf_readBack_true (t : TypeExpr) : s.shapeOf f (t.readBack true) = .ok s.pointer := by
  by_cases h : ∃ elem, t = .chan .recv elem
  · obtain ⟨elem, rfl⟩ := h
    simp only [TypeExpr.readBack]
    rfl
  · rw [TypeExpr.readBack_true fun elem helem => h ⟨elem, helem⟩]
    rfl

mutual

theorem shapeOf_readBack : ∀ {t : TypeExpr} {shape : Shape}, s.shapeOf f t = .ok shape →
    ∃ shape', s.shapeOf f (t.readBack false) = .ok shape' ∧ shape'.untyped = shape.untyped
  | .named _, shape, h | .qualified _ _, shape, h | .instantiated _, shape, h
  | .func _, shape, h | .interface _, shape, h => by
    simp only [TypeExpr.readBack, TypeExpr.channel]
    exact ⟨shape, h, rfl⟩
  | .pointer _, shape, h | .slice _, shape, h | .map _ _, shape, h
  | .chan .send _, shape, h | .chan .recv _, shape, h | .symbolicArray _ _, shape, h => by
    simp only [TypeExpr.readBack, TypeExpr.channel]
    exact ⟨shape, h, rfl⟩
  | .chan .both elem, shape, h => by
    rw [TypeExpr.readBack, TypeExpr.channel, shapeOf_readBack_true]
    exact ⟨shape, h, rfl⟩
  | .array length elem, shape, h => by
    rw [shapeOf_array, bind_eq_ok] at h
    obtain ⟨inner, hinner, h⟩ := h
    obtain ⟨inner', hinner', huntyped⟩ := shapeOf_readBack hinner
    split_ifs at h with hfits
    cases h
    rw [← Shape.size_untyped inner, ← huntyped, Shape.size_untyped] at hfits ⊢
    rw [← Shape.align_untyped inner, ← huntyped, Shape.align_untyped]
    refine ⟨_, ?_, rfl⟩
    rw [TypeExpr.readBack, TypeExpr.channel, shapeOf_array, hinner']
    exact if_pos hfits
  | .struct fields, shape, h => by
    rw [shapeOf_struct, bind_eq_ok] at h
    obtain ⟨ds, hds, h⟩ := h
    obtain ⟨es, hes, huntyped⟩ := descriptorsOf_readBackAll hds
    obtain ⟨shape', hshape', hsame⟩ := recordShape_of_untyped huntyped.symm h
    refine ⟨shape', ?_, hsame⟩
    rw [TypeExpr.readBack, TypeExpr.channel, shapeOf_struct, hes]
    exact hshape'

theorem descriptorsOf_readBackAll : ∀ {fields : List (FieldDecl TypeExpr)} {ds : List Descriptor},
    s.descriptorsOf f fields = .ok ds → ∃ es,
      s.descriptorsOf f (TypeExpr.readBackAll fields) = .ok es ∧
        Descriptor.untypedAll es = Descriptor.untypedAll ds
  | [], ds, h => by
    rw [TypeExpr.readBackAll]
    exact ⟨ds, h, rfl⟩
  | ⟨name, type, embedded⟩ :: fields, ds, h => by
    obtain ⟨shape, rest, hshape, hrest, rfl⟩ := descriptorsOf_cons_eq_ok.1 h
    obtain ⟨shape', hshape', huntyped⟩ := shapeOf_readBack hshape
    obtain ⟨rest', hrest', hsame⟩ := descriptorsOf_readBackAll hrest
    rw [TypeExpr.readBackAll]
    exact descriptorsOf_cons_of_untyped embedded hshape' huntyped hrest' hsame

end

end Scope

end Go

end StructPadding
