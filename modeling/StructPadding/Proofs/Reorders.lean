import Mathlib.Data.List.Perm.Basic
import StructPadding.Proofs.Conservation

/-!
# Reorderings of a declaration

A declaration may have its fields in any order, and so may the inline records in it; the fields of
any other record stay (`Reorders`). A reordering keeps the alignment of every record and what its
leaves ask for. It also keeps every number that is summed up field by field, with the inline records
summed up in the same way (`Reorders.tallyAll`).
-/

namespace StructPadding

open Descriptor (contentAll)

/-- The same fields in another order, here and in the inline records reached from here. -/
inductive Reorders : List Descriptor → List Descriptor → Prop
  | nil : Reorders [] []
  | cons (d : Descriptor) {ds es : List Descriptor} (tail : Reorders ds es) :
    Reorders (d :: ds) (d :: es)
  | inner {typeName : String} {children children' ds es : List Descriptor} (name : String)
    (size align : Int64) (hinline : Field.spelledOut typeName)
    (nested : Reorders children children') (tail : Reorders ds es) :
    Reorders (.record name typeName size align children :: ds)
      (.record name typeName size align children' :: es)
  | swap (d e : Descriptor) (ds : List Descriptor) : Reorders (d :: e :: ds) (e :: d :: ds)
  | trans {ds es gs : List Descriptor} (left : Reorders ds es) (right : Reorders es gs) :
    Reorders ds gs

namespace Reorders

variable {ds es : List Descriptor}

theorem symm (h : Reorders ds es) : Reorders es ds := by
  induction h with
  | nil => exact .nil
  | cons d _ ih => exact .cons d ih
  | inner name size align hinline _ _ ihNested ihTail =>
    exact .inner name size align hinline ihNested ihTail
  | swap d e ds => exact .swap e d ds
  | trans _ _ ihLeft ihRight => exact .trans ihRight ihLeft

theorem of_perm (h : ds.Perm es) : Reorders ds es := by
  induction h with
  | nil => exact .nil
  | cons d _ ih => exact .cons d ih
  | swap d e ds => exact .swap e d ds
  | trans _ _ ihLeft ihRight => exact .trans ihLeft ihRight

theorem refl (ds : List Descriptor) : Reorders ds ds :=
  of_perm (.refl ds)

theorem append_left (gs : List Descriptor) (h : Reorders ds es) :
    Reorders (gs ++ ds) (gs ++ es) := by
  induction gs with
  | nil => exact h
  | cons d gs ih => exact .cons d ih

theorem append_right (gs : List Descriptor) (h : Reorders ds es) :
    Reorders (ds ++ gs) (es ++ gs) := by
  induction h with
  | nil => exact refl gs
  | cons d _ ih => exact .cons d ih
  | inner name size align hinline nested _ _ ih =>
    exact .inner name size align hinline nested ih
  | swap d e ds => exact .swap d e (ds ++ gs)
  | trans _ _ ihLeft ihRight => exact .trans ihLeft ihRight

theorem append {ds' es' : List Descriptor} (h : Reorders ds es) (h' : Reorders ds' es') :
    Reorders (ds ++ ds') (es ++ es') :=
  .trans (h.append_right ds') (h'.append_left es)

theorem length_eq (h : Reorders ds es) : ds.length = es.length := by
  induction h with
  | nil => rfl
  | cons d _ ih => rw [List.length_cons, List.length_cons, ih]
  | inner name size align hinline _ _ _ ih => rw [List.length_cons, List.length_cons, ih]
  | swap d e ds => rfl
  | trans _ _ ihLeft ihRight => rw [ihLeft, ihRight]

theorem eq_nil_iff (h : Reorders ds es) : ds = [] ↔ es = [] := by
  rw [← List.length_eq_zero_iff, ← List.length_eq_zero_iff, h.length_eq]

theorem isEmpty_eq (h : Reorders ds es) : ds.isEmpty = es.isEmpty := by
  rw [Bool.eq_iff_iff, List.isEmpty_iff, List.isEmpty_iff, h.eq_nil_iff]

theorem widest (h : Reorders ds es) : RecordRule.widest ds = RecordRule.widest es := by
  induction h with
  | nil => rfl
  | cons d _ ih => rw [RecordRule.widest, RecordRule.widest, ih]
  | inner name size align hinline _ _ _ ih =>
    rw [RecordRule.widest, RecordRule.widest, ih]
    rfl
  | swap d e ds =>
    simp only [RecordRule.widest]
    exact Nat.max_left_comm _ _ _
  | trans _ _ ihLeft ihRight => rw [ihLeft, ihRight]

theorem alignment (rule : RecordRule) (h : Reorders ds es) :
    rule.alignment ds = rule.alignment es := by
  cases rule with
  | fixed n => rfl
  | natural => rw [RecordRule.alignment, RecordRule.alignment, h.widest]

theorem contentAll (h : Reorders ds es) : contentAll ds = contentAll es := by
  induction h with
  | nil => rfl
  | cons d _ ih => rw [Descriptor.contentAll, Descriptor.contentAll, ih]
  | inner name size align hinline nested _ ihNested ihTail =>
    rw [Descriptor.contentAll, Descriptor.contentAll, Descriptor.content, Descriptor.content,
      nested.isEmpty_eq, ihNested, ihTail]
  | swap d e ds =>
    simp only [Descriptor.contentAll]
    omega
  | trans _ _ ihLeft ihRight => rw [ihLeft, ihRight]

/-- A property of every descriptor that a record keeps when its fields are reordered. -/
theorem everywhere {P : Descriptor → Prop}
    (hP : ∀ name typeName size align children children', Reorders children children' →
      P (.record name typeName size align children) →
      P (.record name typeName size align children'))
    (h : Reorders ds es) : Everywhere P ds → Everywhere P es := by
  induction h with
  | nil => exact id
  | cons d _ ih =>
    rintro (_ | ⟨hd, hnested, htail⟩)
    exact .cons hd hnested (ih htail)
  | inner name size align hinline nested _ ihNested ihTail =>
    rintro (_ | ⟨hd, hnested, htail⟩)
    exact .cons (hP _ _ _ _ _ _ nested hd) (ihNested hnested) (ihTail htail)
  | swap d e ds =>
    rintro (_ | ⟨hd, hdNested, _ | ⟨he, heNested, htail⟩⟩)
    exact .cons he heNested (.cons hd hdNested htail)
  | trans _ _ ihLeft ihRight => exact fun hds => ihRight (ihLeft hds)

theorem everywhere_valid (h : Reorders ds es) (hds : Everywhere Descriptor.Valid ds) :
    Everywhere Descriptor.Valid es :=
  h.everywhere (fun _ _ _ _ _ _ _ hd => ⟨hd.size, hd.align⟩) hds

end Reorders

/-- One field before and after a reordering: it is the same, but for the order inside if it is an
inline record. -/
inductive Descriptor.Alike : Descriptor → Descriptor → Prop
  | same (d : Descriptor) : Alike d d
  | inner {typeName : String} {children children' : List Descriptor} (name : String)
    (size align : Int64) (hinline : Field.spelledOut typeName)
    (nested : Reorders children children') :
    Alike (.record name typeName size align children) (.record name typeName size align children')

theorem Descriptor.Alike.trans {d e g : Descriptor} (h : d.Alike e) (h' : e.Alike g) :
    d.Alike g := by
  cases h with
  | same => exact h'
  | inner name size align hinline nested =>
    cases h' with
    | same => exact .inner name size align hinline nested
    | inner _ _ _ _ nested' => exact .inner name size align hinline (nested.trans nested')

theorem Descriptor.Alike.name {d e : Descriptor} (h : d.Alike e) : d.name = e.name := by
  cases h <;> rfl

theorem Descriptor.Alike.align {d e : Descriptor} (h : d.Alike e) : d.align = e.align := by
  cases h <;> rfl

theorem alikeAll_trans : ∀ {ds es gs : List Descriptor}, List.Forall₂ Descriptor.Alike ds es →
    List.Forall₂ Descriptor.Alike es gs → List.Forall₂ Descriptor.Alike ds gs
  | _, _, _, .nil, .nil => .nil
  | _, _, _, .cons hd htail, .cons hd' htail' => .cons (hd.trans hd') (alikeAll_trans htail htail')

/-- A reordering is a permutation of fields that are then reordered inside. -/
theorem reorders_iff {ds es : List Descriptor} :
    Reorders ds es ↔ ∃ gs, ds.Perm gs ∧ List.Forall₂ Descriptor.Alike gs es := by
  constructor
  · intro h
    induction h with
    | nil => exact ⟨[], .nil, .nil⟩
    | cons d _ ih =>
      obtain ⟨gs, hperm, halike⟩ := ih
      exact ⟨d :: gs, hperm.cons d, .cons (.same d) halike⟩
    | inner name size align hinline nested _ _ ih =>
      obtain ⟨gs, hperm, halike⟩ := ih
      exact ⟨_ :: gs, hperm.cons _, .cons (.inner name size align hinline nested) halike⟩
    | swap d e ds =>
      exact ⟨e :: d :: ds, .swap e d ds, List.forall₂_same.2 fun g _ => .same g⟩
    | trans _ _ ihLeft ihRight =>
      -- the second permutation moves in front of the changes inside
      obtain ⟨gs, hperm, halike⟩ := ihLeft
      obtain ⟨gs', hperm', halike'⟩ := ihRight
      have hcomp : Relation.Comp (List.Forall₂ Descriptor.Alike) List.Perm gs gs' :=
        ⟨_, halike, hperm'⟩
      rw [List.forall₂_comp_perm_eq_perm_comp_forall₂] at hcomp
      obtain ⟨fs, hfs, hfsAlike⟩ := hcomp
      exact ⟨fs, hperm.trans hfs, alikeAll_trans hfsAlike halike'⟩
  · rintro ⟨gs, hperm, halike⟩
    refine (Reorders.of_perm hperm).trans ?_
    clear hperm
    induction halike with
    | nil => exact .nil
    | cons hd _ ih =>
      cases hd with
      | same => exact .cons _ ih
      | inner name size align hinline nested => exact .inner name size align hinline nested ih

theorem Reorders.map_perm {β : Type} {key : Descriptor → β}
    (hkey : ∀ {d e : Descriptor}, d.Alike e → key d = key e) {ds es : List Descriptor}
    (h : Reorders ds es) : (ds.map key).Perm (es.map key) := by
  obtain ⟨gs, hperm, halike⟩ := reorders_iff.1 h
  have hsame : gs.map key = es.map key := by
    rw [← List.forall₂_eq_eq_eq, List.forall₂_map_left_iff, List.forall₂_map_right_iff]
    exact halike.imp fun _ _ hd => hkey hd
  exact hsame ▸ hperm.map key

/-! ## Sums over the fields of a declaration -/

namespace Descriptor

/-- A record whose fields may be reordered. -/
def Inline (d : Descriptor) : Prop :=
  d.children ≠ [] ∧ Field.spelledOut d.typeName

section Tally

variable (own : Descriptor → Nat) (close : List Descriptor → Nat → Nat)

mutual

/-- The number of a field: `own`, and for an inline record what `close` makes of the sum over its
fields. -/
def tally : Descriptor → Nat
  | leaf name typeName size align => own (leaf name typeName size align)
  | record name typeName size align children =>
    if !children.isEmpty && Field.spelledOut typeName then close children (tallyAll children)
    else own (record name typeName size align children)

def tallyAll : List Descriptor → Nat
  | [] => 0
  | d :: ds => d.tally + tallyAll ds

end

theorem tally_of_inline {d : Descriptor} (h : d.Inline) :
    d.tally own close = close d.children (tallyAll own close d.children) := by
  rcases d with _ | ⟨name, typeName, size, align, children⟩
  · exact absurd rfl h.1
  · obtain ⟨hne, hspelled⟩ := h
    have hcond : (!children.isEmpty && Field.spelledOut typeName) = true := by
      simpa using ⟨hne, hspelled⟩
    rw [tally, if_pos hcond]
    rfl

theorem tally_of_not_inline {d : Descriptor} (h : ¬d.Inline) : d.tally own close = own d := by
  rcases d with _ | ⟨name, typeName, size, align, children⟩
  · rw [tally]
  · have hnot : ¬(children ≠ [] ∧ Field.spelledOut typeName) := h
    have hcond : ¬(!children.isEmpty && Field.spelledOut typeName) = true := by
      simpa using hnot
    rw [tally, if_neg hcond]

end Tally

end Descriptor

/-- Reordering keeps a sum if it keeps what inline records make of theirs. -/
theorem Reorders.tallyAll {own : Descriptor → Nat} {close : List Descriptor → Nat → Nat}
    (hclose : ∀ {cs cs' : List Descriptor} (n : Nat), Reorders cs cs' → close cs n = close cs' n)
    {ds es : List Descriptor} (h : Reorders ds es) :
    Descriptor.tallyAll own close ds = Descriptor.tallyAll own close es := by
  induction h with
  | nil => rfl
  | cons d _ ih => rw [Descriptor.tallyAll, Descriptor.tallyAll, ih]
  | @inner typeName children children' ds es name size align hinline nested _ ihNested ihTail =>
    rw [Descriptor.tallyAll, Descriptor.tallyAll, ihTail]
    by_cases hne : children = []
    · obtain rfl : children' = [] := nested.eq_nil_iff.1 hne
      rw [hne]
    · have hne' : children' ≠ [] := fun hnil => hne (nested.eq_nil_iff.2 hnil)
      have hd : (Descriptor.record name typeName size align children).Inline := ⟨hne, hinline⟩
      have he : (Descriptor.record name typeName size align children').Inline := ⟨hne', hinline⟩
      rw [Descriptor.tally_of_inline own close hd, Descriptor.tally_of_inline own close he]
      simp only [Descriptor.children]
      rw [ihNested, hclose _ nested]
  | swap d e ds =>
    simp only [Descriptor.tallyAll]
    omega
  | trans _ _ ihLeft ihRight => rw [ihLeft, ihRight]

end StructPadding
