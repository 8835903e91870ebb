import StructPadding.Proofs.LeastSize

/-!
# The proposal as a normal form

What is proposed for a declaration can be read off the declaration itself (`arrangement`), without
placing it first: where records are aligned at least as much as their fields, the size that a record
is sorted by is the same wherever it stands (`reorderAll_of_place`). An arrangement is its own
arrangement, so a proposal is never improved on. If the names of neighbours differ, all orders of a
declaration have one arrangement, and so one proposal.
-/

namespace StructPadding

/-! ## The arrangement of a declaration -/

namespace Descriptor

variable (rule : RecordRule)

/-- Descriptors in the order that is proposed for fields of theirs. -/
def sort (ds : List Descriptor) : List Descriptor :=
  sortBy (fixedSize rule) (fun d => d.align.toInt.toNat) name ds

mutual

/-- A descriptor as it enters the proposal: the fields of an inline record are sorted. -/
def rearrange : Descriptor → Descriptor
  | leaf name typeName size align => leaf name typeName size align
  | record name typeName size align children =>
    if Field.spelledOut typeName then
      record name typeName size align (sort rule (rearrangeAll children))
    else record name typeName size align children

def rearrangeAll : List Descriptor → List Descriptor
  | [] => []
  | d :: ds => d.rearrange :: rearrangeAll ds

end

/-- The order of a declaration that is proposed for it. -/
def arrangement (ds : List Descriptor) : List Descriptor :=
  sort rule (rearrangeAll rule ds)

theorem sort_perm (ds : List Descriptor) : (sort rule ds).Perm ds :=
  sortBy_perm _ _ _ ds

theorem rearrangeAll_eq_map (ds : List Descriptor) :
    rearrangeAll rule ds = ds.map (rearrange rule) := by
  induction ds with
  | nil => rw [rearrangeAll, List.map_nil]
  | cons d ds ih => rw [rearrangeAll, List.map_cons, ih]

theorem rearrange_of_inline {d : Descriptor} (h : d.Inline) :
    d.rearrange rule =
      record d.name d.typeName d.size d.align (arrangement rule d.children) := by
  rcases d with _ | ⟨name, typeName, size, align, children⟩
  · exact absurd rfl h.1
  · obtain ⟨-, hspelled⟩ := h
    rw [rearrange, if_pos (show Field.spelledOut typeName from hspelled)]
    rfl

theorem rearrange_of_not_inline {d : Descriptor} (h : ¬d.Inline) : d.rearrange rule = d := by
  rcases d with _ | ⟨name, typeName, size, align, children⟩
  · rw [rearrange]
  · rw [rearrange]
    split_ifs with hspelled
    · obtain rfl : children = [] := by
        by_contra hne
        exact h ⟨hne, hspelled⟩
      rw [rearrangeAll, sort, sortBy, List.mergeSort_nil]
    · rfl

/-! ### It keeps the fields -/

theorem reorders_sort {ds es : List Descriptor} (h : List.Forall₂ Alike ds es) :
    Reorders ds (sort rule es) :=
  (reorders_iff.2 ⟨ds, .refl ds, h⟩).trans (.of_perm (sort_perm rule es).symm)

mutual

theorem alike_rearrange : ∀ d : Descriptor, d.Alike (d.rearrange rule)
  | leaf .. => by
    rw [rearrange]
    exact .same _
  | record name typeName size align children => by
    rw [rearrange]
    split_ifs with hinline
    · exact .inner name size align hinline (reorders_sort rule (alike_rearrangeAll children))
    · exact .same _

theorem alike_rearrangeAll : ∀ ds : List Descriptor, List.Forall₂ Alike ds (rearrangeAll rule ds)
  | [] => by
    rw [rearrangeAll]
    exact .nil
  | d :: ds => by
    rw [rearrangeAll]
    exact .cons (alike_rearrange d) (alike_rearrangeAll ds)

end

theorem reorders_rearrangeAll (ds : List Descriptor) : Reorders ds (rearrangeAll rule ds) :=
  reorders_iff.2 ⟨ds, .refl ds, alike_rearrangeAll rule ds⟩

theorem reorders_arrangement (ds : List Descriptor) : Reorders ds (arrangement rule ds) :=
  reorders_sort rule (alike_rearrangeAll rule ds)

/-! ### It does nothing more the second time -/

theorem sort_sort (ds : List Descriptor) : sort rule (sort rule ds) = sort rule ds :=
  sortBy_sortBy _ _ _ ds

theorem rearrangeAll_sort {ds : List Descriptor} (h : ∀ d ∈ ds, d.rearrange rule = d) :
    rearrangeAll rule (sort rule ds) = sort rule ds := by
  rw [rearrangeAll_eq_map]
  refine (List.map_congr_left fun d hd => ?_).trans (List.map_id _)
  exact h d ((sort_perm rule ds).mem_iff.1 hd)

mutual

theorem rearrange_rearrange : ∀ d : Descriptor,
    (d.rearrange rule).rearrange rule = d.rearrange rule
  | leaf .. => by rw [rearrange, rearrange]
  | record name typeName size align children => by
    rw [rearrange]
    split_ifs with hinline
    · rw [rearrange, if_pos hinline, rearrangeAll_sort rule (rearrange_of_mem children), sort_sort]
    · rw [rearrange, if_neg hinline]

theorem rearrange_of_mem : ∀ (ds : List Descriptor), ∀ e ∈ rearrangeAll rule ds,
    e.rearrange rule = e
  | [], e, he => by
    rw [rearrangeAll] at he
    cases he
  | d :: ds, e, he => by
    rw [rearrangeAll] at he
    rcases List.mem_cons.1 he with rfl | he
    · exact rearrange_rearrange d
    · exact rearrange_of_mem ds e he

end

theorem arrangement_arrangement (ds : List Descriptor) :
    arrangement rule (arrangement rule ds) = arrangement rule ds := by
  unfold arrangement
  rw [rearrangeAll_sort rule (rearrange_of_mem rule ds), sort_sort]

end Descriptor

open Descriptor (arrangement)

/-! ## Placing the arrangement -/

theorem Reorders.everywhere_enclosing {ds es : List Descriptor} (h : Reorders ds es)
    (hds : Everywhere Descriptor.Enclosing ds) : Everywhere Descriptor.Enclosing es := by
  refine h.everywhere (fun name typeName size align cs cs' hcs hd => ?_) hds
  refine ⟨⟨hd.valid.size, hd.valid.align⟩, fun e he => ?_⟩
  have haligns := hcs.map_perm Descriptor.Alike.align
  obtain ⟨d, hmem, heq⟩ := List.mem_map.1 (haligns.mem_iff.2 (List.mem_map_of_mem he))
  rw [← heq]
  exact hd.inner d hmem

/-- What can be placed in one order can be placed in every other. -/
theorem Reorders.exists_place {ω ω' : Type} [Measure ω] [Measure ω'] {rule : RecordRule}
    {ds es : List Descriptor} {base : ω} {fs : List (Field ω)} (h : Reorders ds es)
    (hfs : place rule ds base = .ok fs) (base' : ω') : ∃ gs, place rule es base' = .ok gs := by
  obtain ⟨hvalid, hsound⟩ := place_ok_iff.1 ⟨fs, hfs⟩
  exact place_ok_iff.2 ⟨h.everywhere_valid hvalid, fun hne => hsound fun hnil =>
    hne (h.eq_nil_iff.1 hnil)⟩

/-- A field with the descriptor `d` and, to sort by, what `d` has of its own. -/
structure Keyed (rule : RecordRule) (f : Field Nat) (d : Descriptor) : Prop where
  descriptor : f.toDescriptor = .ok (some d.plain)
  size : f.declared = d.fixedSize rule
  align : f.alignBytes = d.align.toInt.toNat
  name : f.name = d.name

theorem keyed_record {rule : RecordRule} {d : Descriptor} {a : Alignment} {base : Nat}
    {inner : List (Field Nat)} (start : Nat) (widened : Bool) (hd : d.Enclosing)
    (hnested : Everywhere Descriptor.Enclosing d.children) (hrecord : d.children ≠ [])
    (hcheck : d.check = .ok a) (hbase : a.bytes ∣ base)
    (hinner : place rule d.children base = .ok inner) :
    Keyed rule (.record d.name d.typeName start a widened inner) d where
  descriptor := toDescriptor_record start widened hrecord hcheck
    (describes_of_place hinner).toDescriptors
  size := by
    rw [← Descriptor.align_of_check hcheck] at hbase
    rw [fixedSize_record hd hnested hrecord hbase hinner, Field.declared]
  align := (Descriptor.align_of_check hcheck).symm
  name := rfl

theorem Realises.keyed {rule : RecordRule} {d : Descriptor} {f : Field Nat}
    (h : Realises rule d f) (hd : d.Enclosing)
    (hnested : Everywhere Descriptor.Enclosing d.children) : Keyed rule f d := by
  cases h with
  | leaf start size hleaf hcheck =>
    exact ⟨toDescriptor_leaf start size hleaf hcheck, (fixedSize_leaf hleaf).symm,
      (Descriptor.align_of_check hcheck).symm, rfl⟩
  | @record a inner offset widened hrecord hcheck hinner =>
    have hstart : a.bytes ∣ Measure.advance a offset := by
      rw [Measure.advance_nat]
      exact a.dvd_roundUp offset
    exact keyed_record _ widened hd hnested hrecord hcheck hstart hinner

/-- What fields are proposed as, given what they are sorted by. -/
theorem reorderAll_of_keyed {rule : RecordRule} {ds : List Descriptor}
    {fs gs placed : List (Field Nat)} (hgs : Field.rearrangeAll rule fs = .ok gs)
    (h : List.Forall₂ (Keyed rule) gs (Descriptor.rearrangeAll rule ds))
    (hplaced : place rule (arrangement rule ds) 0 = .ok placed) :
    Field.reorderAll rule fs = .ok placed := by
  have hsorted : List.Forall₂ (Keyed rule) (Field.sort gs) (arrangement rule ds) :=
    sortBy_forall₂ (fun _ _ hd => hd.size) (fun _ _ hd => hd.align) (fun _ _ hd => hd.name) h
  have hdescriptors := toDescriptors_of_forall₂ (hsorted.imp fun _ _ hd => hd.descriptor)
  exact reorderAll_eq_ok.2 ⟨gs, _, hgs, hdescriptors, place_plainAll hplaced⟩

theorem enclosing_rearrange (rule : RecordRule) {d : Descriptor} (hd : d.Enclosing)
    (hnested : Everywhere Descriptor.Enclosing d.children) :
    (d.rearrange rule).Enclosing ∧
      Everywhere Descriptor.Enclosing (d.rearrange rule).children := by
  have hone := (Descriptor.reorders_rearrangeAll rule [d]).everywhere_enclosing
    (.cons hd hnested .nil)
  rw [Descriptor.rearrangeAll] at hone
  rcases hone with _ | ⟨hd', hnested', -⟩
  exact ⟨hd', hnested'⟩

/-- What placed fields are proposed as, if they are known to get into the proposal. -/
theorem reorderAll_of_exists_keyed {rule : RecordRule} {ds : List Descriptor} {base : Nat}
    {fs : List (Field Nat)} (h : place rule ds base = .ok fs)
    (hkeyed : ∀ {fs : List (Field Nat)}, List.Forall₂ (Realises rule) ds fs →
      ∃ gs, Field.rearrangeAll rule fs = .ok gs ∧
        List.Forall₂ (Keyed rule) gs (Descriptor.rearrangeAll rule ds)) :
    ∃ placed, place rule (arrangement rule ds) (0 : Nat) = .ok placed ∧
      Field.reorderAll rule fs = .ok placed := by
  obtain ⟨placed, hplaced⟩ := (Descriptor.reorders_arrangement rule ds).exists_place h (0 : Nat)
  obtain ⟨gs, hgs, hsame⟩ := hkeyed (realises_of_place h)
  rw [rearrangeAll_unpadded] at hgs
  exact ⟨placed, hplaced, reorderAll_of_keyed hgs hsame hplaced⟩

/-- One field on its way into the proposal, if the fields in it are known to get there. -/
theorem Realises.exists_keyed {rule : RecordRule} {d : Descriptor} {f : Field Nat}
    (h : Realises rule d f) (hd : d.Enclosing)
    (hnested : Everywhere Descriptor.Enclosing d.children)
    (ih : ∀ {fs : List (Field Nat)}, List.Forall₂ (Realises rule) d.children fs →
      ∃ gs, Field.rearrangeAll rule fs = .ok gs ∧
        List.Forall₂ (Keyed rule) gs (Descriptor.rearrangeAll rule d.children)) :
    ∃ g, f.rearrange rule = .ok g ∧ Keyed rule g (d.rearrange rule) := by
  by_cases hinline : d.Inline
  · have hfield := h.isInlineRecord_iff.2 hinline
    cases h with
    | leaf start size hleaf => exact absurd hleaf hinline.1
    | @record a inner offset widened hrecord hcheck hinner =>
      obtain ⟨placed, hplaced, hdone⟩ := reorderAll_of_exists_keyed hinner ih
      obtain ⟨hd', hnested'⟩ := enclosing_rearrange rule hd hnested
      have hrecord' : arrangement rule d.children ≠ [] := fun hnil =>
        hrecord ((Descriptor.reorders_arrangement rule d.children).eq_nil_iff.2 hnil)
      rw [Descriptor.rearrange_of_inline rule hinline] at hd' hnested' ⊢
      refine ⟨_, ?_, keyed_record (Measure.advance a offset) false hd' hnested' hrecord' hcheck
        (Nat.dvd_zero a.bytes) hplaced⟩
      rw [rearrange_inline hfield, hdone]
      rfl
  · rw [Descriptor.rearrange_of_not_inline rule hinline]
    exact ⟨f, h.rearrange_of_not_inline hinline, h.keyed hd hnested⟩

theorem exists_keyed {rule : RecordRule} {ds : List Descriptor}
    (hds : Everywhere Descriptor.Enclosing ds) :
    ∀ {fs : List (Field Nat)}, List.Forall₂ (Realises rule) ds fs →
      ∃ gs, Field.rearrangeAll rule fs = .ok gs ∧
        List.Forall₂ (Keyed rule) gs (Descriptor.rearrangeAll rule ds) := by
  induction hds with
  | nil =>
    rintro _ ⟨⟩
    exact ⟨[], by rw [Field.rearrangeAll], by rw [Descriptor.rearrangeAll]; exact .nil⟩
  | cons head nested _ ihNested ihTail =>
    rintro _ (_ | ⟨hf, hfs⟩)
    obtain ⟨g, hg, hkeyed⟩ := hf.exists_keyed head nested ihNested
    obtain ⟨gs, hgs, hkeyedTail⟩ := ihTail hfs
    rw [Descriptor.rearrangeAll]
    exact ⟨g :: gs, rearrangeAll_cons_of hf.isPadding hg hgs, .cons hkeyed hkeyedTail⟩

/-- What is proposed for placed fields is the arrangement of their declaration. -/
theorem reorderAll_of_place {rule : RecordRule} {ds : List Descriptor} {base : Nat}
    {fs : List (Field Nat)} (hds : Everywhere Descriptor.Enclosing ds)
    (h : place rule ds base = .ok fs) :
    ∃ placed, place rule (arrangement rule ds) (0 : Nat) = .ok placed ∧
      Field.reorderAll rule fs = .ok placed :=
  reorderAll_of_exists_keyed h (exists_keyed hds)

/-! ## One proposal for all orders -/

/-- Neighbours have different names, here and in the inline records reached from here. -/
inductive Distinct : List Descriptor → Prop
  | mk {ds : List Descriptor} (names : (ds.map Descriptor.name).Nodup)
    (inner : ∀ d ∈ ds, Field.spelledOut d.typeName → Distinct d.children) : Distinct ds

theorem distinct_cons {d : Descriptor} {ds : List Descriptor} : Distinct (d :: ds) ↔
    d.name ∉ ds.map Descriptor.name ∧ (Field.spelledOut d.typeName → Distinct d.children) ∧
      Distinct ds := by
  constructor
  · rintro ⟨hnames, hinner⟩
    obtain ⟨hd, hds⟩ := List.nodup_cons.1 hnames
    obtain ⟨hhead, htail⟩ := List.forall_mem_cons.1 hinner
    exact ⟨hd, hhead, .mk hds htail⟩
  · rintro ⟨hd, hhead, ⟨hds, htail⟩⟩
    exact .mk (List.nodup_cons.2 ⟨hd, hds⟩) (List.forall_mem_cons.2 ⟨hhead, htail⟩)

theorem Reorders.names_perm {ds es : List Descriptor} (h : Reorders ds es) :
    (ds.map Descriptor.name).Perm (es.map Descriptor.name) :=
  h.map_perm Descriptor.Alike.name

theorem Reorders.distinct {ds es : List Descriptor} (h : Reorders ds es) :
    Distinct ds → Distinct es := by
  induction h with
  | nil => exact id
  | cons d tail ih =>
    rw [distinct_cons, distinct_cons, tail.names_perm.mem_iff]
    exact fun ⟨hd, hhead, hds⟩ => ⟨hd, hhead, ih hds⟩
  | inner name size align hinline _ tail ihNested ihTail =>
    rw [distinct_cons, distinct_cons, tail.names_perm.mem_iff]
    exact fun ⟨hd, hhead, hds⟩ => ⟨hd, fun h => ihNested (hhead h), ihTail hds⟩
  | swap d e ds =>
    simp only [distinct_cons, List.map_cons, List.mem_cons, not_or]
    exact fun ⟨⟨hde, hd⟩, hheadd, he, hheade, hds⟩ =>
      ⟨⟨Ne.symm hde, he⟩, hheade, hd, hheadd, hds⟩
  | trans _ _ ihLeft ihRight => exact fun hds => ihRight (ihLeft hds)

namespace Descriptor

variable (rule : RecordRule)

theorem sort_eq_of_perm {ds es : List Descriptor} (hds : Distinct ds)
    (h : (rearrangeAll rule ds).Perm (rearrangeAll rule es)) :
    sort rule (rearrangeAll rule ds) = sort rule (rearrangeAll rule es) := by
  obtain ⟨hnames, -⟩ := hds
  have hperm := (reorders_rearrangeAll rule ds).names_perm
  exact sortBy_eq_of_perm (hperm.nodup_iff.1 hnames) h

end Descriptor

theorem Reorders.rearrangeAll_perm (rule : RecordRule) {ds es : List Descriptor}
    (h : Reorders ds es) : Distinct ds →
      (Descriptor.rearrangeAll rule ds).Perm (Descriptor.rearrangeAll rule es) := by
  induction h with
  | nil => exact fun _ => .refl _
  | cons d _ ih =>
    intro hds
    obtain ⟨-, -, htail⟩ := distinct_cons.1 hds
    rw [Descriptor.rearrangeAll, Descriptor.rearrangeAll]
    exact (ih htail).cons _
  | @inner typeName children children' ds es name size align hinline _ _ ihNested ihTail =>
    intro hds
    obtain ⟨-, hhead, htail⟩ := distinct_cons.1 hds
    -- the fields of the record are sorted from the same ones, so they come out the same
    have hnested : Distinct children := hhead hinline
    rw [Descriptor.rearrangeAll, Descriptor.rearrangeAll, Descriptor.rearrange,
      Descriptor.rearrange, if_pos hinline, if_pos hinline,
      Descriptor.sort_eq_of_perm rule hnested (ihNested hnested)]
    exact (ihTail htail).cons _
  | swap d e ds =>
    intro _
    simp only [Descriptor.rearrangeAll]
    exact .swap _ _ _
  | trans left _ ihLeft ihRight => exact fun hds => (ihLeft hds).trans (ihRight (left.distinct hds))

/-- All orders of a declaration have one arrangement. -/
theorem Reorders.arrangement (rule : RecordRule) {ds es : List Descriptor} (h : Reorders ds es)
    (hds : Distinct ds) : arrangement rule ds = arrangement rule es :=
  Descriptor.sort_eq_of_perm rule hds (h.rearrangeAll_perm rule hds)

end StructPadding
