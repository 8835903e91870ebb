import Mathlib.Data.List.Perm.Basic
import StructPadding.Proofs.Reorders
import StructPadding.Proofs.Sorted

/-!
# The proposed order

The proposal for placed fields is a reordering of their descriptors, placed again
(`reorder_places`). In numbers every list that may be reordered then has its leaves of no size first
and falling alignments after them (`Arranged`, `reorderAll_arranged`). One induction gives both: it
follows a relation between fields and descriptors through the sorting (`Sorting`).
-/

namespace StructPadding

open Descriptor (plain plainAll)

/-! ## Arranged descriptors -/

namespace Descriptor

/-- What the proposed order says about two descriptors. -/
def Precedes (d e : Descriptor) : Prop :=
  d.Void ∨ ¬e.Void ∧ e.align.toInt.toNat ≤ d.align.toInt.toNat

end Descriptor

/-- Descriptors in the proposed order, and so are the fields of the inline records. -/
inductive Arranged : List Descriptor → Prop
  | mk {ds : List Descriptor} (sorted : ds.Pairwise Descriptor.Precedes)
    (inner : ∀ d ∈ ds, Field.spelledOut d.typeName → Arranged d.children) : Arranged ds

theorem arranged_nil : Arranged [] :=
  .mk .nil (by simp)

theorem Arranged.tail {d : Descriptor} {ds : List Descriptor} (h : Arranged (d :: ds)) :
    Arranged ds := by
  obtain ⟨hsorted, hinner⟩ := h
  exact .mk hsorted.tail fun e he => hinner e (List.mem_cons_of_mem _ he)

/-- An arranged record that ends in a leaf of no size has nothing else. -/
theorem void_of_widening : ∀ {ds : List Descriptor}, ds.Pairwise Descriptor.Precedes →
    Descriptor.widening ds ≠ 0 → ∀ d ∈ ds, d.Void
  | [], _, h, d, hd => by simp at hd
  | [e], _, h, d, hd => by
    rw [List.mem_singleton.1 hd]
    simpa [Descriptor.widening] using h
  | e :: e' :: ds, hsorted, h, d, hd => by
    have hrest := void_of_widening hsorted.tail h
    rcases List.mem_cons.1 hd with rfl | hd
    · have hprecedes := (List.pairwise_cons.1 hsorted).1 e' List.mem_cons_self
      rcases hprecedes with hvoid | ⟨hnot, -⟩
      · exact hvoid
      · exact absurd (hrest e' List.mem_cons_self) hnot
    · exact hrest d hd

/-! ## The proposal -/

section

variable {ω : Type} [Measure ω]

/-- Fields sorted and placed again from the start, those of inline records before the others. -/
def Field.reorderAll (rule : RecordRule) (fs : List (Field ω)) :
    Except LayoutError (List (Field ω)) := do
  let gs ← rearrangeAll rule fs
  let ds ← toDescriptors (sort gs)
  place rule ds 0

theorem reorderAll_eq_ok {rule : RecordRule} {fs placed : List (Field ω)} :
    Field.reorderAll rule fs = .ok placed ↔ ∃ gs ds, Field.rearrangeAll rule fs = .ok gs ∧
      Field.toDescriptors (Field.sort gs) = .ok ds ∧ place rule ds 0 = .ok placed := by
  unfold Field.reorderAll
  simp only [bind_eq_ok]
  constructor
  · rintro ⟨gs, hgs, ds, hds, hplace⟩
    exact ⟨gs, ds, hgs, hds, hplace⟩
  · rintro ⟨gs, ds, hgs, hds, hplace⟩
    exact ⟨gs, hgs, ds, hds, hplace⟩

theorem map_reorderAll {β : Type} (f : List (Field ω) → β) (rule : RecordRule)
    (fs : List (Field ω)) :
    (Field.reorderAll rule fs).map f = (do
      let gs ← Field.rearrangeAll rule fs
      let ds ← Field.toDescriptors (Field.sort gs)
      let placed ← place rule ds 0
      return f placed) := by
  unfold Field.reorderAll
  rcases Field.rearrangeAll rule fs with e | gs
  · rfl
  · simp only [bind, Except.bind]
    rcases Field.toDescriptors (Field.sort gs) with e | ds
    · rfl
    · rcases hplace : place rule ds (0 : ω) with e | placed <;> simp only [hplace] <;> rfl

theorem rearrange_inline {rule : RecordRule} {name typeName : String} {start : ω}
    {a : Alignment} {widened : Bool} {children : List (Field ω)}
    (hinline : (Field.record name typeName start a widened children).isInlineRecord) :
    Field.rearrange rule (.record name typeName start a widened children) =
      (Field.reorderAll rule children).map (.record name typeName start a false) := by
  rw [Field.rearrange, if_pos hinline, map_reorderAll]

theorem reorder_eq (rule : RecordRule) (l : Layout ω) :
    l.reorder rule = (Field.reorderAll rule l.fields).map fun fields => { l with fields } := by
  rw [Layout.reorder, map_reorderAll]

theorem reorder_eq_ok {rule : RecordRule} {l proposal : Layout ω} :
    l.reorder rule = .ok proposal ↔
      ∃ fields, Field.reorderAll rule l.fields = .ok fields ∧ proposal = { l with fields } := by
  rw [reorder_eq]
  rcases Field.reorderAll rule l.fields with e | fields <;> simp [Except.map, eq_comm]

theorem rearrangeAll_cons_of {rule : RecordRule} {f g : Field ω} {fs gs : List (Field ω)}
    (hf : f.isPadding = false) (hg : f.rearrange rule = .ok g)
    (hgs : Field.rearrangeAll rule fs = .ok gs) :
    Field.rearrangeAll rule (f :: fs) = .ok (g :: gs) := by
  rw [Field.rearrangeAll, if_neg (by simp [hf]), hg, hgs]
  rfl

theorem rearrangeAll_unpadded (rule : RecordRule) (fs : List (Field ω)) :
    Field.rearrangeAll rule (Field.unpadded fs) = Field.rearrangeAll rule fs := by
  induction fs with
  | nil => rfl
  | cons f fs ih =>
    rcases hf : f.isPadding with _ | _
    · rw [Field.unpadded_cons_of fs hf, Field.rearrangeAll, Field.rearrangeAll, ih]
    · rw [Field.unpadded_cons_padding fs hf, Field.rearrangeAll, if_pos hf, ih]

/-- How fields without ties are sorted. -/
theorem sort_eq_of_strict {fs gs : List (Field ω)} (h : fs.Perm gs)
    (hgs : gs.Pairwise fun f g => Field.order f g = .lt) : Field.sort fs = gs :=
  @sortBy_eq_of_strict (Field ω) (fun f => Measure.toNat f.declared) Field.alignBytes Field.name
    fs gs h hgs

/-- The proposal for fields without ties, step by step. -/
theorem reorderAll_of_strict {rule : RecordRule} {fs gs placed : List (Field ω)}
    {ds : List Descriptor} (sorted : List (Field ω)) (hgs : Field.rearrangeAll rule fs = .ok gs)
    (hperm : gs.Perm sorted) (hstrict : sorted.Pairwise fun f g => Field.order f g = .lt)
    (hds : Field.toDescriptors sorted = .ok ds) (hplaced : place rule ds 0 = .ok placed) :
    Field.reorderAll rule fs = .ok placed :=
  reorderAll_eq_ok.2 ⟨gs, ds, hgs, by rw [sort_eq_of_strict hperm hstrict, hds], hplaced⟩

theorem rearrange_of_not_inline {rule : RecordRule} {f : Field ω} (h : ¬f.isInlineRecord) :
    f.rearrange rule = .ok f := by
  cases f with
  | record => rw [Field.rearrange, if_neg h]
  | _ => rw [Field.rearrange]

theorem rearrangeAll_of_not_inline {rule : RecordRule} {fs : List (Field ω)}
    (h : ∀ f ∈ fs, ¬f.isInlineRecord) :
    Field.rearrangeAll rule fs = .ok (Field.unpadded fs) := by
  induction fs with
  | nil => rfl
  | cons f fs ih =>
    obtain ⟨hf, hfs⟩ := List.forall_mem_cons.1 h
    rcases hpadding : f.isPadding with _ | _
    · rw [Field.unpadded_cons_of fs hpadding]
      exact rearrangeAll_cons_of hpadding (rearrange_of_not_inline hf) (ih hfs)
    · rw [Field.unpadded_cons_padding fs hpadding, Field.rearrangeAll, if_pos hpadding, ih hfs]

/-- The fields of these names, placed again from the start. -/
def Field.placeNamed (rule : RecordRule) (names : List String) (fs : List (Field ω)) :
    Except LayoutError (List (Field ω)) := do
  let ds ← toDescriptors (names.filterMap fun name => fs.find? fun f => f.name == name)
  place rule ds 0

/-- The proposal for fields of different names, none of them an inline record. -/
theorem reorderAll_of_names {rule : RecordRule} {names : List String} {fs : List (Field ω)}
    (hinline : ∀ f ∈ fs, ¬f.isInlineRecord)
    (hperm : (Field.unpadded fs).Perm
      (names.filterMap fun name => fs.find? fun f => f.name == name))
    (hstrict : (names.filterMap fun name => fs.find? fun f => f.name == name).Pairwise
      fun f g => Field.order f g = .lt) :
    Field.reorderAll rule fs = Field.placeNamed rule names fs := by
  rw [Field.reorderAll, rearrangeAll_of_not_inline hinline, Field.placeNamed,
    ← sort_eq_of_strict hperm hstrict]
  rfl

/-! ## Records on their way into the proposal -/

theorem ne_nil_of_place {rule : RecordRule} {ds : List Descriptor} {base : ω}
    {fs : List (Field ω)} (h : place rule ds base = .ok fs) (hne : ds ≠ []) : fs ≠ [] := by
  rintro rfl
  exact hne (List.forall₂_nil_right_iff.1 (realises_of_place h))

theorem Realises.isInlineRecord_iff {rule : RecordRule} {d : Descriptor} {f : Field ω}
    (h : Realises rule d f) : f.isInlineRecord ↔ d.Inline := by
  cases h with
  | leaf start size hleaf hcheck =>
    simp [Field.isInlineRecord, Field.children, Descriptor.Inline, hleaf]
  | record offset widened hrecord hcheck hinner =>
    simp [Field.isInlineRecord, Field.children, Field.typeName, Descriptor.Inline, hrecord,
      ne_nil_of_place hinner hrecord]

theorem Realises.rearrange_of_not_inline {rule : RecordRule} {d : Descriptor} {f : Field ω}
    (h : Realises rule d f) (hnot : ¬d.Inline) : f.rearrange rule = .ok f := by
  exact StructPadding.rearrange_of_not_inline fun hinline => hnot (h.isInlineRecord_iff.1 hinline)

theorem Realises.toDescriptor {rule : RecordRule} {d : Descriptor} {f : Field ω}
    (h : Realises rule d f) : f.toDescriptor = .ok (some d.plain) := by
  cases h with
  | leaf start size hleaf hcheck => exact toDescriptor_leaf start size hleaf hcheck
  | record offset widened hrecord hcheck hinner =>
    exact toDescriptor_record _ widened hrecord hcheck (describes_of_place hinner).toDescriptors

/-- A relation `S` that fields have to descriptors while they are sorted, and what it says of the
descriptors once they are, `Q`. -/
structure Sorting (rule : RecordRule) (S : Field ω → Descriptor → Prop)
    (Q : List Descriptor → Prop) : Prop where
  descriptor : ∀ {f d}, S f d → f.toDescriptor = .ok (some d.plain)
  kept : ∀ {d f}, Realises rule d f → ¬d.Inline → S f d
  placed : ∀ {d a inner} (start : ω), d.Inline → d.check = .ok a →
    place rule d.children (0 : ω) = .ok inner → Q d.children →
    S (.record d.name d.typeName start a false inner) d
  sorted : ∀ {fs ds}, List.Forall₂ S fs ds →
    fs.Pairwise (fun f g => (Field.order f g).isLE) → Q ds

namespace Sorting

variable {rule : RecordRule} {S : Field ω → Descriptor → Prop} {Q : List Descriptor → Prop}

/-- What fields are proposed as, given what they stand for. -/
theorem exists_reorderAll (hS : Sorting rule S Q) (hr : rule.Sound) {fs gs : List (Field ω)}
    {ds : List Descriptor} (hgs : Field.rearrangeAll rule fs = .ok gs)
    (hds : Everywhere Descriptor.Valid ds) (h : List.Forall₂ S gs ds) :
    ∃ es placed, Reorders ds es ∧ Q es ∧ place rule es (0 : ω) = .ok placed ∧
      Field.reorderAll rule fs = .ok placed := by
  have hperm : (Field.sort gs).Perm gs := List.mergeSort_perm gs _
  obtain ⟨es, hes, hback⟩ := List.perm_comp_forall₂ hperm h
  have hreorders := Reorders.of_perm hback.symm
  have hdescriptors := toDescriptors_of_forall₂ (hes.imp fun _ _ hd => hS.descriptor hd)
  obtain ⟨placed, hplaced⟩ := place_succeeds hr (hreorders.everywhere_valid hds) (0 : ω)
  exact ⟨es, placed, hreorders, hS.sorted hes (sortBy_pairwise _ _ _ gs), hplaced,
    reorderAll_eq_ok.2 ⟨gs, _, hgs, hdescriptors, place_plainAll hplaced⟩⟩

/-- One field on its way into the proposal, if the fields in it are known to get there. -/
theorem exists_rearrange (hS : Sorting rule S Q) (hr : rule.Sound) {d : Descriptor} {f : Field ω}
    (h : Realises rule d f) (hnested : Everywhere Descriptor.Valid d.children)
    (ih : ∀ {fs : List (Field ω)}, List.Forall₂ (Realises rule) d.children fs →
      ∃ gs es, Field.rearrangeAll rule fs = .ok gs ∧ Reorders d.children es ∧
        List.Forall₂ S gs es) :
    ∃ g e, f.rearrange rule = .ok g ∧ d.Alike e ∧ S g e := by
  by_cases hinline : d.Inline
  · have hfield := h.isInlineRecord_iff.2 hinline
    cases h with
    | leaf start size hleaf => exact absurd hleaf hinline.1
    | @record a inner offset widened hrecord hcheck hinner =>
      -- the fields of an inline record are sorted and placed before the record itself is sorted
      obtain ⟨gs, ds, hgs, hreorders, hstands⟩ := ih (realises_of_place hinner)
      rw [rearrangeAll_unpadded] at hgs
      obtain ⟨es, placed, hsorted, hQ, hplaced, hdone⟩ :=
        hS.exists_reorderAll hr hgs (hreorders.everywhere_valid hnested) hstands
      have hall : Reorders d.children es := hreorders.trans hsorted
      rcases d with _ | ⟨name, typeName, size, align, children⟩
      · exact absurd rfl hrecord
      · have hinline' : (Descriptor.record name typeName size align es).Inline :=
          ⟨fun hnil => hrecord (hall.eq_nil_iff.2 hnil), hinline.2⟩
        refine ⟨_, .record name typeName size align es, ?_, .inner name size align hinline.2 hall,
          hS.placed (Measure.advance a offset) hinline' hcheck hplaced hQ⟩
        rw [rearrange_inline hfield, hdone]
        rfl
  · exact ⟨f, d, h.rearrange_of_not_inline hinline, .same d, hS.kept h hinline⟩

/-- Fields on their way into the proposal stand for a reordering of their descriptors. -/
theorem exists_rearrangeAll (hS : Sorting rule S Q) (hr : rule.Sound) {ds : List Descriptor}
    (hds : Everywhere Descriptor.Valid ds) :
    ∀ {fs : List (Field ω)}, List.Forall₂ (Realises rule) ds fs →
      ∃ gs es, Field.rearrangeAll rule fs = .ok gs ∧ Reorders ds es ∧ List.Forall₂ S gs es := by
  induction hds with
  | nil =>
    rintro _ ⟨⟩
    exact ⟨[], [], by rw [Field.rearrangeAll], .nil, .nil⟩
  | cons head nested _ ihNested ihTail =>
    rintro _ (_ | ⟨hf, hfs⟩)
    obtain ⟨g, e, hg, halike, hSg⟩ := hS.exists_rearrange hr hf nested ihNested
    obtain ⟨gs, es, hgs, hreorders, hSgs⟩ := ihTail hfs
    refine ⟨g :: gs, e :: es, rearrangeAll_cons_of hf.isPadding hg hgs, ?_, .cons hSg hSgs⟩
    cases halike with
    | same => exact .cons _ hreorders
    | inner name size align hinline halike =>
      exact .inner name size align hinline halike hreorders

theorem exists_proposal (hS : Sorting rule S Q) {ds : List Descriptor} {base : ω}
    {fs : List (Field ω)} (h : place rule ds base = .ok fs) :
    ∃ es placed, Field.reorderAll rule fs = .ok placed ∧ Reorders ds es ∧ Q es ∧
      place rule es (0 : ω) = .ok placed := by
  by_cases hne : ds = []
  · -- nothing to place, so that the rule may be any
    subst hne
    obtain rfl := Except.ok.inj h
    have hnone : Field.reorderAll rule ([] : List (Field ω)) = .ok [] :=
      reorderAll_eq_ok.2 ⟨[], [], rfl, by rw [Field.sort, List.mergeSort_nil]; rfl, rfl⟩
    exact ⟨[], [], hnone, .nil, hS.sorted .nil .nil, rfl⟩
  · have hr := sound_of_place h hne
    have hvalid := (describes_of_place h).valid
    obtain ⟨gs, ds', hgs, hreorders, hstands⟩ :=
      hS.exists_rearrangeAll hr hvalid (realises_of_place h)
    rw [rearrangeAll_unpadded] at hgs
    obtain ⟨es, placed, hsorted, hQ, hplaced, hdone⟩ :=
      hS.exists_reorderAll hr hgs (hreorders.everywhere_valid hvalid) hstands
    exact ⟨es, placed, hdone, hreorders.trans hsorted, hQ, hplaced⟩

end Sorting

/-- The proposal for placed fields is a reordering of their descriptors, placed from the start. -/
theorem reorderAll_places {rule : RecordRule} {ds : List Descriptor} {base : ω}
    {fs : List (Field ω)} (h : place rule ds base = .ok fs) :
    ∃ es placed, Field.reorderAll rule fs = .ok placed ∧ Reorders ds es ∧
      place rule es (0 : ω) = .ok placed := by
  have hS : Sorting rule (fun (f : Field ω) d => f.toDescriptor = .ok (some d.plain))
      fun _ => True :=
    { descriptor := id
      kept := fun hf _ => hf.toDescriptor
      placed := fun start hinline hcheck hinner _ =>
        toDescriptor_record start false hinline.1 hcheck (describes_of_place hinner).toDescriptors
      sorted := fun _ _ => trivial }
  obtain ⟨es, placed, hdone, hreorders, -, hplaced⟩ := hS.exists_proposal h
  exact ⟨es, placed, hdone, hreorders, hplaced⟩

/-- The proposal for a placed declaration is a reordering of it, placed from the start. -/
theorem reorder_places {rule : RecordRule} {ds : List Descriptor} {base : ω} {l : Layout ω}
    (h : place rule ds base = .ok l.fields) :
    ∃ es proposal, l.reorder rule = .ok proposal ∧ Reorders ds es ∧
      place rule es (0 : ω) = .ok proposal.fields := by
  obtain ⟨es, placed, hdone, hreorders, hplaced⟩ := reorderAll_places h
  exact ⟨es, _, reorder_eq_ok.2 ⟨placed, hdone, rfl⟩, hreorders, hplaced⟩

end

/-! ## The proposed order in numbers -/

/-- A field that stands for a descriptor while the fields are sorted. -/
structure Stands (f : Field Nat) (d : Descriptor) : Prop where
  descriptor : f.toDescriptor = .ok (some d.plain)
  align : f.alignBytes = d.align.toInt.toNat
  void : f.declared = 0 ↔ d.Void
  inner : Field.spelledOut d.typeName → Arranged d.children

theorem place_totalSize_pos {rule : RecordRule} {ds : List Descriptor} {base : Nat}
    {fs : List (Field Nat)} (h : place rule ds base = .ok fs) (hne : ds ≠ []) :
    0 < Field.totalSize fs := by
  obtain ⟨inner, hinner, hclose⟩ := place_eq_ok.1 h
  exact hinner.totalSize_closed_pos hne hclose

theorem stands_record {rule : RecordRule} {d : Descriptor} {a : Alignment} {base : Nat}
    {inner : List (Field Nat)} (start : Nat) (widened : Bool) (hrecord : d.children ≠ [])
    (hcheck : d.check = .ok a) (hinner : place rule d.children base = .ok inner)
    (harranged : Field.spelledOut d.typeName → Arranged d.children) :
    Stands (.record d.name d.typeName start a widened inner) d where
  descriptor := toDescriptor_record start widened hrecord hcheck
    (describes_of_place hinner).toDescriptors
  align := (Descriptor.align_of_check hcheck).symm
  void := by
    have hpos := place_totalSize_pos hinner hrecord
    have hsize : Field.totalSize inner ≠ 0 := by omega
    simp [Field.declared, hsize, Descriptor.Void, hrecord]
  inner := harranged

theorem stands_of_realises {rule : RecordRule} {d : Descriptor} {f : Field Nat}
    (h : Realises rule d f) (hnot : ¬d.Inline) : Stands f d := by
  cases h with
  | leaf start size hleaf hcheck =>
    exact ⟨toDescriptor_leaf start size hleaf hcheck, (Descriptor.align_of_check hcheck).symm,
      by simp [Field.declared, Descriptor.Void, hleaf], fun _ => hleaf ▸ arranged_nil⟩
  | record offset widened hrecord hcheck hinner =>
    exact stands_record _ widened hrecord hcheck hinner fun hspelled =>
      absurd ⟨hrecord, hspelled⟩ hnot

theorem order_eq (f g : Field Nat) :
    Field.order f g = orderBy Field.declared Field.alignBytes Field.name f g :=
  rfl

theorem precedes_of_stands {f g : Field Nat} {d e : Descriptor} (hd : Stands f d)
    (he : Stands g e) (h : (Field.order f g).isLE) : d.Precedes e := by
  rw [order_eq] at h
  rcases of_orderBy_isLE h with hf | ⟨hg, hle⟩
  · exact .inl (hd.void.1 hf)
  · exact .inr ⟨fun hvoid => hg (he.void.2 hvoid), by rwa [hd.align, he.align] at hle⟩

theorem pairwise_of_stands {fs : List (Field Nat)} {ds : List Descriptor}
    (h : List.Forall₂ Stands fs ds) (hfs : fs.Pairwise fun f g => (Field.order f g).isLE) :
    ds.Pairwise Descriptor.Precedes := by
  induction h with
  | nil => exact .nil
  | @cons f d fs ds hd hds ih =>
    obtain ⟨hhead, htail⟩ := List.pairwise_cons.1 hfs
    refine List.pairwise_cons.2 ⟨fun e he => ?_, ih htail⟩
    obtain ⟨i, hi, rfl⟩ := List.getElem_of_mem he
    have hlen := hds.length_eq
    exact precedes_of_stands hd (hds.get (by omega) hi) (hhead _ (List.getElem_mem _))

/-- Sorting fields arranges the descriptors they stand for. -/
theorem arranged_of_stands {fs : List (Field Nat)} {ds : List Descriptor}
    (h : List.Forall₂ Stands fs ds) (hfs : fs.Pairwise fun f g => (Field.order f g).isLE) :
    Arranged ds := by
  refine .mk (pairwise_of_stands h hfs) fun d hd => ?_
  obtain ⟨i, hi, rfl⟩ := List.getElem_of_mem hd
  have hlen := h.length_eq
  exact (h.get (by omega) hi).inner

/-- In numbers, the proposal is placed from an arranged order. -/
theorem reorderAll_arranged {rule : RecordRule} {ds : List Descriptor} {base : Nat}
    {fs : List (Field Nat)} (h : place rule ds base = .ok fs) :
    ∃ es placed, Field.reorderAll rule fs = .ok placed ∧ Reorders ds es ∧ Arranged es ∧
      place rule es 0 = .ok placed := by
  have hS : Sorting rule Stands Arranged :=
    { descriptor := fun hd => hd.descriptor
      kept := stands_of_realises
      placed := fun start hinline hcheck hinner harranged =>
        stands_record start false hinline.1 hcheck hinner fun _ => harranged
      sorted := arranged_of_stands }
  exact hS.exists_proposal h

end StructPadding
