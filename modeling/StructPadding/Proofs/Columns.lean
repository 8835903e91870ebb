import StructPadding.Go.Rendering
import StructPadding.Proofs.Rearranged

/-!
# Columns of names

A layout can be shown as a declaration just if no name that would be shown has more characters than
a column (`exists_render_iff`). Shown are the names of the fields, and in inline records again those
of their fields (`Field.shownNames`). A proposal shows the names that the declaration shows, so that
it can be shown if the declaration can (`exists_render_reorder_iff`).
-/

namespace StructPadding

/-! ## Names that are shown -/

namespace Field

variable {ω : Type}

mutual

/-- The names that are shown with a field. -/
def shownNames : Field ω → List String
  | padding .. => []
  | leaf name .. => [name]
  | record name typeName start align widened children =>
    name :: if (record name typeName start align widened children).isInlineRecord then
      shownNamesAll children else []

def shownNamesAll : List (Field ω) → List String
  | [] => []
  | f :: fs => f.shownNames ++ shownNamesAll fs

end

end Field

namespace Descriptor

instance (d : Descriptor) : Decidable d.Inline :=
  inferInstanceAs (Decidable (d.children ≠ [] ∧ Field.spelledOut d.typeName))

mutual

/-- The names that are shown with a field of this descriptor. -/
def shownNames : Descriptor → List String
  | leaf name .. => [name]
  | record name typeName size align children =>
    name :: if (record name typeName size align children).Inline then shownNamesAll children
      else []

def shownNamesAll : List Descriptor → List String
  | [] => []
  | d :: ds => d.shownNames ++ shownNamesAll ds

end

theorem shownNames_eq (d : Descriptor) :
    d.shownNames = d.name :: if d.Inline then shownNamesAll d.children else [] := by
  cases d with
  | leaf => simp [shownNames, name, Inline, children]
  | record => rw [shownNames, name, children]

end Descriptor

theorem Describes.shownNamesAll {ω : Type} [Measure ω] {ds : List Descriptor} {fs : List (Field ω)}
    (h : Describes ds fs) : Field.shownNamesAll fs = Descriptor.shownNamesAll ds := by
  induction h with
  | nil => rfl
  | padding _ _ _ ih => rw [Field.shownNamesAll, Field.shownNames, List.nil_append, ih]
  | leaf _ _ hleaf _ _ ih =>
    rw [Field.shownNamesAll, Field.shownNames, ih, Descriptor.shownNamesAll,
      Descriptor.shownNames_eq, if_neg fun hinline => hinline.1 hleaf]
  | @record d ds a inner fs start widened hrecord _ nested _ ihNested ihTail =>
    have hinline : (Field.record d.name d.typeName start a widened inner).isInlineRecord ↔
        d.Inline := by
      simp [Field.isInlineRecord, Field.children, Field.typeName, Descriptor.Inline, hrecord,
        nested.ne_nil hrecord]
    rw [Field.shownNamesAll, Field.shownNames, ihNested, ihTail, Descriptor.shownNamesAll,
      Descriptor.shownNames_eq]
    simp only [hinline]

/-- The order of the fields does not matter to which names are shown. -/
theorem Reorders.shownNamesAll {ds es : List Descriptor} (h : Reorders ds es) :
    (Descriptor.shownNamesAll ds).Perm (Descriptor.shownNamesAll es) := by
  induction h with
  | nil => exact .refl _
  | cons d _ ih =>
    rw [Descriptor.shownNamesAll, Descriptor.shownNamesAll]
    exact ih.append_left _
  | @inner typeName children children' ds es name size align hinline nested _ ihNested ihTail =>
    rw [Descriptor.shownNamesAll, Descriptor.shownNamesAll, Descriptor.shownNames,
      Descriptor.shownNames]
    refine List.Perm.append (.cons name ?_) ihTail
    simp only [Descriptor.Inline, Descriptor.children, Descriptor.typeName, hinline, and_true,
      ne_eq, nested.eq_nil_iff]
    split_ifs
    · exact .refl _
    · exact ihNested
  | swap d e ds =>
    simp only [Descriptor.shownNamesAll, ← List.append_assoc]
    exact List.perm_append_comm.append_right _
  | trans _ _ ihLeft ihRight => exact ihLeft.trans ihRight

/-- A proposal shows the names that the declaration shows. -/
theorem shownNames_of_reorder {ω : Type} [Measure ω] {rule : RecordRule} {ds : List Descriptor}
    {base : ω} {l proposal : Layout ω} (h : place rule ds base = .ok l.fields)
    (hproposal : l.reorder rule = .ok proposal) :
    (Field.shownNamesAll l.fields).Perm (Field.shownNamesAll proposal.fields) := by
  obtain ⟨es, proposal', hproposal', hreorders, hplaced⟩ := reorder_places h
  obtain rfl := Except.ok.inj (hproposal.symm.trans hproposal')
  rw [(describes_of_place h).shownNamesAll, (describes_of_place hplaced).shownNamesAll]
  exact hreorders.shownNamesAll

/-! ## Columns -/

namespace Go

open StructPadding.Field (shownNames shownNamesAll)

theorem foldl_max_le_iff {ns : List Nat} {m bound : Nat} :
    ns.foldl max m ≤ bound ↔ m ≤ bound ∧ ∀ n ∈ ns, n ≤ bound := by
  induction ns generalizing m with
  | nil => simp
  | cons n ns ih => rw [List.foldl_cons, ih, Nat.max_le, List.forall_mem_cons, and_assoc]

theorem nameWidth_le_iff {fs : List Field} {bound : Nat} :
    nameWidth fs ≤ bound ↔ ∀ f ∈ fs, f.isPadding = false → f.name.length ≤ bound := by
  rw [nameWidth, foldl_max_le_iff, List.forall_mem_map]
  simp

theorem checkWidth_eq_ok {width : Nat} {u : Unit} :
    Text.checkWidth width = .ok u ↔ width ≤ Text.maxWidth := by
  unfold Text.checkWidth
  split_ifs with h <;> simp [h]

theorem checkColumns_eq_ok {f : Field} {u : Unit} : checkColumns f = .ok u ↔
    (f.isInlineRecord → checkAllColumns (nameWidth f.children) f.children = .ok u) := by
  cases f with
  | record =>
    rw [checkColumns]
    split_ifs with h <;> simp [h, Field.children]
  | _ => simp [checkColumns, Field.isInlineRecord, Field.children]

theorem checkAllColumns_eq_ok {width : Nat} {fs : List Field} {u : Unit} :
    checkAllColumns width fs = .ok u ↔
      ∀ f ∈ fs, f.isPadding = false → checkColumns f = .ok u ∧ width ≤ Text.maxWidth := by
  induction fs with
  | nil => simp [checkAllColumns]
  | cons f fs ih =>
    rw [checkAllColumns, List.forall_mem_cons]
    rcases hf : f.isPadding with _ | _
    · simp only [Bool.false_eq_true, if_false, bind_eq_ok, checkWidth_eq_ok, ih, true_implies,
        and_assoc, Unique.exists_iff]
    · simp only [if_true, ih, reduceCtorEq, false_implies, true_and]

/-- A column is as wide as the longest of its names. -/
theorem checkAllColumns_nameWidth {fs : List Field} :
    checkAllColumns (nameWidth fs) fs = .ok () ↔ ∀ f ∈ fs, f.isPadding = false →
      checkColumns f = .ok () ∧ f.name.length ≤ Text.maxWidth := by
  rw [checkAllColumns_eq_ok]
  constructor
  · intro h f hf hfield
    obtain ⟨hinner, hwidth⟩ := h f hf hfield
    exact ⟨hinner, nameWidth_le_iff.1 hwidth f hf hfield⟩
  · intro h f hf hfield
    exact ⟨(h f hf hfield).1, nameWidth_le_iff.2 fun g hg hother => (h g hg hother).2⟩

mutual

theorem checkColumns_iff : ∀ f : Field,
    (f.isPadding = false → checkColumns f = .ok () ∧ f.name.length ≤ Text.maxWidth) ↔
      ∀ name ∈ shownNames f, name.length ≤ Text.maxWidth
  | .padding .. => by simp [shownNames, Field.isPadding]
  | .leaf .. => by simp [shownNames, Field.isPadding, Field.name, checkColumns]
  | .record name typeName start align widened children => by
    have hchildren := checkAllColumns_iff children
    rw [checkColumns_eq_ok, checkAllColumns_nameWidth, shownNames, List.forall_mem_cons,
      Field.children, hchildren]
    split_ifs with hinline <;> simp [hinline, Field.isPadding, Field.name, and_comm]

theorem checkAllColumns_iff : ∀ fs : List Field,
    (∀ f ∈ fs, f.isPadding = false →
        checkColumns f = .ok () ∧ f.name.length ≤ Text.maxWidth) ↔
      ∀ name ∈ shownNamesAll fs, name.length ≤ Text.maxWidth
  | [] => by simp [shownNamesAll]
  | f :: fs => by
    rw [List.forall_mem_cons, checkColumns_iff f, checkAllColumns_iff fs, shownNamesAll,
      List.forall_mem_append]

end

theorem render_eq_ok {l : Layout} {text : String} : render l = .ok text ↔
    checkAllColumns (nameWidth l.fields) l.fields = .ok () ∧ text = declarationText l := by
  unfold render
  rcases checkAllColumns (nameWidth l.fields) l.fields with e | u <;>
    simp [bind, Except.bind, pure, Except.pure, eq_comm]

/-- Shown is what has only names that fit into a column. -/
theorem exists_render_iff {l : Layout} : (∃ text, render l = .ok text) ↔
    ∀ name ∈ shownNamesAll l.fields, name.length ≤ Text.maxWidth := by
  simp only [render_eq_ok, exists_and_left, exists_eq, and_true]
  rw [checkAllColumns_nameWidth, checkAllColumns_iff]

/-- A proposal can be shown if the names of the declaration fit into a column. -/
theorem exists_render_reorder_iff {rule : RecordRule} {ds : List Descriptor} {base : UInt64}
    {l proposal : Layout} (h : place rule ds base = .ok l.fields)
    (hproposal : l.reorder rule = .ok proposal) : (∃ text, render proposal = .ok text) ↔
      ∀ name ∈ shownNamesAll l.fields, name.length ≤ Text.maxWidth := by
  rw [exists_render_iff]
  simp only [(shownNames_of_reorder h hproposal).mem_iff]

end Go

end StructPadding
