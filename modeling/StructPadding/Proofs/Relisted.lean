import StructPadding.Proofs.Columns
import StructPadding.Proofs.NamedRecords
import StructPadding.Proofs.Rendered
import StructPadding.Proofs.Untyped

/-!
# The fields of a proposal

A struct and its proposal list the same fields: what reordering does to the descriptors of a struct
it does to the fields that they were made from (`Rearranges`, `Matches.reorders`). So the proposal
shows the fields of the struct in another order, and what is read from its text has the layout that
the proposal has (`relisted`).
-/

namespace StructPadding

theorem reorder_name {rule : RecordRule} {l proposal : Layout}
    (h : l.reorder rule = .ok proposal) : proposal.name = l.name := by
  obtain ⟨fields, -, rfl⟩ := reorder_eq_ok.1 h
  rfl

namespace Go

open TypeExpr (WrittenAll allPlain spreadBackAll)

/-- The same fields in another order, here and in the structs that are written out here. -/
inductive Rearranges : List (FieldDecl TypeExpr) → List (FieldDecl TypeExpr) → Prop
  | nil : Rearranges [] []
  | cons (d : FieldDecl TypeExpr) {ds es : List (FieldDecl TypeExpr)} (tail : Rearranges ds es) :
    Rearranges (d :: ds) (d :: es)
  | inner (name : String) (embedded : Bool) {fields fields' ds es : List (FieldDecl TypeExpr)}
    (nested : Rearranges fields fields') (tail : Rearranges ds es) :
    Rearranges (⟨name, .struct fields, embedded⟩ :: ds) (⟨name, .struct fields', embedded⟩ :: es)
  | swap (d e : FieldDecl TypeExpr) (ds : List (FieldDecl TypeExpr)) :
    Rearranges (d :: e :: ds) (e :: d :: ds)
  | trans {ds es gs : List (FieldDecl TypeExpr)} (left : Rearranges ds es)
    (right : Rearranges es gs) : Rearranges ds gs

namespace Rearranges

variable {ds es : List (FieldDecl TypeExpr)}

theorem refl : ∀ ds : List (FieldDecl TypeExpr), Rearranges ds ds
  | [] => .nil
  | d :: ds => .cons d (refl ds)

theorem writtenAll (h : Rearranges ds es) : WrittenAll ds → WrittenAll es := by
  induction h with
  | nil => exact id
  | cons d _ ih =>
    rcases d with ⟨name, type, embedded⟩
    simp only [WrittenAll]
    exact fun ⟨hname, htype, htail⟩ => ⟨hname, htype, ih htail⟩
  | inner name embedded _ _ ihNested ihTail =>
    simp only [WrittenAll, TypeExpr.Written]
    exact fun ⟨hname, htype, htail⟩ => ⟨hname, ihNested htype, ihTail htail⟩
  | swap d e ds =>
    rcases d with ⟨name, type, embedded⟩
    rcases e with ⟨name', type', embedded'⟩
    simp only [WrittenAll]
    exact fun ⟨hname, htype, hname', htype', htail⟩ => ⟨hname', htype', hname, htype, htail⟩
  | trans _ _ ihLeft ihRight => exact fun hds => ihRight (ihLeft hds)

theorem allPlain (h : Rearranges ds es) : allPlain ds = allPlain es := by
  induction h with
  | nil => rfl
  | cons d _ ih => simp only [TypeExpr.allPlain, ih]
  | inner name embedded _ _ ihNested ihTail =>
    simp only [TypeExpr.allPlain, TypeExpr.isPlain, ihNested, ihTail]
  | swap d e ds =>
    simp only [TypeExpr.allPlain]
    exact Bool.and_left_comm _ _ _
  | trans _ _ ihLeft ihRight => rw [ihLeft, ihRight]

end Rearranges

/-! ## Types that are written out -/

theorem spelledOut_struct (fields : List (FieldDecl TypeExpr)) :
    Field.spelledOut (TypeExpr.struct fields).text = true := by
  have htext : (TypeExpr.struct fields).text.toList = "struct".toList ++
      '\x7b' :: ("; ".intercalate (TypeExpr.fieldTexts fields) ++ "\x7d").toList := by
    simp [TypeExpr.text]
  have hblank : Text.isBlank '\x7b' = false := by decide
  unfold Field.spelledOut
  simp only [htext]
  simp [Text.trimStart, hblank]

theorem spelledOut_of_isName {name : String} (h : isName name = true) :
    Field.spelledOut name = false := by
  rw [Bool.eq_false_iff]
  intro hspelled
  unfold Field.spelledOut at hspelled
  obtain ⟨-, hbrace⟩ := Bool.and_eq_true_iff.1 hspelled
  have hmem : '\x7b' ∈ name.toList :=
    List.mem_of_mem_drop ((List.dropWhile_sublist _).subset
      (List.mem_of_mem_head? (beq_iff_eq.1 hbrace)))
  exact notMem_of_isName h (by decide +kernel) hmem

/-! ## Descriptors and the fields they are made from -/

namespace Scope

variable {s : Scope} {f : String → Except ResolveError Shape}

/-- Descriptors of these fields. The records that are written out have their fields described one by
one. -/
inductive Matches (s : Scope) (f : String → Except ResolveError Shape) :
    List (FieldDecl TypeExpr) → List Descriptor → Prop
  | nil : Matches s f [] []
  | text {name : String} {t : TypeExpr} {embedded : Bool} {shape : Shape} {d : Descriptor}
    {fields : List (FieldDecl TypeExpr)} {ds : List Descriptor}
    (hshape : s.shapeOf f t = .ok shape) (ht : t.isListing = false)
    (hspelled : shape.inner ≠ [] → Field.spelledOut t.text = false)
    (hd : d = shape.descriptor name t.text) (tail : Matches s f fields ds) :
    Matches s f (⟨name, t, embedded⟩ :: fields) (d :: ds)
  | inline {name typeName : String} {embedded : Bool} {d : Descriptor}
    {inner fields : List (FieldDecl TypeExpr)} {children ds : List Descriptor}
    (hne : children ≠ []) (hspelled : Field.spelledOut typeName = true)
    (hd : d = .record name typeName 0 (Int64.ofNat (RecordRule.widest children)) children)
    (nested : Matches s f inner children) (tail : Matches s f fields ds) :
    Matches s f (⟨name, .struct inner, embedded⟩ :: fields) (d :: ds)

theorem Matches.eq_nil_iff {fields : List (FieldDecl TypeExpr)} {ds : List Descriptor}
    (h : s.Matches f fields ds) : fields = [] ↔ ds = [] := by
  cases h <;> simp

/-- A shape that is described as a record has fields. -/
theorem inner_of_descriptor_eq_record {shape : Shape} {name name' typeName typeName' : String}
    {size align : Int64} {children : List Descriptor}
    (h : .record name typeName size align children = shape.descriptor name' typeName') :
    shape.inner ≠ [] ∧ typeName = typeName' := by
  rcases shape with _ | ⟨_ | ⟨d, ds⟩, _, _⟩
  · cases h
  · cases h
  · cases h
    exact ⟨List.cons_ne_nil _ _, rfl⟩

mutual

theorem matches_cons_of_shapeOf {name : String} {embedded : Bool}
    {fields : List (FieldDecl TypeExpr)} {ds : List Descriptor} :
    ∀ {t : TypeExpr} {shape : Shape}, t.Written → s.shapeOf f t = .ok shape →
      s.Matches f fields ds →
        s.Matches f (⟨name, t, embedded⟩ :: fields) (shape.descriptor name t.text :: ds)
  | .struct [], shape, _, hshape, htail => by
    refine .text hshape rfl (fun hne => absurd ?_ hne) rfl htail
    rw [shapeOf_struct, descriptorsOf_nil] at hshape
    have hshape : s.recordShape [] = .ok shape := hshape
    obtain ⟨placed, -, rfl⟩ := recordShape_eq_ok.1 hshape
    rfl
  | .struct (field :: inner), shape, hw, hshape, htail => by
    rw [TypeExpr.Written] at hw
    rw [shapeOf_struct, bind_eq_ok] at hshape
    obtain ⟨children, hchildren, hshape⟩ := hshape
    obtain ⟨placed, -, rfl⟩ := recordShape_eq_ok.1 hshape
    have hnested := matches_of_descriptorsOf hw hchildren
    rcases children with _ | ⟨d, children⟩
    · exact absurd (hnested.eq_nil_iff.2 rfl) (List.cons_ne_nil _ _)
    · exact .inline (List.cons_ne_nil _ _) (spelledOut_struct _) rfl hnested htail
  | .named other, shape, hw, hshape, htail => by
    rw [TypeExpr.Written] at hw
    refine .text hshape rfl (fun _ => ?_) rfl htail
    rw [TypeExpr.text]
    exact spelledOut_of_isName hw.1
  | .qualified .., .record .., _, h, _ | .instantiated .., .record .., _, h, _
  | .pointer .., .record .., _, h, _ | .map .., .record .., _, h, _
  | .chan .., .record .., _, h, _ | .func .., .record .., _, h, _
  | .slice .., .record .., _, h, _ | .interface .., .record .., _, h, _
  | .array .., .record .., _, h, _ | .symbolicArray .., .record .., _, h, _ => by
    rcases shapeOf_eq_record h with ⟨_, ht, -⟩ | ⟨_, ht, -⟩ <;> cases ht
  | .qualified .., .scalar .., _, h, htail | .instantiated .., .scalar .., _, h, htail
  | .pointer .., .scalar .., _, h, htail | .map .., .scalar .., _, h, htail
  | .chan .., .scalar .., _, h, htail | .func .., .scalar .., _, h, htail
  | .slice .., .scalar .., _, h, htail | .interface .., .scalar .., _, h, htail
  | .array .., .scalar .., _, h, htail | .symbolicArray .., .scalar .., _, h, htail =>
    .text h rfl (fun hne => absurd rfl hne) rfl htail

theorem matches_of_descriptorsOf : ∀ {fields : List (FieldDecl TypeExpr)} {ds : List Descriptor},
    WrittenAll fields → s.descriptorsOf f fields = .ok ds → s.Matches f fields ds
  | [], ds, _, hds => by
    obtain rfl := Except.ok.inj hds
    exact .nil
  | ⟨name, type, embedded⟩ :: fields, ds, hw, hds => by
    rw [WrittenAll] at hw
    obtain ⟨shape, rest, hshape, hrest, rfl⟩ := descriptorsOf_cons_eq_ok.1 hds
    exact matches_cons_of_shapeOf hw.2.1 hshape (matches_of_descriptorsOf hw.2.2 hrest)

end

/-- Reordered descriptors are descriptors of rearranged fields. -/
theorem exists_rearranges {ds es : List Descriptor} (h : Reorders ds es) :
    ∀ {fields : List (FieldDecl TypeExpr)}, s.Matches f fields ds →
      ∃ fields', Rearranges fields fields' ∧ s.Matches f fields' es := by
  induction h with
  | nil => exact fun hmatches => ⟨_, .refl _, hmatches⟩
  | cons d _ ih =>
    rintro _ (_ | ⟨hshape, ht, hspelled, hd, htail⟩ | ⟨hne, hspelled, hd, hnested, htail⟩)
    · obtain ⟨rest, hrest, hmatches⟩ := ih htail
      exact ⟨_, .cons _ hrest, .text hshape ht hspelled hd hmatches⟩
    · obtain ⟨rest, hrest, hmatches⟩ := ih htail
      exact ⟨_, .cons _ hrest, .inline hne hspelled hd hnested hmatches⟩
  | inner name size align hinline nested _ ihNested ihTail =>
    rintro _ (_ | ⟨hshape, ht, hspelled, hd, htail⟩ | ⟨hne, hspelled, hd, hnested, htail⟩)
    · -- the type is spelled out, which only the type of a written out record is
      obtain ⟨hinner, htypeName⟩ := inner_of_descriptor_eq_record hd
      rw [htypeName, hspelled hinner] at hinline
      cases hinline
    · cases hd
      obtain ⟨inner', hinner', hmatches'⟩ := ihNested hnested
      obtain ⟨rest, hrest, hmatches⟩ := ihTail htail
      exact ⟨_, .inner _ _ hinner' hrest, .inline (fun hnil => hne (nested.eq_nil_iff.2 hnil))
        hspelled (by rw [nested.widest]) hmatches' hmatches⟩
  | swap d e ds =>
    -- the heads change places, each with its field
    rintro _ (_ | ⟨hshape, ht, hspelled, hd, htail⟩ | ⟨hne, hspelled, hd, hnested, htail⟩) <;>
      rcases htail with _ | ⟨hshape', ht', hspelled', hd', htail⟩ |
        ⟨hne', hspelled', hd', hnested', htail⟩
    · exact ⟨_, .swap _ _ _, .text hshape' ht' hspelled' hd' (.text hshape ht hspelled hd htail)⟩
    · exact ⟨_, .swap _ _ _,
        .inline hne' hspelled' hd' hnested' (.text hshape ht hspelled hd htail)⟩
    · exact ⟨_, .swap _ _ _,
        .text hshape' ht' hspelled' hd' (.inline hne hspelled hd hnested htail)⟩
    · exact ⟨_, .swap _ _ _,
        .inline hne' hspelled' hd' hnested' (.inline hne hspelled hd hnested htail)⟩
  | trans _ _ ihLeft ihRight =>
    intro fields hmatches
    obtain ⟨fields', hleft, hmatches⟩ := ihLeft hmatches
    obtain ⟨fields'', hright, hmatches⟩ := ihRight hmatches
    exact ⟨fields'', hleft.trans hright, hmatches⟩

/-- Placed descriptors show the fields that they are made from. -/
theorem shows_of_describes {ds : List Descriptor} {fs : List Field} (h : Describes ds fs) :
    ∀ {fields : List (FieldDecl TypeExpr)}, s.Matches f fields ds → Shows fs fields := by
  induction h with
  | nil =>
    rintro _ (_ | _)
    exact .nil
  | padding start size _ ih => exact fun hmatches => .padding start size (ih hmatches)
  | @leaf d ds a fs start size hleaf hcheck _ ih =>
    rintro _ (_ | @⟨name, t, embedded, shape, _, _, _, _, ht, _, rfl, htail⟩ | ⟨hne, _, rfl, _, _⟩)
    · rw [shape.name_descriptor, shape.typeName_descriptor]
      exact .text embedded rfl rfl rfl ht (ih htail)
    · exact absurd hleaf hne
  | @record d ds a inner fs start widened hrecord hcheck nested _ ihNested ihTail =>
    rintro _ (_ | @⟨name, t, embedded, shape, _, _, _, _, ht, hspelled, rfl, htail⟩ |
      @⟨_, _, embedded, _, _, _, _, _, hne, hspelled, rfl, hnested, htail⟩)
    · rw [shape.children_descriptor] at hrecord
      rw [shape.name_descriptor, shape.typeName_descriptor]
      refine .text embedded rfl ?_ rfl ht (ihTail htail)
      simp [Field.isInlineRecord, Field.typeName, hspelled hrecord]
    · have hinner : inner ≠ [] := nested.ne_nil hrecord
      refine .inline embedded ?_ (fun hnil => hne (hnested.eq_nil_iff.1 hnil)) (ihNested hnested)
        (ihTail htail)
      simp [Field.isInlineRecord, Field.children, Field.typeName, Descriptor.typeName, hinner,
        hspelled]

/-- What is read from fields over lines is placed as the fields are. -/
theorem descriptorsOf_spreadBackAll (hr : s.rule.Sound) {fields : List (FieldDecl TypeExpr)}
    {ds : List Descriptor} (h : s.Matches f fields ds) : Everywhere Descriptor.Valid ds →
      ∃ es, s.descriptorsOf f (spreadBackAll fields) = .ok es ∧
        Descriptor.untypedAll es = Descriptor.untypedAll ds := by
  induction h with
  | nil =>
    intro _
    rw [spreadBackAll]
    exact ⟨[], rfl, rfl⟩
  | text hshape ht _ hd _ ih =>
    rintro (_ | ⟨-, -, hvalid⟩)
    obtain ⟨shape', hshape', hsame⟩ := shapeOf_readBack hshape
    obtain ⟨es, hes, huntyped⟩ := ih hvalid
    rw [spreadBackAll, TypeExpr.spreadBack_of_not_listing ht, hd]
    exact descriptorsOf_cons_of_untyped false hshape' hsame hes huntyped
  | @inline name typeName embedded d inner fields children ds hne _ hd _ _ ihNested ihTail =>
    rintro (_ | ⟨-, hvalidNested, hvalid⟩)
    rw [hd] at hvalidNested
    obtain ⟨children', hchildren', hsameChildren⟩ := ihNested hvalidNested
    obtain ⟨es, hes, huntyped⟩ := ihTail hvalid
    obtain ⟨placed, hplaced⟩ := place_succeeds hr hvalidNested (0 : UInt64)
    obtain ⟨shape', hshape', hsame⟩ :=
      recordShape_of_untyped hsameChildren.symm (recordShape_eq_ok.2 ⟨placed, hplaced, rfl⟩)
    have hd' : d = (Shape.record children (Field.totalSize placed)
        (.ofNat (RecordRule.widest children))).descriptor name typeName := by
      rcases children with _ | ⟨child, children⟩
      · exact absurd rfl hne
      · exact hd
    have htype : s.shapeOf f (TypeExpr.struct (spreadBackAll inner)) = .ok shape' := by
      rw [shapeOf_struct, hchildren']
      exact hshape'
    rw [spreadBackAll, TypeExpr.spreadBack, hd']
    exact descriptorsOf_cons_of_untyped false htype hsame hes huntyped

/-- The text of a proposal is read as one declaration. Its fields are those that are read from the
fields of the struct rearranged, and they are placed as the proposal is. -/
theorem relisted {fields : List (FieldDecl TypeExpr)} {ds : List Descriptor} {l : Layout}
    (hname : isName l.name = true) (hw : WrittenAll fields) (hp : allPlain fields = true)
    (hds : s.descriptorsOf f fields = .ok ds)
    (hplace : place s.rule ds (0 : UInt64) = .ok l.fields) :
    ∃ proposal moved es placed, l.reorder s.rule = .ok proposal ∧ Rearranges fields moved ∧
      (∀ text, render proposal = .ok text → ∃ lines, declarations text.toList =
        .ok [⟨l.name, .struct (spreadBackAll moved), false, lines⟩]) ∧
      s.descriptorsOf f (spreadBackAll moved) = .ok es ∧
        place s.rule es (0 : UInt64) = .ok placed ∧
          Field.untypedAll placed = Field.untypedAll proposal.fields := by
  obtain ⟨ds', proposal, hproposal, hreorders, hplaced⟩ := reorder_places hplace
  obtain ⟨moved, hmoved, hmatches⟩ := exists_rearranges hreorders (matches_of_descriptorsOf hw hds)
  have hdescribes := describes_of_place hplaced
  obtain ⟨es, hes, huntyped⟩ : ∃ es, s.descriptorsOf f (spreadBackAll moved) = .ok es ∧
      Descriptor.untypedAll es = Descriptor.untypedAll ds' := by
    by_cases hnil : ds' = []
    · obtain rfl := hmatches.eq_nil_iff.2 hnil
      rw [hnil, spreadBackAll]
      exact ⟨[], rfl, rfl⟩
    · exact descriptorsOf_spreadBackAll (sound_of_place hplaced hnil) hmatches hdescribes.valid
  obtain ⟨placed, hrelaid, hsame⟩ := place_of_untyped huntyped.symm hplaced
  refine ⟨proposal, moved, es, placed, hproposal, hmoved, fun text htext => ?_, hes, hrelaid, hsame⟩
  obtain ⟨-, rfl⟩ := render_eq_ok.1 htext
  have hproposalName := reorder_name hproposal
  obtain ⟨lines, hread⟩ := declarations_declarationText (hproposalName ▸ hname)
    (shows_of_describes hdescribes hmatches) (hmoved.writtenAll hw) (hmoved.allPlain.symm.trans hp)
  rw [hproposalName] at hread
  exact ⟨lines, hread⟩

end Scope

end Go

end StructPadding
