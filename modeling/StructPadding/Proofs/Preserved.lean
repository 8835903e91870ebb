import StructPadding.Proofs.Rearranged

/-!
# What a proposal keeps

Whatever fields a layout holds, its proposal describes the same ones (`reorder_keeps`). Padding has
no descriptor, so it may come and go; a record that holds only padding has the descriptor of a leaf.
Every step on the way keeps the descriptors: rearranging up to the order inside inline records
(`rearrangeAll_keeps`), sorting up to the order, and placing altogether.
-/

namespace StructPadding

open Descriptor (plain plainAll Alike)

theorem plainAll_append (ds es : List Descriptor) :
    plainAll (ds ++ es) = plainAll ds ++ plainAll es := by
  simp only [Descriptor.plainAll_eq_map, List.map_append]

variable {ω : Type} [Measure ω]

namespace Field

/-- Fields in another order have their descriptors in another order. -/
theorem toDescriptors_perm {fs gs : List (Field ω)} (h : fs.Perm gs) :
    ∀ {ds : List Descriptor}, toDescriptors fs = .ok ds →
      ∃ es, toDescriptors gs = .ok es ∧ ds.Perm es := by
  induction h with
  | nil => exact fun hds => ⟨_, hds, .refl _⟩
  | cons f _ ih =>
    intro ds hds
    obtain ⟨d?, ds', hd, hds', rfl⟩ := toDescriptors_cons.1 hds
    obtain ⟨es, hes, hperm⟩ := ih hds'
    exact ⟨_, toDescriptors_cons.2 ⟨d?, es, hd, hes, rfl⟩, hperm.append_left _⟩
  | swap f g fs =>
    intro ds hds
    obtain ⟨e?, ds', he, hds', rfl⟩ := toDescriptors_cons.1 hds
    obtain ⟨d?, ds'', hd, hds'', rfl⟩ := toDescriptors_cons.1 hds'
    refine ⟨d?.toList ++ (e?.toList ++ ds''), ?_, List.perm_append_comm_assoc _ _ _⟩
    exact toDescriptors_cons.2 ⟨d?, _, hd, toDescriptors_cons.2 ⟨e?, ds'', he, hds'', rfl⟩, rfl⟩
  | trans _ _ ihLeft ihRight =>
    intro ds hds
    obtain ⟨es, hes, hperm⟩ := ihLeft hds
    obtain ⟨gs, hgs, hperm'⟩ := ihRight hes
    exact ⟨gs, hgs, hperm.trans hperm'⟩

end Field

open StructPadding.Field (toDescriptors)

/-- The descriptors of the proposed fields, given those of the rearranged ones. -/
theorem exists_descriptors {rule : RecordRule} {gs placed : List (Field ω)}
    {ds : List Descriptor} (hds : toDescriptors (Field.sort gs) = .ok ds)
    (hplaced : place rule ds (0 : ω) = .ok placed) :
    ∃ es, toDescriptors gs = .ok es ∧ toDescriptors placed = .ok (plainAll ds) ∧
      Reorders (plainAll es) (plainAll ds) := by
  obtain ⟨es, hes, hperm⟩ := Field.toDescriptors_perm (sortBy_perm _ _ _ gs) hds
  refine ⟨es, hes, (describes_of_place hplaced).toDescriptors, .of_perm ?_⟩
  simp only [Descriptor.plainAll_eq_map]
  exact hperm.symm.map _

theorem reorders_plain_record (name : String) {typeName : String} (size align : Int64)
    {ds es : List Descriptor} (hinline : Field.spelledOut typeName)
    (h : Reorders (plainAll ds) (plainAll es)) :
    Reorders [(Descriptor.record name typeName size align ds).plain]
      [(Descriptor.record name typeName size align es).plain] := by
  have hnil := h.eq_nil_iff
  rcases ds with _ | ⟨d, ds⟩ <;> rcases es with _ | ⟨e, es⟩
  · exact .refl _
  · simp [plainAll] at hnil
  · simp [plainAll] at hnil
  · have hd : (Descriptor.record name typeName size align (d :: ds)).children ≠ [] := nofun
    have he : (Descriptor.record name typeName size align (e :: es)).children ≠ [] := nofun
    rw [Descriptor.plain_of_record hd, Descriptor.plain_of_record he]
    exact .inner name 0 align hinline h .nil

mutual

theorem rearrange_keeps {rule : RecordRule} : ∀ (f : Field ω) {g : Field ω}
    {e? : Option Descriptor},
    f.rearrange rule = .ok g → g.toDescriptor = .ok e? →
      ∃ d?, f.toDescriptor = .ok d? ∧ Reorders (plainAll d?.toList) (plainAll e?.toList)
  | .padding start size, g, e?, hg, he => by
    rw [Field.rearrange] at hg
    obtain rfl := Except.ok.inj hg
    exact ⟨e?, he, .refl _⟩
  | .leaf name typeName start size declared align, g, e?, hg, he => by
    rw [Field.rearrange] at hg
    obtain rfl := Except.ok.inj hg
    exact ⟨e?, he, .refl _⟩
  | .record name typeName start align widened children, g, e?, hg, he => by
    by_cases hinline : (Field.record name typeName start align widened children).isInlineRecord
    · rw [rearrange_inline hinline] at hg
      rcases hplaced : Field.reorderAll rule children with e | placed <;> rw [hplaced] at hg
      · cases hg
      obtain rfl := Except.ok.inj hg
      obtain ⟨gs, ds, hgs, hds, hplace⟩ := reorderAll_eq_ok.1 hplaced
      obtain ⟨es, hes, hback, hsorted⟩ := exists_descriptors hds hplace
      obtain ⟨cs, hcs, hreorders⟩ := rearrangeAll_keeps children hgs hes
      rw [Field.toDescriptor, hback] at he
      obtain rfl := Except.ok.inj he
      refine ⟨some (.record name typeName 0 (Int64.ofNat align.bytes) cs), ?_, ?_⟩
      · rw [Field.toDescriptor, hcs]
        rfl
      · have hnested : Reorders (plainAll cs) (plainAll (plainAll ds)) := by
          rw [Descriptor.plainAll_plainAll]
          exact hreorders.trans hsorted
        exact reorders_plain_record name 0 _ (Bool.and_eq_true_iff.1 hinline).2 hnested
    · rw [Field.rearrange, if_neg hinline] at hg
      obtain rfl := Except.ok.inj hg
      exact ⟨e?, he, .refl _⟩

theorem rearrangeAll_keeps {rule : RecordRule} : ∀ (fs : List (Field ω)) {gs : List (Field ω)}
    {es : List Descriptor}, Field.rearrangeAll rule fs = .ok gs → toDescriptors gs = .ok es →
      ∃ ds, toDescriptors fs = .ok ds ∧ Reorders (plainAll ds) (plainAll es)
  | [], gs, es, hgs, hes => by
    rw [Field.rearrangeAll] at hgs
    obtain rfl := Except.ok.inj hgs
    exact ⟨es, hes, .refl _⟩
  | f :: fs, gs, es, hgs, hes => by
    rw [Field.rearrangeAll] at hgs
    split_ifs at hgs with hpadding
    · obtain ⟨ds, hds, hreorders⟩ := rearrangeAll_keeps fs hgs hes
      refine ⟨ds, Field.toDescriptors_cons.2 ⟨none, ds, ?_, hds, rfl⟩, hreorders⟩
      cases f with
      | padding => rw [Field.toDescriptor]
      | _ => cases hpadding
    · simp only [bind_eq_ok, pure, Except.pure, Except.ok.injEq] at hgs
      obtain ⟨g, hg, gs', hgs', rfl⟩ := hgs
      obtain ⟨e?, es', he, hes', rfl⟩ := Field.toDescriptors_cons.1 hes
      obtain ⟨d?, hd, hhead⟩ := rearrange_keeps f hg he
      obtain ⟨ds, hds, htail⟩ := rearrangeAll_keeps fs hgs' hes'
      refine ⟨_, Field.toDescriptors_cons.2 ⟨d?, ds, hd, hds, rfl⟩, ?_⟩
      rw [plainAll_append, plainAll_append]
      exact hhead.append htail

end

/-- A proposal is of the same declaration. Its fields have the descriptors of the fields that it was
made for, in another order here and in the inline records, and it is those descriptors placed. -/
theorem reorder_keeps {rule : RecordRule} {l proposal : Layout}
    (h : l.reorder rule = .ok proposal) :
    proposal.name = l.name ∧ proposal.lines = l.lines ∧ ∃ ds gs es,
      toDescriptors l.fields = .ok ds ∧ toDescriptors proposal.fields = .ok es ∧
      (plainAll ds).Perm gs ∧ List.Forall₂ Alike gs es ∧ place rule es 0 = .ok proposal.fields := by
  obtain ⟨placed, hplaced, rfl⟩ := reorder_eq_ok.1 h
  obtain ⟨gs, es, hgs, hes, hplace⟩ := reorderAll_eq_ok.1 hplaced
  obtain ⟨cs, hcs, hback, hsorted⟩ := exists_descriptors hes hplace
  obtain ⟨ds, hds, hreorders⟩ := rearrangeAll_keeps l.fields hgs hcs
  obtain ⟨bs, hperm, halike⟩ := reorders_iff.1 (hreorders.trans hsorted)
  exact ⟨rfl, rfl, ds, bs, plainAll es, hds, hback, hperm, halike, place_plainAll hplace⟩

/-- Fields that no placement gives: out of place, of one name, and records of nothing but padding.
-/
def handmade (byte : Alignment) : Layout where
  name := "T"
  lines := ⟨3, 1⟩
  fields :=
    [.leaf "a" "bool" 5 3 1 byte, .padding 9 0,
      .record "s" "struct\x7b\x7d" 1 byte false [.padding 0 3],
      .record "in" "struct \x7b x bool; y int64 \x7d" 8 .word false
        [.leaf "x" "bool" 8 1 1 byte, .padding 9 7, .leaf "y" "int64" 16 8 8 .word],
      .record "p" "Point" 40 byte false
        [.record "e" "Empty" 40 byte false [.padding 0 2], .leaf "x" "bool" 7 1 1 byte],
      .leaf "a" "int64" 0 8 8 .word]

/-- The proposal for them, from those for the inline records among them. -/
theorem reorder_handmade : ∃ proposal,
    (handmade ⟨⟨0, by decide⟩⟩).reorder .standard = .ok proposal ∧
      (proposal.fields.map fun f => (f.name, f.children.map Field.name)) =
        [("s", []), ("in", ["y", "x", ""]), ("a", []), ("p", ["e", "x", ""]), ("a", []),
          ("", [])] := by
  have hnone : Field.reorderAll .standard [(.padding 0 3 : Field)] = .ok [] :=
    reorderAll_of_strict [] rfl (.refl []) .nil rfl rfl
  have hinner : Field.reorderAll .standard [(.leaf "x" "bool" 8 1 1 ⟨⟨0, by decide⟩⟩ : Field),
      .padding 9 7, .leaf "y" "int64" 16 8 8 .word] =
      .ok [.leaf "y" "int64" 0 8 8 .word, .leaf "x" "bool" 8 1 1 ⟨⟨0, by decide⟩⟩,
        .padding 9 7] :=
    reorderAll_of_strict [.leaf "y" "int64" 16 8 8 .word, .leaf "x" "bool" 8 1 1 ⟨⟨0, by decide⟩⟩]
      rfl (by decide +kernel) (by decide +kernel) rfl (by decide +kernel)
  have hrearranged : Field.rearrangeAll .standard (handmade ⟨⟨0, by decide⟩⟩).fields =
      .ok [.leaf "a" "bool" 5 3 1 ⟨⟨0, by decide⟩⟩,
        .record "s" "struct\x7b\x7d" 1 ⟨⟨0, by decide⟩⟩ false [],
        .record "in" "struct \x7b x bool; y int64 \x7d" 8 .word false
          [.leaf "y" "int64" 0 8 8 .word, .leaf "x" "bool" 8 1 1 ⟨⟨0, by decide⟩⟩, .padding 9 7],
        .record "p" "Point" 40 ⟨⟨0, by decide⟩⟩ false
          [.record "e" "Empty" 40 ⟨⟨0, by decide⟩⟩ false [.padding 0 2],
            .leaf "x" "bool" 7 1 1 ⟨⟨0, by decide⟩⟩],
        .leaf "a" "int64" 0 8 8 .word] := by
    refine rearrangeAll_cons_of rfl rfl ?_
    rw [Field.rearrangeAll, if_pos (show (Field.padding 9 0 : Field).isPadding = true from rfl)]
    refine rearrangeAll_cons_of rfl (by rw [rearrange_inline (by decide), hnone]; rfl) ?_
    refine rearrangeAll_cons_of rfl (by rw [rearrange_inline (by decide), hinner]; rfl) ?_
    exact rearrangeAll_cons_of rfl rfl (rearrangeAll_cons_of rfl rfl rfl)
  let sorted : List Field := [.record "s" "struct\x7b\x7d" 1 ⟨⟨0, by decide⟩⟩ false [],
    .record "in" "struct \x7b x bool; y int64 \x7d" 8 .word false
      [.leaf "y" "int64" 0 8 8 .word, .leaf "x" "bool" 8 1 1 ⟨⟨0, by decide⟩⟩, .padding 9 7],
    .leaf "a" "int64" 0 8 8 .word,
    .record "p" "Point" 40 ⟨⟨0, by decide⟩⟩ false
      [.record "e" "Empty" 40 ⟨⟨0, by decide⟩⟩ false [.padding 0 2],
        .leaf "x" "bool" 7 1 1 ⟨⟨0, by decide⟩⟩],
    .leaf "a" "bool" 5 3 1 ⟨⟨0, by decide⟩⟩]
  obtain ⟨ds, hds⟩ : ∃ ds, toDescriptors sorted = .ok ds := ⟨_, rfl⟩
  have hnames : (toDescriptors sorted >>= fun ds => place .standard ds (0 : UInt64)).map
      (fun fields => fields.map fun f => (f.name, f.children.map Field.name)) =
      .ok [("s", []), ("in", ["y", "x", ""]), ("a", []), ("p", ["e", "x", ""]), ("a", []),
        ("", [])] := by
    decide +kernel
  rcases hplace : place .standard ds (0 : UInt64) with e | placed <;>
    simp only [hds, bind, Except.bind, hplace, Except.map] at hnames
  · cases hnames
  · have hplaced := reorderAll_of_strict sorted hrearranged (by decide +kernel)
      (by decide +kernel) hds hplace
    exact ⟨_, reorder_eq_ok.2 ⟨placed, hplaced, rfl⟩, Except.ok.inj hnames⟩

theorem reorder_keeps_handmade : ∃ proposal,
    (handmade ⟨⟨0, by decide⟩⟩).reorder .standard = .ok proposal ∧
    (proposal.fields.map fun f => (f.name, f.children.map Field.name)) =
      [("s", []), ("in", ["y", "x", ""]), ("a", []), ("p", ["e", "x", ""]), ("a", []), ("", [])] ∧
    proposal.name = "T" ∧ proposal.lines = ⟨3, 1⟩ ∧ ∃ ds gs es,
      toDescriptors (handmade ⟨⟨0, by decide⟩⟩).fields = .ok ds ∧
      toDescriptors proposal.fields = .ok es ∧ (plainAll ds).Perm gs ∧
      List.Forall₂ Alike gs es ∧ place .standard es 0 = .ok proposal.fields := by
  obtain ⟨proposal, hproposal, hnames⟩ := reorder_handmade
  exact ⟨proposal, hproposal, hnames, reorder_keeps hproposal⟩

end StructPadding
