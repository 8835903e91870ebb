import StructPadding.Proofs.Arrangement
import StructPadding.Proofs.Words

/-!
# Proposals in words

The proposal for a layout of words is the one in numbers if that one, and the one for each inline
record on the way, ends below 2^64 (`Settled`, `reorder_words`). Where records are aligned at least
as much as their fields, only the whole proposal has to be looked at (`settled_of_place`), since an
inline record is laid out in it just as it was on its own.
-/

namespace StructPadding

open Descriptor (arrangement)
open StructPadding.Field (wordsAll unpadded)

/-! ## The steps of a proposal -/

theorem isInlineRecord_words (f : Field Nat) : f.words.isInlineRecord = f.isInlineRecord := by
  simp [Field.isInlineRecord, Field.wordsAll_eq_map]

mutual

theorem toDescriptor_words : ∀ (f : Field Nat) {d? : Option Descriptor},
    f.toDescriptor = .ok d? → f.words.toDescriptor = .ok d?
  | .padding .., d?, h => h
  | .leaf name typeName start size declared align, d?, h => by
    rw [Field.toDescriptor] at h
    rw [Field.words, Field.toDescriptor]
    split_ifs at h with hlt
    have hword : (UInt64.ofNat declared).toNat = declared :=
      toNat_word (lt_trans hlt (by decide))
    simp only [Measure.toNat] at h hlt ⊢
    rw [hword, if_pos hlt, ← h]
  | .record name typeName start align widened children, d?, h => by
    simp only [Field.toDescriptor, bind_eq_ok] at h
    obtain ⟨nested, hnested, h⟩ := h
    rw [Field.words, Field.toDescriptor, toDescriptors_words children hnested]
    exact h

/-- What has descriptors in numbers has the same ones in words. -/
theorem toDescriptors_words : ∀ (fs : List (Field Nat)) {ds : List Descriptor},
    Field.toDescriptors fs = .ok ds → Field.toDescriptors (wordsAll fs) = .ok ds
  | [], ds, h => h
  | f :: fs, ds, h => by
    obtain ⟨d?, ds', hd, hds, rfl⟩ := Field.toDescriptors_cons.1 h
    exact Field.toDescriptors_cons.2
      ⟨d?, ds', toDescriptor_words f hd, toDescriptors_words fs hds, rfl⟩

end

theorem sort_words {fs : List (Field Nat)} (h : ∀ f ∈ fs, f.declared < UInt64.size) :
    Field.sort (wordsAll fs) = wordsAll (Field.sort fs) := by
  have hdeclared : ∀ f ∈ fs, Measure.toNat f.words.declared = Measure.toNat f.declared := by
    intro f hf
    rw [Field.declared_words]
    exact toNat_word (h f hf)
  rw [Field.wordsAll_eq_map, Field.wordsAll_eq_map, Field.sort, Field.sort]
  refine (List.map_mergeSort fun f hf g hg => ?_).symm
  simp only [Field.order, hdeclared f hf, hdeclared g hg, Field.alignBytes_words, Field.name_words]

/-- The proposal for these fields in numbers takes fewer than 2^64 bytes, and so do those for the
fields of the inline records reached from here. -/
inductive Settled (rule : RecordRule) : List (Field Nat) → Prop
  | mk {fs : List (Field Nat)}
    (proposal : ∀ placed ∈ (Field.reorderAll rule fs).toOption,
      Field.totalSize placed < UInt64.size)
    (inner : ∀ f ∈ fs, f.isInlineRecord → Settled rule f.children) : Settled rule fs

section

variable {rule : RecordRule}

/-- A field other than padding that takes fewer than 2^64 bytes if it is a record. -/
structure Field.Sized (f : Field Nat) : Prop where
  isPadding : f.isPadding = false
  record : f.isRecord → f.declared < UInt64.size

/-- One field on its way into the proposal, if the fields in it are known to get there. -/
theorem rearrange_words {f g : Field Nat} (hf : f.Sized)
    (hinner : f.isInlineRecord → ∀ {placed}, Field.reorderAll rule f.children = .ok placed →
      Field.totalSize placed < UInt64.size ∧
        Field.reorderAll rule (wordsAll f.children) = .ok (wordsAll placed))
    (hg : f.rearrange rule = .ok g) : f.words.rearrange rule = .ok g.words ∧ g.Sized := by
  by_cases hinline : f.isInlineRecord
  · cases f with
    | record name typeName start align widened children =>
      rw [rearrange_inline hinline] at hg
      rcases hplaced : Field.reorderAll rule children with e | placed
      · rw [hplaced] at hg
        cases hg
      · rw [hplaced] at hg
        obtain rfl := Except.ok.inj hg
        obtain ⟨hsize, hwords⟩ := hinner hinline hplaced
        rw [Field.children] at hwords
        rw [← isInlineRecord_words] at hinline
        refine ⟨?_, rfl, fun _ => hsize⟩
        rw [Field.words, rearrange_inline hinline, hwords]
        rfl
    | _ => cases hinline
  · rw [rearrange_of_not_inline hinline] at hg
    obtain rfl := Except.ok.inj hg
    exact ⟨rearrange_of_not_inline (by rwa [isInlineRecord_words]), hf⟩

theorem rearrangeAll_words {fs gs : List (Field Nat)}
    (h : ∀ f ∈ fs, f.isPadding = false → ∀ g, f.rearrange rule = .ok g →
      f.words.rearrange rule = .ok g.words ∧ g.Sized)
    (hgs : Field.rearrangeAll rule fs = .ok gs) :
    Field.rearrangeAll rule (wordsAll fs) = .ok (wordsAll gs) ∧ ∀ g ∈ gs, g.Sized := by
  induction fs generalizing gs with
  | nil =>
    obtain rfl := Except.ok.inj hgs
    exact ⟨rfl, by simp⟩
  | cons f fs ih =>
    obtain ⟨hf, hfs⟩ := List.forall_mem_cons.1 h
    rw [Field.rearrangeAll] at hgs
    rcases hpadding : f.isPadding with _ | _
    · simp only [hpadding, Bool.false_eq_true, if_false, bind_eq_ok, pure, Except.pure,
        Except.ok.injEq] at hgs
      obtain ⟨g, hg, gs, hgs, rfl⟩ := hgs
      obtain ⟨hwords, hsized⟩ := hf hpadding g hg
      obtain ⟨hwordsAll, hsizedAll⟩ := ih hfs hgs
      exact ⟨rearrangeAll_cons_of (by rwa [Field.isPadding_words]) hwords hwordsAll,
        List.forall_mem_cons.2 ⟨hsized, hsizedAll⟩⟩
    · rw [if_pos hpadding] at hgs
      rw [wordsAll, Field.rearrangeAll, if_pos (by rwa [Field.isPadding_words])]
      exact ih hfs hgs

/-- A leaf that has a descriptor was declared with a word. -/
theorem declared_lt_of_toDescriptors {fs : List (Field Nat)} {ds : List Descriptor}
    (h : Field.toDescriptors fs = .ok ds) {f : Field Nat} (hf : f ∈ fs) (hsized : f.Sized) :
    f.declared < UInt64.size := by
  induction fs generalizing ds with
  | nil => cases hf
  | cons g fs ih =>
    obtain ⟨d?, ds, hd, hds, -⟩ := Field.toDescriptors_cons.1 h
    rcases List.mem_cons.1 hf with rfl | hf
    · cases f with
      | padding => cases hsized.isPadding
      | leaf name typeName start size declared align =>
        rw [Field.toDescriptor] at hd
        split_ifs at hd with hlt
        exact lt_trans hlt (by decide)
      | record => exact hsized.record rfl
    · exact ih hds hf

/-- The words of a settled proposal are the proposal for the words. -/
theorem Settled.reorderAll_words {fs placed : List (Field Nat)} (h : Settled rule fs)
    (hrecords : ∀ f : Field Nat, f.Within fs → f.isRecord → f.declared < UInt64.size)
    (hplaced : Field.reorderAll rule fs = .ok placed) :
    Field.totalSize placed < UInt64.size ∧
      Field.reorderAll rule (wordsAll fs) = .ok (wordsAll placed) := by
  induction h generalizing placed with
  | @mk fs hproposal _ ih =>
    have hsize : Field.totalSize placed < UInt64.size := hproposal placed (by rw [hplaced]; rfl)
    obtain ⟨gs, ds, hgs, hds, hplace⟩ := reorderAll_eq_ok.1 hplaced
    have hstep : ∀ f ∈ fs, f.isPadding = false → ∀ g, f.rearrange rule = .ok g →
        f.words.rearrange rule = .ok g.words ∧ g.Sized := by
      intro f hf hpadding g hg
      refine rearrange_words ⟨hpadding, hrecords f (.here hf)⟩ (fun hinline placed hplaced => ?_) hg
      exact ih f hf hinline (fun e he => hrecords e (.inside hf he)) hplaced
    obtain ⟨hwords, hsized⟩ := rearrangeAll_words hstep hgs
    have hdeclared : ∀ g ∈ gs, g.declared < UInt64.size := by
      intro g hg
      have hmem : g ∈ Field.sort gs := (List.mergeSort_perm gs _).mem_iff.2 hg
      exact declared_lt_of_toDescriptors hds hmem (hsized g hg)
    refine ⟨hsize, reorderAll_eq_ok.2 ⟨wordsAll gs, ds, hwords, ?_, ?_⟩⟩
    · rw [sort_words hdeclared]
      exact toDescriptors_words _ hds
    · exact @place_words rule ds 0 placed hplace (by omega)

end

/-! ## Proposals for placed fields -/

/-- The proposal in numbers for a declaration laid out in numbers is settled. -/
def Settles (rule : RecordRule) (ds : List Descriptor) (base : Nat) : Prop :=
  ∀ fs ∈ (place rule ds base).toOption, Settled rule fs

section

variable {rule : RecordRule} {ds : List Descriptor}

theorem Settles.settled {base : Nat} (hsettles : Settles rule ds base) {fs : List (Field Nat)}
    (h : place rule ds base = .ok fs) : Settled rule fs :=
  hsettles fs (by rw [h]; rfl)

theorem declared_lt_of_place {base : Nat} {fs : List (Field Nat)} {f : Field Nat}
    (h : place rule ds base = .ok fs) (hroom : base + Field.totalSize fs < UInt64.size)
    (hwithin : f.Within fs) (hf : f.isRecord) : f.declared < UInt64.size := by
  have hspans := spans_of_place h hf hwithin
  have hstop : f.start + f.size ≤ base + Field.totalSize fs := hspans.stop_le
  have hsize := hspans.size
  cases f with
  | record => simp only [Field.declared, Field.children] at hsize ⊢; omega
  | _ => cases hf

/-- With room for it, the proposal for a placed declaration is the one in numbers. -/
theorem reorder_words {base : UInt64} {l : Layout} (hfits : Fits rule ds base.toNat)
    (hsettles : Settles rule ds base.toNat) (h : place rule ds base = .ok l.fields) :
    ∃ es placed, place rule ds base.toNat = .ok es ∧ l.fields = wordsAll es ∧
      Field.reorderAll rule es = .ok placed ∧ Field.totalSize placed < UInt64.size ∧
      l.reorder rule = .ok { l with fields := wordsAll placed } := by
  obtain ⟨es, hes, hfields⟩ := hfits.words h
  obtain ⟨-, placed, hplaced, -⟩ := reorderAll_places hes
  obtain ⟨hsize, hwords⟩ := (hsettles.settled hes).reorderAll_words
    (fun f hwithin hf => declared_lt_of_place hes (hfits.lt hes) hwithin hf) hplaced
  refine ⟨es, placed, hes, hfields, hplaced, hsize, ?_⟩
  rw [← hfields] at hwords
  exact reorder_eq_ok.2 ⟨_, hwords, rfl⟩

/-! ## Records aligned as their fields -/

theorem exists_realises {ω : Type} [Measure ω] {d : Descriptor} {base : ω} {fs : List (Field ω)}
    (h : place rule ds base = .ok fs) (hd : d ∈ ds) : ∃ f ∈ fs, Realises rule d f := by
  have hall := realises_of_place h
  obtain ⟨i, hi, rfl⟩ := List.getElem_of_mem hd
  have hlen := hall.length_eq
  obtain ⟨hmem, -⟩ := Field.mem_unpadded.1 (List.getElem_mem (l := unpadded fs) (n := i) (by omega))
  exact ⟨_, hmem, hall.get hi (by omega)⟩

theorem exists_realised {ω : Type} [Measure ω] {f : Field ω} {base : ω} {fs : List (Field ω)}
    (h : place rule ds base = .ok fs) (hf : f ∈ fs) (hpadding : f.isPadding = false) :
    ∃ d ∈ ds, Realises rule d f := by
  have hall := realises_of_place h
  obtain ⟨i, hi, rfl⟩ := List.getElem_of_mem (Field.mem_unpadded.2 ⟨hf, hpadding⟩)
  have hlen := hall.length_eq
  exact ⟨_, List.getElem_mem (by omega), hall.get (by omega) hi⟩

/-- A record takes no more than the layout it stands in. -/
theorem fixedSize_le_of_place {d : Descriptor} {base : Nat} {fs : List (Field Nat)}
    (h : place rule ds base = .ok fs) (hd : d ∈ ds) (henclosing : d.Enclosing)
    (hnested : Everywhere Descriptor.Enclosing d.children) (hrecord : d.children ≠ []) :
    d.fixedSize rule ≤ Field.totalSize fs := by
  obtain ⟨f, hf, hrealises⟩ := exists_realises h hd
  have hkeyed := hrealises.keyed henclosing hnested
  have hle := size_le_totalSize hf
  cases hrealises with
  | leaf start size hleaf => exact absurd hleaf hrecord
  | record offset widened hrecord hcheck hinner =>
    have hspans := spans_of_place h rfl (.here hf)
    rw [← hkeyed.size, Field.declared]
    rwa [hspans.size] at hle

/-- An inline record takes no more than the proposal it stands in. -/
theorem arrangement_le_of_place {d : Descriptor} {placed inner : List (Field Nat)}
    (hds : Everywhere Descriptor.Enclosing ds)
    (hplaced : place rule (arrangement rule ds) (0 : Nat) = .ok placed) (hd : d ∈ ds)
    (hinline : d.Inline) (hinner : place rule (arrangement rule d.children) (0 : Nat) = .ok inner) :
    Field.totalSize inner ≤ Field.totalSize placed := by
  have hmem : d.rearrange rule ∈ arrangement rule ds := by
    rw [arrangement, (Descriptor.sort_perm rule _).mem_iff, Descriptor.rearrangeAll_eq_map]
    exact List.mem_map_of_mem hd
  obtain ⟨henclosing, hnested⟩ := hds.mem d hd
  obtain ⟨henclosing', hnested'⟩ := enclosing_rearrange rule henclosing hnested
  have hrecord : arrangement rule d.children ≠ [] := fun hnil =>
    hinline.1 ((Descriptor.reorders_arrangement rule d.children).eq_nil_iff.2 hnil)
  rw [Descriptor.rearrange_of_inline rule hinline] at hmem henclosing' hnested'
  have hle := fixedSize_le_of_place hplaced hmem henclosing' hnested' hrecord
  rwa [fixedSize_record henclosing' hnested' hrecord (Nat.dvd_zero _) hinner] at hle

/-- Fields settle if the proposal for them takes fewer than 2^64 bytes, given as much about the
inline records among them. -/
theorem settled_step {base : Nat} {fs placed : List (Field Nat)}
    (hds : Everywhere Descriptor.Enclosing ds) (h : place rule ds base = .ok fs)
    (hplaced : place rule (arrangement rule ds) (0 : Nat) = .ok placed)
    (hsize : Field.totalSize placed < UInt64.size)
    (ih : ∀ d ∈ ds, ∀ {base : Nat} {fs placed : List (Field Nat)},
      place rule d.children base = .ok fs →
      place rule (arrangement rule d.children) (0 : Nat) = .ok placed →
      Field.totalSize placed < UInt64.size → Settled rule fs) : Settled rule fs := by
  refine .mk (fun proposal hproposal => ?_) fun f hf hinline => ?_
  · obtain ⟨placed', hplaced', hdone⟩ := reorderAll_of_place hds h
    rw [hdone] at hproposal
    obtain rfl := Option.some.inj hproposal
    obtain rfl := Except.ok.inj (hplaced.symm.trans hplaced')
    exact hsize
  · have hpadding : f.isPadding = false := by
      cases f with
      | padding => cases hinline
      | _ => rfl
    obtain ⟨d, hd, hrealises⟩ := exists_realised h hf hpadding
    have hdinline := hrealises.isInlineRecord_iff.1 hinline
    cases hrealises with
    | leaf start size hleaf => exact absurd hleaf hdinline.1
    | record offset widened hrecord hcheck hinner =>
      obtain ⟨inner, hplacedInner⟩ :=
        (Descriptor.reorders_arrangement rule d.children).exists_place hinner (0 : Nat)
      have hle := arrangement_le_of_place hds hplaced hd hdinline hplacedInner
      exact ih d hd hinner hplacedInner (by omega)

/-- The proposal for a declaration settles if it takes fewer than 2^64 bytes as a whole. -/
theorem settled_of_place {base : Nat} {fs placed : List (Field Nat)}
    (hds : Everywhere Descriptor.Enclosing ds) (h : place rule ds base = .ok fs)
    (hplaced : place rule (arrangement rule ds) (0 : Nat) = .ok placed)
    (hsize : Field.totalSize placed < UInt64.size) : Settled rule fs := by
  refine settled_step hds h hplaced hsize ?_
  clear h hplaced hsize
  -- by induction on the declaration, for the records in it
  induction hds with
  | nil => exact fun d hd => nomatch hd
  | cons _ nested _ ihNested ihTail =>
    refine List.forall_mem_cons.2 ⟨fun h hplaced hsize => ?_, ihTail⟩
    exact settled_step nested h hplaced hsize ihNested

/-- So the proposal for a placed declaration is its arrangement, placed from the start. -/
theorem reorder_arrangement {base : UInt64} {l : Layout}
    (hds : Everywhere Descriptor.Enclosing ds) (h : place rule ds base = .ok l.fields)
    (hfits : Fits rule ds base.toNat) (hsettles : Settles rule ds base.toNat) :
    ∃ placed, place rule (arrangement rule ds) (0 : Nat) = .ok placed ∧
      Field.totalSize placed < UInt64.size ∧
      l.reorder rule = .ok { l with fields := wordsAll placed } := by
  obtain ⟨es, placed, hes, -, hplaced, hsize, hproposal⟩ := reorder_words hfits hsettles h
  obtain ⟨placed', hplaced', hdone⟩ := reorderAll_of_place hds hes
  obtain rfl := Except.ok.inj (hplaced.symm.trans hdone)
  exact ⟨placed, hplaced', hsize, hproposal⟩

theorem Settles.of_place {base : Nat} {placed : List (Field Nat)}
    (hds : Everywhere Descriptor.Enclosing ds)
    (hplaced : place rule (arrangement rule ds) (0 : Nat) = .ok placed)
    (hsize : Field.totalSize placed < UInt64.size) : Settles rule ds base := by
  intro fs hfs
  rcases h : place rule ds base with e | fs'
  · rw [h] at hfs
    cases hfs
  · rw [h] at hfs
    obtain rfl := Option.some.inj hfs
    exact settled_of_place hds h hplaced hsize

end

/-! ## No room -/

/-- Two flags, each in front of an array of nearly half of all words. -/
def overlong : List Descriptor :=
  [.leaf "a" "bool" 1 1, .leaf "b" "[1152921504606846975]int64" 9223372036854775800 8,
    .leaf "d" "bool" 1 1, .leaf "c" "[1152921504606846975]int64" 9223372036854775800 8]

/-- Their layout in words, of size 2^64, has wrapped around to nothing. -/
def overlongFields : List Field :=
  (place .standard overlong 0).toOption.getD []

/-- The proposal for it ends just below 2^64. -/
def overlongProposal : List Field :=
  (Field.placeNamed .standard ["b", "c", "a", "d"] overlongFields).toOption.getD []

theorem place_overlong : place .standard overlong 0 = .ok overlongFields :=
  eq_ok_getD (by decide +kernel)

theorem reorderAll_overlong : Field.reorderAll .standard overlongFields = .ok overlongProposal :=
  (reorderAll_of_names (by decide +kernel) (by decide +kernel) (by decide +kernel)).trans
    (eq_ok_getD (by decide +kernel))

end StructPadding
