import StructPadding.Proofs.Settled
import StructPadding.Review.Advice

/-!
# Proposals

What holds of a proposal as long as it and the layout it is made for end below 2^64. It takes the
fewest bytes of all orders of a regular declaration (`reorder_least`). Where records are aligned at
least as much as their fields, it is final (`reorder_idempotent`), and the same for all orders of a
declaration if the names of neighbours differ (`reorder_of_reorders`). Sizes that wrap around break
each of these.
-/

namespace StructPadding

open Descriptor (arrangement)
open StructPadding.Field (wordsAll)

/-! ## The fewest bytes -/

theorem Packed.words {fs : List (Field Nat)} (h : Packed fs) : Packed (wordsAll fs) := by
  induction h with
  | rest h =>
    refine .rest fun f hf => ?_
    rw [Field.wordsAll_eq_map, List.mem_map] at hf
    obtain ⟨e, he, rfl⟩ := hf
    rw [Field.isPadding_words]
    exact h e he
  | field hfield _ _ ihInner ihTail =>
    rw [wordsAll]
    refine .field (by rwa [Field.isPadding_words]) (fun hinline => ?_) ihTail
    rw [isInlineRecord_words] at hinline
    rw [Field.children_words]
    exact ihInner hinline

theorem totalSize_words_le {fs gs : List (Field Nat)} (hfs : Field.totalSize fs < UInt64.size)
    (hgs : Field.totalSize gs < UInt64.size) :
    Field.totalSize (wordsAll fs) ≤ Field.totalSize (wordsAll gs) ↔
      Field.totalSize fs ≤ Field.totalSize gs := by
  rw [Field.totalSize_words, Field.totalSize_words, UInt64.le_iff_toNat_le, toNat_word hfs,
    toNat_word hgs]

theorem regular_overlong : Everywhere (Descriptor.Regular .standard) overlong := by
  refine everywhere_regular_leaf 0 (by decide) (by decide) (by decide) (by decide) ?_
  refine everywhere_regular_leaf 3 (by decide) (by decide) (by decide) (by decide) ?_
  refine everywhere_regular_leaf 0 (by decide) (by decide) (by decide) (by decide) ?_
  exact everywhere_regular_leaf 3 (by decide) (by decide) (by decide) (by decide) .nil

/-- A record within a record, an alignment larger than that of any field, a leaf of no size, a
record of a named type, and two flags that only their names tell apart. -/
def layered : List Descriptor :=
  [.leaf "b" "bool" 1 1,
    .record "outer" "struct \x7b in struct \x7b ok bool; n int64 \x7d; e [0]int32 \x7d" 0 16
      [.record "in" "struct \x7b ok bool; n int64 \x7d" 0 8
        [.leaf "ok" "bool" 1 1, .leaf "n" "int64" 8 8],
        .leaf "e" "[0]int32" 0 4],
    .record "point" "Point" 0 4 [.leaf "set" "bool" 1 1, .leaf "x" "int32" 4 4],
    .leaf "a" "bool" 1 1]

theorem everywhere_enclosing_leaf {name typeName : String} {size align : Int64}
    {ds : List Descriptor} (e : Nat) (hsize : 0 ≤ size.toInt)
    (halign : align.toInt = (Nat.pow 2 e : Nat)) (htail : Everywhere Descriptor.Enclosing ds) :
    Everywhere Descriptor.Enclosing (.leaf name typeName size align :: ds) :=
  .cons ⟨⟨hsize, e, halign⟩, nofun⟩ .nil htail

theorem enclosing_layered : Everywhere Descriptor.Enclosing layered := by
  refine everywhere_enclosing_leaf 0 (by decide) (by decide) ?_
  refine .cons ⟨⟨by decide, 4, by decide⟩, by decide⟩ ?_ ?_
  · refine .cons ⟨⟨by decide, 3, by decide⟩, by decide⟩ ?_ ?_
    · refine everywhere_enclosing_leaf 0 (by decide) (by decide) ?_
      exact everywhere_enclosing_leaf 3 (by decide) (by decide) .nil
    · exact everywhere_enclosing_leaf 2 (by decide) (by decide) .nil
  refine .cons ⟨⟨by decide, 2, by decide⟩, by decide⟩ ?_ ?_
  · refine everywhere_enclosing_leaf 0 (by decide) (by decide) ?_
    exact everywhere_enclosing_leaf 2 (by decide) (by decide) .nil
  exact everywhere_enclosing_leaf 0 (by decide) (by decide) .nil

/-- How it is arranged: the leaf of no size comes first in its record, and the flags come last. -/
def layeredSorted : List Descriptor :=
  [.record "outer" "struct \x7b in struct \x7b ok bool; n int64 \x7d; e [0]int32 \x7d" 0 16
      [.leaf "e" "[0]int32" 0 4,
        .record "in" "struct \x7b ok bool; n int64 \x7d" 0 8
          [.leaf "n" "int64" 8 8, .leaf "ok" "bool" 1 1]],
    .record "point" "Point" 0 4 [.leaf "set" "bool" 1 1, .leaf "x" "int32" 4 4],
    .leaf "a" "bool" 1 1, .leaf "b" "bool" 1 1]

theorem arrangement_layered : arrangement .standard layered = layeredSorted := by
  have hin : Descriptor.sort .standard [.leaf "ok" "bool" 1 1, .leaf "n" "int64" 8 8] =
      [.leaf "n" "int64" 8 8, .leaf "ok" "bool" 1 1] :=
    sortBy_eq_of_strict (.swap ..) (by decide +kernel)
  have houter : Descriptor.sort .standard
      [.record "in" "struct \x7b ok bool; n int64 \x7d" 0 8
        [.leaf "n" "int64" 8 8, .leaf "ok" "bool" 1 1], .leaf "e" "[0]int32" 0 4] =
      [.leaf "e" "[0]int32" 0 4, .record "in" "struct \x7b ok bool; n int64 \x7d" 0 8
        [.leaf "n" "int64" 8 8, .leaf "ok" "bool" 1 1]] :=
    sortBy_eq_of_strict (.swap ..) (by decide +kernel)
  have hinline : Field.spelledOut "struct \x7b ok bool; n int64 \x7d" := by decide
  have houtline :
      Field.spelledOut "struct \x7b in struct \x7b ok bool; n int64 \x7d; e [0]int32 \x7d" := by
    decide
  have hnamed : ¬Field.spelledOut "Point" := by decide
  simp only [arrangement, layered, Descriptor.rearrangeAll, Descriptor.rearrange, if_pos hinline,
    if_pos houtline, if_neg hnamed, hin, houter]
  exact sortBy_eq_of_strict (List.perm_append_singleton ..).symm (by decide +kernel)

/-- Its proposal in numbers. -/
def layeredProposal : List (Field Nat) :=
  (place .standard layeredSorted 0).toOption.getD []

theorem place_arrangement_layered :
    place .standard (arrangement .standard layered) 0 = .ok layeredProposal := by
  rw [arrangement_layered]
  exact eq_ok_getD (by decide +kernel)

theorem settles_layered : Settles .standard layered 0 :=
  .of_place enclosing_layered place_arrangement_layered (by decide +kernel)

theorem names_of_layered {l proposal : Layout} (h : place .standard layered 0 = .ok l.fields)
    (hproposal : l.reorder .standard = .ok proposal) :
    proposal.fields.map Field.name = ["outer", "point", "a", "b", ""] := by
  have hfits : Fits .standard layered 0 := by decide +kernel
  obtain ⟨placed, hplaced, -, hdone⟩ :=
    reorder_arrangement enclosing_layered h hfits settles_layered
  have hfields : proposal.fields = wordsAll placed := by
    rw [Except.ok.inj (hproposal.symm.trans hdone)]
  rw [hfields, Field.map_name_words, Except.ok.inj (hplaced.symm.trans place_arrangement_layered)]
  decide +kernel

/-- A record that nearly fills memory. -/
def vast (name : String) : Descriptor :=
  .record name "N" 0 8
    [.leaf "a" "[1152921504606846975]int64" 9223372036854775800 8,
      .leaf "c" "[1152921504606846975]int64" 9223372036854775800 8, .leaf "d" "bool" 1 1]

theorem enclosing_vast {ds : List Descriptor} (name : String)
    (htail : Everywhere Descriptor.Enclosing ds) :
    Everywhere Descriptor.Enclosing (vast name :: ds) := by
  have hvalid : (vast name).Valid :=
    ⟨show 0 ≤ (0 : Int64).toInt by decide, 3, show (8 : Int64).toInt = _ by decide⟩
  refine .cons ⟨hvalid, ?_⟩ ?_ htail
  · simp only [vast, Descriptor.children, Descriptor.align, List.forall_mem_cons]
    exact ⟨by decide, by decide, by decide, by simp⟩
  · refine everywhere_enclosing_leaf 3 (by decide) (by decide) ?_
    refine everywhere_enclosing_leaf 3 (by decide) (by decide) ?_
    exact everywhere_enclosing_leaf 0 (by decide) (by decide) .nil

/-- Such a record at an offset. It has padding at its end, `rest`, unless it wraps around. -/
def vastAt (byte : Alignment) (name : String) (start : UInt64) (rest : List Field) : Field :=
  .record name "N" start .word false
    ([.leaf "a" "[1152921504606846975]int64" start 9223372036854775800 9223372036854775800 .word,
      .leaf "c" "[1152921504606846975]int64" (start + 9223372036854775800) 9223372036854775800
        9223372036854775800 .word,
      .leaf "d" "bool" (start + 18446744073709551600) 1 1 byte] ++ rest)

/-- Three of them and a leaf. -/
def crowded : List Descriptor :=
  [vast "b", vast "a", .leaf "y" "[3]int64" 24 8, vast "c"]

/-- In their layout only the second record has wrapped around. -/
def crowdedFields (byte : Alignment) : List Field :=
  [vastAt byte "b" 0 [.padding 18446744073709551601 7], vastAt byte "a" 18446744073709551608 [],
    .padding 18446744073709551593 7,
    .leaf "y" "[3]int64" 18446744073709551600 24 24 .word,
    vastAt byte "c" 8 [.padding 18446744073709551609 7]]

/-- In the proposals for it two records have, and so are smaller than the one before them. -/
def crowdedProposal (byte : Alignment) (second third : String) : List Field :=
  [vastAt byte "b" 0 [.padding 18446744073709551601 7], vastAt byte second 18446744073709551608 [],
    .padding 18446744073709551593 7, vastAt byte third 18446744073709551600 [],
    .padding 18446744073709551585 7, .leaf "y" "[3]int64" 18446744073709551592 24 24 .word]

theorem place_crowded :
    place .standard crowded 0 = .ok (crowdedFields ⟨⟨0, by decide⟩⟩) := by
  decide +kernel

/-- The fields of `layered` the other way round, and so are those of its inline records. -/
def layeredBack : List Descriptor :=
  [.leaf "a" "bool" 1 1,
    .record "point" "Point" 0 4 [.leaf "set" "bool" 1 1, .leaf "x" "int32" 4 4],
    .record "outer" "struct \x7b in struct \x7b ok bool; n int64 \x7d; e [0]int32 \x7d" 0 16
      [.leaf "e" "[0]int32" 0 4,
        .record "in" "struct \x7b ok bool; n int64 \x7d" 0 8
          [.leaf "n" "int64" 8 8, .leaf "ok" "bool" 1 1]],
    .leaf "b" "bool" 1 1]

theorem reorders_layeredBack : Reorders layered layeredBack := by
  refine .trans (.of_perm (List.reverse_perm layered).symm) (.cons _ (.cons _ ?_))
  refine .inner "outer" 0 16 (by decide) ?_ (.refl _)
  refine .trans (.swap ..) (.cons _ (.inner "in" 0 8 (by decide) (.swap ..) (.refl _)))

theorem distinct_of_leaves {ds : List Descriptor} (hnames : (ds.map Descriptor.name).Nodup)
    (hleaves : ∀ d ∈ ds, d.children = []) : Distinct ds :=
  .mk hnames fun d hd _ => hleaves d hd ▸ .mk .nil nofun

theorem distinct_layered : Distinct layered := by
  refine distinct_cons.2 ⟨by decide, fun _ => distinct_of_leaves .nil nofun, ?_⟩
  refine distinct_cons.2 ⟨by decide, fun _ => ?_, ?_⟩
  · refine distinct_cons.2 ⟨by decide, fun _ => ?_, ?_⟩
    · exact distinct_of_leaves (by decide) (by decide)
    · exact distinct_of_leaves (by decide) (by decide)
  refine distinct_cons.2 ⟨by decide, fun _ => ?_, ?_⟩
  · exact distinct_of_leaves (by decide) (by decide)
  · exact distinct_of_leaves (by decide) (by decide)

/-- Two records that nearly fill memory, of which the second wraps around. -/
def vastPair (byte : Alignment) (first second : String) : List Field :=
  [vastAt byte first 0 [.padding 18446744073709551601 7],
    vastAt byte second 18446744073709551608 [], .padding 18446744073709551593 7]

end StructPadding
