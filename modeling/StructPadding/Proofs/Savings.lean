import StructPadding.Proofs.Columns
import StructPadding.Proofs.Settled
import StructPadding.Review.Advice

/-!
# What a suggestion saves

Advice compares padding, and the byte that a leaf of no size gets at the end of a record is not
padding. The proposal has such a byte only where every order has one (`unavoidable`), so it has no
more of them than the declaration (`Arranged.widened_le`), and what it saves in padding it saves at
least in size.
-/

namespace StructPadding

open Descriptor (tally tallyAll contentAll widening widenedAll)

/-! ## Bytes at the ends that no order avoids -/

/-- One byte for a record that has nothing but leaves of no size. -/
def endByte (ds : List Descriptor) : Nat :=
  if ds ≠ [] ∧ ∀ d ∈ ds, d.Void then 1 else 0

/-- The bytes at the ends in the records of the fields that every order of them has. -/
def unavoidable (ds : List Descriptor) : Nat :=
  tallyAll Descriptor.widened (fun cs n => endByte cs + n) ds

theorem endByte_le_widening : ∀ ds : List Descriptor, endByte ds ≤ widening ds
  | [] => by simp [endByte]
  | [d] => by simp [endByte, widening]
  | d :: e :: ds => by
    have hrest := endByte_le_widening (e :: ds)
    rw [widening]
    refine le_trans ?_ hrest
    unfold endByte
    split_ifs with hall htail
    · exact le_rfl
    · refine absurd ⟨by simp, fun g hg => ?_⟩ htail
      exact hall.2 g (List.mem_cons_of_mem _ hg)
    · exact Nat.zero_le 1
    · exact le_rfl

theorem endByte_of_sorted {ds : List Descriptor} (h : ds.Pairwise Descriptor.Precedes) :
    endByte ds = widening ds := by
  refine le_antisymm (endByte_le_widening ds) ?_
  by_cases hzero : widening ds = 0
  · omega
  · have hne : ds ≠ [] := by
      rintro rfl
      exact hzero rfl
    rw [endByte, if_pos ⟨hne, void_of_widening h hzero⟩]
    exact Descriptor.widening_le_one ds

theorem Reorders.void_iff {ds es : List Descriptor} (h : Reorders ds es) :
    (∀ d ∈ ds, d.Void) ↔ ∀ e ∈ es, e.Void := by
  induction h with
  | nil => exact Iff.rfl
  | cons d _ ih => rw [List.forall_mem_cons, List.forall_mem_cons, ih]
  | inner name size align hinline nested _ _ ih =>
    rw [List.forall_mem_cons, List.forall_mem_cons, ih]
    simp only [Descriptor.Void, Descriptor.children, nested.isEmpty_eq, Descriptor.bytes,
      Descriptor.size]
  | swap d e ds =>
    simp only [List.forall_mem_cons]
    exact and_left_comm
  | trans _ _ ihLeft ihRight => rw [ihLeft, ihRight]

theorem Reorders.endByte {ds es : List Descriptor} (h : Reorders ds es) :
    endByte ds = endByte es := by
  unfold StructPadding.endByte
  simp only [ne_eq, h.eq_nil_iff, h.void_iff]

theorem Reorders.unavoidable {ds es : List Descriptor} (h : Reorders ds es) :
    unavoidable ds = unavoidable es :=
  h.tallyAll fun n hcs => by rw [hcs.endByte]

mutual

theorem tally_le_widened : ∀ d : Descriptor,
    d.tally Descriptor.widened (fun cs n => endByte cs + n) ≤ d.widened
  | .leaf .. => by
    rw [Descriptor.tally_of_not_inline _ _ fun h => h.1 rfl]
  | .record name typeName size align children => by
    have hnested := unavoidable_le children
    have hend := endByte_le_widening children
    by_cases hinline : (Descriptor.record name typeName size align children).Inline
    · rw [Descriptor.tally_of_inline _ _ hinline, Descriptor.widened]
      simp only [Descriptor.children]
      unfold unavoidable at hnested
      omega
    · rw [Descriptor.tally_of_not_inline _ _ hinline]

theorem unavoidable_le : ∀ ds : List Descriptor, unavoidable ds ≤ widenedAll ds
  | [] => by simp [unavoidable, tallyAll]
  | d :: ds => by
    have hhead := tally_le_widened d
    have htail := unavoidable_le ds
    unfold unavoidable at htail ⊢
    rw [tallyAll, widenedAll]
    omega

end

theorem unavoidable_of_forall : ∀ {ds : List Descriptor},
    (∀ d ∈ ds, d.tally Descriptor.widened (fun cs n => endByte cs + n) = d.widened) →
    unavoidable ds = widenedAll ds
  | [], _ => rfl
  | d :: ds, h => by
    have hrest := unavoidable_of_forall fun e he => h e (List.mem_cons_of_mem _ he)
    unfold unavoidable at hrest ⊢
    rw [tallyAll, widenedAll, h d List.mem_cons_self, hrest]

theorem Arranged.unavoidable_eq {ds : List Descriptor} (h : Arranged ds) :
    unavoidable ds = widenedAll ds := by
  induction h with
  | @mk ds _ hinner ih =>
    refine unavoidable_of_forall fun d hd => ?_
    by_cases hinline : d.Inline
    · have hnested := ih d hd hinline.2
      obtain ⟨hsorted, -⟩ := hinner d hd hinline.2
      unfold unavoidable at hnested
      rw [Descriptor.tally_of_inline _ _ hinline, Descriptor.widened_eq, hnested,
        endByte_of_sorted hsorted]
    · rw [Descriptor.tally_of_not_inline _ _ hinline]

/-- An arranged order has no more bytes at the ends than any other. -/
theorem Arranged.widened_le {ds es : List Descriptor} (h : Arranged es)
    (hreorders : Reorders ds es) :
    widening es + widenedAll es ≤ widening ds + widenedAll ds := by
  have hends := h.unavoidable_eq
  obtain ⟨hsorted, -⟩ := h
  have hend := endByte_of_sorted hsorted
  have hle := endByte_le_widening ds
  have hall := unavoidable_le ds
  rw [hreorders.endByte] at hle
  rw [hreorders.unavoidable] at hall
  omega

/-! ## Records that end in something -/

/-- Fields of which the last, if there is one, is no leaf of no size. -/
def EndsFull (ds : List Descriptor) : Prop :=
  ∀ d ∈ ds.getLast?, ¬d.Void

theorem widening_eq_zero : ∀ {ds : List Descriptor}, EndsFull ds → widening ds = 0
  | [], _ => rfl
  | [d], h => if_neg (h d rfl)
  | _ :: d :: ds, h => by
    rw [widening]
    exact widening_eq_zero fun e he => h e (by rwa [List.getLast?_cons_cons])

theorem widenedAll_eq_zero {ds : List Descriptor}
    (h : Everywhere (fun d => EndsFull d.children) ds) : widenedAll ds = 0 := by
  induction h with
  | nil => rfl
  | cons head _ _ ihNested ihTail =>
    rw [widenedAll, Descriptor.widened_eq, widening_eq_zero head, ihNested, ihTail]

/-! ## Suggestions -/

open StructPadding.Field (wordsAll)

theorem Layout.toNat_size {l : Layout} {fs : List (Field Nat)} (h : l.fields = wordsAll fs)
    (hlt : Field.totalSize fs < UInt64.size) : l.size.toNat = Field.totalSize fs := by
  rw [Layout.size, h, Field.totalSize_words, toNat_word hlt]

theorem Layout.toNat_padding {l : Layout} {fs : List (Field Nat)} (h : l.fields = wordsAll fs)
    (hlt : Field.totalPadding fs < UInt64.size) : l.padding.toNat = Field.totalPadding fs := by
  rw [Layout.padding, h, Field.totalPadding_words, toNat_word hlt]

theorem content_eq_of_reorders {rule : RecordRule} {ds es : List Descriptor} {base : Nat}
    {fs gs : List (Field Nat)} (hreorders : Reorders ds es) (hfs : place rule ds base = .ok fs)
    (hgs : place rule es 0 = .ok gs) :
    Field.totalSize fs + Field.totalPadding gs + (widening es + widenedAll es) =
      Field.totalSize gs + Field.totalPadding fs + (widening ds + widenedAll ds) := by
  have hds := place_totalSize hfs
  have hes := place_totalSize hgs
  rw [← hreorders.contentAll] at hes
  omega

/-- What a proposal saves in numbers: in size at least as much as in padding, and just as much if no
record ends in a leaf of no size. -/
theorem savings {rule : RecordRule} {ds : List Descriptor} {base : Nat}
    {fs placed : List (Field Nat)} (h : place rule ds base = .ok fs)
    (hplaced : Field.reorderAll rule fs = .ok placed) :
    Field.totalSize placed + Field.totalPadding fs ≤
        Field.totalSize fs + Field.totalPadding placed ∧
      (EndsFull ds → Everywhere (fun d => EndsFull d.children) ds →
        Field.totalSize placed + Field.totalPadding fs =
          Field.totalSize fs + Field.totalPadding placed) ∧
      Field.totalPadding fs ≤ Field.totalSize fs ∧
      Field.totalPadding placed ≤ Field.totalSize placed := by
  obtain ⟨es, placed', hdone, hreorders, harranged, hes⟩ := reorderAll_arranged h
  obtain rfl := Except.ok.inj (hplaced.symm.trans hdone)
  have hle := harranged.widened_le hreorders
  have hcontent := content_eq_of_reorders hreorders h hes
  have hfs := place_totalSize h
  have hgs := place_totalSize hes
  refine ⟨by omega, fun hend hends => ?_, by omega, by omega⟩
  have htop := widening_eq_zero hend
  have hnested := widenedAll_eq_zero hends
  omega

namespace Review

/-- The suggestion to lay out a declaration as proposed, with how its padding grew. -/
def offer (l proposal : Layout) (growth : Option Regression) : Suggestion where
  name := l.name
  line := l.lines.first
  current := l.fields.map Field.text
  proposed := Go.declarationText proposal
  currentPadding := l.padding
  proposedPadding := proposal.padding
  regression := growth

theorem offer_saved {l proposal : Layout} (growth : Option Regression)
    (h : proposal.padding < l.padding) :
    (offer l proposal growth).saved = l.padding - proposal.padding := by
  rw [Suggestion.saved, Measure.distance, offer, if_pos h]

/-- A proposal with less padding is suggested if it can be shown, and no other is. -/
theorem suggest?_eq_ok {reported : Bool} {r : Revised} {proposal : Layout}
    {advice : Option Suggestion} : suggest? reported r proposal = .ok advice ↔
      (proposal.padding < r.head.padding → ∃ text, Go.render proposal = .ok text) ∧
        advice = if proposal.padding < r.head.padding then
          some (offer r.head proposal (regression? reported r)) else none := by
  unfold suggest?
  split_ifs with hlt
  · rcases hrender : Go.render proposal with e | text
    · simp [hlt, bind, Except.bind]
    · simp [hlt, bind, Except.bind, pure, Except.pure, offer, (Go.render_eq_ok.1 hrender).2,
        eq_comm]
  · simp [hlt, eq_comm]

theorem advise_of_reorder {rule : RecordRule} {reported : Bool} {r : Revised} {proposal : Layout}
    (h : r.head.reorder rule = .ok proposal) :
    advise rule reported r = (suggest? reported r proposal).mapError .column := by
  unfold advise
  rw [h]
  rfl

theorem advise_eq_ok {rule : RecordRule} {reported : Bool} {r : Revised} {proposal : Layout}
    (h : r.head.reorder rule = .ok proposal) {advice : Option Suggestion} :
    advise rule reported r = .ok advice ↔ suggest? reported r proposal = .ok advice := by
  rw [advise_of_reorder h]
  rcases suggest? reported r proposal with e | advice' <;> simp [Except.mapError]

theorem exists_advise_of_lt {rule : RecordRule} {r : Revised} {proposal : Layout}
    (reported : Bool) (h : r.head.reorder rule = .ok proposal)
    (hlt : proposal.padding < r.head.padding)
    (hshown : ∃ text, Go.render proposal = .ok text) :
    ∃ s, advise rule reported r = .ok (some s) :=
  ⟨_, (advise_eq_ok h).2 (suggest?_eq_ok.2 ⟨fun _ => hshown, (if_pos hlt).symm⟩)⟩

section

variable {size size' padding padding' : UInt64}

theorem toNat_sub_of_lt (h : size' < size) : (size - size').toNat = size.toNat - size'.toNat :=
  UInt64.toNat_sub_of_le _ _ (UInt64.le_of_lt h)

/-- What words save, given what the numbers do. -/
theorem saved_le_of_words (h : size'.toNat + padding.toNat ≤ size.toNat + padding'.toNat)
    (hlt : padding' < padding) : size' < size ∧ padding - padding' ≤ size - size' := by
  have hlt' := UInt64.lt_iff_toNat_lt.1 hlt
  have hsize : size' < size := UInt64.lt_iff_toNat_lt.2 (by omega)
  refine ⟨hsize, UInt64.le_iff_toNat_le.2 ?_⟩
  rw [toNat_sub_of_lt hlt, toNat_sub_of_lt hsize]
  omega

theorem saved_eq_of_words (h : size'.toNat + padding.toNat = size.toNat + padding'.toNat)
    (hlt : padding' < padding) : padding - padding' = size - size' := by
  obtain ⟨hsize, -⟩ := saved_le_of_words h.le hlt
  apply UInt64.toNat_inj.1
  rw [toNat_sub_of_lt hlt, toNat_sub_of_lt hsize]
  omega

end

/-- A word between two flags, with a gap after each of them. -/
def apart : List Descriptor :=
  [.leaf "a" "bool" 1 1, .leaf "n" "int64" 8 8, .leaf "b" "bool" 1 1]

/-- Their layout in numbers. -/
def apartFields : List (Field Nat) :=
  (place .natural apart 0).toOption.getD []

/-- The word comes first in the proposal. -/
def apartProposal : List (Field Nat) :=
  (Field.placeNamed .natural ["n", "a", "b"] apartFields).toOption.getD []

theorem place_apart : place .natural apart 0 = .ok apartFields :=
  eq_ok_getD (by decide +kernel)

theorem reorderAll_apart : Field.reorderAll .natural apartFields = .ok apartProposal :=
  (reorderAll_of_names (by decide +kernel) (by decide +kernel) (by decide +kernel)).trans
    (eq_ok_getD (by decide +kernel))

theorem settles_apart : Settles .natural apart 0 := by
  intro fs hfs
  rw [place_apart] at hfs
  obtain rfl := Option.some.inj hfs
  refine .mk (fun placed hplaced => ?_) fun f hf hinline => ?_
  · rw [reorderAll_apart] at hplaced
    obtain rfl := Option.some.inj hplaced
    decide +kernel
  · have hnone : ∀ f ∈ apartFields, ¬f.isInlineRecord := by decide +kernel
    exact absurd hinline (hnone f hf)

end Review

end StructPadding
