import StructPadding.Proofs.Rearranged
import StructPadding.Proofs.Shifting

/-!
# The proposed order is the best one

Descriptors are regular if the size of every leaf is a multiple of its alignment and the alignment
of every record is the largest among its fields, as it is for what a compiler lays out, and no
alignment is larger than what the rule rounds records up to. No order of regular descriptors needs
fewer bytes than their fields do on their own (`leastSum_le`), and an arranged one needs no more
(`Placed.exact`), because every field ends where the next one may start.
-/

namespace StructPadding

open Descriptor (tally tallyAll widening)

/-! ## Regular descriptors -/

/-- Whether the rule rounds records up to at least the alignment of a field. -/
def RecordRule.Covers : RecordRule → Descriptor → Prop
  | fixed n, d => d.align.toInt ≤ n.toNat
  | natural, _ => True

instance : (rule : RecordRule) → (d : Descriptor) → Decidable (rule.Covers d)
  | .fixed n, d => inferInstanceAs (Decidable (d.align.toInt ≤ n.toNat))
  | .natural, _ => inferInstanceAs (Decidable True)

structure Descriptor.Regular (rule : RecordRule) (d : Descriptor) : Prop where
  valid : d.Valid
  leaf : d.children = [] → d.align.toInt.toNat ∣ d.bytes
  record : d.children ≠ [] → d.align.toInt.toNat = RecordRule.widest d.children
  covered : rule.Covers d

theorem Descriptor.Regular.enclosing {rule : RecordRule} {d : Descriptor} (hd : d.Regular rule) :
    d.Enclosing :=
  Descriptor.Spanning.enclosing ⟨hd.valid, hd.record⟩

section Regular

variable {rule : RecordRule} {ds : List Descriptor}

theorem Reorders.everywhere_regular {es : List Descriptor} (h : Reorders ds es)
    (hds : Everywhere (Descriptor.Regular rule) ds) :
    Everywhere (Descriptor.Regular rule) es := by
  refine h.everywhere (fun name typeName size align cs cs' hcs hd => ?_) hds
  refine ⟨⟨hd.valid.size, hd.valid.align⟩, fun hnil => ?_, fun hne => ?_, ?_⟩
  · exact hd.leaf (hcs.eq_nil_iff.2 hnil)
  · have hrecord := hd.record fun hnil => hne (hcs.eq_nil_iff.1 hnil)
    exact hrecord.trans hcs.widest
  · cases rule with
    | fixed n => exact hd.covered
    | natural => trivial

theorem everywhere_valid_of_regular (hds : Everywhere (Descriptor.Regular rule) ds) :
    Everywhere Descriptor.Valid ds :=
  hds.imp fun _ hd => hd.valid

theorem everywhere_enclosing_of_regular (hds : Everywhere (Descriptor.Regular rule) ds) :
    Everywhere Descriptor.Enclosing ds :=
  hds.imp fun _ hd => hd.enclosing

/-- The size of a record is a multiple of its alignment. -/
theorem align_dvd_totalSize {d : Descriptor} {base : Nat} {closed : List (Field Nat)}
    (hd : d.Regular rule) (hrecord : d.children ≠ [])
    (hclosed : place rule d.children base = .ok closed) :
    d.align.toInt.toNat ∣ Field.totalSize closed := by
  obtain ⟨inner, hinner, hclose⟩ := place_eq_ok.1 hclosed
  obtain ⟨a, ha, hsize⟩ := hinner.totalSize_closed hrecord hclose
  refine Nat.dvd_trans ?_ (hsize ▸ a.dvd_roundUp _)
  have hcovered := hd.covered
  rcases rule with n | _
  · obtain ⟨b, hb⟩ := Descriptor.valid_iff.1 hd.valid
    obtain ⟨-, hb⟩ := Descriptor.check_eq_ok.1 hb
    have hbytes := RecordRule.demand_eq_ok.1 ha
    have hle : d.align.toInt ≤ n.toNat := hcovered
    rw [hb, Int.toNat_natCast]
    exact Alignment.bytes_dvd (by omega)
  · have hbytes : a.bytes = RecordRule.widest d.children := RecordRule.demand_eq_ok.1 ha
    have heq : d.align.toInt.toNat = a.bytes := (hd.record hrecord).trans hbytes.symm
    exact heq ▸ Nat.dvd_refl _

end Regular

/-! ## The bytes that fields need on their own -/

/-- The size of a record whose fields take `n` bytes. -/
def RecordRule.rounded (rule : RecordRule) (ds : List Descriptor) (n : Nat) : Nat :=
  match rule.alignment ds with
  | .ok a => a.roundUp (max 1 n)
  | .error _ => n

/-- The bytes of a field whose own fields stay as they are. -/
def Descriptor.fixedSize (rule : RecordRule) (d : Descriptor) : Nat :=
  if d.children.isEmpty then d.bytes
  else
    match place rule d.children (0 : Nat) with
    | .ok fs => Field.totalSize fs
    | .error _ => 0

/-- The bytes of the fields without any gap between them, nor inside the inline records. -/
def leastSum (rule : RecordRule) (ds : List Descriptor) : Nat :=
  tallyAll (Descriptor.fixedSize rule) rule.rounded ds

theorem fixedSize_leaf {rule : RecordRule} {d : Descriptor} (h : d.children = []) :
    d.fixedSize rule = d.bytes := by
  rw [Descriptor.fixedSize, if_pos (List.isEmpty_iff.2 h)]

/-- The size of a record does not depend on where it starts. -/
theorem fixedSize_record {rule : RecordRule} {d : Descriptor} {base : Nat}
    {closed : List (Field Nat)} (hd : d.Enclosing)
    (hnested : Everywhere Descriptor.Enclosing d.children) (hrecord : d.children ≠ []) (hbase : d.align.toInt.toNat ∣ base)
    (hclosed : place rule d.children base = .ok closed) :
    d.fixedSize rule = Field.totalSize closed := by
  have hempty : ¬d.children.isEmpty := fun h => hrecord (List.isEmpty_iff.1 h)
  obtain ⟨fs, hfs⟩ := place_succeeds (sound_of_place hclosed hrecord)
    (hnested.imp fun _ he => he.valid) 0
  have hshift := place_of_enclosing hd hnested hbase hfs
  rw [hclosed] at hshift
  rw [Descriptor.fixedSize, if_neg hempty, hfs, Except.ok.inj hshift, Field.totalSize_shiftAll]

theorem rounded_eq {rule : RecordRule} {ds : List Descriptor} {a : Alignment}
    (h : rule.alignment ds = .ok a) (n : Nat) : rule.rounded ds n = a.roundUp (max 1 n) := by
  unfold RecordRule.rounded
  rw [h]

theorem Reorders.rounded {rule : RecordRule} {ds es : List Descriptor} (n : Nat)
    (h : Reorders ds es) : rule.rounded ds n = rule.rounded es n := by
  unfold RecordRule.rounded
  rw [h.alignment rule]

theorem Reorders.leastSum {rule : RecordRule} {ds es : List Descriptor} (h : Reorders ds es) :
    leastSum rule ds = leastSum rule es :=
  h.tallyAll fun n hcs => hcs.rounded n

theorem not_inline_of_leaf {d : Descriptor} (h : d.children = []) : ¬d.Inline :=
  fun hinline => hinline.1 h

theorem leastSum_leaf {rule : RecordRule} {d : Descriptor} (ds : List Descriptor)
    (h : d.children = []) : leastSum rule (d :: ds) = d.bytes + leastSum rule ds := by
  unfold leastSum
  rw [tallyAll, Descriptor.tally_of_not_inline _ _ (not_inline_of_leaf h), fixedSize_leaf h]

theorem leastSum_inline {rule : RecordRule} {d : Descriptor} (ds : List Descriptor)
    (h : d.Inline) : leastSum rule (d :: ds) =
      rule.rounded d.children (leastSum rule d.children) + leastSum rule ds := by
  unfold leastSum
  rw [tallyAll, Descriptor.tally_of_inline _ _ h]

/-- A record that is not inline takes its size from its fields as they are. -/
theorem leastSum_named {rule : RecordRule} {d : Descriptor} (ds : List Descriptor) {base : Nat}
    {closed : List (Field Nat)} (hd : d.Regular rule)
    (hnested : Everywhere (Descriptor.Regular rule) d.children) (hrecord : d.children ≠ [])
    (hnot : ¬d.Inline) (hbase : d.align.toInt.toNat ∣ base)
    (hclosed : place rule d.children base = .ok closed) :
    leastSum rule (d :: ds) = Field.totalSize closed + leastSum rule ds := by
  unfold leastSum
  rw [tallyAll, Descriptor.tally_of_not_inline _ _ hnot,
    fixedSize_record hd.enclosing (everywhere_enclosing_of_regular hnested) hrecord hbase hclosed]

theorem check_dvd_roundUp {d : Descriptor} {a : Alignment} (h : d.check = .ok a) (x : Nat) :
    d.align.toInt.toNat ∣ a.roundUp x := by
  rw [Descriptor.align_of_check h]
  exact a.dvd_roundUp x

theorem roundUp_of_dvd {d : Descriptor} {a : Alignment} {offset : Nat} (h : d.check = .ok a)
    (hoffset : d.align.toInt.toNat ∣ offset) : a.roundUp offset = offset := by
  rw [Descriptor.align_of_check h] at hoffset
  exact Alignment.roundUp_eq hoffset

/-- No order does with fewer bytes. -/
theorem leastSum_le {rule : RecordRule} {offset : Nat} {ds : List Descriptor}
    {fs : List (Field Nat)} (h : Placed rule offset ds fs) :
    Everywhere (Descriptor.Regular rule) ds → leastSum rule ds ≤ Field.totalSize fs := by
  induction h using Placed.numbers_induction with
  | nil => exact fun _ => Nat.zero_le _
  | @leaf offset d ds a fs hleaf hcheck _ ih =>
    rintro (_ | ⟨hd, hnested, htail⟩)
    have hrest := ih htail
    rw [leastSum_leaf ds hleaf]
    simp only [Field.totalSize_append, Field.totalSize, Field.size]
    omega
  | @record offset d ds a inner closed fs hrecord hcheck nested hclose _ ihNested ihTail =>
    rintro (_ | ⟨hd, hnested, htail⟩)
    have hrest := ihTail htail
    simp only [Field.totalSize_append, Field.totalSize, Field.size]
    by_cases hinline : d.Inline
    · obtain ⟨b, hb, hsize⟩ := nested.totalSize_closed hrecord hclose
      have hinner := ihNested hnested
      have hpos := nested.totalSize_pos hrecord
      have hle : max 1 (leastSum rule d.children) ≤
          Field.totalSize inner + widening d.children := by omega
      have hround := b.roundUp_mono hle
      rw [leastSum_inline ds hinline, rounded_eq hb]
      omega
    · rw [leastSum_named ds hd hnested hrecord hinline (check_dvd_roundUp hcheck offset)
        (place_eq_ok.2 ⟨inner, nested, hclose⟩)]
      omega

/-! ## Fields without gaps -/

/-- No padding before a field, here and in the inline records reached from here. -/
inductive Packed {ω : Type} : List (Field ω) → Prop
  | rest {fs : List (Field ω)} (h : ∀ f ∈ fs, f.isPadding) : Packed fs
  | field {f : Field ω} {fs : List (Field ω)} (hfield : f.isPadding = false)
    (inner : f.isInlineRecord → Packed f.children) (tail : Packed fs) : Packed (f :: fs)

theorem isPadding_of_mem_gap {start size : Nat} {f : Field Nat} (h : f ∈ gap start size) :
    f.isPadding := by
  unfold gap at h
  split_ifs at h
  · cases h
  · rw [List.mem_singleton.1 h]
    rfl

theorem gap_zero (start : Nat) : gap start 0 = [] :=
  if_pos rfl

theorem widenLast_of_isPadding : ∀ {fs : List (Field Nat)}, (∀ f ∈ fs, f.isPadding) →
    widenLast fs = fs
  | [], _ => rfl
  | [f], h => by
    have hf := h f List.mem_cons_self
    cases f <;> simp_all [widenLast, Field.widen, Field.isPadding]
  | f :: g :: fs, h => by
    have htail : ∀ e ∈ g :: fs, e.isPadding := fun e he => h e (List.mem_cons_of_mem _ he)
    rw [widenLast_cons (by simp), widenLast_of_isPadding htail]

namespace Packed

variable {fs : List (Field Nat)}

theorem append_gap (start size : Nat) (h : Packed fs) : Packed (fs ++ gap start size) := by
  induction h with
  | rest h =>
    refine .rest fun f hf => ?_
    rcases List.mem_append.1 hf with hf | hf
    · exact h f hf
    · exact isPadding_of_mem_gap hf
  | field hfield inner _ _ ih => exact .field hfield inner ih

theorem widenLast (h : Packed fs) : Packed (widenLast fs) := by
  induction h with
  | rest h =>
    rw [widenLast_of_isPadding h]
    exact .rest h
  | @field f fs hfield inner tail _ ih =>
    by_cases hne : fs = []
    · subst hne
      rw [StructPadding.widenLast]
      cases f with
      | padding => exact .field hfield inner tail
      | leaf =>
        refine .field rfl (fun h => ?_) tail
        simp [Field.widen, Field.isInlineRecord, Field.children] at h
      | record => exact .field hfield inner tail
    · rw [widenLast_cons hne]
      exact .field hfield inner ih

theorem closeRecord {rule : RecordRule} {ds : List Descriptor} {base : Nat}
    {closed : List (Field Nat)} (h : Packed fs)
    (hclose : closeRecord rule ds base fs = .ok closed) : Packed closed :=
  closeRecord_preserves Packed Packed.widenLast Packed.append_gap h hclose

end Packed

/-! ## Arranged descriptors leave no gaps -/

theorem leastSum_of_void {rule : RecordRule} : ∀ {ds : List Descriptor}, (∀ d ∈ ds, d.Void) →
    leastSum rule ds = 0
  | [], _ => rfl
  | d :: ds, h => by
    obtain ⟨hempty, hbytes⟩ := h d List.mem_cons_self
    rw [leastSum_leaf ds (List.isEmpty_iff.1 hempty), hbytes,
      leastSum_of_void fun e he => h e (List.mem_cons_of_mem _ he)]

/-- The byte at the end of an arranged record is there only if nothing else is. -/
theorem add_widening_eq {rule : RecordRule} {offset : Nat} {ds : List Descriptor}
    {fs : List (Field Nat)} (h : Placed rule offset ds fs) (hne : ds ≠ [])
    (hsorted : ds.Pairwise Descriptor.Precedes)
    (hsize : Field.totalSize fs = leastSum rule ds) :
    Field.totalSize fs + widening ds = max 1 (leastSum rule ds) := by
  have hpos := h.totalSize_pos hne
  by_cases hzero : widening ds = 0
  · omega
  · have hvoid : leastSum rule ds = 0 := leastSum_of_void (void_of_widening hsorted hzero)
    have hle := Descriptor.widening_le_one ds
    omega

/-- A field that ends where every later field may start. -/
theorem dvd_next {d e : Descriptor} {offset size : Nat} (hprecedes : d.Precedes e)
    (hd : d.Valid) (he : e.Valid) (hoffset : e.align.toInt.toNat ∣ offset)
    (hvoid : d.Void → size = 0) (hsize : d.align.toInt.toNat ∣ size) :
    e.align.toInt.toNat ∣ offset + size := by
  rcases hprecedes with h | ⟨-, hle⟩
  · rw [hvoid h]
    exact hoffset
  · exact Nat.dvd_add hoffset (Nat.dvd_trans (align_dvd hd he hle) hsize)

/-- Arranged fields take just their own bytes, from any offset that suits all of them. -/
theorem Placed.exact {rule : RecordRule} {offset : Nat} {ds : List Descriptor}
    {fs : List (Field Nat)} (h : Placed rule offset ds fs) :
    Everywhere (Descriptor.Regular rule) ds → Arranged ds →
    (∀ d ∈ ds, d.align.toInt.toNat ∣ offset) →
    Field.totalSize fs = leastSum rule ds ∧ Packed fs := by
  induction h using Placed.numbers_induction with
  | nil => exact fun _ _ _ => ⟨rfl, .rest (by simp)⟩
  | @leaf offset d ds a fs hleaf hcheck _ ih =>
    rintro (_ | ⟨hd, hnested, htail⟩) harranged hoffset
    have htailArranged := harranged.tail
    obtain ⟨hsorted, -⟩ := harranged
    have hround := roundUp_of_dvd hcheck (hoffset d List.mem_cons_self)
    rw [hround] at ih ⊢
    obtain ⟨hsize, hpacked⟩ := ih htail htailArranged fun e he =>
      dvd_next ((List.pairwise_cons.1 hsorted).1 e he) hd.valid (htail.mem e he).1.valid
        (hoffset e (List.mem_cons_of_mem _ he)) (fun hvoid => hvoid.2) (hd.leaf hleaf)
    rw [Nat.sub_self, gap_zero, List.nil_append, leastSum_leaf ds hleaf, Field.totalSize, hsize]
    refine ⟨rfl, .field rfl (fun h => ?_) hpacked⟩
    simp [Field.isInlineRecord, Field.children] at h
  | @record offset d ds a inner closed fs hrecord hcheck nested hclose _ ihNested ihTail =>
    rintro (_ | ⟨hd, hnested, htail⟩) harranged hoffset
    have htailArranged := harranged.tail
    obtain ⟨hsorted, hinner⟩ := harranged
    have hdvd := hoffset d List.mem_cons_self
    have hround := roundUp_of_dvd hcheck hdvd
    rw [hround] at nested hclose ihNested ihTail ⊢
    have hclosed := place_eq_ok.2 ⟨inner, nested, hclose⟩
    obtain ⟨hsize, hpacked⟩ := ihTail htail htailArranged fun e he =>
      dvd_next ((List.pairwise_cons.1 hsorted).1 e he) hd.valid (htail.mem e he).1.valid
        (hoffset e (List.mem_cons_of_mem _ he))
        (fun hvoid => absurd (List.isEmpty_iff.1 hvoid.1) hrecord)
        (align_dvd_totalSize hd hrecord hclosed)
    rw [Nat.sub_self, gap_zero, List.nil_append, Field.totalSize, Field.size, hsize]
    by_cases hinline : d.Inline
    · have hchildren := hinner d List.mem_cons_self hinline.2
      obtain ⟨hinnerSize, hinnerPacked⟩ := ihNested hnested hchildren fun e he =>
        Nat.dvd_trans
          (align_dvd_of_mem hd.enclosing (everywhere_enclosing_of_regular hnested) he) hdvd
      obtain ⟨b, hb, hclosedSize⟩ := nested.totalSize_closed hrecord hclose
      obtain ⟨hchildrenSorted, -⟩ := hchildren
      rw [add_widening_eq nested hrecord hchildrenSorted hinnerSize] at hclosedSize
      rw [leastSum_inline ds hinline, rounded_eq hb, hclosedSize]
      exact ⟨rfl, .field rfl (fun _ => hinnerPacked.closeRecord hclose) hpacked⟩
    · rw [leastSum_named ds hd hnested hrecord hinline hdvd hclosed]
      refine ⟨rfl, .field rfl (fun h => ?_) hpacked⟩
      refine absurd ⟨hrecord, ?_⟩ hinline
      exact (Bool.and_eq_true_iff.1 h).2

/-! ## The best order -/

theorem rounded_leastSum_le {rule : RecordRule} {ds : List Descriptor} {base : Nat}
    {fs : List (Field Nat)} (hds : Everywhere (Descriptor.Regular rule) ds) (hne : ds ≠ [])
    (h : place rule ds base = .ok fs) :
    rule.rounded ds (leastSum rule ds) ≤ Field.totalSize fs := by
  obtain ⟨inner, hinner, hclose⟩ := place_eq_ok.1 h
  obtain ⟨a, ha, hsize⟩ := hinner.totalSize_closed hne hclose
  have hle := leastSum_le hinner hds
  have hpos := hinner.totalSize_pos hne
  rw [rounded_eq ha, hsize]
  exact a.roundUp_mono (by omega)

theorem place_arranged {rule : RecordRule} {ds : List Descriptor} {fs : List (Field Nat)}
    (hds : Everywhere (Descriptor.Regular rule) ds) (harranged : Arranged ds) (hne : ds ≠ [])
    (h : place rule ds 0 = .ok fs) :
    Field.totalSize fs = rule.rounded ds (leastSum rule ds) ∧ Packed fs := by
  obtain ⟨inner, hinner, hclose⟩ := place_eq_ok.1 h
  obtain ⟨hinnerSize, hpacked⟩ := hinner.exact hds harranged fun _ _ => Nat.dvd_zero _
  obtain ⟨a, ha, hsize⟩ := hinner.totalSize_closed hne hclose
  obtain ⟨hsorted, -⟩ := harranged
  rw [add_widening_eq hinner hne hsorted hinnerSize] at hsize
  exact ⟨by rw [rounded_eq ha, hsize], hpacked.closeRecord hclose⟩

/-- An arranged order is packed and takes no more bytes than any other. -/
theorem arranged_least {rule : RecordRule} {ds es : List Descriptor} {base : Nat}
    {fs gs : List (Field Nat)} (hes : Everywhere (Descriptor.Regular rule) es)
    (harranged : Arranged es) (hreorders : Reorders es ds) (hfs : place rule es 0 = .ok fs)
    (hgs : place rule ds base = .ok gs) :
    Packed fs ∧ Field.totalSize fs ≤ Field.totalSize gs := by
  by_cases hne : es = []
  · subst hne
    obtain rfl := Except.ok.inj hfs
    exact ⟨.rest (by simp), Nat.zero_le _⟩
  · have hne' : ds ≠ [] := fun hnil => hne (hreorders.eq_nil_iff.2 hnil)
    obtain ⟨hsize, hpacked⟩ := place_arranged hes harranged hne hfs
    refine ⟨hpacked, ?_⟩
    rw [hsize, hreorders.rounded, hreorders.leastSum]
    exact rounded_leastSum_le (hreorders.everywhere_regular hes) hne' hgs

/-- A declaration with gaps, an inline record that ends in a leaf of no size, and a record of a
named type. -/
def scattered : List Descriptor :=
  [.leaf "flag" "bool" 1 1,
    .record "pair" "struct \x7b ok bool; n int64; e [0]int32 \x7d" 0 8
      [.leaf "ok" "bool" 1 1, .leaf "n" "int64" 8 8, .leaf "e" "[0]int32" 0 4],
    .record "point" "Point" 0 4 [.leaf "set" "bool" 1 1, .leaf "x" "int32" 4 4],
    .leaf "mark" "[0]int8" 0 1]

theorem everywhere_regular_leaf {rule : RecordRule} {name typeName : String} {size align : Int64}
    {ds : List Descriptor} (e : Nat) (hsize : 0 ≤ size.toInt)
    (halign : align.toInt = (Nat.pow 2 e : Nat))
    (hdvd : align.toInt.toNat ∣ size.toInt.toNat)
    (hcovered : rule.Covers (.leaf name typeName size align))
    (htail : Everywhere (Descriptor.Regular rule) ds) :
    Everywhere (Descriptor.Regular rule) (.leaf name typeName size align :: ds) :=
  .cons ⟨⟨hsize, e, halign⟩, fun _ => hdvd, fun h => absurd rfl h, hcovered⟩ .nil htail

theorem regular_scattered : Everywhere (Descriptor.Regular .standard) scattered := by
  refine everywhere_regular_leaf 0 (by decide) (by decide) (by decide) (by decide) ?_
  refine .cons ⟨⟨by decide, 3, by decide⟩, fun h => by simp [Descriptor.children] at h,
    fun _ => by decide, by decide⟩ ?_ ?_
  · refine everywhere_regular_leaf 0 (by decide) (by decide) (by decide) (by decide) ?_
    refine everywhere_regular_leaf 3 (by decide) (by decide) (by decide) (by decide) ?_
    exact everywhere_regular_leaf 2 (by decide) (by decide) (by decide) (by decide) .nil
  refine .cons ⟨⟨by decide, 2, by decide⟩, fun h => by simp [Descriptor.children] at h,
    fun _ => by decide, by decide⟩ ?_ ?_
  · refine everywhere_regular_leaf 0 (by decide) (by decide) (by decide) (by decide) ?_
    exact everywhere_regular_leaf 2 (by decide) (by decide) (by decide) (by decide) .nil
  exact everywhere_regular_leaf 0 (by decide) (by decide) (by decide) (by decide) .nil

theorem sound_standard : RecordRule.standard.Sound :=
  ⟨⟨⟨3, by decide⟩⟩, rfl⟩

end StructPadding
