import Mathlib.Order.Bounds.Defs
import StructPadding.Config
import StructPadding.Proofs.History
import StructPadding.Proofs.NamedRecords
import StructPadding.Proofs.Sequential

/-!
# Sizes of resolved types

Types are resolved to descriptors that can be placed: no size is negative, every alignment is a
power of two no larger than a word, and a record is aligned like the widest of its fields
(`Descriptor.Sized`). Arrays are the only way to make sizes larger, and they are refused before one
would no longer be a signed word. So a file under a sound configuration is never turned down because
its fields cannot be placed. None of this needs sizes that do not wrap around: what is left of the
size of a record is a multiple of its alignment, or so large that there is no array of the record.
-/

namespace StructPadding

/-- Records are rounded up to at least a word, or to the alignment of their fields. -/
def RecordRule.Whole (word : Nat) : RecordRule → Prop
  | fixed n => word ≤ n.toNat
  | natural => True

/-- A descriptor as a type has it on a machine with words of so many bytes. -/
structure Descriptor.Sized (rule : RecordRule) (word : Nat) (d : Descriptor) : Prop where
  valid : d.Valid
  bounded : d.align.toInt ≤ word
  record : d.children ≠ [] → IsGreatest {m | ∃ e ∈ d.children, e.align.toInt = m} d.align.toInt
  leaf : rule.Whole word → d.children = [] → d.align.toInt ∣ d.size.toInt

theorem isGreatest_widest {ds : List Descriptor} (hne : ds ≠ []) (hds : ∀ d ∈ ds, d.Valid) :
    IsGreatest {m : Int | ∃ e ∈ ds, e.align.toInt = m} (RecordRule.widest ds : Int) := by
  constructor
  · obtain ⟨d, hd, hwidest⟩ := exists_widest_mem hne hds
    have hpos := (hds d hd).align_pos
    exact ⟨d, hd, by omega⟩
  · rintro m ⟨d, hd, rfl⟩
    have hle := RecordRule.align_le_widest hd
    omega

namespace Go

/-- A scope for words of four or eight bytes in which every record has an alignment. -/
structure Scope.Sane (s : Scope) : Prop where
  word : s.target.word = 4 ∨ s.target.word = 8
  rule : s.rule.Sound

/-- A shape as a type has it. -/
structure Shape.Sized (s : Scope) (shape : Shape) : Prop where
  align : ∃ a : Alignment, a.bytes = shape.align.toNat
  bounded : shape.align.toNat ≤ s.target.word.toNat
  fits : shape.inner = [] → shape.size.toNat < 0x8000000000000000
  whole : s.rule.Whole s.target.word.toNat → shape.size.toNat < 0x8000000000000000 →
    shape.align.toNat ∣ shape.size.toNat
  spanning : shape.Spanning
  inner : Everywhere (Descriptor.Sized s.rule s.target.word.toNat) shape.inner

/-- An outcome of resolving a type: a shape as types have it, or a fault of the types. -/
structure Sizes (s : Scope) (o : Except ResolveError Shape) : Prop where
  ok : ∀ shape, o = .ok shape → shape.Sized s
  error : ∀ e, o ≠ .error (.layout e)

variable {s : Scope} {f : String → Except ResolveError Shape}

theorem sizes_ok {shape : Shape} (h : shape.Sized s) : Sizes s (.ok shape) := by
  refine ⟨fun other heq => ?_, fun e => by simp⟩
  obtain rfl := Except.ok.inj heq
  exact h

theorem sizes_type (fault : TypeFault) : Sizes s (.error (.type fault)) :=
  ⟨by simp, by simp⟩

/-! ## Blocks of memory -/

theorem scalar_sized {size align : UInt64} (a : Alignment) (ha : a.bytes = align.toNat)
    (hbounded : align.toNat ≤ s.target.word.toNat) (hfits : size.toNat < 0x8000000000000000)
    (hwhole : s.rule.Whole s.target.word.toNat → align.toNat ∣ size.toNat) :
    Shape.Sized s (.scalar size align) :=
  ⟨⟨a, ha⟩, hbounded, fun _ => hfits, fun hrule _ => hwhole hrule, trivial, .nil⟩

theorem Scope.Sane.word_le (hs : s.Sane) : s.target.word.toNat ≤ 8 := by
  rcases hs.word with h | h <;> rw [h] <;> decide

/-- A word is an alignment. -/
theorem Scope.Sane.exists_word (hs : s.Sane) : ∃ a : Alignment, a.bytes = s.target.word.toNat := by
  rcases hs.word with h | h
  · exact ⟨⟨⟨2, by decide⟩⟩, by rw [h]; rfl⟩
  · exact ⟨⟨⟨3, by decide⟩⟩, by rw [h]; rfl⟩

theorem words_sized (hs : s.Sane) {k : UInt64} (hk : k ∈ [1, 2, 3]) :
    Shape.Sized s (.scalar (k * s.target.word) s.target.word) := by
  obtain ⟨a, ha⟩ := hs.exists_word
  have hk : k = 1 ∨ k = 2 ∨ k = 3 := by simpa using hk
  have hsmall : (k * s.target.word).toNat ≤ 24 ∧
      s.target.word.toNat ∣ (k * s.target.word).toNat := by
    rcases hs.word with hword | hword <;> rw [hword] <;>
      rcases hk with rfl | rfl | rfl <;> decide
  obtain ⟨hsize, hdvd⟩ := hsmall
  exact scalar_sized a ha le_rfl (by omega) fun _ => hdvd

theorem pointer_sized (hs : s.Sane) : s.pointer.Sized s := by
  have h := words_sized hs (k := 1) (by decide)
  rwa [UInt64.one_mul] at h

/-- The sizes and alignments that predeclared types have by themselves. -/
theorem natural?_mem {t : Target} {name : String} {row : UInt64 × UInt64}
    (h : t.natural? name = some row) :
    row ∈ [(1, 1), (2, 2), (4, 4), (8, 8), (8, 4), (16, 8), (t.word, t.word),
      (2 * t.word, t.word)] := by
  unfold Target.natural? at h
  split at h <;> simp_all

theorem natural?_even (hs : s.Sane) {name : String} {size align : UInt64}
    (h : s.target.natural? name = some (size, align)) :
    size.toNat ≤ 16 ∧ align.toNat ∣ size.toNat ∧ ∃ a : Alignment, a.bytes = align.toNat := by
  have hall : ∀ row ∈ [(1, 1), (2, 2), (4, 4), (8, 8), (8, 4), (16, 8),
      (s.target.word, s.target.word), (2 * s.target.word, s.target.word)],
      row.1.toNat ≤ 16 ∧ row.2.toNat ∣ row.1.toNat ∧
        ∃ e : Fin 4, Nat.pow 2 e.val = row.2.toNat := by
    simp only [List.forall_mem_cons, List.not_mem_nil, false_implies, implies_true]
    rcases hs.word with hword | hword <;> rw [hword] <;> decide
  obtain ⟨hsize, hdvd, e, he⟩ := hall _ (natural?_mem h)
  exact ⟨hsize, hdvd, ⟨⟨e.val, by omega⟩⟩, he⟩

theorem predeclared_sizes (hs : s.Sane) (name : String) : Sizes s (s.predeclared name) := by
  unfold Scope.predeclared Target.predeclared?
  rcases hrow : s.target.natural? name with _ | ⟨size, align⟩
  · exact sizes_type _
  · obtain ⟨hsize, hdvd, a, ha⟩ := natural?_even hs hrow
    obtain ⟨b, hb⟩ := hs.exists_word
    refine sizes_ok ?_
    by_cases hle : align ≤ s.target.word
    · rw [show min align s.target.word = align from if_pos hle]
      exact scalar_sized a ha (UInt64.le_iff_toNat_le.1 hle) (by omega) fun _ => hdvd
    · rw [show min align s.target.word = s.target.word from if_neg hle]
      refine scalar_sized b hb le_rfl (by omega) fun _ => ?_
      rw [UInt64.le_iff_toNat_le, ← ha, ← hb] at hle
      rw [← ha] at hdvd
      exact hb ▸ Nat.dvd_trans (Alignment.bytes_dvd (by omega)) hdvd

/-! ## Records -/

theorem toNat_of_lt {n : Nat} (h : n < 0x8000000000000000) : (UInt64.ofNat n).toNat = n :=
  toNat_word (h.trans (by decide))

theorem toInt_toInt64 {x : UInt64} (h : x.toNat < 0x8000000000000000) :
    x.toInt64.toInt = x.toNat := by
  rw [← UInt64.ofNat_toNat (x := x), UInt64.toInt64_ofNat', UInt64.ofNat_toNat]
  exact Int64.toInt_ofNat_of_lt (by omega)

theorem leaf_sized {rule : RecordRule} {word : Nat} {size align : UInt64} {a : Alignment}
    (name typeName : String) (ha : a.bytes = align.toNat) (hsize : size.toNat < 0x8000000000000000)
    (hword : word ≤ 8) (hbounded : align.toNat ≤ word)
    (hwhole : rule.Whole word → align.toNat ∣ size.toNat) :
    (Descriptor.leaf name typeName size.toInt64 align.toInt64).Sized rule word := by
  have hsize' := toInt_toInt64 hsize
  have halign : align.toInt64.toInt = align.toNat := toInt_toInt64 (by omega)
  refine ⟨⟨?_, a.exponent, ?_⟩, ?_, fun hne => absurd rfl hne, fun hrule _ => ?_⟩
  · simp only [Descriptor.size, hsize']
    omega
  · simp only [Descriptor.align, halign, ← ha]
    rfl
  · simp only [Descriptor.align, halign]
    omega
  · simp only [Descriptor.size, Descriptor.align, hsize', halign]
    exact_mod_cast hwhole hrule

theorem Shape.Sized.descriptor (hs : s.Sane) {shape : Shape} (h : shape.Sized s)
    (name typeName : String) :
    (shape.descriptor name typeName).Sized s.rule s.target.word.toNat := by
  have hword := hs.word_le
  obtain ⟨a, ha⟩ := h.align
  have hbounded := h.bounded
  rcases shape with ⟨size, align⟩ | ⟨_ | ⟨d, ds⟩, size, align⟩
  · exact leaf_sized name typeName ha (h.fits rfl) hword hbounded fun hrule =>
      h.whole hrule (h.fits rfl)
  · exact leaf_sized name typeName ha (h.fits rfl) hword hbounded fun hrule =>
      h.whole hrule (h.fits rfl)
  · simp only [Shape.align] at ha hbounded
    have halign : align.toInt64.toInt = align.toNat := toInt_toInt64 (by omega)
    have hwidest : align.toNat = RecordRule.widest (d :: ds) := by
      rw [show align = _ from h.spanning, toNat_of_lt (widest_lt _)]
    have hgreatest := isGreatest_widest (List.cons_ne_nil d ds) fun e he =>
      (h.inner.mem e he).1.valid
    refine ⟨⟨by simp [Shape.descriptor, Descriptor.size], a.exponent, ?_⟩, ?_, fun _ => ?_,
      fun _ hnil => by cases hnil⟩
    · simp only [Shape.descriptor, Descriptor.align, halign, ← ha]
      rfl
    · simp only [Shape.descriptor, Descriptor.align, halign]
      exact_mod_cast hbounded
    · simp only [Shape.descriptor, Descriptor.align, Descriptor.children, halign]
      rwa [hwidest]

theorem widest_le {rule : RecordRule} {word : Nat} {ds : List Descriptor} (hne : ds ≠ [])
    (hds : ∀ d ∈ ds, d.Sized rule word) : RecordRule.widest ds ≤ word := by
  obtain ⟨d, hd, hwidest⟩ := exists_widest_mem hne fun d hd => (hds d hd).valid
  have hbounded := (hds d hd).bounded
  omega

theorem widest_dvd_alignment {rule : RecordRule} {word : Nat} {ds : List Descriptor}
    {a : Alignment} (hne : ds ≠ []) (hrule : rule.Whole word)
    (hds : ∀ d ∈ ds, d.Sized rule word) (ha : rule.alignment ds = .ok a) :
    RecordRule.widest ds ∣ a.bytes := by
  rcases rule with n | _
  · obtain ⟨b, hb⟩ := RecordRule.exists_widest fun d hd => (hds d hd).valid
    have hn : word ≤ n.toNat := hrule
    have hbytes : a.bytes = n.toNat := RecordRule.demand_eq_ok.1 ha
    have hle := widest_le hne hds
    rw [← hb] at hle ⊢
    exact Alignment.bytes_dvd (by omega)
  · have hbytes : a.bytes = RecordRule.widest ds := RecordRule.demand_eq_ok.1 ha
    exact hbytes ▸ Nat.dvd_refl a.bytes

/-- A word that was rounded up is a multiple, unless there was no room for that. -/
theorem dvd_advance {a : Alignment} {x : UInt64}
    (h : (Measure.advance a x).toNat < 0x8000000000000000) :
    a.bytes ∣ (Measure.advance a x).toNat := by
  have hle : x.toNat ≤ (Measure.advance a x).toNat := by
    simp only [Measure.advance]
    split_ifs with hlt
    · exact (UInt64.lt_iff_toNat_lt.1 hlt).le
    · exact le_rfl
  have hbytes : a.bytes ≤ 0x8000000000000000 :=
    Nat.pow_le_pow_right (by decide) (Nat.le_of_lt_succ a.exponent.isLt)
  have hround : a.roundUp x.toNat < UInt64.size := by
    have hlt := a.roundUp_lt x.toNat
    rw [show UInt64.size = 0x10000000000000000 from rfl]
    omega
  have hword := Measure.advance_word hround
  rw [UInt64.ofNat_toNat] at hword
  rw [hword, toNat_word hround]
  exact a.dvd_roundUp _

theorem distance_zero (x : UInt64) : Measure.distance 0 x = x := by
  unfold Measure.distance
  split_ifs with hpos
  · exact UInt64.sub_zero x
  · exact (UInt64.le_zero_iff.1 (UInt64.not_lt.1 hpos)).symm

theorem distance_roundUp (a : Alignment) (x : UInt64) :
    Measure.distance x (Measure.roundUp a x) = Measure.distance x (Measure.advance a x) := by
  simp only [Measure.advance]
  split_ifs with hlt
  · rfl
  · simp [Measure.distance, hlt]

/-- The size of a record is one that was rounded up. -/
theorem totalSize_eq_advance {rule : RecordRule} {ds : List Descriptor} {fs : List Field}
    (hne : ds ≠ []) (h : place rule ds (0 : UInt64) = .ok fs) :
    ∃ a x, rule.alignment ds = .ok a ∧ Field.totalSize fs = Measure.advance a x := by
  obtain ⟨inner, hinner, hclose⟩ := place_eq_ok.1 h
  obtain ⟨a, ha, rfl⟩ :=
    (closeRecord_eq_ok fun hnil => hne (hinner.eq_nil_iff.1 hnil)).1 hclose
  refine ⟨a, Field.totalSize (widenLast inner), ha, ?_⟩
  rw [Field.totalSize_append, hinner.endOf_widenLast, trailing, Field.totalSize_gap,
    UInt64.zero_add, distance_zero, distance_roundUp, Measure.add_distance_advance]

/-- The size of a record is a multiple of the largest alignment in it, if it is not too large. -/
theorem widest_dvd_totalSize {rule : RecordRule} {word : Nat} {ds : List Descriptor}
    {fs : List Field} (hrule : rule.Whole word) (hds : ∀ d ∈ ds, d.Sized rule word)
    (h : place rule ds (0 : UInt64) = .ok fs)
    (hsmall : (Field.totalSize fs).toNat < 0x8000000000000000) :
    RecordRule.widest ds ∣ (Field.totalSize fs).toNat := by
  by_cases hne : ds = []
  · subst hne
    obtain rfl := Except.ok.inj h
    exact Nat.dvd_zero _
  obtain ⟨a, x, ha, hsize⟩ := totalSize_eq_advance hne h
  rw [hsize] at hsmall ⊢
  exact Nat.dvd_trans (widest_dvd_alignment hne hrule hds ha) (dvd_advance hsmall)

theorem recordShape_sizes (hs : s.Sane) {ds : List Descriptor}
    (hds : Everywhere (Descriptor.Sized s.rule s.target.word.toNat) ds) :
    Sizes s (s.recordShape ds) := by
  obtain ⟨fs, hfs⟩ := place_succeeds hs.rule (hds.imp fun _ hd => hd.valid) (0 : UInt64)
  have hmem : ∀ d ∈ ds, d.Sized s.rule s.target.word.toNat := fun d hd => (hds.mem d hd).1
  have halign : (UInt64.ofNat (RecordRule.widest ds)).toNat = RecordRule.widest ds :=
    toNat_of_lt (widest_lt ds)
  rw [Scope.recordShape, hfs]
  refine sizes_ok ⟨?_, ?_, ?_, fun hrule hsmall => ?_, rfl, hds⟩
  · simp only [Shape.align, halign]
    exact RecordRule.exists_widest fun d hd => (hmem d hd).valid
  · simp only [Shape.align, halign]
    by_cases hne : ds = []
    · subst hne
      rcases hs.word with h | h <;> rw [h] <;> decide
    · exact widest_le hne hmem
  · rintro rfl
    obtain rfl := Except.ok.inj hfs
    decide
  · simp only [Shape.align, Shape.size, halign] at hsmall ⊢
    exact widest_dvd_totalSize hrule hmem hfs hsmall

/-! ## Types and names -/

theorem array_sizes {length : Nat} {elem : TypeExpr} {shape : Shape} (h : shape.Sized s) :
    Sizes s (if length * shape.size.toNat < 0x8000000000000000 then
        .ok (.scalar (.ofNat (length * shape.size.toNat)) shape.align)
      else .error (.type (.tooLarge (TypeExpr.array length elem).text))) := by
  split_ifs with hlt
  · obtain ⟨a, ha⟩ := h.align
    have hbytes : (UInt64.ofNat (length * shape.size.toNat)).toNat = length * shape.size.toNat :=
      toNat_of_lt hlt
    refine sizes_ok (scalar_sized a ha h.bounded (by rwa [hbytes]) fun hrule => ?_)
    rw [hbytes]
    rcases Nat.eq_zero_or_pos length with rfl | hpos
    · rw [Nat.zero_mul]
      exact Nat.dvd_zero _
    · have hle := Nat.le_mul_of_pos_left shape.size.toNat hpos
      exact Nat.dvd_trans (h.whole hrule (by omega)) (Nat.dvd_mul_left _ _)
  · exact sizes_type _

mutual

/-- A type is resolved to a shape as types have it, if the names in it are. -/
theorem shapeOf_sizes (hs : s.Sane) (hf : ∀ name, Sizes s (f name)) :
    ∀ t : TypeExpr, Sizes s (s.shapeOf f t)
  | .named name => hf name
  | .qualified package name => by
    simp only [Scope.shapeOf, Scope.shapeWith]
    split_ifs
    · exact sizes_ok (pointer_sized hs)
    · exact sizes_type _
  | .instantiated _ => sizes_type _
  | .pointer _ => sizes_ok (pointer_sized hs)
  | .map _ _ => sizes_ok (pointer_sized hs)
  | .chan _ _ => sizes_ok (pointer_sized hs)
  | .func _ => sizes_ok (pointer_sized hs)
  | .slice _ => sizes_ok (words_sized hs (by decide))
  | .interface _ => sizes_ok (words_sized hs (by decide))
  | .array length elem => by
    have helem := shapeOf_sizes hs hf elem
    rw [Scope.shapeOf_array]
    rcases hshape : s.shapeOf f elem with e | shape
    · rw [hshape] at helem
      exact ⟨by simp [bind, Except.bind], helem.error⟩
    · exact array_sizes (helem.ok shape hshape)
  | .symbolicArray _ _ => sizes_type _
  | .struct fields => by
    obtain ⟨hok, herror⟩ := descriptorsOf_sizes hs hf fields
    rw [Scope.shapeOf_struct]
    rcases hds : s.descriptorsOf f fields with e | ds
    · rw [hds] at herror
      exact ⟨by simp [bind, Except.bind], by simpa [bind, Except.bind] using herror⟩
    · exact recordShape_sizes hs (hok ds hds)

theorem descriptorsOf_sizes (hs : s.Sane) (hf : ∀ name, Sizes s (f name)) :
    ∀ fields : List (FieldDecl TypeExpr),
      (∀ ds, s.descriptorsOf f fields = .ok ds →
        Everywhere (Descriptor.Sized s.rule s.target.word.toNat) ds) ∧
      ∀ e, s.descriptorsOf f fields ≠ .error (.layout e)
  | [] => by
    refine ⟨fun ds hds => ?_, by simp [Scope.descriptorsOf_nil]⟩
    obtain rfl := Except.ok.inj hds
    exact .nil
  | ⟨name, type, embedded⟩ :: fields => by
    obtain ⟨hok, herror⟩ := descriptorsOf_sizes hs hf fields
    have htype := shapeOf_sizes hs hf type
    refine ⟨fun ds hds => ?_, fun e he => ?_⟩
    · obtain ⟨shape, rest, hshape, hrest, rfl⟩ := Scope.descriptorsOf_cons_eq_ok.1 hds
      have hsized := htype.ok shape hshape
      refine .cons (hsized.descriptor hs _ _) ?_ (hok rest hrest)
      rw [Shape.children_descriptor]
      exact hsized.inner
    · rw [Scope.descriptorsOf_cons] at he
      rcases hshape : s.shapeOf f type with e' | shape
      · simp only [hshape, bind, Except.bind] at he
        obtain rfl := Except.error.inj he
        exact htype.error e hshape
      · rcases hrest : s.descriptorsOf f fields with e' | rest
        · simp only [hshape, hrest, bind, Except.bind] at he
          exact herror e (hrest.trans he)
        · simp [hshape, hrest, bind, Except.bind] at he

end

/-- Every name is resolved to a shape as types have it, or to a fault of the types. -/
theorem fresh_sizes (hs : s.Sane) (left : Nat) :
    ∀ visiting name, Sizes s (s.fresh left visiting name) := by
  induction left using Nat.strong_induction_on with
  | _ left ih =>
    intro visiting name
    rw [Scope.fresh.eq_def]
    rcases hfind : s.find? name with _ | decl <;> simp only [hfind]
    · exact predeclared_sizes hs name
    · split_ifs
      · exact sizes_type _
      · exact sizes_type _
      · rcases left with _ | left
        · exact sizes_type _
        · exact shapeOf_sizes hs (ih left (Nat.lt_succ_self left) _) _

theorem shape_sizes (hs : s.Sane) (name : String) : Sizes s (s.shape name) :=
  fresh_sizes hs s.decls.length [] name

/-! ## Declarations and files -/

namespace Scope

theorem recordFields_sized (hs : s.Sane) {calls : List TypeDecl} {d : TypeDecl}
    {ds : List Descriptor} (h : (s.recordFields d (s.after calls [])).1 = .ok (some ds)) :
    Everywhere (Descriptor.Sized s.rule s.target.word.toNat) ds := by
  obtain ⟨-, size, align, hshape⟩ := recordFields_eq_some.1 h
  exact ((shape_sizes hs d.name).ok _ hshape).inner

theorem placed?_ne_layout (hs : s.Sane) (d : TypeDecl) (e : LayoutError) :
    s.placed? d ≠ .error (.layout e) := by
  intro h
  unfold placed? at h
  rcases hd : (s.recordFields d []).1 with e' | _ | fields <;> rw [hd] at h
  · rcases e' with fault | e'
    · cases h
    · have herror : (s.recordFields d (s.after [] [])).1 = .error (.layout e') := hd
      exact (shape_sizes hs d.name).error e' (recordFields_eq_error.1 herror).2
  · cases h
  · have hfields : (s.recordFields d (s.after [] [])).1 = .ok (some fields) := hd
    have hsized := recordFields_sized hs hfields
    obtain ⟨placed, hplaced⟩ :=
      place_succeeds hs.rule (hsized.imp fun _ hd => hd.valid) (0 : UInt64)
    simp [hplaced, Except.mapError, Except.map] at h

theorem layoutsOf_ne_layout (hs : s.Sane) (e : LayoutError) (ds : List TypeDecl) :
    s.layoutsOf ds ≠ .error (.layout e) := by
  induction ds with
  | nil => exact nofun
  | cons d ds ih =>
    intro h
    rw [layoutsOf] at h
    rcases hplaced : s.placed? d with e' | placed <;> rw [hplaced] at h
    · obtain rfl := Except.error.inj h
      exact placed?_ne_layout hs d e hplaced
    · rcases hrest : s.layoutsOf ds with e' | rest <;> rw [hrest] at h
      · obtain rfl := Except.error.inj h
        exact ih hrest
      · cases h

end Scope

theorem read_ne_layout (source : List UInt8) (e : LayoutError) :
    (sourceChars source >>= declarations) ≠ .error (.layout e) := by
  intro h
  unfold sourceChars at h
  split at h
  · rename_i cs _
    simp only [bind, Except.bind, declarations] at h
    split at h
    · cases h
    · split at h <;> cases h
  · cases h

/-- A source is turned down when it is read, for a name that it declares twice, or for the first
declaration that has no layout. -/
theorem extract_eq_error {target : Target} {rule : RecordRule} {path : String}
    {source : List UInt8} {err : ExtractError}
    (h : (extract target rule path source).value = .error err) :
    (sourceChars source >>= declarations) = .error err ∨
      (∃ name, err = .types (.redeclared name)) ∨
      ∃ decls, Scope.layoutsOf ⟨target, rule, decls⟩ decls = .error err := by
  unfold extract at h
  rcases hcs : sourceChars source with e | cs <;> rw [hcs] at h
  · obtain rfl : e = err := Except.error.inj h
    exact .inl rfl
  rcases hdecls : declarations cs with e | decls <;> simp only [hdecls] at h
  · obtain rfl : e = err := Except.error.inj h
    exact .inl hdecls
  rcases hre : redeclared? [] decls with _ | name <;> simp only [hre] at h
  · refine .inr (.inr ⟨decls, ?_⟩)
    rcases hls : (layoutsFrom path ⟨target, rule, decls⟩ decls []).value with e | ls <;>
      simp [hls] at h
    rwa [Scope.layoutsFrom_value .nil, h] at hls
  · exact .inr (.inl ⟨name, (Except.error.inj h).symm⟩)

theorem extract_ne_layout {target : Target} {rule : RecordRule}
    (hs : ∀ decls, Scope.Sane ⟨target, rule, decls⟩) (path : String) (source : List UInt8)
    (e : LayoutError) : (extract target rule path source).value ≠ .error (.layout e) := by
  intro h
  rcases extract_eq_error h with hread | ⟨name, hname⟩ | ⟨decls, hlayouts⟩
  · exact read_ne_layout source e hread
  · cases hname
  · exact Scope.layoutsOf_ne_layout (hs decls) e decls hlayouts

theorem sane_of_check {c : Config} (h : c.check = .ok ()) (decls : List TypeDecl) :
    Scope.Sane ⟨c.target, c.recordRule, decls⟩ := by
  unfold Config.check at h
  split_ifs at h with hword
  refine ⟨?_, ?_⟩
  · by_contra hne
    rw [not_or] at hne
    exact hword hne
  · simp only
    split at h
    · rename_i n hrule
      rw [hrule]
      split at h
      · rename_i a ha
        exact ⟨a, Alignment.bytes_of_ofBytes? ha⟩
      · cases h
    · rename_i hrule
      rw [hrule]
      trivial

/-- Whatever was resolved before, a declaration is resolved to descriptors with sizes that are not
negative and power-of-two alignments of at most a word, in which every record is aligned like the
widest of its fields; and the sizes of leaves are multiples of their alignments if records are
rounded up to a word, or to the alignment of their fields. No source is turned down under a sound
configuration because its fields cannot be placed. -/
theorem resolved_sized :
    (∀ s : Scope, s.target.word = 4 ∨ s.target.word = 8 → s.rule.Sound → ∀ calls d ds,
      (s.recordFields d (s.after calls [])).1 = .ok (some ds) →
        Everywhere (Descriptor.Sized s.rule s.target.word.toNat) ds) ∧
    ∀ c : Config, c.check = .ok () → ∀ path source e,
      (extract c.target c.recordRule path source).value ≠ .error (.layout e) := by
  constructor
  · intro s hword hrule calls d ds h
    exact Scope.recordFields_sized ⟨hword, hrule⟩ h
  · intro c hc path source e
    exact extract_ne_layout (sane_of_check hc) path source e

/-- A record, and another one that holds three of it in an array and one by itself. -/
def pairs : List TypeDecl :=
  [⟨"Pair", .struct [⟨"ok", .named "bool", false⟩, ⟨"n", .named "int64", false⟩], false, ⟨1, 1⟩⟩,
    ⟨"Row", .struct [⟨"ps", .array 3 (.named "Pair"), false⟩, ⟨"p", .named "Pair", false⟩], false,
      ⟨2, 2⟩⟩]

theorem resolved_sized_pairs : ∃ ds,
    (Scope.recordFields ⟨⟨4⟩, .standard, pairs⟩ ⟨"Row", .named "Row", false, ⟨0, 0⟩⟩
      (Scope.after ⟨⟨4⟩, .standard, pairs⟩ pairs [])).1 = .ok (some ds) ∧
    (ds.map fun d => (d.name, d.size.toInt, d.align.toInt, d.children.length)) =
      [("ps", 48, 4, 0), ("p", 0, 4, 2)] ∧
    Everywhere (Descriptor.Sized .standard 4) ds ∧
    Config.check { wordSize := 4 } = .ok () ∧
    ∀ path source e, (extract ⟨4⟩ .standard path source).value ≠ .error (.layout e) := by
  have hrows : ((Scope.recordFields ⟨⟨4⟩, .standard, pairs⟩ ⟨"Row", .named "Row", false, ⟨0, 0⟩⟩
      (Scope.after ⟨⟨4⟩, .standard, pairs⟩ pairs [])).1.toOption.join.map fun ds =>
        ds.map fun d => (d.name, d.size.toInt, d.align.toInt, d.children.length)) =
      some [("ps", 48, 4, 0), ("p", 0, 4, 2)] := by
    decide +kernel
  rcases hds : (Scope.recordFields ⟨⟨4⟩, .standard, pairs⟩ ⟨"Row", .named "Row", false, ⟨0, 0⟩⟩
      (Scope.after ⟨⟨4⟩, .standard, pairs⟩ pairs [])).1 with e | _ | ds <;> rw [hds] at hrows
  · cases hrows
  · cases hrows
  · exact ⟨ds, rfl, Option.some.inj hrows,
      resolved_sized.1 ⟨⟨4⟩, .standard, pairs⟩ (.inl rfl) ⟨.word, rfl⟩ pairs _ ds hds, rfl,
      resolved_sized.2 { wordSize := 4 } rfl⟩

end Go

end StructPadding
