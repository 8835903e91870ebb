import StructPadding.Proofs.Forms
import StructPadding.Proofs.Measured

/-!
# Structs as they are compiled

Under the natural rule, a struct of a file is laid out by the rule of a compiler: its size, and the
offsets and sizes of its fields at every depth, are those computed from the form of its type
(`Shape.Takes`), as long as the size so computed is below 2^64. What one field contributes is
`Describes`, and fields that are placed one after another contribute the rows of a struct
(`rows_of_placed`). Rows are computed in numbers, and only the outcome is told of words.
-/

namespace StructPadding

namespace Field

section

variable {ω : Type} [Measure ω]

mutual

/-- A field as a row, and none for padding. -/
def view : Field ω → List Go.Row
  | padding .. => []
  | leaf name _ start size _ _ => [.mk name (Measure.toNat start) (Measure.toNat size) []]
  | record name typeName start align widened children =>
    [.mk name (Measure.toNat start)
      (Measure.toNat (record name typeName start align widened children).size) (views children)]

def views : List (Field ω) → List Go.Row
  | [] => []
  | f :: fs => f.view ++ views fs

end

@[simp]
theorem views_append (fs gs : List (Field ω)) : views (fs ++ gs) = views fs ++ views gs := by
  induction fs with
  | nil => simp [views]
  | cons f fs ih => simp [views, ih]

@[simp]
theorem views_gap (x y : ω) : views (gap x y) = [] := by
  unfold gap
  split_ifs <;> simp [views, view]

end

mutual

theorem view_words : ∀ f : Field Nat, f.stop < UInt64.size →
    (∀ g : Field Nat, g.Within f.children → g.stop < UInt64.size) → f.words.view = f.view
  | padding .., _, _ => by rw [words, view, view]
  | leaf name typeName start size declared align, hstop, _ => by
    rw [stop, Field.start, Field.size] at hstop
    rw [words, view, view, Measure.toNat_nat, Measure.toNat_nat]
    congr 2
    · exact toNat_word (by omega)
    · exact toNat_word (by omega)
  | record name typeName start align widened children, hstop, hinner => by
    have hsize := (record name typeName start align widened children).size_words
    rw [stop, Field.start] at hstop
    rw [words] at hsize ⊢
    rw [view, view, hsize, views_words children hinner, Measure.toNat_nat, Measure.toNat_nat]
    congr 2
    · exact toNat_word (by omega)
    · exact toNat_word (by omega)

/-- The rows of words are those of the numbers, if these are words. -/
theorem views_words : ∀ fs : List (Field Nat),
    (∀ f : Field Nat, f.Within fs → f.stop < UInt64.size) → views (wordsAll fs) = views fs
  | [], _ => by rw [wordsAll, views, views]
  | f :: fs, h => by
    rw [wordsAll, views, views, view_words f (h f (.here List.mem_cons_self)) fun g hg =>
      h g (.inside List.mem_cons_self hg), views_words fs fun g hg =>
      h g (within_cons.2 (.inr (.inr hg)))]

end

end Field

open StructPadding.Field (view views)

namespace Go

theorem roundUp_eq_nextMultiple (a : Alignment) (x : Nat) :
    a.roundUp x = nextMultiple a.bytes x := by
  have hpos := a.bytes_pos
  have hdiv := Nat.div_add_mod (x + a.bytes - 1) a.bytes
  have hmod := Nat.mod_lt (x + a.bytes - 1) hpos
  rw [Nat.mul_comm] at hdiv
  have hle : x ≤ nextMultiple a.bytes x := by
    unfold nextMultiple
    omega
  refine Nat.le_antisymm (Alignment.roundUp_le hle (Nat.dvd_mul_left _ _)) ?_
  obtain ⟨q, hq⟩ := a.dvd_roundUp x
  have hup := a.le_roundUp x
  rw [hq, Nat.mul_comm, nextMultiple]
  refine Nat.mul_le_mul_right _ (Nat.le_of_lt_succ ((Nat.div_lt_iff_lt_mul hpos).2 ?_))
  rw [Nat.succ_mul, Nat.mul_comm]
  omega

/-! ## One field -/

/-- A descriptor of a field of some name and form. -/
structure Describes (word : Nat) (d : Descriptor) (entry : String × Form) : Prop where
  valid : d.Valid
  name : d.name = entry.1
  align : d.align.toInt.toNat = entry.2.align word
  leaf : d.children = [] → entry.2.size ⟨word, true⟩ < UInt64.size →
    d.bytes = entry.2.size ⟨word, true⟩ ∧ ∀ base, entry.2.rows ⟨word, true⟩ base = []
  record : d.children ≠ [] → entry.2.size ⟨word, true⟩ < UInt64.size →
    ∀ {base : Nat} {fs : List (Field Nat)}, entry.2.align word ∣ base →
      place .natural d.children base = .ok fs →
        Field.totalSize fs = entry.2.size ⟨word, true⟩ ∧ views fs = entry.2.rows ⟨word, true⟩ base

/-- The field of such a name and form at an offset in a struct that lies at `base`. -/
structure Sits (word : Nat) (entry : String × Form) (base start : Nat) (last : Bool)
    (f : Field Nat) : Prop where
  view : f.view = [.mk entry.1 (base + start)
    (Compiler.held ⟨word, true⟩ last start (entry.2.size ⟨word, true⟩))
    (entry.2.rows ⟨word, true⟩ (base + start))]
  stop : f.stop =
    base + (start + Compiler.held ⟨word, true⟩ last start (entry.2.size ⟨word, true⟩))

variable {word : Nat}

/-- A field starts at the next multiple of its alignment, counted from the start of the struct. -/
theorem Describes.start {d : Descriptor} {entry : String × Form} (h : Describes word d entry)
    {a : Alignment} (hcheck : d.check = .ok a) {base : Nat} (hbase : entry.2.align word ∣ base)
    (x : Nat) : a.roundUp (base + x) = base + nextMultiple (entry.2.align word) x := by
  rw [← h.align, Descriptor.align_of_check hcheck] at hbase ⊢
  rw [Nat.add_comm, Alignment.roundUp_add hbase, roundUp_eq_nextMultiple, Nat.add_comm]

theorem Describes.sits_leaf {d : Descriptor} {entry : String × Form} (h : Describes word d entry)
    (hsmall : entry.2.size ⟨word, true⟩ < UInt64.size) (hleaf : d.children = [])
    (base start : Nat) (a : Alignment) :
    Sits word entry base start false
        (.leaf d.name d.typeName (base + start) d.bytes d.bytes a) ∧
      Sits word entry base start true
        (.leaf d.name d.typeName (base + start) d.bytes d.bytes a : Field Nat).widen := by
  obtain ⟨hbytes, hrows⟩ := h.leaf hleaf hsmall
  refine ⟨⟨?_, ?_⟩, ?_, ?_⟩
  all_goals
    simp [Field.view, Field.widen, Field.stop, Field.start, Field.size, Compiler.held, h.name,
      hbytes, hrows, Nat.add_assoc]

theorem Describes.sits_record {d : Descriptor} {entry : String × Form} (h : Describes word d entry)
    (hsmall : entry.2.size ⟨word, true⟩ < UInt64.size) (hrecord : d.children ≠ [])
    {base start : Nat} {a : Alignment} {inner closed : List (Field Nat)}
    (hdvd : entry.2.align word ∣ base + start)
    (hinner : Placed .natural (base + start) d.children inner)
    (hclose : closeRecord .natural d.children (base + start) inner = .ok closed) :
    Sits word entry base start false
        (.record d.name d.typeName (base + start) a false closed) ∧
      Sits word entry base start true
        (.record d.name d.typeName (base + start) a false closed : Field Nat).widen := by
  obtain ⟨hsize, hrows⟩ := h.record hrecord hsmall hdvd (place_eq_ok.2 ⟨inner, hinner, hclose⟩)
  -- A record with fields is never empty, so the byte at the end is not added to it again.
  have hpos := hinner.totalSize_closed_pos hrecord hclose
  have hheld : ∀ last, Compiler.held ⟨word, true⟩ last start (entry.2.size ⟨word, true⟩) =
      entry.2.size ⟨word, true⟩ := by
    intro last
    rw [Compiler.held, if_neg]
    omega
  have hsits : ∀ last, Sits word entry base start last
      (.record d.name d.typeName (base + start) a false closed) := by
    intro last
    refine ⟨?_, ?_⟩
    · rw [hheld, Field.view, Field.size, h.name, hsize, hrows, Measure.toNat_nat,
        Measure.toNat_nat]
    · rw [hheld, Field.stop, Field.start, Field.size, hsize, Nat.add_assoc]
  rw [widen_record hpos]
  exact ⟨hsits false, hsits true⟩

/-! ## Fields one after another -/

theorem widest_of_describes {ds : List Descriptor} {forms : List (String × Form)}
    (h : List.Forall₂ (Describes word) ds forms) :
    RecordRule.widest ds = Form.alignAll word forms := by
  induction h with
  | nil => rw [RecordRule.widest, Form.alignAll]
  | cons head _ ih => rw [RecordRule.widest, Form.alignAll, head.align, ih]

/-- The rows of fields are those of the first one and of the rest. -/
theorem rows_cons {entry : String × Form} {forms : List (String × Form)} {base x : Nat}
    {f : Field Nat} {fs : List (Field Nat)} (offset u v : Nat)
    (hf : Sits word entry base (nextMultiple (entry.2.align word) x) false f)
    (hwiden : Sits word entry base (nextMultiple (entry.2.align word) x) true f.widen)
    (hempty : fs = [] ↔ forms = [])
    (htail : ∀ y, f.stop = base + y →
      views (widenLast fs) = Form.rowsOf ⟨word, true⟩ base y forms ∧
        endOf f.stop (widenLast fs) = base + Form.stopOf ⟨word, true⟩ y forms) :
    views (widenLast (gap u v ++ f :: fs)) =
        Form.rowsOf ⟨word, true⟩ base x (entry :: forms) ∧
      endOf offset (widenLast (gap u v ++ f :: fs)) =
        base + Form.stopOf ⟨word, true⟩ x (entry :: forms) := by
  obtain ⟨name, form⟩ := entry
  rw [widenLast_append_cons, Field.views_append, Field.views_gap, List.nil_append, Form.rowsOf,
    Form.stopOf]
  by_cases hnil : fs = []
  · obtain rfl := hnil
    obtain rfl := hempty.1 rfl
    rw [widenLast, endOf_append_singleton, hwiden.stop, views, hwiden.view]
    simp [views, Form.rowsOf, Form.stopOf]
  · have hforms : forms.isEmpty = false := by
      simpa using fun h => hnil (hempty.2 h)
    obtain ⟨hrows, hstop⟩ := htail _ hf.stop
    rw [widenLast_cons hnil, views, hf.view, hrows, hforms, endOf_append_cons, hstop]
    exact ⟨rfl, rfl⟩

theorem nil_iff_of_describes {offset : Nat} {ds : List Descriptor} {fs : List (Field Nat)}
    {forms : List (String × Form)} (h : Placed .natural offset ds fs)
    (hds : List.Forall₂ (Describes word) ds forms) : fs = [] ↔ forms = [] := by
  rw [h.eq_nil_iff, ← List.length_eq_zero_iff, hds.length_eq, List.length_eq_zero_iff]

theorem rows_of_placed {offset : Nat} {ds : List Descriptor} {fs : List (Field Nat)}
    (h : Placed .natural offset ds fs) :
    ∀ {forms : List (String × Form)} {base x : Nat}, offset = base + x →
      List.Forall₂ (Describes word) ds forms →
      (∀ entry ∈ forms, entry.2.align word ∣ base ∧ entry.2.size ⟨word, true⟩ < UInt64.size) →
      views (widenLast fs) = Form.rowsOf ⟨word, true⟩ base x forms ∧
        endOf offset (widenLast fs) = base + Form.stopOf ⟨word, true⟩ x forms := by
  -- Offsets are absolute here and counted from the start of the struct in the rows. The two agree
  -- because the struct starts at a multiple of every alignment in it.
  induction h using Placed.numbers_induction with
  | nil =>
    rintro forms base x rfl (_ | _) _
    exact ⟨by rw [widenLast, views, Form.rowsOf], by rw [Form.stopOf]; rfl⟩
  | @leaf offset d ds a fs hleaf hcheck tail ih =>
    rintro forms base x rfl (_ | @⟨_, entry, _, forms, head, rest⟩) hdvd
    obtain ⟨hbase, hsmall⟩ := hdvd entry List.mem_cons_self
    have hempty := nil_iff_of_describes tail rest
    rw [head.start hcheck hbase] at ih ⊢
    obtain ⟨hsits, hwiden⟩ :=
      head.sits_leaf hsmall hleaf base (nextMultiple (entry.2.align word) x) a
    exact rows_cons _ _ _ hsits hwiden hempty fun y hy =>
      ih hy rest fun e he => hdvd e (List.mem_cons_of_mem _ he)
  | @record offset d ds a inner closed fs hrecord hcheck nested hclose tail _ ih =>
    rintro forms base x rfl (_ | @⟨_, entry, _, forms, head, rest⟩) hdvd
    obtain ⟨hbase, hsmall⟩ := hdvd entry List.mem_cons_self
    have hempty := nil_iff_of_describes tail rest
    rw [head.start hcheck hbase] at ih nested hclose ⊢
    obtain ⟨hsits, hwiden⟩ := head.sits_record hsmall hrecord (a := a)
      (Nat.dvd_add hbase (Nat.dvd_mul_left _ _)) nested hclose
    exact rows_cons _ _ _ hsits hwiden hempty fun y hy =>
      ih hy rest fun e he => hdvd e (List.mem_cons_of_mem _ he)

/-! ## Structs -/

theorem exists_describes {ds : List Descriptor} {forms : List (String × Form)}
    (h : List.Forall₂ (Describes word) ds forms) :
    ∀ entry ∈ forms, ∃ d ∈ ds, Describes word d entry := by
  induction h with
  | nil => simp
  | @cons d entry _ _ head _ ih =>
    intro other hother
    rcases List.mem_cons.1 hother with rfl | hother
    · exact ⟨d, List.mem_cons_self, head⟩
    · obtain ⟨e, he, hdescribes⟩ := ih other hother
      exact ⟨e, List.mem_cons_of_mem _ he, hdescribes⟩

theorem align_dvd_alignAll {ds : List Descriptor} {forms : List (String × Form)}
    (h : List.Forall₂ (Describes word) ds forms) :
    ∀ entry ∈ forms, entry.2.align word ∣ Form.alignAll word forms := by
  have hvalid : ∀ d ∈ ds, d.Valid :=
    ((List.forall₂_and_left ds forms).1 (h.imp fun _ _ hd => ⟨hd.valid, hd⟩)).1
  obtain ⟨b, hb⟩ := RecordRule.exists_widest hvalid
  intro entry hentry
  obtain ⟨d, hd, hdescribes⟩ := exists_describes h entry hentry
  obtain ⟨a, ha⟩ := Descriptor.valid_iff.1 hdescribes.valid
  have hle := RecordRule.align_le_widest hd
  rw [Descriptor.align_of_check ha, ← hb] at hle
  rw [← hdescribes.align, Descriptor.align_of_check ha, ← widest_of_describes h, ← hb]
  exact Alignment.bytes_dvd hle

theorem Describes.le_nextMultiple {d : Descriptor} {entry : String × Form}
    (h : Describes word d entry) (x : Nat) : x ≤ nextMultiple (entry.2.align word) x := by
  obtain ⟨a, ha⟩ := Descriptor.valid_iff.1 h.valid
  rw [← h.align, Descriptor.align_of_check ha, ← roundUp_eq_nextMultiple]
  exact a.le_roundUp x

theorem Compiler.le_held (c : Compiler) (last : Bool) (start size : Nat) :
    size ≤ c.held last start size := by
  unfold held
  split_ifs <;> omega

/-- Every field ends before the struct does. -/
theorem size_le_stopOf {ds : List Descriptor} {forms : List (String × Form)}
    (h : List.Forall₂ (Describes word) ds forms) : ∀ x, x ≤ Form.stopOf ⟨word, true⟩ x forms ∧
      ∀ entry ∈ forms, entry.2.size ⟨word, true⟩ ≤ Form.stopOf ⟨word, true⟩ x forms := by
  induction h with
  | nil => simp [Form.stopOf]
  | @cons d entry _ forms head _ ih =>
    intro x
    obtain ⟨name, form⟩ := entry
    have hstart : x ≤ nextMultiple (form.align word) x := head.le_nextMultiple x
    have hheld := Compiler.le_held ⟨word, true⟩ forms.isEmpty
      (nextMultiple (form.align word) x) (form.size ⟨word, true⟩)
    obtain ⟨hstop, hrest⟩ := ih (nextMultiple (form.align word) x +
      Compiler.held ⟨word, true⟩ forms.isEmpty (nextMultiple (form.align word) x)
        (form.size ⟨word, true⟩))
    simp only [Form.stopOf]
    refine ⟨by omega, fun other hother => ?_⟩
    rcases List.mem_cons.1 hother with rfl | hother
    · dsimp only
      omega
    · exact hrest other hother

/-- No field is larger than the struct. -/
theorem size_le_struct {ds : List Descriptor} {forms : List (String × Form)}
    (h : List.Forall₂ (Describes word) ds forms) : ∀ entry ∈ forms,
      entry.2.size ⟨word, true⟩ ≤ (Form.struct forms).size ⟨word, true⟩ := by
  intro entry hentry
  have hvalid : ∀ d ∈ ds, d.Valid :=
    ((List.forall₂_and_left ds forms).1 (h.imp fun _ _ hd => ⟨hd.valid, hd⟩)).1
  obtain ⟨a, ha⟩ := RecordRule.exists_widest hvalid
  have hle := (size_le_stopOf h 0).2 entry hentry
  rw [Form.size, ← widest_of_describes h, ← ha, ← roundUp_eq_nextMultiple]
  exact hle.trans (a.le_roundUp _)

/-- A struct of fields that match is laid out like their forms, wherever it lies. -/
theorem rows_of_place {ds : List Descriptor} {forms : List (String × Form)} {base : Nat}
    {fs : List (Field Nat)} (h : List.Forall₂ (Describes word) ds forms)
    (hsmall : (Form.struct forms).size ⟨word, true⟩ < UInt64.size)
    (hbase : Form.alignAll word forms ∣ base) (hfs : place .natural ds base = .ok fs) :
    Field.totalSize fs = (Form.struct forms).size ⟨word, true⟩ ∧
      views fs = (Form.struct forms).rows ⟨word, true⟩ base := by
  obtain ⟨inner, hinner, hclose⟩ := place_eq_ok.1 hfs
  obtain ⟨hrows, hstop⟩ := rows_of_placed hinner (Nat.add_zero base).symm h fun entry he =>
    ⟨Nat.dvd_trans (align_dvd_alignAll h entry he) hbase,
      (size_le_struct h entry he).trans_lt hsmall⟩
  rw [Form.size, Form.rows]
  by_cases hne : ds = []
  · subst hne
    obtain rfl := hinner.eq_nil_iff.2 rfl
    obtain rfl := Except.ok.inj hclose
    cases h
    exact ⟨by simp [Form.alignAll, Form.stopOf, nextMultiple, Field.totalSize],
      by rw [views, Form.rowsOf]⟩
  · obtain ⟨a, ha, rfl⟩ := (closeRecord_eq_ok fun hnil => hne (hinner.eq_nil_iff.1 hnil)).1 hclose
    have hbytes : a.bytes = Form.alignAll word forms :=
      (RecordRule.demand_eq_ok.1 ha).trans (widest_of_describes h)
    have htotal := hinner.endOf_widenLast
    have hle := a.le_roundUp (Form.stopOf ⟨word, true⟩ 0 forms)
    rw [hstop] at htotal ⊢
    rw [trailing_nat, Nat.add_sub_cancel_left, Field.totalSize_append, Field.totalSize_gap,
      Field.views_append, Field.views_gap, List.append_nil, hrows, ← hbytes, ← roundUp_eq_nextMultiple]
    exact ⟨by omega, rfl⟩

/-! ## Types -/

/-- A shape is that of a form, if the size of the form is a word. -/
inductive Shape.Takes (word : Nat) : Shape → Form → Prop
  | scalar {size align : UInt64} {form : Form}
    (hsize : form.size ⟨word, true⟩ < UInt64.size → size.toNat = form.size ⟨word, true⟩)
    (halign : align.toNat = form.align word)
    (hrows : ∀ base, form.rows ⟨word, true⟩ base = []) : Takes word (.scalar size align) form
  | record {ds : List Descriptor} {forms : List (String × Form)} {size align : UInt64}
    (hsize : (Form.struct forms).size ⟨word, true⟩ < UInt64.size →
      size.toNat = (Form.struct forms).size ⟨word, true⟩)
    (halign : align.toNat = Form.alignAll word forms)
    (hds : List.Forall₂ (Describes word) ds forms) :
    Takes word (.record ds size align) (.struct forms)

theorem Shape.Takes.size_eq {shape : Shape} {form : Form} (h : shape.Takes word form)
    (hsmall : form.size ⟨word, true⟩ < UInt64.size) :
    shape.size.toNat = form.size ⟨word, true⟩ := by
  cases h with
  | scalar hsize _ _ => exact hsize hsmall
  | record hsize _ _ => exact hsize hsmall

theorem Shape.Takes.align_eq {shape : Shape} {form : Form} (h : shape.Takes word form) :
    shape.align.toNat = form.align word := by
  cases h with
  | scalar _ halign _ => exact halign
  | record _ halign _ => rw [Form.align, ← halign, Shape.align]

/-- A placed struct, as it is in numbers. -/
theorem words_of_place {ds : List Descriptor} {forms : List (String × Form)} {placed : List Field}
    (hds : List.Forall₂ (Describes word) ds forms)
    (hsmall : (Form.struct forms).size ⟨word, true⟩ < UInt64.size)
    (h : place .natural ds (0 : UInt64) = .ok placed) :
    (Field.totalSize placed).toNat = (Form.struct forms).size ⟨word, true⟩ ∧
      views placed = (Form.struct forms).rows ⟨word, true⟩ 0 := by
  obtain ⟨es, hes⟩ := exists_numbers h 0
  obtain ⟨hsize, hrows⟩ := rows_of_place hds hsmall (Nat.dvd_zero _) hes
  rw [← hsize] at hsmall
  have hroom : 0 + Field.totalSize es < UInt64.size := by rwa [Nat.zero_add]
  obtain rfl := Except.ok.inj (h.symm.trans (@place_words .natural ds 0 es hes hroom))
  rw [Field.totalSize_words, toNat_word hsmall, Field.views_words es fun f hf =>
    (stop_le_of_place hes hf).trans_lt hroom]
  exact ⟨hsize, hrows⟩

theorem takes_record {s : Scope} (hrule : s.rule = .natural) {ds : List Descriptor} {shape : Shape}
    {forms : List (String × Form)} (hds : List.Forall₂ (Describes word) ds forms)
    (h : s.recordShape ds = .ok shape) : shape.Takes word (.struct forms) := by
  obtain ⟨placed, hplaced, rfl⟩ := Scope.recordShape_eq_ok.1 h
  rw [hrule] at hplaced
  refine .record (fun hsmall => (words_of_place hds hsmall hplaced).1) ?_ hds
  rw [toNat_of_lt (widest_lt ds), widest_of_describes hds]

theorem Shape.Takes.descriptor {s : Scope} (hs : s.Sane) {shape : Shape} {form : Form}
    (h : shape.Takes s.target.word.toNat form) (hsized : shape.Sized s) (name typeName : String) :
    Describes s.target.word.toNat (shape.descriptor name typeName) (name, form) := by
  refine ⟨(hsized.descriptor hs name typeName).valid, shape.name_descriptor name typeName, ?_, ?_,
    ?_⟩
  · have hbounded := hsized.bounded
    have hword := hs.word_le
    rw [align_descriptor, toInt_toInt64 (by omega), ← h.align_eq, Int.toNat_natCast]
  · intro hleaf hsmall
    rw [children_descriptor] at hleaf
    constructor
    · rw [Descriptor.bytes, size_descriptor hleaf, toInt_toInt64 (hsized.fits hleaf),
        Int.toNat_natCast, h.size_eq hsmall]
    · intro base
      cases h with
      | scalar _ _ hrows => exact hrows base
      | record _ _ hds =>
        obtain rfl := hleaf
        cases hds
        rw [Form.rows, Form.rowsOf]
  · intro hrecord hsmall base fs hbase hfs
    rw [children_descriptor] at hrecord hfs
    cases h with
    | scalar _ _ _ => exact absurd rfl hrecord
    | record _ _ hds =>
      rw [Form.align] at hbase
      exact rows_of_place hds hsmall hbase hfs

variable {s : Scope} {f : String → Except ResolveError Shape}

/-- Some numbers that are aligned to their width, up to a word. -/
theorem takes_numbers (word : UInt64) (count width : Nat) :
    Shape.Takes word.toNat (.scalar (.ofNat (count * width)) (.ofNat (min width word.toNat)))
      (.numbers count width) := by
  refine .scalar (fun hsmall => ?_) ?_ fun base => by rw [Form.rows]
  · rw [Form.size] at hsmall ⊢
    exact toNat_word hsmall
  · rw [Form.align]
    exact toNat_word ((Nat.min_le_right _ _).trans_lt word.toNat_lt)

theorem min_word (x y : UInt64) : min x y = .ofNat (min x.toNat y.toNat) := by
  by_cases hle : x ≤ y
  · rw [show min x y = x from if_pos hle, Nat.min_eq_left (UInt64.le_iff_toNat_le.1 hle),
      UInt64.ofNat_toNat]
  · have hlt := UInt64.lt_iff_toNat_lt.1 (UInt64.not_le.1 hle)
    rw [show min x y = y from if_neg hle, Nat.min_eq_right hlt.le, UInt64.ofNat_toNat]

theorem predeclared?_eq (t : Target) (name : String) :
    t.predeclared? name = (basic? t.word.toNat name).map fun (count, width) =>
      (.ofNat (count * width), .ofNat (min width t.word.toNat)) := by
  unfold Target.predeclared? Target.natural? basic?
  split <;> simp_all [min_word]

theorem predeclared_expands {name : String} (hfind : s.find? name = none) {shape : Shape}
    (h : s.predeclared name = .ok shape) :
    ∃ form, Expands s (.named name) form ∧ shape.Takes s.target.word.toNat form := by
  unfold Scope.predeclared at h
  rw [predeclared?_eq] at h
  rcases hbasic : basic? s.target.word.toNat name with _ | ⟨count, width⟩ <;>
    simp only [hbasic, Option.map_none, Option.map_some] at h
  · cases h
  · obtain rfl := Except.ok.inj h
    exact ⟨_, .basic hfind hbasic, takes_numbers s.target.word count width⟩

theorem words_expands {t : TypeExpr} {count : UInt64} (hwords : t.words? = some count.toNat) :
    ∃ form, Expands s t form ∧
      Shape.Takes s.target.word.toNat (.scalar (count * s.target.word) s.target.word) form := by
  have h := takes_numbers s.target.word count.toNat s.target.word.toNat
  rw [Nat.min_self, UInt64.ofNat_mul, UInt64.ofNat_toNat, UInt64.ofNat_toNat] at h
  exact ⟨_, .reference hwords, h⟩

theorem pointer_expands {t : TypeExpr} (hwords : t.words? = some 1) :
    ∃ form, Expands s t form ∧ s.pointer.Takes s.target.word.toNat form := by
  have h := @words_expands s t 1 hwords
  rwa [UInt64.one_mul] at h

/-- An array takes up as many times the size of an item. -/
theorem takes_array {inner : Shape} {form : Form} {length : Nat} (h : inner.Takes word form)
    (hfits : length * inner.size.toNat < 0x8000000000000000) :
    Shape.Takes word (.scalar (.ofNat (length * inner.size.toNat)) inner.align)
      (.array length form) := by
  refine .scalar (fun hsmall => ?_) ?_ fun base => by rw [Form.rows]
  · rw [toNat_of_lt hfits]
    rw [Form.size] at hsmall ⊢
    rcases Nat.eq_zero_or_pos length with rfl | hpos
    · rw [Nat.zero_mul, Nat.zero_mul]
    · have hle := Nat.le_mul_of_pos_left (form.size ⟨word, true⟩) hpos
      rw [h.size_eq (hle.trans_lt hsmall)]
  · rw [Form.align, h.align_eq]

mutual

/-- A type with a shape is of the form of the shape, if the names in it are. -/
theorem shapeOf_expands (hs : s.Sane) (hrule : s.rule = .natural)
    (hsizes : ∀ name, Sizes s (f name))
    (hf : ∀ name shape, f name = .ok shape →
      ∃ form, Expands s (.named name) form ∧ shape.Takes s.target.word.toNat form) :
    ∀ {t : TypeExpr} {shape : Shape}, s.shapeOf f t = .ok shape →
      ∃ form, Expands s t form ∧ shape.Takes s.target.word.toNat form
  | .named name, shape, h => hf name shape h
  | .qualified package name, shape, h => by
    simp only [Scope.shapeOf, Scope.shapeWith] at h
    split_ifs at h with hunsafe
    obtain rfl := Except.ok.inj h
    exact pointer_expands (by rw [TypeExpr.words?, if_pos hunsafe])
  | .instantiated _, _, h => nomatch h
  | .pointer _, _, h => by
    obtain rfl := Except.ok.inj h
    exact pointer_expands rfl
  | .map _ _, _, h => by
    obtain rfl := Except.ok.inj h
    exact pointer_expands rfl
  | .chan _ _, _, h => by
    obtain rfl := Except.ok.inj h
    exact pointer_expands rfl
  | .func _, _, h => by
    obtain rfl := Except.ok.inj h
    exact pointer_expands rfl
  | .slice _, _, h => by
    obtain rfl := Except.ok.inj h
    exact words_expands rfl
  | .interface _, _, h => by
    obtain rfl := Except.ok.inj h
    exact words_expands rfl
  | .array length elem, shape, h => by
    rw [Scope.shapeOf_array, bind_eq_ok] at h
    obtain ⟨inner, hinner, h⟩ := h
    obtain ⟨form, hform, htakes⟩ := shapeOf_expands hs hrule hsizes hf hinner
    split_ifs at h with hfits
    obtain rfl := Except.ok.inj h
    exact ⟨.array length form, hform.array, takes_array htakes hfits⟩
  | .symbolicArray _ _, _, h => nomatch h
  | .struct fields, shape, h => by
    rw [Scope.shapeOf_struct, bind_eq_ok] at h
    obtain ⟨ds, hds, h⟩ := h
    obtain ⟨forms, hforms, hdescribes⟩ := descriptorsOf_expands hs hrule hsizes hf hds
    exact ⟨.struct forms, hforms, takes_record hrule hdescribes h⟩

theorem descriptorsOf_expands (hs : s.Sane) (hrule : s.rule = .natural)
    (hsizes : ∀ name, Sizes s (f name))
    (hf : ∀ name shape, f name = .ok shape →
      ∃ form, Expands s (.named name) form ∧ shape.Takes s.target.word.toNat form) :
    ∀ {fields : List (FieldDecl TypeExpr)} {ds : List Descriptor},
      s.descriptorsOf f fields = .ok ds → ∃ forms, Expands s (.struct fields) (.struct forms) ∧
        List.Forall₂ (Describes s.target.word.toNat) ds forms
  | [], ds, h => by
    obtain rfl := Except.ok.inj h
    exact ⟨[], .nil, .nil⟩
  | ⟨name, type, embedded⟩ :: fields, ds, h => by
    obtain ⟨shape, rest, hshape, hrest, rfl⟩ := Scope.descriptorsOf_cons_eq_ok.1 h
    obtain ⟨form, hform, htakes⟩ := shapeOf_expands hs hrule hsizes hf hshape
    obtain ⟨forms, hforms, hdescribes⟩ := descriptorsOf_expands hs hrule hsizes hf hrest
    have hsized := (shapeOf_sizes hs hsizes type).ok shape hshape
    exact ⟨(name, form) :: forms, .cons hform hforms,
      .cons (htakes.descriptor hs hsized name type.text) hdescribes⟩

end

theorem fresh_expands (hs : s.Sane) (hrule : s.rule = .natural) {left : Nat}
    {visiting : List String} {name : String} {shape : Shape}
    (h : s.fresh left visiting name = .ok shape) :
    ∃ form, Expands s (.named name) form ∧ shape.Takes s.target.word.toNat form := by
  refine Scope.fresh_induction
    (P := fun name shape => ∃ form, Expands s (.named name) form ∧
      shape.Takes s.target.word.toNat form)
    (fun name shape hfind hshape => predeclared_expands hfind hshape) ?_ h
  intro left visiting name decl shape hfind hgeneric ih hshape
  obtain ⟨form, hform, htakes⟩ := shapeOf_expands hs hrule (fresh_sizes hs left visiting) ih hshape
  exact ⟨form, .declared hfind hgeneric hform, htakes⟩

/-! ## Files -/

/-- A struct has the size and the fields that a compiler gives a form. -/
def Compiled (c : Compiler) (form : Form) (l : Layout) : Prop :=
  l.size.toNat = form.size c ∧ views l.fields = form.rows c 0

/-- Under the natural rule, the structs of a file are laid out by the rule of a compiler that adds
the byte behind a last field of no size to every struct, if the size by this rule is below 2^64.
This is the layout of the compiler that adds none to a struct in which no field has a size, if there
is no such struct in them. -/
theorem compiled_of_extract {target : Target} (hword : target.word = 4 ∨ target.word = 8)
    {path : String} {source : List UInt8} {layouts : List Layout}
    (h : (extract target .natural path source).value = .ok layouts) :
    ∃ decls, (sourceChars source >>= declarations) = .ok decls ∧ ∀ l ∈ layouts, ∃ forms,
      (∀ form, Expands ⟨target, .natural, decls⟩ (.named l.name) form ↔ form = .struct forms) ∧
      ((Form.struct forms).size ⟨target.word.toNat, true⟩ < UInt64.size →
        Compiled ⟨target.word.toNat, true⟩ (.struct forms) l ∧
        ((Form.struct forms).Filled target.word.toNat →
          Compiled (.gc target.word.toNat) (.struct forms) l)) := by
  obtain ⟨decls, hdecls, -, hls⟩ := extract_eq_ok_iff.1 h
  refine ⟨decls, hdecls, fun l hl => ?_⟩
  obtain ⟨d, -, -, hname, -, fields, size, align, hshape, hplace⟩ :=
    (laid_of_layoutsFrom hls).shape_of_mem .nil l hl
  have hs : Scope.Sane ⟨target, .natural, decls⟩ := ⟨hword, trivial⟩
  obtain ⟨form, hform, htakes⟩ := fresh_expands hs rfl hshape
  rcases htakes with _ | @⟨_, forms, _, _, -, -, hds⟩
  rw [← hname] at hform
  refine ⟨forms, fun other => ⟨fun hother => hother.unique hform, ?_⟩, fun hsmall => ?_⟩
  · rintro rfl
    exact hform
  · obtain ⟨hsize, hrows⟩ := words_of_place hds hsmall hplace
    refine ⟨⟨hsize, hrows⟩, fun hfilled => ?_⟩
    obtain ⟨hsize', hrows'⟩ := Form.rows_always hfilled
    exact ⟨hsize.trans hsize', hrows.trans (hrows' 0)⟩

/-- A struct that ends with an array of no items, and one that contains it twice. -/
def ending : List UInt8 :=
  Text.Utf8.encode "type P struct\x7bn int64;e [0]int32\x7d\ntype Q struct\x7bp P;ps [1]P\x7d"

def endingDecls : List TypeDecl :=
  [⟨"P", .struct [⟨"n", .named "int64", false⟩, ⟨"e", .array 0 (.named "int32"), false⟩], false,
      ⟨1, 1⟩⟩,
    ⟨"Q", .struct [⟨"p", .named "P", false⟩, ⟨"ps", .array 1 (.named "P"), false⟩], false, ⟨2, 2⟩⟩]

def endingForm : Form :=
  .struct [("n", .numbers 1 8), ("e", .array 0 (.numbers 1 4))]

theorem compiled_of_extract_ending : (sourceChars ending >>= declarations) = .ok endingDecls ∧
    ∃ layouts, (extract ⟨4⟩ .natural "p.go" ending).value = .ok layouts ∧
    layouts.map (fun l => (l.name, l.size)) = [("P", 12), ("Q", 24)] ∧
    Expands ⟨⟨4⟩, .natural, endingDecls⟩ (.named "Q")
      (.struct [("p", endingForm), ("ps", .array 1 endingForm)]) ∧
    ∀ l ∈ layouts, l.name = "Q" →
      Compiled ⟨4, true⟩ (.struct [("p", endingForm), ("ps", .array 1 endingForm)]) l ∧
      Compiled (.gc 4) (.struct [("p", endingForm), ("ps", .array 1 endingForm)]) l := by
  have hdecls : (sourceChars ending >>= declarations) = .ok endingDecls := by
    have hcs : Text.Utf8.decode ending =
        .ok "type P struct\x7bn int64;e [0]int32\x7d\ntype Q struct\x7bp P;ps [1]P\x7d".toList := by
      decide +kernel
    have hts : tokens
        "type P struct\x7bn int64;e [0]int32\x7d\ntype Q struct\x7bp P;ps [1]P\x7d".toList = .ok
        [⟨.ident "type", 1, 0, 4⟩, ⟨.ident "P", 1, 5, 6⟩, ⟨.ident "struct", 1, 7, 13⟩,
          ⟨.punct '\x7b', 1, 13, 14⟩, ⟨.ident "n", 1, 14, 15⟩, ⟨.ident "int64", 1, 16, 21⟩,
          ⟨.punct ';', 1, 21, 22⟩, ⟨.ident "e", 1, 22, 23⟩, ⟨.punct '[', 1, 24, 25⟩,
          ⟨.number (some 0), 1, 25, 26⟩, ⟨.punct ']', 1, 26, 27⟩, ⟨.ident "int32", 1, 27, 32⟩,
          ⟨.punct '\x7d', 1, 32, 33⟩, ⟨.newline, 1, 33, 34⟩, ⟨.ident "type", 2, 34, 38⟩,
          ⟨.ident "Q", 2, 39, 40⟩, ⟨.ident "struct", 2, 41, 47⟩, ⟨.punct '\x7b', 2, 47, 48⟩,
          ⟨.ident "p", 2, 48, 49⟩, ⟨.ident "P", 2, 50, 51⟩, ⟨.punct ';', 2, 51, 52⟩,
          ⟨.ident "ps", 2, 52, 54⟩, ⟨.punct '[', 2, 55, 56⟩, ⟨.number (some 1), 2, 56, 57⟩,
          ⟨.punct ']', 2, 57, 58⟩, ⟨.ident "P", 2, 58, 59⟩, ⟨.punct '\x7d', 2, 59, 60⟩] := by
      decide +kernel
    exact declarations_of_tokens hcs hts rfl
  have hsizes : ((extract ⟨4⟩ .natural "p.go" ending).value.toOption.map fun ls =>
      ls.map fun l => (l.name, l.size)) = some [("P", 12), ("Q", 24)] := by decide +kernel
  rcases hls : (extract ⟨4⟩ .natural "p.go" ending).value with e | layouts <;> rw [hls] at hsizes
  · cases hsizes
  obtain ⟨decls, hfound, hall⟩ := compiled_of_extract (.inl rfl) hls
  obtain rfl := Except.ok.inj (hdecls.symm.trans hfound)
  have hinner : Expands ⟨⟨4⟩, .natural, endingDecls⟩ (.named "P") endingForm :=
    .declared rfl rfl (.cons (.basic rfl rfl) (.cons (.array (.basic rfl rfl)) .nil))
  have hform : Expands ⟨⟨4⟩, .natural, endingDecls⟩ (.named "Q")
      (.struct [("p", endingForm), ("ps", .array 1 endingForm)]) :=
    .declared rfl rfl (.cons hinner (.cons (.array hinner) .nil))
  refine ⟨hdecls, layouts, rfl, Option.some.inj hsizes, hform, fun l hl hname => ?_⟩
  obtain ⟨forms, honly, hcompiled⟩ := hall l hl
  rw [hname] at honly
  rw [← (honly _).1 hform] at hcompiled
  obtain ⟨hwords, hfilled⟩ := hcompiled (by decide)
  refine ⟨hwords, hfilled ?_⟩
  simp only [Form.Filled, Form.FilledAll, endingForm]
  decide

/-- A struct with a field of no size and no other. -/
def hollow : List UInt8 :=
  Text.Utf8.encode "type S struct \x7b a struct\x7b\x7d \x7d"

theorem hollow_not_compiled : ∃ decls l, (sourceChars hollow >>= declarations) = .ok decls ∧
    (extract ⟨8⟩ .natural "p.go" hollow).value = .ok [l] ∧
    (∃ form, Expands ⟨⟨8⟩, .natural, decls⟩ (.named l.name) form) ∧
    ∀ form, Expands ⟨⟨8⟩, .natural, decls⟩ (.named l.name) form →
      l.size = 1 ∧ form.size (.gc 8) = 0 ∧ ¬ Compiled (.gc 8) form l := by
  have hdecls : (sourceChars hollow >>= declarations) = .ok
      [⟨"S", .struct [⟨"a", .struct [], false⟩], false, ⟨1, 1⟩⟩] := by
    have hcs : Text.Utf8.decode hollow =
        .ok "type S struct \x7b a struct\x7b\x7d \x7d".toList := by decide +kernel
    have hts : tokens "type S struct \x7b a struct\x7b\x7d \x7d".toList = .ok
        [⟨.ident "type", 1, 0, 4⟩, ⟨.ident "S", 1, 5, 6⟩, ⟨.ident "struct", 1, 7, 13⟩,
          ⟨.punct '\x7b', 1, 14, 15⟩, ⟨.ident "a", 1, 16, 17⟩, ⟨.ident "struct", 1, 18, 24⟩,
          ⟨.punct '\x7b', 1, 24, 25⟩, ⟨.punct '\x7d', 1, 25, 26⟩,
          ⟨.punct '\x7d', 1, 27, 28⟩] := by decide +kernel
    exact declarations_of_tokens hcs hts rfl
  have hls : (extract ⟨8⟩ .natural "p.go" hollow).value.toOption =
      some [⟨"S", ⟨1, 1⟩, [.leaf "a" "struct\x7b\x7d" 0 1 0 ⟨0⟩]⟩] := by decide +kernel
  have hform : Expands ⟨⟨8⟩, .natural, [⟨"S", .struct [⟨"a", .struct [], false⟩], false, ⟨1, 1⟩⟩]⟩
      (.named "S") (.struct [("a", .struct [])]) := .declared rfl rfl (.cons .nil .nil)
  have hsize : (Form.struct [("a", .struct [])]).size (.gc 8) = 0 := rfl
  rcases hvalue : (extract ⟨8⟩ .natural "p.go" hollow).value with e | ls <;> rw [hvalue] at hls
  · cases hls
  · obtain rfl := Option.some.inj hls
    refine ⟨_, _, hdecls, rfl, ⟨_, hform⟩, fun form hother => ?_⟩
    obtain rfl := hother.unique hform
    refine ⟨rfl, hsize, fun hcompiled => ?_⟩
    cases hcompiled.1.trans hsize

end Go

end StructPadding
