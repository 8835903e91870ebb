import StructPadding.Placement
import StructPadding.Proofs.Rounding

/-!
# Placed fields

What a successful placement does, as a relation (`Placed`): each field goes to the next multiple of
its alignment, behind the gap this leaves, and the fields of a record are placed from where the
record starts and then rounded up. `placeSiblings_eq_ok` says that this is what the placement
computes, whatever offsets are counted in, so everything about placed fields can be proved along the
relation. Placement succeeds whenever every descriptor, at every depth, is valid and the rule is
sound (`place_succeeds`).
-/

namespace StructPadding

theorem bind_eq_ok {ε α β : Type} {x : Except ε α} {f : α → Except ε β} {b : β} :
    (x >>= f) = .ok b ↔ ∃ a, x = .ok a ∧ f a = .ok b := by
  rcases x with e | a
  · simp [bind, Except.bind]
  · simp [bind, Except.bind]

theorem bind_eq_error {ε α β : Type} {x : Except ε α} {f : α → Except ε β} {e : ε} :
    (x >>= f) = .error e ↔ x = .error e ∨ ∃ a, x = .ok a ∧ f a = .error e := by
  cases x <;> simp [bind, Except.bind]

theorem eq_ok_of_toOption {ε α : Type} {x : Except ε α} {a : α} (h : x.toOption = some a) :
    x = .ok a := by
  cases x with
  | error => cases h
  | ok => rw [Option.some.inj h]

theorem eq_ok_getD {ε α : Type} {x : Except ε (List α)} (h : x.toOption.isSome) :
    x = .ok (x.toOption.getD []) := by
  cases x with
  | error => cases h
  | ok => rfl

/-! ## Valid descriptors -/

namespace Descriptor

/-- The bytes a leaf asks for. -/
def bytes (d : Descriptor) : Nat :=
  d.size.toInt.toNat

/-- A size that is not negative and a power-of-two alignment. -/
structure Valid (d : Descriptor) : Prop where
  size : 0 ≤ d.size.toInt
  align : ∃ e : Nat, d.align.toInt = (Nat.pow 2 e : Nat)

theorem check_eq_ok {d : Descriptor} {a : Alignment} :
    d.check = .ok a ↔ 0 ≤ d.size.toInt ∧ d.align.toInt = a.bytes := by
  have hpos := a.bytes_pos
  unfold check
  split_ifs with hsize halign
  · simp only [false_iff]
    omega
  · simp only [false_iff]
    omega
  · have hbytes : d.align.toInt = a.bytes ↔ a.bytes = d.align.toInt.toNat := by omega
    rw [hbytes, ← Alignment.ofBytes?_eq_some_iff]
    cases Alignment.ofBytes? d.align.toInt.toNat with
    | none => simp
    | some b => simp [Int.not_lt.1 hsize]

theorem align_of_check {d : Descriptor} {a : Alignment} (h : d.check = .ok a) :
    d.align.toInt.toNat = a.bytes := by
  rw [(check_eq_ok.1 h).2, Int.toNat_natCast]

theorem valid_iff {d : Descriptor} : d.Valid ↔ ∃ a, d.check = .ok a := by
  constructor
  · rintro ⟨hsize, e, he⟩
    have hlt := d.align.toInt_lt
    obtain ⟨a, ha⟩ := Alignment.exists_bytes_eq (e := e) (by unfold UInt64.size; omega)
    exact ⟨a, check_eq_ok.2 ⟨hsize, ha ▸ he⟩⟩
  · rintro ⟨a, ha⟩
    obtain ⟨hsize, halign⟩ := check_eq_ok.1 ha
    exact ⟨hsize, a.exponent, halign⟩

/-- A leaf of no size. -/
def Void (d : Descriptor) : Prop :=
  d.children.isEmpty ∧ d.bytes = 0

instance (d : Descriptor) : Decidable d.Void :=
  inferInstanceAs (Decidable (_ ∧ _))

/-- The byte that a leaf of no size gets at the end of a record. -/
def widening : List Descriptor → Nat
  | [] => 0
  | [d] => if d.Void then 1 else 0
  | _ :: d :: ds => widening (d :: ds)

theorem widening_le_one : ∀ ds : List Descriptor, widening ds ≤ 1
  | [] => Nat.zero_le 1
  | [d] => by
    unfold widening
    split_ifs <;> omega
  | _ :: d :: ds => widening_le_one (d :: ds)

end Descriptor

/-- Something that holds of every descriptor at every depth. -/
inductive Everywhere (P : Descriptor → Prop) : List Descriptor → Prop
  | nil : Everywhere P []
  | cons {d : Descriptor} {ds : List Descriptor} (head : P d) (nested : Everywhere P d.children)
    (tail : Everywhere P ds) : Everywhere P (d :: ds)

namespace Everywhere

variable {P Q : Descriptor → Prop}

theorem imp {ds : List Descriptor} (h : ∀ d, P d → Q d) (hds : Everywhere P ds) :
    Everywhere Q ds := by
  induction hds with
  | nil => exact nil
  | cons head _ _ ihNested ihTail => exact cons (h _ head) ihNested ihTail

theorem and {ds : List Descriptor} (hP : Everywhere P ds) :
    Everywhere Q ds → Everywhere (fun d => P d ∧ Q d) ds := by
  induction hP with
  | nil => exact fun _ => .nil
  | cons head _ _ ihNested ihTail =>
    rintro (_ | ⟨head', nested', tail'⟩)
    exact .cons ⟨head, head'⟩ (ihNested nested') (ihTail tail')

theorem mem {ds : List Descriptor} (hds : Everywhere P ds) :
    ∀ d ∈ ds, P d ∧ Everywhere P d.children := by
  induction hds with
  | nil => simp
  | cons head nested _ _ ih =>
    intro d hd
    rcases List.mem_cons.1 hd with rfl | hd
    · exact ⟨head, nested⟩
    · exact ih d hd

end Everywhere

/-! ## Record rules -/

namespace RecordRule

/-- A rule that gives every record a power-of-two alignment. -/
def Sound : RecordRule → Prop
  | fixed n => ∃ a : Alignment, a.bytes = n.toNat
  | natural => True

theorem demand_eq_ok {n : Nat} {a : Alignment} : demand n = .ok a ↔ a.bytes = n := by
  rw [← Alignment.ofBytes?_eq_some_iff, demand]
  cases Alignment.ofBytes? n <;> simp

theorem align_le_widest : ∀ {ds : List Descriptor} {d : Descriptor}, d ∈ ds →
    d.align.toInt.toNat ≤ widest ds
  | e :: ds, d, h => by
    simp only [widest]
    rcases List.mem_cons.1 h with rfl | h
    · exact Nat.le_max_left _ _
    · exact (align_le_widest h).trans (Nat.le_max_right _ _)

/-- The largest of valid alignments is an alignment. -/
theorem exists_widest : ∀ {ds : List Descriptor}, (∀ d ∈ ds, d.Valid) →
    ∃ a : Alignment, a.bytes = widest ds
  | [], _ => ⟨⟨0⟩, rfl⟩
  | d :: ds, h => by
    obtain ⟨a, ha⟩ := exists_widest fun e he => h e (List.mem_cons_of_mem _ he)
    obtain ⟨b, hb⟩ := Descriptor.valid_iff.1 (h d List.mem_cons_self)
    have hbytes := (Descriptor.check_eq_ok.1 hb).2
    simp only [widest, hbytes, Int.toNat_natCast, ← ha]
    rcases Nat.le_total a.bytes b.bytes with hle | hle
    · exact ⟨b, by rw [Nat.max_eq_left hle]⟩
    · exact ⟨a, by rw [Nat.max_eq_right hle]⟩

theorem alignment_succeeds {rule : RecordRule} (hr : rule.Sound) {ds : List Descriptor}
    (hds : ∀ d ∈ ds, d.Valid) : ∃ a, rule.alignment ds = .ok a := by
  rcases rule with n | _
  · obtain ⟨a, ha⟩ := hr
    exact ⟨a, demand_eq_ok.2 ha⟩
  · obtain ⟨a, ha⟩ := exists_widest hds
    exact ⟨a, demand_eq_ok.2 ha⟩

theorem sound_of_alignment {rule : RecordRule} {ds : List Descriptor} {a : Alignment}
    (h : rule.alignment ds = .ok a) : rule.Sound := by
  rcases rule with n | _
  · exact ⟨a, demand_eq_ok.1 h⟩
  · trivial

end RecordRule

variable {ω : Type} [Measure ω]

open StructPadding.Measure (advance distance)

/-! ## Lists of fields -/

@[simp]
theorem endOf_append_singleton (base : ω) (fs : List (Field ω)) (f : Field ω) :
    endOf base (fs ++ [f]) = f.stop := by
  simp [endOf]

theorem endOf_append_cons (base : ω) (fs gs : List (Field ω)) (f : Field ω) :
    endOf base (fs ++ f :: gs) = endOf f.stop gs := by
  rcases List.eq_nil_or_concat gs with rfl | ⟨gs, g, rfl⟩
  · simp [endOf]
  · rw [List.concat_eq_append, endOf_append_singleton, ← List.cons_append, ← List.append_assoc,
      endOf_append_singleton]

theorem widenLast_append_cons : ∀ (fs gs : List (Field ω)) (f : Field ω),
    widenLast (fs ++ f :: gs) = fs ++ widenLast (f :: gs)
  | [], gs, f => rfl
  | [e], gs, f => rfl
  | e :: e' :: fs, gs, f => by
    rw [List.cons_append, List.cons_append, widenLast, ← List.cons_append,
      widenLast_append_cons (e' :: fs) gs f]
    · rfl
    · simp

theorem widenLast_cons {f : Field ω} {fs : List (Field ω)} (h : fs ≠ []) :
    widenLast (f :: fs) = f :: widenLast fs := by
  rw [widenLast]
  exact h

/-! ## The relation -/

/-- The fields that descriptors have when they are placed one after another from an offset on. -/
inductive Placed (rule : RecordRule) : ω → List Descriptor → List (Field ω) → Prop
  | nil (offset : ω) : Placed rule offset [] []
  | leaf {offset : ω} {d : Descriptor} {ds : List Descriptor} {a : Alignment}
    {fs : List (Field ω)} (hleaf : d.children = []) (hcheck : d.check = .ok a)
    (tail : Placed rule (advance a offset + Measure.ofNat d.bytes) ds fs) :
    Placed rule offset (d :: ds) (gap offset (distance offset (advance a offset)) ++
      .leaf d.name d.typeName (advance a offset) (Measure.ofNat d.bytes) (Measure.ofNat d.bytes)
        a :: fs)
  | record {offset : ω} {d : Descriptor} {ds : List Descriptor} {a : Alignment}
    {inner closed fs : List (Field ω)} (hrecord : d.children ≠ []) (hcheck : d.check = .ok a)
    (nested : Placed rule (advance a offset) d.children inner)
    (hclose : closeRecord rule d.children (advance a offset) inner = .ok closed)
    (tail : Placed rule (advance a offset + Field.totalSize closed) ds fs) :
    Placed rule offset (d :: ds) (gap offset (distance offset (advance a offset)) ++
      .record d.name d.typeName (advance a offset) a false closed :: fs)

mutual

theorem placed_of_placeField {rule : RecordRule} : ∀ (d : Descriptor) {offset : ω}
    {fs rest : List (Field ω)} {ds : List Descriptor}, placeField rule offset d = .ok fs →
    Placed rule (endOf offset fs) ds rest → Placed rule offset (d :: ds) (fs ++ rest)
  | .leaf name typeName size align, offset, fs, rest, ds, h, hrest => by
    rw [placeField, bind_eq_ok] at h
    obtain ⟨a, hcheck, h⟩ := h
    obtain rfl := Except.ok.inj h
    rw [endOf_append_singleton] at hrest
    rw [List.append_assoc]
    exact .leaf rfl hcheck hrest
  | .record name typeName size align children, offset, fs, rest, ds, h, hrest => by
    rw [placeField, bind_eq_ok] at h
    obtain ⟨a, hcheck, h⟩ := h
    simp only [] at h
    split_ifs at h with hempty
    · obtain rfl := Except.ok.inj h
      rw [endOf_append_singleton] at hrest
      rw [List.append_assoc]
      exact .leaf (List.isEmpty_iff.1 hempty) hcheck hrest
    · rw [bind_eq_ok] at h
      obtain ⟨inner, hinner, h⟩ := h
      rw [bind_eq_ok] at h
      obtain ⟨closed, hclose, h⟩ := h
      obtain rfl := Except.ok.inj h
      rw [endOf_append_singleton] at hrest
      rw [List.append_assoc]
      exact .record (fun hnil => hempty (List.isEmpty_iff.2 hnil)) hcheck
        (placed_of_placeSiblings children hinner) hclose hrest

theorem placed_of_placeSiblings {rule : RecordRule} : ∀ (ds : List Descriptor) {offset : ω}
    {fs : List (Field ω)}, placeSiblings rule offset ds = .ok fs → Placed rule offset ds fs
  | [], offset, fs, h => by
    obtain rfl := Except.ok.inj h
    exact .nil offset
  | d :: ds, offset, fs, h => by
    rw [placeSiblings, bind_eq_ok] at h
    obtain ⟨placed, hplaced, h⟩ := h
    rw [bind_eq_ok] at h
    obtain ⟨rest, hrest, h⟩ := h
    obtain rfl := Except.ok.inj h
    exact placed_of_placeField d hplaced (placed_of_placeSiblings ds hrest)

end

theorem placeField_leaf {rule : RecordRule} {offset : ω} {d : Descriptor} {a : Alignment}
    (hleaf : d.children = []) (hcheck : d.check = .ok a) :
    placeField rule offset d = .ok (gap offset (distance offset (advance a offset)) ++
      [.leaf d.name d.typeName (advance a offset) (Measure.ofNat d.bytes) (Measure.ofNat d.bytes)
        a]) := by
  rcases d with _ | ⟨name, typeName, size, align, children⟩
  · rw [placeField, hcheck]
    rfl
  · obtain rfl : children = [] := hleaf
    rw [placeField, hcheck]
    rfl

theorem placeField_record {rule : RecordRule} {offset : ω} {d : Descriptor} {a : Alignment}
    {inner closed : List (Field ω)} (hrecord : d.children ≠ []) (hcheck : d.check = .ok a)
    (hinner : placeSiblings rule (advance a offset) d.children = .ok inner)
    (hclose : closeRecord rule d.children (advance a offset) inner = .ok closed) :
    placeField rule offset d = .ok (gap offset (distance offset (advance a offset)) ++
      [.record d.name d.typeName (advance a offset) a false closed]) := by
  rcases d with _ | ⟨name, typeName, size, align, children⟩
  · exact absurd rfl hrecord
  · have hempty : ¬children.isEmpty := fun h => hrecord (List.isEmpty_iff.1 h)
    simp only [Descriptor.children] at hinner hclose
    rw [placeField, hcheck]
    simp only [bind, Except.bind, hempty, hinner, hclose]
    rfl

theorem placeSiblings_cons {rule : RecordRule} {offset : ω} {d : Descriptor}
    {ds : List Descriptor} {f : Field ω} {before fs : List (Field ω)}
    (hd : placeField rule offset d = .ok (before ++ [f]))
    (hds : placeSiblings rule f.stop ds = .ok fs) :
    placeSiblings rule offset (d :: ds) = .ok (before ++ f :: fs) := by
  rw [placeSiblings, hd]
  simp only [bind, Except.bind, endOf_append_singleton, hds]
  rw [List.append_assoc]
  rfl

/-- Placement computes the relation. -/
theorem placeSiblings_eq_ok {rule : RecordRule} {offset : ω} {ds : List Descriptor}
    {fs : List (Field ω)} : placeSiblings rule offset ds = .ok fs ↔ Placed rule offset ds fs := by
  constructor
  · exact placed_of_placeSiblings ds
  · intro h
    induction h with
    | nil => rfl
    | leaf hleaf hcheck _ ih => exact placeSiblings_cons (placeField_leaf hleaf hcheck) ih
    | record hrecord hcheck _ hclose _ ihNested ihTail =>
      exact placeSiblings_cons (placeField_record hrecord hcheck ihNested hclose) ihTail

theorem place_eq_ok {rule : RecordRule} {ds : List Descriptor} {base : ω} {fs : List (Field ω)} :
    place rule ds base = .ok fs ↔
      ∃ inner, Placed rule base ds inner ∧ closeRecord rule ds base inner = .ok fs := by
  rw [place, bind_eq_ok]
  simp only [placeSiblings_eq_ok]

/-! ## Closing a record -/

theorem closeRecord_nil (rule : RecordRule) (ds : List Descriptor) (base : ω) :
    closeRecord rule ds base [] = .ok [] :=
  rfl

/-- The padding at the end of a record whose fields end at an offset. -/
def trailing (a : Alignment) (base stop : ω) : List (Field ω) :=
  gap stop (distance (distance base stop) (Measure.roundUp a (distance base stop)))

theorem closeRecord_eq_ok {rule : RecordRule} {ds : List Descriptor} {base : ω}
    {inner fs : List (Field ω)} (hne : inner ≠ []) :
    closeRecord rule ds base inner = .ok fs ↔ ∃ a, rule.alignment ds = .ok a ∧
      fs = widenLast inner ++ trailing a base (endOf base (widenLast inner)) := by
  have hempty : ¬inner.isEmpty := fun h => hne (List.isEmpty_iff.1 h)
  unfold closeRecord
  rw [if_neg hempty]
  simp only [bind_eq_ok, pure, Except.pure, Except.ok.injEq]
  constructor
  · rintro ⟨a, ha, rfl⟩
    exact ⟨a, ha, rfl⟩
  · rintro ⟨a, ha, rfl⟩
    exact ⟨a, ha, rfl⟩

/-- What widening the last field keeps, and a gap at the end, holds of the closed record. -/
theorem closeRecord_preserves (P : List (Field ω) → Prop) {rule : RecordRule}
    {ds : List Descriptor} {base : ω} {fs closed : List (Field ω)}
    (hwiden : ∀ {fs}, P fs → P (widenLast fs))
    (hgap : ∀ {fs} (x y : ω), P fs → P (fs ++ gap x y)) (h : P fs)
    (hclose : closeRecord rule ds base fs = .ok closed) : P closed := by
  by_cases hne : fs = []
  · subst hne
    obtain rfl := Except.ok.inj hclose
    exact h
  · obtain ⟨a, -, rfl⟩ := (closeRecord_eq_ok hne).1 hclose
    exact hgap _ _ (hwiden h)

theorem Placed.eq_nil_iff {rule : RecordRule} {offset : ω} {ds : List Descriptor}
    {fs : List (Field ω)} (h : Placed rule offset ds fs) : fs = [] ↔ ds = [] := by
  cases h <;> simp

/-! ## Success -/

theorem closeRecord_succeeds {rule : RecordRule} (hr : rule.Sound) {ds : List Descriptor}
    (hds : ∀ d ∈ ds, d.Valid) (base : ω) (inner : List (Field ω)) :
    ∃ fs, closeRecord rule ds base inner = .ok fs := by
  by_cases hne : inner = []
  · exact ⟨[], by rw [hne, closeRecord_nil]⟩
  · obtain ⟨a, ha⟩ := RecordRule.alignment_succeeds hr hds
    exact ⟨_, (closeRecord_eq_ok hne).2 ⟨a, ha, rfl⟩⟩

theorem exists_placed {rule : RecordRule} (hr : rule.Sound) {ds : List Descriptor}
    (hds : Everywhere Descriptor.Valid ds) : ∀ offset : ω, ∃ fs, Placed rule offset ds fs := by
  induction hds with
  | nil => exact fun offset => ⟨[], .nil offset⟩
  | @cons d ds head nested _ ihNested ihTail =>
    intro offset
    obtain ⟨a, ha⟩ := Descriptor.valid_iff.1 head
    by_cases hleaf : d.children = []
    · obtain ⟨fs, hfs⟩ := ihTail (advance a offset + Measure.ofNat d.bytes)
      exact ⟨_, .leaf hleaf ha hfs⟩
    · obtain ⟨inner, hinner⟩ := ihNested (advance a offset)
      obtain ⟨closed, hclose⟩ := closeRecord_succeeds hr (fun e he => (nested.mem e he).1)
        (advance a offset) inner
      obtain ⟨fs, hfs⟩ := ihTail (advance a offset + Field.totalSize closed)
      exact ⟨_, .record hleaf ha hinner hclose hfs⟩

theorem place_succeeds {rule : RecordRule} (hr : rule.Sound) {ds : List Descriptor}
    (hds : Everywhere Descriptor.Valid ds) (base : ω) : ∃ fs, place rule ds base = .ok fs := by
  obtain ⟨inner, hinner⟩ := exists_placed hr hds base
  obtain ⟨fs, hfs⟩ := closeRecord_succeeds hr (fun d hd => (hds.mem d hd).1) base inner
  exact ⟨fs, place_eq_ok.2 ⟨inner, hinner, hfs⟩⟩

theorem sound_of_place {rule : RecordRule} {ds : List Descriptor} {base : ω}
    {fs : List (Field ω)} (h : place rule ds base = .ok fs) (hne : ds ≠ []) : rule.Sound := by
  obtain ⟨inner, hinner, hclose⟩ := place_eq_ok.1 h
  obtain ⟨a, ha, -⟩ := (closeRecord_eq_ok fun hnil => hne (hinner.eq_nil_iff.1 hnil)).1 hclose
  exact RecordRule.sound_of_alignment ha

end StructPadding
