import StructPadding.Proofs.Extent

/-!
# Fields at any depth

A field lies among others or inside one of them (`Within`). Every record of a layout, at whatever
depth, is laid out like a declaration of its own, from where it starts (`stems_of_place`), and takes
up its fields, as long as nothing wraps around (`spans_of_place`).
-/

namespace StructPadding

variable {ω : Type}

namespace Field

def isRecord : Field ω → Bool
  | record .. => true
  | _ => false

/-- A field among others, or inside one of them. -/
inductive Within (f : Field ω) : List (Field ω) → Prop
  | here {fs : List (Field ω)} (h : f ∈ fs) : Within f fs
  | inside {g : Field ω} {fs : List (Field ω)} (hg : g ∈ fs) (h : Within f g.children) : Within f fs

variable {f g : Field ω} {fs gs : List (Field ω)}

theorem not_within_nil : ¬f.Within [] := by
  rintro (h | ⟨hg, -⟩)
  · cases h
  · cases hg

theorem within_cons : f.Within (g :: gs) ↔ f = g ∨ f.Within g.children ∨ f.Within gs := by
  constructor
  · rintro (h | ⟨hg, h⟩)
    · rcases List.mem_cons.1 h with rfl | h
      · exact .inl rfl
      · exact .inr (.inr (.here h))
    · rcases List.mem_cons.1 hg with rfl | hg
      · exact .inr (.inl h)
      · exact .inr (.inr (.inside hg h))
  · rintro (rfl | h | h | ⟨hg, h⟩)
    · exact .here List.mem_cons_self
    · exact .inside List.mem_cons_self h
    · exact .here (List.mem_cons_of_mem g h)
    · exact .inside (List.mem_cons_of_mem g hg) h

theorem within_append : f.Within (fs ++ gs) ↔ f.Within fs ∨ f.Within gs := by
  induction fs with
  | nil => simp [not_within_nil]
  | cons g fs ih => rw [List.cons_append, within_cons, within_cons, ih, or_assoc, or_assoc]

/-- A field at any depth stands among all fields or is one of the fields of another. -/
theorem Within.cases (h : f.Within fs) : f ∈ fs ∨ ∃ g : Field ω, g.Within fs ∧ f ∈ g.children := by
  induction h with
  | here h => exact .inl h
  | @inside g fs hg _ ih =>
    rcases ih with h | ⟨e, he, h⟩
    · exact .inr ⟨g, .here hg, h⟩
    · exact .inr ⟨e, .inside hg he, h⟩

theorem isRecord_of_mem_children (h : f ∈ g.children) : g.isRecord := by
  cases g with
  | record => rfl
  | _ => cases h

variable [Measure ω]

theorem not_within_gap (hf : f.isRecord) (start size : ω) : ¬f.Within (gap start size) := by
  unfold gap
  split_ifs
  · exact not_within_nil
  · rw [within_cons]
    rintro (rfl | h | h)
    · cases hf
    · exact not_within_nil h
    · exact not_within_nil h

@[simp]
theorem isRecord_widen (f : Field ω) : f.widen.isRecord = f.isRecord := by
  cases f <;> rfl

@[simp]
theorem children_widen (f : Field ω) : f.widen.children = f.children := by
  cases f <;> rfl

/-- A field among widened ones is one of those before, up to its size. -/
theorem within_of_widenLast : ∀ {fs : List (Field ω)}, f.Within (widenLast fs) →
    ∃ g, g.Within fs ∧ (f = g ∨ f = g.widen)
  | [], h => ⟨f, h, .inl rfl⟩
  | [g], h => by
    rcases within_cons.1 h with rfl | h | h
    · exact ⟨g, .here List.mem_cons_self, .inr rfl⟩
    · rw [children_widen] at h
      exact ⟨f, .inside List.mem_cons_self h, .inl rfl⟩
    · exact absurd h not_within_nil
  | g :: g' :: fs, h => by
    rw [widenLast_cons (List.cons_ne_nil g' fs), within_cons] at h
    rcases h with h | h | h
    · exact ⟨f, within_cons.2 (.inl h), .inl rfl⟩
    · exact ⟨f, within_cons.2 (.inr (.inl h)), .inl rfl⟩
    · obtain ⟨e, he, heq⟩ := within_of_widenLast h
      exact ⟨e, within_cons.2 (.inr (.inr he)), heq⟩

/-- Closing a record adds no record to it. -/
theorem within_of_closeRecord {rule : RecordRule} {ds : List Descriptor} {base : ω}
    (hf : f.isRecord) (h : closeRecord rule ds base fs = .ok gs) (hwithin : f.Within gs) :
    ∃ g, g.Within fs ∧ (f = g ∨ f = g.widen) := by
  by_cases hne : fs = []
  · subst hne
    obtain rfl := Except.ok.inj h
    exact ⟨f, hwithin, .inl rfl⟩
  · obtain ⟨a, -, rfl⟩ := (closeRecord_eq_ok hne).1 h
    rcases within_append.1 hwithin with hwithin | hwithin
    · exact within_of_widenLast hwithin
    · exact absurd hwithin (not_within_gap hf _ _)

end Field

open StructPadding.Measure (advance)
open StructPadding.Field (within_cons within_append not_within_gap not_within_nil
  within_of_closeRecord)

variable [Measure ω] {rule : RecordRule} {P : Descriptor → Prop} {ds : List Descriptor}
  {fs : List (Field ω)} {f : Field ω}

/-- A record field is a placed record descriptor. -/
structure Stems (rule : RecordRule) (P : Descriptor → Prop) (f : Field ω) (d : Descriptor) :
    Prop where
  holds : P d
  nested : Everywhere P d.children
  record : d.children ≠ []
  typeName : d.typeName = f.typeName
  boundary : ∃ a offset, d.check = .ok a ∧ f.start = advance a offset
  placed : place rule d.children f.start = .ok f.children

namespace Stems

theorem widen {d : Descriptor} (h : Stems rule P f d) : Stems rule P f.widen d := by
  rcases f with _ | _ | _ <;> exact ⟨h.holds, h.nested, h.record, h.typeName, h.boundary, h.placed⟩

theorem aligned {d : Descriptor} {f : Field Nat} (h : Stems rule P f d) :
    d.align.toInt.toNat ∣ f.start := by
  obtain ⟨a, offset, hcheck, hstart⟩ := h.boundary
  rw [Descriptor.align_of_check hcheck, hstart, Measure.advance_nat]
  exact a.dvd_roundUp offset

end Stems

theorem exists_stems_of_closeRecord {base : ω} {closed : List (Field ω)}
    (ih : ∀ {f : Field ω}, f.isRecord → f.Within fs → ∃ d, Stems rule P f d)
    (hclose : closeRecord rule ds base fs = .ok closed) (hf : f.isRecord)
    (hwithin : f.Within closed) : ∃ d, Stems rule P f d := by
  obtain ⟨g, hg, rfl | rfl⟩ := within_of_closeRecord hf hclose hwithin
  · exact ih hf hg
  · obtain ⟨d, hd⟩ := ih (by simpa using hf) hg
    exact ⟨d, hd.widen⟩

/-- Every record at any depth is a placed record descriptor. -/
theorem Placed.stems {offset : ω} (h : Placed rule offset ds fs) (hds : Everywhere P ds)
    (hf : f.isRecord) (hwithin : f.Within fs) : ∃ d, Stems rule P f d := by
  induction h generalizing f with
  | nil => exact absurd hwithin not_within_nil
  | @leaf offset d ds a fs hleaf hcheck _ ih =>
    rcases hds with _ | ⟨_, _, htail⟩
    rcases within_append.1 hwithin with h | h
    · exact absurd h (not_within_gap hf _ _)
    · rcases within_cons.1 h with rfl | h | h
      · cases hf
      · exact absurd h not_within_nil
      · exact ih htail hf h
  | @record offset d ds a inner closed fs hrecord hcheck nested hclose _ ihNested ihTail =>
    rcases hds with _ | ⟨hd, hnested, htail⟩
    rcases within_append.1 hwithin with h | h
    · exact absurd h (not_within_gap hf _ _)
    · rcases within_cons.1 h with rfl | h | h
      · exact ⟨d, hd, hnested, hrecord, rfl, ⟨a, offset, hcheck, rfl⟩,
          place_eq_ok.2 ⟨inner, nested, hclose⟩⟩
      · exact exists_stems_of_closeRecord (ihNested hnested) hclose hf h
      · exact ihTail htail hf h

theorem stems_of_place {base : ω} (h : place rule ds base = .ok fs) (hds : Everywhere P ds)
    (hf : f.isRecord) (hwithin : f.Within fs) : ∃ d, Stems rule P f d := by
  obtain ⟨inner, hinner, hclose⟩ := place_eq_ok.1 h
  exact exists_stems_of_closeRecord (hinner.stems hds) hclose hf hwithin

/-! ## Records in numbers -/

/-- A record takes up its fields, which is not nothing, and ends before an offset does. -/
structure Field.Spans (f : Field Nat) (stop : Nat) : Prop where
  pos : 0 < totalSize f.children
  size : f.size = totalSize f.children
  stop_le : f.stop ≤ stop

theorem Field.Spans.widen {f : Field Nat} {stop : Nat} (hf : f.isRecord) (h : f.Spans stop) :
    f.widen = f := by
  cases f with
  | record => exact widen_record h.pos
  | _ => cases hf

theorem spans_of_closeRecord {base : Nat} {f : Field Nat} {fs closed : List (Field Nat)}
    (hinner : Placed rule base ds fs)
    (ih : ∀ {f : Field Nat}, f.isRecord → f.Within fs → f.Spans (base + Field.totalSize fs))
    (hclose : closeRecord rule ds base fs = .ok closed) (hf : f.isRecord)
    (hwithin : f.Within closed) : f.Spans (base + Field.totalSize closed) := by
  have hle : Field.totalSize fs ≤ Field.totalSize closed := hinner.totalSize_le_closed hclose
  obtain ⟨g, hg, hfg⟩ := within_of_closeRecord hf hclose hwithin
  have hrecord : g.isRecord := by
    rcases hfg with rfl | rfl
    · exact hf
    · simpa using hf
  have hspans := ih hrecord hg
  obtain rfl : f = g := hfg.elim id fun h => h.trans (hspans.widen hrecord)
  exact ⟨hspans.pos, hspans.size, hspans.stop_le.trans (by omega)⟩

theorem Placed.spans {offset : Nat} {f : Field Nat} {fs : List (Field Nat)}
    (h : Placed rule offset ds fs) (hf : f.isRecord) (hwithin : f.Within fs) :
    f.Spans (offset + Field.totalSize fs) := by
  induction h using Placed.numbers_induction generalizing f with
  | nil => exact absurd hwithin not_within_nil
  | @leaf offset d ds a fs hleaf hcheck _ ih =>
    have hle := a.le_roundUp offset
    simp only [Field.totalSize_append, Field.totalSize_gap, Field.totalSize, Field.size]
    rcases within_append.1 hwithin with h | h
    · exact absurd h (not_within_gap hf _ _)
    · rcases within_cons.1 h with rfl | h | h
      · cases hf
      · exact absurd h not_within_nil
      · have hspans := ih hf h
        exact ⟨hspans.pos, hspans.size, hspans.stop_le.trans (by omega)⟩
  | @record offset d ds a inner closed fs hrecord hcheck nested hclose _ ihNested ihTail =>
    have hle := a.le_roundUp offset
    simp only [Field.totalSize_append, Field.totalSize_gap, Field.totalSize, Field.size]
    rcases within_append.1 hwithin with h | h
    · exact absurd h (not_within_gap hf _ _)
    · rcases within_cons.1 h with rfl | h | h
      · refine ⟨nested.totalSize_closed_pos hrecord hclose, by rw [Field.size, Field.children], ?_⟩
        rw [Field.stop, Field.start, Field.size]
        omega
      · have hspans := spans_of_closeRecord nested ihNested hclose hf h
        exact ⟨hspans.pos, hspans.size, hspans.stop_le.trans (by omega)⟩
      · have hspans := ihTail hf h
        exact ⟨hspans.pos, hspans.size, hspans.stop_le.trans (by omega)⟩

/-- No record of a layout is empty, and none ends after it. -/
theorem spans_of_place {base : Nat} {f : Field Nat} {fs : List (Field Nat)}
    (h : place rule ds base = .ok fs) (hf : f.isRecord) (hwithin : f.Within fs) :
    f.Spans (base + Field.totalSize fs) := by
  obtain ⟨inner, hinner, hclose⟩ := place_eq_ok.1 h
  exact spans_of_closeRecord hinner hinner.spans hclose hf hwithin

end StructPadding
