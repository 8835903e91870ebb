import StructPadding.Proofs.Contiguous
import StructPadding.Proofs.Nested

/-!
# What the check certifies

Memory is taken up by leaves and padding (`blocksAll`), while records only group them. The check
compares neighbours from left to right, and from this follows what holds of all of memory: each byte
of an accepted layout lies in one block and all other bytes in none (`check_partitions`). The size
of a record is that of its fields, so fields that follow one another always end where their record
does, and the check never has to complain about that.
-/

namespace StructPadding

variable {ω : Type}

namespace Field

mutual

/-- The leaves and the padding of a field at every depth. -/
def blocks : Field ω → List (Field ω)
  | padding start size => [padding start size]
  | leaf name typeName start size declared align =>
    [leaf name typeName start size declared align]
  | record _ _ _ _ _ children => blocksAll children

def blocksAll : List (Field ω) → List (Field ω)
  | [] => []
  | f :: fs => f.blocks ++ blocksAll fs

end

variable [Measure ω]

/-- Whether a byte lies in a field. -/
def covers (offset : Nat) (f : Field ω) : Bool :=
  Measure.toNat f.start ≤ offset && offset < Measure.toNat f.stop

/-- The records at any depth take up what their fields do. -/
def Built (fs : List (Field ω)) : Prop :=
  ∀ f : Field ω, f.Within fs → f.isRecord → f.size = f.declared

/-- No field at any depth ends before it starts. -/
def Straight (fs : List (Field ω)) : Prop :=
  ∀ f : Field ω, f.Within fs → Measure.toNat f.start ≤ Measure.toNat f.stop

/-! ## Fields that pass the check -/

theorem boundary_of_check {expected : ω} {f : Field ω} (h : f.check expected = .ok ())
    (hf : f.isPadding = false) : f.alignBytes ∣ Measure.toNat f.start := by
  cases f with
  | padding => cases hf
  | leaf => exact (check_leaf_eq_ok.1 h).2
  | record => exact (check_record_eq_ok.1 h).2.1

/-- The fields of a record that passes the check take up the record. -/
theorem checkAll_children {expected : ω} {f : Field ω} (h : f.check expected = .ok ())
    (hf : f.isRecord) (hsize : f.size = f.declared) :
    checkAll f.start f.children = .ok f.stop := by
  cases f with
  | padding => cases hf
  | leaf => cases hf
  | record name typeName start align widened children =>
    by_cases hne : children = []
    · rw [Field.stop, hsize, Field.declared, Field.start, Field.children, hne, checkAll, totalSize,
        Measure.add_zero]
    · exact (check_record_eq_ok.1 h).2.2 hne

theorem check_of_mem {f : Field ω} {fs : List (Field ω)} {expected stop : ω} (hf : f ∈ fs)
    (h : checkAll expected fs = .ok stop) : ∃ reached, f.check reached = .ok () := by
  induction fs generalizing expected with
  | nil => cases hf
  | cons g fs ih =>
    obtain ⟨hg, hfs⟩ := checkAll_cons.1 h
    rcases List.mem_cons.1 hf with rfl | hf
    · exact ⟨expected, hg⟩
    · exact ih hf hfs

/-- Every field at any depth of a checked layout was checked, and so were the fields around it. -/
theorem check_of_within {f : Field ω} {fs : List (Field ω)} (hwithin : f.Within fs) :
    Built fs → ∀ {expected stop : ω}, checkAll expected fs = .ok stop →
      ∃ reached, f.check reached = .ok () := by
  induction hwithin with
  | here h =>
    intro _ expected stop hfs
    exact check_of_mem h hfs
  | @inside g fs hg hinside ih =>
    intro hbuilt expected stop hfs
    obtain ⟨_, hcheck⟩ := check_of_mem hg hfs
    cases g with
    | record =>
      exact ih (fun e he => hbuilt e (.inside hg he))
        (checkAll_children hcheck rfl (hbuilt _ (.here hg) rfl))
    | _ => exact absurd hinside not_within_nil

/-! ## Bytes and blocks -/

theorem le_stop_of_checkAll {fs : List (Field ω)} (hstraight : Straight fs) :
    ∀ {expected stop : ω}, checkAll expected fs = .ok stop →
      Measure.toNat expected ≤ Measure.toNat stop := by
  induction fs with
  | nil =>
    intro expected stop h
    rw [checkAll] at h
    rw [Except.ok.inj h]
  | cons f fs ih =>
    intro expected stop h
    obtain ⟨hf, hfs⟩ := checkAll_cons.1 h
    have hends := hstraight f (within_cons.2 (.inl rfl))
    rw [start_of_check hf] at hends
    exact hends.trans (ih (fun g hg => hstraight g (within_cons.2 (.inr (.inr hg)))) hfs)

mutual

/-- A field that passes the check has each of its bytes in one block, and no others. -/
theorem countP_blocks (offset : Nat) : ∀ (f : Field ω) {expected : ω}, Built [f] → Straight [f] →
    f.check expected = .ok () →
      f.blocks.countP (covers offset) =
        if Measure.toNat f.start ≤ offset ∧ offset < Measure.toNat f.stop then 1 else 0
  | padding start size, expected, _, _, h => by
    simp [blocks, List.countP_cons, covers]
  | leaf name typeName start size declared align, expected, _, _, h => by
    simp [blocks, List.countP_cons, covers]
  | record name typeName start align widened children, expected, hbuilt, hstraight, h => by
    have hsize := hbuilt _ (within_cons.2 (.inl rfl)) rfl
    rw [blocks]
    exact countP_blocksAll offset children (fun g hg => hbuilt g (within_cons.2 (.inr (.inl hg))))
      (fun g hg => hstraight g (within_cons.2 (.inr (.inl hg)))) (checkAll_children h rfl hsize)

theorem countP_blocksAll (offset : Nat) : ∀ (fs : List (Field ω)) {expected stop : ω}, Built fs →
    Straight fs → checkAll expected fs = .ok stop →
      (blocksAll fs).countP (covers offset) =
        if Measure.toNat expected ≤ offset ∧ offset < Measure.toNat stop then 1 else 0
  | [], expected, stop, _, _, h => by
    rw [checkAll] at h
    obtain rfl := Except.ok.inj h
    rw [blocksAll, List.countP_nil, if_neg (by omega)]
  | f :: fs, expected, stop, hbuilt, hstraight, h => by
    obtain ⟨hf, hfs⟩ := checkAll_cons.1 h
    -- what holds at any depth of all fields holds of the first and of the others
    have hhead : ∀ {g : Field ω}, g.Within [f] → g.Within (f :: fs) := fun hg =>
      within_append.2 (.inl hg)
    have htail : ∀ {g : Field ω}, g.Within fs → g.Within (f :: fs) := fun hg =>
      within_cons.2 (.inr (.inr hg))
    have hbuiltTail : Built fs := fun g hg => hbuilt g (htail hg)
    have hstraightTail : Straight fs := fun g hg => hstraight g (htail hg)
    have hle := le_stop_of_checkAll hstraightTail hfs
    have hends := hstraight f (within_cons.2 (.inl rfl))
    rw [blocksAll, List.countP_append, countP_blocks offset f (fun g hg => hbuilt g (hhead hg))
      (fun g hg => hstraight g (hhead hg)) hf, countP_blocksAll offset fs hbuiltTail hstraightTail
      hfs]
    rw [start_of_check hf] at hends ⊢
    split_ifs <;> omega

end

/-! ## What the check never says -/

section SizeMismatch

variable {field : String} {first last bytes : Nat}

theorem checkStart_ne_sizeMismatch (name : String) (expected start : ω) :
    checkStart name expected start ≠ .error (.sizeMismatch field first last bytes) := by
  unfold checkStart
  split_ifs <;> simp

theorem checkBoundary_ne_sizeMismatch (name : String) (start : ω) (a : Alignment) :
    checkBoundary name start a ≠ .error (.sizeMismatch field first last bytes) := by
  unfold checkBoundary
  split_ifs <;> simp

mutual

theorem check_ne_sizeMismatch : ∀ (f : Field ω) (expected : ω), Built [f] →
    f.check expected ≠ .error (.sizeMismatch field first last bytes)
  | padding start size, expected, _ => by
    rw [check]
    exact checkStart_ne_sizeMismatch _ _ _
  | leaf name typeName start size declared align, expected, _ => by
    rw [check, Ne, bind_eq_error]
    rintro (h | ⟨_, -, h⟩)
    · exact checkStart_ne_sizeMismatch _ _ _ h
    · exact checkBoundary_ne_sizeMismatch _ _ _ h
  | record name typeName start align widened children, expected, hbuilt => by
    rw [check, Ne, bind_eq_error]
    rintro (h | ⟨_, -, h⟩)
    · exact checkStart_ne_sizeMismatch _ _ _ h
    rcases bind_eq_error.1 h with h | ⟨_, -, h⟩
    · exact checkBoundary_ne_sizeMismatch _ _ _ h
    split_ifs at h
    · cases h
    rcases bind_eq_error.1 h with h | ⟨reached, hreached, h⟩
    · exact checkAll_ne_sizeMismatch children start
        (fun g hg => hbuilt g (within_cons.2 (.inr (.inl hg)))) h
    · -- the fields end where their record does
      have hstop : reached = (record name typeName start align widened children).stop := by
        rw [stop_of_checkAll hreached, Field.stop, Field.start,
          hbuilt _ (within_cons.2 (.inl rfl)) rfl, Field.declared]
      dsimp only at h
      rw [if_pos hstop] at h
      cases h

theorem checkAll_ne_sizeMismatch : ∀ (fs : List (Field ω)) (expected : ω), Built fs →
    checkAll expected fs ≠ .error (.sizeMismatch field first last bytes)
  | [], expected, _ => by simp [checkAll]
  | f :: fs, expected, hbuilt => by
    rw [checkAll, Ne, bind_eq_error]
    rintro (h | ⟨_, -, h⟩)
    · exact check_ne_sizeMismatch f expected (fun g hg => hbuilt g (within_append.2 (.inl hg))) h
    · exact checkAll_ne_sizeMismatch fs f.stop
        (fun g hg => hbuilt g (within_cons.2 (.inr (.inr hg)))) h

end

end SizeMismatch

end Field

/-- The offset of the first field. -/
def Layout.base [Measure ω] (l : Layout ω) : ω :=
  (l.fields.head?.map Field.start).getD 0

theorem toNat_add_of_le {x y : UInt64} (h : x ≤ x + y) : (x + y).toNat = x.toNat + y.toNat := by
  have hle := UInt64.le_iff_toNat_le.1 h
  have hsum := UInt64.toNat_add x y
  have hx := x.toNat_lt
  have hy := y.toNat_lt
  omega

/-- The check never complains about the size of a record, if records take up what their fields do.
If it accepts a layout without a field that wraps around, every byte from the first field on is in
exactly one leaf or padding, for as many bytes as the layout has, no other byte is in any, and every
field at every depth starts on its boundary. -/
theorem check_partitions {l : Layout}
    (hbuilt : ∀ f : Field, f.Within l.fields → f.isRecord → f.size = Field.totalSize f.children) :
    (∀ field start stop size, l.check ≠ .error (.sizeMismatch field start stop size)) ∧
      ((∀ f : Field, f.Within l.fields → f.start.toNat + f.size.toNat < UInt64.size) →
        l.check = .ok () →
        (∀ offset, (Field.blocksAll l.fields).countP (Field.covers offset) =
          if l.base.toNat ≤ offset ∧ offset < l.base.toNat + l.size.toNat then 1 else 0) ∧
        ∀ f : Field, f.Within l.fields → f.isPadding = false → f.alignBytes ∣ f.start.toNat) := by
  have hcheck : l.check = (Field.checkAll l.base l.fields >>= fun _ => .ok ()) := rfl
  have hrecords : Field.Built l.fields := by
    intro f hwithin hrecord
    rw [hbuilt f hwithin hrecord]
    cases f with
    | record => rfl
    | _ => cases hrecord
  rw [hcheck]
  refine ⟨fun field start stop size h => ?_, fun hroom h => ?_⟩
  · rcases bind_eq_error.1 h with h | ⟨_, -, h⟩
    · exact Field.checkAll_ne_sizeMismatch l.fields l.base hrecords h
    · cases h
  · obtain ⟨stop, hstop, -⟩ := bind_eq_ok.1 h
    have hstraight : Field.Straight l.fields := by
      intro f hwithin
      have hsum : f.stop.toNat = f.start.toNat + f.size.toNat := by
        rw [Field.stop, UInt64.toNat_add]
        exact Nat.mod_eq_of_lt (hroom f hwithin)
      exact (Nat.le_add_right _ _).trans hsum.ge
    have hend := Field.stop_of_checkAll hstop
    have hle := Field.le_stop_of_checkAll hstraight hstop
    refine ⟨fun offset => ?_, fun f hwithin hf => ?_⟩
    · rw [Field.countP_blocksAll offset l.fields hrecords hstraight hstop]
      rw [hend] at hle ⊢
      have hsum : Measure.toNat (l.base + Field.totalSize l.fields) = l.base.toNat + l.size.toNat :=
        toNat_add_of_le (UInt64.le_iff_toNat_le.2 hle)
      rw [hsum]
      rfl
    · obtain ⟨_, hf'⟩ := Field.check_of_within hwithin hrecords hstop
      exact Field.boundary_of_check hf' hf

/-- A record that starts with padding, one without fields, and a leaf of no size between them. -/
def sparse : Layout where
  name := "T"
  lines := ⟨1, 1⟩
  fields := [.record "in" "In" 8 .word false [.padding 8 8, .leaf "n" "int64" 16 8 8 .word],
    .leaf "z" "[0]int64" 24 0 0 .word, .record "none" "None" 24 .word false [], .padding 24 4]

theorem check_partitions_sparse : sparse.check = .ok () ∧ sparse.base = 8 ∧ sparse.size = 20 ∧
    (∀ offset, (Field.blocksAll sparse.fields).countP (Field.covers offset) =
      if 8 ≤ offset ∧ offset < 8 + 20 then 1 else 0) ∧
    ∀ f : Field, f.Within sparse.fields → f.isPadding = false → f.alignBytes ∣ f.start.toNat := by
  have hcheck : sparse.check = .ok () := by decide +kernel
  have hwithin : ∀ f : Field, f.Within sparse.fields →
      f ∈ sparse.fields.flatMap fun g => g :: g.children := by
    intro f hf
    simpa [sparse, Field.within_cons, Field.not_within_nil, Field.children, or_assoc] using hf
  have hall : ∀ f ∈ sparse.fields.flatMap fun g => g :: g.children,
      (f.isRecord → f.size = Field.totalSize f.children) ∧
        f.start.toNat + f.size.toNat < UInt64.size := by decide +kernel
  have hbuilt : ∀ f : Field, f.Within sparse.fields → f.isRecord →
      f.size = Field.totalSize f.children := fun f hf => (hall f (hwithin f hf)).1
  exact ⟨hcheck, by decide +kernel, by decide +kernel,
    (check_partitions hbuilt).2 (fun f hf => (hall f (hwithin f hf)).2) hcheck⟩

end StructPadding
