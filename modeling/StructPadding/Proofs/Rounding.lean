import Mathlib.Order.Bounds.Defs
import Mathlib.Order.Nat
import StructPadding.Alignment

/-!
# Rounding up

`roundUp` gives the least multiple of an alignment at or past an offset. It moves along with any
multiple of the alignment, so where a field lies within a record depends on the record's own offset
only up to the alignments in it. Of two alignments the smaller one divides the larger.

On 64-bit words the same number is found without dividing (`roundUpWord_isLeast`): the bits that a
mask clears and the bits that it keeps make up a word, and below a power of two the kept bits are
the remainder.
-/

namespace StructPadding.Alignment

variable (a : Alignment)

theorem le_roundUp (x : Nat) : x ≤ a.roundUp x := by
  unfold roundUp
  omega

theorem roundUp_lt (x : Nat) : a.roundUp x < x + a.bytes := by
  have := Nat.mod_lt (a.bytes - x % a.bytes) a.bytes_pos
  unfold roundUp
  omega

theorem dvd_roundUp (x : Nat) : a.bytes ∣ a.roundUp x := by
  have hpos := a.bytes_pos
  have hlt := Nat.mod_lt x hpos
  unfold roundUp
  by_cases hx : x % a.bytes = 0
  · simpa [hx] using Nat.dvd_of_mod_eq_zero hx
  · rw [Nat.mod_eq_of_lt (by omega)]
    have hdiv := Nat.mod_add_div x a.bytes
    refine ⟨x / a.bytes + 1, ?_⟩
    rw [Nat.mul_add, Nat.mul_one]
    omega

variable {a}

/-- No multiple at or past the offset is smaller. -/
theorem roundUp_le {x y : Nat} (hxy : x ≤ y) (hy : a.bytes ∣ y) : a.roundUp x ≤ y := by
  by_contra hlt
  have hdvd := Nat.dvd_sub (a.dvd_roundUp x) hy
  have := Nat.le_of_dvd (by omega) hdvd
  have := a.roundUp_lt x
  omega

theorem isLeast_roundUp (a : Alignment) (x : Nat) :
    IsLeast {y | a.bytes ∣ y ∧ x ≤ y} (a.roundUp x) :=
  ⟨⟨a.dvd_roundUp x, a.le_roundUp x⟩, fun _ hy => roundUp_le hy.2 hy.1⟩

theorem roundUp_eq {x : Nat} (h : a.bytes ∣ x) : a.roundUp x = x :=
  le_antisymm (roundUp_le le_rfl h) (a.le_roundUp x)

theorem roundUp_mono {x y : Nat} (h : x ≤ y) : a.roundUp x ≤ a.roundUp y :=
  roundUp_le (h.trans (a.le_roundUp y)) (a.dvd_roundUp y)

theorem roundUp_add {d : Nat} (h : a.bytes ∣ d) (x : Nat) :
    a.roundUp (x + d) = a.roundUp x + d := by
  obtain ⟨q, rfl⟩ := h
  unfold roundUp
  rw [Nat.add_mul_mod_self_left]
  omega

theorem roundUp_pos {x : Nat} (h : 0 < x) : 0 < a.roundUp x :=
  h.trans_le (a.le_roundUp x)

/-- Of two alignments the smaller divides the larger. -/
theorem bytes_dvd {a b : Alignment} (h : a.bytes ≤ b.bytes) : a.bytes ∣ b.bytes :=
  Nat.pow_dvd_pow 2 ((Nat.pow_le_pow_iff_right (by decide)).1 h)

theorem ofBytes?_eq_some_iff {n : Nat} {a : Alignment} : ofBytes? n = some a ↔ a.bytes = n := by
  constructor
  · exact bytes_of_ofBytes?
  · rintro rfl
    exact ofBytes?_bytes a

theorem exists_bytes_eq {e : Nat} (h : Nat.pow 2 e < UInt64.size) :
    ∃ a : Alignment, a.bytes = Nat.pow 2 e := by
  have he : e < 64 := (Nat.pow_lt_pow_iff_right (by decide : 1 < 2)).1 h
  exact ⟨⟨⟨e, he⟩⟩, rfl⟩

/-! ## Words -/

/-- The bits of a word that a mask clears, and those that it keeps. -/
theorem toNat_and_not_add (x mask : UInt64) :
    (x &&& ~~~mask).toNat + (x &&& mask).toNat = x.toNat := by
  have hdisjoint : (x.toBitVec &&& ~~~mask.toBitVec) &&& (x.toBitVec &&& mask.toBitVec) = 0 := by
    ext i
    simp only [BitVec.getElem_and, BitVec.getElem_not]
    cases mask.toBitVec[i] <;> simp
  have hjoin : (x.toBitVec &&& ~~~mask.toBitVec) ||| (x.toBitVec &&& mask.toBitVec) =
      x.toBitVec := by
    ext i
    simp only [BitVec.getElem_or, BitVec.getElem_and, BitVec.getElem_not]
    cases mask.toBitVec[i] <;> simp
  have hsum := BitVec.toNat_add_of_and_eq_zero hdisjoint
  rw [BitVec.add_eq_or_of_and_eq_zero _ _ hdisjoint, hjoin] at hsum
  exact hsum.symm

theorem toNat_boundary (a : Alignment) : (UInt64.ofNat a.bytes).toNat = a.bytes :=
  UInt64.toNat_ofNat_of_lt' a.bytes_lt

theorem toNat_clear (a : Alignment) (x : UInt64) :
    (x &&& ~~~(UInt64.ofNat a.bytes - 1)).toNat = x.toNat - x.toNat % a.bytes := by
  have hmask : (UInt64.ofNat a.bytes - 1).toNat = a.bytes - 1 := by
    rw [UInt64.toNat_sub_of_le, toNat_boundary]
    · rfl
    · rw [UInt64.le_iff_toNat_le, toNat_boundary]
      exact a.bytes_pos
  have hlow : (x &&& (UInt64.ofNat a.bytes - 1)).toNat = x.toNat % a.bytes := by
    rw [UInt64.toNat_and, hmask]
    exact Nat.and_two_pow_sub_one_eq_mod x.toNat a.exponent.val
  have := toNat_and_not_add x (UInt64.ofNat a.bytes - 1)
  omega

theorem toNat_roundUpWord {v : UInt64} (h : v.toNat + a.bytes - 1 < UInt64.size) :
    (a.roundUpWord v).toNat = a.roundUp v.toNat := by
  have hpos := a.bytes_pos
  have hsum : (v + UInt64.ofNat a.bytes - 1).toNat = v.toNat + a.bytes - 1 := by
    -- offset and boundary together may be 2^64, which wraps to zero and, less one, back again
    have hone : (1 : UInt64).toNat = 1 := rfl
    have hv := v.toNat_lt_size
    have ha := a.bytes_lt
    rw [UInt64.toNat_sub, UInt64.toNat_add, toNat_boundary, hone]
    simp only [UInt64.size] at h hv ha
    omega
  have hword : (a.roundUpWord v).toNat =
      v.toNat + a.bytes - 1 - (v.toNat + a.bytes - 1) % a.bytes := by
    rw [roundUpWord, toNat_clear, hsum]
  have hdvd : a.bytes ∣ (a.roundUpWord v).toNat := by
    rw [hword]
    exact Nat.dvd_sub_mod _
  -- both are multiples at or past `v`, and less than a boundary apart
  have hlt := Nat.mod_lt (v.toNat + a.bytes - 1) hpos
  have hpast := a.le_roundUp v.toNat
  have hleast := roundUp_le (a := a) (x := v.toNat) (by omega) hdvd
  have hapart := Nat.eq_zero_of_dvd_of_lt (Nat.dvd_sub hdvd (a.dvd_roundUp v.toNat)) (by omega)
  omega

theorem bytes_dvd_size (a : Alignment) : a.bytes ∣ UInt64.size :=
  Nat.pow_dvd_pow 2 a.exponent.isLt.le

/-- There is room to round up once more. -/
theorem roundUp_add_lt {x : Nat} (h : x + a.bytes - 1 < UInt64.size) :
    a.roundUp x + a.bytes - 1 < UInt64.size := by
  have hlt := a.roundUp_lt x
  have hrest := Nat.le_of_dvd (by omega) (Nat.dvd_sub a.bytes_dvd_size (a.dvd_roundUp x))
  omega

/-- What is rounded up stays where it is when it is rounded up to a smaller alignment. -/
theorem roundUpWord_roundUpWord {a b : Alignment} (hab : b.bytes ≤ a.bytes) {v : UInt64}
    (h : v.toNat + a.bytes - 1 < UInt64.size) :
    b.roundUpWord (a.roundUpWord v) = a.roundUpWord v := by
  have hword := toNat_roundUpWord h
  have hroom := roundUp_add_lt h
  apply UInt64.toNat_inj.1
  rw [toNat_roundUpWord (by omega), hword]
  exact roundUp_eq (Nat.dvd_trans (bytes_dvd hab) (a.dvd_roundUp v.toNat))

theorem exists_ofBytes?_iff (n : UInt64) :
    (∃ a, ofBytes? n.toNat = some a) ↔ ∃ e, n.toNat = Nat.pow 2 e := by
  constructor
  · rintro ⟨a, ha⟩
    exact ⟨a.exponent.val, (bytes_of_ofBytes? ha).symm⟩
  · rintro ⟨e, he⟩
    obtain ⟨a, ha⟩ := exists_bytes_eq (he ▸ n.toNat_lt_size)
    exact ⟨a, ofBytes?_eq_some_iff.2 (ha.trans he.symm)⟩

/-- The words that are alignments are the powers of two. Wherever there is room for it in 64 bits,
adding all but one byte of the boundary and clearing the low bits gives the least multiple at or
past an offset. So rounding up is monotone, a second time changes nothing, and what is rounded up
lies on the boundaries of every smaller alignment too. -/
theorem roundUpWord_isLeast :
    (∀ n : UInt64, (∃ a, ofBytes? n.toNat = some a) ↔ ∃ e, n.toNat = Nat.pow 2 e) ∧
    ∀ (n : UInt64) (a : Alignment), ofBytes? n.toNat = some a →
      ∀ v : UInt64, v.toNat + n.toNat - 1 < UInt64.size →
        a.roundUpWord v = (v + n - 1) &&& ~~~(n - 1) ∧
        IsLeast {w | n.toNat ∣ w ∧ v.toNat ≤ w} (a.roundUpWord v).toNat ∧
        (∀ u ≤ v, a.roundUpWord u ≤ a.roundUpWord v) ∧
        a.roundUpWord (a.roundUpWord v) = a.roundUpWord v ∧
        ∀ (m : UInt64) (b : Alignment), ofBytes? m.toNat = some b → m ≤ n →
          m.toNat ∣ (a.roundUpWord v).toNat ∧
            b.roundUpWord (a.roundUpWord v) = a.roundUpWord v := by
  refine ⟨exists_ofBytes?_iff, fun n a ha v hv => ?_⟩
  have hbytes := bytes_of_ofBytes? ha
  have hboundary : UInt64.ofNat a.bytes = n := by rw [hbytes, UInt64.ofNat_toNat]
  rw [← hbytes] at hv ⊢
  have hword := toNat_roundUpWord hv
  refine ⟨by rw [roundUpWord, hboundary], hword ▸ a.isLeast_roundUp v.toNat, fun u hu => ?_,
    roundUpWord_roundUpWord le_rfl hv, fun m b hb hmn => ?_⟩
  · have hle := UInt64.le_iff_toNat_le.1 hu
    rw [UInt64.le_iff_toNat_le, hword, toNat_roundUpWord (by omega)]
    exact roundUp_mono hle
  · have hm := bytes_of_ofBytes? hb
    have hle : b.bytes ≤ a.bytes := by
      rw [hm, hbytes]
      exact UInt64.le_iff_toNat_le.1 hmn
    refine ⟨?_, roundUpWord_roundUpWord hle hv⟩
    rw [hword, ← hm]
    exact Nat.dvd_trans (bytes_dvd hle) (a.dvd_roundUp v.toNat)

/-- The last multiple of eight that a word can hold is reached from the seven words before it. -/
theorem roundUpWord_isLeast_edge :
    ofBytes? (8 : UInt64).toNat = some word ∧
      (0xfffffffffffffff1 : UInt64).toNat + (8 : UInt64).toNat - 1 < UInt64.size ∧
      word.roundUpWord 0xfffffffffffffff1 = 0xfffffffffffffff8 ∧
      IsLeast {w | (8 : UInt64).toNat ∣ w ∧ (0xfffffffffffffff1 : UInt64).toNat ≤ w}
        (word.roundUpWord 0xfffffffffffffff1).toNat := by
  have h : ofBytes? (8 : UInt64).toNat = some word := by decide +kernel
  have hroom : (0xfffffffffffffff1 : UInt64).toNat + (8 : UInt64).toNat - 1 < UInt64.size := by
    decide
  exact ⟨h, hroom, by decide +kernel, (roundUpWord_isLeast.2 8 word h _ hroom).2.1⟩

end StructPadding.Alignment
