import Mathlib.Tactic.Common
import StructPadding.Text.Utf8

/-!
# Bytes of characters

What is decoded from bytes is encoded by them (`eq_bytesOf_of_decode`), and what was encoded is
decoded (`decode_bytesOf`). So a text can be cut between two of its characters and the bytes are cut
at the same place, and both have the same line feeds.
-/

namespace StructPadding.Text.Utf8

/-- The bytes of some characters. -/
def bytesOf (cs : List Char) : List UInt8 :=
  cs.flatMap String.utf8EncodeChar

theorem bytesOf_cons (c : Char) (cs : List Char) :
    bytesOf (c :: cs) = String.utf8EncodeChar c ++ bytesOf cs := by
  simp [bytesOf]

theorem bytesOf_singleton (c : Char) : bytesOf [c] = String.utf8EncodeChar c := by
  simp [bytesOf]

theorem bytesOf_append (cs ds : List Char) : bytesOf (cs ++ ds) = bytesOf cs ++ bytesOf ds := by
  simp [bytesOf]

theorem length_bytesOf (cs : List Char) : (bytesOf cs).length = size cs := by
  induction cs with
  | nil => rfl
  | cons c cs ih => rw [bytesOf_cons, List.length_append, String.length_utf8EncodeChar, size, ih]

/-! ## One character -/

theorem val_ofNat {n : Nat} (h : n.isValidChar) : (Char.ofNat n).val.toNat = n := by
  rw [Char.ofNat, dif_pos h]
  rfl

theorem ofNat_eq_of_toNat {n : Nat} {b : UInt8} (h : n = b.toNat) : UInt8.ofNat n = b := by
  rw [h, UInt8.ofNat_toNat]

theorem encode_one {b : UInt8} (h : b < 0x80) :
    String.utf8EncodeChar (Char.ofNat b.toNat) = [b] := by
  have hb : b.toNat < 128 := h
  rw [String.utf8EncodeChar, val_ofNat (.inl (by omega))]
  simp [show b.toNat ≤ 127 by omega]

theorem encode_two {b b1 : UInt8} (h : (0xc2 ≤ b && b ≤ 0xdf && isContinuation b1) = true) :
    String.utf8EncodeChar (Char.ofNat (b.toNat % 32 * 64 + payload b1)) = [b, b1] := by
  simp only [isContinuation, Bool.and_eq_true, decide_eq_true_eq, UInt8.le_iff_toNat_le,
    UInt8.reduceToNat] at h
  unfold payload
  rw [String.utf8EncodeChar, val_ofNat (.inl (by omega))]
  rw [if_neg (by omega), if_pos (by omega), ofNat_eq_of_toNat (b := b) (by omega),
    ofNat_eq_of_toNat (b := b1) (by omega)]

theorem encode_three {b b1 b2 : UInt8}
    (h : (0xe0 ≤ b && b ≤ 0xef && second3 b b1 && isContinuation b2) = true) :
    String.utf8EncodeChar (Char.ofNat ((b.toNat % 16 * 64 + payload b1) * 64 + payload b2)) =
      [b, b1, b2] := by
  simp only [second3, isContinuation, Bool.and_eq_true, Bool.or_eq_true, bne_iff_ne, ne_eq,
    decide_eq_true_eq, UInt8.le_iff_toNat_le, ← UInt8.toNat_inj, UInt8.reduceToNat] at h
  unfold payload
  rw [String.utf8EncodeChar, val_ofNat (by unfold Nat.isValidChar; omega)]
  rw [if_neg (by omega), if_neg (by omega), if_pos (by omega),
    ofNat_eq_of_toNat (b := b) (by omega), ofNat_eq_of_toNat (b := b1) (by omega),
    ofNat_eq_of_toNat (b := b2) (by omega)]

theorem encode_four {b b1 b2 b3 : UInt8}
    (h : (0xf0 ≤ b && b ≤ 0xf4 && second4 b b1 && isContinuation b2 && isContinuation b3) = true) :
    String.utf8EncodeChar
      (Char.ofNat (((b.toNat % 8 * 64 + payload b1) * 64 + payload b2) * 64 + payload b3)) =
      [b, b1, b2, b3] := by
  simp only [second4, isContinuation, Bool.and_eq_true, Bool.or_eq_true, bne_iff_ne, ne_eq,
    decide_eq_true_eq, UInt8.le_iff_toNat_le, ← UInt8.toNat_inj, UInt8.reduceToNat] at h
  unfold payload
  rw [String.utf8EncodeChar, val_ofNat (by unfold Nat.isValidChar; omega)]
  rw [if_neg (by omega), if_neg (by omega), if_neg (by omega),
    ofNat_eq_of_toNat (b := b) (by omega), ofNat_eq_of_toNat (b := b1) (by omega),
    ofNat_eq_of_toNat (b := b2) (by omega), ofNat_eq_of_toNat (b := b3) (by omega)]

/-- All bytes of a longer sequence are above the ASCII range. -/
theorem high_of_mem_encodeChar {c : Char} (hc : 127 < c.val.toNat) :
    ∀ b ∈ String.utf8EncodeChar c, 127 < b.toNat := by
  rw [String.utf8EncodeChar, if_neg (by omega)]
  split_ifs <;> simp only [List.forall_mem_cons, UInt8.toNat_ofNat', List.not_mem_nil,
    false_implies, implies_true, and_true] <;> omega

theorem count_encodeChar (c : Char) :
    (String.utf8EncodeChar c).count 0x0a = if c = '\n' then 1 else 0 := by
  have hfeed : c = '\n' ↔ c.val.toNat = 10 := by
    rw [← Char.val_inj, ← UInt32.toNat_inj]
    rfl
  by_cases hone : c.val.toNat ≤ 127
  · have hbyte : UInt8.ofNat c.val.toNat = 0x0a ↔ c.val.toNat = 10 := by
      rw [← UInt8.toNat_inj, UInt8.toNat_ofNat_of_lt' (show c.val.toNat < 256 by omega)]
      rfl
    rw [String.utf8EncodeChar, if_pos hone, List.count_singleton]
    simp only [beq_iff_eq, hbyte, hfeed]
  · rw [if_neg (by rw [hfeed]; omega), List.count_eq_zero]
    intro hmem
    have := high_of_mem_encodeChar (by omega) _ hmem
    contradiction

theorem count_bytesOf (cs : List Char) : (bytesOf cs).count 0x0a = cs.count '\n' := by
  induction cs with
  | nil => rfl
  | cons c cs ih =>
    rw [bytesOf_cons, List.count_append, ih, count_encodeChar, List.count_cons, Nat.add_comm]
    simp

/-! ## Texts -/

theorem eq_bytesOf_of_decodeFrom (offset : Nat) (bytes : List UInt8) {cs : List Char}
    (h : decodeFrom offset bytes = .ok cs) : bytes = bytesOf cs := by
  -- the bytes of one character, and those that are decoded behind them
  have hmore : ∀ {rest read : List UInt8} {more : Except Nat (List Char)} {c : Char}
      {cs : List Char}, String.utf8EncodeChar c = read →
      (∀ {ds : List Char}, more = .ok ds → rest = bytesOf ds) →
      more.map (c :: ·) = .ok cs → read ++ rest = bytesOf cs := by
    intro rest read more c cs hread hrest h
    rcases more with e | ds
    · cases h
    · obtain rfl := Except.ok.inj h
      rw [bytesOf_cons, hread, ← hrest rfl]
  fun_induction decodeFrom offset bytes generalizing cs with
  | case1 =>
    obtain rfl := Except.ok.inj h
    rfl
  | case2 _ _ _ hb ih => exact hmore (encode_one hb) ih h
  | case4 _ _ _ _ _ hb ih => exact hmore (encode_two hb) ih h
  | case6 _ _ _ _ _ _ _ hb ih => exact hmore (encode_three hb) ih h
  | case8 _ _ _ _ _ _ _ _ _ hb ih => exact hmore (encode_four hb) ih h
  | case3 => cases h
  | case5 => cases h
  | case7 => cases h
  | case9 => cases h

theorem eq_bytesOf_of_decode {bytes : List UInt8} {cs : List Char} (h : decode bytes = .ok cs) :
    bytes = bytesOf cs :=
  eq_bytesOf_of_decodeFrom 0 bytes h

theorem ofNat_eq_of_val {n : Nat} {c : Char} (h : n = c.val.toNat) : Char.ofNat n = c := by
  rw [h]
  exact Char.ofNat_toNat c

/-- The bytes of a character are decoded as the character. -/
theorem decodeFrom_encodeChar (c : Char) (offset : Nat) (rest : List UInt8) :
    ∃ next, decodeFrom offset (String.utf8EncodeChar c ++ rest) =
      (decodeFrom next rest).map (c :: ·) := by
  have hvalid : c.val.toNat.isValidChar := c.valid
  unfold Nat.isValidChar at hvalid
  generalize hn : c.val.toNat = n at hvalid
  unfold String.utf8EncodeChar
  simp only [hn]
  -- one case for each length; in all of them the tests on bytes become bounds on the number
  split_ifs with hone htwo hthree <;> simp only [List.cons_append, List.nil_append]
  · refine ⟨offset + 1, ?_⟩
    rw [decodeFrom.eq_def]
    simp only [UInt8.lt_iff_toNat_lt, UInt8.toNat_ofNat', UInt8.reduceToNat]
    rw [if_pos (by omega), ofNat_eq_of_val (c := c) (by omega)]
  · refine ⟨offset + 2, ?_⟩
    rw [decodeFrom.eq_def]
    simp only [payload, isContinuation, Bool.and_eq_true, decide_eq_true_eq, UInt8.lt_iff_toNat_lt,
      UInt8.le_iff_toNat_le, UInt8.toNat_ofNat', UInt8.reduceToNat]
    rw [if_neg (by omega), if_pos (by omega), ofNat_eq_of_val (c := c) (by omega)]
  · refine ⟨offset + 3, ?_⟩
    rw [decodeFrom.eq_def]
    simp only [payload, second3, isContinuation, Bool.and_eq_true, Bool.or_eq_true, bne_iff_ne,
      ne_eq, decide_eq_true_eq, UInt8.lt_iff_toNat_lt, UInt8.le_iff_toNat_le, ← UInt8.toNat_inj,
      UInt8.toNat_ofNat', UInt8.reduceToNat]
    rw [if_neg (by omega), if_neg (by omega), if_pos (by omega),
      ofNat_eq_of_val (c := c) (by omega)]
  · refine ⟨offset + 4, ?_⟩
    rw [decodeFrom.eq_def]
    simp only [payload, second3, second4, isContinuation, Bool.and_eq_true, Bool.or_eq_true,
      bne_iff_ne, ne_eq, decide_eq_true_eq, UInt8.lt_iff_toNat_lt, UInt8.le_iff_toNat_le,
      ← UInt8.toNat_inj, UInt8.toNat_ofNat', UInt8.reduceToNat]
    rw [if_neg (by omega), if_neg (by omega), if_neg (by omega), if_pos (by omega),
      ofNat_eq_of_val (c := c) (by omega)]

theorem decodeFrom_bytesOf (cs : List Char) :
    ∀ offset, decodeFrom offset (bytesOf cs) = .ok cs := by
  induction cs with
  | nil => exact fun _ => decodeFrom.eq_def _ _
  | cons c cs ih =>
    intro offset
    obtain ⟨next, hnext⟩ := decodeFrom_encodeChar c offset (bytesOf cs)
    rw [bytesOf_cons, hnext, ih next]
    rfl

theorem decode_bytesOf (cs : List Char) : decode (bytesOf cs) = .ok cs :=
  decodeFrom_bytesOf cs 0

theorem toList_loop (bytes : ByteArray) (i : Nat) (done : List UInt8) :
    ByteArray.toList.loop bytes i done = done.reverse ++ bytes.data.toList.drop i := by
  fun_induction ByteArray.toList.loop bytes i done with
  | case1 i done hi ih =>
    rw [ih, List.drop_eq_getElem_cons (show i < bytes.data.toList.length from hi), ByteArray.get!,
      getElem!_pos bytes.data i hi]
    simp
  | case2 i done hi =>
    have hle : bytes.data.toList.length ≤ i := Nat.le_of_not_lt hi
    rw [List.drop_eq_nil_of_le hle, List.append_nil]

theorem encode_eq_bytesOf (s : String) : encode s = bytesOf s.toList := by
  have hbytes : s.toByteArray = (bytesOf s.toList).toByteArray := by
    conv_lhs => rw [← String.ofList_toList (s := s), String.toByteArray_ofList]
    rfl
  unfold encode
  rw [String.toUTF8_eq_toByteArray, hbytes, ByteArray.toList, toList_loop]
  simp

theorem encode_append (s t : String) : encode (s ++ t) = encode s ++ encode t := by
  simp only [encode_eq_bytesOf, String.toList_append, bytesOf_append]

end StructPadding.Text.Utf8
