import StructPadding.Json.Scan
import StructPadding.Proofs.Encoded
import StructPadding.Proofs.Scanned

/-!
# JSON text read back

The compact text of a value is read as that value (`read_compact`), if its integers fit 64 bits.
What is written of a string, a number, a list or an object is read piece by piece, whatever stands
behind it, as long as it does not go on with a number. The bytes that are left bound the steps that
the reader takes.
-/

namespace StructPadding.Json

open Text.Utf8 (encode bytesOf bytesOf_cons bytesOf_singleton bytesOf_append decode_bytesOf
  encode_eq_bytesOf encode_append high_of_mem_encodeChar)

/-! ## Strings -/

/-- The bytes that stand for themselves in a string. -/
def isPlain (b : UInt8) : Bool :=
  b != 0x22 && b != 0x5c && 0x20 ≤ b

theorem scanTextFrom_plain {bs : List UInt8} (h : ∀ b ∈ bs, isPlain b = true) (steps : Nat)
    (content rest : List UInt8) :
    scanTextFrom (steps + bs.length) none content (bs ++ rest) =
      scanTextFrom steps none (bs.reverse ++ content) rest := by
  induction bs generalizing content with
  | nil => rfl
  | cons b bs ih =>
    obtain ⟨hb, hbs⟩ := List.forall_mem_cons.1 h
    simp only [isPlain, Bool.and_eq_true, bne_iff_ne, ne_eq, decide_eq_true_eq] at hb
    rw [List.length_cons, ← Nat.add_assoc, List.cons_append, scanTextFrom.eq_def]
    simp only [beq_iff_eq, hb.1.1, hb.1.2, if_false, UInt8.not_lt.2 hb.2]
    rw [ih hbs, List.reverse_cons, List.append_assoc, List.singleton_append]

theorem scanTextFrom_escape {bytes more rest : List UInt8} (h : escape bytes = .bytes more rest)
    (steps : Nat) (content : List UInt8) :
    scanTextFrom (steps + 1) none content (0x5c :: bytes) =
      scanTextFrom steps none (more.reverse ++ content) rest := by
  rw [scanTextFrom.eq_def]
  simp [h]

theorem isPlain_of_mem_encodeChar {c : Char} (hquote : c ≠ '"') (hslash : c ≠ '\\')
    (hlow : ¬ c.toNat < 0x20) : ∀ b ∈ String.utf8EncodeChar c, isPlain b = true := by
  simp only [isPlain, Bool.and_eq_true, bne_iff_ne, ne_eq, decide_eq_true_eq, ← UInt8.toNat_inj,
    UInt8.le_iff_toNat_le, UInt8.reduceToNat]
  by_cases hone : c.val.toNat ≤ 127
  · have hquote' : c.val.toNat ≠ 34 := fun h => hquote (Char.ext (UInt32.toNat_inj.1 h))
    have hslash' : c.val.toNat ≠ 92 := fun h => hslash (Char.ext (UInt32.toNat_inj.1 h))
    rw [String.utf8EncodeChar, if_pos hone]
    simp only [List.mem_singleton, forall_eq, UInt8.toNat_ofNat']
    have : ¬ c.val.toNat < 32 := hlow
    omega
  · intro b hb
    have := high_of_mem_encodeChar (by omega) b hb
    omega

theorem exists_hexDigit?_digitChar {d : Nat} (h : d < 16) :
    ∃ b, String.utf8EncodeChar (Nat.digitChar d) = [b] ∧ hexDigit? b = some d := by
  have hall : ∀ d : Fin 16, String.utf8EncodeChar (Nat.digitChar d) =
      [UInt8.ofNat (Nat.digitChar d).toNat] ∧
      hexDigit? (UInt8.ofNat (Nat.digitChar d).toNat) = some d.val := by decide
  exact ⟨_, hall ⟨d, h⟩⟩

theorem escape_unicode {n : Nat} (hn : n < 0x20) {a b : UInt8} (ha : hexDigit? a = some (n / 16))
    (hb : hexDigit? b = some (n % 16)) (rest : List UInt8) :
    escape (0x75 :: 0x30 :: 0x30 :: a :: b :: rest) =
      .bytes (String.utf8EncodeChar (Char.ofNat n)) rest := by
  have hnumber : hexFour (0x30 :: 0x30 :: a :: b :: rest) = .ok (n, rest) := by
    have hzero : hexDigit? 0x30 = some 0 := by decide
    simp only [hexFour, hzero, ha, hb]
    rw [show ((0 * 16 + 0) * 16 + n / 16) * 16 + n % 16 = n by omega]
  have hread : escape (0x75 :: 0x30 :: 0x30 :: a :: b :: rest) =
      unicodeEscape (0x30 :: 0x30 :: a :: b :: rest) := rfl
  rw [hread, unicodeEscape, hnumber]
  simp only []
  rw [if_neg (by omega), if_pos (by omega), encode_eq_bytesOf, String.toList_singleton,
    bytesOf_singleton]

/-- A character stands for itself in a string, or is escaped. -/
theorem escapeChar_cases (c : Char) :
    (escapeChar c = [c] ∧ ∀ b ∈ String.utf8EncodeChar c, isPlain b = true) ∨
      ∃ tail, bytesOf (escapeChar c) = 0x5c :: tail ∧
        ∀ rest, escape (tail ++ rest) = .bytes (String.utf8EncodeChar c) rest := by
  unfold escapeChar
  split_ifs with hquote hslash hback htab hfeed hform hreturn hlow
  · subst hquote
    exact .inr ⟨[0x22], rfl, fun _ => rfl⟩
  · subst hslash
    exact .inr ⟨[0x5c], rfl, fun _ => rfl⟩
  · subst hback
    exact .inr ⟨[0x62], rfl, fun _ => rfl⟩
  · subst htab
    exact .inr ⟨[0x74], rfl, fun _ => rfl⟩
  · subst hfeed
    exact .inr ⟨[0x6e], rfl, fun _ => rfl⟩
  · subst hform
    exact .inr ⟨[0x66], rfl, fun _ => rfl⟩
  · subst hreturn
    exact .inr ⟨[0x72], rfl, fun _ => rfl⟩
  · obtain ⟨a, hread, ha⟩ := exists_hexDigit?_digitChar (show c.toNat / 16 < 16 by omega)
    obtain ⟨b, hread', hb⟩ := exists_hexDigit?_digitChar (show c.toNat % 16 < 16 by omega)
    refine .inr ⟨[0x75, 0x30, 0x30, a, b], ?_, fun rest => ?_⟩
    · simp only [bytesOf_cons, hread, hread']
      rfl
    · have hescape := escape_unicode hlow ha hb rest
      rwa [Char.ofNat_toNat] at hescape
  · exact .inl ⟨rfl, isPlain_of_mem_encodeChar hquote hslash hlow⟩

/-- The bytes of a text inside quotes. -/
def escaped (cs : List Char) : List UInt8 :=
  bytesOf (cs.flatMap escapeChar)

theorem escaped_cons (c : Char) (cs : List Char) :
    escaped (c :: cs) = bytesOf (escapeChar c) ++ escaped cs := by
  rw [escaped, List.flatMap_cons, bytesOf_append, escaped]

theorem encode_quote (s : String) : encode (quote s) = 0x22 :: (escaped s.toList ++ [0x22]) := by
  simp only [quote, encode_eq_bytesOf, String.toList_append, bytesOf_append, String.toList_ofList]
  rfl

/-- Behind the characters that were read come others and then the quote. -/
theorem scanTextFrom_escaped (cs : List Char) :
    ∀ (steps : Nat) (done : List Char) (rest : List UInt8), (escaped cs).length < steps →
      scanTextFrom steps none (bytesOf done).reverse (escaped cs ++ 0x22 :: rest) =
        .text (.ok (String.ofList (done ++ cs))) rest := by
  induction cs with
  | nil =>
    intro steps done rest hsteps
    obtain ⟨steps, rfl⟩ := Nat.exists_eq_add_of_lt hsteps
    have hdone : Text.Utf8.decode (bytesOf done).reverse.reverse = .ok done := by
      rw [List.reverse_reverse, decode_bytesOf]
    rw [show escaped [] = [] from rfl, List.nil_append, scanTextFrom.eq_def, List.append_nil]
    simp only [hdone]
    rfl
  | cons c cs ih =>
    intro steps done rest hsteps
    have hmore : (String.utf8EncodeChar c).reverse ++ (bytesOf done).reverse =
        (bytesOf (done ++ [c])).reverse := by
      rw [bytesOf_append, List.reverse_append, bytesOf_singleton]
    rw [escaped_cons, List.length_append] at hsteps
    rw [escaped_cons, List.append_assoc]
    obtain ⟨hself, hplain⟩ | ⟨tail, htail, hescape⟩ := escapeChar_cases c
    · have hbytes : bytesOf (escapeChar c) = String.utf8EncodeChar c := by
        rw [hself, bytesOf_singleton]
      rw [hbytes] at hsteps ⊢
      obtain ⟨steps, rfl⟩ := Nat.exists_eq_add_of_le'
        (show (String.utf8EncodeChar c).length ≤ steps by omega)
      rw [scanTextFrom_plain hplain, hmore, ih steps _ _ (by omega), List.append_assoc]
      rfl
    · rw [htail] at hsteps ⊢
      rw [List.length_cons] at hsteps
      obtain ⟨steps, rfl⟩ := Nat.exists_eq_add_of_le' (show 1 ≤ steps by omega)
      rw [List.cons_append, scanTextFrom_escape (hescape _), hmore, ih steps _ _ (by omega),
        List.append_assoc]
      rfl

theorem scanText_escaped (s : String) {steps : Nat} (h : (escaped s.toList).length < steps)
    (rest : List UInt8) :
    scanText steps (escaped s.toList ++ 0x22 :: rest) = (.text s, some rest) := by
  have hread := scanTextFrom_escaped s.toList steps [] rest h
  unfold scanText
  rw [show (bytesOf []).reverse = [] from rfl, List.nil_append, String.ofList_toList] at hread
  rw [hread]

/-! ## Numbers -/

/-- The number that digits add up to behind another. -/
def total (n : Nat) (ds : List UInt8) : Nat :=
  ds.foldl (fun n d => n * 10 + (d.toNat - 0x30)) n

theorem total_cons (n : Nat) (d : UInt8) (ds : List UInt8) :
    total n (d :: ds) = total (n * 10 + (d.toNat - 0x30)) ds := by
  rw [total, List.foldl_cons, total]

theorem le_total (ds : List UInt8) : ∀ n, n ≤ total n ds := by
  induction ds with
  | nil => exact fun n => Nat.le_refl n
  | cons d ds ih =>
    intro n
    have hle := ih (n * 10 + (d.toNat - 0x30))
    rw [total_cons]
    omega

theorem gather_of_lt (ds : List UInt8) :
    ∀ n, total n ds < UInt64.size → gather n ds = (total n ds, ds.length) := by
  induction ds with
  | nil => exact fun n _ => rfl
  | cons d ds ih =>
    intro n h
    rw [total_cons] at h ⊢
    have hle := le_total ds (n * 10 + (d.toNat - 0x30))
    simp only [gather, if_pos (show n * 10 + (d.toNat - 0x30) < UInt64.size by omega), ih _ h,
      List.length_cons]

/-- The bytes of a number. -/
def digits (n : Nat) : List UInt8 :=
  bytesOf (Nat.toDigits 10 n)

theorem encodeChar_digit {c : Char} (h : c.isDigit = true) :
    String.utf8EncodeChar c = [UInt8.ofNat c.toNat] ∧ isDigit (UInt8.ofNat c.toNat) = true ∧
      (UInt8.ofNat c.toNat).toNat = c.toNat :=
  Go.of_isDigit (P := fun c => String.utf8EncodeChar c = [UInt8.ofNat c.toNat] ∧
    isDigit (UInt8.ofNat c.toNat) = true ∧ (UInt8.ofNat c.toNat).toNat = c.toNat) (by decide) h

theorem isDigit_of_mem_digits (n : Nat) : ∀ b ∈ digits n, isDigit b = true := by
  intro b hb
  obtain ⟨c, hc, hb⟩ := List.mem_flatMap.1 hb
  have hdigit := encodeChar_digit (Nat.isDigit_of_mem_toDigits (by decide) (by decide) hc)
  rw [hdigit.1, List.mem_singleton] at hb
  rw [hb]
  exact hdigit.2.1

theorem total_bytesOf {cs : List Char} (h : ∀ c ∈ cs, c.isDigit = true) :
    ∀ n, total n (bytesOf cs) = Nat.ofDigitChars 10 cs n := by
  induction cs with
  | nil => exact fun _ => rfl
  | cons c cs ih =>
    intro n
    obtain ⟨hc, hcs⟩ := List.forall_mem_cons.1 h
    obtain ⟨hbytes, -, hnat⟩ := encodeChar_digit hc
    rw [bytesOf_cons, hbytes, List.singleton_append, total_cons, ih hcs, hnat, Nat.mul_comm]
    rfl

theorem total_digits (n : Nat) : total 0 (digits n) = n := by
  rw [digits, total_bytesOf fun c hc => Nat.isDigit_of_mem_toDigits (by decide) (by decide) hc,
    Nat.ofDigitChars_toDigits (by decide) (by decide)]

/-- What may stand behind a value: nothing, or a comma or a closing bracket. -/
def Ends (rest : List UInt8) : Prop :=
  ∀ b ∈ rest.head?, b = 0x2c ∨ b = 0x5d ∨ b = 0x7d

theorem Ends.cases {rest : List UInt8} (h : Ends rest) :
    rest = [] ∨ ∃ b more, rest = b :: more ∧ (b = 0x2c ∨ b = 0x5d ∨ b = 0x7d) := by
  rcases rest with _ | ⟨b, more⟩
  · exact .inl rfl
  · exact .inr ⟨b, more, rfl, h b rfl⟩

theorem Ends.head_not_digit {rest : List UInt8} (h : Ends rest) :
    (rest.head?.map isDigit).getD false = false := by
  obtain rfl | ⟨b, more, rfl, rfl | rfl | rfl⟩ := h.cases <;> rfl

theorem scanFraction_of_ends {rest : List UInt8} (h : Ends rest) (negative : Bool)
    (whole : List UInt8) :
    scanFraction negative whole rest = (number negative whole [] false 0, some rest) := by
  obtain rfl | ⟨b, more, rfl, rfl | rfl | rfl⟩ := h.cases <;> rfl

theorem takeWhile_isDigit {ds rest : List UInt8} (hds : ∀ b ∈ ds, isDigit b = true)
    (h : Ends rest) :
    (ds ++ rest).takeWhile isDigit = ds ∧ (ds ++ rest).dropWhile isDigit = rest := by
  rw [List.takeWhile_append_of_pos hds, List.dropWhile_append_of_pos hds]
  obtain rfl | ⟨b, more, rfl, rfl | rfl | rfl⟩ := h.cases <;> simp [isDigit]

/-- A number is not written with a zero in front of other digits. -/
theorem digits_eq_cons (n : Nat) :
    ∃ d ds, digits n = d :: ds ∧ isDigit d = true ∧ (d = 0x30 → ds = []) := by
  rcases Nat.eq_zero_or_pos n with rfl | hpos
  · exact ⟨0x30, [], rfl, rfl, fun _ => rfl⟩
  · obtain ⟨c, cs, hcs, hc⟩ := Go.Numeral.toDigits_eq_cons hpos
    have hdigit : c.isDigit = true :=
      Nat.isDigit_of_mem_toDigits (by decide) (by decide) (hcs ▸ List.mem_cons_self)
    obtain ⟨hbytes, hbyte, hnat⟩ := encodeChar_digit hdigit
    refine ⟨UInt8.ofNat c.toNat, bytesOf cs, ?_, hbyte, fun hzero => absurd ?_ hc⟩
    · rw [digits, hcs, bytesOf_cons, hbytes, List.singleton_append]
    · rw [← Char.ofNat_toNat c, ← hnat, hzero]
      rfl

theorem scanNumber_digits (negative : Bool) (n : Nat) {rest : List UInt8} (h : Ends rest) :
    scanNumber negative (digits n ++ rest) =
      (number negative (digits n) [] false 0, some rest) := by
  obtain ⟨d, ds, hds, hdigit, hzero⟩ := digits_eq_cons n
  have hall : ∀ b ∈ ds, isDigit b = true := fun b hb =>
    isDigit_of_mem_digits n b (hds ▸ List.mem_cons_of_mem d hb)
  obtain ⟨htake, hdrop⟩ := takeWhile_isDigit hall h
  rw [hds, List.cons_append, scanNumber]
  by_cases hd : d = 0x30
  · rw [if_pos (beq_iff_eq.2 hd), hzero hd, List.nil_append, h.head_not_digit, if_neg (by simp),
      scanFraction_of_ends h]
  · rw [if_neg (by simpa using hd), if_pos hdigit, htake, hdrop, scanFraction_of_ends h]

theorem gather_digits {n : Nat} (h : n < UInt64.size) :
    gather 0 (digits n) = (n, (digits n).length) := by
  have hgather := gather_of_lt (digits n) 0 (by rwa [total_digits])
  rwa [total_digits] at hgather

theorem number_digits {n : Nat} (h : n < UInt64.size) :
    number false (digits n) [] false 0 = .int n := by
  simp [number, gather_digits h]

theorem number_digits_negative {n : Nat} (hpos : 0 < n) (h : n ≤ 0x8000000000000000) :
    number true (digits n) [] false 0 = .int (-n) := by
  have hfits : n < UInt64.size := Nat.lt_of_le_of_lt h (by decide)
  simp [number, gather_digits hfits, h, Nat.pos_iff_ne_zero.1 hpos]

/-! ## Values -/

/-- The bytes that a value can start with. None of them is a blank or a closing bracket. -/
def opens (b : UInt8) : Bool :=
  b == 0x22 || b == 0x2d || isDigit b || b == 0x6e || b == 0x74 || b == 0x66 || b == 0x5b ||
    b == 0x7b

theorem skipBlanks_of_opens {b : UInt8} (h : opens b = true) (rest : List UInt8) :
    skipBlanks (b :: rest) = b :: rest := by
  have hblank : ¬ (b == 0x20 || b == 0x0a || b == 0x09 || b == 0x0d) = true := by
    simp only [Bool.or_eq_true, beq_iff_eq]
    rintro (((rfl | rfl) | rfl) | rfl) <;> cases h
  exact List.dropWhile_cons_of_neg hblank

mutual

/-- All integers fit 64 bits, with a sign or without. -/
def Fits : Json → Prop
  | int value => -0x8000000000000000 ≤ value ∧ value < UInt64.size
  | array items => FitsItems items
  | object members => FitsMembers members
  | _ => True

def FitsItems : List Json → Prop
  | [] => True
  | item :: items => item.Fits ∧ FitsItems items

def FitsMembers : List (String × Json) → Prop
  | [] => True
  | (_, value) :: members => value.Fits ∧ FitsMembers members

end

theorem fitsItems_of_forall {items : List Json} (h : ∀ item ∈ items, item.Fits) :
    FitsItems items := by
  induction items with
  | nil => trivial
  | cons item items ih =>
    rw [List.forall_mem_cons] at h
    exact ⟨h.1, ih h.2⟩

/-- Texts with a comma in front of each, but for the first if nothing stands before it. -/
def listed : Bool → List String → List UInt8
  | _, [] => []
  | true, s :: ss => encode s ++ listed false ss
  | false, s :: ss => 0x2c :: (encode s ++ listed false ss)

theorem encode_intercalate (ss : List String) :
    encode (",".intercalate ss) = listed true ss := by
  cases ss with
  | nil =>
    rw [String.intercalate_nil, listed, encode_eq_bytesOf]
    rfl
  | cons s ss =>
    induction ss generalizing s with
    | nil => rw [String.intercalate_singleton, listed, listed, List.append_nil]
    | cons t ss ih =>
      rw [String.intercalate_cons_cons, encode_append, encode_append, ih, encode_eq_bytesOf ",",
        List.append_assoc]
      rfl

theorem encode_int (i : Int) :
    encode (toString i) = if i < 0 then 0x2d :: digits i.natAbs else digits i.natAbs := by
  rw [encode_eq_bytesOf]
  rcases i with n | n
  · rw [if_neg (show ¬ Int.ofNat n < 0 from Int.not_lt.2 (Int.natCast_nonneg n))]
    change bytesOf (Nat.repr n).toList = bytesOf _
    rw [Nat.toList_repr]
    rfl
  · rw [if_pos (by omega)]
    change bytesOf ("-" ++ Nat.repr (n + 1)).toList = 0x2d :: bytesOf _
    rw [String.toList_append, Nat.toList_repr]
    rfl

theorem encode_bracketed (s t : String) (ss : List String) :
    encode (s ++ ",".intercalate ss ++ t) = encode s ++ (listed true ss ++ encode t) := by
  rw [encode_append, encode_append, encode_intercalate, List.append_assoc]

theorem encode_array (items : List Json) :
    encode (array items).compact = 0x5b :: (listed true (compactItems items) ++ [0x5d]) := by
  rw [compact, encode_bracketed, encode_eq_bytesOf "[", encode_eq_bytesOf "]"]
  rfl

theorem encode_object (members : List (String × Json)) :
    encode (object members).compact = 0x7b :: (listed true (compactMembers members) ++ [0x7d]) := by
  rw [compact, encode_bracketed, encode_eq_bytesOf "\x7b", encode_eq_bytesOf "\x7d"]
  rfl

theorem encode_member (key : String) (j : Json) :
    encode (quote key ++ ":" ++ j.compact) =
      0x22 :: (escaped key.toList ++ 0x22 :: 0x3a :: encode j.compact) := by
  rw [encode_append, encode_append, encode_quote, encode_eq_bytesOf ":"]
  simp only [List.cons_append, List.append_assoc]
  rfl

theorem scanValue_scalar {b : UInt8} (h : opens b = true) (hlist : b ≠ 0x5b) (hobject : b ≠ 0x7b)
    (steps : Nat) (rest : List UInt8) :
    scanValue (steps + 1) (b :: rest) = scanScalar (steps + 1) (b :: rest) := by
  rw [scanValue.eq_def]
  simp only [skipBlanks_of_opens h]
  split <;> simp_all

theorem scanScalar_digit {b : UInt8} (h : isDigit b = true) (steps : Nat) (rest : List UInt8) :
    scanScalar steps (b :: rest) = scanNumber false (b :: rest) := by
  have hquote : ¬ (b == 0x22) = true := by rintro hb; rw [beq_iff_eq] at hb; subst hb; cases h
  have hminus : ¬ (b == 0x2d) = true := by rintro hb; rw [beq_iff_eq] at hb; subst hb; cases h
  rw [scanScalar, if_neg hquote, if_neg hminus, if_pos h]

theorem exists_compact_eq (j : Json) :
    ∃ b tail, encode j.compact = b :: tail ∧ opens b = true := by
  cases j with
  | null => exact ⟨0x6e, _, encode_eq_bytesOf _, rfl⟩
  | bool value =>
    cases value
    · exact ⟨0x66, _, encode_eq_bytesOf _, rfl⟩
    · exact ⟨0x74, _, encode_eq_bytesOf _, rfl⟩
  | int value =>
    rw [compact, encode_int]
    split_ifs
    · exact ⟨_, _, rfl, rfl⟩
    · obtain ⟨d, ds, hds, hd, -⟩ := digits_eq_cons value.natAbs
      exact ⟨d, ds, hds, by simp [opens, hd]⟩
  | string value => exact ⟨_, _, encode_quote value, rfl⟩
  | array items => exact ⟨_, _, encode_array items, rfl⟩
  | object members => exact ⟨_, _, encode_object members, rfl⟩

theorem length_compact_pos (j : Json) : 0 < (encode j.compact).length := by
  obtain ⟨b, tail, hj, -⟩ := exists_compact_eq j
  rw [hj]
  exact Nat.succ_pos _

theorem scanValue_int {i : Int} (h : (int i).Fits) {rest : List UInt8} (hrest : Ends rest)
    (steps : Nat) :
    scanValue (steps + 1) (encode (int i).compact ++ rest) = (.int i, some rest) := by
  rw [Fits] at h
  rw [compact, encode_int]
  split_ifs with hneg
  · have hread := scanNumber_digits true i.natAbs hrest
    rw [number_digits_negative (by omega) (by omega), show -(i.natAbs : Int) = i by omega] at hread
    rw [List.cons_append, scanValue_scalar rfl (by decide) (by decide)]
    exact hread
  · have hread := scanNumber_digits false i.natAbs hrest
    rw [number_digits (by omega), show (i.natAbs : Int) = i by omega] at hread
    obtain ⟨d, ds, hds, hd, -⟩ := digits_eq_cons i.natAbs
    rw [hds, List.cons_append] at hread ⊢
    rw [scanValue_scalar (by simp [opens, hd]) (by rintro rfl; cases hd) (by rintro rfl; cases hd),
      scanScalar_digit hd, hread]

/-! ## Lists and objects -/

theorem ends_listed (ss : List String) {b : UInt8} (hb : b = 0x5d ∨ b = 0x7d)
    (rest : List UInt8) : Ends (listed false ss ++ b :: rest) := by
  intro a ha
  cases ss with
  | nil =>
    obtain rfl := Option.some.inj ha
    exact .inr hb
  | cons s ss =>
    obtain rfl := Option.some.inj ha
    exact .inl rfl

theorem le_length_listed (first : Bool) (s : String) (ss : List String) :
    (encode s).length + (listed false ss).length ≤ (listed first (s :: ss)).length := by
  cases first <;> simp only [listed, List.length_cons, List.length_append] <;> omega

theorem scanValue_list {steps : Nat} {bytes : List UInt8} {ns : List Node} {ending : Ending}
    {rest : Option (List UInt8)} (h : scanItems steps true bytes = (ns, ending, rest)) :
    scanValue (steps + 1) (0x5b :: bytes) = (.list ns ending, rest) := by
  have hopen : skipBlanks (0x5b :: bytes) = 0x5b :: bytes := rfl
  rw [scanValue.eq_def]
  simp only [hopen, h]

theorem scanValue_object {steps : Nat} {bytes : List UInt8} {ns : List (Node × Node)}
    {ending : Ending} {rest : Option (List UInt8)}
    (h : scanMembers steps true bytes = (ns, ending, rest)) :
    scanValue (steps + 1) (0x7b :: bytes) = (.object ns ending, rest) := by
  have hopen : skipBlanks (0x7b :: bytes) = 0x7b :: bytes := rfl
  rw [scanValue.eq_def]
  simp only [hopen, h]

theorem scanItems_close (steps : Nat) (first : Bool) (rest : List UInt8) :
    scanItems (steps + 1) first (0x5d :: rest) = ([], .closed, some rest) := by
  rw [scanItems.eq_def]
  rfl

theorem scanItems_listed (steps : Nat) (first : Bool) (item : Json) (ss : List String)
    (more : List UInt8) :
    scanItems (steps + 1) first (listed first (item.compact :: ss) ++ more) =
      scanItem steps (encode item.compact ++ (listed false ss ++ more)) := by
  obtain ⟨b, tail, hitem, hopens⟩ := exists_compact_eq item
  have hne : b ≠ 0x5d := by rintro rfl; cases hopens
  rw [scanItems.eq_def]
  cases first with
  | true =>
    simp only [listed, hitem, List.cons_append, List.append_assoc, skipBlanks_of_opens hopens]
    split <;> simp_all
  | false =>
    have hcomma : ∀ bytes, skipBlanks (0x2c :: bytes) = 0x2c :: bytes := fun _ => rfl
    simp only [listed, hitem, List.cons_append, List.append_assoc, hcomma,
      skipBlanks_of_opens hopens]
    split <;> simp_all

theorem scanItem_of {steps : Nat} {bytes more : List UInt8} {n : Node} {ns : List Node}
    {ending : Ending} {rest : Option (List UInt8)} (hvalue : scanValue steps bytes = (n, some more))
    (hitems : scanItems steps false more = (ns, ending, rest)) :
    scanItem (steps + 1) bytes = (n :: ns, ending, rest) := by
  rw [scanItem, hvalue]
  simp only [hitems]

theorem scanMembers_close (steps : Nat) (first : Bool) (rest : List UInt8) :
    scanMembers (steps + 1) first (0x7d :: rest) = ([], .closed, some rest) := by
  rw [scanMembers.eq_def]
  rfl

theorem scanMembers_listed (steps : Nat) (first : Bool) (key : String) (j : Json)
    (ss : List String) (more : List UInt8) :
    scanMembers (steps + 1) first (listed first ((quote key ++ ":" ++ j.compact) :: ss) ++ more) =
      scanMember steps (0x22 :: (escaped key.toList ++
        0x22 :: 0x3a :: (encode j.compact ++ (listed false ss ++ more)))) := by
  rw [scanMembers.eq_def]
  cases first <;>
    simp only [listed, encode_member, List.cons_append, List.append_assoc] <;> rfl

theorem scanMember_of {steps : Nat} {key : String} {bytes more : List UInt8} {n : Node}
    {ns : List (Node × Node)} {ending : Ending} {rest : Option (List UInt8)}
    (hkey : (escaped key.toList).length ≤ steps) (hvalue : scanValue steps bytes = (n, some more))
    (hmembers : scanMembers steps false more = (ns, ending, rest)) :
    scanMember (steps + 1) (0x22 :: (escaped key.toList ++ 0x22 :: 0x3a :: bytes)) =
      ((.text key, n) :: ns, ending, rest) := by
  have hcolon : skipBlanks (0x3a :: bytes) = 0x3a :: bytes := rfl
  rw [scanMember, scanText_escaped key (by omega)]
  simp only [hcolon, hvalue, hmembers]

mutual

/-- The text of a value is read as the value. For each byte that is left there are four steps. -/
theorem scanValue_compact : ∀ (j : Json), j.Fits → ∀ {steps : Nat} {rest : List UInt8}, Ends rest →
    4 * (encode j.compact ++ rest).length < steps →
    scanValue steps (encode j.compact ++ rest) = (j.toNode, some rest)
  | null, _, steps + 1, rest, _, _ => by
    rw [encode_eq_bytesOf, toNode]
    rfl
  | bool value, _, steps + 1, rest, _, _ => by
    cases value <;> rw [encode_eq_bytesOf, toNode] <;> rfl
  | int value, h, steps + 1, rest, hrest, _ => scanValue_int h hrest steps
  | string value, _, steps + 1, rest, _, hsteps => by
    rw [compact, encode_quote] at hsteps ⊢
    simp only [List.length_append, List.length_cons, List.length_nil] at hsteps
    rw [List.cons_append, List.append_assoc, List.singleton_append,
      scanValue_scalar rfl (by decide) (by decide), toNode]
    exact scanText_escaped value (by omega) rest
  | array items, h, steps + 1, rest, _, hsteps => by
    rw [encode_array, List.cons_append, List.append_assoc, List.singleton_append] at hsteps ⊢
    rw [List.length_cons] at hsteps
    exact scanValue_list (scanItems_compact items true h rest (by omega))
  | object members, h, steps + 1, rest, _, hsteps => by
    rw [encode_object, List.cons_append, List.append_assoc, List.singleton_append] at hsteps ⊢
    rw [List.length_cons] at hsteps
    exact scanValue_object (scanMembers_compact members true h rest (by omega))

/-- Two steps lead to the value of an item before a byte of it is read. -/
theorem scanItems_compact : ∀ (items : List Json) (first : Bool), FitsItems items →
    ∀ {steps : Nat} (rest : List UInt8),
    4 * (listed first (compactItems items) ++ 0x5d :: rest).length + 2 < steps →
    scanItems steps first (listed first (compactItems items) ++ 0x5d :: rest) =
      (itemNodes items, .closed, some rest)
  | [], first, _, steps + 1, rest, _ => by
    rw [compactItems, listed, itemNodes]
    exact scanItems_close steps first rest
  | item :: items, first, h, steps + 2, rest, hsteps => by
    rw [FitsItems] at h
    rw [compactItems] at hsteps ⊢
    have hlength := le_length_listed first item.compact (compactItems items)
    have hpos := length_compact_pos item
    rw [List.length_append] at hsteps
    rw [scanItems_listed, itemNodes]
    refine scanItem_of (scanValue_compact item h.1 (ends_listed _ (.inl rfl) rest) ?_)
      (scanItems_compact items false h.2 rest ?_) <;>
      simp only [List.length_append] <;> omega

theorem scanMembers_compact : ∀ (members : List (String × Json)) (first : Bool),
    FitsMembers members → ∀ {steps : Nat} (rest : List UInt8),
    4 * (listed first (compactMembers members) ++ 0x7d :: rest).length + 2 < steps →
    scanMembers steps first (listed first (compactMembers members) ++ 0x7d :: rest) =
      (memberNodes members, .closed, some rest)
  | [], first, _, steps + 1, rest, _ => by
    rw [compactMembers, listed, memberNodes]
    exact scanMembers_close steps first rest
  | (key, j) :: members, first, h, steps + 2, rest, hsteps => by
    rw [FitsMembers] at h
    rw [compactMembers] at hsteps ⊢
    have hlength := le_length_listed first (quote key ++ ":" ++ j.compact) (compactMembers members)
    simp only [encode_member, List.length_append, List.length_cons] at hlength hsteps
    rw [scanMembers_listed, memberNodes]
    refine scanMember_of (by omega) (scanValue_compact j h.1 (ends_listed _ (.inr rfl) rest) ?_)
      (scanMembers_compact members false h.2 rest ?_) <;>
      simp only [List.length_append, List.length_cons] <;> omega

end

/-- A value is read back from its text. -/
theorem read_compact {j : Json} (h : j.Fits) : read (encode j.compact) = ⟨j.toNode, false⟩ := by
  have hends : Ends [] := by simp [Ends]
  have hvalue : scanValue (4 * (encode j.compact).length + 4) (encode j.compact ++ []) =
      (j.toNode, some []) := scanValue_compact j h hends (by simp)
  rw [List.append_nil] at hvalue
  unfold read
  rw [hvalue]
  rfl

end StructPadding.Json
