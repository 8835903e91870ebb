import Mathlib.Data.Nat.Digits.Defs
import StructPadding.Proofs.Scanned

/-!
# Integer literals

Which literals are integers, and what they stand for (`Denotes`): digits of a radix after the mark
of the radix, octal digits after a plain zero, or a decimal numeral without a zero in front. A
literal has a value exactly if it denotes one that fits 64 bits (`literal_exact`). The marks are no
octal digits and nothing but zero itself is a decimal numeral that starts with zero, so the forms
exclude each other.
-/

namespace StructPadding.Go

namespace Numeral

/-- The digits of all radices in the order of their values. -/
def row : List Char :=
  ['0', '1', '2', '3', '4', '5', '6', '7', '8', '9', 'a', 'b', 'c', 'd', 'e', 'f']

/-- The value of a digit is its place in the row, which is past the last digit for any other
character. -/
def worth (c : Char) : Nat :=
  row.idxOf c

/-- Digits of a radix, one or more, and the number that they stand for, most significant first. -/
structure Digits (radix : Nat) (cs : List Char) (v : Nat) : Prop where
  nonempty : cs ≠ []
  below : ∀ c ∈ cs, worth c < radix
  value : v = Nat.ofDigits radix (cs.reverse.map worth)

/-- The integers that literals stand for, once they are without underscores and in lower case. -/
inductive Denotes : List Char → Nat → Prop
  | hexadecimal {ds : List Char} {v : Nat} (h : Digits 16 ds v) : Denotes ('0' :: 'x' :: ds) v
  | binary {ds : List Char} {v : Nat} (h : Digits 2 ds v) : Denotes ('0' :: 'b' :: ds) v
  | octal {ds : List Char} {v : Nat} (h : Digits 8 ds v) : Denotes ('0' :: 'o' :: ds) v
  | plainOctal {ds : List Char} {v : Nat} (h : Digits 8 ds v) : Denotes ('0' :: ds) v
  | decimal {ds : List Char} {v : Nat} (h : Digits 10 ds v)
    (hzero : ds = ['0'] ∨ ds.head? ≠ some '0') : Denotes ds v

/-! ## Digits -/

theorem digit?_of_mem {c : Char} (h : c ∈ row) (radix : Nat) :
    digit? radix c = (some (worth c)).filter (· < radix) := by
  have hall : (row.all fun c => (if '0' ≤ c ∧ c ≤ '9' then some (c.toNat - '0'.toNat)
      else if 'a' ≤ c ∧ c ≤ 'z' then some (c.toNat - 'a'.toNat + 10) else none) ==
        some (worth c)) = true := by decide
  unfold digit?
  rw [beq_iff_eq.1 (List.all_eq_true.1 hall c h)]

theorem mem_row {c : Char} (h : 48 ≤ c.toNat ∧ c.toNat ≤ 57 ∨ 97 ≤ c.toNat ∧ c.toNat ≤ 102) :
    c ∈ row := by
  have hall : ∀ n < 103, 48 ≤ n ∧ n ≤ 57 ∨ 97 ≤ n ∧ n ≤ 102 → Char.ofNat n ∈ row := by decide
  have hc := hall c.toNat (by omega) h
  rwa [Char.ofNat_toNat] at hc

theorem digit?_of_notMem {c : Char} (h : c ∉ row) {radix : Nat} (hradix : radix ≤ 16) :
    digit? radix c = none := by
  unfold digit?
  simp only [Char.le_def, UInt32.le_iff_toNat_le]
  split_ifs with hdigit hletter
  · exact absurd (mem_row (.inl hdigit)) h
  · -- letters from `g` on are worth too much
    have hlow : 97 ≤ c.toNat := hletter.1
    have hhigh : ¬c.toNat ≤ 102 := fun hle => h (mem_row (.inr ⟨hlow, hle⟩))
    have ha : 'a'.toNat = 97 := rfl
    rw [Option.filter_some, if_neg]
    simp only [decide_eq_true_eq, ha]
    omega
  · rfl

theorem digit?_eq_some_iff {radix d : Nat} (hradix : radix ≤ 16) {c : Char} :
    digit? radix c = some d ↔ worth c < radix ∧ d = worth c := by
  by_cases hc : c ∈ row
  · rw [digit?_of_mem hc, Option.filter_some]
    by_cases hlt : worth c < radix
    · simp [hlt, eq_comm]
    · simp [hlt]
  · have hlarge : worth c = 16 := List.idxOf_eq_length hc
    rw [digit?_of_notMem hc hradix, hlarge]
    simp only [reduceCtorEq, false_iff]
    omega

/-- The digits read so far stand before those that are left. -/
theorem digits?_eq_some_iff {radix : Nat} (hradix : radix ≤ 16) (v : Nat) :
    ∀ (n : Nat) (cs : List Char), digits? radix n cs = some v ↔
      (∀ c ∈ cs, worth c < radix) ∧
        v = n * radix ^ cs.length + Nat.ofDigits radix (cs.reverse.map worth) := by
  intro n cs
  induction cs generalizing n with
  | nil => simp [digits?, eq_comm]
  | cons c cs ih =>
    have hvalue : n * radix ^ (c :: cs).length + Nat.ofDigits radix ((c :: cs).reverse.map worth) =
        (n * radix + worth c) * radix ^ cs.length + Nat.ofDigits radix (cs.reverse.map worth) := by
      rw [List.reverse_cons, List.map_append, Nat.ofDigits_append]
      simp only [List.map_cons, List.map_nil, List.length_cons, List.length_map,
        List.length_reverse, Nat.ofDigits_singleton]
      ring
    simp only [digits?, bind, Option.bind_eq_some_iff, digit?_eq_some_iff hradix, ih,
      List.forall_mem_cons, hvalue]
    constructor
    · rintro ⟨d, ⟨hc, rfl⟩, hcs, hv⟩
      exact ⟨⟨hc, hcs⟩, hv⟩
    · rintro ⟨⟨hc, hcs⟩, hv⟩
      exact ⟨_, ⟨hc, rfl⟩, hcs, hv⟩

theorem read?_eq_some_iff {radix : Nat} (hradix : radix ≤ 16) {cs : List Char} {v : Nat} :
    read? radix cs = some v ↔ Digits radix cs v ∧ v < UInt64.size := by
  unfold read?
  rcases cs with _ | ⟨c, cs⟩
  · simp only [List.isEmpty_nil, if_true, reduceCtorEq, false_iff]
    exact fun h => h.1.nonempty rfl
  · simp only [List.isEmpty_cons, Bool.false_eq_true, if_false, Option.filter_eq_some_iff,
      digits?_eq_some_iff hradix, decide_eq_true_eq, Nat.zero_mul, Nat.zero_add]
    constructor
    · rintro ⟨⟨hbelow, hv⟩, hlt⟩
      exact ⟨⟨by simp, hbelow, hv⟩, hlt⟩
    · rintro ⟨h, hlt⟩
      exact ⟨⟨h.below, h.value⟩, hlt⟩

/-! ## Forms -/

theorem Digits.worth_lt {radix v : Nat} {c : Char} {cs : List Char}
    (h : Digits radix (c :: cs) v) : worth c < radix :=
  h.below c List.mem_cons_self

/-- Behind a zero stand octal digits, unless the mark of a radix does. -/
theorem denotes_zero_iff {d : Char} {ds : List Char} {v : Nat}
    (hd : d ≠ 'x' ∧ d ≠ 'b' ∧ d ≠ 'o') :
    Denotes ('0' :: d :: ds) v ↔ Digits 8 (d :: ds) v := by
  constructor
  · intro h
    cases h with
    | hexadecimal => exact absurd rfl hd.1
    | binary => exact absurd rfl hd.2.1
    | octal => exact absurd rfl hd.2.2
    | plainOctal h => exact h
    | decimal _ hzero => simp at hzero
  · exact .plainOctal

/-- Behind the mark of a radix stand digits of that radix: the mark is no octal digit. -/
theorem denotes_marked_iff {ds : List Char} {v : Nat} :
    (Denotes ('0' :: 'x' :: ds) v ↔ Digits 16 ds v) ∧
      (Denotes ('0' :: 'b' :: ds) v ↔ Digits 2 ds v) ∧
      (Denotes ('0' :: 'o' :: ds) v ↔ Digits 8 ds v) := by
  refine ⟨⟨fun h => ?_, .hexadecimal⟩, ⟨fun h => ?_, .binary⟩, ⟨fun h => ?_, .octal⟩⟩
  all_goals
    cases h with
    | decimal _ hzero => simp at hzero
    | plainOctal h => exact absurd h.worth_lt (by decide)
    | _ h => exact h

/-- Without a zero in front, or with nothing behind the zero, a literal is decimal. -/
theorem denotes_decimal_iff {ds : List Char} {v : Nat} (hds : ∀ e es, ds ≠ '0' :: e :: es) :
    Denotes ds v ↔ Digits 10 ds v := by
  constructor
  · intro h
    cases h with
    | plainOctal h =>
      rename_i es
      rcases es with _ | ⟨e, es⟩
      · exact absurd rfl h.nonempty
      · exact absurd rfl (hds e es)
    | decimal h => exact h
    | _ => exact absurd rfl (hds _ _)
  · intro h
    refine .decimal h ?_
    rcases ds with _ | ⟨d, _ | ⟨e, es⟩⟩
    · exact absurd rfl h.nonempty
    · by_cases hd : d = '0' <;> simp [hd]
    · refine .inr fun hd => hds e es ?_
      rw [Option.some.inj hd]

theorem value?_eq_some_iff {cs : List Char} {v : Nat} :
    value? cs = some v ↔ Denotes (plain cs) v ∧ v < UInt64.size := by
  unfold value?
  generalize plain cs = ds
  split
  · rw [read?_eq_some_iff (by decide), denotes_marked_iff.1]
  · rw [read?_eq_some_iff (by decide), denotes_marked_iff.2.1]
  · rw [read?_eq_some_iff (by decide), denotes_marked_iff.2.2]
  · next hx hb ho => rw [read?_eq_some_iff (by decide), denotes_zero_iff ⟨hx, hb, ho⟩]
  · next hzero => rw [read?_eq_some_iff (by decide), denotes_decimal_iff hzero]

theorem value?_eq_none_iff {cs : List Char} :
    value? cs = none ↔ ∀ v, Denotes (plain cs) v → UInt64.size ≤ v := by
  rw [Option.eq_none_iff_forall_ne_some]
  refine forall_congr' fun v => ?_
  rw [Ne, value?_eq_some_iff, not_and, Nat.not_lt]

end Numeral

/-- A digit and the letters, digits, underscores and dots behind it are cut from a source as one
literal. Its value is the integer that it denotes without underscores and in lower case. It has no
value if it denotes none, or one that does not fit 64 bits. -/
theorem literal_exact {c : Char} {cs : List Char} (hc : c.isDigit = true)
    (hcs : ∀ d ∈ cs, continuesNumber d = true) :
    (∀ rest : List Char, (∀ d ∈ rest.head?, continuesNumber d = false) →
      firstPiece c (cs ++ rest) =
        .ok (⟨c :: cs, some (.number (Numeral.value? (c :: cs)))⟩, rest)) ∧
    (∀ v, Numeral.value? (c :: cs) = some v ↔
      Numeral.Denotes (Numeral.plain (c :: cs)) v ∧ v < UInt64.size) ∧
    (Numeral.value? (c :: cs) = none ↔
      ∀ v, Numeral.Denotes (Numeral.plain (c :: cs)) v → UInt64.size ≤ v) :=
  ⟨fun _ hrest => firstPiece_number hc hcs hrest, fun _ => Numeral.value?_eq_some_iff,
    Numeral.value?_eq_none_iff⟩

/-- The largest literal that has a value. -/
theorem literal_exact_largest :
    ('0'.isDigit = true ∧
      ∀ d ∈ 'x' :: '_' :: List.replicate 16 'F', continuesNumber d = true) ∧
    Numeral.Denotes (Numeral.plain ('0' :: 'x' :: '_' :: List.replicate 16 'F'))
      0xffffffffffffffff := by
  have hc : '0'.isDigit = true := by decide
  have hcs : ∀ d ∈ 'x' :: '_' :: List.replicate 16 'F', continuesNumber d = true :=
    List.all_eq_true.1 (by decide)
  have hvalue : Numeral.value? ('0' :: 'x' :: '_' :: List.replicate 16 'F') =
      some 0xffffffffffffffff := by decide +kernel
  exact ⟨⟨hc, hcs⟩, (((literal_exact hc hcs).2.1 _).1 hvalue).1⟩

end StructPadding.Go
