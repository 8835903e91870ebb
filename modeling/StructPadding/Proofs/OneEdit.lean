import Mathlib.Order.Bounds.Basic
import StructPadding.Proofs.ShortestScript

/-!
# Edits in one place

Lines put in or taken out in one piece make a diff with one block of edits between equal lines
(`compare_insertion`, `compare_deletion`). Where lines are repeated such a change can be read in
more than one place. The equal lines before it are taken as far as they go, so it is found at the
last of these places. What is left of the shorter text then stands at the end of the longer one
(`drop_suffix_drop`), so nothing has to be searched.
-/

namespace StructPadding.Diff

/-! ## Common ends -/

section Ends

variable {α : Type} [DecidableEq α]

theorem commonPrefix_append (a b : List α) : ∀ c : List α,
    commonPrefix (c ++ a) (c ++ b) = c.length + commonPrefix a b
  | [] => by simp
  | x :: c => by
    rw [List.cons_append, List.cons_append, commonPrefix, if_pos rfl, commonPrefix_append a b c,
      List.length_cons]
    omega

theorem commonPrefix_comm : ∀ a b : List α, commonPrefix a b = commonPrefix b a
  | [], [] => rfl
  | [], _ :: _ => by simp [commonPrefix]
  | _ :: _, [] => by simp [commonPrefix]
  | x :: a, y :: b => by
    simp only [commonPrefix, commonPrefix_comm a b, eq_comm (a := x)]

theorem commonSuffix_comm (a b : List α) : commonSuffix a b = commonSuffix b a :=
  commonPrefix_comm _ _

theorem commonSuffix_of_suffix {a b : List α} (h : a <:+ b) : commonSuffix a b = a.length := by
  obtain ⟨c, rfl⟩ := h
  have happend := commonPrefix_append [] c.reverse a.reverse
  rw [List.append_nil] at happend
  rw [commonSuffix, List.reverse_append, happend, List.length_reverse]
  simp [commonPrefix]

/-- The common prefix is the longest there is. -/
theorem isGreatest_commonPrefix (a b : List α) :
    IsGreatest {n | ∃ c, c <+: a ∧ c <+: b ∧ c.length = n} (commonPrefix a b) := by
  constructor
  · refine ⟨a.take (commonPrefix a b), List.take_prefix _ a, ?_, ?_⟩
    · rw [take_commonPrefix]
      exact List.take_prefix _ b
    · exact List.length_take_of_le (commonPrefix_le a b).1
  · rintro n ⟨c, ⟨a', rfl⟩, ⟨b', rfl⟩, rfl⟩
    rw [commonPrefix_append]
    exact Nat.le_add_right _ _

end Ends

/-! ## Nothing left of one list -/

section Edits

variable {α : Type}

theorem length_between (start stop : Nat) (xs : List α) :
    (between start stop xs).length = xs.length - start - stop := by
  rw [between, List.length_take, List.length_drop]
  omega

theorem isEmpty_between_iff {start stop : Nat} {xs : List α} :
    (between start stop xs).isEmpty ↔ xs.length ≤ start + stop := by
  rw [List.isEmpty_iff, ← List.length_eq_zero_iff, length_between]
  omega

variable [DecidableEq α] {a b : List α} {p t : Nat}

theorem edits_insertion (hp : commonPrefix a b = p) (ht : commonSuffix (a.drop p) (b.drop p) = t)
    (ha : a.length ≤ p + t) (fs : Frontiers) :
    (edits a b fs).1 = [⟨.equal, p⟩, ⟨.inserted, b.length - p - t⟩, ⟨.equal, t⟩] := by
  subst hp ht
  rw [edits]
  simp only [isEmpty_between_iff.2 ha, if_true, length_between]
  rfl

theorem edits_deletion (hp : commonPrefix a b = p) (ht : commonSuffix (a.drop p) (b.drop p) = t)
    (ha : p + t < a.length) (hb : b.length ≤ p + t) (fs : Frontiers) :
    (edits a b fs).1 = [⟨.equal, p⟩, ⟨.deleted, a.length - p - t⟩, ⟨.equal, t⟩] := by
  subst hp ht
  have hleft := mt isEmpty_between_iff.1 (Nat.not_le.2 ha)
  rw [edits]
  simp only [hleft, isEmpty_between_iff.2 hb, if_true, length_between]
  rfl

end Edits

theorem normal_one_block {kind : BlockKind} (hkind : kind ≠ .equal) {k : Nat} (hk : k ≠ 0)
    (n m : Nat) : normal [⟨.equal, n⟩, ⟨kind, k⟩, ⟨.equal, m⟩] =
      block .equal n ++ ⟨kind, k⟩ :: block .equal m := by
  cases kind with
  | equal => exact absurd rfl hkind
  | _ =>
    by_cases hn : n = 0 <;> by_cases hm : m = 0 <;>
      simp [normal, normalFrom, block, joinEqual, hn, hm, hk]

/-! ## Lines put in or taken out -/

section Change

variable {α : Type} (front new back : List α)

/-- Behind a common start that takes in the lines before the change, the shorter list ends the
longer one. -/
theorem drop_suffix_drop {p : Nat} (hp : front.length ≤ p) :
    (front ++ back).drop p <:+ (front ++ new ++ back).drop p := by
  have hend : (front ++ back).drop p <:+ front ++ new ++ back := by
    rw [List.drop_append, List.drop_of_length_le hp, List.nil_append]
    exact (List.drop_suffix _ back).trans (List.suffix_append _ back)
  refine List.suffix_of_suffix_length_le hend (List.drop_suffix p _) ?_
  simp only [List.length_drop, List.length_append]
  omega

variable [DecidableEq α] {p : Nat} (hp : commonPrefix (front ++ back) (front ++ new ++ back) = p)

include hp

theorem front_le_commonPrefix : front.length ≤ p := by
  rw [← hp, List.append_assoc, commonPrefix_append]
  exact Nat.le_add_right _ _

theorem commonSuffix_drop : commonSuffix ((front ++ back).drop p) ((front ++ new ++ back).drop p) =
    (front ++ back).length - p := by
  rw [commonSuffix_of_suffix (drop_suffix_drop front new back (front_le_commonPrefix _ _ _ hp)),
    List.length_drop]

/-- The common ends leave the lines that were put in. -/
theorem length_of_ends : p ≤ (front ++ back).length ∧
    (front ++ new ++ back).length - p - ((front ++ back).length - p) = new.length := by
  have hle := (commonPrefix_le (front ++ back) (front ++ new ++ back)).1
  rw [hp] at hle
  simp only [List.length_append] at hle ⊢
  omega

variable {front new back} (hnew : new ≠ [])

include hnew

theorem compare_insertion : compare (front ++ back) (front ++ new ++ back) =
    block .equal p ++ ⟨.inserted, new.length⟩ :: block .equal ((front ++ back).length - p) := by
  have hpos := List.length_pos_iff.2 hnew
  obtain ⟨hle, hlength⟩ := length_of_ends front new back hp
  rw [compare, edits_insertion hp (commonSuffix_drop _ _ _ hp) (by omega), hlength,
    normal_one_block (by simp) (by omega)]

theorem compare_deletion : compare (front ++ new ++ back) (front ++ back) =
    block .equal p ++ ⟨.deleted, new.length⟩ :: block .equal ((front ++ back).length - p) := by
  have hpos := List.length_pos_iff.2 hnew
  obtain ⟨hle, hlength⟩ := length_of_ends front new back hp
  have hsuffix := commonSuffix_drop front new back hp
  rw [commonSuffix_comm] at hsuffix
  rw [commonPrefix_comm] at hp
  rw [compare, edits_deletion hp hsuffix (by omega) (by omega), hlength,
    normal_one_block (by simp) (by omega)]

end Change

theorem touchedFrom_equal (line n : Nat) (s : List Block) :
    touchedFrom line (block .equal n ++ s) = touchedFrom (line + n) s := by
  unfold block
  split_ifs with hn
  · rw [hn]
    rfl
  · rfl

theorem touchedFrom_equal_only (line n : Nat) : touchedFrom line (block .equal n) = [] := by
  rw [← List.append_nil (block .equal n), touchedFrom_equal]
  rfl

/-- Lines put in, or taken out, in one piece touch just these lines, or the one line before them.
The lines before the change are those of the longest common prefix of both texts. -/
theorem changedLines_one_edit {short long : List UInt8} {front new back : List Line}
    (hnew : new ≠ []) (hshort : splitLines short = front ++ back)
    (hlong : splitLines long = front ++ new ++ back) :
    ∃ p, IsGreatest {n | ∃ c, c <+: splitLines short ∧ c <+: splitLines long ∧ c.length = n} p ∧
      front.length ≤ p ∧ changedLines short long = List.range' (p + 1) new.length ∧
      changedLines long short = [p] := by
  have hgreatest := isGreatest_commonPrefix (splitLines short) (splitLines long)
  simp only [changedLines, ofTexts]
  rw [hshort, hlong] at hgreatest ⊢
  refine ⟨_, hgreatest, front_le_commonPrefix _ _ _ rfl, ?_, ?_⟩
  · rw [compare_insertion rfl hnew, touchedFrom_equal, touchedFrom, touchedFrom_equal_only,
      List.append_nil, Nat.zero_add, List.range'_eq_map_range]
  · rw [compare_deletion rfl hnew, touchedFrom_equal, touchedFrom, touchedFrom_equal_only,
      Nat.zero_add]

/-- Any two neighbours among the lines a, b, a, b may be the new ones. The last two are taken. -/
theorem changedLines_one_edit_sliding :
    splitLines [97, 10, 98, 10] = [[97]] ++ [[98]] ∧
      splitLines [97, 10, 98, 10, 97, 10, 98] = [[97]] ++ [[98], [97]] ++ [[98]] ∧
      changedLines [97, 10, 98, 10] [97, 10, 98, 10, 97, 10, 98] = [3, 4] ∧
      changedLines [97, 10, 98, 10, 97, 10, 98] [97, 10, 98, 10] = [2] := by
  have hshort : splitLines [97, 10, 98, 10] = [[97]] ++ [[98]] := by decide
  have hlong : splitLines [97, 10, 98, 10, 97, 10, 98] = [[97]] ++ [[98], [97]] ++ [[98]] := by
    decide
  obtain ⟨p, hp, -, hnew, hold⟩ := changedLines_one_edit (by simp) hshort hlong
  obtain rfl : p = 2 := by
    rw [hp.unique (isGreatest_commonPrefix _ _), hshort, hlong]
    decide
  exact ⟨hshort, hlong, hnew, hold⟩

end StructPadding.Diff
