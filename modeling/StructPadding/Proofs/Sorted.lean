import Mathlib.Data.List.Forall2
import Mathlib.Data.List.Nodup
import Mathlib.Data.List.Pairwise
import StructPadding.Reordering

/-!
# Sorting by size, alignment and name

The proposed order looks at a size, an alignment and a name only, so it sorts fields, descriptors or
anything else that has the three. Sorting is stable and idempotent, it does the same to two lists
that have the same keys (`sortBy_forall₂`), and where the names differ the order of the list makes
no difference (`sortBy_eq_of_perm`).
-/

namespace StructPadding

section

variable {α : Type} (size align : α → Nat) (name : α → String)

/-- Things of no size first, then by falling alignment, falling size and rising name. -/
def orderBy (a b : α) : Ordering :=
  (compare (size b == 0) (size a == 0)).then <|
  (compare (align b) (align a)).then <|
  (compare (size b) (size a)).then <|
  compare (name a) (name b)

def sortBy (as : List α) : List α :=
  as.mergeSort fun a b => (orderBy size align name a b).isLE

instance : Std.TransCmp (orderBy size align name) := by
  have horder : orderBy size align name =
      compareLex (fun a b => compareOn (fun x => size x == 0) b a)
        (compareLex (fun a b => compareOn align b a)
          (compareLex (fun a b => compareOn size b a) (compareOn name))) := rfl
  have hempty : Std.TransCmp fun a b => compareOn (fun x => size x == 0) b a :=
    Std.TransCmp.opposite
  have halign : Std.TransCmp fun a b => compareOn align b a := Std.TransCmp.opposite
  have hsize : Std.TransCmp fun a b => compareOn size b a := Std.TransCmp.opposite
  rw [horder]
  infer_instance

theorem orderBy_total (a b : α) :
    ((orderBy size align name a b).isLE || (orderBy size align name b a).isLE) = true := by
  have hswap : orderBy size align name b a = (orderBy size align name a b).swap :=
    Std.OrientedCmp.eq_swap
  rw [hswap]
  cases orderBy size align name a b <;> rfl

theorem sortBy_pairwise (as : List α) :
    (sortBy size align name as).Pairwise fun a b => (orderBy size align name a b).isLE :=
  List.pairwise_mergeSort (fun _ _ _ => Std.TransCmp.isLE_trans) (orderBy_total size align name) as

theorem sortBy_perm (as : List α) : (sortBy size align name as).Perm as :=
  List.mergeSort_perm as _

theorem sortBy_sortBy (as : List α) :
    sortBy size align name (sortBy size align name as) = sortBy size align name as :=
  List.mergeSort_of_pairwise (sortBy_pairwise size align name as)

variable {size align name} {a b : α}

theorem of_orderBy_isLE (h : (orderBy size align name a b).isLE) :
    size a = 0 ∨ size b ≠ 0 ∧ align b ≤ align a := by
  have hbelow : ∀ x y : Bool, compare x y = .lt → y = true := by decide
  have hsame : ∀ x y : Bool, compare x y = .eq → x = y := by decide
  unfold orderBy at h
  rcases Ordering.isLE_then_iff_or.1 h with hlt | ⟨heq, h⟩
  · exact .inl (beq_iff_eq.1 (hbelow _ _ hlt))
  · by_cases ha : size a = 0
    · exact .inl ha
    · refine .inr ⟨fun hb => ha ?_, ?_⟩
      · exact beq_iff_eq.1 ((hsame _ _ heq).symm.trans (beq_iff_eq.2 hb))
      · rcases Ordering.isLE_then_iff_or.1 h with hlt | ⟨heq, -⟩
        · exact Nat.le_of_lt (Nat.compare_eq_lt.1 hlt)
        · exact Nat.le_of_eq (Nat.compare_eq_eq.1 heq)

theorem tie_of_isLE (hab : (orderBy size align name a b).isLE)
    (hba : (orderBy size align name b a).isLE) : orderBy size align name a b = .eq := by
  have hswap : orderBy size align name b a = (orderBy size align name a b).swap :=
    Std.OrientedCmp.eq_swap
  rw [hswap] at hba
  revert hab hba
  cases orderBy size align name a b <;> simp

/-- Only things of one name tie. -/
theorem name_eq_of_isLE (hab : (orderBy size align name a b).isLE)
    (hba : (orderBy size align name b a).isLE) : name a = name b := by
  have htie := tie_of_isLE hab hba
  simp only [orderBy, Ordering.then_eq_eq] at htie
  exact Std.LawfulEqCmp.eq_of_compare htie.2.2.2

theorem sortBy_eq_of_perm {as bs : List α} (hnames : (as.map name).Nodup) (h : as.Perm bs) :
    sortBy size align name as = sortBy size align name bs := by
  refine List.Perm.eq_of_pairwise ?_ (sortBy_pairwise size align name as)
    (sortBy_pairwise size align name bs)
    ((sortBy_perm size align name as).trans (h.trans (sortBy_perm size align name bs).symm))
  intro a b ha hb hab hba
  have ha' := (sortBy_perm size align name as).mem_iff.1 ha
  have hb' := h.mem_iff.2 ((sortBy_perm size align name bs).mem_iff.1 hb)
  exact List.inj_on_of_nodup_map hnames ha' hb' (name_eq_of_isLE hab hba)

/-- There is only one way to sort things without ties. -/
theorem sortBy_eq_of_strict {as bs : List α} (h : as.Perm bs)
    (hbs : bs.Pairwise fun a b => orderBy size align name a b = .lt) :
    sortBy size align name as = bs := by
  have hne : ∀ a ∈ bs, ∀ b ∈ bs, a ≠ b → orderBy size align name a b ≠ .eq := by
    have : Std.Symm fun a b => orderBy size align name a b ≠ .eq :=
      ⟨fun a b hab heq => hab (Std.OrientedCmp.eq_symm heq)⟩
    have hpairs : bs.Pairwise fun a b => orderBy size align name a b ≠ .eq :=
      hbs.imp fun hlt => by simp [hlt]
    exact fun a ha b hb => hpairs.forall ha hb
  refine List.Perm.eq_of_pairwise ?_ (sortBy_pairwise size align name as)
    (hbs.imp fun hlt => by simp [hlt]) ((sortBy_perm size align name as).trans h)
  intro a b ha hb hab hba
  by_contra hab'
  have ha' := h.mem_iff.1 ((sortBy_perm size align name as).mem_iff.1 ha)
  exact hne a ha' b hb hab' (tie_of_isLE hab hba)

end

/-- Lists with the same keys are sorted alike. -/
theorem sortBy_forall₂ {α β : Type} {size align : α → Nat} {name : α → String}
    {size' align' : β → Nat} {name' : β → String} {R : α → β → Prop}
    (hsize : ∀ a b, R a b → size a = size' b) (halign : ∀ a b, R a b → align a = align' b)
    (hname : ∀ a b, R a b → name a = name' b) {as : List α} {bs : List β}
    (h : List.Forall₂ R as bs) :
    List.Forall₂ R (sortBy size align name as) (sortBy size' align' name' bs) := by
  -- sort the pairs once, by the keys of either side
  obtain ⟨hlen, hR⟩ := List.forall₂_iff_zip.1 h
  have hR' : ∀ p ∈ as.zip bs, R p.1 p.2 := fun p hp => hR hp
  have hfst : (as.zip bs).map Prod.fst = as := List.map_fst_zip (by omega)
  have hsnd : (as.zip bs).map Prod.snd = bs := List.map_snd_zip (by omega)
  have hleft : (sortBy (size ∘ Prod.fst) (align ∘ Prod.fst) (name ∘ Prod.fst) (as.zip bs)).map
      Prod.fst = sortBy size align name as := by
    conv_rhs => rw [← hfst]
    exact List.map_mergeSort fun p _ q _ => rfl
  have hright : (sortBy (size ∘ Prod.fst) (align ∘ Prod.fst) (name ∘ Prod.fst) (as.zip bs)).map
      Prod.snd = sortBy size' align' name' bs := by
    conv_rhs => rw [← hsnd]
    refine List.map_mergeSort fun p hp q hq => ?_
    have hp := hR' p hp
    have hq := hR' q hq
    simp only [orderBy, Function.comp, hsize _ _ hp, hsize _ _ hq, halign _ _ hp, halign _ _ hq,
      hname _ _ hp, hname _ _ hq]
  rw [← hleft, ← hright, List.forall₂_map_left_iff, List.forall₂_map_right_iff, List.forall₂_same]
  exact fun p hp => hR' p ((sortBy_perm _ _ _ _).mem_iff.1 hp)

end StructPadding
