import Mathlib.Data.List.MinMax
import Mathlib.Data.List.Sort

/-!
# Choosing by a key

`min(xs, key=...)` is `List.argmin`: the first of the elements with the least key. Where
the key tells the elements apart, neither the choice nor a sort by the key depends on the
order of the list; the elements that share the least key only depend on it by their order.
-/

namespace LeastKey

variable {α κ : Type*} {key : α → κ} {xs ys : List α}

/-- The key tells the elements of a list apart. -/
def Separates (key : α → κ) (xs : List α) : Prop :=
  ∀ a ∈ xs, ∀ b ∈ xs, key a = key b → a = b

theorem Separates.subset (h : Separates key ys) (sub : xs ⊆ ys) : Separates key xs :=
  fun a ha b hb same => h a (sub ha) b (sub hb) same

variable [LinearOrder κ]

theorem argmin_isSome (h : xs ≠ []) : (xs.argmin key).isSome = true := by
  rw [Option.isSome_iff_ne_none]
  exact fun none_ => h (List.argmin_eq_none.mp none_)

/-- The only element of least key is the choice, wherever it stands. -/
theorem argmin_eq_of_unique {a : α} (ha : a ∈ xs) (least : ∀ b ∈ xs, key a ≤ key b)
    (unique : ∀ b ∈ xs, key b = key a → b = a) : xs.argmin key = some a := by
  obtain ⟨m, hm⟩ := Option.isSome_iff_exists.mp (@argmin_isSome _ _ key _ _ (List.ne_nil_of_mem ha))
  have same : key m = key a :=
    le_antisymm (List.le_of_mem_argmin ha hm) (least m (List.argmin_mem hm))
  rw [hm, unique m (List.argmin_mem hm) same]

theorem argmin_perm (separates : Separates key xs) (h : xs.Perm ys) :
    xs.argmin key = ys.argmin key := by
  cases chosen : xs.argmin key with
  | none =>
    rw [List.argmin_eq_none.mp chosen] at h
    rw [h.symm.eq_nil]
    rfl
  | some a =>
    have ha := List.argmin_mem chosen
    refine (argmin_eq_of_unique (h.mem_iff.mp ha) (fun b hb => ?_) fun b hb same => ?_).symm
    · exact List.le_of_mem_argmin (h.mem_iff.mpr hb) chosen
    · exact separates b (h.mem_iff.mpr hb) a ha same

/-- The choice stands first in some order of the list, whichever element of least key it is. -/
theorem argmin_cons {a : α} (least : ∀ b ∈ xs, key a ≤ key b) :
    (a :: xs).argmin key = some a := by
  classical
  rw [List.argmin_eq_some_iff]
  refine ⟨List.mem_cons_self, fun b hb => ?_, fun b hb _ => ?_⟩
  · rcases List.mem_cons.mp hb with same | tail
    · rw [same]
    · exact least b tail
  · rw [List.idxOf_cons_self]
    exact Nat.zero_le _

/-- The elements of least key, in the order of the list. -/
def least (key : α → κ) (xs : List α) : List α :=
  xs.filter fun a => decide ((xs.map key).min? = some (key a))

theorem mem_least {a : α} : a ∈ least key xs ↔ a ∈ xs ∧ ∀ b ∈ xs, key a ≤ key b := by
  rw [least, List.mem_filter, decide_eq_true_eq, List.min?_eq_some_iff]
  refine and_congr_right fun ha => ?_
  constructor
  · exact fun both b hb => both.2 (key b) (List.mem_map_of_mem hb)
  · intro lower
    refine ⟨List.mem_map_of_mem ha, fun k hk => ?_⟩
    obtain ⟨b, hb, rfl⟩ := List.mem_map.mp hk
    exact lower b hb

theorem least_perm (h : xs.Perm ys) : (least key xs).Perm (least key ys) := by
  have same : (xs.map key).min? = (ys.map key).min? := by
    cases lowest : (xs.map key).min? with
    | none =>
      rw [List.min?_eq_none_iff, List.map_eq_nil_iff] at lowest
      subst lowest
      rw [h.symm.eq_nil]
      rfl
    | some k =>
      rw [List.min?_eq_some_iff] at lowest
      refine (List.min?_eq_some_iff.mpr ⟨?_, fun k' hk' => ?_⟩).symm
      · exact (h.map key).mem_iff.mp lowest.1
      · exact lowest.2 k' ((h.map key).mem_iff.mpr hk')
  rw [least, least, same]
  exact h.filter _

theorem least_ne_nil (h : xs ≠ []) : least key xs ≠ [] := by
  obtain ⟨m, hm⟩ := Option.isSome_iff_exists.mp (@argmin_isSome _ _ key _ _ h)
  refine List.ne_nil_of_mem (mem_least.mpr ⟨List.argmin_mem hm, fun b hb => ?_⟩)
  exact List.le_of_mem_argmin hb hm

/-- `xs.sort(key=...)`, which is stable. -/
def sortOn (key : α → κ) (xs : List α) : List α :=
  xs.mergeSort fun a b => decide (key a ≤ key b)

theorem sortOn_perm_self (xs : List α) : (sortOn key xs).Perm xs := List.mergeSort_perm _ _

/-- Elements that share a key keep their order. -/
theorem sortOn_filter (xs : List α) {p : α → Bool} (tied : ∀ a b, p a → p b → key a ≤ key b) :
    (sortOn key xs).filter p = xs.filter p := by
  have inOrder : (xs.filter p).Pairwise fun a b => decide (key a ≤ key b) = true := by
    refine List.pairwise_of_forall_mem_list fun a ha b hb => decide_eq_true ?_
    exact tied a b (List.mem_filter.mp ha).2 (List.mem_filter.mp hb).2
  have kept : (xs.filter p).Sublist (sortOn key xs) := by
    refine List.sublist_mergeSort (fun a b c hab hbc => ?_) (fun a b => ?_) inOrder
      List.filter_sublist
    · rw [decide_eq_true_eq] at hab hbc ⊢
      exact hab.trans hbc
    · rw [Bool.or_eq_true, decide_eq_true_eq, decide_eq_true_eq]
      exact le_total _ _
  have inside := kept.filter p
  rw [List.filter_filter] at inside
  simp only [Bool.and_self] at inside
  exact (inside.eq_of_length (((sortOn_perm_self xs).filter _).length_eq.symm)).symm

theorem sortOn_sorted (xs : List α) : (sortOn key xs).Pairwise fun a b => key a ≤ key b := by
  have sorted : (sortOn key xs).Pairwise fun a b => decide (key a ≤ key b) = true := by
    refine List.pairwise_mergeSort (fun a b c hab hbc => ?_) (fun a b => ?_) xs
    · rw [decide_eq_true_eq] at hab hbc ⊢
      exact hab.trans hbc
    · rw [Bool.or_eq_true, decide_eq_true_eq, decide_eq_true_eq]
      exact le_total _ _
  exact sorted.imp fun h => of_decide_eq_true h

theorem sortOn_perm (separates : Separates key xs) (h : xs.Perm ys) :
    sortOn key xs = sortOn key ys := by
  have perm : (sortOn key xs).Perm (sortOn key ys) :=
    (sortOn_perm_self xs).trans (h.trans (sortOn_perm_self ys).symm)
  refine perm.eq_of_pairwise (fun a b ha hb hab hba => ?_) (sortOn_sorted xs) (sortOn_sorted ys)
  have inXs := (sortOn_perm_self xs).mem_iff.mp ha
  have inYs := h.mem_iff.mpr ((sortOn_perm_self ys).mem_iff.mp hb)
  exact separates a inXs b inYs (le_antisymm hab hba)

/-- `xs or ys` for lists. -/
def firstNonEmpty (xs ys : List α) : List α :=
  match xs with
  | [] => ys
  | x :: rest => x :: rest

theorem firstNonEmpty_nil (ys : List α) : firstNonEmpty [] ys = ys := rfl

theorem firstNonEmpty_of_ne_nil (h : xs ≠ []) (ys : List α) : firstNonEmpty xs ys = xs := by
  cases xs with
  | nil => exact absurd rfl h
  | cons x rest => rfl

theorem firstNonEmpty_ne_nil (h : ys ≠ []) : firstNonEmpty xs ys ≠ [] := by
  by_cases empty : xs = []
  · rw [empty]
    exact h
  · rw [firstNonEmpty_of_ne_nil empty]
    exact empty

theorem firstNonEmpty_subset {zs : List α} (hx : xs ⊆ zs) (hy : ys ⊆ zs) :
    firstNonEmpty xs ys ⊆ zs := by
  cases xs with
  | nil => exact hy
  | cons x rest => exact hx

theorem firstNonEmpty_perm {xs' ys' : List α} (hx : xs.Perm xs') (hy : ys.Perm ys') :
    (firstNonEmpty xs ys).Perm (firstNonEmpty xs' ys') := by
  by_cases empty : xs = []
  · subst empty
    rw [hx.symm.eq_nil]
    exact hy
  · rw [firstNonEmpty_of_ne_nil empty, firstNonEmpty_of_ne_nil fun none_ => empty (by
      rw [none_] at hx
      exact hx.eq_nil)]
    exact hx

end LeastKey
