import Mathlib.Algebra.BigOperators.Group.List.Basic
import Mathlib.Data.List.Dedup
import Mathlib.Data.List.MinMax

/-!
# Totals over the rows of a table

Sums of a value over the rows that pass a test, in any commutative monoid: split by a
second test, moved along a map of the rows, and collected over several owners. A
duplicate group is the rows with one tag; its newest row has the highest id.
-/

namespace Totals

universe u v w
variable {Row : Type u} {M : Type v} [AddCommMonoid M]

def total (value : Row → M) (p : Row → Bool) (rows : List Row) : M :=
  ((rows.filter p).map value).sum

variable {value : Row → M} {p q : Row → Bool} {rows : List Row}

@[simp]
theorem total_nil : total value p [] = 0 := rfl

theorem total_cons (x : Row) (rows : List Row) :
    total value p (x :: rows) = (if p x then value x else 0) + total value p rows := by
  by_cases h : p x
  · simp [total, h]
  · simp [total, h]

theorem total_congr (same : ∀ x ∈ rows, p x = q x) : total value p rows = total value q rows := by
  rw [total, total, List.filter_congr same]

theorem total_none (none : ∀ x ∈ rows, p x = false) : total value p rows = 0 := by
  have empty : rows.filter p = [] := by simpa using none
  rw [total, empty]
  rfl

theorem total_filter : total value p (rows.filter q) = total value (fun x => q x && p x) rows := by
  rw [total, total, List.filter_filter]
  simp only [Bool.and_comm]

theorem total_split (p q : Row → Bool) (rows : List Row) :
    total value (fun x => p x && q x) rows + total value (fun x => p x && !q x) rows =
      total value p rows := by
  induction rows with
  | nil => simp
  | cons x rows ih =>
    rw [total_cons, total_cons, total_cons, ← ih]
    cases p x <;> cases q x <;> simp [add_assoc, add_left_comm]

theorem total_map {g : Row → Row} (same : ∀ x ∈ rows, value (g x) = value x) :
    total value p (rows.map g) = total value (fun x => p (g x)) rows := by
  rw [total, total, List.filter_map, List.map_map]
  refine congrArg List.sum (List.map_congr_left fun x hx => ?_)
  exact same x (List.mem_of_mem_filter hx)

/-! ## Owners -/

section Owners

variable {Owner : Type w} [DecidableEq Owner]

/-- The rows of several owners, owner by owner. -/
theorem total_owners (owner : Row → Option Owner) (p : Row → Bool) (rows : List Row)
    {owners : List Owner} (nodup : owners.Nodup) :
    total value (fun x => p x && (owner x).any (· ∈ owners)) rows =
      (owners.map fun o => total value (fun x => p x && decide (owner x = some o)) rows).sum := by
  induction owners with
  | nil => exact total_none fun x _ => by cases owner x <;> simp
  | cons o owners ih =>
    obtain ⟨fresh, rest⟩ := List.nodup_cons.mp nodup
    rw [List.map_cons, List.sum_cons, ← ih rest, ← total_split _ fun x => decide (owner x = some o)]
    congr 1
    · refine total_congr fun x _ => ?_
      by_cases h : owner x = some o <;> simp [h]
    · refine total_congr fun x _ => ?_
      cases h : owner x with
      | none => simp
      | some o' =>
        by_cases same : o' = o
        · subst same
          simp [fresh]
        · simp [same]

/-- Rows of sums keyed by owner, added to a table of sums by upserts; owners that do not
exist are left out. -/
def upsertAll (present : Owner → Bool) (groups : List (Owner × M)) (sums : Owner → Option M) :
    Owner → Option M :=
  groups.foldl (fun sums g =>
    if present g.1 then Function.update sums g.1 (some ((sums g.1).getD 0 + g.2)) else sums) sums

/-- The grouped totals of the rows. -/
def grouped (owner : Row → Option Owner) (value : Row → M) (p : Row → Bool) (rows : List Row) :
    List (Owner × M) :=
  (((rows.filter p).filterMap owner).dedup).map fun o =>
    (o, total value (fun x => p x && decide (owner x = some o)) rows)

omit [AddCommMonoid M] in
theorem lookup_map_self {f : Owner → M} {o : Owner} (owners : List Owner) :
    (owners.map fun o => (o, f o)).lookup o = if o ∈ owners then some (f o) else none := by
  induction owners with
  | nil => rfl
  | cons o' owners ih =>
    by_cases same : o = o'
    · subst same
      simp
    · simp only [List.map_cons, List.lookup_cons, beq_eq_false_iff_ne.mpr same, ih, List.mem_cons,
        same, false_or]

/-- An owner without a group has no rows. -/
theorem total_eq_zero_of_not_mem {owner : Row → Option Owner} {o : Owner}
    (absent : o ∉ ((rows.filter p).filterMap owner).dedup) :
    total value (fun x => p x && decide (owner x = some o)) rows = 0 := by
  refine total_none fun x hx => ?_
  by_contra counted
  simp only [Bool.not_eq_false, Bool.and_eq_true, decide_eq_true_eq] at counted
  exact absent (List.mem_dedup.mpr (List.mem_filterMap.mpr
    ⟨x, List.mem_filter.mpr ⟨hx, counted.1⟩, counted.2⟩))

theorem lookup_grouped (owner : Row → Option Owner) (p : Row → Bool) (rows : List Row) (o : Owner) :
    ((grouped owner value p rows).lookup o).getD 0 =
      total value (fun x => p x && decide (owner x = some o)) rows := by
  rw [grouped, lookup_map_self]
  split_ifs with member
  · rfl
  · exact (total_eq_zero_of_not_mem member).symm

theorem grouped_eq_nil {owner : Row → Option Owner} (h : grouped owner value p rows = []) {x : Row}
    (hx : x ∈ rows) (counted : p x = true) : owner x = none := by
  rw [grouped, List.map_eq_nil_iff, List.dedup_eq_nil, List.filterMap_eq_nil_iff] at h
  exact h x (List.mem_filter.mpr ⟨hx, counted⟩)

theorem upsertAll_other {present : Owner → Bool} {groups : List (Owner × M)} {o : Owner}
    (other : o ∉ groups.map (·.1)) (sums : Owner → Option M) :
    upsertAll present groups sums o = sums o := by
  induction groups generalizing sums with
  | nil => rfl
  | cons g groups ih =>
    obtain ⟨here, rest⟩ := not_or.mp (fun h => other (List.mem_cons.mpr h))
    rw [upsertAll, List.foldl_cons, ← upsertAll, ih rest]
    split
    · exact Function.update_of_ne here ..
    · rfl

theorem upsertAll_own {present : Owner → Bool} {groups : List (Owner × M)} {o : Owner}
    (exist : present o = true) {m : M} (member : (o, m) ∈ groups)
    (nodup : (groups.map (·.1)).Nodup) (sums : Owner → Option M) :
    (upsertAll present groups sums o).getD 0 = (sums o).getD 0 + m := by
  induction groups generalizing sums with
  | nil => cases member
  | cons g groups ih =>
    obtain ⟨fresh, rest⟩ := List.nodup_cons.mp nodup
    rw [upsertAll, List.foldl_cons, ← upsertAll]
    rcases List.mem_cons.mp member with rfl | later
    · rw [upsertAll_other fresh]
      simp [exist]
    · rw [ih later rest]
      have apart : o ≠ g.1 := by
        rintro rfl
        exact fresh (List.mem_map.mpr ⟨_, later, rfl⟩)
      split
      · rw [Function.update_of_ne apart]
      · rfl

/-- Folding the grouped totals into the table adds each owner's total. -/
theorem upsertAll_grouped {present : Owner → Bool} {o : Owner} (exist : present o = true)
    (owner : Row → Option Owner) (p : Row → Bool) (rows : List Row) (sums : Owner → Option M) :
    (upsertAll present (grouped owner value p rows) sums o).getD 0 =
      (sums o).getD 0 + total value (fun x => p x && decide (owner x = some o)) rows := by
  have keys : (grouped owner value p rows).map (·.1) = ((rows.filter p).filterMap owner).dedup := by
    rw [grouped, List.map_map]
    exact List.map_id _
  by_cases member : o ∈ ((rows.filter p).filterMap owner).dedup
  · refine upsertAll_own exist ?_ (keys ▸ List.nodup_dedup _) sums
    exact List.mem_map.mpr ⟨o, member, rfl⟩
  · rw [upsertAll_other (keys ▸ member), total_eq_zero_of_not_mem member, add_zero]

end Owners

/-! ## Duplicate groups -/

section Newest

variable {Tag : Type w} [DecidableEq Tag]

/-- No row with the tag of `x` has a higher id. -/
def newest (tag : Row → Tag) (id : Row → ℕ) (rows : List Row) (x : Row) : Bool :=
  rows.all fun y => decide (tag y = tag x → id y ≤ id x)

theorem newest_iff {tag : Row → Tag} {id : Row → ℕ} {rows : List Row} {x : Row} :
    newest tag id rows x = true ↔ ∀ y ∈ rows, tag y = tag x → id y ≤ id x := by
  simp only [newest, List.all_eq_true, decide_eq_true_eq]

theorem exists_newest (tag : Row → Tag) (id : Row → ℕ) {x : Row} (hx : x ∈ rows) :
    ∃ y ∈ rows, tag y = tag x ∧ newest tag id rows y = true := by
  let group := rows.filter fun y => decide (tag y = tag x)
  have member : x ∈ group := List.mem_filter.mpr ⟨hx, by simp⟩
  cases hmax : group.argmax id with
  | none =>
    rw [List.argmax_eq_none] at hmax
    rw [hmax] at member
    cases member
  | some y =>
    have hy := List.mem_filter.mp (List.argmax_mem hmax)
    have same : tag y = tag x := by simpa using hy.2
    refine ⟨y, hy.1, same, newest_iff.mpr fun z hz hzy => ?_⟩
    exact List.le_of_mem_argmax (List.mem_filter.mpr ⟨hz, by simp [hzy, same]⟩) hmax

/-- A test on tags keeps duplicate groups whole. -/
theorem newest_filter {tag : Row → Tag} {id : Row → ℕ} {t : Row → Bool} {x : Row}
    (whole : ∀ y ∈ rows, tag y = tag x → t y = true) :
    newest tag id (rows.filter t) x = newest tag id rows x := by
  rw [Bool.eq_iff_iff, newest_iff, newest_iff]
  constructor
  · intro h y hy same
    exact h y (List.mem_filter.mpr ⟨hy, whole y hy same⟩) same
  · intro h y hy same
    exact h y (List.mem_of_mem_filter hy) same

/-- A map that neither joins nor parts the group of `x` keeps its newest row. -/
theorem newest_map {tag : Row → Tag} {id : Row → ℕ} {g : Row → Row} {x : Row}
    (ids : ∀ y, id (g y) = id y) (tags : ∀ y ∈ rows, (tag (g y) = tag (g x) ↔ tag y = tag x)) :
    newest tag id (rows.map g) (g x) = newest tag id rows x := by
  rw [Bool.eq_iff_iff, newest_iff, newest_iff]
  simp only [List.forall_mem_map, ids]
  exact forall₂_congr fun y hy => by rw [tags y hy]

end Newest

end Totals
