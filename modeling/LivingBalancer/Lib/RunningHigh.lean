import LivingBalancer.Lib.Totals
import Mathlib.Algebra.Order.Group.Defs
import Mathlib.Order.Lattice

/-!
# Rises above a running high

Rows fall into groups, and a row rises by what its value exceeds the high of its group so far; the
first row of a group sets the high. The rises of a group add up to its maximum less its first
value, in whatever order the groups interleave.
-/

namespace RunningHigh

open Totals

universe u v v' w
variable {Row : Type u} {κ : Type v} {V : Type w} [DecidableEq κ]

/-- The values of a group, in order. -/
def valuesOf (group : Row → κ) (value : Row → V) (rows : List Row) (k : κ) : List V :=
  (rows.filter fun r => group r = k).map value

theorem valuesOf_cons {group : Row → κ} {value : Row → V} (r : Row) (rest : List Row) (k : κ) :
    valuesOf group value (r :: rest) k =
      if group r = k then value r :: valuesOf group value rest k
      else valuesOf group value rest k := by
  rw [valuesOf]
  by_cases own : group r = k
  · rw [List.filter_cons_of_pos (by simpa using own), if_pos own]
    rfl
  · rw [List.filter_cons_of_neg (by simpa using own), if_neg own]
    rfl

variable [LinearOrder V]

def high (group : Row → κ) (value : Row → V) (rows : List Row) (k : κ) : Option V :=
  (valuesOf group value rows k).max?

theorem high_concat {group : Row → κ} {value : Row → V} (before : List Row) (r : Row) (k : κ) :
    high group value (before ++ [r]) k =
      if group r = k then some ((high group value before k).elim (value r) (max · (value r)))
      else high group value before k := by
  have values : valuesOf group value (before ++ [r]) k =
      valuesOf group value before k ++ if group r = k then [value r] else [] := by
    rw [valuesOf, List.filter_append, List.map_append]
    refine congrArg (_ ++ ·) ?_
    split
    · next own => rw [List.filter_cons_of_pos (by simpa using own)]; rfl
    · next other => rw [List.filter_cons_of_neg (by simpa using other)]; rfl
  rw [high, high, values]
  split
  · cases valuesOf group value before k with
    | nil => rfl
    | cons v vs =>
      rw [List.cons_append, List.max?_cons', List.foldl_append]
      rfl
  · rw [List.append_nil]

variable [AddCommGroup V]

/-- What a row adds to the high of its group. -/
def rise (group : Row → κ) (value : Row → V) (before : List Row) (r : Row) : Option V :=
  (high group value before (group r)).bind fun h =>
    if h < value r then some (value r - h) else none

/-- The rises of the rows after `before`, each with the row that reached it. -/
def risesFrom (group : Row → κ) (value : Row → V) (before : List Row) : List Row → List (Row × V)
  | [] => []
  | r :: rest =>
    match rise group value before r with
    | none => risesFrom group value (before ++ [r]) rest
    | some v => (r, v) :: risesFrom group value (before ++ [r]) rest

def rises (group : Row → κ) (value : Row → V) (rows : List Row) : List (Row × V) :=
  risesFrom group value [] rows

/-- The rises of one group. -/
def risen (group : Row → κ) (k : κ) (found : List (Row × V)) : V :=
  total Prod.snd (fun p => decide (group p.1 = k)) found

variable {group : Row → κ} {value : Row → V}

omit [LinearOrder V] in
theorem risen_cons (p : Row × V) (found : List (Row × V)) (k : κ) :
    risen group k (p :: found) = (if group p.1 = k then p.2 else 0) + risen group k found := by
  rw [risen, total_cons]
  simp only [decide_eq_true_eq]
  rfl

theorem risen_other {before : List Row} {r : Row} {rest : List Row} {k : κ} (other : group r ≠ k) :
    risen group k (risesFrom group value before (r :: rest)) =
      risen group k (risesFrom group value (before ++ [r]) rest) := by
  rw [risesFrom]
  split
  · rfl
  · rw [risen_cons, if_neg other, zero_add]

/-- From a known high on, the rises add up to what the high gains. -/
theorem high_of_some {before rest : List Row} {k : κ} {h : V}
    (known : high group value before k = some h) :
    high group value (before ++ rest) k =
      some (h + risen group k (risesFrom group value before rest)) := by
  induction rest generalizing before h with
  | nil =>
    rw [List.append_nil, known, risesFrom, risen, total_nil, add_zero]
  | cons r rest ih =>
    have split : before ++ r :: rest = before ++ [r] ++ rest := by simp
    have next : high group value (before ++ [r]) k = _ := high_concat before r k
    rw [split]
    by_cases own : group r = k
    · rw [if_pos own, known, Option.elim_some] at next
      rw [ih next, risesFrom, rise, own, known, Option.bind_some]
      by_cases above : h < value r
      · rw [if_pos above, max_eq_right above.le]
        simp only [risen_cons, if_pos own]
        rw [← add_assoc, add_sub_cancel]
      · rw [if_neg above, max_eq_left (not_lt.mp above)]
    · rw [if_neg own, known] at next
      rw [ih next, risen_other own]

theorem high_of_none {before rest : List Row} {k : κ} {first : V}
    (fresh : high group value before k = none)
    (starts : (valuesOf group value rest k).head? = some first) :
    high group value (before ++ rest) k =
      some (first + risen group k (risesFrom group value before rest)) := by
  induction rest generalizing before with
  | nil => cases starts
  | cons r rest ih =>
    have split : before ++ r :: rest = before ++ [r] ++ rest := by simp
    have next : high group value (before ++ [r]) k = _ := high_concat before r k
    rw [valuesOf_cons] at starts
    rw [split]
    by_cases own : group r = k
    · rw [if_pos own, fresh, Option.elim_none] at next
      rw [if_pos own, List.head?_cons, Option.some.injEq] at starts
      rw [high_of_some next, risesFrom, rise, own, fresh, Option.bind_none, starts]
    · rw [if_neg own, fresh] at next
      rw [if_neg own] at starts
      rw [ih next starts, risen_other own]

/-- The rises of a group add up to its maximum less its first value. -/
theorem risen_rises {rows : List Row} {k : κ} {first top : V}
    (starts : (valuesOf group value rows k).head? = some first)
    (greatest : (valuesOf group value rows k).max? = some top) :
    risen group k (rises group value rows) = top - first := by
  have empty : high group value [] k = none := rfl
  have whole := high_of_none empty starts
  rw [List.nil_append, high, greatest, Option.some.injEq] at whole
  rw [whole, add_sub_cancel_left]
  rfl

/-- Only which rows share a group matters, not the names of the groups. -/
theorem risesFrom_relabel {κ' : Type v'} [DecidableEq κ'] {group' : Row → κ'} {before rest : List Row}
    (same : ∀ a ∈ before ++ rest, ∀ b ∈ before ++ rest, group a = group b ↔ group' a = group' b) :
    risesFrom group value before rest = risesFrom group' value before rest := by
  induction rest generalizing before with
  | nil => rfl
  | cons r rest ih =>
    have split : before ++ r :: rest = before ++ [r] ++ rest := by simp
    have highs : high group value before (group r) = high group' value before (group' r) := by
      rw [high, high, valuesOf, valuesOf]
      refine congrArg (fun xs => (List.map value xs).max?) (List.filter_congr fun a ha => ?_)
      exact decide_eq_decide.mpr (same a (List.mem_append_left _ ha) r (by simp))
    rw [risesFrom, risesFrom, rise, rise, highs, ih (split ▸ same)]

end RunningHigh
