import LivingBalancer.Lib.Dict
import LivingBalancer.Lib.Totals

/-!
# Totals by key

A dictionary that adds up a value for each key of some rows, and the sums of its parts: of one
key, of all values, and of groups that are summed one by one.
-/

namespace GroupTotals

open Totals

universe u v w
variable {Row : Type u} {κ : Type w} {M : Type v} [DecidableEq κ] [AddCommMonoid M]
variable {key : Row → κ} {value : Row → M} {rows : List Row} {d : Dict κ M} {k : κ}

/-- `d[k] += v`, from 0. -/
def add (d : Dict κ M) (k : κ) (v : M) : Dict κ M := d.modify k 0 (· + v)

def collect (key : Row → κ) (value : Row → M) (d : Dict κ M) (rows : List Row) : Dict κ M :=
  rows.foldl (fun d x => add d (key x) (value x)) d

theorem add_get (v : M) (k' : κ) :
    (add d k v).get k' = if k' = k then some ((d.get k).getD 0 + v) else d.get k' :=
  Dict.get_modify d k k' 0 _

theorem collect_get : (collect key value d rows).get k =
    if k ∈ rows.map key then
      some ((d.get k).getD 0 + total value (fun x => decide (key x = k)) rows)
    else d.get k := by
  induction rows generalizing d with
  | nil => rfl
  | cons x rows ih =>
    have step : (collect key value d (x :: rows)).get k =
        (collect key value (add d (key x) (value x)) rows).get k := rfl
    rw [step, ih, add_get, total_cons]
    simp only [List.map_cons, List.mem_cons]
    by_cases own : k = key x
    · subst own
      simp only [true_or, if_true, Option.getD_some, decide_true]
      by_cases later : key x ∈ rows.map key
      · rw [if_pos later, add_assoc]
      · have rest : total value (fun y => decide (key y = key x)) rows = 0 :=
          total_none fun y hy => decide_eq_false fun same =>
            later (List.mem_map.mpr ⟨y, hy, same⟩)
        rw [if_neg later, rest, add_zero]
    · simp only [own, Ne.symm own, false_or, if_false, decide_false, Bool.false_eq_true, zero_add]

theorem add_values_sum (v : M) : (add d k v).values.sum = d.values.sum + v := by
  have items : ∀ items : List (κ × M),
      ((Dict.assign k ((Dict.lookup k items).getD 0 + v) items).map Prod.snd).sum =
        (items.map Prod.snd).sum + v := by
    intro items
    induction items with
    | nil => simp [Dict.assign, Dict.lookup]
    | cons p rest ih =>
      by_cases own : p.1 = k
      · simp [Dict.assign, Dict.lookup, own, add_right_comm]
      · simp [Dict.assign, Dict.lookup, own, ih, add_assoc]
  exact items d.items

theorem collect_values_sum :
    (collect key value d rows).values.sum = d.values.sum + (rows.map value).sum := by
  induction rows generalizing d with
  | nil => exact (add_zero _).symm
  | cons x rows ih =>
    have step : collect key value d (x :: rows) = collect key value (add d (key x) (value x)) rows :=
      rfl
    rw [step, ih, add_values_sum, List.map_cons, List.sum_cons, add_assoc]

/-- Groups that are summed one by one are summed together. -/
theorem groups_total (q : κ → Bool) :
    total (fun k => total value (fun x => decide (key x = k)) rows) q (rows.map key).dedup =
      total value (fun x => q (key x)) rows := by
  have owners := @total_owners _ _ _ value _ _ (fun x => some (key x)) (fun _ => true) rows _
    ((List.nodup_dedup (rows.map key)).filter q)
  simp only [Bool.true_and, Option.some.injEq] at owners
  refine Eq.trans owners.symm (total_congr fun x hx => ?_)
  have mem : key x ∈ (rows.map key).dedup := List.mem_dedup.mpr (List.mem_map_of_mem hx)
  simp only [Option.any_some, List.mem_filter, mem, true_and, Bool.decide_eq_true]

theorem total_map_rows {Row' : Type*} {value : Row' → M} {p : Row' → Bool} (f : Row → Row') :
    total value p (rows.map f) = total (fun x => value (f x)) (fun x => p (f x)) rows := by
  rw [total, total, List.filter_map, List.map_map]
  rfl

theorem total_perm {p : Row → Bool} {rows' : List Row} (perm : rows.Perm rows') :
    total value p rows = total value p rows' :=
  ((perm.filter p).map value).sum_eq

end GroupTotals
