import Mathlib.Data.List.Basic
import Mathlib.Data.List.Induction

/-!
# First occurrences

`eraseDups` keeps each item at its first occurrence. What it keeps are the items of the list,
once each, in the order of their first occurrences, and this is the only such list.
-/

namespace FirstOccurrence

variable {α : Type*} [DecidableEq α] {xs ys : List α}

theorem eraseDups_concat (xs : List α) (x : α) :
    (xs ++ [x]).eraseDups = if x ∈ xs then xs.eraseDups else xs.eraseDups ++ [x] := by
  rw [List.eraseDups_append]
  by_cases old : x ∈ xs <;> simp [List.removeAll, List.eraseDups_cons, old]

theorem eraseDups_concat_same {x : α} (same : ∀ y ∈ xs, y = x) : (xs ++ [x]).eraseDups = [x] := by
  induction xs using List.reverseRecOn with
  | nil => rfl
  | append_singleton xs y ih =>
    obtain rfl := same y (List.mem_append_right _ List.mem_cons_self)
    rw [eraseDups_concat, if_pos (List.mem_append_right _ List.mem_cons_self)]
    exact ih fun z mem => same z (List.mem_append_left _ mem)

/-- The items of a list, each once and where it occurs first. -/
structure Occurs (xs firsts : List α) : Prop where
  members : ∀ x, x ∈ firsts ↔ x ∈ xs
  ordered : firsts.Pairwise fun x y => xs.idxOf x < xs.idxOf y

theorem occurs_eraseDups (xs : List α) : Occurs xs xs.eraseDups := by
  constructor
  · exact fun x => List.mem_eraseDups
  · induction xs using List.reverseRecOn with
    | nil => exact List.Pairwise.nil
    | append_singleton xs x ih =>
      have same : xs.eraseDups.Pairwise fun a b => (xs ++ [x]).idxOf a < (xs ++ [x]).idxOf b := by
        refine ih.imp_of_mem fun ha hb before => ?_
        rw [List.idxOf_append_of_mem (List.mem_eraseDups.mp ha),
          List.idxOf_append_of_mem (List.mem_eraseDups.mp hb)]
        exact before
      rw [eraseDups_concat]
      by_cases old : x ∈ xs
      · rw [if_pos old]
        exact same
      · rw [if_neg old, List.pairwise_append]
        refine ⟨same, List.pairwise_singleton _ x, fun a ha b hb => ?_⟩
        obtain rfl := List.mem_singleton.mp hb
        have mem := List.mem_eraseDups.mp ha
        have inside := List.idxOf_lt_length_of_mem mem
        rw [List.idxOf_append_of_mem mem, List.idxOf_append_of_notMem old]
        omega

/-! ## Numbers in the order of first occurrences -/

/-- The number of an item, its place among the first occurrences. -/
def rank (xs : List α) (x : α) : ℕ := xs.eraseDups.idxOf x

theorem rank_lt {x : α} (mem : x ∈ xs) : rank xs x < xs.eraseDups.length :=
  List.idxOf_lt_length_of_mem (List.mem_eraseDups.mpr mem)

theorem rank_inj {x y : α} (hx : x ∈ xs) : rank xs x = rank xs y ↔ x = y :=
  List.idxOf_inj (List.mem_eraseDups.mpr hx)

theorem rank_concat_old {x y : α} (mem : y ∈ xs) : rank (xs ++ [x]) y = rank xs y := by
  rw [rank, eraseDups_concat]
  split
  · rfl
  · exact List.idxOf_append_of_mem (List.mem_eraseDups.mpr mem)

theorem rank_concat_new {x : α} (new : x ∉ xs) : rank (xs ++ [x]) x = xs.eraseDups.length := by
  rw [rank, eraseDups_concat, if_neg new,
    List.idxOf_append_of_notMem fun mem => new (List.mem_eraseDups.mp mem)]
  simp

/-- The last item has the next free number exactly when it is new. -/
theorem rank_concat_eq_length {x : α} : rank (xs ++ [x]) x = xs.eraseDups.length ↔ x ∉ xs := by
  constructor
  · intro next mem
    rw [rank_concat_old mem] at next
    exact absurd (rank_lt mem) (by omega)
  · exact rank_concat_new

theorem rank_append {more : List α} {y : α} (mem : y ∈ xs) : rank (xs ++ more) y = rank xs y := by
  induction more using List.reverseRecOn with
  | nil => rw [List.append_nil]
  | append_singleton more x ih =>
    rw [← List.append_assoc, rank_concat_old (List.mem_append_left _ mem), ih]

theorem rank_concat_eq_zero {x : α} : rank (xs ++ [x]) x = 0 ↔ ∀ y ∈ xs.head?, y = x := by
  cases xs with
  | nil => simp [rank, List.eraseDups_cons]
  | cons y rest =>
    have first : rank (y :: rest ++ [x]) y = 0 := by
      rw [List.cons_append, rank, List.eraseDups_cons, List.idxOf_cons_self]
    rw [← first, eq_comm, rank_inj (List.mem_append_left _ List.mem_cons_self)]
    simp

/-- Numbers that answer to their items begin at zero and leave none out. -/
theorem eraseDups_ranks (xs : List α) :
    (xs.map (rank xs)).eraseDups = List.range xs.eraseDups.length := by
  induction xs using List.reverseRecOn with
  | nil => rfl
  | append_singleton xs x ih =>
    have front : xs.map (rank (xs ++ [x])) = xs.map (rank xs) :=
      List.map_congr_left fun y mem => rank_concat_old mem
    have known : rank (xs ++ [x]) x ∈ xs.map (rank xs) ↔ x ∈ xs := by
      rw [← front, List.mem_map]
      constructor
      · rintro ⟨y, mem, equal⟩
        obtain rfl := (rank_inj (List.mem_append_left _ mem)).mp equal
        exact mem
      · exact fun mem => ⟨x, mem, rfl⟩
    rw [List.map_append, List.map_singleton, front, eraseDups_concat, eraseDups_concat, ih]
    by_cases old : x ∈ xs
    · rw [if_pos (known.mpr old), if_pos old]
    · rw [if_neg (mt known.mp old), if_neg old, rank_concat_new old, List.length_append,
        List.length_singleton, List.range_succ]

/-- Items and numbers answer to each other, and the numbers are `0, 1, …` as they come up. -/
structure Numbered (log : List (α × ℕ)) : Prop where
  same : ∀ p ∈ log, ∀ q ∈ log, p.1 = q.1 ↔ p.2 = q.2
  inOrder : (log.map Prod.snd).eraseDups = List.range (log.map Prod.fst).eraseDups.length

variable {log : List (α × ℕ)} {p : α × ℕ}

theorem Numbered.mem_iff (h : Numbered (log ++ [p])) :
    p.1 ∈ log.map Prod.fst ↔ p.2 ∈ log.map Prod.snd := by
  have own : p ∈ log ++ [p] := List.mem_append_right _ List.mem_cons_self
  simp only [List.mem_map]
  constructor
  · rintro ⟨q, hq, equal⟩
    exact ⟨q, hq, (h.same q (List.mem_append_left _ hq) p own).mp equal⟩
  · rintro ⟨q, hq, equal⟩
    exact ⟨q, hq, (h.same q (List.mem_append_left _ hq) p own).mpr equal⟩

/-- Of the last entry: it repeats an item, or it has the next number. -/
theorem Numbered.last (h : Numbered (log ++ [p])) : Numbered log ∧
    (p.1 ∉ log.map Prod.fst → p.2 = (log.map Prod.fst).eraseDups.length) := by
  have same : ∀ q ∈ log, ∀ q' ∈ log, q.1 = q'.1 ↔ q.2 = q'.2 := fun q hq q' hq' =>
    h.same q (List.mem_append_left _ hq) q' (List.mem_append_left _ hq')
  have inOrder := h.inOrder
  rw [List.map_append, List.map_append, List.map_singleton, List.map_singleton,
    eraseDups_concat, eraseDups_concat] at inOrder
  by_cases old : p.1 ∈ log.map Prod.fst
  · rw [if_pos old, if_pos (h.mem_iff.mp old)] at inOrder
    exact ⟨⟨same, inOrder⟩, fun new => absurd old new⟩
  · rw [if_neg old, if_neg (mt h.mem_iff.mpr old), List.length_append, List.length_singleton,
      List.range_succ] at inOrder
    obtain ⟨front, last⟩ := List.append_inj' inOrder rfl
    exact ⟨⟨same, front⟩, fun _ => List.singleton_inj.mp last⟩

theorem Numbered.eq_rank (h : Numbered log) : ∀ q ∈ log, q.2 = rank (log.map Prod.fst) q.1 := by
  induction log using List.reverseRecOn with
  | nil => exact nofun
  | append_singleton log p ih =>
    obtain ⟨front, next⟩ := h.last
    have before : ∀ q ∈ log, q.2 = rank ((log ++ [p]).map Prod.fst) q.1 := by
      intro q hq
      rw [ih front q hq, List.map_append, rank_append (List.mem_map_of_mem hq)]
    intro q hq
    rcases List.mem_append.mp hq with inside | last
    · exact before q inside
    · obtain rfl := List.mem_singleton.mp last
      by_cases old : q.1 ∈ log.map Prod.fst
      · obtain ⟨q', hq', equal⟩ := List.mem_map.mp old
        rw [← (h.same q' (List.mem_append_left _ hq') q hq).mp equal, before q' hq', equal]
      · rw [next old, List.map_append, List.map_singleton, rank_concat_new old]

/-- A list is numbered when every item has its place among the first occurrences. -/
theorem numbered_iff : Numbered log ↔ ∀ q ∈ log, q.2 = rank (log.map Prod.fst) q.1 := by
  constructor
  · exact Numbered.eq_rank
  · intro ranks
    have numbers : log.map Prod.snd = (log.map Prod.fst).map (rank (log.map Prod.fst)) := by
      rw [List.map_map]
      exact List.map_congr_left ranks
    refine ⟨fun q hq q' hq' => ?_, by rw [numbers, eraseDups_ranks]⟩
    rw [ranks q hq, ranks q' hq', rank_inj (List.mem_map_of_mem hq)]

/-- One more entry has the next number if its item is new, and its item's number else. -/
theorem numbered_concat : Numbered (log ++ [p]) ↔
    Numbered log ∧ p.2 = rank (log.map Prod.fst ++ [p.1]) p.1 := by
  rw [numbered_iff, numbered_iff, List.forall_mem_append, List.forall_mem_singleton,
    List.map_append, List.map_singleton]
  refine and_congr_left fun _ => forall_congr' fun q => forall_congr' fun hq => ?_
  rw [rank_append (List.mem_map_of_mem hq)]

end FirstOccurrence
