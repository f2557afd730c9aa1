import Mathlib.Data.List.MinMax

/-!
# Cutting a list behind the first of several separators

`first` finds the earliest place where one of the separators stands. When none of them stands
in another before its end, more input leaves that place where it is, and a search may resume
near the end of what was searched before.
-/

namespace Separators

universe u
variable {α : Type u} [DecidableEq α] {seps : List (List α)} {sep s : List α} {start : ℕ}

/-- The least index from `start` on at which `sep` stands. -/
def find (sep s : List α) (start : ℕ) : Option ℕ :=
  (List.range' start (s.length + 1 - start)).find? fun i => decide (sep <+: s.drop i)

omit [DecidableEq α] in
theorem end_le {i : ℕ} (some_sep : sep ≠ []) (h : sep <+: s.drop i) : i + sep.length ≤ s.length := by
  have fits := h.length_le
  have sep_pos := List.length_pos_of_ne_nil some_sep
  rw [List.length_drop] at fits
  omega

theorem find_eq_some {i : ℕ} (some_sep : sep ≠ []) :
    find sep s start = some i ↔
      start ≤ i ∧ sep <+: s.drop i ∧ ∀ j, start ≤ j → j < i → ¬ sep <+: s.drop j := by
  rw [find, List.find?_range'_eq_some, List.mem_range'_1, decide_eq_true_eq]
  simp only [Bool.not_eq_true', decide_eq_false_iff_not]
  constructor
  · rintro ⟨here, ⟨low, -⟩, none_before⟩
    exact ⟨low, here, none_before⟩
  · rintro ⟨low, here, none_before⟩
    have inside := end_le some_sep here
    exact ⟨here, ⟨low, by omega⟩, none_before⟩

theorem find_eq_none (some_sep : sep ≠ []) :
    find sep s start = none ↔ ∀ j, start ≤ j → ¬ sep <+: s.drop j := by
  rw [find, List.find?_range'_eq_none]
  simp only [Bool.not_eq_true', decide_eq_false_iff_not]
  constructor
  · intro missing j low here
    have inside := end_le some_sep here
    exact missing j low (by omega) here
  · exact fun missing j low _ => missing j low

/-- A search may begin behind places where nothing stands. -/
theorem find_skip (some_sep : sep ≠ []) (quiet : ∀ j, j < start → ¬ sep <+: s.drop j) :
    find sep s start = find sep s 0 := by
  refine Option.ext fun i => ?_
  rw [find_eq_some some_sep, find_eq_some some_sep]
  constructor
  · rintro ⟨-, here, none_before⟩
    refine ⟨Nat.zero_le i, here, fun j _ hj => ?_⟩
    by_cases early : j < start
    · exact quiet j early
    · exact none_before j (Nat.le_of_not_lt early) hj
  · rintro ⟨-, here, none_before⟩
    refine ⟨?_, here, fun j _ hj => none_before j (Nat.zero_le j) hj⟩
    by_contra early
    exact quiet i (Nat.lt_of_not_le early) here

/-- The earliest place of a separator, with its length. -/
def first (seps : List (List α)) (s : List α) (start : ℕ) : Option (ℕ × ℕ) :=
  (seps.filterMap fun sep => (find sep s start).map fun i => (i, sep.length)).argmin Prod.fst

/-- There is something in every separator, and none of them stands in another before its end. -/
structure Apart (seps : List (List α)) : Prop where
  filled : ∀ sep ∈ seps, sep ≠ []
  apart : ∀ a ∈ seps, ∀ b ∈ seps, ∀ k, k + a.length < b.length → ¬ a <+: b.drop k

theorem mem_places {i n : ℕ} :
    (i, n) ∈ (seps.filterMap fun sep => (find sep s start).map fun i => (i, sep.length)) ↔
      ∃ sep ∈ seps, sep.length = n ∧ find sep s start = some i := by
  simp only [List.mem_filterMap, Option.map_eq_some_iff]
  constructor
  · rintro ⟨sep, mem, i, found, ⟨⟩⟩
    exact ⟨sep, mem, rfl, found⟩
  · rintro ⟨sep, mem, long, found⟩
    exact ⟨sep, mem, i, found, Prod.ext rfl long⟩

theorem first_eq_none (seps_apart : Apart seps) :
    first seps s start = none ↔ ∀ sep ∈ seps, ∀ j, start ≤ j → ¬ sep <+: s.drop j := by
  rw [first, List.argmin_eq_none, List.filterMap_eq_nil_iff]
  simp only [Option.map_eq_none_iff]
  exact forall₂_congr fun sep mem => find_eq_none (seps_apart.filled sep mem)

theorem first_eq_some (seps_apart : Apart seps) {i n : ℕ} :
    first seps s start = some (i, n) ↔
      start ≤ i ∧ (∃ sep ∈ seps, sep.length = n ∧ sep <+: s.drop i) ∧
        ∀ sep ∈ seps, ∀ j, start ≤ j → j < i → ¬ sep <+: s.drop j := by
  constructor
  · intro chosen
    obtain ⟨sep, mem, long, found⟩ := mem_places.mp (List.argmin_mem chosen)
    have here := (find_eq_some (seps_apart.filled sep mem)).mp found
    refine ⟨here.1, ⟨sep, mem, long, here.2.1⟩, fun sep' mem' j low early stands => ?_⟩
    cases found' : find sep' s start with
    | none => exact (find_eq_none (seps_apart.filled sep' mem')).mp found' j low stands
    | some i' =>
      have least := List.le_of_mem_argmin (mem_places.mpr ⟨sep', mem', rfl, found'⟩)
        chosen
      have here' := (find_eq_some (seps_apart.filled sep' mem')).mp found'
      exact here'.2.2 j low (Nat.lt_of_lt_of_le early least) stands
  · rintro ⟨low, ⟨sep, mem, rfl, here⟩, none_before⟩
    cases chosen : first seps s start with
    | none => exact absurd here ((first_eq_none seps_apart).mp chosen sep mem i low)
    | some place =>
      obtain ⟨i', n'⟩ := place
      obtain ⟨sep', mem', long, found'⟩ := mem_places.mp (List.argmin_mem chosen)
      have here' := (find_eq_some (seps_apart.filled sep' mem')).mp found'
      have found : find sep s start = some i :=
        (find_eq_some (seps_apart.filled sep mem)).mpr ⟨low, here, none_before sep mem⟩
      have least := List.le_of_mem_argmin (mem_places.mpr ⟨sep, mem, rfl, found⟩) chosen
      obtain rfl : i' = i :=
        (Nat.lt_or_eq_of_le least).resolve_left fun early =>
          none_before sep' mem' i' here'.1 early here'.2.1
      -- two separators at one place: neither may end before the other does
      have shorter := seps_apart.apart sep mem sep' mem' 0
      have longer := seps_apart.apart sep' mem' sep mem 0
      rw [List.drop_zero, Nat.zero_add] at shorter longer
      have length_eq : sep'.length = sep.length := by
        rcases Nat.lt_trichotomy sep.length sep'.length with less | same_length | more
        · exact absurd (List.prefix_of_prefix_length_le here here'.2.1 less.le) (shorter less)
        · exact same_length.symm
        · exact absurd (List.prefix_of_prefix_length_le here'.2.1 here more.le) (longer more)
      exact congrArg some (Prod.ext rfl (long.symm.trans length_eq))

/-- More input leaves the earliest separator where it is. -/
theorem first_append (seps_apart : Apart seps) {i n : ℕ} (h : first seps s start = some (i, n))
    (t : List α) : first seps (s ++ t) start = some (i, n) := by
  rw [first_eq_some seps_apart] at h ⊢
  obtain ⟨low, ⟨sep, mem, long, here⟩, none_before⟩ := h
  have inside := end_le (seps_apart.filled sep mem) here
  have here' : sep <+: (s ++ t).drop i := by
    rw [List.drop_append_of_le_length (by omega)]
    exact here.trans (List.prefix_append _ t)
  refine ⟨low, ⟨sep, mem, long, here'⟩, fun sep' mem' j low' early stands => ?_⟩
  have stands' := stands
  rw [List.drop_append_of_le_length (by omega)] at stands
  by_cases complete : sep'.length ≤ (s.drop j).length
  · refine none_before sep' mem' j low' early ?_
    exact List.prefix_of_prefix_length_le stands (List.prefix_append _ t) complete
  · -- a separator that reaches into `t` would hold the one found in `s`
    rw [List.length_drop] at complete
    refine seps_apart.apart sep mem sep' mem' (i - j) (by omega) ?_
    have later : sep'.drop (i - j) <+: (s ++ t).drop i := by
      obtain ⟨u, hu⟩ := stands'
      have shifted := congrArg (List.drop (i - j)) hu
      rw [List.drop_drop, Nat.add_sub_cancel' early.le,
        List.drop_append_of_le_length (by omega)] at shifted
      exact ⟨u, shifted⟩
    refine List.prefix_of_prefix_length_le here' later ?_
    rw [List.length_drop]
    omega

/-- What was searched without a find need not be searched again, up to the last places where a
separator may have begun. -/
theorem first_resume (filled : ∀ sep ∈ seps, sep ≠ []) {overlap scanned : ℕ}
    (short : ∀ sep ∈ seps, sep.length ≤ overlap + 1)
    (quiet : ∀ sep ∈ seps, ∀ j, ¬ sep <+: (s.take scanned).drop j) :
    first seps s (scanned - overlap) = first seps s 0 := by
  have each : ∀ sep ∈ seps, find sep s (scanned - overlap) = find sep s 0 := by
    intro sep mem
    refine find_skip (filled sep mem) fun j early here => ?_
    refine quiet sep mem j ?_
    have bound := short sep mem
    rw [List.drop_take]
    exact List.prefix_take_iff.mpr ⟨here, by omega⟩
  rw [first, first]
  refine congrArg (List.argmin Prod.fst) (List.filterMap_congr fun sep mem => ?_)
  rw [each sep mem]

/-! ## Events -/

/-- What stands up to the end of the first separator, and what stands behind it. -/
def pop (seps : List (List α)) (s : List α) : Option (List α × List α) :=
  (first seps s 0).map fun place => (s.take (place.1 + place.2), s.drop (place.1 + place.2))

theorem pop_eq_some {event rest : List α} (h : pop seps s = some (event, rest)) :
    s = event ++ rest := by
  obtain ⟨place, -, heq⟩ := Option.map_eq_some_iff.mp h
  cases heq
  exact (List.take_append_drop _ s).symm

theorem pop_of_first (h : first seps s 0 = some (i, n)) :
    pop seps s = some (s.take (i + n), s.drop (i + n)) := by
  rw [pop, h]
  rfl

theorem pop_eq_none : pop seps s = none ↔ first seps s 0 = none := Option.map_eq_none_iff

theorem pop_append (seps_apart : Apart seps) {event rest : List α}
    (h : pop seps s = some (event, rest)) (t : List α) :
    pop seps (s ++ t) = some (event, rest ++ t) := by
  obtain ⟨⟨i, n⟩, found, heq⟩ := Option.map_eq_some_iff.mp h
  cases heq
  obtain ⟨-, ⟨sep, mem, rfl, here⟩, -⟩ := (first_eq_some seps_apart).mp found
  have inside := end_le (seps_apart.filled sep mem) here
  rw [pop_of_first (first_append seps_apart found t), List.take_append_of_le_length inside,
    List.drop_append_of_le_length inside]

theorem pop_filled (seps_apart : Apart seps) {event rest : List α}
    (h : pop seps s = some (event, rest)) : event ≠ [] := by
  obtain ⟨⟨i, n⟩, found, heq⟩ := Option.map_eq_some_iff.mp h
  cases heq
  obtain ⟨-, ⟨sep, mem, rfl, here⟩, -⟩ := (first_eq_some seps_apart).mp found
  have inside := end_le (seps_apart.filled sep mem) here
  have sep_pos := List.length_pos_of_ne_nil (seps_apart.filled sep mem)
  refine List.ne_nil_of_length_pos ?_
  rw [List.length_take]
  omega

theorem pop_shorter (seps_apart : Apart seps) {event rest : List α}
    (h : pop seps s = some (event, rest)) : rest.length < s.length := by
  have filled := List.length_pos_of_ne_nil (pop_filled seps_apart h)
  have whole := congrArg List.length (pop_eq_some h)
  rw [List.length_append] at whole
  omega

/-- An element at which no separator begins belongs to the first event. -/
theorem pop_cons (seps_apart : Apart seps) {x : α} (none_here : ∀ sep ∈ seps, ¬ sep <+: x :: s) :
    pop seps (x :: s) = (pop seps s).map fun parts => (x :: parts.1, parts.2) := by
  cases found : first seps s 0 with
  | none =>
    rw [pop_eq_none.mpr found, Option.map_none, pop_eq_none, first_eq_none seps_apart]
    rw [first_eq_none seps_apart] at found
    intro sep mem j _
    cases j with
    | zero => exact none_here sep mem
    | succ j => exact found sep mem j (Nat.zero_le j)
  | some place =>
    obtain ⟨i, n⟩ := place
    rw [pop_of_first found]
    rw [first_eq_some seps_apart] at found
    obtain ⟨-, stands, none_before⟩ := found
    have later : first seps (x :: s) 0 = some (i + 1, n) := by
      refine (first_eq_some seps_apart).mpr ⟨Nat.zero_le _, stands, fun sep mem j _ early => ?_⟩
      cases j with
      | zero => exact none_here sep mem
      | succ j => exact none_before sep mem j (Nat.zero_le j) (Nat.lt_of_succ_lt_succ early)
    rw [pop_of_first later, Nat.add_right_comm]
    rfl

/-- An event that is complete only with more input ends in what was added. -/
theorem pop_longer (seps_apart : Apart seps) {t event rest : List α} (open_ : pop seps s = none)
    (h : pop seps (s ++ t) = some (event, rest)) : s.length < event.length := by
  by_contra short
  have whole := pop_eq_some h
  obtain ⟨added, rfl⟩ : event <+: s :=
    List.prefix_of_prefix_length_le ⟨rest, whole.symm⟩ (List.prefix_append s t)
      (Nat.le_of_not_lt short)
  obtain ⟨⟨i, n⟩, found, heq⟩ := Option.map_eq_some_iff.mp h
  obtain ⟨-, ⟨sep, mem, rfl, here⟩, -⟩ := (first_eq_some seps_apart).mp found
  have inside := end_le (seps_apart.filled sep mem) here
  have end_eq : i + sep.length = event.length := by
    have taken := congrArg List.length (Prod.ext_iff.mp heq).1
    rw [List.length_take] at taken
    dsimp only at taken
    omega
  refine (first_eq_none seps_apart).mp (pop_eq_none.mp open_) sep mem i (Nat.zero_le i) ?_
  refine List.prefix_of_prefix_length_le here ?_ ?_
  · have before : i ≤ (event ++ added).length := by
      rw [List.length_append]
      omega
    rw [List.drop_append_of_le_length before]
    exact List.prefix_append _ t
  · rw [List.length_drop, List.length_append]
    omega

/-- The events of `s`, popped one after another, and the rest with no separator in it. -/
inductive Popped (seps : List (List α)) : List α → List (List α) → List α → Prop where
  | rest {s : List α} : pop seps s = none → Popped seps s [] s
  | event {s event tail : List α} {events : List (List α)} {rest : List α} :
      pop seps s = some (event, tail) → Popped seps tail events rest →
      Popped seps s (event :: events) rest

theorem Popped.exists (seps_apart : Apart seps) (s : List α) :
    ∃ events rest, Popped seps s events rest := by
  induction size : s.length using Nat.strongRecOn generalizing s with
  | ind n ih =>
    cases h : pop seps s with
    | none => exact ⟨[], s, .rest h⟩
    | some found =>
      obtain ⟨event, tail⟩ := found
      obtain ⟨events, rest, popped⟩ := ih tail.length (size ▸ pop_shorter seps_apart h) tail rfl
      exact ⟨event :: events, rest, .event h popped⟩

theorem Popped.join {events : List (List α)} {rest : List α} (h : Popped seps s events rest) :
    events.flatten ++ rest = s := by
  induction h with
  | rest => rfl
  | event found _ ih => rw [List.flatten_cons, List.append_assoc, ih, ← pop_eq_some found]

/-- Complete events in front of more input are its first events. -/
theorem Popped.concat (seps_apart : Apart seps) {blocks : List (List α)}
    (complete : ∀ block ∈ blocks, pop seps block = some (block, [])) {events : List (List α)}
    {rest : List α} (h : Popped seps s events rest) :
    Popped seps (blocks.flatten ++ s) (blocks ++ events) rest := by
  induction blocks with
  | nil => exact h
  | cons block blocks ih =>
    obtain ⟨here, later⟩ := List.forall_mem_cons.mp complete
    rw [List.flatten_cons, List.append_assoc, List.cons_append]
    exact .event (pop_append seps_apart here _) (ih later)

end Separators
