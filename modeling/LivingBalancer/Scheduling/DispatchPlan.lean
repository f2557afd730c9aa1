import Mathlib.Data.List.Nodup
import Mathlib.Data.List.Perm.Subperm
import Mathlib.Data.List.Range
import LivingBalancer.Lib.FirstOccurrence

/-!
# The dispatch plan of an automation

`_build_dispatch_plan` and `_pick_dispatch_offsets_seconds`: the accounts of a job spread over
the window behind its due slot, one of them at the slot itself. The generator is a parameter
that draws as `random.Random` documents. Instants are in microseconds.
-/

namespace Automations

open FirstOccurrence

/-- `random.Random`: drawing moves its state on. -/
structure Random (State : Type) where
  seeded : String → State
  sample : List ℕ → ℕ → State → List ℕ × State
  shuffle : List ℕ → State → List ℕ × State
  choice : List ℕ → State → ℕ × State
  /-- As many as asked for, at different places of the population. -/
  sample_subperm : ∀ population k s, k ≤ population.length →
    (sample population k s).1.length = k ∧ (sample population k s).1.Subperm population
  shuffle_perm : ∀ xs s, (shuffle xs s).1.Perm xs
  choice_mem : ∀ xs s, xs ≠ [] → (choice xs s).1 ∈ xs

variable {State : Type} (rng : Random State) (isoformat : ℤ → String)

/-- `offsets.append(rng.choice(...))`, so many times. -/
def appendChoices (available : List ℕ) : ℕ → List ℕ → State → List ℕ × State
  | 0, offsets, s => (offsets, s)
  | n + 1, offsets, s =>
    appendChoices available n (offsets ++ [(rng.choice available s).1]) (rng.choice available s).2

/-- `_pick_dispatch_offsets_seconds`. -/
def pickDispatchOffsetsSeconds (jobId : String) (dueSlot : ℤ) (accountCount : ℕ)
    (thresholdMinutes : ℤ) : List ℕ :=
  if accountCount = 0 then []
  else if thresholdMinutes ≤ 0 then List.replicate accountCount 0
  else
    let maxOffsetSeconds := (thresholdMinutes * 60).toNat
    let availableNonZeroOffsets := List.range' 1 maxOffsetSeconds
    let s := rng.seeded (jobId ++ ":" ++ isoformat dueSlot)
    if accountCount = 1 then [0]
    else
      let requestedNonZeroOffsets := accountCount - 1
      if requestedNonZeroOffsets ≤ availableNonZeroOffsets.length then
        let (sampled, s) := rng.sample availableNonZeroOffsets requestedNonZeroOffsets s
        (rng.shuffle (0 :: sampled) s).1
      else
        let (offsets, s) := rng.shuffle (0 :: availableNonZeroOffsets) s
        let (offsets, s) := appendChoices rng availableNonZeroOffsets
          (requestedNonZeroOffsets - availableNonZeroOffsets.length) offsets s
        (rng.shuffle offsets s).1

/-- `timedelta(seconds=n)`. -/
def seconds (n : ℕ) : ℤ := 1000000 * n

/-- `_build_dispatch_plan`; `list(dict.fromkeys(account_ids))` keeps first occurrences. -/
def buildDispatchPlan (jobId : String) (dueSlot : ℤ) (accountIds : List String)
    (thresholdMinutes : ℤ) : List (String × ℤ) :=
  let dedupedAccountIds := accountIds.eraseDups
  if dedupedAccountIds = [] then []
  else
    let offsets := pickDispatchOffsetsSeconds rng isoformat jobId dueSlot dedupedAccountIds.length
      thresholdMinutes
    (dedupedAccountIds.zip offsets).map fun p => (p.1, dueSlot + seconds p.2)

/-! ## Offsets -/

/-- One offset for each account, all within the window and one of them none. -/
structure Spread (accountCount window : ℕ) (offsets : List ℕ) : Prop where
  length : offsets.length = accountCount
  within : ∀ n ∈ offsets, n ≤ window
  slot : 0 ∈ offsets
  apart : accountCount ≤ window + 1 → offsets.Nodup
  filled : window + 1 < accountCount → ∀ n ≤ window, n ∈ offsets

variable {accountCount window : ℕ} {offsets offsets' : List ℕ}

theorem Spread.perm (h : Spread accountCount window offsets) (perm : offsets'.Perm offsets) :
    Spread accountCount window offsets' where
  length := perm.length_eq.trans h.length
  within n mem := h.within n (perm.mem_iff.mp mem)
  slot := perm.mem_iff.mpr h.slot
  apart few := perm.nodup_iff.mpr (h.apart few)
  filled many n small := perm.mem_iff.mpr (h.filled many n small)

theorem spread_replicate (positive : 0 < accountCount) :
    Spread accountCount 0 (List.replicate accountCount 0) where
  length := List.length_replicate
  within n mem := by
    rw [List.eq_of_mem_replicate mem]
  slot := by
    rw [List.mem_replicate]
    exact ⟨Nat.ne_of_gt positive, rfl⟩
  apart few := by
    obtain rfl : accountCount = 1 := by omega
    exact List.nodup_singleton 0
  filled many n small := by
    obtain rfl : n = 0 := by omega
    rw [List.mem_replicate]
    exact ⟨Nat.ne_of_gt positive, rfl⟩

theorem spread_single (window : ℕ) : Spread 1 window [0] where
  length := rfl
  within n mem := by
    rw [List.mem_singleton.mp mem]
    exact Nat.zero_le window
  slot := List.mem_singleton_self 0
  apart _ := List.nodup_singleton 0
  filled many := by omega

theorem mem_available {window n : ℕ} : n ∈ List.range' 1 window ↔ 1 ≤ n ∧ n ≤ window := by
  rw [List.mem_range'_1]
  omega

theorem spread_sampled {sampled : List ℕ} (positive : 0 < accountCount)
    (length : sampled.length = accountCount - 1) (few : accountCount ≤ window + 1)
    (sub : sampled.Subperm (List.range' 1 window)) : Spread accountCount window (0 :: sampled) where
  length := by
    rw [List.length_cons]
    omega
  within n mem := by
    rcases List.mem_cons.mp mem with rfl | drawn
    · exact Nat.zero_le window
    · exact (mem_available.mp (sub.subset drawn)).2
  slot := List.mem_cons_self
  apart _ := by
    obtain ⟨drawn, perm, sublist⟩ := sub
    refine List.nodup_cons.mpr ⟨fun zero => ?_, ?_⟩
    · have := (mem_available.mp (sublist.subset (perm.mem_iff.mpr zero))).1
      omega
    · exact perm.nodup_iff.mp (List.Nodup.sublist sublist List.nodup_range')
  filled many := by omega

theorem appendChoices_spec (available : List ℕ) (n : ℕ) (offsets : List ℕ) (s : State)
    (some_ : available ≠ []) :
    ∃ drawn, (appendChoices rng available n offsets s).1 = offsets ++ drawn ∧ drawn.length = n ∧
      drawn ⊆ available := by
  induction n generalizing offsets s with
  | zero => exact ⟨[], (List.append_nil _).symm, rfl, List.nil_subset _⟩
  | succ n ih =>
    obtain ⟨drawn, whole, length, sub⟩ := ih (offsets ++ [(rng.choice available s).1])
      (rng.choice available s).2
    refine ⟨(rng.choice available s).1 :: drawn, ?_, ?_, ?_⟩
    · rw [appendChoices, whole, List.append_assoc]
      rfl
    · rw [List.length_cons, length]
    · exact List.cons_subset.mpr ⟨rng.choice_mem available s some_, sub⟩

theorem spread_filled {shuffled drawn : List ℕ}
    (perm : shuffled.Perm (0 :: List.range' 1 window)) (length : drawn.length + window + 1 = accountCount)
    (many : window + 1 < accountCount) (sub : drawn ⊆ List.range' 1 window) :
    Spread accountCount window (shuffled ++ drawn) where
  length := by
    rw [List.length_append, perm.length_eq, List.length_cons, List.length_range']
    omega
  within n mem := by
    rcases List.mem_append.mp mem with every | again
    · rcases List.mem_cons.mp (perm.mem_iff.mp every) with rfl | later
      · exact Nat.zero_le window
      · exact (mem_available.mp later).2
    · exact (mem_available.mp (sub again)).2
  slot := List.mem_append_left _ (perm.mem_iff.mpr List.mem_cons_self)
  apart few := by omega
  filled _ n small := by
    apply List.mem_append_left
    rw [perm.mem_iff]
    by_cases zero : n = 0
    · rw [zero]
      exact List.mem_cons_self
    · exact List.mem_cons_of_mem _ (mem_available.mpr (by omega))

theorem pickDispatchOffsetsSeconds_spread (jobId : String) (dueSlot : ℤ)
    (positive : 0 < accountCount) (thresholdMinutes : ℤ) :
    Spread accountCount (thresholdMinutes * 60).toNat
      (pickDispatchOffsetsSeconds rng isoformat jobId dueSlot accountCount thresholdMinutes) := by
  rw [pickDispatchOffsetsSeconds, if_neg (Nat.ne_of_gt positive)]
  by_cases none_ : thresholdMinutes ≤ 0
  · have empty : (thresholdMinutes * 60).toNat = 0 := by omega
    rw [if_pos none_, empty]
    exact spread_replicate positive
  · have open_ : 0 < (thresholdMinutes * 60).toNat := by omega
    generalize (thresholdMinutes * 60).toNat = window at open_
    rw [if_neg none_]
    by_cases single : accountCount = 1
    · subst single
      simp only [if_true]
      exact spread_single window
    · simp only [if_neg single, List.length_range']
      by_cases few : accountCount - 1 ≤ window
      · rw [if_pos few]
        obtain ⟨length, sub⟩ := rng.sample_subperm (List.range' 1 window) (accountCount - 1)
          (rng.seeded (jobId ++ ":" ++ isoformat dueSlot)) (by simpa using few)
        exact (spread_sampled positive length (by omega) sub).perm (rng.shuffle_perm _ _)
      · rw [if_neg few]
        have some_ : List.range' 1 window ≠ [] :=
          List.ne_nil_of_mem (mem_available.mpr ⟨Nat.le_refl 1, open_⟩)
        obtain ⟨drawn, whole, length, sub⟩ := appendChoices_spec rng (List.range' 1 window)
          (accountCount - 1 - window)
          (rng.shuffle (0 :: List.range' 1 window)
            (rng.seeded (jobId ++ ":" ++ isoformat dueSlot))).1
          (rng.shuffle (0 :: List.range' 1 window)
            (rng.seeded (jobId ++ ":" ++ isoformat dueSlot))).2 some_
        refine Spread.perm ?_ (rng.shuffle_perm _ _)
        rw [whole]
        exact spread_filled (rng.shuffle_perm _ _) (by omega) (by omega) sub

/-! ## Plans -/

theorem seconds_injective : Function.Injective seconds := by
  intro m n same
  rw [seconds, seconds] at same
  omega

/-- Without accounts there is no run, so none at the due slot. -/
theorem buildDispatchPlan_empty (jobId : String) (dueSlot thresholdMinutes : ℤ) :
    buildDispatchPlan rng isoformat jobId dueSlot [] thresholdMinutes = [] := rfl

theorem buildDispatchPlan_zip {accountIds : List String} (some_ : accountIds ≠ [])
    (jobId : String) (dueSlot thresholdMinutes : ℤ) :
    ∃ offsets, Spread accountIds.eraseDups.length (thresholdMinutes * 60).toNat offsets ∧
      buildDispatchPlan rng isoformat jobId dueSlot accountIds thresholdMinutes
        = (accountIds.eraseDups.zip offsets).map fun p => (p.1, dueSlot + seconds p.2) := by
  obtain ⟨a, mem⟩ := List.exists_mem_of_ne_nil _ some_
  have kept : accountIds.eraseDups ≠ [] := List.ne_nil_of_mem (List.mem_eraseDups.mpr mem)
  refine ⟨_, pickDispatchOffsetsSeconds_spread rng isoformat jobId dueSlot
    (List.length_pos_of_ne_nil kept) thresholdMinutes, ?_⟩
  rw [buildDispatchPlan, if_neg kept]

/-- The accounts of a job, each once and in the order of their first occurrences, at instants of
the window. While they fit they have an instant each, and beyond that every second of the window
is used. One of them runs at the due slot, if there is one. -/
structure Dispatches (accountIds : List String) (dueSlot thresholdMinutes : ℤ)
    (plan : List (String × ℤ)) : Prop where
  accounts : Occurs accountIds (plan.map Prod.fst)
  inside : ∀ p ∈ plan, dueSlot ≤ p.2 ∧ p.2 ≤ dueSlot + 60 * 1000000 * thresholdMinutes
  prompt : accountIds ≠ [] → ∃ p ∈ plan, p.2 = dueSlot
  apart : (plan.length : ℤ) ≤ 60 * thresholdMinutes + 1 → (plan.map Prod.snd).Nodup
  filled : 60 * thresholdMinutes + 1 < plan.length →
    ∀ n : ℕ, (n : ℤ) ≤ 60 * thresholdMinutes → ∃ p ∈ plan, p.2 = dueSlot + seconds n

theorem dispatches_empty (dueSlot : ℤ) {thresholdMinutes : ℤ} (nonneg : 0 ≤ thresholdMinutes) :
    Dispatches [] dueSlot thresholdMinutes [] where
  accounts := occurs_eraseDups []
  inside := nofun
  prompt h := absurd rfl h
  apart _ := List.nodup_nil
  filled many := by
    rw [List.length_nil] at many
    omega

/-- Spread offsets, given to the accounts in turn, are a plan. -/
theorem Spread.dispatches {accountIds : List String} {dueSlot thresholdMinutes : ℤ}
    {offsets : List ℕ} (nonneg : 0 ≤ thresholdMinutes)
    (spread : Spread accountIds.eraseDups.length (thresholdMinutes * 60).toNat offsets) :
    Dispatches accountIds dueSlot thresholdMinutes
      ((accountIds.eraseDups.zip offsets).map fun p => (p.1, dueSlot + seconds p.2)) := by
  generalize zipped : (accountIds.eraseDups.zip offsets).map _ = plan
  have length : accountIds.eraseDups.length = offsets.length := spread.length.symm
  have accounts : plan.map Prod.fst = accountIds.eraseDups := by
    rw [← zipped, List.map_map]
    exact List.map_fst_zip (Nat.le_of_eq length)
  have times : plan.map Prod.snd = offsets.map fun n => dueSlot + seconds n := by
    rw [← zipped, List.map_map]
    conv_rhs => rw [← List.map_snd_zip (Nat.le_of_eq length.symm), List.map_map]
    rfl
  have count : plan.length = accountIds.eraseDups.length := by
    rw [← accounts, List.length_map]
  have at_ {n : ℕ} (mem : n ∈ offsets) : ∃ p ∈ plan, p.2 = dueSlot + seconds n := by
    have shown : dueSlot + seconds n ∈ plan.map Prod.snd := by
      rw [times]
      exact List.mem_map.mpr ⟨n, mem, rfl⟩
    exact List.mem_map.mp shown
  refine ⟨?_, fun p mem => ?_, fun _ => ?_, fun few => ?_, fun many n small => ?_⟩
  · rw [accounts]
    exact occurs_eraseDups accountIds
  · have shown : p.2 ∈ plan.map Prod.snd := List.mem_map_of_mem mem
    rw [times] at shown
    obtain ⟨n, drawn, same⟩ := List.mem_map.mp shown
    have := spread.within n drawn
    rw [← same]
    simp only [seconds]
    omega
  · obtain ⟨p, mem, same⟩ := at_ spread.slot
    exact ⟨p, mem, same.trans (Int.add_zero dueSlot)⟩
  · rw [times]
    refine (spread.apart (by omega)).map fun m n same => ?_
    exact seconds_injective (Int.add_left_cancel same)
  · exact at_ (spread.filled (by omega) n (by omega))

theorem dispatch_plan (jobId : String) (dueSlot : ℤ) (accountIds : List String)
    (thresholdMinutes : ℤ) (nonneg : 0 ≤ thresholdMinutes) :
    Dispatches accountIds dueSlot thresholdMinutes
      (buildDispatchPlan rng isoformat jobId dueSlot accountIds thresholdMinutes) := by
  by_cases some_ : accountIds = []
  · rw [some_, buildDispatchPlan_empty]
    exact dispatches_empty dueSlot nonneg
  · obtain ⟨offsets, spread, zipped⟩ :=
      buildDispatchPlan_zip rng isoformat some_ jobId dueSlot thresholdMinutes
    rw [zipped]
    exact spread.dispatches nonneg

/-- A generator that draws from the front. -/
def frontRandom : Random Unit where
  seeded _ := ()
  sample population k s := (population.take k, s)
  shuffle xs s := (xs, s)
  choice xs s := (xs.headD 0, s)
  sample_subperm population k _ fits :=
    ⟨List.length_take_of_le fits, (List.take_sublist k population).subperm⟩
  shuffle_perm xs _ := List.Perm.refl xs
  choice_mem xs _ some_ := by
    cases xs with
    | nil => exact absurd rfl some_
    | cons x rest => exact List.mem_cons_self

/-- Two accounts, one of them named twice, within a minute. -/
theorem dispatch_plan_two :
    Dispatches ["a", "b", "a"] 0 1
      (buildDispatchPlan frontRandom (fun _ => "") "job" 0 ["a", "b", "a"] 1) :=
  dispatch_plan frontRandom (fun _ => "") "job" 0 ["a", "b", "a"] 1 (by decide)

/-- No account, no run at the due slot. -/
theorem dispatch_plan_without_accounts :
    ¬ ∃ p ∈ buildDispatchPlan frontRandom (fun _ => "") "job" 0 [] 1, p.2 = 0 := by
  rw [buildDispatchPlan_empty]
  rintro ⟨p, mem, -⟩
  cases mem

end Automations
