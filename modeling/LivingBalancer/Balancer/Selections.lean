import LivingBalancer.Balancer.StickyRebinding

/-!
# What one selection guarantees

A selection leaves its states settled: the same selection at the same clock changes none of
them again and gives the same answer. For opportunistic traffic the returned account keeps
its reserves: a preserve account is above its floors, and another account is either not
the last usable one or above the emergency floor.
-/

namespace Balancer

/-- The states as `select_account` leaves them. -/
def examineAll (opts : SelectOptions) (now : ℚ) (states : List AccountState) :
    List AccountState :=
  states.map fun s => (examine opts now s).1

section Repeated

variable {opts : SelectOptions} {now : ℚ} {states : List AccountState}

theorem map_examine_examineAll :
    (examineAll opts now states).map (examine opts now) = states.map (examine opts now) := by
  rw [examineAll, List.map_map]
  refine List.map_congr_left fun s _ => ?_
  exact examine_again

theorem examineAll_again : examineAll opts now (examineAll opts now states) =
    examineAll opts now states := by
  have settled := congrArg (List.map Prod.fst) (@map_examine_examineAll opts now states)
  rw [List.map_map, List.map_map] at settled
  exact settled

end Repeated

/-- Selecting twice at one clock returns the same account, or the same error, and the second
call leaves every state as the first one did. -/
theorem selectAccount_again (strategy : Strategy) (ranking : Ranking) (opts : SelectOptions)
    (now : ℚ) (states : List AccountState) :
    selectAccount strategy ranking opts now (examineAll opts now states) =
        selectAccount strategy ranking opts now states ∧
      examineAll opts now (examineAll opts now states) = examineAll opts now states := by
  refine ⟨?_, examineAll_again⟩
  simp only [selectAccount]
  rw [map_examine_examineAll]

/-! ## Opportunistic traffic -/

section Reserves

variable {opts : SelectOptions} {now : ℚ} {pool : List AccountState} {s c : AccountState}

theorem weeklyPaceFloorPct_ge : 5 ≤ weeklyPaceFloorPct s now := by
  simp only [weeklyPaceFloorPct]
  split
  · exact le_max_left _ _
  · norm_num

theorem shortWindowFloorPct_ge (count : Nat) : 10 ≤ shortWindowFloorPct s now count := by
  simp only [shortWindowFloorPct]
  split
  · norm_num
  · rename_i reset _
    have base : (10 : ℚ) ≤ if 3600 < max 0 (reset - now) then 20 else 10 := by
      split
      · norm_num
      · exact le_refl _
    have active : (10 : ℚ) ≤ if recentForegroundActivity s now then
        max (if 3600 < max 0 (reset - now) then 20 else 10) 30
        else if 3600 < max 0 (reset - now) then 20 else 10 := by
      split
      · exact le_max_of_le_left base
      · exact base
    split
    · exact le_max_of_le_left active
    · exact active

/-- A preserve account that may be burnt has both resets known and is above its floors. -/
theorem preserveAllowsOpportunisticBurn_floors {count : Nat}
    (h : preserveAllowsOpportunisticBurn s now count = true) :
    s.secondaryResetAt.isSome = true ∧ s.resetAt.isSome = true ∧
      (∃ weekly, remainingPct s true = some weekly ∧ weeklyPaceFloorPct s now < weekly) ∧
      ∃ short, remainingPct s false = some short ∧ shortWindowFloorPct s now count < short := by
  simp only [preserveAllowsOpportunisticBurn] at h
  split at h
  · rename_i weekly short hweekly hshort
    simp only [Bool.and_eq_true, decide_eq_true_eq] at h
    obtain ⟨⟨⟨weeklyReset, reset⟩, aboveWeekly⟩, aboveShort⟩ := h
    exact ⟨weeklyReset, reset, ⟨weekly, hweekly, aboveWeekly⟩, short, hshort, aboveShort⟩
  · cases h

theorem aboveEmergencyFloor_remaining (h : aboveEmergencyFloor s = true) :
    (∃ primary, remainingPct s false = some primary ∧ 5 < primary) ∧
      ∃ secondary, remainingPct s true = some secondary ∧ 5 < secondary := by
  simp only [aboveEmergencyFloor] at h
  split at h
  · rename_i primary secondary hprimary hsecondary
    simp only [Bool.and_eq_true, decide_eq_true_eq] at h
    exact ⟨⟨primary, hprimary, h.1⟩, secondary, hsecondary, h.2⟩
  · cases h

/-- Another active account of the pool that could take foreground traffic. -/
def OtherUsable (pool : List AccountState) (now : ℚ) (candidate other : AccountState) : Prop :=
  other.accountId ≠ candidate.accountId ∧ other.status = .active ∧
    (routingPolicy other ≠ "preserve" ∨
      preserveAllowsOpportunisticBurn other now (preserveCount pool) = true)

theorem hasOtherUsableForegroundCapacity_iff :
    hasOtherUsableForegroundCapacity c pool now = true ↔
      ∃ other ∈ pool, OtherUsable pool now c other := by
  simp only [hasOtherUsableForegroundCapacity, List.any_eq_true, OtherUsable, Bool.and_eq_true,
    Bool.or_eq_true, bne_iff_ne, beq_iff_eq, and_assoc]

theorem expendable_of_candidate {left : List AccountState}
    (h : filterOpportunisticCandidates pool now = .ok left) (hc : c ∈ left) :
    expendable pool now c = true := by
  have filtered : ∀ policy, c ∈ (pool.filter fun s =>
      routingPolicy s == policy && expendable pool now s) → expendable pool now c = true := by
    intro policy member
    have kept := (List.mem_filter.mp member).2
    simp only [Bool.and_eq_true] at kept
    exact kept.2
  simp only [filterOpportunisticCandidates] at h
  split at h
  · split at h <;> cases h
  · cases h
    rcases List.mem_append.mp hc with first | preserve
    · rcases List.mem_append.mp first with burnFirst | normal
      · exact filtered _ burnFirst
      · exact filtered _ normal
    · exact filtered _ preserve

/-- An opportunistic choice is expendable in the pool it was chosen from. -/
theorem chooseFrom_expendable {strategy : Strategy} {ranking : Ranking}
    (opportunistic : opts.opportunistic = true)
    (h : (chooseFrom strategy ranking opts now pool).account = some c) :
    c ∈ pool ∧ expendable pool now c = true := by
  refine ⟨mem_chooseFrom h, ?_⟩
  simp only [chooseFrom, opportunistic, if_true] at h
  split at h
  · cases h
  · cases h
  · rename_i first rest left
    refine expendable_of_candidate left ?_
    rw [← Option.some.inj h]
    exact (strategy.pick ranking now (first :: rest) (List.cons_ne_nil first rest)).2

theorem fallbackPool_single (hc : c ∈ fallbackPool opts now pool) :
    fallbackPool opts now pool = [c] := by
  simp only [fallbackPool] at hc ⊢
  split at hc
  · cases hc
  · rename_i first rest held
    split at hc
    · rename_i taken
      rw [held] at taken
      rw [held]
      exact (if_pos taken).trans (by rw [List.mem_singleton.mp hc])
    · cases hc

/-- Only accounts that passed the checks count as other capacity. -/
theorem otherUsable_available {other : AccountState} (hc : c ∈ offered opts now pool)
    (member : other ∈ offered opts now pool) (different : other.accountId ≠ c.accountId) :
    other ∈ availableOf opts now pool := by
  rw [offered] at hc member
  split at member
  · rename_i nothing
    rw [if_pos nothing] at hc
    rw [fallbackPool_single hc] at member
    rw [List.mem_singleton.mp member] at different
    exact absurd rfl different
  · exact member

end Reserves

/-- What opportunistic traffic leaves of the account it is given. -/
theorem opportunistic_keeps_reserves {strategy : Strategy} {ranking : Ranking}
    {opts : SelectOptions} {now : ℚ} {states : List AccountState} {c : AccountState}
    (opportunistic : opts.opportunistic = true)
    (chosen : (selectAccount strategy ranking opts now states).account = some c) :
    (routingPolicy c = "preserve" → c.secondaryResetAt.isSome = true ∧ c.resetAt.isSome = true ∧
      (∃ weekly, remainingPct c true = some weekly ∧ 5 < weekly) ∧
      ∃ short, remainingPct c false = some short ∧ 10 < short) ∧
    (routingPolicy c = "normal" ∨ routingPolicy c = "burn_first" →
      (∃ other ∈ availableOf opts now states,
        OtherUsable (offered opts now states) now c other) ∨
      (∃ primary, remainingPct c false = some primary ∧ 5 < primary) ∧
        ∃ secondary, remainingPct c true = some secondary ∧ 5 < secondary) := by
  rw [selectAccount_account] at chosen
  obtain ⟨member, spare⟩ := chooseFrom_expendable opportunistic chosen
  rw [expendable] at spare
  refine ⟨fun preserve => ?_, fun other => ?_⟩
  · rw [preserve, if_pos (beq_self_eq_true _)] at spare
    obtain ⟨weeklyReset, reset, ⟨weekly, hweekly, aboveWeekly⟩, short, hshort, aboveShort⟩ :=
      preserveAllowsOpportunisticBurn_floors spare
    exact ⟨weeklyReset, reset, ⟨weekly, hweekly, lt_of_le_of_lt weeklyPaceFloorPct_ge aboveWeekly⟩,
      short, hshort, lt_of_le_of_lt (shortWindowFloorPct_ge _) aboveShort⟩
  · have notPreserve : (routingPolicy c == "preserve") = false := by
      rcases other with normal | burnFirst
      · rw [normal]
        decide
      · rw [burnFirst]
        decide
    rw [notPreserve, if_neg Bool.false_ne_true, Bool.or_eq_true] at spare
    rcases spare with others | above
    · left
      obtain ⟨other, hother, usable⟩ := hasOtherUsableForegroundCapacity_iff.mp others
      exact ⟨other, otherUsable_available member hother usable.1, usable⟩
    · exact Or.inr (aboveEmergencyFloor_remaining above)

def weeklyPreserve : AccountState :=
  { accountId := "kept", status := .active, usedPercent := some 20, resetAt := some 2000,
    secondaryUsedPercent := some 40, secondaryResetAt := some 300000, routingPolicy := "preserve" }

theorem opportunistic_keeps_reserves_preserve :
    (selectAccount headOf .routed { opportunistic := true } 1000
        [weeklyPreserve]).account = some weeklyPreserve ∧
      ∃ weekly, remainingPct weeklyPreserve true = some weekly ∧ 5 < weekly := by
  have chosen : (selectAccount headOf .routed { opportunistic := true } 1000
      [weeklyPreserve]).account = some weeklyPreserve := by decide +kernel
  exact ⟨chosen, ((opportunistic_keeps_reserves rfl chosen).1 (by decide)).2.2.1⟩

end Balancer
