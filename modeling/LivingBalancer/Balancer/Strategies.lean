import LivingBalancer.Balancer.BudgetPreference
import LivingBalancer.Lib.Dict
import LivingBalancer.Lib.LeastKey
import Mathlib.Algebra.Order.BigOperators.Group.List
import Mathlib.Data.Prod.Lex
import Mathlib.Data.String.Basic
import Mathlib.Order.WithBot

/-!
# The routing strategies

The second half of `select_account`: the health tier, the routing policy class and the
strategy that picks one account of the class. Keys are tuples in lexicographic order, and
`min(..., key=...)` is the first element of least key.

Percentages, credits and costs are exact rationals. The hash, the float power and the draw of
`random.choices` come with the options.
-/

namespace Balancer

open LeastKey

inductive ResetPreferenceWindow where
  | primary
  | secondary
  deriving DecidableEq, Repr

inductive UsageWeightedOrder where
  | secondaryFirst
  | primaryFirst
  deriving DecidableEq, Repr

/-- `**` for a positive exponent. -/
structure Power where
  pow : ℚ → ℚ → ℚ
  zero_pow : ∀ p, 0 < p → pow 0 p = 0
  one_pow : ∀ p, 0 < p → pow 1 p = 1

/-- One draw of `random.choices`: an element of positive weight, where there is one. -/
structure WeightedDraw where
  choose : (weighted : List (AccountState × ℚ)) → (∃ p ∈ weighted, 0 < p.2) →
    { s : AccountState // ∃ p ∈ weighted, p.1 = s ∧ 0 < p.2 }

/-- The options of `select_account` that rank the accounts which passed the filters. No
routing costs are the empty dictionary. -/
structure RoutingOptions where
  routingStrategy : RoutingStrategy := .capacityWeighted
  preferEarlierReset : Bool := false
  preferEarlierResetWindow : ResetPreferenceWindow := .secondary
  deterministicProbe : Bool := false
  relativeAvailabilityPower : ℚ := 2
  relativeAvailabilityTopK : Int := 5
  usageWeightedOrder : UsageWeightedOrder := .secondaryFirst
  primaryFirstUsageWeighted : Bool := false
  routingCosts : Dict String ℚ := .empty
  replicaSalt : String
  sha256Hex : String → String
  power : Power
  draw : WeightedDraw

def secondsPerDay : ℚ := 86400

/-! ## What the keys read -/

def plannerCost (costs : Dict String ℚ) (s : AccountState) : ℚ := (costs.get s.accountId).getD 0

/-- `_priority_primary_used`. -/
def priorityPrimaryUsed (s : AccountState) : ℚ := (s.priorityUsedPercent.or s.usedPercent).getD 0

/-- `_priority_secondary_used`. -/
def prioritySecondaryUsed (s : AccountState) (primaryUsed : ℚ) : ℚ :=
  if s.limitScopedUsage && s.prioritySecondaryUsedPercent.isNone then primaryUsed
  else (s.prioritySecondaryUsedPercent.or s.secondaryUsedPercent).getD primaryUsed

/-- `str.lower` where it can yield a letter of a plan name: the Kelvin sign lowers to `k`. -/
def lowerChar (c : Char) : Char := if c.toNat = 0x212a then 'k' else c.toLower

/-- `CAPACITY_PLAN_ALIASES`. -/
def capacityPlanAlias : String → Option PlanType
  | "education" | "k12" => some .edu
  | "guest" | "go" | "free_workspace" | "quorum" | "unknown" => some .free
  | _ => none

/-- `_fallback_secondary_capacity_credits`. -/
def fallbackSecondaryCapacityCredits (planType : Option String) : ℚ :=
  let normalized := String.ofList ((strip (planType.getD "")).map lowerChar)
  planCapacityCreditsSecondary
    (((capacityPlanAlias normalized).or (normalizeAccountPlanType normalized)).getD .free)

/-- `_remaining_secondary_credits`. -/
def remainingSecondaryCredits (s : AccountState) : ℚ :=
  let remaining := fun capacity : ℚ =>
    let usedPct := prioritySecondaryUsed s (priorityPrimaryUsed s)
    max 0 (capacity * (1 - min usedPct 100 / 100))
  match s.priorityCapacityCredits.or s.capacityCredits with
  | none => remaining (fallbackSecondaryCapacityCredits s.planType)
  | some capacity => if capacity ≤ 0 then 0 else remaining capacity

/-- `_configured_capacity_credits`. -/
def configuredCapacityCredits (s : AccountState) : ℚ :=
  match s.capacityCredits with
  | some capacity =>
    if 0 < capacity then capacity else fallbackSecondaryCapacityCredits s.planType
  | none => fallbackSecondaryCapacityCredits s.planType

/-- `_reset_preference_bucket`. -/
def resetPreferenceBucket (s : AccountState) (now : ℚ) (window : ResetPreferenceWindow) : Int :=
  let weekly := s.priorityResetAt.or s.secondaryResetAt
  let resetAt := match window with
    | .primary => s.primaryResetAt.or weekly
    | .secondary => weekly.or s.primaryResetAt
  match resetAt with
  | none => 10000 * 86400
  | some reset =>
    let remainingSeconds := max 0 (truncInt (reset - now))
    match window with
    | .secondary => remainingSeconds / 86400
    | .primary => remainingSeconds

/-- `_weekly_reset_timestamp`; `none` is infinity. -/
def weeklyResetTimestamp (s : AccountState) (now : ℚ) : Option ℚ :=
  let secondary := (s.secondaryResetAt.map fun reset : Int => (reset : ℚ)).filter (now < ·)
  secondary.or (s.resetAt.filter (now < ·))

def orInfinity : Option ℚ → WithTop ℚ
  | none => ⊤
  | some t => t

/-! ## The sort keys -/

def lastSelected (s : AccountState) : ℚ := s.lastSelectedAt.getD 0

abbrev UsageKey := ℚ ×ₗ ℚ ×ₗ ℚ ×ₗ String

/-- `_usage_sort_key`. -/
def usageSortKey (s : AccountState) : UsageKey :=
  let primaryUsed := priorityPrimaryUsed s
  toLex (prioritySecondaryUsed s primaryUsed,
    toLex (primaryUsed, toLex (lastSelected s, s.accountId)))

/-- `_primary_usage_sort_key`. -/
def primaryUsageSortKey (s : AccountState) : UsageKey :=
  let primaryUsed := priorityPrimaryUsed s
  toLex (primaryUsed, toLex (prioritySecondaryUsed s primaryUsed,
    toLex (lastSelected s, s.accountId)))

/-- `_round_robin_sort_key`. -/
def roundRobinSortKey (opts : RoutingOptions) (s : AccountState) : ℚ ×ₗ ℚ ×ₗ String :=
  toLex (plannerCost opts.routingCosts s, toLex (lastSelected s,
    opts.sha256Hex (opts.replicaSalt ++ "\x00" ++ s.accountId)))

/-- `_sequential_drain_sort_key`. -/
def sequentialDrainSortKey (opts : RoutingOptions) (s : AccountState) : ℚ ×ₗ String ×ₗ String :=
  toLex (configuredCapacityCredits s, toLex (opts.sha256Hex s.accountId, s.accountId))

/-- `_reset_drain_sort_key`. -/
def resetDrainSortKey (opts : RoutingOptions) (now : ℚ) (s : AccountState) :
    Int ×ₗ ℚ ×ₗ ℚ ×ₗ WithTop ℚ ×ₗ String ×ₗ String :=
  let primaryRemaining := 100 - s.usedPercent.getD 0
  let secondaryRemaining := 100 - (s.secondaryUsedPercent.or s.usedPercent).getD 0
  let resetAt := weeklyResetTimestamp s now
  let resetBucketDays : Int := match resetAt with
    | none => 10000
    | some reset => max 0 ⌊(reset - now) / secondsPerDay⌋
  toLex (resetBucketDays, toLex (-max 0 primaryRemaining, toLex (-max 0 secondaryRemaining,
    toLex (orInfinity resetAt, toLex (opts.sha256Hex s.accountId, s.accountId)))))

/-- `_capacity_probe_sort_key_with_cost`. -/
def capacityProbeSortKeyWithCost (costs : Dict String ℚ) (s : AccountState) :
    ℚ ×ₗ ℚ ×ₗ UsageKey :=
  toLex (plannerCost costs s, toLex (-remainingSecondaryCredits s, usageSortKey s))

/-- `_fill_first_sort_key`. -/
def fillFirstSortKey (s : AccountState) : ℚ ×ₗ ℚ ×ₗ String :=
  toLex (-s.usedPercent.getD 0, toLex (-s.secondaryUsedPercent.getD 0, s.accountId))

/-! ## The pools -/

/-- `healthy or probing or draining or available`. -/
def healthPool (available : List AccountState) : List AccountState :=
  let tier := fun t => available.filter fun s => s.healthTier == t
  firstNonEmpty (tier .healthy) (firstNonEmpty (tier .probing) (firstNonEmpty (tier .draining) available))

/-- `burn_first or normal or preserve or health_pool`. -/
def effectivePool (available : List AccountState) : List AccountState :=
  let pool := healthPool available
  let policy := fun p => pool.filter fun s => routingPolicy s == p
  firstNonEmpty (policy "burn_first") (firstNonEmpty (policy "normal") (firstNonEmpty (policy "preserve") pool))

/-- `_prefer_earlier_reset_candidates`. -/
def preferEarlierResetCandidates (available : List AccountState) (now : ℚ)
    (window : ResetPreferenceWindow) : List AccountState :=
  least (fun s => resetPreferenceBucket s now window) available

def resetPreferred (opts : RoutingOptions) (now : ℚ) (pool : List AccountState) :
    List AccountState :=
  if opts.preferEarlierReset then
    preferEarlierResetCandidates pool now opts.preferEarlierResetWindow
  else pool

/-- `_lowest_planner_cost_candidates`. -/
def lowestPlannerCostCandidates (available : List AccountState) (costs : Dict String ℚ) :
    List AccountState :=
  if costs.items = [] then available else least (plannerCost costs) available

/-! ## The strategies -/

/-- The order of the integers in a key: the one that is decided. -/
local instance intPreorder : Preorder Int := Int.instLinearOrder.toPreorder

theorem exists_pos_of_sum {weighted : List (AccountState × ℚ)}
    (h : 0 < (weighted.map Prod.snd).sum) : ∃ p ∈ weighted, 0 < p.2 := by
  refine List.exists_lt_of_sum_lt (fun _ => 0) Prod.snd ?_
  rw [List.map_const', List.sum_replicate, nsmul_zero]
  exact h

/-- `random.choices`, or the least usage where no weight is positive. -/
def drawOrLeastUsed (draw : WeightedDraw) (weighted : List (AccountState × ℚ))
    (available : List AccountState) : Option AccountState :=
  if h : 0 < (weighted.map Prod.snd).sum then some (draw.choose weighted (exists_pos_of_sum h)).1
  else available.argmin usageSortKey

/-- `_select_capacity_weighted`. -/
def selectCapacityWeighted (draw : WeightedDraw) (available : List AccountState) :
    Option AccountState :=
  drawOrLeastUsed draw (available.map fun s => (s, remainingSecondaryCredits s)) available

/-- `_relative_availability_divisor_seconds`. -/
def relativeAvailabilityDivisorSeconds (s : AccountState) (now : ℚ) : ℚ :=
  let remainingSeconds : ℚ := match s.priorityResetAt.or s.secondaryResetAt with
    | none => 604800
    | some reset => max 0 ((reset : ℚ) - now)
  max remainingSeconds 300

/-- `_relative_availability_raw_score`. -/
def relativeAvailabilityRawScore (s : AccountState) (now : ℚ) : ℚ :=
  let remainingCredits := remainingSecondaryCredits s
  if remainingCredits ≤ 0 then 0
  else remainingCredits / relativeAvailabilityDivisorSeconds s now

structure WeightedCandidate where
  state : AccountState
  weight : ℚ
  rawScore : ℚ

def WeightedCandidate.sortKey (c : WeightedCandidate) : ℚ ×ₗ ℚ ×ₗ UsageKey :=
  toLex (-c.weight, toLex (-c.rawScore, usageSortKey c.state))

/-- The weighted accounts before the sort: those of at least a tenth of the best. -/
def relativeAvailabilityWeighted (opts : RoutingOptions) (now : ℚ)
    (available : List AccountState) : List WeightedCandidate :=
  let score := fun s => relativeAvailabilityRawScore s now
  let best := ((available.map score).max?).getD 0
  if best ≤ 0 then []
  else
    let power := if 0 < opts.relativeAvailabilityPower then opts.relativeAvailabilityPower else 2
    (available.map fun s => ⟨s, opts.power.pow (score s / best) power, score s⟩).filter
      fun c => decide (1 / 10 ≤ c.weight)

/-- `_relative_availability_weighted_candidates`. -/
def relativeAvailabilityWeightedCandidates (opts : RoutingOptions) (now : ℚ)
    (available : List AccountState) : List WeightedCandidate :=
  (sortOn WeightedCandidate.sortKey (relativeAvailabilityWeighted opts now available)).take
    (max 1 opts.relativeAvailabilityTopK).toNat

/-- `_select_relative_availability`. -/
def selectRelativeAvailability (opts : RoutingOptions) (now : ℚ) (available : List AccountState) :
    Option AccountState :=
  match relativeAvailabilityWeightedCandidates opts now available with
  | [] => available.argmin usageSortKey
  | first :: rest =>
    if opts.deterministicProbe then some first.state
    else drawOrLeastUsed opts.draw ((first :: rest).map fun c => (c.state, c.weight)) available

def selectUsageWeighted (opts : RoutingOptions) (now : ℚ) (pool : List AccountState) :
    Option AccountState :=
  let order := if opts.primaryFirstUsageWeighted then .primaryFirst else opts.usageWeightedOrder
  let usage := match order with
    | .primaryFirst => primaryUsageSortKey
    | .secondaryFirst => usageSortKey
  let withCost := fun s => (toLex (plannerCost opts.routingCosts s, usage s) : ℚ ×ₗ UsageKey)
  if opts.preferEarlierReset then
    pool.argmin fun s => (toLex (resetPreferenceBucket s now opts.preferEarlierResetWindow,
      withCost s) : Int ×ₗ ℚ ×ₗ UsageKey)
  else pool.argmin withCost

/-- The end of `select_account`: the account of the pool that the strategy picks. -/
def rank (opts : RoutingOptions) (now : ℚ) (available : List AccountState) :
    Option AccountState :=
  match opts.routingStrategy with
  | .singleAccount => available.argmin AccountState.accountId
  | .sequentialDrain => available.argmin (sequentialDrainSortKey opts)
  | .resetDrain => available.argmin (resetDrainSortKey opts now)
  | .roundRobin => (effectivePool available).argmin (roundRobinSortKey opts)
  | .capacityWeighted =>
    let candidatePool := resetPreferred opts now (effectivePool available)
    if opts.deterministicProbe then
      candidatePool.argmin (capacityProbeSortKeyWithCost opts.routingCosts)
    else
      selectCapacityWeighted opts.draw
        (lowestPlannerCostCandidates candidatePool opts.routingCosts)
  | .relativeAvailability =>
    selectRelativeAvailability opts now
      (lowestPlannerCostCandidates (effectivePool available) opts.routingCosts)
  | .fillFirst => (resetPreferred opts now (effectivePool available)).argmin fillFirstSortKey
  | .usageWeighted => selectUsageWeighted opts now (effectivePool available)

/-! ## The picked account is in the pool -/

section Members

variable {opts : RoutingOptions} {now : ℚ} {available : List AccountState} {c : AccountState}

theorem healthPool_subset : healthPool available ⊆ available :=
  firstNonEmpty_subset (List.filter_subset_self _) (firstNonEmpty_subset (List.filter_subset_self _)
    (firstNonEmpty_subset (List.filter_subset_self _) (List.Subset.refl _)))

theorem healthPool_ne_nil (h : available ≠ []) : healthPool available ≠ [] :=
  firstNonEmpty_ne_nil (firstNonEmpty_ne_nil (firstNonEmpty_ne_nil h))

theorem effectivePool_subset_healthPool : effectivePool available ⊆ healthPool available :=
  firstNonEmpty_subset (List.filter_subset_self _) (firstNonEmpty_subset (List.filter_subset_self _)
    (firstNonEmpty_subset (List.filter_subset_self _) (List.Subset.refl _)))

theorem effectivePool_subset : effectivePool available ⊆ available :=
  fun _ h => healthPool_subset (effectivePool_subset_healthPool h)

theorem effectivePool_ne_nil (h : available ≠ []) : effectivePool available ≠ [] :=
  firstNonEmpty_ne_nil (firstNonEmpty_ne_nil (firstNonEmpty_ne_nil (healthPool_ne_nil h)))

theorem least_subset {κ : Type} [LinearOrder κ] {key : AccountState → κ} :
    least key available ⊆ available :=
  fun _ h => (mem_least.mp h).1

theorem resetPreferred_subset : resetPreferred opts now available ⊆ available := by
  rw [resetPreferred]
  split
  · exact least_subset
  · exact List.Subset.refl _

theorem resetPreferred_ne_nil (h : available ≠ []) : resetPreferred opts now available ≠ [] := by
  rw [resetPreferred]
  split
  · exact least_ne_nil h
  · exact h

theorem lowestPlannerCostCandidates_subset {costs : Dict String ℚ} :
    lowestPlannerCostCandidates available costs ⊆ available := by
  rw [lowestPlannerCostCandidates]
  split
  · exact List.Subset.refl _
  · exact least_subset

theorem lowestPlannerCostCandidates_ne_nil {costs : Dict String ℚ} (h : available ≠ []) :
    lowestPlannerCostCandidates available costs ≠ [] := by
  rw [lowestPlannerCostCandidates]
  split
  · exact h
  · exact least_ne_nil h

/-- A draw takes an account of positive weight; without one it is the least used. -/
theorem drawOrLeastUsed_cases {draw : WeightedDraw} {weighted : List (AccountState × ℚ)}
    (h : drawOrLeastUsed draw weighted available = some c) :
    (∃ p ∈ weighted, p.1 = c ∧ 0 < p.2) ∨
      (weighted.map Prod.snd).sum ≤ 0 ∧ available.argmin usageSortKey = some c := by
  simp only [drawOrLeastUsed] at h
  split at h
  · rename_i positive
    left
    rw [← Option.some.inj h]
    exact (draw.choose weighted (exists_pos_of_sum positive)).2
  · rename_i none_
    exact Or.inr ⟨not_lt.mp none_, h⟩

theorem drawOrLeastUsed_isSome {draw : WeightedDraw} {weighted : List (AccountState × ℚ)}
    (h : available ≠ []) : (drawOrLeastUsed draw weighted available).isSome = true := by
  simp only [drawOrLeastUsed]
  split
  · rfl
  · exact argmin_isSome h

theorem mem_relativeAvailabilityWeighted {w : WeightedCandidate}
    (h : w ∈ relativeAvailabilityWeighted opts now available) :
    w.state ∈ available ∧ w.rawScore = relativeAvailabilityRawScore w.state now := by
  simp only [relativeAvailabilityWeighted] at h
  split at h
  · cases h
  · obtain ⟨s, hs, rfl⟩ := List.mem_map.mp (List.mem_filter.mp h).1
    exact ⟨hs, rfl⟩

theorem mem_weightedCandidates {w : WeightedCandidate}
    (h : w ∈ relativeAvailabilityWeightedCandidates opts now available) :
    w ∈ relativeAvailabilityWeighted opts now available :=
  (sortOn_perm_self _).mem_iff.mp (List.mem_of_mem_take h)

theorem selectRelativeAvailability_mem (h : selectRelativeAvailability opts now available = some c) :
    c ∈ available := by
  simp only [selectRelativeAvailability] at h
  split at h
  · exact List.argmin_mem h
  · rename_i first rest listed
    have inPool : ∀ w ∈ first :: rest, w.state ∈ available := by
      intro w hw
      rw [← listed] at hw
      exact (mem_relativeAvailabilityWeighted (mem_weightedCandidates hw)).1
    split at h
    · rw [← Option.some.inj h]
      exact inPool first List.mem_cons_self
    · rcases drawOrLeastUsed_cases h with ⟨p, hp, rfl, _⟩ | ⟨_, least⟩
      · obtain ⟨w, hw, rfl⟩ := List.mem_map.mp hp
        exact inPool w hw
      · exact List.argmin_mem least

theorem selectCapacityWeighted_mem {draw : WeightedDraw}
    (h : selectCapacityWeighted draw available = some c) : c ∈ available := by
  rcases drawOrLeastUsed_cases h with ⟨p, hp, rfl, _⟩ | ⟨_, least⟩
  · obtain ⟨s, hs, rfl⟩ := List.mem_map.mp hp
    exact hs
  · exact List.argmin_mem least

theorem selectUsageWeighted_mem (h : selectUsageWeighted opts now available = some c) :
    c ∈ available := by
  simp only [selectUsageWeighted] at h
  split at h
  · exact List.argmin_mem h
  · exact List.argmin_mem h

/-- Outside the drain strategies the account is of the effective pool. -/
theorem rank_mem_effectivePool (steady : opts.routingStrategy.drains = false)
    (h : rank opts now available = some c) : c ∈ effectivePool available := by
  simp only [rank] at h
  split at h
  · rename_i drain
    rw [drain] at steady
    cases steady
  · rename_i drain
    rw [drain] at steady
    cases steady
  · rename_i drain
    rw [drain] at steady
    cases steady
  · exact List.argmin_mem h
  · split at h
    · exact resetPreferred_subset (List.argmin_mem h)
    · exact resetPreferred_subset (lowestPlannerCostCandidates_subset
        (selectCapacityWeighted_mem h))
  · exact lowestPlannerCostCandidates_subset (selectRelativeAvailability_mem h)
  · exact resetPreferred_subset (List.argmin_mem h)
  · exact selectUsageWeighted_mem h

theorem rank_mem (h : rank opts now available = some c) : c ∈ available := by
  by_cases steady : opts.routingStrategy.drains = false
  · exact effectivePool_subset (rank_mem_effectivePool steady h)
  · simp only [rank] at h
    cases strategy : opts.routingStrategy with
    | singleAccount => exact List.argmin_mem (strategy ▸ h)
    | sequentialDrain => exact List.argmin_mem (strategy ▸ h)
    | resetDrain => exact List.argmin_mem (strategy ▸ h)
    | _ => rw [strategy] at steady; exact absurd rfl steady

theorem rank_isSome (h : available ≠ []) : (rank opts now available).isSome = true := by
  have pool := effectivePool_ne_nil h
  simp only [rank]
  split
  · exact argmin_isSome h
  · exact argmin_isSome h
  · exact argmin_isSome h
  · exact argmin_isSome pool
  · split
    · exact argmin_isSome (resetPreferred_ne_nil pool)
    · exact drawOrLeastUsed_isSome (lowestPlannerCostCandidates_ne_nil (resetPreferred_ne_nil pool))
  · have cheap := @lowestPlannerCostCandidates_ne_nil _ opts.routingCosts pool
    simp only [selectRelativeAvailability]
    split
    · exact argmin_isSome cheap
    · split
      · rfl
      · exact drawOrLeastUsed_isSome cheap
  · exact argmin_isSome (resetPreferred_ne_nil pool)
  · simp only [selectUsageWeighted]
    split
    · exact argmin_isSome pool
    · exact argmin_isSome pool

end Members

/-- The routing options of one call of `select_account`, as the strategy it ranks with. -/
def RoutingOptions.strategy (opts : RoutingOptions) : Strategy where
  pick _ now pool nonempty :=
    ⟨(rank opts now pool).get (rank_isSome nonempty), rank_mem (Option.some_get _).symm⟩

theorem rank_nil (opts : RoutingOptions) (now : ℚ) : rank opts now [] = none := by
  rw [Option.eq_none_iff_forall_ne_some]
  intro c h
  cases rank_mem h

theorem chooseFrom_account (routing : RoutingOptions) (ranking : Ranking) (opts : SelectOptions)
    (now : ℚ) (pool : List AccountState) :
    (chooseFrom routing.strategy ranking opts now pool).account =
      rank routing now (candidates opts now pool) := by
  simp only [chooseFrom, candidates]
  cases opts.opportunistic with
  | false =>
    cases pool with
    | nil => exact (rank_nil routing now).symm
    | cons s rest => exact Option.some_get _
  | true =>
    simp only [if_true]
    cases filterOpportunisticCandidates pool now with
    | error reason => exact (rank_nil routing now).symm
    | ok left =>
      cases left with
      | nil => exact (rank_nil routing now).symm
      | cons s rest => exact Option.some_get _

end Balancer
