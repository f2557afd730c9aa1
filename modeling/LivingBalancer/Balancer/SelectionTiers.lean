import LivingBalancer.Balancer.SelectionOrder

/-!
# Health tier, policy class and credits of the selected account

Outside the drain strategies the account is of the best health tier among those that passed
the filters, and there of the best policy class. The weighted strategies return an account
without credits only where the accounts they weigh have none: the cheapest of the class, and
for `capacity_weighted` with the reset preference only those of the earliest reset bucket.
-/

namespace Balancer

open LeastKey

def tierRank : HealthTier → Nat
  | .healthy => 0
  | .probing => 1
  | .draining => 2

def policyRank (policy : String) : Nat :=
  if policy = "burn_first" then 0 else if policy = "normal" then 1 else 2

/-- The accounts of a pool that share the tier and the policy of `c`. -/
def classOf (pool : List AccountState) (c : AccountState) : List AccountState :=
  pool.filter fun s => s.healthTier == c.healthTier && routingPolicy s == routingPolicy c

/-- The part of a class that a weighted strategy looks at. -/
def weighed (routing : RoutingOptions) (now : ℚ) (pool : List AccountState) :
    List AccountState :=
  let preferred := if routing.routingStrategy = .capacityWeighted then
    resetPreferred routing now pool else pool
  lowestPlannerCostCandidates preferred routing.routingCosts

section Pools

variable {pool : List AccountState} {c s : AccountState}

theorem routingPolicy_cases (s : AccountState) : routingPolicy s = "burn_first" ∨
    routingPolicy s = "normal" ∨ routingPolicy s = "preserve" := by
  simp only [routingPolicy, normalizeAccountRoutingPolicy]
  split
  · rename_i known
    rcases known with normal | burnFirst | preserve
    · exact Or.inr (Or.inl normal)
    · exact Or.inl burnFirst
    · exact Or.inr (Or.inr preserve)
  · exact Or.inr (Or.inl rfl)

theorem mem_filter_eq {α : Type} [DecidableEq α] {read : AccountState → α} {a : α}
    (h : c ∈ pool.filter fun s => read s == a) : read c = a := by
  have same := (List.mem_filter.mp h).2
  rwa [beq_iff_eq] at same

theorem ne_of_filter_nil {α : Type} [DecidableEq α] {read : AccountState → α} {a : α}
    (h : (pool.filter fun s => read s == a) = []) (hs : s ∈ pool) : read s ≠ a := by
  have none_ := List.filter_eq_nil_iff.mp h s hs
  rwa [beq_iff_eq] at none_

/-- The health pool is the best tier that has an account. -/
theorem healthPool_best (h : c ∈ healthPool pool) :
    healthPool pool = pool.filter (fun s => s.healthTier == c.healthTier) ∧
      ∀ s ∈ pool, tierRank c.healthTier ≤ tierRank s.healthTier := by
  simp only [healthPool] at h ⊢
  by_cases healthy : (pool.filter fun s => s.healthTier == .healthy) = []
  · rw [healthy, firstNonEmpty_nil] at h ⊢
    by_cases probing : (pool.filter fun s => s.healthTier == .probing) = []
    · rw [probing, firstNonEmpty_nil] at h ⊢
      have draining : ∀ s ∈ pool, s.healthTier = .draining := by
        intro s hs
        have notHealthy := ne_of_filter_nil healthy hs
        have notProbing := ne_of_filter_nil probing hs
        cases tier : s.healthTier with
        | healthy => exact absurd tier notHealthy
        | probing => exact absurd tier notProbing
        | draining => rfl
      have all : (pool.filter fun s => s.healthTier == .draining) = pool :=
        List.filter_eq_self.mpr fun s hs => by rw [draining s hs]; rfl
      have nonempty : pool ≠ [] := by
        rintro rfl
        cases h
      rw [all, firstNonEmpty_of_ne_nil nonempty] at h ⊢
      rw [draining c h]
      refine ⟨all.symm, fun s hs => ?_⟩
      rw [draining s hs]
    · rw [firstNonEmpty_of_ne_nil probing] at h ⊢
      rw [mem_filter_eq h]
      refine ⟨rfl, fun s hs => ?_⟩
      have notHealthy := ne_of_filter_nil healthy hs
      cases tier : s.healthTier with
      | healthy => exact absurd tier notHealthy
      | probing => exact le_refl _
      | draining => decide
  · rw [firstNonEmpty_of_ne_nil healthy] at h ⊢
    rw [mem_filter_eq h]
    exact ⟨rfl, fun s _ => Nat.zero_le _⟩

/-- The effective pool is the best policy class of the best tier. -/
theorem effectivePool_best (h : c ∈ effectivePool pool) :
    effectivePool pool = classOf pool c ∧
      (∀ s ∈ pool, tierRank c.healthTier ≤ tierRank s.healthTier) ∧
      ∀ s ∈ pool, s.healthTier = c.healthTier →
        policyRank (routingPolicy c) ≤ policyRank (routingPolicy s) := by
  obtain ⟨tierPool, tier⟩ := healthPool_best (effectivePool_subset_healthPool h)
  have inTier : ∀ s ∈ pool, s.healthTier = c.healthTier → s ∈ healthPool pool := by
    intro s hs same
    rw [tierPool, List.mem_filter, beq_iff_eq]
    exact ⟨hs, same⟩
  have whole : ((healthPool pool).filter fun s => routingPolicy s == routingPolicy c) =
      classOf pool c := by
    rw [tierPool, List.filter_filter]
    exact List.filter_congr fun s _ => Bool.and_comm _ _
  suffices best : effectivePool pool =
      ((healthPool pool).filter fun s => routingPolicy s == routingPolicy c) ∧
      ∀ s ∈ healthPool pool, policyRank (routingPolicy c) ≤ policyRank (routingPolicy s) from
    ⟨best.1.trans whole, tier, fun s hs same => best.2 s (inTier s hs same)⟩
  simp only [effectivePool] at h ⊢
  by_cases burnFirst : ((healthPool pool).filter fun s => routingPolicy s == "burn_first") = []
  · rw [burnFirst, firstNonEmpty_nil] at h ⊢
    by_cases normal : ((healthPool pool).filter fun s => routingPolicy s == "normal") = []
    · rw [normal, firstNonEmpty_nil] at h ⊢
      have preserve : ∀ s ∈ healthPool pool, routingPolicy s = "preserve" := by
        intro s hs
        rcases routingPolicy_cases s with isBurnFirst | isNormal | isPreserve
        · exact absurd isBurnFirst (ne_of_filter_nil burnFirst hs)
        · exact absurd isNormal (ne_of_filter_nil normal hs)
        · exact isPreserve
      have all : ((healthPool pool).filter fun s => routingPolicy s == "preserve") =
          healthPool pool :=
        List.filter_eq_self.mpr fun s hs => by rw [preserve s hs]; rfl
      have nonempty : healthPool pool ≠ [] := by
        intro none_
        rw [none_] at h
        cases h
      rw [all, firstNonEmpty_of_ne_nil nonempty] at h ⊢
      rw [preserve c h]
      refine ⟨all.symm, fun s hs => ?_⟩
      rw [preserve s hs]
    · rw [firstNonEmpty_of_ne_nil normal] at h ⊢
      rw [mem_filter_eq h]
      refine ⟨rfl, fun s hs => ?_⟩
      rcases routingPolicy_cases s with isBurnFirst | isNormal | isPreserve
      · exact absurd isBurnFirst (ne_of_filter_nil burnFirst hs)
      · rw [isNormal]
      · rw [isPreserve]
        decide
  · rw [firstNonEmpty_of_ne_nil burnFirst] at h ⊢
    rw [mem_filter_eq h]
    exact ⟨rfl, fun s _ => Nat.zero_le _⟩

end Pools

/-! ## Credits -/

section Credits

variable {routing : RoutingOptions} {now : ℚ} {pool : List AccountState} {c s : AccountState}

theorem remainingSecondaryCredits_nonneg (s : AccountState) : 0 ≤ remainingSecondaryCredits s := by
  simp only [remainingSecondaryCredits]
  split
  · exact le_max_left _ _
  · split
    · exact le_refl _
    · exact le_max_left _ _

theorem relativeAvailabilityDivisorSeconds_pos (s : AccountState) :
    0 < relativeAvailabilityDivisorSeconds s now :=
  lt_of_lt_of_le (by norm_num) (le_max_right _ _)

theorem rawScore_pos : 0 < relativeAvailabilityRawScore s now ↔ 0 < remainingSecondaryCredits s := by
  simp only [relativeAvailabilityRawScore]
  split
  · rename_i none_
    exact ⟨fun h => absurd h (lt_irrefl 0), fun h => absurd none_ (not_le.mpr h)⟩
  · rename_i some_
    exact ⟨fun _ => not_le.mp some_, fun h => div_pos h (relativeAvailabilityDivisorSeconds_pos s)⟩

theorem rawScore_nonneg (s : AccountState) : 0 ≤ relativeAvailabilityRawScore s now := by
  by_cases some_ : 0 < remainingSecondaryCredits s
  · exact (rawScore_pos.mpr some_).le
  · simp only [relativeAvailabilityRawScore]
    rw [if_pos (not_lt.mp some_)]

/-- A draw without weight to draw from means that nobody has credits. -/
theorem selectCapacityWeighted_credits {draw : WeightedDraw}
    (chosen : selectCapacityWeighted draw pool = some c) (empty : remainingSecondaryCredits c = 0)
    (hs : s ∈ pool) : remainingSecondaryCredits s = 0 := by
  rcases drawOrLeastUsed_cases chosen with ⟨p, hp, rfl, positive⟩ | ⟨total, _⟩
  · obtain ⟨t, _, rfl⟩ := List.mem_map.mp hp
    exact absurd empty (ne_of_gt positive)
  · rw [List.map_map] at total
    have each : remainingSecondaryCredits s ≤ (pool.map remainingSecondaryCredits).sum :=
      List.single_le_sum (fun x hx => by
        obtain ⟨t, _, rfl⟩ := List.mem_map.mp hx
        exact remainingSecondaryCredits_nonneg t) _ (List.mem_map_of_mem hs)
    exact le_antisymm (each.trans total) (remainingSecondaryCredits_nonneg s)

/-- Only accounts with credits are weighted. -/
theorem weighted_credits {w : WeightedCandidate}
    (h : w ∈ relativeAvailabilityWeighted routing now pool) :
    0 < remainingSecondaryCredits w.state := by
  simp only [relativeAvailabilityWeighted] at h
  split at h
  · cases h
  · rename_i best
    obtain ⟨hmap, heavy⟩ := List.mem_filter.mp h
    obtain ⟨s, hs, rfl⟩ := List.mem_map.mp hmap
    rw [decide_eq_true_eq] at heavy
    by_contra none_
    have zero : relativeAvailabilityRawScore s now = 0 :=
      le_antisymm (not_lt.mp fun positive => none_ (rawScore_pos.mp positive)) (rawScore_nonneg s)
    have exponent : (0 : ℚ) < if 0 < routing.relativeAvailabilityPower then
        routing.relativeAvailabilityPower else 2 := by
      split
      · assumption
      · norm_num
    simp only at heavy
    rw [zero, zero_div, routing.power.zero_pow _ exponent] at heavy
    exact absurd heavy (by norm_num)

/-- Somebody with credits is among the weighted, if there is anybody. -/
theorem weighted_ne_nil (hs : s ∈ pool) (some_ : 0 < remainingSecondaryCredits s) :
    relativeAvailabilityWeighted routing now pool ≠ [] := by
  have score := (@rawScore_pos now s).mpr some_
  cases highest : (pool.map fun s => relativeAvailabilityRawScore s now).max? with
  | none =>
    rw [List.max?_eq_none_iff, List.map_eq_nil_iff] at highest
    rw [highest] at hs
    cases hs
  | some best =>
    have attained := List.max?_eq_some_iff.mp highest
    obtain ⟨t, ht, isBest⟩ := List.mem_map.mp attained.1
    have positive : 0 < best := lt_of_lt_of_le score (attained.2 _ (List.mem_map_of_mem hs))
    have exponent : (0 : ℚ) < if 0 < routing.relativeAvailabilityPower then
        routing.relativeAvailabilityPower else 2 := by
      split
      · assumption
      · norm_num
    simp only [relativeAvailabilityWeighted, highest, Option.getD_some]
    rw [if_neg (not_le.mpr positive)]
    refine List.ne_nil_of_mem (List.mem_filter.mpr ⟨List.mem_map_of_mem ht, ?_⟩)
    rw [decide_eq_true_eq]
    simp only
    rw [isBest, div_self (ne_of_gt positive), routing.power.one_pow _ exponent]
    norm_num

theorem selectRelativeAvailability_credits
    (chosen : selectRelativeAvailability routing now pool = some c)
    (empty : remainingSecondaryCredits c = 0) (hs : s ∈ pool) :
    remainingSecondaryCredits s = 0 := by
  by_contra some_
  have positive : 0 < remainingSecondaryCredits s :=
    lt_of_le_of_ne (remainingSecondaryCredits_nonneg s) (Ne.symm some_)
  simp only [selectRelativeAvailability] at chosen
  split at chosen
  · rename_i none_
    -- the sort and the cut to the first `top_k` leave at least one candidate
    have kept : 0 < (max 1 routing.relativeAvailabilityTopK).toNat := by omega
    have sorted : sortOn WeightedCandidate.sortKey (relativeAvailabilityWeighted routing now pool)
        = [] := (List.take_eq_nil_iff.mp none_).resolve_left (by omega)
    have perm := @sortOn_perm_self _ _ WeightedCandidate.sortKey _
      (relativeAvailabilityWeighted routing now pool)
    rw [sorted] at perm
    exact weighted_ne_nil hs positive perm.symm.eq_nil
  · rename_i first rest listed
    have credited : ∀ w ∈ first :: rest, 0 < remainingSecondaryCredits w.state := by
      intro w hw
      rw [← listed] at hw
      exact weighted_credits (mem_weightedCandidates hw)
    have heavy : ∀ w ∈ first :: rest, 0 < w.weight := by
      intro w hw
      rw [← listed] at hw
      have weighted := mem_weightedCandidates hw
      simp only [relativeAvailabilityWeighted] at weighted
      split at weighted
      · cases weighted
      · have tenth := (List.mem_filter.mp weighted).2
        rw [decide_eq_true_eq] at tenth
        exact lt_of_lt_of_le (by norm_num) tenth
    split at chosen
    · rw [← Option.some.inj chosen] at empty
      exact absurd empty (ne_of_gt (credited first List.mem_cons_self))
    · rcases drawOrLeastUsed_cases chosen with ⟨p, hp, rfl, _⟩ | ⟨total, _⟩
      · obtain ⟨w, hw, rfl⟩ := List.mem_map.mp hp
        exact absurd empty (ne_of_gt (credited w hw))
      · refine absurd total (not_le.mpr (List.sum_pos _ (fun x hx => ?_) (by simp)))
        obtain ⟨p, hp, rfl⟩ := List.mem_map.mp hx
        obtain ⟨w, hw, rfl⟩ := List.mem_map.mp hp
        exact heavy w hw

/-- The deterministic probe of `capacity_weighted` takes most credits at the least cost. -/
theorem capacityProbe_credits {costs : Dict String ℚ}
    (chosen : pool.argmin (capacityProbeSortKeyWithCost costs) = some c)
    (empty : remainingSecondaryCredits c = 0) (hs : s ∈ lowestPlannerCostCandidates pool costs) :
    remainingSecondaryCredits s = 0 := by
  have cheapest : plannerCost costs s ≤ plannerCost costs c := by
    simp only [lowestPlannerCostCandidates] at hs
    split at hs
    · rename_i none_
      simp [plannerCost, Dict.get, Dict.lookup, none_]
    · exact (mem_least.mp hs).2 c (List.argmin_mem chosen)
  have first := List.le_of_mem_argmin (lowestPlannerCostCandidates_subset hs) chosen
  simp only [capacityProbeSortKeyWithCost, Prod.Lex.toLex_le_toLex] at first
  rcases first with cheaper | ⟨_, fewer | ⟨same, _⟩⟩
  · exact absurd cheaper (not_lt.mpr cheapest)
  · rw [empty, neg_zero, Left.neg_pos_iff] at fewer
    exact absurd fewer (not_lt.mpr (remainingSecondaryCredits_nonneg s))
  · rw [neg_inj] at same
    exact same.symm.trans empty

end Credits

/-- Tier and class of the selected account, and what an account without credits means. -/
theorem selection_tiers {routing : RoutingOptions} {ranking : Ranking} {opts : SelectOptions}
    {now : ℚ} {states : List AccountState} {c : AccountState}
    (steady : routing.routingStrategy.drains = false)
    (chosen : (selectAccount routing.strategy ranking opts now states).account = some c) :
    c ∈ candidates opts now (offered opts now states) ∧
    (∀ s ∈ candidates opts now (offered opts now states),
      tierRank c.healthTier ≤ tierRank s.healthTier) ∧
    (∀ s ∈ candidates opts now (offered opts now states), s.healthTier = c.healthTier →
      policyRank (routingPolicy c) ≤ policyRank (routingPolicy s)) ∧
    (routing.routingStrategy = .capacityWeighted ∨
        routing.routingStrategy = .relativeAvailability →
      remainingSecondaryCredits c = 0 →
      ∀ s ∈ weighed routing now (classOf (candidates opts now (offered opts now states)) c),
        remainingSecondaryCredits s = 0) := by
  rw [selected_account] at chosen
  generalize candidates opts now (offered opts now states) = pool at chosen ⊢
  have member := rank_mem_effectivePool steady chosen
  obtain ⟨whole, tier, policy⟩ := effectivePool_best member
  refine ⟨effectivePool_subset member, tier, policy, fun weightedStrategy empty s hs => ?_⟩
  rw [← whole] at hs
  simp only [rank] at chosen
  rcases weightedStrategy with capacity | relative
  · rw [capacity] at chosen
    simp only [weighed, capacity, if_true] at hs
    simp only at chosen
    split at chosen
    · exact capacityProbe_credits chosen empty hs
    · exact selectCapacityWeighted_credits chosen empty hs
  · rw [relative] at chosen
    simp only [weighed, relative, reduceCtorEq, if_false] at hs
    exact selectRelativeAvailability_credits chosen empty hs

def weightedRouting : RoutingOptions where
  preferEarlierReset := true
  replicaSalt := "host"
  sha256Hex := id
  power := wholePower
  draw := firstPositive

/-- An account that has spent its week, and one that has most of it left but resets later. -/
def spentAndFresh : List AccountState :=
  [{ accountId := "spent", status := .active, usedPercent := some 10,
      secondaryUsedPercent := some 100, secondaryResetAt := some 2000, planType := some "plus" },
    { accountId := "fresh", status := .active, usedPercent := some 10,
      secondaryUsedPercent := some 20, secondaryResetAt := some 500000, planType := some "plus" }]

theorem selection_tiers_spent : ∃ c,
    (selectAccount weightedRouting.strategy .routed {} 1000 spentAndFresh).account = some c ∧
      ∀ s ∈ weighed weightedRouting 1000
          (classOf (candidates {} 1000 (offered {} 1000 spentAndFresh)) c),
        remainingSecondaryCredits s = 0 := by
  have chosen : (selectAccount weightedRouting.strategy .routed {} 1000 spentAndFresh).account =
      some spentAndFresh[0] := by decide +kernel
  exact ⟨_, chosen, (selection_tiers rfl chosen).2.2.2 (Or.inl rfl) (by decide +kernel)⟩

/-- The reset preference comes before the credits: the spent account is returned although a
candidate of its class with the same planner cost has credits. -/
theorem earlier_reset_before_credits :
    ¬ ∀ c, (selectAccount weightedRouting.strategy .routed {} 1000 spentAndFresh).account =
        some c → remainingSecondaryCredits c = 0 →
      ∀ s ∈ lowestPlannerCostCandidates
          (classOf (candidates {} 1000 (offered {} 1000 spentAndFresh)) c)
          weightedRouting.routingCosts, remainingSecondaryCredits s = 0 := by
  intro all
  have chosen : (selectAccount weightedRouting.strategy .routed {} 1000 spentAndFresh).account =
      some spentAndFresh[0] := by decide +kernel
  have none_ := all _ chosen (by decide +kernel) spentAndFresh[1] (by decide +kernel)
  exact absurd none_ (by decide +kernel)

end Balancer
