import LivingBalancer.Balancer.Strategies

/-!
# Selection and the order of the states

Every sort key of the strategies ends in the account id, or in a hash of it, so what a
deterministic strategy picks does not depend on the order of its pool. The fallback to error
backoff looks at the expiry alone: among accounts that expire together the first one of the
list is taken.
-/

namespace Balancer

open LeastKey

/-- The modes of `select_account` that draw nothing. -/
def RoutingOptions.deterministic (opts : RoutingOptions) : Bool :=
  match opts.routingStrategy with
  | .capacityWeighted | .relativeAvailability => opts.deterministicProbe
  | _ => true

/-- The round-robin hash tells the accounts apart. -/
def RoutingOptions.CollisionFree (opts : RoutingOptions) (states : List AccountState) : Prop :=
  opts.routingStrategy = .roundRobin → ∀ s ∈ states, ∀ t ∈ states,
    opts.sha256Hex (opts.replicaSalt ++ "\x00" ++ s.accountId) =
      opts.sha256Hex (opts.replicaSalt ++ "\x00" ++ t.accountId) → s.accountId = t.accountId

/-- A state of a list is determined by its account id. -/
def DistinctIds (states : List AccountState) : Prop := Separates AccountState.accountId states

section Keys

variable {opts : RoutingOptions} {now : ℚ} {pool pool' : List AccountState}

theorem separates_of_id {κ : Type} [LinearOrder κ] {key : AccountState → κ}
    (distinct : DistinctIds pool)
    (last : ∀ s ∈ pool, ∀ t ∈ pool, key s = key t → s.accountId = t.accountId) :
    Separates key pool :=
  fun s hs t ht same => distinct s hs t ht (last s hs t ht same)

theorem usageSortKey_id {s t : AccountState} (h : usageSortKey s = usageSortKey t) :
    s.accountId = t.accountId := by
  simp only [usageSortKey, toLex_inj, Prod.mk.injEq] at h
  exact h.2.2.2

theorem primaryUsageSortKey_id {s t : AccountState}
    (h : primaryUsageSortKey s = primaryUsageSortKey t) : s.accountId = t.accountId := by
  simp only [primaryUsageSortKey, toLex_inj, Prod.mk.injEq] at h
  exact h.2.2.2

theorem argmin_usageSortKey (distinct : DistinctIds pool) (h : pool.Perm pool') :
    pool.argmin usageSortKey = pool'.argmin usageSortKey :=
  argmin_perm (separates_of_id distinct fun _ _ _ _ => usageSortKey_id) h

/-! ## The pools up to order -/

theorem healthPool_perm (h : pool.Perm pool') : (healthPool pool).Perm (healthPool pool') :=
  firstNonEmpty_perm (h.filter _) (firstNonEmpty_perm (h.filter _)
    (firstNonEmpty_perm (h.filter _) h))

theorem effectivePool_perm (h : pool.Perm pool') :
    (effectivePool pool).Perm (effectivePool pool') :=
  firstNonEmpty_perm ((healthPool_perm h).filter _) (firstNonEmpty_perm
    ((healthPool_perm h).filter _) (firstNonEmpty_perm ((healthPool_perm h).filter _)
      (healthPool_perm h)))

theorem resetPreferred_perm (h : pool.Perm pool') :
    (resetPreferred opts now pool).Perm (resetPreferred opts now pool') := by
  simp only [resetPreferred]
  split
  · exact least_perm h
  · exact h

theorem lowestPlannerCostCandidates_perm {costs : Dict String ℚ} (h : pool.Perm pool') :
    (lowestPlannerCostCandidates pool costs).Perm (lowestPlannerCostCandidates pool' costs) := by
  simp only [lowestPlannerCostCandidates]
  split
  · exact h
  · exact least_perm h

theorem max?_perm {xs ys : List ℚ} (h : xs.Perm ys) : xs.max? = ys.max? := by
  cases highest : xs.max? with
  | none =>
    rw [List.max?_eq_none_iff] at highest
    subst highest
    rw [h.symm.eq_nil]
    rfl
  | some m =>
    rw [List.max?_eq_some_iff] at highest
    refine (List.max?_eq_some_iff.mpr ⟨h.mem_iff.mp highest.1, fun x hx => ?_⟩).symm
    exact highest.2 x (h.mem_iff.mpr hx)

theorem relativeAvailabilityWeighted_perm (h : pool.Perm pool') :
    (relativeAvailabilityWeighted opts now pool).Perm
      (relativeAvailabilityWeighted opts now pool') := by
  simp only [relativeAvailabilityWeighted]
  rw [max?_perm (h.map _)]
  split
  · exact .refl _
  · exact (h.map _).filter _

/-- The weighted candidates are the same list, not only the same accounts. -/
theorem relativeAvailabilityWeightedCandidates_perm (distinct : DistinctIds pool)
    (h : pool.Perm pool') : relativeAvailabilityWeightedCandidates opts now pool =
      relativeAvailabilityWeightedCandidates opts now pool' := by
  rw [relativeAvailabilityWeightedCandidates, relativeAvailabilityWeightedCandidates,
    sortOn_perm (fun a ha b hb same => ?_) (relativeAvailabilityWeighted_perm h)]
  simp only [WeightedCandidate.sortKey, toLex_inj, Prod.mk.injEq, neg_inj] at same
  obtain ⟨weight, rawScore, usage⟩ := same
  have state := distinct _ (mem_relativeAvailabilityWeighted ha).1 _
    (mem_relativeAvailabilityWeighted hb).1 (usageSortKey_id usage)
  cases a
  cases b
  simp only at weight rawScore state
  rw [weight, rawScore, state]

theorem selectUsageWeighted_perm (distinct : DistinctIds pool) (h : pool.Perm pool') :
    selectUsageWeighted opts now pool = selectUsageWeighted opts now pool' := by
  simp only [selectUsageWeighted]
  split
  · refine argmin_perm (separates_of_id distinct fun s _ t _ same => ?_) h
    simp only [toLex_inj, Prod.mk.injEq] at same
    have usage := same.2.2
    cases order : if opts.primaryFirstUsageWeighted then .primaryFirst
        else opts.usageWeightedOrder with
    | primaryFirst =>
      rw [order] at usage
      exact primaryUsageSortKey_id usage
    | secondaryFirst =>
      rw [order] at usage
      exact usageSortKey_id usage
  · refine argmin_perm (separates_of_id distinct fun s _ t _ same => ?_) h
    simp only [toLex_inj, Prod.mk.injEq] at same
    have usage := same.2
    cases order : if opts.primaryFirstUsageWeighted then .primaryFirst
        else opts.usageWeightedOrder with
    | primaryFirst =>
      rw [order] at usage
      exact primaryUsageSortKey_id usage
    | secondaryFirst =>
      rw [order] at usage
      exact usageSortKey_id usage

/-- A deterministic strategy picks the same account from every order of its pool. -/
theorem rank_perm (deterministic : opts.deterministic = true) (distinct : DistinctIds pool)
    (collisionFree : opts.CollisionFree pool) (h : pool.Perm pool') :
    rank opts now pool = rank opts now pool' := by
  have effective := effectivePool_perm h
  have effectiveIds : DistinctIds (effectivePool pool) := distinct.subset effectivePool_subset
  have preferred := @resetPreferred_perm opts now _ _ effective
  have preferredIds : DistinctIds (resetPreferred opts now (effectivePool pool)) :=
    effectiveIds.subset resetPreferred_subset
  simp only [rank]
  cases strategy : opts.routingStrategy with
  | singleAccount => exact argmin_perm distinct h
  | sequentialDrain =>
    refine argmin_perm (separates_of_id distinct fun s _ t _ same => ?_) h
    simp only [sequentialDrainSortKey, toLex_inj, Prod.mk.injEq] at same
    exact same.2.2
  | resetDrain =>
    refine argmin_perm (separates_of_id distinct fun s _ t _ same => ?_) h
    simp only [resetDrainSortKey, toLex_inj, Prod.mk.injEq] at same
    exact same.2.2.2.2.2
  | roundRobin =>
    refine argmin_perm (separates_of_id effectiveIds fun s hs t ht same => ?_) effective
    simp only [roundRobinSortKey, toLex_inj, Prod.mk.injEq] at same
    exact collisionFree strategy s (effectivePool_subset hs) t (effectivePool_subset ht) same.2.2
  | capacityWeighted =>
    have probe : opts.deterministicProbe = true := by
      simpa only [RoutingOptions.deterministic, strategy] using deterministic
    simp only [probe, if_true]
    refine argmin_perm (separates_of_id preferredIds fun s _ t _ same => ?_) preferred
    simp only [capacityProbeSortKeyWithCost, toLex_inj, Prod.mk.injEq] at same
    exact usageSortKey_id same.2.2
  | relativeAvailability =>
    have probe : opts.deterministicProbe = true := by
      simpa only [RoutingOptions.deterministic, strategy] using deterministic
    have cheap := @lowestPlannerCostCandidates_perm _ _ opts.routingCosts effective
    have cheapIds : DistinctIds (lowestPlannerCostCandidates (effectivePool pool)
        opts.routingCosts) := effectiveIds.subset lowestPlannerCostCandidates_subset
    simp only [selectRelativeAvailability, probe, if_true]
    rw [relativeAvailabilityWeightedCandidates_perm cheapIds cheap,
      argmin_usageSortKey cheapIds cheap]
  | fillFirst =>
    refine argmin_perm (separates_of_id preferredIds fun s _ t _ same => ?_) preferred
    simp only [fillFirstSortKey, toLex_inj, Prod.mk.injEq] at same
    exact same.2.2
  | usageWeighted => exact selectUsageWeighted_perm effectiveIds effective

end Keys

/-! ## The filters up to order -/

/-- The accounts in error backoff, as the filter leaves them. -/
def heldOf (opts : SelectOptions) (now : ℚ) (states : List AccountState) : List AccountState :=
  withStanding .backoff (states.map (examine opts now))

/-- The fallback to error backoff may be used. -/
def fallbackOpen (opts : SelectOptions) (now : ℚ) (states : List AccountState) : Prop :=
  opts.allowBackoffFallback = true ∧
    (2 ≤ (heldOf opts now states).length ∨ ∃ t ∈ states.map (examine opts now),
      t.1.status ≠ .active ∧ ∀ s ∈ heldOf opts now states, s.accountId ≠ t.1.accountId)

/-- The accounts in error backoff that leave it first. -/
def soonestOf (opts : SelectOptions) (now : ℚ) (states : List AccountState) :
    List AccountState :=
  least backoffExpiresAt (heldOf opts now states)

section Filters

variable {opts : SelectOptions} {now : ℚ} {states states' pool pool' : List AccountState}

theorem soonestBackoff_eq (first : AccountState) (rest : List AccountState) :
    (first :: rest).argmin backoffExpiresAt = some (soonestBackoff first rest) := by
  have fold : ∀ best, rest.foldl (List.argAux fun b c => backoffExpiresAt b < backoffExpiresAt c)
      (some best) = some (soonestBackoff best rest) := by
    induction rest with
    | nil => exact fun _ => rfl
    | cons s rest ih =>
      intro best
      simp only [List.foldl_cons, soonestBackoff, List.argAux] at ih ⊢
      split
      · exact ih s
      · exact ih best
  exact fold first

/-- The fallback takes the first of the accounts in backoff that expire soonest. -/
theorem fallbackPool_open (h : fallbackOpen opts now states) : fallbackPool opts now states =
    ((heldOf opts now states).argmin backoffExpiresAt).toList := by
  obtain ⟨allowed, many⟩ := h
  simp only [fallbackPool]
  rw [show withStanding .backoff (states.map (examine opts now)) = heldOf opts now states from rfl]
  cases held : heldOf opts now states with
  | nil => rfl
  | cons first rest =>
    rw [soonestBackoff_eq, Option.toList_some]
    refine if_pos ⟨allowed, ?_⟩
    rw [held] at many
    rcases many with two | ⟨t, ht, inactive, other⟩
    · left
      rintro rfl
      simp at two
    · right
      rw [List.any_eq_true]
      refine ⟨t.1, List.mem_map_of_mem ht, ?_⟩
      simp only [Bool.and_eq_true, bne_iff_ne, Bool.not_eq_true', List.contains_eq_mem,
        decide_eq_false_iff_not]
      refine ⟨inactive, fun inHeld => ?_⟩
      obtain ⟨s, hs, same⟩ := List.mem_map.mp inHeld
      exact other s hs same

theorem fallbackPool_closed (h : ¬ fallbackOpen opts now states) :
    fallbackPool opts now states = [] := by
  simp only [fallbackPool]
  rw [show withStanding .backoff (states.map (examine opts now)) = heldOf opts now states from rfl]
  cases held : heldOf opts now states with
  | nil => rfl
  | cons first rest =>
    refine if_neg fun taken => h ⟨taken.1, ?_⟩
    rw [held]
    rcases taken.2 with some_ | blocked
    · left
      cases rest with
      | nil => exact absurd rfl some_
      | cons second rest => simp
    · right
      obtain ⟨s, hs, inactive⟩ := List.any_eq_true.mp blocked
      obtain ⟨t, ht, rfl⟩ := List.mem_map.mp hs
      simp only [Bool.and_eq_true, bne_iff_ne, Bool.not_eq_true', List.contains_eq_mem,
        decide_eq_false_iff_not] at inactive
      exact ⟨t, ht, inactive.1, fun s hs same => inactive.2 (List.mem_map.mpr ⟨s, hs, same⟩)⟩

theorem withStanding_perm (standing : Standing) (h : states.Perm states') :
    (withStanding standing (states.map (examine opts now))).Perm
      (withStanding standing (states'.map (examine opts now))) :=
  ((h.map _).filter _).map _

theorem fallbackOpen_perm (h : states.Perm states') (open_ : fallbackOpen opts now states) :
    fallbackOpen opts now states' := by
  have held : (heldOf opts now states).Perm (heldOf opts now states') := withStanding_perm _ h
  refine ⟨open_.1, open_.2.imp (fun two => ?_) fun other => ?_⟩
  · rw [← held.length_eq]
    exact two
  · obtain ⟨t, ht, inactive, apart⟩ := other
    refine ⟨t, (h.map _).mem_iff.mp ht, inactive, fun s hs => ?_⟩
    exact apart s (held.mem_iff.mpr hs)

theorem expendable_perm (h : pool.Perm pool') : expendable pool now = expendable pool' now := by
  have count : preserveCount pool = preserveCount pool' := h.countP_eq _
  funext s
  simp only [expendable, hasOtherUsableForegroundCapacity, count]
  rw [h.any_eq]

theorem candidates_perm (h : pool.Perm pool') :
    (candidates opts now pool).Perm (candidates opts now pool') := by
  have filtered : ∀ policy, (pool.filter fun s => routingPolicy s == policy &&
      expendable pool now s).Perm (pool'.filter fun s => routingPolicy s == policy &&
      expendable pool' now s) := by
    intro policy
    rw [expendable_perm h]
    exact h.filter _
  have all : ∀ xs : List AccountState,
      (filterOpportunisticCandidates xs now).toOption.getD [] =
        (xs.filter fun s => routingPolicy s == "burn_first" && expendable xs now s) ++
          (xs.filter fun s => routingPolicy s == "normal" && expendable xs now s) ++
          (xs.filter fun s => routingPolicy s == "preserve" && expendable xs now s) := by
    intro xs
    simp only [filterOpportunisticCandidates]
    split
    · rename_i nothing
      rw [nothing]
      split <;> rfl
    · rfl
  simp only [candidates]
  split
  · rw [all, all]
    exact ((filtered _).append (filtered _)).append (filtered _)
  · exact h

/-- What an account of a pool comes from. -/
theorem mem_withStanding_iff {standing : Standing} {c : AccountState} :
    c ∈ withStanding standing (states.map (examine opts now)) ↔
      ∃ s ∈ states, examine opts now s = (c, standing) := by
  constructor
  · intro h
    obtain ⟨s, hs, rfl, standing_⟩ := mem_withStanding h
    exact ⟨s, hs, Prod.ext rfl standing_⟩
  · rintro ⟨s, hs, examined⟩
    refine List.mem_map.mpr ⟨(c, standing), List.mem_filter.mpr ⟨?_, by simp⟩, rfl⟩
    exact List.mem_map.mpr ⟨s, hs, examined⟩

/-- Every account that can be ranked carries the id of its state. -/
structure FromStates (opts : SelectOptions) (now : ℚ) (states pool : List AccountState) :
    Prop where
  origin : ∀ c ∈ pool, ∃ s ∈ states, (examine opts now s).1 = c

theorem FromStates.distinct (origin : FromStates opts now states pool)
    (distinct : DistinctIds states) : DistinctIds pool := by
  intro c hc d hd same
  obtain ⟨s, hs, rfl⟩ := origin.origin c hc
  obtain ⟨t, ht, rfl⟩ := origin.origin d hd
  rw [(examine_same opts now s).accountId, (examine_same opts now t).accountId] at same
  rw [distinct s hs t ht same]

theorem FromStates.collisionFree {routing : RoutingOptions} (origin : FromStates opts now states pool)
    (collisionFree : routing.CollisionFree states) : routing.CollisionFree pool := by
  intro roundRobin c hc d hd same
  obtain ⟨s, hs, rfl⟩ := origin.origin c hc
  obtain ⟨t, ht, rfl⟩ := origin.origin d hd
  rw [(examine_same opts now s).accountId, (examine_same opts now t).accountId] at same ⊢
  exact collisionFree roundRobin s hs t ht same

theorem FromStates.subset (origin : FromStates opts now states pool) (h : pool' ⊆ pool) :
    FromStates opts now states pool' :=
  ⟨fun c hc => origin.origin c (h hc)⟩

theorem fromStates_availableOf : FromStates opts now states (availableOf opts now states) := by
  refine ⟨fun c hc => ?_⟩
  obtain ⟨s, hs, examined⟩ := mem_withStanding_iff.mp hc
  exact ⟨s, hs, congrArg Prod.fst examined⟩

theorem candidates_subset : candidates opts now pool ⊆ pool := by
  intro c hc
  simp only [candidates] at hc
  split at hc
  · cases left : filterOpportunisticCandidates pool now with
    | error reason =>
      rw [left] at hc
      cases hc
    | ok kept =>
      rw [left] at hc
      exact mem_filterOpportunisticCandidates left hc
  · exact hc

theorem candidates_single (s : AccountState) :
    candidates opts now [s] = [] ∨ candidates opts now [s] = [s] := by
  simp only [candidates]
  split
  · simp only [filterOpportunisticCandidates]
    split
    · split
      · exact Or.inl rfl
      · exact Or.inl rfl
    · rename_i some_
      right
      -- a single account is of one policy, so the three groups hold it at most once
      simp only [List.filter_cons, List.filter_nil, Except.toOption, Option.getD_some] at some_ ⊢
      by_cases spare : expendable [s] now s = true
      · simp only [spare, Bool.and_true, beq_iff_eq] at some_ ⊢
        by_cases burnFirst : routingPolicy s = "burn_first"
        · simp [burnFirst]
        · by_cases normal : routingPolicy s = "normal"
          · simp [normal]
          · by_cases preserve : routingPolicy s = "preserve"
            · simp [preserve]
            · simp [burnFirst, normal, preserve] at some_
      · simp [spare] at some_
  · exact Or.inr rfl

end Filters

/-! ## The selection -/

/-- The fallback to error backoff has no tie to break: it is not reached or not allowed, one
account alone leaves its backoff first, or the opportunistic filter refuses each that does. -/
def BackoffTieFree (opts : SelectOptions) (now : ℚ) (states : List AccountState) : Prop :=
  availableOf opts now states ≠ [] ∨ ¬ fallbackOpen opts now states ∨
    (∀ s ∈ soonestOf opts now states, ∀ t ∈ soonestOf opts now states, s = t) ∨
    ∀ s ∈ soonestOf opts now states, candidates opts now [s] = []

section Selection

variable {routing : RoutingOptions} {ranking : Ranking} {opts : SelectOptions} {now : ℚ}
  {states states' : List AccountState}

theorem selected_account : (selectAccount routing.strategy ranking opts now states).account =
    rank routing now (candidates opts now (offered opts now states)) := by
  rw [selectAccount_account, chooseFrom_account]

theorem rank_single (s : AccountState) : rank routing now [s] = some s := by
  obtain ⟨c, hc⟩ := Option.isSome_iff_exists.mp
    (@rank_isSome routing now [s] (List.cons_ne_nil s []))
  rw [hc, List.mem_singleton.mp (rank_mem hc)]

theorem selected_available (some_ : availableOf opts now states ≠ []) :
    (selectAccount routing.strategy ranking opts now states).account =
      rank routing now (candidates opts now (availableOf opts now states)) := by
  rw [selected_account, offered, if_neg some_]

theorem selected_closed (nothing : availableOf opts now states = [])
    (closed : ¬ fallbackOpen opts now states) :
    (selectAccount routing.strategy ranking opts now states).account = none := by
  rw [selected_account, offered, if_pos nothing, fallbackPool_closed closed, candidates_nil,
    rank_nil]

theorem selected_fallback {m : AccountState} (nothing : availableOf opts now states = [])
    (open_ : fallbackOpen opts now states)
    (soonest : (heldOf opts now states).argmin backoffExpiresAt = some m) :
    (selectAccount routing.strategy ranking opts now states).account =
      rank routing now (candidates opts now [m]) := by
  rw [selected_account, offered, if_pos nothing, fallbackPool_open open_, soonest,
    Option.toList_some]

theorem availableOf_nil_perm (h : states.Perm states') (nothing : availableOf opts now states = []) :
    availableOf opts now states' = [] := by
  have perm : (availableOf opts now states).Perm (availableOf opts now states') :=
    withStanding_perm _ h
  rw [nothing] at perm
  exact perm.symm.eq_nil

theorem argmin_mem_soonestOf {m : AccountState}
    (h : (heldOf opts now states).argmin backoffExpiresAt = some m) :
    m ∈ soonestOf opts now states :=
  mem_least.mpr ⟨List.argmin_mem h, fun _ hb => List.le_of_mem_argmin hb h⟩

/-- Each account that leaves its backoff first is the fallback of some order of the states. -/
theorem soonest_first {m : AccountState} (h : m ∈ soonestOf opts now states) :
    ∃ order, states.Perm order ∧
      (heldOf opts now order).argmin backoffExpiresAt = some m := by
  obtain ⟨hm, soonest⟩ := mem_least.mp h
  obtain ⟨s, hs, examined⟩ := mem_withStanding_iff.mp hm
  refine ⟨s :: states.erase s, List.perm_cons_erase hs, ?_⟩
  have held : heldOf opts now (s :: states.erase s) = m :: heldOf opts now (states.erase s) := by
    simp only [heldOf, withStanding, List.map_cons, examined]
    rw [List.filter_cons_of_pos (by simp)]
    rfl
  rw [held]
  refine argmin_cons fun b hb => soonest b ?_
  obtain ⟨t, ht, examinedT⟩ := mem_withStanding_iff.mp hb
  exact mem_withStanding_iff.mpr ⟨t, List.mem_of_mem_erase ht, examinedT⟩

theorem tieFree_order (deterministic : routing.deterministic = true) (distinct : DistinctIds states)
    (collisionFree : routing.CollisionFree states) (tieFree : BackoffTieFree opts now states)
    (h : states.Perm states') :
    (selectAccount routing.strategy ranking opts now states').account =
      (selectAccount routing.strategy ranking opts now states).account := by
  have held : (heldOf opts now states).Perm (heldOf opts now states') := withStanding_perm _ h
  by_cases some_ : availableOf opts now states = []
  · have nothing := availableOf_nil_perm h some_
    by_cases open_ : fallbackOpen opts now states
    · have open' := fallbackOpen_perm h open_
      cases chosen : (heldOf opts now states).argmin backoffExpiresAt with
      | none =>
        -- nobody is in backoff, so the order is of no account
        have none_ := List.argmin_eq_none.mp chosen
        rw [selected_account, selected_account, offered, offered, if_pos some_, if_pos nothing,
          fallbackPool_open open_, fallbackPool_open open', chosen]
        rw [none_] at held
        rw [held.symm.eq_nil, List.argmin_nil]
      | some m =>
        have first := argmin_mem_soonestOf chosen
        rw [selected_fallback some_ open_ chosen]
        obtain ⟨m', chosen'⟩ := Option.isSome_iff_exists.mp (@argmin_isSome _ _ backoffExpiresAt
          (heldOf opts now states') _ (fun none_ => List.ne_nil_of_mem (List.argmin_mem chosen) (by
            rw [none_] at held
            exact held.eq_nil)))
        have first' : m' ∈ soonestOf opts now states :=
          (least_perm held).mem_iff.mpr (argmin_mem_soonestOf chosen')
        rw [selected_fallback nothing open' chosen']
        rcases tieFree with available | closed | unique | refused
        · exact absurd some_ available
        · exact absurd open_ closed
        · rw [unique m' first' m first]
        · rw [refused m first, refused m' first']
    · rw [selected_closed some_ open_, selected_closed nothing fun open' =>
        open_ (fallbackOpen_perm h.symm open')]
  · rw [selected_available some_, selected_available fun none_ =>
      some_ (availableOf_nil_perm h.symm none_)]
    have origin := (@fromStates_availableOf opts now states).subset
      (@candidates_subset opts now (availableOf opts now states))
    exact (rank_perm deterministic (origin.distinct distinct) (origin.collisionFree collisionFree)
      (candidates_perm (withStanding_perm _ h))).symm

/-- Two accounts that leave their backoff first, not both refused, are told apart by order alone. -/
theorem tied_orders (distinct : DistinctIds states) (nothing : availableOf opts now states = [])
    (open_ : fallbackOpen opts now states) {x y : AccountState}
    (hx : x ∈ soonestOf opts now states) (hy : y ∈ soonestOf opts now states) (apart : y ≠ x)
    (passes : candidates opts now [x] ≠ []) :
    ∃ left right, states.Perm left ∧ states.Perm right ∧
      (selectAccount routing.strategy ranking opts now left).account.map (·.accountId) ≠
        (selectAccount routing.strategy ranking opts now right).account.map (·.accountId) := by
  obtain ⟨left, hleft, firstLeft⟩ := soonest_first hx
  obtain ⟨right, hright, firstRight⟩ := soonest_first hy
  refine ⟨left, right, hleft, hright, ?_⟩
  rw [selected_fallback (availableOf_nil_perm hleft nothing) (fallbackOpen_perm hleft open_)
      firstLeft,
    selected_fallback (availableOf_nil_perm hright nothing) (fallbackOpen_perm hright open_)
      firstRight,
    (candidates_single x).resolve_left passes, rank_single]
  rcases candidates_single y with refused | kept
  · rw [refused, rank_nil]
    exact fun same => Option.some_ne_none _ same
  · rw [kept, rank_single]
    intro same
    have held : FromStates opts now states (heldOf opts now states) := by
      refine ⟨fun c hc => ?_⟩
      obtain ⟨s, hs, examined⟩ := mem_withStanding_iff.mp hc
      exact ⟨s, hs, congrArg Prod.fst examined⟩
    exact apart (held.distinct distinct y (mem_least.mp hy).1 x (mem_least.mp hx).1
      (Option.some.inj same).symm)

end Selection

/-- A deterministic mode returns the same account id from every order of the states exactly
where the fallback to error backoff has no tie to break. -/
theorem selection_order_iff (routing : RoutingOptions) (ranking : Ranking) (opts : SelectOptions)
    (now : ℚ) (states : List AccountState) (deterministic : routing.deterministic = true)
    (distinct : (states.map AccountState.accountId).Nodup)
    (collisionFree : routing.CollisionFree states) :
    (∀ states', states.Perm states' →
      (selectAccount routing.strategy ranking opts now states').account.map (·.accountId) =
        (selectAccount routing.strategy ranking opts now states).account.map (·.accountId)) ↔
      BackoffTieFree opts now states := by
  have ids : DistinctIds states :=
    fun s hs t ht same => List.inj_on_of_nodup_map distinct hs ht same
  constructor
  · intro same
    by_contra tied
    simp only [BackoffTieFree, not_or, not_not, not_forall] at tied
    obtain ⟨nothing, open_, ⟨a, ha, b, hb, apart⟩, x, hx, passes⟩ := tied
    have other : ∃ y ∈ soonestOf opts now states, y ≠ x := by
      by_cases isA : a = x
      · exact ⟨b, hb, fun isB => apart (isA.trans isB.symm)⟩
      · exact ⟨a, ha, isA⟩
    obtain ⟨y, hy, different⟩ := other
    obtain ⟨left, right, hleft, hright, differ⟩ :=
      @tied_orders routing ranking _ _ _ ids nothing open_ x y hx hy different passes
    exact differ ((same left hleft).trans (same right hright).symm)
  · intro tieFree states' h
    rw [tieFree_order deterministic ids collisionFree tieFree h]

/-- The powers with a whole exponent. -/
def wholePower : Power where
  pow x p := x ^ p.num.toNat
  zero_pow p positive := by
    have := Rat.num_pos.mpr positive
    exact zero_pow (by omega)
  one_pow p _ := one_pow _

/-- The draw that always yields the first account of positive weight. -/
def firstPositive : WeightedDraw where
  choose weighted some_ :=
    match found : weighted.find? fun p => decide (0 < p.2) with
    | some p => ⟨p.1, p, List.mem_of_find?_eq_some found, rfl,
        by simpa using List.find?_some found⟩
    | none => absurd some_ (by
        obtain ⟨p, hp, positive⟩ := some_
        exact absurd positive (of_decide_eq_false (by simpa using List.find?_eq_none.mp found p hp)))

def fillFirstRouting : RoutingOptions where
  routingStrategy := .fillFirst
  replicaSalt := "host"
  sha256Hex := id
  power := wholePower
  draw := firstPositive

def failing (accountId : String) (lastErrorAt : ℚ) : AccountState :=
  { accountId := accountId, status := .active, errorCount := 3, lastErrorAt := some lastErrorAt }

theorem selection_order_iff_failing :
    BackoffTieFree {} 1000 [failing "b" 980, failing "a" 990] ∧
    ∀ states', [failing "b" 980, failing "a" 990].Perm states' →
      (selectAccount fillFirstRouting.strategy .routed {} 1000 states').account.map (·.accountId) =
        some "b" := by
  have tieFree : BackoffTieFree {} 1000 [failing "b" 980, failing "a" 990] := by
    right; right; left
    have alone : soonestOf {} 1000 [failing "b" 980, failing "a" 990] = [failing "b" 980] := by
      decide +kernel
    rw [alone]
    intro s hs t ht
    rw [List.mem_singleton.mp hs, List.mem_singleton.mp ht]
  refine ⟨tieFree, fun states' h => ?_⟩
  rw [(selection_order_iff fillFirstRouting .routed {} 1000 _ rfl (by decide)
    (fun roundRobin => by cases roundRobin)).mpr tieFree states' h]
  decide +kernel

def failingTogether : List AccountState := [failing "a" 990, failing "b" 990]

/-- Two accounts that leave their backoff together: whichever comes first is returned. -/
theorem tied_backoff_follows_order : fillFirstRouting.deterministic = true ∧
    ¬ ∀ states', failingTogether.Perm states' →
      (selectAccount fillFirstRouting.strategy .routed {} 1000 states').account.map (·.accountId) =
        (selectAccount fillFirstRouting.strategy .routed {} 1000
          failingTogether).account.map (·.accountId) := by
  refine ⟨rfl, fun same => ?_⟩
  have swapped := same [failing "b" 990, failing "a" 990] (List.Perm.swap _ _ _)
  have first : (selectAccount fillFirstRouting.strategy .routed {} 1000
      failingTogether).account.map (·.accountId) = some "a" := by decide +kernel
  have second : (selectAccount fillFirstRouting.strategy .routed {} 1000
      [failing "b" 990, failing "a" 990]).account.map (·.accountId) = some "b" := by
    decide +kernel
  rw [first, second] at swapped
  exact absurd swapped (by decide)

end Balancer
