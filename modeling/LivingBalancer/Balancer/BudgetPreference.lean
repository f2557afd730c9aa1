import LivingBalancer.Balancer.Eligibility
import LivingBalancer.Balancer.Stickiness

/-!
# Availability under the budget preference

`_select_account_preferring_budget_safe` with all its options: when it finds an account where
`select_account` would, and when it hands out one in error backoff. The clock is read once.
-/

namespace Balancer

/-- `select_account` with the options `opts` on the states that satisfy `p`. -/
def selectPart (cfg : RouteConfig) (ranking : Ranking) (opts : SelectOptions) (now : ℚ)
    (p : AccountState → Bool) (states : List AccountState) : Outcome :=
  ⟨examineWhere opts now p states,
    selectAccount cfg.strategy ranking opts now (states.filter p)⟩

def withoutFallback (opts : SelectOptions) : SelectOptions :=
  { opts with allowBackoffFallback := false }

/-- The burn-first accounts of the best health tier. -/
def burnFirstOf (states : List AccountState) (s : AccountState) : Bool :=
  s.healthTier == bestHealthTier states && s.routingPolicy == "burn_first"

/-- The attempt on the burn-first accounts. -/
def probeBurnFirst (cfg : RouteConfig) (ranking : Ranking) (opts : SelectOptions) (now : ℚ)
    (states : List AccountState) : Outcome :=
  if states.any (burnFirstOf states) then
    selectPart cfg ranking (withoutFallback opts) now (burnFirstOf states) states
  else notTried states

/-- The attempt on the budget-safe accounts. -/
def trySafe (cfg : RouteConfig) (ranking : Ranking) (opts : SelectOptions) (applySecondary : Bool)
    (now : ℚ) (states : List AccountState) : Outcome :=
  if states.any (budgetSafe cfg applySecondary) then
    selectPart cfg ranking opts now (budgetSafe cfg applySecondary) states
  else notTried states

/-- `_select_account_preferring_budget_safe` with its option values. -/
def preferBudgetSafe (cfg : RouteConfig) (ranking : Ranking) (opts : SelectOptions)
    (applySecondary : Bool) (now : ℚ) (states : List AccountState) : Outcome :=
  let safe := budgetSafe cfg applySecondary
  if cfg.routingStrategy.drains then
    if states.any safe then selectPart cfg ranking opts now safe states
    else selectPart cfg ranking opts now (fun _ => true) states
  else
    let first := probeBurnFirst cfg ranking opts now states
    if first.result.account.isSome then first
    else
      let preferred := trySafe cfg ranking opts applySecondary now first.states
      if preferred.result.account.isSome || (first.states.any safe && first.states.all safe) then
        preferred
      else
        let ranking := if cfg.routingStrategy = .usageWeighted then .primaryFirst else ranking
        selectPart cfg ranking opts now (fun _ => true) preferred.states

/-- The selection of a request is the one with the options of its route. -/
theorem selectAccountPreferringBudgetSafe_eq (cfg : RouteConfig) (ranking : Ranking)
    (applySecondary : Bool) (now : ℚ) (states : List AccountState) :
    selectAccountPreferringBudgetSafe cfg ranking applySecondary now states =
      preferBudgetSafe cfg ranking (cfg.options true) applySecondary now states := rfl

/-! ## Examining twice -/

section Examine

variable {opts : SelectOptions} {now : ℚ} {s : AccountState}

theorem recoverBlock_active (active : s.status = .active) : recoverBlock opts now s = (s, true) := by
  simp only [recoverBlock, active]

theorem recoverBlock_again :
    recoverBlock opts now (recoverBlock opts now s).1 =
      ((recoverBlock opts now s).1, (recoverBlock opts now s).2) := by
  rcases recoverBlock_cases opts now s with ⟨_, kept, _⟩ | ⟨_, lifted⟩ | ⟨_, lifted⟩
  · rw [kept, kept]
  · rw [lifted, recoverBlock_active rfl]
  · rw [lifted, recoverBlock_active rfl]

/-- The status checks look at the status, its reset and whether the quota is bypassed. -/
theorem recoverBlock_settled {t : AccountState} {passed : Bool} (same : SameAccount s t)
    (status : t.status = s.status) (reset : t.resetAt = s.resetAt)
    (settled : recoverBlock opts now s = (s, passed)) :
    recoverBlock opts now t = (t, passed) := by
  have bypass := @bypassStandardQuota_same opts _ _ same
  simp only [recoverBlock, status, reset, bypass] at settled ⊢
  cases kind : s.status <;> simp only [kind] at settled ⊢
  case rateLimited =>
    split
    · rename_i elapsed
      rw [if_pos elapsed] at settled
      have changed := congrArg (fun p => p.1.status) settled
      simp [kind] at changed
    · rename_i running
      rw [if_neg running] at settled
      rw [(Prod.mk.inj settled).2]
  case quotaExceeded =>
    split
    · rename_i elapsed
      rw [if_pos elapsed] at settled
      have changed := congrArg (fun p => p.1.status) settled
      simp [kind] at changed
    · rename_i running
      rw [if_neg running] at settled
      rw [(Prod.mk.inj settled).2]
  all_goals rw [(Prod.mk.inj settled).2]

theorem clearElapsedCooldown_of_running (h : resetElapsed now s.cooldownUntil = false) :
    clearElapsedCooldown now s = s := by
  simp [clearElapsedCooldown, h]

theorem clearElapsedCooldown_running :
    resetElapsed now (clearElapsedCooldown now s).cooldownUntil = false := by
  simp only [clearElapsedCooldown]
  split
  · rfl
  · rename_i running
    simpa using running

/-- What `examine` does once the status checks are passed and an elapsed cooldown is gone. -/
def holdBack (now : ℚ) (s : AccountState) : AccountState × Standing :=
  if stillRunning now s.cooldownUntil then (s, .skipped)
  else if 3 ≤ s.errorCount then
    if truthy s.lastErrorAt && s.lastErrorAt.any fun t =>
        decide (now - t < errorBackoff s.errorCount) then (s, .backoff)
    else ({ s with errorCount := 0, lastErrorAt := none }, .available)
  else (s, .available)

theorem examine_eq (opts : SelectOptions) (now : ℚ) (s : AccountState) : examine opts now s =
    if (recoverBlock opts now s).2 then
      holdBack now (clearElapsedCooldown now (recoverBlock opts now s).1)
    else ((recoverBlock opts now s).1, .skipped) := rfl

theorem holdBack_cases (now : ℚ) (s : AccountState) : (holdBack now s).1 = s ∨
    holdBack now s = ({ s with errorCount := 0, lastErrorAt := none }, .available) ∧
      stillRunning now s.cooldownUntil = false := by
  simp only [holdBack]
  split
  · exact .inl rfl
  · rename_i stopped
    split
    · split
      · exact .inl rfl
      · exact .inr ⟨rfl, by simpa using stopped⟩
    · exact .inl rfl

theorem holdBack_again (now : ℚ) (s : AccountState) :
    holdBack now (holdBack now s).1 = holdBack now s := by
  rcases holdBack_cases now s with kept | ⟨reset, stopped⟩
  · rw [kept]
  · rw [reset]
    simp [holdBack, stopped]

theorem examine_again : examine opts now (examine opts now s).1 = examine opts now s := by
  have first := @recoverBlock_again opts now s
  rw [examine_eq opts now s]
  cases passed : (recoverBlock opts now s).2 with
  | false =>
    rw [passed] at first
    rw [if_neg (by decide), examine_eq, first]
    rfl
  | true =>
    rw [if_pos rfl]
    have running := @clearElapsedCooldown_running now (recoverBlock opts now s).1
    have cleared := clearElapsedCooldown_status now (recoverBlock opts now s).1
    have settled := recoverBlock_settled (clearElapsedCooldown_same now (recoverBlock opts now s).1)
      cleared.1 cleared.2 (passed ▸ first)
    have again := holdBack_again now (clearElapsedCooldown now (recoverBlock opts now s).1)
    generalize clearElapsedCooldown now (recoverBlock opts now s).1 = c at running settled again
    have kept : recoverBlock opts now (holdBack now c).1 = ((holdBack now c).1, true) ∧
        resetElapsed now (holdBack now c).1.cooldownUntil = false := by
      rcases holdBack_cases now c with same | ⟨reset, _⟩
      · rw [same]
        exact ⟨settled, running⟩
      · rw [reset]
        exact ⟨recoverBlock_settled (s := c) ⟨rfl, rfl, rfl, rfl, rfl, rfl⟩ rfl rfl settled, running⟩
    rw [examine_eq, kept.1, clearElapsedCooldown_of_running kept.2]
    exact again

end Examine

/-! ## What a pool offers -/

/-- The accounts of a pool that pass the filter, as it leaves them. -/
def availableOf (opts : SelectOptions) (now : ℚ) (pool : List AccountState) : List AccountState :=
  withStanding .available (pool.map (examine opts now))

/-- The account in error backoff that is tried when nothing else is left. -/
def fallbackPool (opts : SelectOptions) (now : ℚ) (pool : List AccountState) : List AccountState :=
  let examined := pool.map (examine opts now)
  let inBackoff := withStanding .backoff examined
  match inBackoff with
  | [] => []
  | first :: rest =>
    let hardBlockedExists := (examined.map Prod.fst).any fun s =>
      s.status != .active && !(inBackoff.map (·.accountId)).contains s.accountId
    if opts.allowBackoffFallback ∧ (rest ≠ [] ∨ hardBlockedExists) then
      [soonestBackoff first rest]
    else []

/-- What the strategy ranks. -/
def offered (opts : SelectOptions) (now : ℚ) (pool : List AccountState) : List AccountState :=
  if availableOf opts now pool = [] then fallbackPool opts now pool else availableOf opts now pool

/-- What the opportunistic filter leaves. -/
def candidates (opts : SelectOptions) (now : ℚ) (pool : List AccountState) : List AccountState :=
  if opts.opportunistic then ((filterOpportunisticCandidates pool now).toOption).getD [] else pool

section Pools

variable {strategy : Strategy} {ranking : Ranking} {opts : SelectOptions} {now : ℚ}
variable {pool : List AccountState}

theorem chooseFrom_isSome : (chooseFrom strategy ranking opts now pool).account.isSome = true ↔
    candidates opts now pool ≠ [] := by
  simp only [chooseFrom, candidates]
  cases opts.opportunistic with
  | false => cases pool <;> simp
  | true =>
    simp only [if_true]
    cases filterOpportunisticCandidates pool now with
    | error reason => simp [Except.toOption]
    | ok left => cases left <;> simp [Except.toOption]

theorem candidates_nil : candidates opts now [] = [] := by
  simp only [candidates]
  split
  · rfl
  · rfl

theorem chooseFrom_nil : (chooseFrom strategy ranking opts now []).account = none := by
  rw [← Option.not_isSome_iff_eq_none, chooseFrom_isSome, candidates_nil]
  exact fun h => h rfl

theorem selectAccount_account : (selectAccount strategy ranking opts now pool).account =
    (chooseFrom strategy ranking opts now (offered opts now pool)).account := by
  simp only [selectAccount]
  split
  · rename_i first rest listed
    have some_ : availableOf opts now pool = first :: rest := listed
    rw [offered, if_neg (some_ ▸ List.cons_ne_nil first rest)]
    rfl
  · rename_i listed held
    have nothing : availableOf opts now pool = [] := listed
    rw [offered, if_pos nothing, fallbackPool]
    simp only [held]
    exact chooseFrom_nil.symm
  · rename_i listed held
    have nothing : availableOf opts now pool = [] := listed
    rw [offered, if_pos nothing, fallbackPool]
    simp only [held]
    split
    · rfl
    · exact chooseFrom_nil.symm

theorem selectAccount_isSome : (selectAccount strategy ranking opts now pool).account.isSome = true ↔
    candidates opts now (offered opts now pool) ≠ [] := by
  rw [selectAccount_account, chooseFrom_isSome]

theorem mem_availableOf {c : AccountState} : c ∈ availableOf opts now pool ↔
    ∃ s ∈ pool, passes opts now s = true ∧ (examine opts now s).1 = c := by
  simp only [availableOf, withStanding, List.mem_map, List.mem_filter, passes, decide_eq_true_eq]
  constructor
  · rintro ⟨p, ⟨⟨s, hs, rfl⟩, standing⟩, rfl⟩
    exact ⟨s, hs, standing, rfl⟩
  · rintro ⟨s, hs, standing, rfl⟩
    exact ⟨_, ⟨⟨s, hs, rfl⟩, standing⟩, rfl⟩

theorem availableOf_eq_nil : availableOf opts now pool = [] ↔
    ∀ s ∈ pool, passes opts now s = false := by
  rw [List.eq_nil_iff_forall_not_mem]
  constructor
  · intro none_ s hs
    by_contra passed
    exact none_ _ (mem_availableOf.mpr ⟨s, hs, by simpa using passed, rfl⟩)
  · intro blocked c hc
    obtain ⟨s, hs, passed, _⟩ := mem_availableOf.mp hc
    rw [blocked s hs] at passed
    cases passed

/-- A pool with an account that passes the filter offers what passes it. -/
theorem offered_eq_available {t : AccountState} (ht : t ∈ pool)
    (passed : passes opts now t = true) :
    offered opts now pool = availableOf opts now pool ∧ availableOf opts now pool ≠ [] := by
  have some_ : availableOf opts now pool ≠ [] := by
    rw [Ne, availableOf_eq_nil]
    intro blocked
    rw [blocked t ht] at passed
    cases passed
  exact ⟨if_neg some_, some_⟩

theorem availableOf_healthy {c : AccountState} (h : c ∈ availableOf opts now pool) :
    inErrorBackoff now c = false := by
  obtain ⟨s, _, passed, rfl⟩ := mem_availableOf.mp h
  exact inErrorBackoff_of_available (of_decide_eq_true passed)

theorem fallbackPool_held {c : AccountState} (h : c ∈ fallbackPool opts now pool) :
    inErrorBackoff now c = true := by
  simp only [fallbackPool] at h
  split at h
  · cases h
  · rename_i first rest listed
    split at h
    · have member : c ∈ withStanding .backoff (pool.map (examine opts now)) := by
        rw [listed, List.mem_singleton.mp h]
        exact soonestBackoff_mem first rest
      obtain ⟨s, _, rfl, standing⟩ := mem_withStanding member
      exact inErrorBackoff_of_backoff standing
    · cases h

/-- An account that is handed out in error backoff comes from the fallback. -/
theorem selectAccount_held {c : AccountState}
    (h : (selectAccount strategy ranking opts now pool).account = some c)
    (held : inErrorBackoff now c = true) : availableOf opts now pool = [] ∧
      candidates opts now (fallbackPool opts now pool) ≠ [] := by
  have chosen := selectAccount_isSome.mp (Option.isSome_iff_exists.mpr ⟨c, h⟩)
  rw [selectAccount_account] at h
  have member := mem_chooseFrom h
  rw [offered] at member chosen
  split at member
  · rename_i nothing
    rw [if_pos nothing] at chosen
    exact ⟨nothing, chosen⟩
  · rw [availableOf_healthy member] at held
    cases held

theorem selectAccount_fallback (nothing : availableOf opts now pool = [])
    (open_ : candidates opts now (fallbackPool opts now pool) ≠ []) :
    ∃ c, (selectAccount strategy ranking opts now pool).account = some c ∧
      inErrorBackoff now c = true := by
  have pooled : offered opts now pool = fallbackPool opts now pool := by rw [offered, if_pos nothing]
  have some_ := (@selectAccount_isSome strategy ranking opts now pool).mpr (pooled ▸ open_)
  obtain ⟨c, hc⟩ := Option.isSome_iff_exists.mp some_
  refine ⟨c, hc, ?_⟩
  rw [selectAccount_account, pooled] at hc
  exact fallbackPool_held (mem_chooseFrom hc)

end Pools

/-! ## The attempts of one selection -/

/-- The accounts that count as budget-safe once the burn-first accounts have been tried. -/
def safePool (cfg : RouteConfig) (opts : SelectOptions) (applySecondary : Bool) (now : ℚ)
    (states : List AccountState) : List AccountState :=
  (if cfg.routingStrategy.drains then states
    else examineWhere opts now (burnFirstOf states) states).filter (budgetSafe cfg applySecondary)

section Attempts

variable {cfg : RouteConfig} {ranking : Ranking} {opts : SelectOptions} {now : ℚ}
variable {applySecondary : Bool} {states : List AccountState}

theorem examineWhere_of_none {p : AccountState → Bool} (none_ : states.any p = false) :
    examineWhere opts now p states = states := by
  rw [List.any_eq_false] at none_
  rw [examineWhere]
  calc states.map (fun s => if p s = true then (examine opts now s).1 else s)
      = states.map id := List.map_congr_left fun s hs => by rw [if_neg (none_ s hs), id]
    _ = states := List.map_id states

/-- A state that was examined already is examined the same way. -/
theorem map_examine_examineWhere (p : AccountState → Bool) :
    (examineWhere opts now p states).map (examine opts now) = states.map (examine opts now) := by
  rw [examineWhere, List.map_map]
  refine List.map_congr_left fun s _ => ?_
  simp only [Function.comp_apply]
  split
  · exact examine_again
  · rfl

theorem availableOf_examineWhere (p : AccountState → Bool) :
    availableOf opts now (examineWhere opts now p states) = availableOf opts now states := by
  simp only [availableOf, map_examine_examineWhere]

theorem offered_examineWhere (p : AccountState → Bool) :
    offered opts now (examineWhere opts now p states) = offered opts now states := by
  have fallback : fallbackPool opts now (examineWhere opts now p states) =
      fallbackPool opts now states := by
    simp only [fallbackPool, map_examine_examineWhere]
  rw [offered, offered, availableOf_examineWhere, fallback]

theorem probeBurnFirst_states : (probeBurnFirst cfg ranking opts now states).states =
    examineWhere opts now (burnFirstOf states) states := by
  simp only [probeBurnFirst]
  split
  · rfl
  · rename_i none_
    have none_ : states.any (burnFirstOf states) = false := by simpa using none_
    exact (examineWhere_of_none none_).symm

theorem fallbackPool_withoutFallback {pool : List AccountState} :
    fallbackPool (withoutFallback opts) now pool = [] := by
  simp only [fallbackPool, withoutFallback]
  split
  · rfl
  · simp

theorem probeBurnFirst_isSome :
    (probeBurnFirst cfg ranking opts now states).result.account.isSome = true ↔
      candidates opts now (availableOf opts now (states.filter (burnFirstOf states))) ≠ [] := by
  simp only [probeBurnFirst]
  split
  · have only : offered (withoutFallback opts) now (states.filter (burnFirstOf states)) =
        availableOf opts now (states.filter (burnFirstOf states)) := by
      rw [offered, fallbackPool_withoutFallback]
      split
      · rename_i nothing
        exact nothing.symm
      · rfl
    rw [selectPart, selectAccount_isSome, only]
    rfl
  · rename_i none_
    have empty : states.filter (burnFirstOf states) = [] := by
      rw [List.filter_eq_nil_iff]
      exact List.any_eq_false.mp (by simpa using none_)
    rw [empty]
    simp [notTried, availableOf, withStanding, candidates_nil]

/-- The burn-first attempt hands out a burn-first account that passes the filter. -/
theorem probeBurnFirst_mem {c : AccountState}
    (h : (probeBurnFirst cfg ranking opts now states).result.account = some c) :
    c ∈ availableOf opts now (states.filter (burnFirstOf states)) := by
  simp only [probeBurnFirst] at h
  split at h
  · rw [selectPart, selectAccount_account] at h
    have member := mem_chooseFrom h
    rw [offered, fallbackPool_withoutFallback] at member
    split at member
    · cases member
    · exact member
  · cases h

theorem probeBurnFirst_healthy {c : AccountState}
    (h : (probeBurnFirst cfg ranking opts now states).result.account = some c) :
    inErrorBackoff now c = false := by
  exact availableOf_healthy (probeBurnFirst_mem h)

theorem offered_of_examined {pool rest : List AccountState}
    (same : rest.map (examine opts now) = pool.map (examine opts now)) :
    availableOf opts now rest = availableOf opts now pool ∧
      offered opts now rest = offered opts now pool := by
  have available : availableOf opts now rest = availableOf opts now pool := by
    rw [availableOf, availableOf, same]
  have fallback : fallbackPool opts now rest = fallbackPool opts now pool := by
    simp only [fallbackPool, same]
  exact ⟨available, by rw [offered, offered, available, fallback]⟩

theorem trySafe_eq (cfg : RouteConfig) (ranking : Ranking) (opts : SelectOptions)
    (applySecondary : Bool) (now : ℚ) (states : List AccountState) :
    (trySafe cfg ranking opts applySecondary now states).result.account =
      (selectAccount cfg.strategy ranking opts now
        (states.filter (budgetSafe cfg applySecondary))).account ∧
    (trySafe cfg ranking opts applySecondary now states).states.map (examine opts now) =
      states.map (examine opts now) := by
  simp only [trySafe]
  split
  · exact ⟨rfl, map_examine_examineWhere _⟩
  · rename_i none_
    have empty : states.filter (budgetSafe cfg applySecondary) = [] := by
      rw [List.filter_eq_nil_iff]
      exact List.any_eq_false.mp (by simpa using none_)
    refine ⟨?_, rfl⟩
    rw [empty, selectAccount_account]
    exact chooseFrom_nil.symm

/-- After a vain burn-first attempt: the safe accounts are tried, and the whole pool if they offer
nothing and are not the whole pool. -/
theorem preferBudgetSafe_later (steady : cfg.routingStrategy.drains = false)
    (noBurn : (probeBurnFirst cfg ranking opts now states).result.account = none) :
    (preferBudgetSafe cfg ranking opts applySecondary now states).result.account =
        (selectAccount cfg.strategy ranking opts now
          (safePool cfg opts applySecondary now states)).account ∧
      ((selectAccount cfg.strategy ranking opts now
          (safePool cfg opts applySecondary now states)).account.isSome = true ∨
        (safePool cfg opts applySecondary now states).map (examine opts now) =
          states.map (examine opts now)) ∨
    (selectAccount cfg.strategy ranking opts now
        (safePool cfg opts applySecondary now states)).account = none ∧
      ∃ ranking' rest, rest.map (examine opts now) = states.map (examine opts now) ∧
        (preferBudgetSafe cfg ranking opts applySecondary now states).result.account =
          (selectAccount cfg.strategy ranking' opts now rest).account := by
  have pool : safePool cfg opts applySecondary now states =
      (probeBurnFirst cfg ranking opts now states).states.filter (budgetSafe cfg applySecondary) := by
    rw [probeBurnFirst_states, safePool, if_neg (by simp [steady])]
  obtain ⟨account, tried⟩ := trySafe_eq cfg ranking opts applySecondary now
    (probeBurnFirst cfg ranking opts now states).states
  rw [← pool] at account
  have left : (trySafe cfg ranking opts applySecondary now
      (probeBurnFirst cfg ranking opts now states).states).states.map (examine opts now) =
      states.map (examine opts now) := by
    rw [tried, probeBurnFirst_states, map_examine_examineWhere]
  simp only [preferBudgetSafe, steady, Bool.false_eq_true, if_false, noBurn, Option.isSome_none]
  split
  · rename_i stopped
    rw [Bool.or_eq_true, account, Bool.and_eq_true] at stopped
    refine .inl ⟨account, stopped.imp_right fun whole => ?_⟩
    rw [pool, List.filter_eq_self.mpr (by simpa using whole.2), probeBurnFirst_states,
      map_examine_examineWhere]
  · rename_i goesOn
    rw [Bool.or_eq_true, account, not_or] at goesOn
    refine .inr ⟨Option.not_isSome_iff_eq_none.mp goesOn.1,
      if cfg.routingStrategy = .usageWeighted then .primaryFirst else ranking, _, left, ?_⟩
    rw [selectPart]
    simp only [List.filter_true]

end Attempts

/-! ## Availability -/

section Main

variable {cfg : RouteConfig} {ranking : Ranking} {opts : SelectOptions} {now : ℚ}
variable {applySecondary : Bool} {states : List AccountState}

theorem candidates_foreground (foreground : opts.opportunistic = false) (pool : List AccountState) :
    candidates opts now pool = pool := by
  rw [candidates, foreground]
  rfl

theorem drained_account (drains : cfg.routingStrategy.drains = true) :
    (preferBudgetSafe cfg ranking opts applySecondary now states).result.account =
      (selectAccount cfg.strategy ranking opts now
        (if states.any (budgetSafe cfg applySecondary) then
          safePool cfg opts applySecondary now states else states)).account := by
  simp only [preferBudgetSafe, drains, if_true, safePool]
  split
  · rfl
  · rw [selectPart]
    simp only [List.filter_true]

theorem safePool_eq_nil (drains : cfg.routingStrategy.drains = true)
    (none_ : states.any (budgetSafe cfg applySecondary) = false) :
    safePool cfg opts applySecondary now states = [] := by
  rw [safePool, if_pos drains, List.filter_eq_nil_iff]
  exact List.any_eq_false.mp none_

/-- Without a draining strategy the preference always finds an account that is there. -/
theorem preferBudgetSafe_isSome (foreground : opts.opportunistic = false)
    (steady : cfg.routingStrategy.drains = false) (some_ : offered opts now states ≠ []) :
    (preferBudgetSafe cfg ranking opts applySecondary now states).result.account.isSome = true := by
  cases burn : (probeBurnFirst cfg ranking opts now states).result.account with
  | some c =>
    simp [preferBudgetSafe, steady, burn]
  | none =>
    rcases @preferBudgetSafe_later _ _ _ _ applySecondary _ steady burn with
      ⟨account, found | whole⟩ | ⟨_, ranking', rest, same, account⟩
    · rw [account]
      exact found
    · rw [account, selectAccount_isSome, candidates_foreground foreground,
        (offered_of_examined whole).2]
      exact some_
    · rw [account, selectAccount_isSome, candidates_foreground foreground,
        (offered_of_examined same).2]
      exact some_

/-- Where `select_account` finds an account in the whole pool, the budget preference does: unless
the strategy drains, some accounts are budget-safe and all those are blocked. -/
theorem budget_preference_keeps_availability_iff (cfg : RouteConfig) (ranking : Ranking)
    (opts : SelectOptions) (applySecondary : Bool) (now : ℚ) (states : List AccountState)
    (foreground : opts.opportunistic = false) :
    ((selectAccount cfg.strategy ranking opts now states).account.isSome = true →
      (preferBudgetSafe cfg ranking opts applySecondary now states).result.account.isSome = true) ↔
    (cfg.routingStrategy.drains = false ∨ states.any (budgetSafe cfg applySecondary) = false ∨
      offered opts now (states.filter (budgetSafe cfg applySecondary)) ≠ [] ∨
      offered opts now states = []) := by
  rw [selectAccount_isSome, candidates_foreground foreground]
  cases drains : cfg.routingStrategy.drains with
  | false =>
    simp only [true_or, iff_true]
    exact preferBudgetSafe_isSome foreground drains
  | true =>
    rw [drained_account drains, selectAccount_isSome, candidates_foreground foreground]
    cases safe : states.any (budgetSafe cfg applySecondary) with
    | false => simp
    | true =>
      simp only [if_true, Bool.true_eq_false, false_or, safePool, drains]
      tauto

/-- The budget-safe account is paused, the other one is over its budget. -/
def pausedSafe : List AccountState :=
  [{ accountId := "safe", status := .paused, usedPercent := some 10 },
    { accountId := "pressured", status := .active, usedPercent := some 99 }]

theorem budget_preference_keeps_availability_iff_steady :
    (selectAccount headOf .routed {} 1000 pausedSafe).account.isSome = true ∧
      (preferBudgetSafe { strategy := headOf } .routed {} false 1000
        pausedSafe).result.account.isSome = true := by
  have chosen : (selectAccount headOf .routed {} 1000 pausedSafe).account.isSome = true := by
    decide +kernel
  exact ⟨chosen, (budget_preference_keeps_availability_iff { strategy := headOf } .routed {} false
    1000 pausedSafe rfl).mpr (.inl rfl) chosen⟩

theorem draining_loses_availability :
    (selectAccount headOf .routed {} 1000 pausedSafe).account = pausedSafe[1]? ∧
      (preferBudgetSafe { strategy := headOf, routingStrategy := .sequentialDrain } .routed {} false
        1000 pausedSafe).result.account = none := by
  decide +kernel

/-- The fallback of the safe accounts hides an account that passes the filter. -/
def fallbackHides (cfg : RouteConfig) (opts : SelectOptions) (applySecondary : Bool) (now : ℚ)
    (states : List AccountState) : Prop :=
  availableOf opts now (safePool cfg opts applySecondary now states) = [] ∧
    candidates opts now (fallbackPool opts now (safePool cfg opts applySecondary now states)) ≠ [] ∧
    (cfg.routingStrategy.drains = false →
      candidates opts now (availableOf opts now (states.filter (burnFirstOf states))) = []) ∧
    ∃ s ∈ states, passes opts now s = true

/-- An account in error backoff that is handed out hides one that passes. -/
theorem preferBudgetSafe_held {c s : AccountState}
    (handed : (preferBudgetSafe cfg ranking opts applySecondary now states).result.account = some c)
    (backoff : inErrorBackoff now c = true) (hs : s ∈ states) (passed : passes opts now s = true) :
    fallbackHides cfg opts applySecondary now states := by
  have some_ := (offered_eq_available hs passed).2
  cases drains : cfg.routingStrategy.drains with
  | true =>
    rw [drained_account drains] at handed
    cases safe : states.any (budgetSafe cfg applySecondary) with
    | false =>
      rw [safe] at handed
      exact absurd (selectAccount_held handed backoff).1 some_
    | true =>
      rw [safe, if_pos rfl] at handed
      obtain ⟨held, open_⟩ := selectAccount_held handed backoff
      exact ⟨held, open_, fun h => by simp [drains] at h, s, hs, passed⟩
  | false =>
    cases burn : (probeBurnFirst cfg ranking opts now states).result.account with
    | some b =>
      have first : (preferBudgetSafe cfg ranking opts applySecondary now states).result.account =
          some b := by
        simp [preferBudgetSafe, drains, burn]
      rw [handed] at first
      rw [Option.some.inj first, probeBurnFirst_healthy burn] at backoff
      cases backoff
    | none =>
      rcases @preferBudgetSafe_later _ _ _ _ applySecondary _ drains burn with
        ⟨account, _⟩ | ⟨_, ranking', rest, same, account⟩
      · rw [account] at handed
        obtain ⟨held, open_⟩ := selectAccount_held handed backoff
        refine ⟨held, open_, fun _ => ?_, s, hs, passed⟩
        rw [← not_ne_iff, ← @probeBurnFirst_isSome cfg ranking, burn]
        simp
      · rw [account] at handed
        have nothing := (selectAccount_held handed backoff).1
        rw [(offered_of_examined same).1] at nothing
        exact absurd nothing some_

/-- An account in error backoff is handed out only where nothing passes the filter: unless the
safe accounts are all held back, the fallback is open to them and another account passes. -/
theorem backoff_last_resort_iff (cfg : RouteConfig) (ranking : Ranking) (opts : SelectOptions)
    (applySecondary : Bool) (now : ℚ) (states : List AccountState) :
    (∀ c, (preferBudgetSafe cfg ranking opts applySecondary now states).result.account = some c →
      inErrorBackoff now c = true → ∀ s ∈ states, passes opts now s = false) ↔
    ¬ fallbackHides cfg opts applySecondary now states := by
  constructor
  · rintro last ⟨held, open_, noBurn, s, hs, passed⟩
    obtain ⟨c, chosen, backoff⟩ := @selectAccount_fallback cfg.strategy ranking
      _ _ _ held open_
    have handed : (preferBudgetSafe cfg ranking opts applySecondary now states).result.account =
        some c := by
      cases drains : cfg.routingStrategy.drains with
      | true =>
        have some_ : states.any (budgetSafe cfg applySecondary) = true := by
          by_contra none_
          rw [safePool_eq_nil drains (by simpa using none_)] at open_
          exact open_ candidates_nil
        rw [drained_account drains, if_pos some_]
        exact chosen
      | false =>
        have burn : (probeBurnFirst cfg ranking opts now states).result.account = none := by
          rw [← Option.not_isSome_iff_eq_none, probeBurnFirst_isSome, not_not]
          exact noBurn drains
        rcases @preferBudgetSafe_later _ _ _ _ applySecondary _ drains burn with
          ⟨account, _⟩ | ⟨nothing, _⟩
        · exact account.trans chosen
        · rw [nothing] at chosen
          cases chosen
    have blocked := last c handed backoff s hs
    rw [passed] at blocked
    cases blocked
  · intro shown c handed backoff s hs
    by_contra passed
    exact shown (preferBudgetSafe_held handed backoff hs (by simpa using passed))

/-- Both budget-safe accounts failed a moment ago, the third one works. -/
def failingSafe : List AccountState :=
  failingPair ++ [{ accountId := "pressured", status := .active, usedPercent := some 99 }]

theorem fallback_before_available :
    (preferBudgetSafe { strategy := headOf } .routed {} false 1000 failingSafe).result.account =
        failingSafe[0]? ∧
      (∀ c, failingSafe[0]? = some c → inErrorBackoff 1000 c = true) ∧
      ∃ s ∈ failingSafe, passes {} 1000 s = true := by
  decide +kernel

end Main

end Balancer
