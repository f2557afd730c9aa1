import LivingBalancer.Balancer.BudgetPreference
import LivingBalancer.Balancer.SelectionTiers

/-!
# Rebinding a session under budget pressure

When `_select_with_stickiness` moves a session from a pinned account that is above a sticky
threshold, and when it leaves the session there: for every draw of the routing strategy, and
with what each selection ranks on the way.
-/

namespace Balancer

/-- At or below both sticky thresholds. -/
def Below (cfg : RouteConfig) (s : AccountState) : Prop :=
  stateAboveStickyBudgetThreshold cfg.budgetThresholdPct cfg.secondaryBudgetThresholdPct s = false

/-- The account the mapping points to after the writes of a selection. -/
def mappingAfter (existing : Option String) (writes : List StickyWrite) : Option String :=
  writes.foldl (fun _ write => match write with
    | .upsert accountId => some accountId
    | .delete => none) existing

/-! ## The draws of a strategy -/

/-- `draws` is one routing strategy under all its draws: only a routed call draws. -/
structure DrawsOf (strategy : Strategy) (draws : Set Strategy) : Prop where
  own : strategy ∈ draws
  probes : ∀ drawn ∈ draws, ∀ ranking, ranking ≠ .routed → drawn.pick ranking = strategy.pick ranking

/-- The options of the calls of one request. The burn-first probe has neither the preferred
window nor the costs, and only `usage_weighted` asks for the primary-first order. -/
def RoutingOptions.ranked (opts : RoutingOptions) : Ranking → RoutingOptions
  | .routed => opts
  | .deterministicProbe => { opts with deterministicProbe := true }
  | .burnFirstProbe =>
    { opts with
      deterministicProbe := true, preferEarlierResetWindow := .secondary, routingCosts := .empty }
  | .primaryFirst =>
    { opts with routingStrategy := .usageWeighted, usageWeightedOrder := .primaryFirst }

/-- All calls of one request, with one draw. -/
def RoutingOptions.request (opts : RoutingOptions) : Strategy where
  pick ranking now pool nonempty := (opts.ranked ranking).strategy.pick ranking now pool nonempty

theorem rank_probe {opts : RoutingOptions} {draw : WeightedDraw} {now : ℚ}
    {pool : List AccountState} (probe : opts.deterministicProbe = true) :
    rank { opts with draw := draw } now pool = rank opts now pool := by
  cases strategy : opts.routingStrategy with
  | capacityWeighted =>
    simp only [rank, strategy, probe, if_true]
    rfl
  | relativeAvailability =>
    simp only [rank, strategy, selectRelativeAvailability, probe, if_true]
    rfl
  | _ => simp only [rank, strategy] <;> rfl

/-- The weighted strategies of the source draw in routed calls only. -/
theorem request_draws (opts : RoutingOptions) :
    DrawsOf opts.request (Set.range fun draw => { opts with draw := draw }.request) where
  own := ⟨opts.draw, rfl⟩
  probes := by
    rintro drawn ⟨draw, rfl⟩ ranking notRouted
    funext now pool nonempty
    refine Subtype.ext (Option.some.inj ?_)
    simp only [RoutingOptions.request, RoutingOptions.strategy, Option.some_get]
    cases ranking with
    | routed => exact absurd rfl notRouted
    | deterministicProbe => exact @rank_probe (opts.ranked .deterministicProbe) _ _ _ rfl
    | burnFirstProbe => exact @rank_probe (opts.ranked .burnFirstProbe) _ _ _ rfl
    | primaryFirst => rfl

/-! ## What a selection ranks -/

/-- The strategy's pick, where there is anything to rank. -/
def pickOf (strategy : Strategy) (ranking : Ranking) (now : ℚ) (pool : List AccountState) :
    Option AccountState :=
  match pool with
  | [] => none
  | s :: rest => some (strategy.pick ranking now (s :: rest) (List.cons_ne_nil s rest)).1

/-- The accounts that a selection ranks, in which ranking, and the states it leaves. -/
structure Contest where
  contenders : List AccountState
  ranking : Ranking
  left : List AccountState

/-- `_select_account_preferring_budget_safe` up to its ranking: the burn-first accounts of the
best tier, else the budget-safe accounts, else all of them. -/
def contest (cfg : RouteConfig) (ranking : Ranking) (applySecondary : Bool) (now : ℚ)
    (states : List AccountState) : Contest :=
  let opts := cfg.options true
  let safe := budgetSafe cfg applySecondary
  let first := examineWhere opts now (burnFirstOf states) states
  let burnFirst := candidates opts now (availableOf opts now (states.filter (burnFirstOf states)))
  if burnFirst ≠ [] then ⟨burnFirst, ranking, first⟩
  else
    let preferred := examineWhere opts now safe first
    let safest := candidates opts now (offered opts now (first.filter safe))
    if safest ≠ [] ∨ (first.any safe && first.all safe) = true then ⟨safest, ranking, preferred⟩
    else
      ⟨candidates opts now (offered opts now states),
        if cfg.routingStrategy = .usageWeighted then .primaryFirst else ranking,
        examineWhere opts now (fun _ => true) preferred⟩

section Selections

variable {strategy : Strategy} {ranking : Ranking} {opts : SelectOptions} {now : ℚ}
variable {pool : List AccountState}

theorem pickOf_mem {c : AccountState} (h : pickOf strategy ranking now pool = some c) :
    c ∈ pool := by
  cases pool with
  | nil => cases h
  | cons s rest =>
    rw [← Option.some.inj h]
    exact (strategy.pick ranking now (s :: rest) _).2

theorem pickOf_isSome : (pickOf strategy ranking now pool).isSome = true ↔ pool ≠ [] := by
  cases pool with
  | nil => simp [pickOf]
  | cons s rest => simp [pickOf]

theorem pickOf_eq_none : pickOf strategy ranking now pool = none ↔ pool = [] := by
  rw [← Option.not_isSome_iff_eq_none, pickOf_isSome, not_not]

theorem chooseFrom_pick : (chooseFrom strategy ranking opts now pool).account =
    pickOf strategy ranking now (candidates opts now pool) := by
  simp only [chooseFrom, candidates]
  cases opts.opportunistic with
  | false => cases pool <;> rfl
  | true =>
    simp only [if_true]
    cases filterOpportunisticCandidates pool now with
    | error reason => rfl
    | ok left => cases left <;> rfl

theorem selectAccount_pick : (selectAccount strategy ranking opts now pool).account =
    pickOf strategy ranking now (candidates opts now (offered opts now pool)) :=
  selectAccount_account.trans chooseFrom_pick

theorem offered_withoutFallback :
    offered (withoutFallback opts) now pool = availableOf opts now pool := by
  rw [offered, fallbackPool_withoutFallback]
  split
  · rename_i nothing
    exact nothing.symm
  · rfl

theorem offered_nil : offered opts now [] = [] := by
  rw [offered]
  split
  · rfl
  · rfl

end Selections

section Contests

variable {cfg : RouteConfig} {ranking : Ranking} {applySecondary : Bool} {now : ℚ}
variable {states : List AccountState}

/-- The attempt on the burn-first accounts ranks those that pass the filter. -/
theorem probeBurnFirst_pick :
    (probeBurnFirst cfg ranking (cfg.options true) now states).result.account =
      pickOf cfg.strategy ranking now (candidates (cfg.options true) now
        (availableOf (cfg.options true) now (states.filter (burnFirstOf states)))) := by
  simp only [probeBurnFirst]
  split
  · rw [selectPart, selectAccount_pick, offered_withoutFallback]
    rfl
  · rename_i none_
    have empty : states.filter (burnFirstOf states) = [] := by
      rw [List.filter_eq_nil_iff]
      exact List.any_eq_false.mp (by simpa using none_)
    rw [empty]
    exact (congrArg (pickOf cfg.strategy ranking now) (@candidates_nil (cfg.options true) now)).symm

theorem trySafe_states {opts : SelectOptions} :
    (trySafe cfg ranking opts applySecondary now states).states =
      examineWhere opts now (budgetSafe cfg applySecondary) states := by
  simp only [trySafe]
  split
  · rfl
  · rename_i none_
    have none_ : states.any (budgetSafe cfg applySecondary) = false := by simpa using none_
    exact (examineWhere_of_none none_).symm

/-- A selection returns the strategy's pick of its contest. -/
theorem preferring_contest (steady : cfg.routingStrategy.drains = false) :
    (selectAccountPreferringBudgetSafe cfg ranking applySecondary now states).states =
        (contest cfg ranking applySecondary now states).left ∧
      (selectAccountPreferringBudgetSafe cfg ranking applySecondary now states).result.account =
        pickOf cfg.strategy (contest cfg ranking applySecondary now states).ranking now
          (contest cfg ranking applySecondary now states).contenders := by
  rw [selectAccountPreferringBudgetSafe_eq]
  simp only [preferBudgetSafe, steady, Bool.false_eq_true, if_false, contest]
  by_cases burn : candidates (cfg.options true) now
      (availableOf (cfg.options true) now (states.filter (burnFirstOf states))) ≠ []
  · have first : (probeBurnFirst cfg ranking (cfg.options true) now states).result.account.isSome =
        true := by
      rw [probeBurnFirst_pick, pickOf_isSome]
      exact burn
    rw [if_pos first, if_pos burn]
    exact ⟨probeBurnFirst_states, probeBurnFirst_pick⟩
  · have first : ¬ (probeBurnFirst cfg ranking (cfg.options true) now states).result.account.isSome =
        true := by
      rw [probeBurnFirst_pick, pickOf_isSome]
      exact burn
    rw [if_neg first, if_neg burn, probeBurnFirst_states]
    have whole : offered (cfg.options true) now (examineWhere (cfg.options true) now
        (burnFirstOf states) states) = offered (cfg.options true) now states := offered_examineWhere _
    generalize examineWhere (cfg.options true) now (burnFirstOf states) states = tried at whole ⊢
    obtain ⟨account, _⟩ := trySafe_eq cfg ranking (cfg.options true) applySecondary now tried
    rw [selectAccount_pick] at account
    by_cases stops : candidates (cfg.options true) now (offered (cfg.options true) now
        (tried.filter (budgetSafe cfg applySecondary))) ≠ [] ∨
      (tried.any (budgetSafe cfg applySecondary) && tried.all (budgetSafe cfg applySecondary)) = true
    · have preferred : ((trySafe cfg ranking (cfg.options true) applySecondary now
          tried).result.account.isSome || (tried.any (budgetSafe cfg applySecondary) &&
            tried.all (budgetSafe cfg applySecondary))) = true := by
        rw [account, Bool.or_eq_true, pickOf_isSome]
        exact stops
      rw [if_pos preferred, if_pos stops]
      exact ⟨trySafe_states, account⟩
    · have goesOn : ¬ ((trySafe cfg ranking (cfg.options true) applySecondary now
          tried).result.account.isSome || (tried.any (budgetSafe cfg applySecondary) &&
            tried.all (budgetSafe cfg applySecondary))) = true := by
        rw [account, Bool.or_eq_true, pickOf_isSome]
        exact stops
      rw [if_neg goesOn, if_neg stops, trySafe_states]
      refine ⟨rfl, ?_⟩
      rw [selectPart, List.filter_true, selectAccount_pick, offered_examineWhere, whole]

end Contests

/-! ## Examining at one clock, and later -/

/-- What examining a state any number of times at `now` leaves of it. -/
def Touched (cfg : RouteConfig) (now : ℚ) (s t : AccountState) : Prop :=
  t = s ∨ t = (examine (cfg.options true) now s).1

section Examine

variable {opts : SelectOptions} {now later : ℚ} {s : AccountState}

/-- The cooldown and the error backoff let the state through. -/
def Unheld (now : ℚ) (s : AccountState) : Prop :=
  stillRunning now s.cooldownUntil = false ∧
    (resetElapsed now s.cooldownUntil = true ∨ s.errorCount < 3 ∨
      (truthy s.lastErrorAt && s.lastErrorAt.any fun t =>
        decide (now - t < errorBackoff s.errorCount)) = false)

theorem passes_iff : passes opts now s = true ↔
    (recoverBlock opts now s).2 = true ∧ Unheld now (recoverBlock opts now s).1 := by
  rw [passes, decide_eq_true_eq, examine_eq]
  cases (recoverBlock opts now s).2 with
  | false => simp
  | true =>
    generalize (recoverBlock opts now s).1 = r
    simp only [if_true, true_and, Unheld]
    cases elapsed : resetElapsed now r.cooldownUntil with
    | true =>
      have stopped : stillRunning now r.cooldownUntil = false := by
        simp only [resetElapsed, stillRunning, Bool.and_eq_true, Bool.and_eq_false_iff] at elapsed ⊢
        refine .inr ?_
        cases cooldown : r.cooldownUntil with
        | none => rfl
        | some t => simpa [cooldown] using elapsed.2
      rw [stopped]
      simp [clearElapsedCooldown, elapsed, holdBack, stillRunning, truthy]
    | false =>
      rw [clearElapsedCooldown_of_running elapsed, holdBack]
      cases stillRunning now r.cooldownUntil with
      | true => simp
      | false =>
        simp only [Bool.false_eq_true, if_false, true_and, false_or]
        split
        · rename_i many
          split
          · rename_i held
            simp [held, not_lt.mpr many]
          · rename_i expired
            simp [expired]
        · rename_i few
          simp [not_le.mp few]

theorem Unheld.persists (unheld : Unheld now s) (hle : now ≤ later) : Unheld later s := by
  obtain ⟨stopped, rest⟩ := unheld
  simp only [stillRunning, Bool.and_eq_false_iff] at stopped
  refine ⟨?_, ?_⟩
  · simp only [stillRunning, Bool.and_eq_false_iff]
    refine stopped.imp_right fun none_ => ?_
    cases cooldown : s.cooldownUntil with
    | none => rfl
    | some t =>
      simp only [cooldown, Option.any_some, decide_eq_false_iff_not, not_lt] at none_ ⊢
      exact none_.trans hle
  · rcases rest with elapsed | few | expired
    · refine .inl ?_
      by_contra running
      rw [resetElapsed_mono hle (by simpa using running)] at elapsed
      cases elapsed
    · exact .inr (.inl few)
    · refine .inr (.inr ?_)
      rw [Bool.and_eq_false_iff] at expired ⊢
      refine expired.imp_right fun none_ => ?_
      cases error : s.lastErrorAt with
      | none => rfl
      | some t =>
        simp only [error, Option.any_some, decide_eq_false_iff_not, not_lt] at none_ ⊢
        exact none_.trans (sub_le_sub_right hle t)

/-- What passes the filter passes it later on. -/
theorem passes_later (hle : now ≤ later) (passed : passes opts now s = true) :
    passes opts later s = true := by
  rw [passes_iff] at passed ⊢
  obtain ⟨unskipped, unheld⟩ := passed
  have unheld := unheld.persists hle
  simp only [recoverBlock] at unskipped unheld ⊢
  cases status : s.status <;> simp only [status] at unskipped unheld ⊢
  case active => exact ⟨trivial, unheld⟩
  case rateLimited =>
    cases elapsed : resetElapsed later s.resetAt with
    | true =>
      refine ⟨by simp, ?_⟩
      split at unheld
      · simpa using unheld
      · exact ⟨unheld.1, .inr (.inl (by simp))⟩
    | false =>
      have running := resetElapsed_mono hle elapsed
      simp only [running, Bool.false_eq_true, if_false] at unskipped unheld ⊢
      exact ⟨unskipped, unheld⟩
  case quotaExceeded =>
    cases elapsed : resetElapsed later s.resetAt with
    | true =>
      refine ⟨by simp, ?_⟩
      split at unheld
      · simpa using unheld
      · exact unheld
    | false =>
      have running := resetElapsed_mono hle elapsed
      simp only [running, Bool.false_eq_true, if_false] at unskipped unheld ⊢
      exact ⟨unskipped, unheld⟩
  all_goals cases unskipped

theorem passes_again : passes opts now (examine opts now s).1 = passes opts now s := by
  rw [passes, passes, examine_again]

end Examine

section Pools

variable {cfg : RouteConfig} {now : ℚ} {states rest : List AccountState} {pinned : AccountState}

theorem Touched.examined {s t : AccountState} (touched : Touched cfg now s t) :
    examine (cfg.options true) now t = examine (cfg.options true) now s := by
  rcases touched with rfl | rfl
  · rfl
  · exact examine_again

theorem Touched.step {s t : AccountState} (touched : Touched cfg now s t) :
    Touched cfg now s (examine (cfg.options true) now t).1 :=
  .inr (congrArg Prod.fst touched.examined)

theorem Touched.accountId {s t : AccountState} (touched : Touched cfg now s t) :
    t.accountId = s.accountId := by
  rcases touched with rfl | rfl
  · rfl
  · exact (examine_same _ now s).accountId

theorem touched_refl (states : List AccountState) :
    List.Forall₂ (Touched cfg now) states states :=
  List.forall₂_same.mpr fun _ _ => .inl rfl

theorem touched_examineWhere (fallback : Bool) (p : AccountState → Bool)
    (touched : List.Forall₂ (Touched cfg now) states rest) :
    List.Forall₂ (Touched cfg now) states (examineWhere (cfg.options fallback) now p rest) := by
  refine List.forall₂_map_right_iff.mpr (touched.imp fun s t h => ?_)
  split
  · exact h.step
  · exact h

theorem touched_contest {ranking : Ranking} {applySecondary : Bool}
    (touched : List.Forall₂ (Touched cfg now) states rest) :
    List.Forall₂ (Touched cfg now) states (contest cfg ranking applySecondary now rest).left := by
  have first := touched_examineWhere true (burnFirstOf rest) touched
  have preferred := touched_examineWhere true (budgetSafe cfg applySecondary) first
  simp only [contest]
  split
  · exact first
  · split
    · exact preferred
    · exact touched_examineWhere true _ preferred

theorem filter_eq_nil_of_not_mem {id : String}
    (touched : List.Forall₂ (Touched cfg now) states rest)
    (absent : id ∉ states.map AccountState.accountId) :
    rest.filter (fun s => s.accountId == id) = [] := by
  rw [List.filter_eq_nil_iff]
  intro t ht same
  obtain ⟨s, hs, touch⟩ := Pointwise.exists_left touched ht
  refine absent (List.mem_map.mpr ⟨s, hs, ?_⟩)
  rw [← touch.accountId]
  exact eq_of_beq same

/-- One state of a pool with distinct accounts is the pinned one. -/
theorem filter_pinned (touched : List.Forall₂ (Touched cfg now) states rest)
    (distinct : (states.map AccountState.accountId).Nodup) (member : pinned ∈ states) :
    ∃ t, Touched cfg now pinned t ∧
      rest.filter (fun s => s.accountId == pinned.accountId) = [t] := by
  induction touched with
  | nil => cases member
  | @cons s t states rest touch touched ih =>
    rw [List.map_cons, List.nodup_cons] at distinct
    rcases List.mem_cons.mp member with rfl | member
    · refine ⟨t, touch, ?_⟩
      rw [List.filter_cons_of_pos (by simp [touch.accountId]),
        filter_eq_nil_of_not_mem touched distinct.1]
    · obtain ⟨u, hu, only⟩ := ih distinct.2 member
      refine ⟨u, hu, ?_⟩
      have other : t.accountId ≠ pinned.accountId := by
        rw [touch.accountId]
        intro same
        exact distinct.1 (same ▸ List.mem_map_of_mem member)
      rw [List.filter_cons_of_neg (by simpa using other), only]

end Pools

/-! ## The pinned account -/

/-- Another account passes the filter and is at or below both thresholds. -/
def OtherBelow (cfg : RouteConfig) (now : ℚ) (pinned : AccountState)
    (states : List AccountState) : Prop :=
  ∃ s ∈ states, s.accountId ≠ pinned.accountId ∧ passes (cfg.options true) now s = true ∧
    Below cfg (examine (cfg.options true) now s).1

/-- The pinned account can be selected by itself: always, but for opportunistic traffic. -/
def servesAlone (cfg : RouteConfig) (now : ℚ) (pinned : AccountState) : Bool :=
  decide (candidates (cfg.options true) now [(examine (cfg.options true) now pinned).1] ≠ [])

def isBurnFirst (s : AccountState) : Bool := s.routingPolicy == "burn_first"

/-- The burn-first accounts let a session be rebound: the pinned one is none of them, and one can
be selected, if there are any. -/
def burnFirstOpen (cfg : RouteConfig) (now : ℚ) (pinned : AccountState)
    (states : List AccountState) : Bool :=
  !isBurnFirst pinned && (!states.any isBurnFirst || decide (candidates (cfg.options true) now
    (availableOf (cfg.options true) now (states.filter isBurnFirst)) ≠ []))

/-- The pool in which an alternative to the pinned account is looked for. -/
def alternatives (cfg : RouteConfig) (now : ℚ) (pinned : AccountState)
    (states : List AccountState) : List AccountState :=
  if isBurnFirst pinned then states else examineWhere (cfg.options true) now isBurnFirst states

def probe (cfg : RouteConfig) (now : ℚ) (pinned : AccountState) (states : List AccountState) :
    Contest :=
  contest cfg .deterministicProbe true now (alternatives cfg now pinned states)

/-- The probe ranks the pinned account first, or one that is above a threshold. -/
def poolAlsoExhausted (cfg : RouteConfig) (now : ℚ) (pinned : AccountState)
    (states : List AccountState) : Bool :=
  (pickOf cfg.strategy (probe cfg now pinned states).ranking now
      (probe cfg now pinned states).contenders).any fun best =>
    best.accountId == pinned.accountId || stateAboveStickyBudgetThreshold cfg.budgetThresholdPct
      cfg.secondaryBudgetThresholdPct best

/-- The session stays with the pinned account. -/
def keepsPinned (cfg : RouteConfig) (now : ℚ) (pinned : AccountState)
    (states : List AccountState) : Bool :=
  servesAlone cfg now pinned &&
    (!burnFirstOpen cfg now pinned states || poolAlsoExhausted cfg now pinned states)

/-- The pool of the fallback. The pinned account was tried, unless the probe found a better one. -/
def leftover (cfg : RouteConfig) (now : ℚ) (pinned : AccountState) (states : List AccountState) :
    List AccountState :=
  let pool := if burnFirstOpen cfg now pinned states then (probe cfg now pinned states).left
    else alternatives cfg now pinned states
  if burnFirstOpen cfg now pinned states && !poolAlsoExhausted cfg now pinned states then pool
  else examineWhere (cfg.options true) now (fun s => s.accountId == pinned.accountId) pool

/-- The selection after the pinned account is given up. -/
def fallback (cfg : RouteConfig) (now later : ℚ) (pinned : AccountState)
    (states : List AccountState) : Contest :=
  contest cfg .routed (burnFirstOpen cfg now pinned states) later (leftover cfg now pinned states)

section Pinned

variable {cfg : RouteConfig} {now later : ℚ} {pinned : AccountState}
variable {states rest : List AccountState}

theorem alternatives_touched :
    List.Forall₂ (Touched cfg now) states (alternatives cfg now pinned states) := by
  rw [alternatives]
  split
  · exact touched_refl states
  · exact touched_examineWhere true _ (touched_refl states)

theorem probe_touched :
    List.Forall₂ (Touched cfg now) states (probe cfg now pinned states).left :=
  touched_contest alternatives_touched

theorem leftover_touched :
    List.Forall₂ (Touched cfg now) states (leftover cfg now pinned states) := by
  have pool : List.Forall₂ (Touched cfg now) states
      (if burnFirstOpen cfg now pinned states then (probe cfg now pinned states).left
        else alternatives cfg now pinned states) := by
    split
    · exact probe_touched
    · exact alternatives_touched
  rw [leftover]
  split
  · exact pool
  · exact touched_examineWhere true _ pool

theorem burnFirstReallocate_eq : burnFirstReallocate cfg now pinned states =
    (alternatives cfg now pinned states, burnFirstOpen cfg now pinned states) := by
  have steps : burnFirstReallocate cfg now pinned states =
      if isBurnFirst pinned then (states, false)
      else if states.any isBurnFirst then
        ((selectWhere cfg .burnFirstProbe false now isBurnFirst states).states,
          (selectWhere cfg .burnFirstProbe false now isBurnFirst states).result.account.isSome)
      else (states, true) := rfl
  rw [steps, alternatives, burnFirstOpen]
  cases isBurnFirst pinned with
  | true => rfl
  | false =>
    cases some_ : states.any isBurnFirst with
    | false =>
      rw [examineWhere_of_none some_]
      rfl
    | true =>
      refine Prod.ext rfl ?_
      rw [Bool.eq_iff_iff]
      simp only [Bool.false_eq_true, if_false, if_true, selectWhere, Bool.not_false, Bool.not_true,
        Bool.true_and, Bool.false_or]
      rw [selectAccount_pick, pickOf_isSome, decide_eq_true_eq]
      exact iff_of_eq (congrArg (fun pool => candidates (cfg.options true) now pool ≠ [])
        (@offered_withoutFallback (cfg.options true) now (states.filter isBurnFirst)))

/-- The pinned account that passes the filter is found again, whatever was examined before. -/
theorem selectPinned_account (touched : List.Forall₂ (Touched cfg now) states rest)
    (distinct : (states.map AccountState.accountId).Nodup) (member : pinned ∈ states)
    (available : passes (cfg.options true) now pinned = true) :
    (selectPinned cfg now pinned.accountId rest).result.account =
      if servesAlone cfg now pinned then some (examine (cfg.options true) now pinned).1
      else none := by
  obtain ⟨t, touch, only⟩ := filter_pinned touched distinct member
  have passed : passes (cfg.options false) now t = true := by
    rw [← available, passes, passes]
    exact congrArg (fun e : AccountState × Standing => decide (e.2 = .available)) touch.examined
  have offers : offered (cfg.options false) now [t] = [(examine (cfg.options true) now pinned).1] := by
    rw [(offered_eq_available List.mem_cons_self passed).1, ← touch.examined]
    simp only [availableOf, List.map_cons, List.map_nil, withStanding, List.filter_cons]
    rw [passes] at passed
    rw [if_pos passed]
    rfl
  have ranked : (selectPinned cfg now pinned.accountId rest).result.account = pickOf cfg.strategy
      .routed now (candidates (cfg.options true) now [(examine (cfg.options true) now pinned).1]) := by
    rw [selectPinned, selectWhere, only, selectAccount_pick, offers]
    rfl
  rw [ranked]
  split
  · rename_i serves
    rw [servesAlone, decide_eq_true_eq] at serves
    obtain ⟨c, hc⟩ := Option.isSome_iff_exists.mp
      ((@pickOf_isSome cfg.strategy .routed now _).mpr serves)
    rw [hc, List.mem_singleton.mp (candidates_subset (pickOf_mem hc))]
  · rename_i held
    rw [servesAlone, decide_eq_true_eq, not_not] at held
    rw [held]
    rfl

end Pinned

section Routed

variable {cfg : RouteConfig} {sticky : StickyRequest} {kind : StickyKind} {pinned : AccountState}
variable {now later : ℚ} {accountIds : List String} {states : List AccountState}

theorem pressured_of_above (steady : cfg.routingStrategy.drains = false)
    (unlimited : pinned.status ≠ .rateLimited) (above : ¬ Below cfg pinned) :
    budgetPressured cfg pinned = true := by
  simp only [budgetPressured, steady, Bool.not_false, Bool.true_and, Bool.and_eq_true, bne_iff_ne]
  exact ⟨unlimited, by simpa [Below] using above⟩

/-- A pinned account above a threshold keeps the session, or gives it up to the fallback. -/
theorem tryPinned_pressured (steady : cfg.routingStrategy.drains = false)
    (pressed : budgetPressured cfg pinned = true) (keeps : sticky.reallocate = false)
    (distinct : (states.map AccountState.accountId).Nodup) (member : pinned ∈ states)
    (available : passes (cfg.options true) now pinned = true) :
    (keepsPinned cfg now pinned states = true ∧
      ∃ out, tryPinned cfg sticky kind now pinned states = .keep out ∧
        out.result.account = some (examine (cfg.options true) now pinned).1) ∨
    (keepsPinned cfg now pinned states = false ∧
      tryPinned cfg sticky kind now pinned states = .fallBack (leftover cfg now pinned states)
        (burnFirstOpen cfg now pinned states) (burnFirstOpen cfg now pinned states)) := by
  have probed := @preferring_contest cfg .deterministicProbe true now
    (alternatives cfg now pinned states) steady
  have alone := fun rest touched =>
    @selectPinned_account cfg now pinned states rest touched distinct member available
  simp only [tryPinned, burnFirstReallocate_eq, pressed, Bool.true_or, Bool.true_and, if_true,
    keepsPinned, leftover]
  cases opened : burnFirstOpen cfg now pinned states with
  | false =>
    have account := alone _ (@alternatives_touched cfg now pinned states)
    cases serves : servesAlone cfg now pinned with
    | true =>
      rw [serves, if_pos rfl] at account
      exact .inl ⟨rfl, _, by simp [account], account⟩
    | false =>
      rw [serves, if_neg Bool.false_ne_true] at account
      refine .inr ⟨rfl, ?_⟩
      simp [account, keeps]
      rfl
  | true =>
    have best : (selectAccountPreferringBudgetSafe cfg .deterministicProbe true now
        (alternatives cfg now pinned states)).result.account.any (fun b =>
          b.accountId == pinned.accountId || stateAboveStickyBudgetThreshold cfg.budgetThresholdPct
            cfg.secondaryBudgetThresholdPct b) = poolAlsoExhausted cfg now pinned states := by
      rw [probed.2]
      rfl
    rw [best, probed.1]
    cases poolAlsoExhausted cfg now pinned states with
    | false => exact .inr ⟨by simp, by simp [probe]⟩
    | true =>
      have account := alone _ (@probe_touched cfg now pinned states)
      rw [probe] at account
      cases serves : servesAlone cfg now pinned with
      | true =>
        rw [serves, if_pos rfl] at account
        exact .inl ⟨rfl, _, by simp [account], account⟩
      | false =>
        rw [serves, if_neg Bool.false_ne_true] at account
        refine .inr ⟨rfl, ?_⟩
        simp [account]
        rfl

theorem find_pinned (distinct : (states.map AccountState.accountId).Nodup)
    (member : pinned ∈ states) :
    (states.find? fun s => s.accountId == pinned.accountId) = some pinned := by
  have some_ : (states.find? fun s => s.accountId == pinned.accountId).isSome = true := by
    rw [List.find?_isSome]
    exact ⟨pinned, member, by simp⟩
  obtain ⟨s, hs⟩ := Option.isSome_iff_exists.mp some_
  have own : s.accountId = pinned.accountId := by simpa using List.find?_some hs
  rw [hs, List.inj_on_of_nodup_map distinct (List.mem_of_find?_eq_some hs) member own]

theorem filter_named (named : pinned.accountId ≠ "") :
    (some pinned.accountId).filter (· ≠ "") = some pinned.accountId := by
  simp [Option.filter, named]

theorem selectWithStickiness_keep {out : Outcome} (key : sticky.key ≠ "")
    (kindGiven : sticky.kind = some kind) (named : pinned.accountId ≠ "")
    (found : (states.find? fun s => s.accountId == pinned.accountId) = some pinned)
    (kept : tryPinned cfg sticky kind now pinned states = .keep out) :
    selectWithStickiness cfg sticky (some pinned.accountId) now later accountIds states =
      some { out with writes := refreshMapping sticky pinned.accountId } := by
  have filtered := filter_named named
  simp only [selectWithStickiness, key, if_false, kindGiven, filtered, found, kept]

theorem selectWithStickiness_fallBack {rest : List AccountState}
    {reallocate applySecondary : Bool} (key : sticky.key ≠ "")
    (kindGiven : sticky.kind = some kind) (named : pinned.accountId ≠ "")
    (found : (states.find? fun s => s.accountId == pinned.accountId) = some pinned)
    (gaveUp : tryPinned cfg sticky kind now pinned states =
      .fallBack rest reallocate applySecondary) :
    selectWithStickiness cfg sticky (some pinned.accountId) now later accountIds states =
      some (afterPinned cfg sticky pinned.accountId now later accountIds rest reallocate
        applySecondary) := by
  have filtered := filter_named named
  simp only [selectWithStickiness, key, if_false, kindGiven, filtered, found, gaveUp]

/-- What examinations leave of an account that passes the filter is not blocked. -/
theorem leftover_unblocked (distinct : (states.map AccountState.accountId).Nodup)
    (member : pinned ∈ states) (available : passes (cfg.options true) now pinned = true)
    (unlimited : pinned.status ≠ .rateLimited) {t : AccountState}
    (ht : t ∈ leftover cfg now pinned states) (own : t.accountId = pinned.accountId) :
    t.status ≠ .rateLimited ∧ t.status.hardBlocked = false := by
  obtain ⟨u, touch, only⟩ := filter_pinned (@leftover_touched cfg now pinned states) distinct member
  have same : t = u := by
    have listed : t ∈ (leftover cfg now pinned states).filter
        (fun s => s.accountId == pinned.accountId) := List.mem_filter.mpr ⟨ht, by simpa using own⟩
    rw [only] at listed
    exact List.mem_singleton.mp listed
  have usable : pinned.status.hardBlocked = false := by
    by_contra hard
    have skipped := (examine_hardBlocked (cfg.options true) now pinned (by simpa using hard)).2
    rw [passes, skipped] at available
    cases available
  have status : t.status = pinned.status ∨ t.status = .active := by
    rcases touch with rfl | rfl
    · exact .inl (congrArg AccountState.status same)
    · rw [same]
      exact (examine_lifts (cfg.options true) now pinned).imp_right And.right
  rcases status with kept | active
  · rw [kept]
    exact ⟨unlimited, usable⟩
  · rw [active]
    exact ⟨by decide, rfl⟩

/-- The fallback deletes the mapping first if the burn-first accounts let it be rebound. -/
theorem afterPinned_leftover (distinct : (states.map AccountState.accountId).Nodup)
    (member : pinned ∈ states) (available : passes (cfg.options true) now pinned = true)
    (unlimited : pinned.status ≠ .rateLimited) {rebind : Bool} :
    afterPinned cfg sticky pinned.accountId now later accountIds (leftover cfg now pinned states)
        rebind rebind =
      fallBackSelection cfg later accountIds (leftover cfg now pinned states) rebind
        (rebind || sticky.maxAgeSeconds.isNone) (if rebind then [.delete] else []) := by
  have unblocked := fun t => @leftover_unblocked cfg pinned now states distinct member available
    unlimited t
  have nothing : (leftover cfg now pinned states).filter (fun s =>
      s.accountId == pinned.accountId && s.status == .rateLimited) = [] := by
    rw [List.filter_eq_nil_iff]
    intro t ht limited
    rw [Bool.and_eq_true, beq_iff_eq, beq_iff_eq] at limited
    exact (unblocked t ht limited.1).1 limited.2
  have noGrace : (graceResult cfg now pinned.accountId
      (leftover cfg now pinned states)).account.isSome = false := by
    rw [graceResult, nothing, selectAccount_pick, offered_nil, candidates_nil]
    rfl
  have comesBack : ((leftover cfg now pinned states).all fun s =>
      s.accountId != pinned.accountId || !s.status.hardBlocked) = true := by
    refine List.all_eq_true.mpr fun t ht => ?_
    by_cases own : t.accountId = pinned.accountId
    · simp [(unblocked t ht own).2]
    · simp [own]
  simp only [afterPinned, noGrace, comesBack, Bool.false_eq_true, and_false, if_false,
    Bool.not_true, Bool.or_false]

theorem mappingAfter_upsert {existing : Option String} {writes : List StickyWrite} {id : String} :
    mappingAfter existing (writes ++ [.upsert id]) = some id := by
  simp [mappingAfter]

theorem fallBackSelection_ends {rest : List AccountState} {applySecondary persist : Bool}
    {writes : List StickyWrite} {existing : Option String} :
    (fallBackSelection cfg later accountIds rest applySecondary persist writes).result.account =
        (selectAccountPreferringBudgetSafe cfg .routed applySecondary later rest).result.account ∧
      ∀ c, (selectAccountPreferringBudgetSafe cfg .routed applySecondary later rest).result.account =
          some c → accountIds.contains c.accountId = true →
        mappingAfter existing (fallBackSelection cfg later accountIds rest applySecondary persist
          writes).writes = if persist then some c.accountId else mappingAfter existing writes := by
  refine ⟨?_, fun c chosen mapped => ?_⟩
  · simp only [fallBackSelection]
    split
    · split
      · rfl
      · rfl
    · rfl
  · simp only [fallBackSelection, chosen, mapped, Bool.and_true]
    cases persist with
    | false => rfl
    | true => exact mappingAfter_upsert

end Routed

/-! ## The exact condition -/

/-- Below the thresholds where another available account is, and with the pinned account where
none is: the request, and the mapping after it. -/
def FollowsBudget (cfg : RouteConfig) (sticky : StickyRequest) (now later : ℚ)
    (accountIds : List String) (pinned : AccountState) (states : List AccountState) : Prop :=
  ∃ out, selectWithStickiness cfg sticky (some pinned.accountId) now later accountIds states =
      some out ∧
    (OtherBelow cfg now pinned states →
      ∃ c, out.result.account = some c ∧ (∃ s ∈ states, SameAccount s c) ∧
        passes (cfg.options true) later c = true ∧ Below cfg c ∧
        mappingAfter (some pinned.accountId) out.writes = some c.accountId) ∧
    (¬ OtherBelow cfg now pinned states →
      ∃ c, out.result.account = some c ∧ c.accountId = pinned.accountId ∧
        mappingAfter (some pinned.accountId) out.writes = some pinned.accountId)

/-- Where a kept account is enough, and where every account is that the fallback may draw. -/
def CanFollowBudget (draws : Set Strategy) (cfg : RouteConfig) (sticky : StickyRequest)
    (now later : ℚ) (pinned : AccountState) (states : List AccountState) : Prop :=
  if keepsPinned cfg now pinned states then
    OtherBelow cfg now pinned states → Below cfg (examine (cfg.options true) now pinned).1
  else
    (fallback cfg now later pinned states).contenders ≠ [] ∧
      ∀ drawn ∈ draws, ∀ c, pickOf drawn (fallback cfg now later pinned states).ranking later
          (fallback cfg now later pinned states).contenders = some c →
        (OtherBelow cfg now pinned states →
          passes (cfg.options true) later c = true ∧ Below cfg c) ∧
        (c.accountId = pinned.accountId ∨ OtherBelow cfg now pinned states ∧
          (burnFirstOpen cfg now pinned states || sticky.maxAgeSeconds.isNone) = true)

section Main

variable {cfg : RouteConfig} {sticky : StickyRequest} {kind : StickyKind} {pinned : AccountState}
variable {now later : ℚ} {accountIds : List String} {states : List AccountState}

section Pressured

variable (steady : cfg.routingStrategy.drains = false) (key : sticky.key ≠ "")
variable (kindGiven : sticky.kind = some kind) (keeps : sticky.reallocate = false)
variable (hle : now ≤ later) (named : pinned.accountId ≠ "")
variable (distinct : (states.map AccountState.accountId).Nodup)
variable (known : ∀ s ∈ states, accountIds.contains s.accountId = true) (member : pinned ∈ states)
variable (available : passes (cfg.options true) now pinned = true)
variable (unlimited : pinned.status ≠ .rateLimited) (above : ¬ Below cfg pinned)
include steady key kindGiven keeps hle named distinct known member available unlimited above

/-- How a session of a pinned account above a threshold ends. -/
theorem selectWithStickiness_pressured :
    ∃ out, selectWithStickiness cfg sticky (some pinned.accountId) now later accountIds states =
        some out ∧
      (keepsPinned cfg now pinned states = true →
        out.result.account = some (examine (cfg.options true) now pinned).1 ∧
        mappingAfter (some pinned.accountId) out.writes = some pinned.accountId) ∧
      (keepsPinned cfg now pinned states = false →
        out.result.account = pickOf cfg.strategy (fallback cfg now later pinned states).ranking later
          (fallback cfg now later pinned states).contenders ∧
        ∀ c, out.result.account = some c → (∃ s ∈ states, SameAccount s c) ∧
          mappingAfter (some pinned.accountId) out.writes =
            some (if burnFirstOpen cfg now pinned states || sticky.maxAgeSeconds.isNone then
              c.accountId else pinned.accountId)) := by
  have found := find_pinned distinct member
  rcases @tryPinned_pressured cfg sticky kind pinned now states steady
    (pressured_of_above steady unlimited above) keeps distinct member available with
    ⟨kept, out, tried, account⟩ | ⟨gone, tried⟩
  · refine ⟨_, selectWithStickiness_keep key kindGiven named found tried,
      fun _ => ⟨account, ?_⟩, fun gone => by rw [kept] at gone; cases gone⟩
    rw [refreshMapping]
    split
    · rfl
    · rfl
  · have served := @selectWithStickiness_fallBack _ _ _ _ now later accountIds _ _ _ _ key kindGiven
      named found tried
    refine ⟨_, served, fun kept => (by rw [gone] at kept; cases kept), fun _ => ?_⟩
    have sound := selectWithStickiness_sound hle served
    rw [afterPinned_leftover distinct member available unlimited] at sound ⊢
    obtain ⟨account, mapped⟩ := @fallBackSelection_ends cfg later accountIds
      (leftover cfg now pinned states) (burnFirstOpen cfg now pinned states)
      (burnFirstOpen cfg now pinned states || sticky.maxAgeSeconds.isNone)
      (if burnFirstOpen cfg now pinned states then [.delete] else []) (some pinned.accountId)
    refine ⟨account.trans (preferring_contest steady).2, fun c hc => ?_⟩
    obtain ⟨s, hs, selectable⟩ := sound.chosen c hc
    refine ⟨⟨s, hs, selectable.same⟩, ?_⟩
    rw [mapped c (account ▸ hc) (selectable.same.accountId ▸ known s hs)]
    cases burnFirstOpen cfg now pinned states with
    | true => rfl
    | false => cases sticky.maxAgeSeconds.isNone <;> rfl

/-- Under one draw the condition is exact. -/
theorem followsBudget_iff :
    FollowsBudget cfg sticky now later accountIds pinned states ↔
      CanFollowBudget {cfg.strategy} cfg sticky now later pinned states := by
  obtain ⟨out, served, kept, gone⟩ := selectWithStickiness_pressured steady key kindGiven keeps hle
    named distinct known member available unlimited above
  have follows : FollowsBudget cfg sticky now later accountIds pinned states ↔
      (OtherBelow cfg now pinned states →
        ∃ c, out.result.account = some c ∧ (∃ s ∈ states, SameAccount s c) ∧
          passes (cfg.options true) later c = true ∧ Below cfg c ∧
          mappingAfter (some pinned.accountId) out.writes = some c.accountId) ∧
      (¬ OtherBelow cfg now pinned states →
        ∃ c, out.result.account = some c ∧ c.accountId = pinned.accountId ∧
          mappingAfter (some pinned.accountId) out.writes = some pinned.accountId) := by
    simp only [FollowsBudget, served, Option.some.injEq, exists_eq_left']
  rw [follows, CanFollowBudget]
  cases keeper : keepsPinned cfg now pinned states with
  | true =>
    obtain ⟨account, mapped⟩ := kept keeper
    have own := examine_same (cfg.options true) now pinned
    rw [if_pos rfl]
    constructor
    · rintro ⟨moves, _⟩ other
      obtain ⟨c, hc, _, _, below, _⟩ := moves other
      rw [account] at hc
      exact Option.some.inj hc ▸ below
    · refine fun below => ⟨fun other => ⟨_, account, ⟨pinned, member, own⟩, ?_, below other, ?_⟩,
        fun _ => ⟨_, account, own.accountId, mapped⟩⟩
      · exact passes_later hle (passes_again.trans available)
      · rw [mapped, own.accountId]
  | false =>
    obtain ⟨account, ends⟩ := gone keeper
    rw [if_neg Bool.false_ne_true]
    cases picked : pickOf cfg.strategy (fallback cfg now later pinned states).ranking later
        (fallback cfg now later pinned states).contenders with
    | none =>
      have nobody := account.trans picked
      have empty := pickOf_eq_none.mp picked
      refine iff_of_false ?_ (fun some_ => some_.1 empty)
      rintro ⟨moves, stays⟩
      by_cases other : OtherBelow cfg now pinned states
      · obtain ⟨c, hc, _⟩ := moves other
        rw [nobody] at hc
        cases hc
      · obtain ⟨c, hc, _⟩ := stays other
        rw [nobody] at hc
        cases hc
    | some c =>
      have served_ := account.trans picked
      have some_ := pickOf_isSome.mp (Option.isSome_iff_exists.mpr ⟨c, picked⟩)
      obtain ⟨member_, mapped⟩ := ends c served_
      have only : ∀ d, out.result.account = some d ↔ d = c := by
        intro d
        rw [served_, Option.some.injEq]
        exact eq_comm
      simp only [only, exists_eq_left, mapped, Option.some.injEq, Set.mem_singleton_iff, forall_eq,
        picked, forall_eq', member_, true_and, some_, ne_eq, not_false_eq_true]
      generalize (burnFirstOpen cfg now pinned states || sticky.maxAgeSeconds.isNone) = persists
      by_cases own : c.accountId = pinned.accountId
      · simp [own]
      · have other : pinned.accountId ≠ c.accountId := Ne.symm own
        cases persists with
        | true => simp [own, imp_and]
        | false => simp [own, other]

end Pressured

/-- The probes, and so what the fallback ranks, are the same under every draw. -/
theorem keepsPinned_drawn {draws : Set Strategy} (family : DrawsOf cfg.strategy draws)
    {drawn : Strategy} (h : drawn ∈ draws) :
    keepsPinned { cfg with strategy := drawn } now pinned states = keepsPinned cfg now pinned states ∧
      leftover { cfg with strategy := drawn } now pinned states = leftover cfg now pinned states := by
  have steady : (probe cfg now pinned states).ranking ≠ .routed := by
    simp only [probe, contest]
    split
    · nofun
    · split
      · nofun
      · split
        · nofun
        · nofun
  have same : poolAlsoExhausted { cfg with strategy := drawn } now pinned states =
      poolAlsoExhausted cfg now pinned states := by
    have ranked : pickOf drawn (probe cfg now pinned states).ranking now
        (probe cfg now pinned states).contenders = pickOf cfg.strategy
        (probe cfg now pinned states).ranking now (probe cfg now pinned states).contenders := by
      cases (probe cfg now pinned states).contenders with
      | nil => rfl
      | cons s rest => simp only [pickOf, family.probes drawn h _ steady]
    exact congrArg (Option.any fun best : AccountState => best.accountId == pinned.accountId ||
      stateAboveStickyBudgetThreshold cfg.budgetThresholdPct cfg.secondaryBudgetThresholdPct best)
      ranked
  constructor
  · rw [keepsPinned, same]
    rfl
  · rw [leftover, same]
    rfl

end Main

def stickyRoute : RouteConfig := { strategy := headOf }

def codexSticky : StickyRequest := { key := "session", kind := some .codexSession }

def hotPinned : AccountState := { accountId := "hot", status := .active, usedPercent := some 99 }

/-- The pinned account is above its threshold, two others are not. -/
def hotAndCool : List AccountState :=
  [hotPinned, { accountId := "cool", status := .active, usedPercent := some 10 },
    { accountId := "mild", status := .active, usedPercent := some 50 }]

/-- The route that draws an account by its remaining credits. -/
def weightedRoute : RouteConfig := { strategy := weightedRouting.request }

/-- A paused burn-first account is in the pool as well. -/
def pausedBurnFirst : List AccountState :=
  hotAndCool ++ [{ accountId := "spare", status := .paused, routingPolicy := "burn_first" }]

end Balancer
