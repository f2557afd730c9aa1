import LivingBalancer.Balancer.SelectAccount
import LivingBalancer.Lib.Pointwise

/-!
# Budget preference and session stickiness

`_select_account_preferring_budget_safe` and `_select_with_stickiness`. Both may
run `select_account` several times over parts of the pool; `Examined` says what
that can do to a state and `Selectable` what a chosen account went through. The
mapping writes of the sticky repository are returned, not applied.
-/

namespace Balancer

/-- The routing options of one request. -/
structure RouteConfig where
  strategy : Strategy
  routingStrategy : RoutingStrategy := .capacityWeighted
  budgetThresholdPct : ℚ := 95
  secondaryBudgetThresholdPct : ℚ := 100
  opportunistic : Bool := false

def RouteConfig.options (cfg : RouteConfig) (allowBackoffFallback : Bool) : SelectOptions :=
  { allowBackoffFallback := allowBackoffFallback, opportunistic := cfg.opportunistic }

structure Outcome where
  states : List AccountState
  result : SelectionResult

def examineWhere (opts : SelectOptions) (now : ℚ) (p : AccountState → Bool)
    (states : List AccountState) : List AccountState :=
  states.map fun s => if p s then (examine opts now s).1 else s

/-- `select_account` on the states that satisfy `p`. -/
def selectWhere (cfg : RouteConfig) (ranking : Ranking) (allowBackoffFallback : Bool) (now : ℚ)
    (p : AccountState → Bool) (states : List AccountState) : Outcome :=
  let opts := cfg.options allowBackoffFallback
  ⟨examineWhere opts now p states,
    selectAccount cfg.strategy ranking opts now (states.filter p)⟩

/-- `_state_above_budget_threshold`. -/
def stateAboveBudgetThreshold (threshold : ℚ) (s : AccountState) : Bool :=
  (s.priorityUsedPercent.or s.usedPercent).any fun u => decide (threshold < u)

/-- `_state_above_sticky_budget_threshold`. -/
def stateAboveStickyBudgetThreshold (threshold secondaryThreshold : ℚ) (s : AccountState) : Bool :=
  let secondaryUsedPercent :=
    if s.limitScopedUsage && s.prioritySecondaryUsedPercent.isNone then
      s.priorityUsedPercent.or s.usedPercent
    else s.prioritySecondaryUsedPercent.or s.secondaryUsedPercent
  stateAboveBudgetThreshold threshold s ||
    secondaryUsedPercent.any fun u => decide (secondaryThreshold < u)

/-- The tier `_best_health_tier_states` keeps. -/
def bestHealthTier (states : List AccountState) : HealthTier :=
  if states.any fun s => s.healthTier == .healthy then .healthy
  else if states.any fun s => s.healthTier == .probing then .probing
  else .draining

def budgetSafe (cfg : RouteConfig) (applySecondary : Bool) (s : AccountState) : Bool :=
  s.routingPolicy != "preserve" &&
    !(if applySecondary then
        stateAboveStickyBudgetThreshold cfg.budgetThresholdPct cfg.secondaryBudgetThresholdPct s
      else stateAboveBudgetThreshold cfg.budgetThresholdPct s)

/-- Nothing selected and nothing examined: the branch was not taken. -/
def notTried (states : List AccountState) : Outcome := ⟨states, ⟨none, none⟩⟩

/-- `select_account` on the states that satisfy `p`, if there are any. -/
def selectAmong (cfg : RouteConfig) (ranking : Ranking) (allowBackoffFallback : Bool) (now : ℚ)
    (p : AccountState → Bool) (states : List AccountState) : Outcome :=
  if states.any p then selectWhere cfg ranking allowBackoffFallback now p states
  else notTried states

/-- `_select_account_preferring_budget_safe`. -/
def selectAccountPreferringBudgetSafe (cfg : RouteConfig) (ranking : Ranking)
    (applySecondary : Bool) (now : ℚ) (states : List AccountState) : Outcome :=
  let safe := budgetSafe cfg applySecondary
  if cfg.routingStrategy.drains then
    if states.any safe then selectWhere cfg ranking true now safe states
    else selectWhere cfg ranking true now (fun _ => true) states
  else
    let burnFirst := fun s : AccountState =>
      s.healthTier == bestHealthTier states && s.routingPolicy == "burn_first"
    let first := selectAmong cfg ranking false now burnFirst states
    if first.result.account.isSome then first
    else
      let preferred := selectAmong cfg ranking true now safe first.states
      if preferred.result.account.isSome || (first.states.any safe && first.states.all safe) then
        preferred
      else
        let ranking := if cfg.routingStrategy = .usageWeighted then .primaryFirst else ranking
        selectWhere cfg ranking true now (fun _ => true) preferred.states

inductive StickyKind where
  | codexSession
  | stickyThread
  | promptCache
  deriving DecidableEq, Repr

structure StickyRequest where
  key : String
  kind : Option StickyKind
  reallocate : Bool := false
  maxAgeSeconds : Option Int := none

inductive StickyWrite where
  | upsert (accountId : String)
  | delete
  deriving DecidableEq, Repr

structure StickyOutcome extends Outcome where
  writes : List StickyWrite

def stickyGracePeriodSeconds : ℚ := 10

/-- Whether the pinned account should give up the session. -/
def budgetPressured (cfg : RouteConfig) (pinned : AccountState) : Bool :=
  !cfg.routingStrategy.drains && pinned.status != .rateLimited &&
    stateAboveStickyBudgetThreshold cfg.budgetThresholdPct cfg.secondaryBudgetThresholdPct pinned

def rateLimitFarAway (kind : StickyKind) (now : ℚ) (pinned : AccountState) : Bool :=
  kind == .promptCache && pinned.status == .rateLimited &&
    pinned.resetAt.any fun r => decide (600 ≤ r - now)

/-- The burn-first probe before a reallocation: the examined states and its answer. -/
def burnFirstReallocate (cfg : RouteConfig) (now : ℚ) (pinned : AccountState)
    (states : List AccountState) : List AccountState × Bool :=
  let burnFirst := fun s : AccountState => s.routingPolicy == "burn_first"
  if pinned.routingPolicy == "burn_first" then (states, false)
  else if states.any burnFirst then
    let probe := selectWhere cfg .burnFirstProbe false now burnFirst states
    (probe.states, probe.result.account.isSome)
  else (states, true)

/-- `select_account([pinned])`. -/
def selectPinned (cfg : RouteConfig) (now : ℚ) (pinnedId : String) (states : List AccountState) :
    Outcome :=
  selectWhere cfg .routed false now (fun s => s.accountId == pinnedId) states

def refreshMapping (sticky : StickyRequest) (accountId : String) : List StickyWrite :=
  if sticky.maxAgeSeconds.isSome then [.upsert accountId] else []

/-- Where the pinned account leaves the request. -/
inductive PinnedOutcome where
  | keep (out : Outcome)
  | fallBack (states : List AccountState) (reallocate applySecondary : Bool)

/-- The pinned branch up to the grace period. -/
def tryPinned (cfg : RouteConfig) (sticky : StickyRequest) (kind : StickyKind) (now : ℚ)
    (pinned : AccountState) (states : List AccountState) : PinnedOutcome :=
  let pressured := budgetPressured cfg pinned
  let (states, burnFirst) := burnFirstReallocate cfg now pinned states
  if ¬ ((pressured || rateLimitFarAway kind now pinned) && burnFirst) then
    let out := selectPinned cfg now pinned.accountId states
    if out.result.account.isSome then .keep out
    else .fallBack out.states sticky.reallocate false
  else if pressured then
    let best := selectAccountPreferringBudgetSafe cfg .deterministicProbe true now states
    let poolAlsoExhausted := best.result.account.any fun b =>
      b.accountId == pinned.accountId || stateAboveStickyBudgetThreshold cfg.budgetThresholdPct
        cfg.secondaryBudgetThresholdPct b
    if poolAlsoExhausted then
      let out := selectPinned cfg now pinned.accountId best.states
      if out.result.account.isSome then .keep out else .fallBack out.states true true
    else .fallBack best.states true true
  else .fallBack states true false

/-- The grace retry runs on a copy, so the states stay as they are. -/
def graceResult (cfg : RouteConfig) (now : ℚ) (pinnedId : String) (states : List AccountState) :
    SelectionResult :=
  selectAccount cfg.strategy .routed (cfg.options false) (now + stickyGracePeriodSeconds)
    (states.filter fun s => s.accountId == pinnedId && s.status == .rateLimited)

/-- The selection once the pinned account is given up for this request. -/
def fallBackSelection (cfg : RouteConfig) (later : ℚ) (accountIds : List String)
    (states : List AccountState) (applySecondary persistFallback : Bool)
    (writes : List StickyWrite) : StickyOutcome :=
  let out := selectAccountPreferringBudgetSafe cfg .routed applySecondary later states
  match out.result.account with
  | some chosen =>
    if persistFallback && accountIds.contains chosen.accountId then
      { out with writes := writes ++ [.upsert chosen.accountId] }
    else { out with writes := writes }
  | none => { out with writes := writes }

/-- The request once the pinned account did not serve it at `now`. -/
def afterPinned (cfg : RouteConfig) (sticky : StickyRequest) (pinnedId : String) (now later : ℚ)
    (accountIds : List String) (states : List AccountState) (reallocate applySecondary : Bool) :
    StickyOutcome :=
  let grace := graceResult cfg now pinnedId states
  if reallocate = false ∧ grace.account.isSome then
    ⟨⟨states, grace⟩, refreshMapping sticky pinnedId⟩
  else
    let recoverable := states.all fun s => s.accountId != pinnedId || !s.status.hardBlocked
    let persistFallback := reallocate || !recoverable || sticky.maxAgeSeconds.isNone
    let writes := if reallocate then [.delete] else []
    fallBackSelection cfg later accountIds states applySecondary persistFallback writes

/-- `_select_with_stickiness`; `none` is its `ValueError`. The clock is read again after
the mapping is deleted. -/
def selectWithStickiness (cfg : RouteConfig) (sticky : StickyRequest) (existing : Option String)
    (now later : ℚ) (accountIds : List String) (states : List AccountState) :
    Option StickyOutcome :=
  if sticky.key = "" then
    some { selectAccountPreferringBudgetSafe cfg .routed false later states with writes := [] }
  else
    match sticky.kind with
    | none => none
    | some kind =>
      match existing.filter (· ≠ "") with
      | none => some (fallBackSelection cfg later accountIds states false true [])
      | some pinnedId =>
        match states.find? fun s => s.accountId == pinnedId with
        | none => some (fallBackSelection cfg later accountIds states false true [.delete])
        | some pinned =>
          match tryPinned cfg sticky kind now pinned states with
          | .keep out => some { out with writes := refreshMapping sticky pinnedId }
          | .fallBack states reallocate applySecondary =>
            some (afterPinned cfg sticky pinnedId now later accountIds states reallocate
              applySecondary)

/-- What any number of examinations up to the clock value `limit` make of a state. -/
inductive Examined (cfg : RouteConfig) (limit : ℚ) : AccountState → AccountState → Prop where
  | refl (s : AccountState) : Examined cfg limit s s
  | tail {s t : AccountState} (fallback : Bool) (now : ℚ) : Examined cfg limit s t →
      now ≤ limit → Examined cfg limit s (examine (cfg.options fallback) now t).1

/-- The history of a returned account: examinations, the last of which let it pass. -/
def Selectable (cfg : RouteConfig) (limit : ℚ) (s chosen : AccountState) : Prop :=
  ∃ t fallback now, Examined cfg limit s t ∧ now ≤ limit ∧
    chosen = (examine (cfg.options fallback) now t).1 ∧
    (examine (cfg.options fallback) now t).2 ≠ .skipped

/-- A selection over `states` that read the clock up to `limit`, and up to `grace` of the
account it returns. -/
structure Sound (cfg : RouteConfig) (limit : ℚ) (grace : String → ℚ) (states : List AccountState)
    (out : Outcome) : Prop where
  examined : List.Forall₂ (Examined cfg limit) states out.states
  chosen : ∀ c, out.result.account = some c →
    ∃ s ∈ states, Selectable cfg (grace c.accountId) s c

/-- How far the clock is read for an account of a sticky selection that starts at `now` and
falls back at `later`: the pinned one gets the grace period, unless it is reallocated. -/
def stickyGrace (reallocate : Bool) (existing : Option String) (now later : ℚ) (id : String) : ℚ :=
  if reallocate = false ∧ existing = some id then max later (now + stickyGracePeriodSeconds)
  else later

theorem le_stickyGrace (reallocate : Bool) (existing : Option String) (now later : ℚ)
    (id : String) : later ≤ stickyGrace reallocate existing now later id := by
  simp only [stickyGrace]
  split
  · exact le_max_left _ _
  · exact le_refl _

theorem stickyGrace_mono {reallocate reallocate' : Bool}
    (imp : reallocate = true → reallocate' = true) (existing : Option String) (now later : ℚ)
    (id : String) :
    stickyGrace reallocate' existing now later id ≤ stickyGrace reallocate existing now later id := by
  simp only [stickyGrace]
  split
  · rename_i graced
    have kept : reallocate = false := by
      by_contra forced
      rw [imp (by simpa using forced)] at graced
      cases graced.1
    rw [if_pos ⟨kept, graced.2⟩]
  · exact le_stickyGrace reallocate existing now later id

section Examined

variable {cfg : RouteConfig} {limit : ℚ} {s t : AccountState}

theorem Examined.trans {r : AccountState} (h : Examined cfg limit s t)
    (k : Examined cfg limit t r) : Examined cfg limit s r := by
  induction k with
  | refl => exact h
  | tail fallback now _ hnow ih => exact .tail fallback now ih hnow

theorem Examined.mono {limit' : ℚ} (h : Examined cfg limit s t) (hle : limit ≤ limit') :
    Examined cfg limit' s t := by
  induction h with
  | refl => exact .refl s
  | tail fallback now _ hnow ih => exact .tail fallback now ih (hnow.trans hle)

theorem Examined.same (h : Examined cfg limit s t) : SameAccount s t := by
  induction h with
  | refl => exact .refl s
  | tail fallback now _ _ ih => exact ih.trans (examine_same _ now _)

theorem Examined.hardBlocked (h : Examined cfg limit s t) (hard : s.status.hardBlocked = true) :
    t.status = s.status := by
  induction h with
  | refl => rfl
  | tail fallback now _ _ ih =>
    exact (examine_hardBlocked _ now _ (by rw [ih]; exact hard)).1.trans ih

theorem resetElapsed_mono {now later : ℚ} {reset : Option ℚ} (hle : now ≤ later)
    (h : resetElapsed later reset = false) : resetElapsed now reset = false := by
  cases reset with
  | none => rfl
  | some r =>
    simp only [resetElapsed, Option.any_some, Bool.and_eq_false_iff, decide_eq_false_iff_not]
      at h ⊢
    rcases h with h | h
    · exact Or.inl h
    · exact Or.inr fun hr => h (hr.trans hle)

/-- A rate limit that runs past `limit` is untouched by everything up to `limit`. -/
theorem Examined.rateLimited (h : Examined cfg limit s t) (limited : s.status = .rateLimited)
    (running : resetElapsed limit s.resetAt = false) :
    t.status = .rateLimited ∧ t.resetAt = s.resetAt := by
  induction h with
  | refl => exact ⟨limited, rfl⟩
  | tail fallback now _ hnow ih =>
    obtain ⟨status, reset⟩ := ih
    have runningNow := resetElapsed_mono hnow (reset ▸ running)
    obtain ⟨status', reset', _⟩ := examine_rateLimited (cfg.options fallback) now _ status runningNow
    exact ⟨status', reset'.trans reset⟩

theorem Selectable.trans {c : AccountState} (h : Examined cfg limit s t)
    (k : Selectable cfg limit t c) : Selectable cfg limit s c := by
  obtain ⟨r, fallback, now, hr, hnow, hc, passed⟩ := k
  exact ⟨r, fallback, now, h.trans hr, hnow, hc, passed⟩

theorem Selectable.mono {limit' : ℚ} {c : AccountState} (h : Selectable cfg limit s c)
    (hle : limit ≤ limit') : Selectable cfg limit' s c := by
  obtain ⟨r, fallback, now, hr, hnow, hc, passed⟩ := h
  exact ⟨r, fallback, now, hr.mono hle, hnow.trans hle, hc, passed⟩

theorem Selectable.same {c : AccountState} (h : Selectable cfg limit s c) : SameAccount s c := by
  obtain ⟨r, fallback, now, hr, _, rfl, _⟩ := h
  exact hr.same.trans (examine_same _ now r)

theorem Selectable.not_hardBlocked {c : AccountState} (h : Selectable cfg limit s c) :
    s.status.hardBlocked = false ∧ c.status.hardBlocked = false := by
  obtain ⟨r, fallback, now, hr, _, rfl, passed⟩ := h
  have hardly : r.status.hardBlocked = false := by
    by_contra hard
    exact passed (examine_hardBlocked _ now r (by simpa using hard)).2
  refine ⟨?_, ?_⟩
  · by_contra hard
    have stays := hr.hardBlocked (by simpa using hard)
    rw [stays] at hardly
    exact hard hardly
  · rcases examine_lifts (cfg.options fallback) now r with same | ⟨_, active⟩
    · rw [same]
      exact hardly
    · rw [active]
      rfl

theorem bypass_options (fallback : Bool) (s : AccountState) :
    bypassStandardQuota (cfg.options fallback) s = s.ignoreStandardQuota := by
  simp [bypassStandardQuota, RouteConfig.options]

/-- A rate limit that runs past the last clock reading is still there in a chosen state. -/
theorem Selectable.rateLimited {c : AccountState} (h : Selectable cfg limit s c)
    (limited : s.status = .rateLimited) (running : resetElapsed limit s.resetAt = false) :
    c.status = .rateLimited := by
  obtain ⟨r, fallback, now, hr, hnow, rfl, _⟩ := h
  obtain ⟨status, reset⟩ := hr.rateLimited limited running
  exact (examine_rateLimited _ now r status (resetElapsed_mono hnow (reset ▸ running))).1

/-- A rate limit that runs past the last clock reading is not chosen without a bypass. -/
theorem Selectable.not_rateLimited {c : AccountState} (h : Selectable cfg limit s c)
    (limited : s.status = .rateLimited) (noBypass : s.ignoreStandardQuota = false) :
    resetElapsed limit s.resetAt = true := by
  by_contra running
  rw [Bool.not_eq_true] at running
  obtain ⟨r, fallback, now, hr, hnow, _, passed⟩ := h
  obtain ⟨status, reset⟩ := hr.rateLimited limited running
  have runningNow := resetElapsed_mono hnow (reset ▸ running)
  refine passed ((examine_rateLimited _ now r status runningNow).2.2 ?_)
  rw [bypass_options, hr.same.ignoreStandardQuota]
  exact noBypass

end Examined

section Sound

variable {cfg : RouteConfig} {limit : ℚ} {grace : String → ℚ} {states : List AccountState}

theorem Sound.notTried : Sound cfg limit grace states (notTried states) where
  examined := List.forall₂_same.mpr fun s _ => .refl s
  chosen := by
    intro c hc
    cases hc

theorem Sound.trans {middle out : Outcome} (h : Sound cfg limit grace states middle)
    (hle : ∀ id, limit ≤ grace id) (k : Sound cfg limit grace middle.states out) :
    Sound cfg limit grace states out where
  examined := Pointwise.comp (fun _ _ _ hab hbc => hab.trans hbc) h.examined k.examined
  chosen := by
    intro c hc
    obtain ⟨t, ht, sel⟩ := k.chosen c hc
    obtain ⟨s, hs, hst⟩ := Pointwise.exists_left h.examined ht
    exact ⟨s, hs, .trans (hst.mono (hle _)) sel⟩

theorem Sound.weaken {grace' : String → ℚ} {out : Outcome} (h : Sound cfg limit grace states out)
    (hle : ∀ id, grace id ≤ grace' id) : Sound cfg limit grace' states out where
  examined := h.examined
  chosen := by
    intro c hc
    obtain ⟨s, hs, selectable⟩ := h.chosen c hc
    exact ⟨s, hs, selectable.mono (hle _)⟩

theorem Sound.selectWhere (ranking : Ranking) (fallback : Bool) {now : ℚ} (hnow : now ≤ limit)
    (hle : ∀ id, limit ≤ grace id) (p : AccountState → Bool) :
    Sound cfg limit grace states (selectWhere cfg ranking fallback now p states) where
  examined := by
    refine List.forall₂_map_right_iff.mpr (List.forall₂_same.mpr ?_)
    intro s _
    split
    · exact .tail fallback now (.refl s) hnow
    · exact .refl s
  chosen := by
    intro c hc
    obtain ⟨s, hs, hc, passed⟩ := selectAccount_examined hc
    exact ⟨s, List.mem_of_mem_filter hs, s, fallback, now, .refl s, hnow.trans (hle _), hc, passed⟩

theorem Sound.selectAmong (ranking : Ranking) (fallback : Bool) {now : ℚ} (hnow : now ≤ limit)
    (hle : ∀ id, limit ≤ grace id) (p : AccountState → Bool) :
    Sound cfg limit grace states (selectAmong cfg ranking fallback now p states) := by
  simp only [Balancer.selectAmong]
  split
  · exact .selectWhere ranking fallback hnow hle p
  · exact .notTried

theorem Sound.preferringBudgetSafe (ranking : Ranking) (applySecondary : Bool) {now : ℚ}
    (hnow : now ≤ limit) (hle : ∀ id, limit ≤ grace id) :
    Sound cfg limit grace states
      (selectAccountPreferringBudgetSafe cfg ranking applySecondary now states) := by
  simp only [selectAccountPreferringBudgetSafe]
  split
  · split
    · exact .selectWhere ranking true hnow hle _
    · exact .selectWhere ranking true hnow hle _
  · -- the burn-first probe, then the preferred pool, then the whole pool
    have first : Sound cfg limit grace states (Balancer.selectAmong cfg ranking false now
        (fun s => s.healthTier == bestHealthTier states && s.routingPolicy == "burn_first")
        states) := .selectAmong ranking false hnow hle _
    have preferred := first.trans hle
      (.selectAmong ranking true hnow hle (budgetSafe cfg applySecondary))
    split
    · exact first
    · split
      · exact preferred
      · exact preferred.trans hle (.selectWhere _ true hnow hle _)

theorem Sound.selectPinned (pinnedId : String) {now : ℚ} (hnow : now ≤ limit)
    (hle : ∀ id, limit ≤ grace id) : Sound cfg limit grace states (selectPinned cfg now pinnedId states) :=
  .selectWhere .routed false hnow hle _

theorem burnFirstReallocate_sound (pinned : AccountState) {now : ℚ} (hnow : now ≤ limit)
    (hle : ∀ id, limit ≤ grace id) :
    Sound cfg limit grace states
      (notTried (burnFirstReallocate cfg now pinned states).1) := by
  simp only [burnFirstReallocate]
  split
  · exact .notTried
  · split
    · refine ⟨(Sound.selectWhere .burnFirstProbe false hnow hle _).examined, ?_⟩
      intro c hc
      cases hc
    · exact .notTried

def PinnedOutcome.outcome : PinnedOutcome → Outcome
  | .keep out => out
  | .fallBack states _ _ => notTried states

theorem Sound.forget {out : Outcome} (h : Sound cfg limit grace states out) :
    Sound cfg limit grace states (Balancer.notTried out.states) where
  examined := h.examined
  chosen := by
    intro c hc
    cases hc

theorem tryPinned_sound (sticky : StickyRequest) (kind : StickyKind) (pinned : AccountState)
    {now : ℚ} (hnow : now ≤ limit) (hle : ∀ id, limit ≤ grace id) :
    Sound cfg limit grace states (tryPinned cfg sticky kind now pinned states).outcome := by
  have probed : Sound cfg limit grace states
      (notTried (burnFirstReallocate cfg now pinned states).1) :=
    burnFirstReallocate_sound pinned hnow hle
  simp only [tryPinned]
  split
  · have out := probed.trans hle (Sound.selectPinned pinned.accountId hnow hle)
    split
    · exact out
    · exact out.forget
  · split
    · have best := probed.trans hle (Sound.preferringBudgetSafe .deterministicProbe true hnow hle)
      split
      · have out := best.trans hle (Sound.selectPinned pinned.accountId hnow hle)
        split
        · exact out
        · exact out.forget
      · exact best.forget
    · exact probed

theorem tryPinned_reallocates {sticky : StickyRequest} {kind : StickyKind} {pinned : AccountState}
    {now : ℚ} {left : List AccountState} {reallocate applySecondary : Bool}
    (h : tryPinned cfg sticky kind now pinned states = .fallBack left reallocate applySecondary)
    (forced : sticky.reallocate = true) : reallocate = true := by
  simp only [tryPinned] at h
  split at h
  · split at h
    · cases h
    · cases h
      exact forced
  · split at h
    · split at h
      · split at h
        · cases h
        · cases h
          rfl
      · cases h
        rfl
    · cases h
      rfl

theorem fallBackSelection_sound (accountIds : List String) (applySecondary persistFallback : Bool)
    (writes : List StickyWrite) (hle : ∀ id, limit ≤ grace id) :
    Sound cfg limit grace states (fallBackSelection cfg limit accountIds states applySecondary
      persistFallback writes).toOutcome := by
  have out : Sound cfg limit grace states
      (selectAccountPreferringBudgetSafe cfg .routed applySecondary limit states) :=
    .preferringBudgetSafe .routed applySecondary (le_refl limit) hle
  simp only [fallBackSelection]
  split
  · split
    · exact out
    · exact out
  · exact out

/-- Only the grace retry looks past the clock, by the grace period. -/
theorem afterPinned_sound (sticky : StickyRequest) (pinnedId : String) {now later : ℚ}
    (accountIds : List String) (reallocate applySecondary : Bool) :
    Sound cfg later (stickyGrace reallocate (some pinnedId) now later) states (afterPinned cfg sticky
      pinnedId now later accountIds states reallocate applySecondary).toOutcome := by
  simp only [afterPinned]
  by_cases hgrace : reallocate = false ∧ (graceResult cfg now pinnedId states).account.isSome
  · rw [if_pos hgrace]
    refine ⟨List.forall₂_same.mpr fun s _ => .refl s, ?_⟩
    intro c hc
    obtain ⟨s, hs, hc, passed⟩ := selectAccount_examined hc
    obtain ⟨hs, pinned⟩ := List.mem_filter.mp hs
    have sameId : c.accountId = s.accountId := by
      rw [hc]
      exact (examine_same _ _ s).accountId
    have isPinned : s.accountId = pinnedId := by
      simp only [Bool.and_eq_true, beq_iff_eq] at pinned
      exact pinned.1
    have reads : now + stickyGracePeriodSeconds ≤
        stickyGrace reallocate (some pinnedId) now later c.accountId := by
      rw [stickyGrace, if_pos ⟨hgrace.1, by rw [sameId, isPinned]⟩]
      exact le_max_right _ _
    exact ⟨s, hs, s, false, _, .refl s, reads, hc, passed⟩
  · rw [if_neg hgrace]
    exact fallBackSelection_sound accountIds applySecondary _ _ (le_stickyGrace _ _ _ _)

theorem selectWithStickiness_sound {sticky : StickyRequest} {existing : Option String}
    {now later : ℚ} (hnow : now ≤ later) {accountIds : List String} {out : StickyOutcome}
    (h : selectWithStickiness cfg sticky existing now later accountIds states = some out) :
    Sound cfg later (stickyGrace sticky.reallocate existing now later) states out.toOutcome := by
  have hle := le_stickyGrace sticky.reallocate existing now later
  simp only [selectWithStickiness] at h
  split at h
  · cases h
    exact .preferringBudgetSafe .routed false (le_refl later) hle
  · split at h
    · cases h
    · rename_i kind _
      split at h
      · cases h
        exact fallBackSelection_sound accountIds false true [] hle
      · rename_i pinnedId hpinned
        have isExisting : existing = some pinnedId := (Option.filter_eq_some_iff.mp hpinned).1
        split at h
        · cases h
          exact fallBackSelection_sound accountIds false true _ hle
        · rename_i pinned _
          have tried : Sound cfg later (stickyGrace sticky.reallocate existing now later) states
              (tryPinned cfg sticky kind now pinned states).outcome :=
            tryPinned_sound sticky kind pinned hnow hle
          split at h
          · rename_i kept hkept
            cases h
            rw [hkept] at tried
            exact tried
          · rename_i left reallocate applySecondary hleft
            cases h
            rw [hleft] at tried
            subst isExisting
            have after : Sound cfg later (stickyGrace reallocate (some pinnedId) now later) left
                (afterPinned cfg sticky pinnedId now later accountIds left reallocate
                  applySecondary).toOutcome :=
              afterPinned_sound sticky pinnedId accountIds reallocate applySecondary
            exact tried.trans hle
              (after.weaken (stickyGrace_mono (tryPinned_reallocates hleft) _ now later))

end Sound

end Balancer
