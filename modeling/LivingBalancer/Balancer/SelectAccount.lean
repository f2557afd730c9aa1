import LivingBalancer.Balancer.Quota

/-!
# Choosing an account

`select_account` of `core/balancer/logic.py` with its recovery of elapsed blocks,
the error backoff fallback and the opportunistic filter, and above it
`_select_account_preferring_budget_safe` and `_select_with_stickiness`.

The states are mutated in place by the source; here every call returns the whole
list with the examined entries replaced. The ranking among the accounts that pass
is left to a `Strategy`, which can return any member of its pool: nothing in this
module depends on which strategy of the source it is.
-/

namespace Balancer

inductive RoutingStrategy where
  | usageWeighted
  | roundRobin
  | capacityWeighted
  | relativeAvailability
  | fillFirst
  | sequentialDrain
  | resetDrain
  | singleAccount
  deriving DecidableEq, Repr

def RoutingStrategy.drains : RoutingStrategy → Bool
  | .sequentialDrain | .resetDrain | .singleAccount => true
  | _ => false

/-- The ranking options in which the calls of one request differ. -/
inductive Ranking where
  | routed
  | deterministicProbe
  | burnFirstProbe
  | primaryFirst
  deriving DecidableEq, Repr

/-- A ranking of the eligible pool; a draw is one value of it. -/
structure Strategy where
  pick : Ranking → ℚ → (pool : List AccountState) → pool ≠ [] → { s : AccountState // s ∈ pool }

inductive SelectionError where
  | opportunisticClosed (reason : String)
  | unavailable (message : String)
  | retryIn (waitSeconds : ℚ)
  | noAvailableAccounts
  deriving DecidableEq, Repr

structure SelectionResult where
  account : Option AccountState
  error : Option SelectionError

/-- Python's `:.0f`: round half to even. -/
def roundHalfEven (q : ℚ) : Int :=
  let below := ⌊q⌋
  let rest := q - below
  if rest < 1 / 2 then below
  else if 1 / 2 < rest then below + 1
  else if below % 2 = 0 then below else below + 1

/-- `_format_retry_hint`, clamped to 300 s. -/
def formatRetryHint (waitSeconds : ℚ) : String :=
  "Rate limit exceeded. Try again in " ++
    toString (roundHalfEven (min (max 0 waitSeconds) 300)) ++ "s"

def SelectionError.message : SelectionError → String
  | .opportunisticClosed reason => "opportunistic burn window closed: " ++ reason
  | .unavailable message => message
  | .retryIn wait => formatRetryHint wait
  | .noAvailableAccounts => "No available accounts"

structure SelectOptions where
  allowBackoffFallback : Bool := true
  opportunistic : Bool := false
  ignoreStandardQuota : Bool := false
  bypassQuotaExceeded : Bool := false
  bypassQuotaExceededAccountIds : Option (List String) := none

def bypassStandardQuota (opts : SelectOptions) (s : AccountState) : Bool :=
  opts.ignoreStandardQuota || s.ignoreStandardQuota || opts.bypassQuotaExceeded ||
    opts.bypassQuotaExceededAccountIds.any fun ids => decide (s.accountId ∈ ids)

/-- `s.reset_at and current >= s.reset_at`. -/
def resetElapsed (now : ℚ) (reset : Option ℚ) : Bool :=
  truthy reset && reset.any fun r => decide (r ≤ now)

inductive Standing where
  | skipped
  | backoff
  | available
  deriving DecidableEq, Repr

/-- The status checks of one state; the flag says whether it passes them. -/
def recoverBlock (opts : SelectOptions) (now : ℚ) (s : AccountState) : AccountState × Bool :=
  match s.status with
  | .reauthRequired | .deactivated | .paused => (s, false)
  | .rateLimited =>
    if resetElapsed now s.resetAt then
      ({ s with status := .active, usedPercent := some 0, errorCount := 0, resetAt := none }, true)
    else (s, bypassStandardQuota opts s)
  | .quotaExceeded =>
    if resetElapsed now s.resetAt then
      ({ s with
          status := .active
          usedPercent := some 0
          secondaryUsedPercent := some 0
          resetAt := none }, true)
    else (s, bypassStandardQuota opts s)
  | .active => (s, true)

/-- `min(300, 30 * 2 ** (error_count - 3))`. -/
def errorBackoff (errorCount : Int) : ℚ := min 300 (30 * 2 ^ (errorCount - 3).toNat)

def clearElapsedCooldown (now : ℚ) (s : AccountState) : AccountState :=
  if resetElapsed now s.cooldownUntil then
    { s with cooldownUntil := none, lastErrorAt := none, errorCount := 0 }
  else s

/-- One round of the availability loop: the state as it leaves it, and its standing. -/
def examine (opts : SelectOptions) (now : ℚ) (s : AccountState) : AccountState × Standing :=
  let (s, passes) := recoverBlock opts now s
  if passes then
    let s := clearElapsedCooldown now s
    if stillRunning now s.cooldownUntil then (s, .skipped)
    else if 3 ≤ s.errorCount then
      if truthy s.lastErrorAt && s.lastErrorAt.any fun t =>
          decide (now - t < errorBackoff s.errorCount) then (s, .backoff)
      else ({ s with errorCount := 0, lastErrorAt := none }, .available)
    else (s, .available)
  else (s, .skipped)

def withStanding (standing : Standing) (examined : List (AccountState × Standing)) :
    List AccountState :=
  (examined.filter fun p => decide (p.2 = standing)).map Prod.fst

/-- `_routing_policy`. -/
def routingPolicy (s : AccountState) : String := normalizeAccountRoutingPolicy s.routingPolicy

def usedPct (s : AccountState) (secondary : Bool) : Option ℚ :=
  if secondary then s.secondaryUsedPercent.or s.usedPercent else s.usedPercent

def remainingPct (s : AccountState) (secondary : Bool) : Option ℚ :=
  (usedPct s secondary).map fun used => max 0 (100 - min 100 used)

def recentForegroundActivity (s : AccountState) (now : ℚ) : Bool :=
  s.lastSelectedAt.any fun t => decide (now - t ≤ 1800)

def secondsPerWeek : ℚ := 604800

/-- `_weekly_pace_floor_pct`. -/
def weeklyPaceFloorPct (s : AccountState) (now : ℚ) : ℚ :=
  match s.secondaryResetAt, usedPct s true with
  | some reset, some used =>
    let remaining := max 0 ((reset : ℚ) - now)
    let expected := min 100 (max 0 (secondsPerWeek - remaining) / secondsPerWeek * 100)
    let behind := decide (used + 5 < expected)
    let pace : ℚ :=
      if remaining ≤ 21600 ∧ behind then 0
      else if remaining ≤ 86400 ∧ behind then 2
      else if behind then 5
      else 15
    max 5 (if recentForegroundActivity s now then max pace 25 else pace)
  | _, _ => 100

/-- `_short_window_floor_pct`. -/
def shortWindowFloorPct (s : AccountState) (now : ℚ) (preserveCount : Nat) : ℚ :=
  match s.resetAt with
  | none => 100
  | some reset =>
    let floor : ℚ := if 3600 < max 0 (reset - now) then 20 else 10
    let floor := if recentForegroundActivity s now then max floor 30 else floor
    if preserveCount ≤ 1 then max floor 25 else floor

/-- `_preserve_allows_opportunistic_burn`. -/
def preserveAllowsOpportunisticBurn (s : AccountState) (now : ℚ) (preserveCount : Nat) : Bool :=
  match remainingPct s true, remainingPct s false with
  | some weekly, some short =>
    s.secondaryResetAt.isSome && s.resetAt.isSome &&
      decide (weeklyPaceFloorPct s now < weekly) &&
      decide (shortWindowFloorPct s now preserveCount < short)
  | _, _ => false

def preserveCount (available : List AccountState) : Nat :=
  available.countP fun s => routingPolicy s == "preserve"

/-- `_has_other_usable_foreground_capacity`. -/
def hasOtherUsableForegroundCapacity (candidate : AccountState) (available : List AccountState)
    (now : ℚ) : Bool :=
  available.any fun other =>
    other.accountId != candidate.accountId && other.status == .active &&
      (routingPolicy other != "preserve" ||
        preserveAllowsOpportunisticBurn other now (preserveCount available))

/-- `_above_emergency_floor`. -/
def aboveEmergencyFloor (s : AccountState) : Bool :=
  match remainingPct s false, remainingPct s true with
  | some primary, some secondary => decide (5 < primary) && decide (5 < secondary)
  | _, _ => false

def expendable (available : List AccountState) (now : ℚ) (s : AccountState) : Bool :=
  if routingPolicy s == "preserve" then
    preserveAllowsOpportunisticBurn s now (preserveCount available)
  else hasOtherUsableForegroundCapacity s available now || aboveEmergencyFloor s

/-- `_filter_opportunistic_candidates`: burn-first, then normal, then preserve accounts. -/
def filterOpportunisticCandidates (available : List AccountState) (now : ℚ) :
    Except String (List AccountState) :=
  let of := fun policy =>
    available.filter fun s => routingPolicy s == policy && expendable available now s
  match of "burn_first" ++ of "normal" ++ of "preserve" with
  | [] =>
    if available.any fun s => routingPolicy s == "preserve" then
      .error "preserve floor or stale usage data blocks opportunistic burn"
    else .error "no expendable account has emergency foreground reserve"
  | candidates => .ok candidates

def backoffExpiresAt (s : AccountState) : ℚ := s.lastErrorAt.getD 0 + errorBackoff s.errorCount

/-- `min(in_error_backoff, key=_backoff_expires_at)`: the first of equals. -/
def soonestBackoff (first : AccountState) (rest : List AccountState) : AccountState :=
  rest.foldl (fun best s => if backoffExpiresAt s < backoffExpiresAt best then s else best) first

def minOption (xs : List ℚ) : Option ℚ :=
  xs.foldl (fun best x => match best with
    | none => some x
    | some b => some (min b x)) none

/-- The message when nothing can be selected. -/
def unavailableError (all : List AccountState) (now : ℚ) : SelectionError :=
  let has := fun status => all.any fun s => s.status == status
  let reauth := has .reauthRequired
  let deactivated := has .deactivated
  let paused := has .paused
  let blocked : Option String :=
    if has .rateLimited || has .quotaExceeded then none
    else if paused && reauth && deactivated then
      some "All accounts are paused, deactivated, or require re-authentication"
    else if paused && reauth then some "All accounts are paused or require re-authentication"
    else if paused && deactivated then some "All accounts are paused or deactivated"
    else if reauth && deactivated then
      some "All accounts are deactivated or require re-authentication"
    else if paused then some "All accounts are paused"
    else if reauth then some "All accounts require re-authentication"
    else if deactivated then some "All accounts are deactivated"
    else none
  let quotaResets := (all.filter fun s => s.status == .quotaExceeded && truthy s.resetAt).filterMap
    (·.resetAt)
  let cooldowns := (all.filter fun s => stillRunning now s.cooldownUntil).filterMap
    (·.cooldownUntil)
  match blocked, minOption quotaResets, minOption cooldowns with
  | some message, _, _ => .unavailable message
  | none, some reset, _ => .retryIn (max 0 (reset - truncInt now))
  | none, none, some cooldown => .retryIn (max 0 (cooldown - now))
  | none, none, none => .noAvailableAccounts

/-- The ranking of a pool, after the opportunistic filter where it applies. -/
def chooseFrom (strategy : Strategy) (ranking : Ranking) (opts : SelectOptions) (now : ℚ)
    (pool : List AccountState) : SelectionResult :=
  let candidates := if opts.opportunistic then filterOpportunisticCandidates pool now
    else .ok pool
  match candidates with
  | .error reason => ⟨none, some (.opportunisticClosed reason)⟩
  | .ok [] => ⟨none, some .noAvailableAccounts⟩
  | .ok (s :: rest) => ⟨some (strategy.pick ranking now (s :: rest) (List.cons_ne_nil s rest)).1,
      none⟩

/-- `select_account` of `core/balancer/logic.py`. -/
def selectAccount (strategy : Strategy) (ranking : Ranking) (opts : SelectOptions) (now : ℚ)
    (states : List AccountState) : SelectionResult :=
  let examined := states.map (examine opts now)
  let all := examined.map Prod.fst
  let available := withStanding .available examined
  let inBackoff := withStanding .backoff examined
  match available, inBackoff with
  | _ :: _, _ => chooseFrom strategy ranking opts now available
  | [], [] => ⟨none, some (unavailableError all now)⟩
  | [], first :: rest =>
    let hardBlockedExists := all.any fun s =>
      s.status != .active && !(inBackoff.map (·.accountId)).contains s.accountId
    if opts.allowBackoffFallback ∧ (rest ≠ [] ∨ hardBlockedExists) then
      chooseFrom strategy ranking opts now [soonestBackoff first rest]
    else ⟨none, some (unavailableError all now)⟩

/-- What examining a state never touches. -/
structure SameAccount (s t : AccountState) : Prop where
  accountId : t.accountId = s.accountId
  blockedAt : t.blockedAt = s.blockedAt
  deactivationReason : t.deactivationReason = s.deactivationReason
  inflightResponseCreates : t.inflightResponseCreates = s.inflightResponseCreates
  inflightStreams : t.inflightStreams = s.inflightStreams
  ignoreStandardQuota : t.ignoreStandardQuota = s.ignoreStandardQuota

theorem SameAccount.refl (s : AccountState) : SameAccount s s := ⟨rfl, rfl, rfl, rfl, rfl, rfl⟩

theorem SameAccount.trans {s t r : AccountState} (h : SameAccount s t) (k : SameAccount t r) :
    SameAccount s r :=
  ⟨k.accountId.trans h.accountId, k.blockedAt.trans h.blockedAt,
    k.deactivationReason.trans h.deactivationReason,
    k.inflightResponseCreates.trans h.inflightResponseCreates,
    k.inflightStreams.trans h.inflightStreams,
    k.ignoreStandardQuota.trans h.ignoreStandardQuota⟩

section Examine

variable (opts : SelectOptions) (now : ℚ) (s : AccountState)

/-- The status checks leave a state alone, or lift a block whose reset has elapsed. -/
theorem recoverBlock_cases :
    (∃ passed, recoverBlock opts now s = (s, passed) ∧ (passed = true → s.status = .active ∨
      (s.status = .rateLimited ∨ s.status = .quotaExceeded) ∧
        bypassStandardQuota opts s = true)) ∨
    (s.status = .rateLimited ∧ recoverBlock opts now s =
      ({ s with status := .active, usedPercent := some 0, errorCount := 0, resetAt := none },
        true)) ∨
    (s.status = .quotaExceeded ∧ recoverBlock opts now s =
      ({ s with
          status := .active, usedPercent := some 0, secondaryUsedPercent := some 0,
          resetAt := none }, true)) := by
  cases status : s.status with
  | active => exact .inl ⟨true, by simp only [recoverBlock, status], fun _ => .inl rfl⟩
  | rateLimited =>
    cases elapsed : resetElapsed now s.resetAt with
    | true =>
      refine .inr (.inl ⟨rfl, ?_⟩)
      simp only [recoverBlock, status, elapsed, if_true]
    | false =>
      refine .inl ⟨bypassStandardQuota opts s, ?_, fun bypass => .inr ⟨.inl rfl, bypass⟩⟩
      simp only [recoverBlock, status, elapsed, Bool.false_eq_true, if_false]
  | quotaExceeded =>
    cases elapsed : resetElapsed now s.resetAt with
    | true =>
      refine .inr (.inr ⟨rfl, ?_⟩)
      simp only [recoverBlock, status, elapsed, if_true]
    | false =>
      refine .inl ⟨bypassStandardQuota opts s, ?_, fun bypass => .inr ⟨.inr rfl, bypass⟩⟩
      simp only [recoverBlock, status, elapsed, Bool.false_eq_true, if_false]
  | paused => exact .inl ⟨false, by simp only [recoverBlock, status], fun passed => nomatch passed⟩
  | reauthRequired =>
    exact .inl ⟨false, by simp only [recoverBlock, status], fun passed => nomatch passed⟩
  | deactivated =>
    exact .inl ⟨false, by simp only [recoverBlock, status], fun passed => nomatch passed⟩

theorem recoverBlock_same : SameAccount s (recoverBlock opts now s).1 := by
  rcases recoverBlock_cases opts now s with ⟨_, kept, _⟩ | ⟨_, lifted⟩ | ⟨_, lifted⟩
  · rw [kept]
    exact .refl s
  · rw [lifted]
    exact ⟨rfl, rfl, rfl, rfl, rfl, rfl⟩
  · rw [lifted]
    exact ⟨rfl, rfl, rfl, rfl, rfl, rfl⟩

theorem clearElapsedCooldown_same : SameAccount s (clearElapsedCooldown now s) := by
  simp only [clearElapsedCooldown]
  split
  · exact ⟨rfl, rfl, rfl, rfl, rfl, rfl⟩
  · exact .refl s

theorem clearElapsedCooldown_status :
    (clearElapsedCooldown now s).status = s.status ∧
      (clearElapsedCooldown now s).resetAt = s.resetAt := by
  simp only [clearElapsedCooldown]
  split
  · exact ⟨rfl, rfl⟩
  · exact ⟨rfl, rfl⟩

theorem examine_same : SameAccount s (examine opts now s).1 := by
  have first := recoverBlock_same opts now s
  have second := first.trans (clearElapsedCooldown_same now (recoverBlock opts now s).1)
  simp only [examine]
  split
  · split
    · exact second
    · split
      · split
        · exact second
        · exact second.trans ⟨rfl, rfl, rfl, rfl, rfl, rfl⟩
      · exact second
  · exact first

/-- After the status checks the remaining rounds leave status and reset alone. -/
theorem examine_status :
    (examine opts now s).1.status = (recoverBlock opts now s).1.status ∧
      (examine opts now s).1.resetAt = (recoverBlock opts now s).1.resetAt := by
  have cleared := clearElapsedCooldown_status now (recoverBlock opts now s).1
  simp only [examine]
  split
  · split
    · exact cleared
    · split
      · split
        · exact cleared
        · exact cleared
      · exact cleared
  · exact ⟨rfl, rfl⟩

theorem examine_skipped (h : (recoverBlock opts now s).2 = false) :
    (examine opts now s).2 = .skipped := by
  simp only [examine, h]
  rfl

theorem examine_hardBlocked (h : s.status.hardBlocked = true) :
    (examine opts now s).1.status = s.status ∧ (examine opts now s).2 = .skipped := by
  have stays : recoverBlock opts now s = (s, false) := by
    rcases recoverBlock_cases opts now s with ⟨passed, kept, usable⟩ | ⟨status, _⟩ | ⟨status, _⟩
    · cases passed with
      | false => exact kept
      | true =>
        rcases usable rfl with status | ⟨status | status, _⟩ <;> rw [status] at h <;> cases h
    · rw [status] at h
      cases h
    · rw [status] at h
      cases h
  refine ⟨?_, examine_skipped opts now s (by rw [stays])⟩
  rw [(examine_status opts now s).1, stays]

/-- Examining can only lift a block, and only one whose reset elapsed. -/
theorem examine_lifts : (examine opts now s).1.status = s.status ∨
    (s.status.hardBlocked = false ∧ (examine opts now s).1.status = .active) := by
  rw [(examine_status opts now s).1]
  rcases recoverBlock_cases opts now s with ⟨_, kept, _⟩ | ⟨status, lifted⟩ | ⟨status, lifted⟩
  · exact .inl (by rw [kept])
  · exact .inr ⟨by rw [status]; rfl, by rw [lifted]⟩
  · exact .inr ⟨by rw [status]; rfl, by rw [lifted]⟩

/-- A rate limit whose reset has not elapsed stays, and is passed over unless bypassed. -/
theorem examine_rateLimited (limited : s.status = .rateLimited)
    (running : resetElapsed now s.resetAt = false) :
    (examine opts now s).1.status = .rateLimited ∧ (examine opts now s).1.resetAt = s.resetAt ∧
      (bypassStandardQuota opts s = false → (examine opts now s).2 = .skipped) := by
  have stays : recoverBlock opts now s = (s, bypassStandardQuota opts s) := by
    simp [recoverBlock, limited, running]
  obtain ⟨status, reset⟩ := examine_status opts now s
  rw [stays] at status reset
  refine ⟨status.trans limited, reset, ?_⟩
  intro passedOver
  exact examine_skipped opts now s (by rw [stays]; exact passedOver)

end Examine

theorem mem_withStanding {standing : Standing} {opts : SelectOptions} {now : ℚ}
    {states : List AccountState} {c : AccountState}
    (h : c ∈ withStanding standing (states.map (examine opts now))) :
    ∃ s ∈ states, c = (examine opts now s).1 ∧ (examine opts now s).2 = standing := by
  obtain ⟨p, hp, rfl⟩ := List.mem_map.mp h
  obtain ⟨hmem, hstanding⟩ := List.mem_filter.mp hp
  obtain ⟨s, hs, rfl⟩ := List.mem_map.mp hmem
  exact ⟨s, hs, rfl, of_decide_eq_true hstanding⟩

theorem mem_filterOpportunisticCandidates {available candidates : List AccountState} {now : ℚ}
    (h : filterOpportunisticCandidates available now = .ok candidates) {c : AccountState}
    (hc : c ∈ candidates) : c ∈ available := by
  simp only [filterOpportunisticCandidates] at h
  split at h
  · split at h <;> cases h
  · cases h
    rcases List.mem_append.mp hc with hc | hc
    · rcases List.mem_append.mp hc with hc | hc
      · exact List.mem_of_mem_filter hc
      · exact List.mem_of_mem_filter hc
    · exact List.mem_of_mem_filter hc

theorem mem_chooseFrom {strategy : Strategy} {ranking : Ranking} {opts : SelectOptions} {now : ℚ}
    {pool : List AccountState} {c : AccountState}
    (h : (chooseFrom strategy ranking opts now pool).account = some c) : c ∈ pool := by
  simp only [chooseFrom] at h
  split at h
  · cases h
  · cases h
  · rename_i s rest hcandidates
    have hmem : c ∈ s :: rest := by
      rw [← Option.some.inj h]
      exact (strategy.pick ranking now (s :: rest) (List.cons_ne_nil s rest)).2
    split at hcandidates
    · exact mem_filterOpportunisticCandidates hcandidates hmem
    · cases hcandidates
      exact hmem

theorem soonestBackoff_mem (first : AccountState) (rest : List AccountState) :
    soonestBackoff first rest ∈ first :: rest := by
  simp only [soonestBackoff]
  induction rest generalizing first with
  | nil => exact List.mem_singleton.mpr rfl
  | cons s rest ih =>
    rw [List.foldl_cons]
    rcases List.mem_cons.mp (ih (if backoffExpiresAt s < backoffExpiresAt first then s else first))
      with heq | htail
    · rw [heq]
      split
      · exact List.mem_cons_of_mem _ List.mem_cons_self
      · exact List.mem_cons_self
    · exact List.mem_cons_of_mem _ (List.mem_cons_of_mem _ htail)

/-- Whatever is returned was examined and not passed over. -/
theorem selectAccount_examined {strategy : Strategy} {ranking : Ranking} {opts : SelectOptions}
    {now : ℚ} {states : List AccountState} {c : AccountState}
    (h : (selectAccount strategy ranking opts now states).account = some c) :
    ∃ s ∈ states, c = (examine opts now s).1 ∧ (examine opts now s).2 ≠ .skipped := by
  simp only [selectAccount] at h
  split at h
  · obtain ⟨s, hs, hc, standing⟩ := mem_withStanding (mem_chooseFrom h)
    exact ⟨s, hs, hc, by rw [standing]; decide⟩
  · cases h
  · rename_i first rest _ backoffs
    split at h
    · have hc : c = soonestBackoff first rest := List.mem_singleton.mp (mem_chooseFrom h)
      have hmem : c ∈ withStanding .backoff (states.map (examine opts now)) := by
        rw [backoffs, hc]
        exact soonestBackoff_mem first rest
      obtain ⟨s, hs, hc, standing⟩ := mem_withStanding hmem
      exact ⟨s, hs, hc, by rw [standing]; decide⟩
    · cases h

end Balancer
