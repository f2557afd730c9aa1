import LivingBalancer.Balancer.Account

/-!
# From an account row and its usage rows to a routing state

`core/usage/quota.py`, `evaluate_health_tier` and `_state_from_account` with its
helpers. Every function takes one clock value: the several `time.time()` calls of
one uninterrupted evaluation are read as equal.
-/

namespace Balancer

structure Credits where
  has : Option Bool
  unlimited : Option Bool
  balance : Option ℚ

/-- `_has_credit_override`. -/
def hasCreditOverride (c : Credits) : Bool :=
  c.unlimited == some true || c.has == some true || c.balance.any fun b => decide (0 < b)

structure QuotaInput where
  status : AccountStatus
  primaryUsed : Option ℚ
  primaryReset : Option Int
  primaryWindowMinutes : Option Int
  runtimeReset : Option ℚ
  secondaryUsed : Option ℚ
  secondaryReset : Option Int
  credits : Credits
  inferStatusFromUsage : Bool

structure QuotaVerdict where
  status : AccountStatus
  usedPercent : Option ℚ
  resetAt : Option ℚ

/-- `reset and reset > time.time()`. -/
def stillRunning (now : ℚ) (reset : Option ℚ) : Bool :=
  truthy reset && reset.any fun r => decide (now < r)

/-- A block with status `s` clears when its runtime reset no longer runs. -/
def clearElapsed (now : ℚ) (s : AccountStatus) (runtimeReset : Option ℚ) (v : QuotaVerdict) :
    QuotaVerdict :=
  if v.status = s then
    if stillRunning now runtimeReset then { v with resetAt := runtimeReset }
    else { v with status := .active, resetAt := none }
  else v

/-- The long-window part; `.error` is the early return. -/
def secondaryQuota (now : ℚ) (q : QuotaInput) (override : Bool) (v : QuotaVerdict) :
    Except QuotaVerdict QuotaVerdict :=
  match q.secondaryUsed with
  | some used =>
    if 100 ≤ used then
      if override then
        let v := if v.status = .quotaExceeded then { v with status := .active, resetAt := none }
          else v
        .ok (clearElapsed now .quotaExceeded q.runtimeReset v)
      else if q.inferStatusFromUsage then
        .error ⟨.quotaExceeded, some 100, (q.secondaryReset.map (Int.cast ·)).or v.resetAt⟩
      else .ok (clearElapsed now .quotaExceeded q.runtimeReset { v with usedPercent := some 100 })
    else .ok (clearElapsed now .quotaExceeded q.runtimeReset v)
  | none =>
    if v.status = .quotaExceeded ∧ q.secondaryReset.isSome ∧ q.inferStatusFromUsage then
      .ok { v with resetAt := q.secondaryReset.map (Int.cast ·) }
    else .ok v

/-- `_fallback_primary_reset`. -/
def fallbackPrimaryReset (now : ℚ) (primaryWindowMinutes : Option Int) : Option ℚ :=
  let minutes := match primaryWindowMinutes with
    | some m => if m = 0 then defaultWindowMinutes .primary else m
    | none => defaultWindowMinutes .primary
  some (now + (minutes : ℚ) * 60)

def primaryQuota (now : ℚ) (q : QuotaInput) (v : QuotaVerdict) : QuotaVerdict :=
  match q.primaryUsed with
  | some used =>
    if 100 ≤ used then
      if q.inferStatusFromUsage then
        let reset := match q.primaryReset with
          | some r => some (r : ℚ)
          | none => orElse (fallbackPrimaryReset now q.primaryWindowMinutes) v.resetAt
        ⟨.rateLimited, some 100, reset⟩
      else clearElapsed now .rateLimited q.runtimeReset { v with usedPercent := some 100 }
    else clearElapsed now .rateLimited q.runtimeReset v
  | none =>
    if q.secondaryUsed.any fun s => decide (s < 100) then
      clearElapsed now .rateLimited q.runtimeReset v
    else v

def applyUsageQuota (now : ℚ) (q : QuotaInput) : QuotaVerdict :=
  let v : QuotaVerdict := ⟨q.status, q.primaryUsed, q.runtimeReset⟩
  if q.status.hardBlocked then v
  else
    let override := hasCreditOverride q.credits
    match secondaryQuota now q override v with
    | .error done => done
    | .ok v =>
      let primaryExhausted := q.primaryUsed.any fun u => decide (100 ≤ u)
      let v := if override ∧ v.status = .quotaExceeded ∧ ¬ primaryExhausted then
          { v with status := .active, resetAt := none }
        else v
      primaryQuota now q v

structure HealthInput where
  status : AccountStatus
  usedPercent : Option ℚ
  secondaryUsedPercent : Option ℚ
  lastErrorAt : Option ℚ
  errorCount : Int
  healthTier : HealthTier

def shouldDrain (settings : Settings) (now : ℚ) (h : HealthInput) : Bool :=
  (h.usedPercent.any fun u => decide (settings.drainPrimaryThresholdPct ≤ u)) ||
  (h.secondaryUsedPercent.any fun u => decide (settings.drainSecondaryThresholdPct ≤ u)) ||
  (decide (settings.drainErrorCountThreshold ≤ h.errorCount) &&
    h.lastErrorAt.any fun t => decide (now - t < settings.drainErrorWindowSeconds))

def evaluateHealthTier (settings : Settings) (now : ℚ) (drainEnteredAt : Option ℚ)
    (probeSuccessStreak : Int) (h : HealthInput) : HealthTier :=
  if h.status ≠ .active then h.healthTier
  else
    match h.healthTier with
    | .healthy => if shouldDrain settings now h then .draining else .healthy
    | .draining =>
      if shouldDrain settings now h then .draining
      else if drainEnteredAt.any fun t => decide (settings.probeQuietSeconds ≤ now - t) then
        .probing
      else .draining
    | .probing =>
      if shouldDrain settings now h then .draining
      else if settings.probeSuccessStreakRequired ≤ probeSuccessStreak then .healthy
      else .probing

/-- `_should_prefer_primary_row`; `recorded_at` is never null in the tables. -/
def shouldPreferPrimaryRow (primary secondary : UsageEntry) : Bool :=
  if primary.recordedAt ≠ secondary.recordedAt then
    decide (secondary.recordedAt < primary.recordedAt)
  else
    match primary.resetAt, secondary.resetAt with
    | some p, some s => if p ≠ s then decide (s < p) else true
    | some _, none => true
    | none, some _ => false
    | none, none => true

def shouldUseWeeklyPrimary (primary : UsageEntry) (secondary : Option UsageEntry) : Bool :=
  isWeeklyWindowMinutes primary.windowMinutes &&
    match secondary with
    | none => true
    | some s => shouldPreferPrimaryRow primary s

/-- `_extract_credit_status`: the newest entry that reports credits, the first of equals. -/
def extractCreditStatus (entries : List (Option UsageEntry)) : Credits :=
  let reporting := entries.reduceOption.filter fun e =>
    e.standard && (e.creditsHas.isSome || e.creditsUnlimited.isSome || e.creditsBalance.isSome)
  let newest := reporting.foldl (fun best e => match best with
    | none => some e
    | some b => if b.recordedAt < e.recordedAt then some e else some b) none
  match newest with
  | none => ⟨none, none, none⟩
  | some e => ⟨e.creditsHas, e.creditsUnlimited, e.creditsBalance⟩

/-- `_usage_entry_is_recent_enough`. -/
def usageEntryIsRecentEnough (settings : Settings) (now recordedAt : ℚ) : Bool :=
  decide (now - (max (settings.usageRefreshIntervalSeconds * 2) 180 : Int) ≤ recordedAt)

/-- `_rate_limited_freshness_entry`. -/
def rateLimitedFreshnessEntry (now : ℚ) (account : Account) (primary long : Option UsageEntry) :
    Option UsageEntry :=
  match long, primary with
  | none, p => p
  | some l, none => some l
  | some l, some p =>
    if l.window = some "monthly" ∧ (capacityForPlan account.planType .monthly).isSome then some l
    else
      let primaryWindowExpired := p.resetAt.any fun r => decide ((r : ℚ) ≤ now)
      if primaryWindowExpired ∧ l.usedPercent < 100 ∧ p.recordedAt < l.recordedAt then some l
      else some p

/-- `_select_long_window_entry`. -/
def selectLongWindowEntry (account : Account) (monthly secondary : Option UsageEntry) :
    Option UsageEntry :=
  if monthly.isSome ∧ (capacityForPlan account.planType .monthly).isSome then monthly
  else secondary

/-- The usage samples after the weekly remap and the expiry of elapsed windows. -/
structure UsageWindows where
  primaryUsed : Option ℚ
  primaryReset : Option Int
  primaryWindowMinutes : Option Int
  secondaryUsed : Option ℚ
  secondaryReset : Option Int
  longEntry : Option UsageEntry

def elapsed (now : ℚ) (used : Option ℚ) (reset : Option Int) : Bool :=
  used.isSome && reset.any fun r => decide (r ≤ truncInt now)

def usageWindows (now : ℚ) (account : Account) (primary secondary : Option UsageEntry) :
    UsageWindows :=
  let weekly := primary.any fun p => shouldUseWeeklyPrimary p secondary
  let unusedMonthly := secondary.any fun s =>
    decide (s.window = some "monthly" ∧ (capacityForPlan account.planType .monthly).isNone)
  let long := if weekly then primary else if unusedMonthly then none else secondary
  let short := if weekly then none else primary
  let shortUsed := short.map (·.usedPercent)
  let shortReset := short.bind (·.resetAt)
  let longUsed := long.map (·.usedPercent)
  let longReset := long.bind (·.resetAt)
  let shortExpired := elapsed now shortUsed shortReset
  let longExpired := elapsed now longUsed longReset
  -- rows of one fetch land within milliseconds; a later long row retires the short duration
  let superseded := match short, long with
    | some p, some l => decide (5 < l.recordedAt - p.recordedAt)
    | _, _ => false
  { primaryUsed := if shortExpired then some 0 else shortUsed
    primaryReset := if shortExpired then none else shortReset
    primaryWindowMinutes := if superseded then none else short.bind (·.windowMinutes)
    secondaryUsed := if longExpired then some 0 else longUsed
    secondaryReset := if longExpired then none else longReset
    longEntry := long }

def effectiveBlockedAt (account : Account) (runtime : RuntimeState) : Option ℚ :=
  match account.blockedAt with
  | some b => some (b : ℚ)
  | none => runtime.blockedAt

/-- The deadline other replicas read from the row of an account blocked at `b`. -/
def persistedDeadline (account : Account) (b : ℚ) : ℚ :=
  (nonzeroSeconds account.resetAt).getD (b + rateLimitedMinCooldownSeconds)

/-- What lets a replica count as the one that observed the block at `b`. -/
def observedBlock (now : ℚ) (runtime : RuntimeState) (b : ℚ) : Bool :=
  (runtime.cooldownUntil.any fun c => decide (c ≤ now)) &&
    runtime.blockedAt.any fun marker => decide (b ≤ marker)

def recordedAfter (entry : Option UsageEntry) (b : ℚ) : Bool :=
  entry.any fun e => decide (b < e.recordedAt)

/-- `rate_limited_cooldown_deadline`. -/
def rateLimitedCooldownDeadline (now : ℚ) (account : Account) (runtime : RuntimeState)
    (primary long : Option UsageEntry) : Option ℚ :=
  match account.status, effectiveBlockedAt account runtime with
  | .rateLimited, some b =>
    if now < persistedDeadline account b then
      if observedBlock now runtime b ∧
          recordedAfter (rateLimitedFreshnessEntry now account primary long) b then none
      else some (persistedDeadline account b)
    else none
  | _, _ => none

def longWindowQuotaAvailable (settings : Settings) (now : ℚ) (long : Option UsageEntry) : Bool :=
  long.any fun e =>
    usageEntryIsRecentEnough settings now e.recordedAt && decide (e.usedPercent < 100)

/-- The zero-primary-capacity rewrite of free accounts. -/
def zeroPrimaryCapacity (settings : Settings) (now : ℚ) (account : Account)
    (runtime : RuntimeState) (primary : Option UsageEntry) (w : UsageWindows) : Bool :=
  decide (capacityForPlan account.planType .primary = some 0) &&
    (decide (account.status ≠ .rateLimited) ||
      ((rateLimitedCooldownDeadline now account runtime primary w.longEntry).isNone &&
        longWindowQuotaAvailable settings now w.longEntry &&
        ((w.primaryWindowMinutes.any fun m => !isPrimaryWindowMinutes m) || primary.isNone)))

/-- The reset deadline the block is judged by, before post-block evidence. -/
def blockReset (settings : Settings) (now : ℚ) (account : Account) (runtime : RuntimeState)
    (seed : AccountStatus) (dbReset : Option ℚ) (long : Option UsageEntry) : Option ℚ :=
  let eb := effectiveBlockedAt account runtime
  let reset :=
    if seed = .rateLimited ∨ seed = .quotaExceeded ∨ runtime.blockedAt.isSome then
      orElse dbReset runtime.resetAt
    else none
  let reset := match reset, eb with
    | none, some b =>
      if seed = .rateLimited ∧ now < b + rateLimitedMinCooldownSeconds then
        some (b + rateLimitedMinCooldownSeconds)
      else none
    | r, _ => r
  let staleQuotaBlock := account.status = .quotaExceeded ∧ eb = none ∧
    (reset.any fun r => decide (now < r) && long.any fun e =>
      usageEntryIsRecentEnough settings now e.recordedAt && decide (e.usedPercent < 100) &&
        e.resetAt.any fun lr => decide (r < (lr : ℚ)))
  if staleQuotaBlock then none else reset

def cooldownReady (now : ℚ) (account : Account) (runtime : RuntimeState) : Bool :=
  match effectiveBlockedAt account runtime with
  | none => false
  | some b =>
    if account.status = .quotaExceeded then decide (b + quotaExceededCooldownSeconds ≤ now)
    else observedBlock now runtime b

/-- `effective_runtime_reset` as it reaches `apply_usage_quota`. -/
def effectiveRuntimeReset (settings : Settings) (now : ℚ) (account : Account)
    (runtime : RuntimeState) (seed : AccountStatus) (dbReset : Option ℚ)
    (primary long : Option UsageEntry) : Option ℚ :=
  let freshness := match account.status with
    | .quotaExceeded => long
    | .rateLimited => rateLimitedFreshnessEntry now account primary long
    | _ => none
  let evidence := (effectiveBlockedAt account runtime).any fun b =>
    cooldownReady now account runtime && recordedAfter freshness b
  if evidence then none else blockReset settings now account runtime seed dbReset long

/-- The tier and the drain bookkeeping that state building leaves in the runtime. -/
def refreshHealth (settings : Settings) (now : ℚ) (runtime : RuntimeState)
    (status : AccountStatus) (usedPercent secondaryUsed : Option ℚ) : RuntimeState :=
  if settings.softDrainEnabled then
    let tier := evaluateHealthTier settings now runtime.drainEnteredAt runtime.probeSuccessStreak
      ⟨status, usedPercent, secondaryUsed, runtime.lastErrorAt, runtime.errorCount,
        runtime.healthTier⟩
    let runtime := if tier = .draining ∧ runtime.healthTier ≠ .draining then
        { runtime with drainEnteredAt := some now, probeSuccessStreak := 0 }
      else runtime
    let runtime := if tier = .healthy then
        { runtime with drainEnteredAt := none, probeSuccessStreak := 0 }
      else runtime
    { runtime with healthTier := tier }
  else
    { runtime with drainEnteredAt := none, probeSuccessStreak := 0, healthTier := .healthy }

def pressurePct (settings : Settings) (runtime : RuntimeState) (capacityCredits : ℚ) : ℚ :=
  let inflight := (runtime.inflightResponseCreates + runtime.inflightStreams : Int) *
    settings.proxyAccountInflightPenaltyPct
  let leased := if 0 < capacityCredits ∧ 0 < runtime.leasedTokens then
      runtime.leasedTokens * settings.proxyAccountLeaseTokenWeight / capacityCredits * 100
    else 0
  inflight + leased

/-- The status, used percent and reset that `_state_from_account` derives. -/
def accountVerdict (settings : Settings) (now : ℚ) (account : Account) (runtime : RuntimeState)
    (primary secondary : Option UsageEntry) : QuotaVerdict :=
  let w := usageWindows now account primary secondary
  let zeroCapacity := zeroPrimaryCapacity settings now account runtime primary w
  let rewritten := zeroCapacity && decide (account.status = .rateLimited)
  let seed := if rewritten then .active else account.status
  let dbReset := if rewritten then none else nonzeroSeconds account.resetAt
  let primaryUsed := if zeroCapacity then none else w.primaryUsed
  let verdict := applyUsageQuota now
    { status := seed
      primaryUsed := primaryUsed
      primaryReset := if zeroCapacity then none else w.primaryReset
      primaryWindowMinutes := if zeroCapacity then none else w.primaryWindowMinutes
      runtimeReset :=
        effectiveRuntimeReset settings now account runtime seed dbReset primary w.longEntry
      secondaryUsed := w.secondaryUsed
      secondaryReset := w.secondaryReset
      credits := extractCreditStatus [primary, w.longEntry, secondary]
      inferStatusFromUsage := false }
  let resetless := seed = .rateLimited ∧ dbReset = none ∧ runtime.resetAt = none
  if resetless ∧ primaryUsed = none ∧ verdict.status = .active then
    { verdict with status := .rateLimited }
  else verdict

/-- `next_blocked_at`. -/
def nextBlockedAt (account : Account) (runtime : RuntimeState) (status : AccountStatus) :
    Option ℚ :=
  if status = .quotaExceeded ∨ (status = .rateLimited ∧ account.status ≠ .quotaExceeded) then
    effectiveBlockedAt account runtime
  else none

/-- `_state_from_account`: the routing state, and the runtime it leaves behind. -/
def stateFromAccount (settings : Settings) (now : ℚ) (account : Account)
    (primary secondary : Option UsageEntry) (runtime : RuntimeState) :
    AccountState × RuntimeState :=
  let w := usageWindows now account primary secondary
  let zeroCapacity := zeroPrimaryCapacity settings now account runtime primary w
  let verdict := accountVerdict settings now account runtime primary secondary
  let runtime' := refreshHealth settings now runtime verdict.status verdict.usedPercent
    w.secondaryUsed
  let longWindowKey := if w.longEntry.any fun e => e.window == some "monthly"
    then UsageWindowKey.monthly else .secondary
  let capacityCredits := (capacityForPlan account.planType longWindowKey).getD 0
  let pressure := pressurePct settings runtime' capacityCredits
  ({ accountId := account.id
     status := verdict.status
     usedPercent := verdict.usedPercent.map fun u => min 100 (u + pressure)
     resetAt := verdict.resetAt
     primaryResetAt := if zeroCapacity then none else w.primaryReset
     primaryWindowMinutes := if zeroCapacity then none else w.primaryWindowMinutes
     blockedAt := nextBlockedAt account runtime verdict.status
     cooldownUntil := runtime.cooldownUntil
     secondaryUsedPercent := w.secondaryUsed.map fun u => min 100 (u + pressure)
     secondaryResetAt := w.secondaryReset
     lastErrorAt := runtime.lastErrorAt
     lastSelectedAt := runtime.lastSelectedAt
     errorCount := runtime.errorCount
     deactivationReason := account.deactivationReason
     planType := some account.planType
     capacityCredits := some capacityCredits
     healthTier := runtime'.healthTier
     inflightResponseCreates := runtime.inflightResponseCreates
     inflightStreams := runtime.inflightStreams
     leasedTokens := runtime.leasedTokens
     routingPolicy := normalizeAccountRoutingPolicy account.routingPolicy },
   runtime')

end Balancer
