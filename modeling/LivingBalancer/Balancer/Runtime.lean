import LivingBalancer.Balancer.Quota

/-!
# The runtime table of one replica

The uninterrupted bodies that read and write `LoadBalancer._runtime`: lease
acquisition, release, stale reclaim and pruning, state building, the runtime sync
and the health marks. None of these bodies awaits.

`Pool` adds a history the source does not keep: the lease ids handed out, the ids
subtracted from the counters, and whether a clamp at zero ever changed a result.
-/

namespace Balancer

structure Pool where
  runtime : Dict String RuntimeState
  issued : List String
  subtracted : List String
  clamped : Bool

namespace Pool

def empty : Pool := ⟨.empty, [], [], false⟩

/-- `_runtime.get(id, RuntimeState())`. -/
def get (p : Pool) (id : String) : RuntimeState := (p.runtime.get id).getD {}

/-- `_runtime.setdefault(id, RuntimeState())`, then `f` on the entry. -/
def update (p : Pool) (id : String) (f : RuntimeState → RuntimeState) : Pool :=
  { p with runtime := p.runtime.modify id {} f }

end Pool

def heldLeases (rt : RuntimeState) : List AccountLease :=
  match rt.leases with
  | some d => d.values
  | none => []

/-- `_acquire_account_lease_locked`; `leaseId` is the fresh uuid. -/
def newLease (leaseId accountId : String) (kind : LeaseKind) (estimatedTokens monotonic : ℚ) :
    AccountLease :=
  ⟨leaseId, accountId, kind, monotonic, max 0 estimatedTokens⟩

def addLease (lease : AccountLease) (now : ℚ) (rt : RuntimeState) : RuntimeState :=
  { rt with
    leases := some ((rt.leases.getD .empty).set lease.leaseId lease)
    inflightResponseCreates := rt.inflightResponseCreates +
      if lease.kind = .responseCreate then 1 else 0
    inflightStreams := rt.inflightStreams + if lease.kind = .stream then 1 else 0
    leasedTokens := rt.leasedTokens + lease.estimatedTokens
    lastSelectedAt := some now
    version := rt.version + 1 }

def Pool.acquire (p : Pool) (lease : AccountLease) (now : ℚ) : Pool :=
  { p.update lease.accountId (addLease lease now) with issued := lease.leaseId :: p.issued }

/-- The counters after `current` is given back, each clamped at zero. -/
def subtractLease (current : AccountLease) (rest : Dict String AccountLease) (rt : RuntimeState) :
    RuntimeState :=
  { rt with
    leases := some rest
    inflightResponseCreates :=
      if current.kind = .responseCreate then max 0 (rt.inflightResponseCreates - 1)
      else rt.inflightResponseCreates
    inflightStreams :=
      if current.kind = .stream then max 0 (rt.inflightStreams - 1) else rt.inflightStreams
    leasedTokens := max 0 (rt.leasedTokens - current.estimatedTokens)
    version := rt.version + 1 }

/-- Whether one of the clamps of `subtractLease` changes its result. -/
def clampFires (current : AccountLease) (rt : RuntimeState) : Bool :=
  (match current.kind with
    | .responseCreate => decide (rt.inflightResponseCreates - 1 < 0)
    | .stream => decide (rt.inflightStreams - 1 < 0)) ||
  decide (rt.leasedTokens - current.estimatedTokens < 0)

/-- `_release_account_lease_locked`. -/
def Pool.release (p : Pool) (lease : AccountLease) : Pool :=
  match p.runtime.get lease.accountId with
  | none => p
  | some rt =>
    match rt.leases with
    | none => p
    | some leases =>
      match leases.get lease.leaseId with
      | none => p
      | some current =>
        { p with
          runtime := p.runtime.set lease.accountId
            (subtractLease current (leases.pop lease.leaseId) rt)
          subtracted := current.leaseId :: p.subtracted
          clamped := p.clamped || clampFires current rt }

def staleLeases (settings : Settings) (monotonic : ℚ) (rt : RuntimeState) : List AccountLease :=
  (heldLeases rt).filter fun l =>
    decide (accountLeaseStaleTtlSeconds l.kind settings ≤ monotonic - l.acquiredAt)

/-- `_reclaim_stale_account_leases_locked`. -/
def Pool.reclaimStale (p : Pool) (settings : Settings) (monotonic : ℚ) : Pool :=
  p.runtime.keys.foldl
    (fun p id => (staleLeases settings monotonic (p.get id)).foldl Pool.release p) p

/-- `_prune_runtime`. -/
def Pool.prune (p : Pool) (accounts : List Account) : Pool :=
  { p with runtime := p.runtime.filter fun e =>
      (accounts.map (·.id)).contains e.1 || !(heldLeases e.2).isEmpty }

/-- `_SelectionInputs`; the accounts come from one query by primary key. -/
structure SelectionInputs where
  accounts : List Account
  latestPrimary : String → Option UsageEntry
  latestSecondary : String → Option UsageEntry
  latestMonthly : String → Option UsageEntry
  runtimeAccounts : Option (List Account)
  errorMessage : Option String
  errorCode : Option String
  ignoreStandardQuotaAccountIds : List String
  routingPolicyOverride : Option String
  distinct : (accounts.map (·.id)).Nodup

/-- `selection_inputs.runtime_accounts or selection_inputs.accounts`. -/
def SelectionInputs.keptAccounts (inputs : SelectionInputs) : List Account :=
  match inputs.runtimeAccounts with
  | some (a :: rest) => a :: rest
  | _ => inputs.accounts

/-- `state.ignore_standard_quota` and the routing policy override of one built state. -/
def applyOverrides (inputs : SelectionInputs) (account : Account) (state : AccountState) :
    AccountState :=
  let ignored := inputs.ignoreStandardQuotaAccountIds.contains account.id
  { state with
    routingPolicy := match inputs.routingPolicyOverride with
      | some policy => if ignored then policy else state.routingPolicy
      | none => state.routingPolicy
    ignoreStandardQuota := ignored }

def longWindowEntry (inputs : SelectionInputs) (account : Account) : Option UsageEntry :=
  if inputs.ignoreStandardQuotaAccountIds.contains account.id then
    inputs.latestSecondary account.id
  else
    selectLongWindowEntry account (inputs.latestMonthly account.id)
      (inputs.latestSecondary account.id)

/-- The body of the `_build_states` loop: the state, and the runtime entry it leaves. -/
def buildState (settings : Settings) (now : ℚ) (inputs : SelectionInputs) (account : Account)
    (rt : RuntimeState) : AccountState × RuntimeState :=
  let (state, rt) := stateFromAccount settings now account (inputs.latestPrimary account.id)
    (longWindowEntry inputs account) rt
  (applyOverrides inputs account state, rt)

/-- `_build_states`; each state is paired with its entry of `account_map`. -/
def Pool.buildStates (settings : Settings) (now : ℚ) (inputs : SelectionInputs) :
    List Account → Pool → List (Account × AccountState) × Pool
  | [], p => ([], p)
  | account :: rest, p =>
    let state := (buildState settings now inputs account (p.get account.id)).1
    let (built, p) := Pool.buildStates settings now inputs rest
      (p.update account.id fun rt => (buildState settings now inputs account rt).2)
    ((account, state) :: built, p)

/-- `_sync_runtime_state` on one runtime entry; every caller leaves `expected_version` unset. -/
def syncRuntime (account : Account) (state : AccountState) (selected : Bool) (now : ℚ)
    (rt : RuntimeState) : RuntimeState :=
  let dirty := rt.resetAt != state.resetAt || rt.cooldownUntil != state.cooldownUntil ||
    rt.blockedAt != state.blockedAt || rt.lastErrorAt != state.lastErrorAt ||
    rt.errorCount != state.errorCount || account.status != state.status ||
    account.deactivationReason != state.deactivationReason || selected
  { rt with
    resetAt := state.resetAt
    cooldownUntil := state.cooldownUntil
    blockedAt := state.blockedAt
    lastErrorAt := state.lastErrorAt
    errorCount := state.errorCount
    lastSelectedAt := if selected then some now else rt.lastSelectedAt
    version := if dirty then rt.version + 1 else rt.version }

/-- The sync of every built state; `selected` is the id of the chosen account. -/
def Pool.syncStates (p : Pool) (selected : Option String) (now : ℚ)
    (built : List (Account × AccountState)) : Pool :=
  built.foldl (fun p (account, state) =>
    p.update account.id (syncRuntime account state (selected == some state.accountId) now)) p

/-- `_state_for`. -/
def stateFor (account : Account) (rt : RuntimeState) : AccountState :=
  { accountId := account.id
    status := account.status
    resetAt := rt.resetAt
    blockedAt := effectiveBlockedAt account rt
    cooldownUntil := rt.cooldownUntil
    lastErrorAt := rt.lastErrorAt
    lastSelectedAt := rt.lastSelectedAt
    errorCount := rt.errorCount
    deactivationReason := account.deactivationReason
    planType := some account.planType
    capacityCredits := capacityForPlan account.planType .secondary
    routingPolicy := normalizeAccountRoutingPolicy account.routingPolicy }

/-- `UpstreamError`; `retryAfter` is `parse_retry_after` of its message. -/
structure UpstreamError where
  retryAfter : Option ℚ
  resetsAt : Option ℚ
  resetsInSeconds : Option ℚ
  deriving DecidableEq, Repr

/-- `backoff_seconds`; the jitter is drawn between 0.9 and 1.1. -/
def backoffSeconds (attempt : Int) (jitter : ℚ) : ℚ :=
  200 * 2 ^ (max attempt 1 - 1).toNat * jitter / 1000

/-- `_extract_reset_at`. -/
def extractResetAt (now : ℚ) (error : UpstreamError) : Option Int :=
  match error.resetsAt, error.resetsInSeconds with
  | some at_, _ => some (truncInt at_)
  | none, some seconds => some (truncInt (now + seconds))
  | none, none => none

def handleRateLimit (now jitter : ℚ) (error : UpstreamError) (s : AccountState) : AccountState :=
  let delay := error.retryAfter.getD (backoffSeconds (s.errorCount + 1) jitter)
  let persistedDelay := error.retryAfter.getD (max delay rateLimitedMinCooldownSeconds)
  { s with
    status := .rateLimited
    errorCount := s.errorCount + 1
    lastErrorAt := some now
    blockedAt := some now
    cooldownUntil := some (now + delay)
    resetAt := match extractResetAt now error with
      | some reset => some (reset : ℚ)
      | none => some (⌈now + persistedDelay⌉ : ℚ) }

def handleQuotaExceeded (now : ℚ) (error : UpstreamError) (s : AccountState) : AccountState :=
  { s with
    status := .quotaExceeded
    usedPercent := some 100
    blockedAt := some now
    cooldownUntil := some (now + quotaExceededCooldownSeconds)
    resetAt := match extractResetAt now error with
      | some reset => some (reset : ℚ)
      | none => some (truncInt (now + 3600) : ℚ) }

def permanentFailureCodes : List (String × String) :=
  [("refresh_token_expired", "Refresh token expired - re-login required"),
    ("refresh_token_reused", "Refresh token was reused - re-login required"),
    ("refresh_token_invalidated", "Refresh token was revoked - re-login required"),
    ("invalid_grant", "Refresh token grant invalid - re-login required"),
    ("token_invalidated", "Authentication token invalidated - re-login required"),
    ("token_expired", "Authentication token expired - re-login required"),
    ("app_session_terminated", "ChatGPT session ended - re-login required"),
    ("account_session_expired", "ChatGPT session ended - re-login required"),
    ("account_auth_invalidated", "Authentication failed after token refresh - re-login required"),
    ("account_deactivated", "Account has been deactivated"),
    ("account_suspended", "Account has been suspended"),
    ("account_deleted", "Account has been deleted")]

def reauthRequiredFailureCodes : List String :=
  ["refresh_token_expired", "refresh_token_reused", "refresh_token_invalidated", "invalid_grant",
    "token_invalidated", "token_expired", "app_session_terminated", "account_session_expired",
    "account_auth_invalidated"]

def accountStatusForPermanentFailure (errorCode : String) : AccountStatus :=
  if errorCode ∈ reauthRequiredFailureCodes then .reauthRequired else .deactivated

def handlePermanentFailure (errorCode : String) (s : AccountState) : AccountState :=
  { s with
    status := accountStatusForPermanentFailure errorCode
    deactivationReason :=
      some ((permanentFailureCodes.lookup errorCode).getD ("Authentication failed: " ++ errorCode))
    blockedAt := none }

/-- The health signals of a request, with what each was called with. -/
inductive Mark where
  | rateLimit (error : UpstreamError) (jitter : ℚ)
  | quotaExceeded (error : UpstreamError)
  | permanentFailure (errorCode : String)
  | errors (count : Int)
  deriving DecidableEq, Repr

/-- `record_errors` returns at once for a count below one. -/
def Mark.takesEffect : Mark → Bool
  | .errors count => decide (1 ≤ count)
  | _ => true

/-- The state a mark computes from `_state_for`. -/
def Mark.apply (now : ℚ) : Mark → AccountState → AccountState
  | .rateLimit error jitter, s => handleRateLimit now jitter error s
  | .quotaExceeded error, s => handleQuotaExceeded now error s
  | .permanentFailure errorCode, s => handlePermanentFailure errorCode s
  | .errors count, s => { s with errorCount := s.errorCount + count, lastErrorAt := some now }

/-- The sync of a mark; a recorded error also ends a probing streak. -/
def markRuntime (now : ℚ) (mark : Mark) (account : Account) (rt : RuntimeState) : RuntimeState :=
  let rt := syncRuntime account (mark.apply now (stateFor account rt)) false now rt
  match mark with
  | .errors _ =>
    if rt.healthTier = .probing then { rt with probeSuccessStreak := 0 } else rt
  | _ => rt

/-- `record_success` on an existing runtime entry. -/
def successRuntime (rt : RuntimeState) : RuntimeState :=
  let rt := if 0 < rt.errorCount then
      { rt with errorCount := 0, lastErrorAt := none, version := rt.version + 1 }
    else rt
  if rt.healthTier = .probing then
    { rt with probeSuccessStreak := rt.probeSuccessStreak + 1, version := rt.version + 1 }
  else rt

def Pool.recordSuccess (p : Pool) (accountId : String) : Pool :=
  match p.runtime.get accountId with
  | some rt => { p with runtime := p.runtime.set accountId (successRuntime rt) }
  | none => p

end Balancer
