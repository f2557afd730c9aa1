import Mathlib.Data.Rat.Floor
import LivingBalancer.Lib.Dict

/-!
# Accounts, usage rows and runtime state of the load balancer

The data that `load_balancer.py` and `core/balancer/logic.py` share. Clock values
and float columns are exact rationals; epoch columns are integers, whose range is
checked where it decides a write (`RetryDeadline`). Columns that no modelled
function reads are left out.
-/

namespace Balancer

inductive AccountStatus where
  | active
  | rateLimited
  | quotaExceeded
  | paused
  | reauthRequired
  | deactivated
  deriving DecidableEq, Repr

/-- The statuses that only an operator or the refresh path sets and lifts. -/
def AccountStatus.hardBlocked : AccountStatus → Bool
  | .paused | .reauthRequired | .deactivated => true
  | .active | .rateLimited | .quotaExceeded => false

/-- The `accounts` row, and every snapshot of it a request carries. -/
structure Account where
  id : String
  planType : String
  routingPolicy : String
  refreshTokenEncrypted : String
  status : AccountStatus
  deactivationReason : Option String
  resetAt : Option Int
  blockedAt : Option Int
  deriving DecidableEq, Repr

/-- `UsageHistory`, or `AdditionalUsageHistory` when `standard` is false. -/
structure UsageEntry where
  standard : Bool
  recordedAt : ℚ
  window : Option String
  usedPercent : ℚ
  resetAt : Option Int
  windowMinutes : Option Int
  creditsHas : Option Bool
  creditsUnlimited : Option Bool
  creditsBalance : Option ℚ
  deriving DecidableEq, Repr

inductive LeaseKind where
  | responseCreate
  | stream
  deriving DecidableEq, Repr

structure AccountLease where
  leaseId : String
  accountId : String
  kind : LeaseKind
  acquiredAt : ℚ
  estimatedTokens : ℚ
  deriving DecidableEq, Repr

inductive HealthTier where
  | healthy
  | draining
  | probing
  deriving DecidableEq, Repr

/-- `RuntimeState` with the dataclass defaults. -/
structure RuntimeState where
  resetAt : Option ℚ := none
  cooldownUntil : Option ℚ := none
  lastErrorAt : Option ℚ := none
  lastSelectedAt : Option ℚ := none
  errorCount : Int := 0
  version : Int := 0
  blockedAt : Option ℚ := none
  healthTier : HealthTier := .healthy
  drainEnteredAt : Option ℚ := none
  probeSuccessStreak : Int := 0
  inflightResponseCreates : Int := 0
  inflightStreams : Int := 0
  leasedTokens : ℚ := 0
  leases : Option (Dict String AccountLease) := none

/-- `AccountState`. -/
structure AccountState where
  accountId : String
  status : AccountStatus
  usedPercent : Option ℚ := none
  resetAt : Option ℚ := none
  primaryResetAt : Option Int := none
  primaryWindowMinutes : Option Int := none
  blockedAt : Option ℚ := none
  cooldownUntil : Option ℚ := none
  secondaryUsedPercent : Option ℚ := none
  secondaryResetAt : Option Int := none
  lastErrorAt : Option ℚ := none
  lastSelectedAt : Option ℚ := none
  errorCount : Int := 0
  deactivationReason : Option String := none
  planType : Option String := none
  capacityCredits : Option ℚ := none
  healthTier : HealthTier := .healthy
  priorityUsedPercent : Option ℚ := none
  prioritySecondaryUsedPercent : Option ℚ := none
  priorityResetAt : Option Int := none
  priorityCapacityCredits : Option ℚ := none
  limitScopedUsage : Bool := false
  inflightResponseCreates : Int := 0
  inflightStreams : Int := 0
  leasedTokens : ℚ := 0
  routingPolicy : String := "normal"
  ignoreStandardQuota : Bool := false
  deriving DecidableEq, Repr

/-- The settings the modelled functions read, with their declared defaults. -/
structure Settings where
  softDrainEnabled : Bool := true
  drainPrimaryThresholdPct : ℚ := 85
  drainSecondaryThresholdPct : ℚ := 90
  drainErrorWindowSeconds : ℚ := 60
  drainErrorCountThreshold : Int := 2
  probeQuietSeconds : ℚ := 60
  probeSuccessStreakRequired : Int := 3
  proxyAccountInflightPenaltyPct : ℚ := 5 / 2
  proxyAccountLeaseTokenWeight : ℚ := 1
  proxyAccountLeaseTtlSeconds : ℚ := 900
  proxyRequestBudgetSeconds : ℚ := 600
  httpResponsesStreamRequestBudgetSeconds : ℚ := 7200
  httpResponsesSessionBridgeRequestBudgetSeconds : ℚ := 7200
  usageRefreshIntervalSeconds : Int := 60

/-- `if x` for an optional number: neither `None` nor zero. -/
def truthy (x : Option ℚ) : Bool :=
  match x with
  | some q => decide (q ≠ 0)
  | none => false

/-- `int(x)` of a float truncates towards zero. -/
def truncInt (q : ℚ) : Int := if 0 ≤ q then ⌊q⌋ else ⌈q⌉

/-- `int(x) if x else None`. -/
def epochSeconds (x : Option ℚ) : Option Int :=
  match x with
  | some q => if q = 0 then none else some (truncInt q)
  | none => none

/-- `float(x) if x else None`. -/
def nonzeroSeconds (x : Option Int) : Option ℚ :=
  match x with
  | some n => if n = 0 then none else some (n : ℚ)
  | none => none

/-- `x or y` for optional numbers. -/
def orElse (x y : Option ℚ) : Option ℚ := if truthy x then x else y

def rateLimitedMinCooldownSeconds : ℚ := 30

def quotaExceededCooldownSeconds : ℚ := 120

def isPythonSpace (c : Char) : Bool :=
  let n := c.toNat
  (9 ≤ n && n ≤ 13) || (28 ≤ n && n ≤ 32) || n == 0x85 || n == 0xa0 || n == 0x1680 ||
    (0x2000 ≤ n && n ≤ 0x200a) || n == 0x2028 || n == 0x2029 || n == 0x202f || n == 0x205f ||
    n == 0x3000

def strip (s : String) : List Char :=
  ((s.toList.dropWhile isPythonSpace).reverse.dropWhile isPythonSpace).reverse

inductive PlanType where
  | free
  | plus
  | pro
  | prolite
  | team
  | business
  | enterprise
  | edu
  deriving DecidableEq, Repr

/-- `normalize_account_plan_type`. No character outside ASCII has one of the letters
of a plan name as its lower case, so the ASCII lower case suffices. -/
def normalizeAccountPlanType (value : String) : Option PlanType :=
  match String.ofList ((strip value).map Char.toLower) with
  | "free" => some .free
  | "plus" => some .plus
  | "pro" => some .pro
  | "prolite" => some .prolite
  | "team" => some .team
  | "business" => some .business
  | "enterprise" => some .enterprise
  | "edu" => some .edu
  | _ => none

def planCapacityCreditsPrimary : PlanType → ℚ
  | .free => 0
  | .plus | .business | .team | .edu => 225
  | .pro | .enterprise => 1500
  | .prolite => 1125

def planCapacityCreditsSecondary : PlanType → ℚ
  | .free => 1134
  | .plus | .business | .team | .edu => 7560
  | .pro | .enterprise => 50400
  | .prolite => 37800

def planCapacityCreditsMonthly : PlanType → Option ℚ
  | .free => some 1134
  | _ => none

inductive UsageWindowKey where
  | primary
  | secondary
  | monthly
  deriving DecidableEq, Repr

def capacityForPlan (planType : String) (window : UsageWindowKey) : Option ℚ :=
  match normalizeAccountPlanType planType, window with
  | none, _ => none
  | some plan, .primary => some (planCapacityCreditsPrimary plan)
  | some plan, .secondary => some (planCapacityCreditsSecondary plan)
  | some plan, .monthly => planCapacityCreditsMonthly plan

def defaultWindowMinutes : UsageWindowKey → Int
  | .primary => 300
  | .secondary => 10080
  | .monthly => 43200

def isPrimaryWindowMinutes (m : Int) : Bool := m == defaultWindowMinutes .primary

def isWeeklyWindowMinutes (m : Option Int) : Bool := m == some (defaultWindowMinutes .secondary)

/-- `_normalize_account_routing_policy`. -/
def normalizeAccountRoutingPolicy (value : String) : String :=
  if value = "normal" ∨ value = "burn_first" ∨ value = "preserve" then value else "normal"

/-- `_account_lease_stale_ttl_seconds`. -/
def accountLeaseStaleTtlSeconds (kind : LeaseKind) (settings : Settings) : ℚ :=
  let ttl := settings.proxyAccountLeaseTtlSeconds
  match kind with
  | .responseCreate => ttl
  | .stream =>
    let budget := max (max ttl settings.proxyRequestBudgetSeconds)
      (max settings.httpResponsesStreamRequestBudgetSeconds
        settings.httpResponsesSessionBridgeRequestBudgetSeconds)
    max ttl (budget + 60)

end Balancer
