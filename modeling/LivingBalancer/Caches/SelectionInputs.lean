import LivingBalancer.Balancer.Runtime
import LivingBalancer.Lib.Readings

/-!
# Loading selection inputs

The part of `_load_selection_inputs` that follows a cache miss: which statements it sends,
in which order, and what it makes of their rows. Each look at the world is a statement,
the clock, or the model registry. What the two registries of the process answer is data
of the model; the planner settings, which no modelled function reads, are left out of
the result. An early exit returns inputs without accounts.
-/

namespace SelectionInputsCache

open Balancer Readings

/-- What the load asks of the model registry. -/
structure ModelRegistry where
  /-- `_mapped_model_has_registry_entry` -/
  hasEntry : String → Bool
  /-- the test of `_filter_accounts_for_model` -/
  supports : String → Option String → List Account → Account → Bool
  /-- `account_plan_matches_allowed` for the plans of a model, if it has any -/
  allowsPlan : String → String → Bool

/-- What the load asks of the additional quota registry, which is fixed in a process. -/
structure QuotaRegistry where
  /-- `get_additional_quota_key_for_model_id` -/
  keyForModel : String → Option String
  /-- `canonicalize_additional_quota_key` of a text as quota key and limit name -/
  canonicalKey : String → Option String
  /-- `canonicalize_additional_quota_key` of a text as limit name only -/
  canonicalLimitName : String → Option String
  /-- `get_additional_quota_routing_policy` -/
  routingPolicy : String → List (String × String) → String
  /-- the first part of `_additional_quota_applies_to_plan`: the plans of a quota, if listed -/
  plans : String → Option (List PlanType)

/-- The accounts of one query by primary key. -/
structure Roster where
  accounts : List Account
  distinct : (accounts.map (·.id)).Nodup

def Roster.filter (roster : Roster) (p : Account → Bool) : Roster where
  accounts := roster.accounts.filter p
  distinct := roster.distinct.sublist (List.filter_sublist.map Account.id)

abbrev LatestUsage := String → Option UsageEntry

/-- What a look can see. -/
structure World where
  accounts : Roster
  usage : UsageWindowKey → LatestUsage
  additionalUsage : String → UsageWindowKey → Option ℚ → LatestUsage
  models : ModelRegistry
  now : ℚ

/-- `cache_key`; the policies and the account ids are sorted. -/
structure CacheKey where
  model : Option String
  serviceTier : Option String
  additionalLimitName : Option String
  routingPolicies : List (String × String)
  accountIds : Option (List String)
  deriving DecidableEq

/-- `x or y` for optional texts. -/
def orText (x y : Option String) : Option String :=
  match x with
  | none | some "" => y
  | some t => some t

def CacheKey.effectiveLimitName (quotas : QuotaRegistry) (key : CacheKey) : Option String :=
  orText key.additionalLimitName (key.model.bind quotas.keyForModel)

/-! ## Additional quotas -/

inductive Eligibility where
  | eligible
  | dataUnavailable
  | quotaExhausted
  deriving DecidableEq

/-- `_additional_usage_is_exhausted`. -/
def additionalUsageIsExhausted (now : ℚ) (entry : UsageEntry) : Bool :=
  if entry.resetAt.any fun reset => decide (reset ≤ truncInt now) then false
  else decide (100 ≤ entry.usedPercent)

/-- `_additional_quota_applies_to_plan`. -/
def additionalQuotaAppliesToPlan (quotas : QuotaRegistry) (quotaKey planType : String) : Bool :=
  match quotas.plans quotaKey, normalizeAccountPlanType planType with
  | none, _ | some _, none => true
  | some plans, some plan =>
    plans.contains plan || !([PlanType.free, .plus, .edu].contains plan)

/-- The latest rows of a quota in both windows, of any age and fresh. -/
structure AdditionalRows where
  latestPrimary : LatestUsage
  latestSecondary : LatestUsage
  freshPrimary : LatestUsage
  freshSecondary : LatestUsage

/-- `_additional_quota_eligibility`. -/
def additionalQuotaEligibility (quotas : QuotaRegistry) (now : ℚ) (quotaKey : String)
    (explicitLimit : Bool) (rows : AdditionalRows) (account : Account) : Eligibility :=
  if !explicitLimit && !additionalQuotaAppliesToPlan quotas quotaKey account.planType then .eligible
  else
    let latestPrimary := rows.latestPrimary account.id
    let latestSecondary := rows.latestSecondary account.id
    let primary := rows.freshPrimary account.id
    let secondary := rows.freshSecondary account.id
    if latestPrimary.isNone && latestSecondary.isNone then .dataUnavailable
    else if latestPrimary.isSome && primary.isNone then .dataUnavailable
    else if latestSecondary.isSome && secondary.isNone then .dataUnavailable
    else if primary.any (additionalUsageIsExhausted now) then .quotaExhausted
    else if secondary.any (additionalUsageIsExhausted now) then .quotaExhausted
    else .eligible

/-- `_latest_additional_by_key`. -/
def latestAdditionalByKey (quotas : QuotaRegistry) (quotaKey : String) (window : UsageWindowKey)
    (accountIds : List String) (since : Option ℚ) : Query World LatestUsage :=
  match quotas.canonicalKey quotaKey with
  | none => pure fun _ => none
  | some key => Query.ask fun world id =>
    if accountIds.contains id then world.additionalUsage key window since id else none

structure AdditionalLimitFilterResult where
  accounts : Roster
  latestPrimary : LatestUsage
  latestSecondary : LatestUsage
  errorCode : Option String
  errorMessage : Option String

/-- The code and the message when no account is eligible; an absent model prints as `None`. -/
def noEligibleAccounts (model : Option String) (verdicts : List Eligibility) : String × String :=
  let name := model.getD "None"
  if verdicts.contains .dataUnavailable then
    ("additional_quota_data_unavailable",
      s!"No fresh additional quota data available for model '{name}'")
  else if verdicts.contains .quotaExhausted then
    ("quota_exhausted", s!"Additional quota exhausted for model '{name}'")
  else
    ("no_additional_quota_eligible_accounts",
      s!"No accounts with available additional quota for model '{name}'")

/-- `_filter_accounts_for_additional_limit`. -/
def filterAccountsForAdditionalLimit (quotas : QuotaRegistry) (refreshIntervalSeconds : ℚ)
    (roster : Roster) (model : Option String) (limitName : String) (explicitLimit : Bool) :
    Query World AdditionalLimitFilterResult := do
  if roster.accounts.isEmpty then
    return {
      accounts := roster
      latestPrimary := fun _ => none
      latestSecondary := fun _ => none
      errorCode := none
      errorMessage := none }
  let ids := roster.accounts.map (·.id)
  let freshSince ← Query.ask fun world => world.now - max (refreshIntervalSeconds * 2) 180
  let latestPrimary ← latestAdditionalByKey quotas limitName .primary ids none
  let latestSecondary ← latestAdditionalByKey quotas limitName .secondary ids none
  let freshPrimary ← latestAdditionalByKey quotas limitName .primary ids (some freshSince)
  let freshSecondary ← latestAdditionalByKey quotas limitName .secondary ids (some freshSince)
  let now ← Query.ask (·.now)
  let rows := { latestPrimary, latestSecondary, freshPrimary, freshSecondary : AdditionalRows }
  let verdict := additionalQuotaEligibility quotas now limitName explicitLimit rows
  let eligible := roster.filter fun account => verdict account = .eligible
  if eligible.accounts.isEmpty then
    let (code, message) := noEligibleAccounts model (roster.accounts.map verdict)
    return {
      accounts := eligible
      latestPrimary := latestPrimary
      latestSecondary := latestSecondary
      errorCode := some code
      errorMessage := some message }
  let eligibleIds := eligible.accounts.map (·.id)
  return {
    accounts := eligible
    latestPrimary := fun id => if eligibleIds.contains id then latestPrimary id else none
    latestSecondary := fun id => if eligibleIds.contains id then latestSecondary id else none
    errorCode := none
    errorMessage := none }

/-- `_additional_quota_routing_policy_override`. -/
def additionalQuotaRoutingPolicyOverride (quotas : QuotaRegistry) (limitName : Option String)
    (policies : List (String × String)) : Option String := do
  let key ← quotas.canonicalLimitName (← limitName)
  let policy := quotas.routingPolicy key policies
  if policy = "inherit" then none else some policy

/-! ## The load -/

/-- The inputs of an early exit. -/
def noAccounts (all : Roster) (code message : Option String) : SelectionInputs where
  accounts := []
  latestPrimary _ := none
  latestSecondary _ := none
  latestMonthly _ := none
  runtimeAccounts := some all.accounts
  errorMessage := message
  errorCode := code
  ignoreStandardQuotaAccountIds := []
  routingPolicyOverride := none
  distinct := List.nodup_nil

/-- `_selectable_accounts`, and those of the request's accounts. -/
def selectableAccounts (all : Roster) (accountIds : Option (List String)) : Roster :=
  let selectable := all.filter fun account => !account.status.hardBlocked
  match accountIds with
  | none => selectable
  | some ids => selectable.filter fun account => ids.contains account.id

/-- The accounts whose standard quota rows the additional quota replaces. -/
def quotaScopedAccountIds (models : ModelRegistry) (key : CacheKey) (roster : Roster) :
    List String :=
  (roster.accounts.filter fun account => key.additionalLimitName.isSome ||
      ((orText key.model none).any (models.allowsPlan · account.planType) &&
        !([some PlanType.free, some .plus, some .edu].contains
          (normalizeAccountPlanType account.planType)))).map (·.id)

def loadSelectionInputs (quotas : QuotaRegistry) (refreshIntervalSeconds : ℚ) (key : CacheKey) :
    Query World SelectionInputs := do
  let limitName := key.effectiveLimitName quotas
  let all ← Query.ask (·.accounts)
  -- the planner settings; their failure is caught
  Query.ask fun _ => ()
  let candidates := selectableAccounts all key.accountIds
  let models ← Query.ask (·.models)
  let supported := match orText key.model none with
    | some model =>
      if models.hasEntry model then
        candidates.filter (models.supports model key.serviceTier candidates.accounts)
      else candidates
    | none => candidates
  match orText key.model none with
  | some model =>
    if supported.accounts.isEmpty then
      if all.accounts.isEmpty || candidates.accounts.isEmpty then
        return noAccounts all none none
      return noAccounts all (some "no_plan_support_for_model")
        (some s!"No accounts with a plan supporting model '{model}'")
  | none => pure ()
  match orText limitName none with
  | some limit =>
    let filtered ← filterAccountsForAdditionalLimit quotas refreshIntervalSeconds supported key.model
      limit key.additionalLimitName.isSome
    if filtered.accounts.accounts.isEmpty then
      return noAccounts all filtered.errorCode filtered.errorMessage
    let standardPrimary ← Query.ask (·.usage .primary)
    let standardSecondary ← Query.ask (·.usage .secondary)
    let monthly ← Query.ask (·.usage .monthly)
    let models ← Query.ask (·.models)
    let quotaScoped := quotaScopedAccountIds models key filtered.accounts
    return {
      accounts := filtered.accounts.accounts
      latestPrimary := fun id =>
        if quotaScoped.contains id then filtered.latestPrimary id else standardPrimary id
      latestSecondary := fun id =>
        if quotaScoped.contains id then filtered.latestSecondary id else standardSecondary id
      latestMonthly := monthly
      runtimeAccounts := some all.accounts
      errorMessage := none
      errorCode := none
      ignoreStandardQuotaAccountIds := quotaScoped
      routingPolicyOverride :=
        additionalQuotaRoutingPolicyOverride quotas limitName key.routingPolicies
      distinct := filtered.accounts.distinct }
  | none =>
    if supported.accounts.isEmpty then
      return noAccounts all none none
    let latestPrimary ← Query.ask (·.usage .primary)
    let latestSecondary ← Query.ask (·.usage .secondary)
    let latestMonthly ← Query.ask (·.usage .monthly)
    return {
      accounts := supported.accounts
      latestPrimary := latestPrimary
      latestSecondary := latestSecondary
      latestMonthly := latestMonthly
      runtimeAccounts := some all.accounts
      errorMessage := none
      errorCode := none
      ignoreStandardQuotaAccountIds := []
      routingPolicyOverride :=
        additionalQuotaRoutingPolicyOverride quotas limitName key.routingPolicies
      distinct := supported.distinct }

end SelectionInputsCache
