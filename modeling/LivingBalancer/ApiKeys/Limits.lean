import Mathlib.Data.List.Nodup
import Mathlib.Algebra.Order.Ring.Int

/-!
# Limits, usage reservations and what a request reserves

The rows of `api_key_limits`, `api_key_usage_reservations` and its items, and the
pure functions of the API key service that the limit operations use. Timestamps are
integers, in microseconds. The pricing behind `_calculate_cost_microdollars` is a
parameter; nothing is assumed of it.
-/

namespace ApiKeys

inductive LimitType where
  | totalTokens
  | inputTokens
  | outputTokens
  | costUsd
  | credits
  deriving DecidableEq, Repr

inductive LimitWindow where
  | daily
  | weekly
  | monthly
  | fiveHours
  | sevenDays
  deriving DecidableEq, Repr

/-- A limit row. `windowStart` is a history: the counter when the current window began. -/
structure Limit where
  apiKeyId : String
  limitType : LimitType
  limitWindow : LimitWindow
  modelFilter : Option String
  maxValue : Int
  currentValue : Int
  resetAt : Int
  windowStart : Int
  deriving DecidableEq, Repr

/-- A reservation item; one per reservation and limit. -/
structure ReservationItem where
  limitId : Nat
  limitType : LimitType
  reservedDelta : Int
  expectedResetAt : Int
  actualDelta : Option Int
  deriving DecidableEq, Repr

inductive ReservationStatus where
  | reserved
  | settling
  | finalized
  | failed
  | released
  deriving DecidableEq, Repr

/-- The usage columns of a settled reservation. -/
structure UsageColumns where
  inputTokens : Option Int := none
  outputTokens : Option Int := none
  cachedInputTokens : Option Int := none
  costMicrodollars : Option Int := none
  deriving DecidableEq, Repr

structure Reservation where
  apiKeyId : String
  model : String
  status : ReservationStatus
  usage : UsageColumns
  updatedAt : Int
  items : List ReservationItem
  deriving DecidableEq, Repr

structure ApiKey where
  isActive : Bool
  expiresAt : Option Int
  deriving DecidableEq, Repr

def hour : Int := 3600000000

def limitWindowDelta : LimitWindow → Int
  | .fiveHours => 5 * hour
  | .sevenDays | .weekly => 7 * 24 * hour
  | .daily => 24 * hour
  | .monthly => 30 * 24 * hour

/-- The rounds of `while next_reset <= now: next_reset += delta`. -/
def advanceLoop (delta now : Int) : Nat → Int → Int
  | 0, next => next
  | rounds + 1, next => if next ≤ now then advanceLoop delta now rounds (next + delta) else next

/-- `advance_limit_reset`: a round adds at least one, so the gap bounds their number. -/
def advanceLimitReset (resetAt now : Int) (window : LimitWindow) : Int :=
  advanceLoop (limitWindowDelta window) now (now - resetAt + 1).toNat resetAt

theorem limitWindowDelta_pos (window : LimitWindow) : 0 < limitWindowDelta window := by
  cases window <;> decide

theorem le_advanceLoop {delta : Int} (positive : 0 < delta) (now : Int) (rounds : Nat) (next : Int) :
    next ≤ advanceLoop delta now rounds next := by
  induction rounds generalizing next with
  | zero => exact le_refl next
  | succ rounds ih =>
    simp only [advanceLoop]
    split
    · have further := ih (next + delta)
      omega
    · exact le_refl next

/-- An elapsed window is followed by one that ends later. -/
theorem lt_advanceLimitReset {resetAt now : Int} (elapsed : resetAt < now) (window : LimitWindow) :
    resetAt < advanceLimitReset resetAt now window := by
  have positive := limitWindowDelta_pos window
  have rounds : (now - resetAt + 1).toNat = (now - resetAt).toNat + 1 := by omega
  simp only [advanceLimitReset]
  rw [rounds, advanceLoop, if_pos (le_of_lt elapsed)]
  have further := le_advanceLoop positive now (now - resetAt).toNat
    (resetAt + limitWindowDelta window)
  omega

/-- `_calculate_cost_microdollars` of a model, the three token counts and a service tier. -/
abbrev Pricing := String → Int → Int → Int → Option String → Int

structure RequestUsageBudget where
  inputTokens : Option Int
  outputTokens : Option Int
  deriving DecidableEq, Repr

def maxTokenBudget : Int := 8192

/-- `_normalize_reservation_token_budget`. -/
def normalizeReservationTokenBudget (value : Option Int) (default : Int) : Int :=
  match value with
  | none => default
  | some value => max 0 (min value maxTokenBudget)

/-- `_normalize_request_usage_budget`: input and output tokens. -/
def normalizeRequestUsageBudget : Option RequestUsageBudget → Int × Int
  | none => (maxTokenBudget, 2048)
  | some budget => (normalizeReservationTokenBudget budget.inputTokens maxTokenBudget,
      normalizeReservationTokenBudget budget.outputTokens 2048)

/-- `_unknown_model_reserve_cost_budget_microdollars`: two dollars for 16384 tokens, rounded
up. The divisor is a power of two, so the float division is exact. -/
def unknownModelReserveCostBudget (inputTokens outputTokens : Int) : Int :=
  let tokens := max 0 inputTokens + max 0 outputTokens
  if tokens ≤ 0 then 0 else (2000000 * tokens + 16383) / 16384

/-- `_reserve_cost_budget_microdollars`. -/
def reserveCostBudget (pricing : Pricing) (model serviceTier : Option String)
    (inputTokens outputTokens : Int) : Int :=
  match model with
  | none | some "" => unknownModelReserveCostBudget inputTokens outputTokens
  | some name =>
    let cost := pricing name inputTokens outputTokens 0 serviceTier
    if 0 < cost then cost else unknownModelReserveCostBudget inputTokens outputTokens

structure EnforceArgs where
  keyId : String
  model : Option String
  serviceTier : Option String
  budget : Option RequestUsageBudget
  now : Int

/-- `_reserve_budget_for_limit_type`. -/
def reserveBudget (pricing : Pricing) (args : EnforceArgs) : LimitType → Int :=
  let (input, output) := normalizeRequestUsageBudget args.budget
  fun
    | .totalTokens => input + output
    | .inputTokens => input
    | .outputTokens => output
    | .costUsd => reserveCostBudget pricing args.model args.serviceTier input output
    | .credits => 0

/-- `_limit_applies_for_request`. -/
def limitApplies (limit : Limit) (model : Option String) : Bool :=
  limit.modelFilter.isNone || limit.modelFilter == model

/-- `_reserve_delta_for_limit`. -/
def reserveDelta (pricing : Pricing) (args : EnforceArgs) (limit : Limit) : Int :=
  let remaining := limit.maxValue - limit.currentValue
  if remaining ≤ 0 then 0 else min remaining (reserveBudget pricing args limit.limitType)

theorem unknownModelReserveCostBudget_nonneg (inputTokens outputTokens : Int) :
    0 ≤ unknownModelReserveCostBudget inputTokens outputTokens := by
  simp only [unknownModelReserveCostBudget]
  split
  · exact le_refl 0
  · omega

theorem normalizeRequestUsageBudget_nonneg (budget : Option RequestUsageBudget) :
    0 ≤ (normalizeRequestUsageBudget budget).1 ∧ 0 ≤ (normalizeRequestUsageBudget budget).2 := by
  have tokens : ∀ value default, 0 ≤ default → 0 ≤ normalizeReservationTokenBudget value default := by
    intro value default hdefault
    cases value with
    | none => exact hdefault
    | some value => exact le_max_left _ _
  cases budget with
  | none => decide
  | some budget => exact ⟨tokens _ _ (by decide), tokens _ _ (by decide)⟩

/-- No request reserves a negative amount. -/
theorem reserveDelta_nonneg (pricing : Pricing) (args : EnforceArgs) (limit : Limit) :
    0 ≤ reserveDelta pricing args limit := by
  obtain ⟨input, output⟩ := normalizeRequestUsageBudget_nonneg args.budget
  have cost : ∀ model tier i o, 0 ≤ reserveCostBudget pricing model tier i o := by
    intro model tier i o
    unfold reserveCostBudget
    split
    · exact unknownModelReserveCostBudget_nonneg i o
    · exact unknownModelReserveCostBudget_nonneg i o
    · dsimp only
      split
      · omega
      · exact unknownModelReserveCostBudget_nonneg i o
  have budget : 0 ≤ reserveBudget pricing args limit.limitType := by
    simp only [reserveBudget]
    cases limit.limitType with
    | totalTokens => exact Int.add_nonneg input output
    | inputTokens => exact input
    | outputTokens => exact output
    | costUsd => exact cost _ _ _ _
    | credits => exact le_refl 0
  simp only [reserveDelta]
  split
  · exact le_refl 0
  · omega

/-- What `_settle_usage_reservation` is called with. -/
structure SettleArgs where
  reservationId : String
  model : String
  inputTokens : Option Int
  outputTokens : Option Int
  cachedInputTokens : Option Int
  serviceTier : Option String
  status : ReservationStatus
  costOverride : Option Int

/-- `cost_microdollars` of a settlement. -/
def SettleArgs.cost (pricing : Pricing) (args : SettleArgs) : Int :=
  args.costOverride.getD (pricing args.model (args.inputTokens.getD 0) (args.outputTokens.getD 0)
    (args.cachedInputTokens.getD 0) args.serviceTier)

/-- `_compute_increment_for_limit_type` on the tokens of a settlement. -/
def SettleArgs.increment (pricing : Pricing) (args : SettleArgs) : LimitType → Int
  | .totalTokens => args.inputTokens.getD 0 + args.outputTokens.getD 0
  | .inputTokens => args.inputTokens.getD 0
  | .outputTokens => args.outputTokens.getD 0
  | .costUsd => args.cost pricing
  | .credits => 0

end ApiKeys
