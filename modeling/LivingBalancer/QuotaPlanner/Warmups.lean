import Mathlib.Data.Int.Order.Basic
import Mathlib.Data.List.Basic
import Mathlib.Logic.Function.Basic
import LivingBalancer.Lib.Runs

/-!
# Warm-up decisions of the quota planner

The statements of `quota_planner/repository.py` on the decision table, and the calls of
`warm_now` and `cancel_decision` that issue them on any number of replicas. Which accounts
pass the gate, which cost is spent, what the API key's limits say and how the probe ends is
up to the environment. Instants are in microseconds.
-/

namespace QuotaPlanner

open Runs

inductive DecisionAction where
  | warmup
  | reserve
  | noOp
  deriving DecidableEq

inductive DecisionStatus where
  | planned
  | executing
  | executed
  | failed
  | skipped
  | canceled
  deriving DecidableEq

/-- The scheduler's keys end in the action; a manual key holds a fresh random number. -/
inductive IdempotencyKey where
  | manual (request : ℕ)
  | scheduled (cycleKey mode accountId : String) (action : DecisionAction)
  | noOp (minute mode : String)
  deriving DecidableEq

/-- The action of the decision that is logged under the key. -/
def IdempotencyKey.action : IdempotencyKey → DecisionAction
  | .manual _ => .warmup
  | .scheduled _ _ _ action => action
  | .noOp _ _ => .noOp

structure Decision where
  idempotencyKey : IdempotencyKey
  status : DecisionStatus
  createdAt : ℤ
  executedAt : Option ℤ
  deriving DecidableEq

/-- `_active_warmup_budget_clause`. -/
def Decision.consumesBudget (since : ℤ) (row : Decision) : Bool :=
  decide (row.idempotencyKey.action = .warmup) &&
    ((decide (row.status = .executed) && row.executedAt.any fun at_ => decide (since ≤ at_)) ||
      (decide (row.status = .executing) &&
        ((row.executedAt.any fun at_ => decide (since ≤ at_)) ||
          (row.executedAt.isNone && decide (since ≤ row.createdAt)))))

/-- Where a call of `warm_now` is: behind the gate, refused, with a claim stamped at an
instant, or with its probe sent. -/
inductive Call where
  | idle
  | gated (decision : ℕ)
  | refused (decision : ℕ)
  | claimed (decision : ℕ) (stamp : ℤ)
  | sent (decision : ℕ) (stamp : ℤ)
  deriving DecidableEq

structure Planner where
  decisions : ℕ → Option Decision
  nextDecision : ℕ
  calls : ℕ → Call

namespace Planner

def setCall (s : Planner) (c : ℕ) (call : Call) : Planner :=
  { s with calls := Function.update s.calls c call }

def setDecision (s : Planner) (d : ℕ) (row : Decision) : Planner :=
  { s with decisions := Function.update s.decisions d (some row) }

theorem setCall_self (s : Planner) (c : ℕ) (call : Call) : (s.setCall c call).calls c = call :=
  Function.update_self ..

theorem setCall_ne (s : Planner) {c c' : ℕ} (other : c' ≠ c) (call : Call) :
    (s.setCall c call).calls c' = s.calls c' :=
  Function.update_of_ne other ..

theorem setDecision_self (s : Planner) (d : ℕ) (row : Decision) :
    (s.setDecision d row).decisions d = some row :=
  Function.update_self ..

theorem setDecision_ne (s : Planner) {d d' : ℕ} (other : d' ≠ d) (row : Decision) :
    (s.setDecision d row).decisions d' = s.decisions d' :=
  Function.update_of_ne other ..

/-- The row with the key, which is unique. -/
def find (s : Planner) (key : IdempotencyKey) : Option ℕ :=
  (List.range s.nextDecision).find? fun d => (s.decisions d).any (·.idempotencyKey = key)

theorem find_eq_some {s : Planner} {key : IdempotencyKey} {d : ℕ} (h : s.find key = some d) :
    ∃ row, s.decisions d = some row ∧ row.idempotencyKey = key := by
  rw [find] at h
  have keyed := List.find?_some h
  obtain ⟨row, found, same⟩ := (Option.any_eq_true _ _).mp keyed
  exact ⟨row, found, of_decide_eq_true same⟩

/-- `count_active_warmups_since`, as the claim statement embeds it. -/
def activeWarmupsSince (s : Planner) (since : ℤ) : ℕ :=
  (List.range s.nextDecision).countP fun d => (s.decisions d).any (Decision.consumesBudget since)

/-- The insert of `log_decision`, which does nothing on a conflict of keys. -/
def logDecision (s : Planner) (key : IdempotencyKey) (status : DecisionStatus) (createdAt : ℤ) :
    Planner :=
  match s.find key with
  | some _ => s
  | none =>
    { s with
      decisions := Function.update s.decisions s.nextDecision (some ⟨key, status, createdAt, none⟩)
      nextDecision := s.nextDecision + 1 }

/-- `update_decision_status`: the row keeps its `executed_at` when none is given. -/
def updateDecisionStatus (s : Planner) (d : ℕ) (status : DecisionStatus) (executedAt : Option ℤ)
    (expected : List DecisionStatus) : Planner :=
  match s.decisions d with
  | some row =>
    if row.status ∈ expected then
      s.setDecision d { row with status := status, executedAt := executedAt.or row.executedAt }
    else s
  | none => s

/-- The guards of `claim_warmup_decision`. -/
def claimable (s : Planner) (d : ℕ) (since : ℤ) (maxWarmups : ℕ) (affordable : Bool) : Bool :=
  (s.decisions d).any (fun row => decide (row.status = .planned)) &&
    decide (s.activeWarmupsSince since < maxWarmups) && affordable

end Planner

inductive Act where
  | log (key : IdempotencyKey) (status : DecisionStatus) (createdAt : ℤ)
  | begin (c : ℕ) (key : IdempotencyKey)
  | gateRefused (c : ℕ)
  | claim (c : ℕ) (since stamp : ℤ) (affordable : Bool)
  | skipRefused (c : ℕ)
  | skipClaimed (c : ℕ)
  | send (c : ℕ)
  | complete (c : ℕ) (now : ℤ)
  | fail (c : ℕ) (now : ℤ)
  | leave (c : ℕ)
  | cancel (d : ℕ)
  deriving DecidableEq

open Planner in
/-- The clock of a call does not go back: the day it budgets for starts before its claim, and
its claim is stamped before its probe ends. -/
def step (maxWarmups : ℕ) (s : Planner) : Act → Option Planner
  | .log key status createdAt =>
    if status = .planned ∨ status = .skipped then some (s.logDecision key status createdAt)
    else none
  | .begin c key =>
    -- The status of the row was read before, and may be out of date.
    match s.calls c, s.find key with
    | .idle, some d => if key.action = .warmup then some (s.setCall c (.gated d)) else none
    | _, _ => none
  | .gateRefused c =>
    match s.calls c with
    | .gated d => some ((s.updateDecisionStatus d .skipped none [.planned]).setCall c .idle)
    | _ => none
  | .claim c since stamp affordable =>
    match s.calls c with
    | .gated d =>
      if since ≤ stamp then
        if s.claimable d since maxWarmups affordable then
          some ((s.updateDecisionStatus d .executing (some stamp) [.planned]).setCall c
            (.claimed d stamp))
        else some (s.setCall c (.refused d))
      else none
    | _ => none
  | .skipRefused c =>
    match s.calls c with
    | .refused d => some ((s.updateDecisionStatus d .skipped none [.planned]).setCall c .idle)
    | _ => none
  | .skipClaimed c =>
    match s.calls c with
    | .claimed d _ => some ((s.updateDecisionStatus d .skipped none [.executing]).setCall c .idle)
    | _ => none
  | .send c =>
    match s.calls c with
    | .claimed d stamp => some (s.setCall c (.sent d stamp))
    | _ => none
  | .complete c now =>
    match s.calls c with
    | .sent d stamp =>
      if stamp ≤ now then
        some ((s.updateDecisionStatus d .executed (some now) [.executing]).setCall c .idle)
      else none
    | _ => none
  | .fail c now =>
    match s.calls c with
    | .claimed d _ | .sent d _ =>
      some ((s.updateDecisionStatus d .failed (some now) [.executing]).setCall c .idle)
    | _ => none
  | .leave c => some (s.setCall c .idle)
  | .cancel d => some (s.updateDecisionStatus d .canceled none [.planned, .skipped])

/-! ## The record of a run -/

/-- The claims with their stamps, the decisions that left `planned`, and those probed. -/
structure History where
  claimed : List (ℕ × ℤ)
  left : List ℕ
  probes : List ℕ

def Planner.planned (s : Planner) (d : ℕ) : Bool :=
  (s.decisions d).any fun row => decide (row.status = .planned)

def note (s : Planner) (act : Act) (s' : Planner) (h : History) : History where
  claimed :=
    match act with
    | .claim c _ _ _ =>
      match s'.calls c with
      | .claimed d stamp => (d, stamp) :: h.claimed
      | _ => h.claimed
    | _ => h.claimed
  left := ((List.range s.nextDecision).filter fun d => s.planned d && !s'.planned d) ++ h.left
  probes :=
    match act with
    | .send c =>
      match s.calls c with
      | .claimed d _ => d :: h.probes
      | _ => h.probes
    | _ => h.probes

/-- A decision claimed since the boundary that is executing or executed. -/
def Counted (boundary : ℤ) (s : Planner) (p : ℕ × ℤ) : Bool :=
  decide (boundary ≤ p.2) && (s.decisions p.1).any fun row =>
    decide (row.status = .executing) || decide (row.status = .executed)

def activeClaims (boundary : ℤ) (s : Planner) (h : History) : ℕ :=
  h.claimed.countP (Counted boundary s)

/-- A claim that is stamped after the boundary budgets for the day that starts with it. -/
def Considered (boundary : ℤ) (_ : Planner × History) : Act → Prop
  | .claim _ since stamp _ => boundary ≤ stamp → since = boundary
  | _ => True

end QuotaPlanner
