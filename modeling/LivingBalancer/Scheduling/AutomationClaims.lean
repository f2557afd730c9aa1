import Mathlib.Data.Int.Order.Basic
import Mathlib.Logic.Function.Basic
import LivingBalancer.Lib.Runs

/-!
# Claims of automation runs

The statements of `automations/repository.py` that claim, reclaim, skip and complete a
run, and the passes of `run_due_jobs` and `run_now` that issue them, for any number of
workers. A pass keeps the instant it began at and the rows it has read; which runs it
turns to, and which accounts are eligible, is up to the environment. Instants are in
microseconds of one clock, and a fresh run id is the next number.
-/

namespace Automations

open Runs

inductive RunTrigger where
  | scheduled
  | manual
  deriving DecidableEq

inductive RunStatus where
  | running
  | success
  | failed
  | partialSuccess
  deriving DecidableEq

structure AutomationRun where
  trigger : RunTrigger
  slotKey : String
  scheduledFor : ℤ
  startedAt : ℤ
  status : RunStatus
  finishedAt : Option ℤ
  accountId : Option String
  errorCode : Option String
  errorMessage : Option String
  attemptCount : ℕ
  deriving DecidableEq

/-- The arguments of `complete_run`. -/
structure RunResult where
  status : RunStatus
  finishedAt : ℤ
  accountId : Option String
  errorCode : Option String
  errorMessage : Option String
  attemptCount : ℕ
  deriving DecidableEq

/-- The row that `claim_run` and its siblings insert. -/
def newRun (trigger : RunTrigger) (slotKey : String) (scheduledFor startedAt : ℤ)
    (accountId : Option String) : AutomationRun where
  trigger := trigger
  slotKey := slotKey
  scheduledFor := scheduledFor
  startedAt := startedAt
  status := .running
  finishedAt := none
  accountId := accountId
  errorCode := none
  errorMessage := none
  attemptCount := 0

namespace AutomationRun

/-- The assignments of `complete_run`. -/
def complete (run : AutomationRun) (result : RunResult) : AutomationRun :=
  { run with
    status := result.status
    finishedAt := some result.finishedAt
    accountId := result.accountId
    errorCode := result.errorCode
    errorMessage := result.errorMessage
    attemptCount := result.attemptCount }

/-- `existing_run_is_stale`, and the last condition of the claim statements. -/
def stale (run : AutomationRun) (staleStartedBefore : ℤ) : Bool :=
  decide (run.startedAt ≤ run.scheduledFor) || decide (run.startedAt < staleStartedBefore)

/-- The conditions of `claim_scheduled_cycle_run_execution` and `claim_manual_run_execution`
on the row, but for the observed start. -/
def claimable (run : AutomationRun) (trigger : RunTrigger) (staleStartedBefore : ℤ) : Bool :=
  decide (run.trigger = trigger) && decide (run.status = .running) && run.finishedAt.isNone &&
    (trigger == .scheduled || run.accountId.isSome) && run.stale staleStartedBefore

/-- `_is_unclaimed_run_placeholder`. -/
def isUnclaimedPlaceholder (run : AutomationRun) : Bool :=
  decide (run.status = .running) && run.finishedAt.isNone && decide (run.attemptCount = 0) &&
    decide (run.startedAt ≤ run.scheduledFor)

/-- The row `skip_unclaimed_manual_run_placeholder` leaves. -/
def skipped (run : AutomationRun) (skippedAt : ℤ) : AutomationRun :=
  { run with
    status := .partialSuccess
    finishedAt := some skippedAt
    accountId := none
    errorCode := none
    errorMessage := none }

end AutomationRun

/-- `_manual_run_execution_claim_timeout_seconds`, in microseconds. -/
def claimTimeout (compactRequestBudget : ℤ) : ℤ :=
  max 30000000 (compactRequestBudget + 30000000)

/-! ## Workers -/

/-- What a pass does with a run it has claimed: it executes it, or completes it at once. -/
inductive Dispatch where
  | execute
  | ineligible (accountId : String)
  | noAccounts
  deriving DecidableEq

/-- The completion of a run that has no account to run on. -/
def noAvailableAccounts (accountId : Option String) (claim : AutomationRun) (finishedAt : ℤ) :
    RunResult where
  status := .failed
  finishedAt := finishedAt
  accountId := accountId
  errorCode := some "no_available_accounts"
  errorMessage := some "No available accounts configured for automation job"
  attemptCount := claim.attemptCount

/-- An execution ends in any way but as `running`. -/
def Dispatch.allows (claim : AutomationRun) (result : RunResult) : Dispatch → Bool
  | .execute => decide (result.status ≠ .running)
  | .ineligible accountId =>
    decide (result = noAvailableAccounts (some accountId) claim result.finishedAt)
  | .noAccounts => decide (result = noAvailableAccounts none claim result.finishedAt)

/-- `now` is the instant the pass began at, `observed` the rows it has read since. -/
inductive Worker where
  | idle
  | passing (now : ℤ) (observed : List (ℕ × AutomationRun))
  | executing (now : ℤ) (observed : List (ℕ × AutomationRun)) (run : ℕ) (claim : AutomationRun)
      (dispatch : Dispatch)

def Worker.now : Worker → Option ℤ
  | .idle => none
  | .passing now _ | .executing now _ _ _ _ => some now

def Worker.run : Worker → Option ℕ
  | .executing _ _ run _ _ => some run
  | _ => none

structure Board where
  clock : ℤ
  runs : ℕ → Option AutomationRun
  nextRun : ℕ
  workers : ℕ → Worker

inductive Act where
  | tick (now : ℤ)
  | start (w : ℕ)
  | observe (w r : ℕ)
  | claimRun (w : ℕ) (slotKey : String) (dueSlot : ℤ)
  | claimAccountRun (w : ℕ) (slotKey accountId : String) (scheduledFor : ℤ)
  | reclaim (w r : ℕ) (observed : AutomationRun) (dispatch : Dispatch)
  | createManualRun (w : ℕ) (slotKey : String) (accountId : Option String) (delay : ℕ)
  | claimManual (w r : ℕ) (observed : AutomationRun) (utcnow : ℤ)
  | skipPlaceholder (w r : ℕ) (observed : AutomationRun) (accountId : String)
  | complete (w : ℕ) (result : RunResult)
  | leave (w : ℕ)
  | deleteRun (r : ℕ)

namespace Board

def setRun (s : Board) (r : ℕ) (run : Option AutomationRun) : Board :=
  { s with runs := Function.update s.runs r run }

def setWorker (s : Board) (w : ℕ) (worker : Worker) : Board :=
  { s with workers := Function.update s.workers w worker }

/-- No row has the slot, which is unique. -/
def slotFree (s : Board) (slotKey : String) : Bool :=
  (List.range s.nextRun).all fun r => (s.runs r).all fun run => run.slotKey != slotKey

def insert (s : Board) (run : AutomationRun) : Board :=
  { s with runs := Function.update s.runs s.nextRun (some run), nextRun := s.nextRun + 1 }

/-- Worker `w` inserts a run it executes. -/
def insertClaimed (s : Board) (w : ℕ) (now : ℤ) (observed : List (ℕ × AutomationRun))
    (run : AutomationRun) : Board :=
  (s.insert run).setWorker w (.executing now observed s.nextRun run .execute)

/-- The update of a claim statement that matches its row. -/
def takeRun (s : Board) (w r : ℕ) (now : ℤ) (rows : List (ℕ × AutomationRun))
    (run : AutomationRun) (claimedStartedAt : ℤ) (dispatch : Dispatch) : Board :=
  let claim := { run with startedAt := claimedStartedAt }
  (s.setRun r (some claim)).setWorker w (.executing now rows r claim dispatch)

end Board

/-- What the pass asks of a row before it sends the claim of a scheduled run. -/
def sendsReclaim (observed : AutomationRun) (staleStartedBefore : ℤ) : Dispatch → Bool
  | .execute => observed.stale staleStartedBefore
  | .ineligible _ => decide (observed.status = .running) && !observed.isUnclaimedPlaceholder &&
      observed.stale staleStartedBefore
  | .noAccounts => decide (observed.status = .running) && observed.stale staleStartedBefore

/-- The conditions of `list_due_manual_runs`. -/
def dueManual (observed : AutomationRun) (now staleStartedBefore : ℤ) : Bool :=
  decide (observed.trigger = .manual) && decide (observed.status = .running) &&
    observed.finishedAt.isNone && decide (observed.scheduledFor ≤ now) &&
    observed.stale staleStartedBefore

def boardStep (timeout : ℤ) (s : Board) : Act → Option Board
  | .tick now => if s.clock ≤ now then some { s with clock := now } else none
  | .start w =>
    match s.workers w with
    | .idle => some (s.setWorker w (.passing s.clock []))
    | _ => none
  | .observe w r =>
    match s.workers w, s.runs r with
    | .passing now rows, some run => some (s.setWorker w (.passing now ((r, run) :: rows)))
    | _, _ => none
  | .claimRun w slotKey dueSlot =>
    match s.workers w with
    | .passing now rows =>
      if s.slotFree slotKey then
        some (s.insertClaimed w now rows (newRun .scheduled slotKey dueSlot now none))
      else some s
    | _ => none
  | .claimAccountRun w slotKey accountId scheduledFor =>
    match s.workers w with
    | .passing now rows =>
      if scheduledFor ≤ now then
        if s.slotFree slotKey then
          some (s.insertClaimed w now rows (newRun .scheduled slotKey scheduledFor
            (max now (scheduledFor + 1)) (some accountId)))
        else some s
      else none
    | _ => none
  | .reclaim w r observed dispatch =>
    match s.workers w with
    | .passing now rows =>
      if (r, observed) ∈ rows ∧ sendsReclaim observed (now - timeout) dispatch then
        match s.runs r with
        | some run =>
          if run.claimable .scheduled (now - timeout) ∧ run.startedAt = observed.startedAt then
            some (s.takeRun w r now rows run now dispatch)
          else some s
        | none => some s
      else none
    | _ => none
  | .createManualRun w slotKey accountId delay =>
    match s.workers w with
    | .passing now rows =>
      if s.slotFree slotKey then
        match accountId with
        | some accountId =>
          some (s.insert (newRun .manual slotKey (now + delay) now (some accountId)))
        | none => some (s.insertClaimed w now rows (newRun .manual slotKey now now none))
      else none
    | _ => none
  | .claimManual w r observed utcnow =>
    match s.workers w with
    | .passing now rows =>
      if (r, observed) ∈ rows ∧ dueManual observed now (now - timeout) ∧ now ≤ utcnow ∧
          utcnow ≤ s.clock then
        match s.runs r with
        | some run =>
          if run.claimable .manual (now - timeout) ∧ run.startedAt = observed.startedAt then
            some (s.takeRun w r now rows run
              (max utcnow (max (observed.startedAt + 1) (observed.scheduledFor + 1))) .execute)
          else some s
        | none => some s
      else none
    | _ => none
  | .skipPlaceholder w r observed accountId =>
    match s.workers w with
    | .passing now rows =>
      if (r, observed) ∈ rows ∧ dueManual observed now (now - timeout) ∧
          observed.isUnclaimedPlaceholder then
        match s.runs r with
        | some run =>
          if run.trigger = .manual ∧ run.isUnclaimedPlaceholder ∧
              (run.accountId = some accountId ∨ run.accountId = none) ∧
              run.startedAt = observed.startedAt then
            some (s.setRun r (some (run.skipped now)))
          else some s
        | none => some s
      else none
    | _ => none
  | .complete w result =>
    match s.workers w with
    | .executing now rows r claim dispatch =>
      if dispatch.allows claim result ∧ result.finishedAt ≤ s.clock then
        match s.runs r with
        | some run => some ((s.setRun r (some (run.complete result))).setWorker w
            (.passing now rows))
        | none => some (s.setWorker w .idle)
      else none
    | _ => none
  | .leave w => some (s.setWorker w .idle)
  | .deleteRun r => some (s.setRun r none)

/-! ## The log -/

/-- A claim with the start it wrote and the instant it was made at. -/
structure Claim where
  run : ℕ
  worker : ℕ
  stamp : ℤ
  made : ℤ
  deriving DecidableEq

inductive RunEvent where
  | claimed (claim : Claim)
  | completed (run worker : ℕ) (result : RunResult)
  deriving DecidableEq

def RunEvent.run : RunEvent → ℕ
  | .claimed claim => claim.run
  | .completed run _ _ => run

/-- The latest claim of a run. -/
def lastClaim (r : ℕ) : List RunEvent → Option Claim
  | [] => none
  | .claimed c :: rest => if c.run = r then some c else lastClaim r rest
  | .completed .. :: rest => lastClaim r rest

def Act.worker : Act → Option ℕ
  | .claimRun w _ _ | .claimAccountRun w _ _ _ | .reclaim w _ _ _ | .createManualRun w _ _ _
  | .claimManual w _ _ _ => some w
  | _ => none

/-- A pass that comes to execute a run has claimed it. -/
def noteRun (s : Board) (act : Act) (s' : Board) (log : List RunEvent) : List RunEvent :=
  match act with
  | .complete w result =>
    match s.workers w, s'.workers w with
    | .executing _ _ r _ _, .passing _ _ => .completed r w result :: log
    | _, _ => log
  | act =>
    match act.worker.map fun w => (w, s.workers w, s'.workers w) with
    | some (w, .passing _ _, .executing _ _ r claim _) =>
      .claimed ⟨r, w, claim.startedAt, s.clock⟩ :: log
    | _ => log

end Automations
