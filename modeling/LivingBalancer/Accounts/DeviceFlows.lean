import Mathlib.Data.Int.Order.Basic
import Mathlib.Logic.Function.Basic
import LivingBalancer.Lib.Dict
import LivingBalancer.Lib.Runs

/-!
# Device OAuth flows

The flow rows and the device slot of `oauth/repository.py`, and the parts of
`oauth/service.py` that use them, on any number of replicas. A start, a poll task, a
callback and a reconciliation are cut at their awaits; the claim and the consume of the
slot and the status writes are atomic statements. A task that is cancelled, or that fails
outside the errors it handles, may stop at any await. Flow ids, objects and tasks are
numbered by one counter.
-/

namespace DeviceOauth

open Runs

inductive FlowMethod where
  | device
  | browser
  deriving DecidableEq

inductive FlowStatus where
  | pending
  | success
  | error
  deriving DecidableEq

/-- `_TERMINAL_OAUTH_STATUSES`. -/
def FlowStatus.terminal : FlowStatus → Bool
  | .pending => false
  | .success | .error => true

/-- `_MAX_RETAINED_TERMINAL_OAUTH_FLOWS`. -/
def maxRetainedTerminalFlows : ℕ := 16

/-! ## The database -/

/-- A row of the flow table. -/
structure FlowRow where
  method : FlowMethod
  status : FlowStatus := .pending
  errorMessage : Option String := none
  deviceAuthId : Option String := none
  userCode : Option String := none
  expiresAt : Option ℤ
  finishedAt : Option ℤ := none
  deriving DecidableEq

structure DeviceSlot where
  flow : ℕ
  generation : ℕ
  deriving DecidableEq

/-- `_is_expired_pending`. -/
def FlowRow.expiredPending (row : FlowRow) (now : ℤ) : Bool :=
  decide (row.status = .pending) && row.expiresAt.any fun expires => decide (expires ≤ now)

/-- `get_by_flow_id`. -/
def liveRow (rows : Dict ℕ FlowRow) (flow : ℕ) (now : ℤ) : Option FlowRow :=
  (rows.get flow).filter fun row => !row.expiredPending now

/-- `set_status`, and whether it wrote. -/
def setStatus (rows : Dict ℕ FlowRow) (flow : ℕ) (status : FlowStatus)
    (errorMessage : Option String) (now : ℤ) : Dict ℕ FlowRow × Bool :=
  match rows.get flow with
  | some row =>
    if status = .success ∨ row.status ≠ .success then
      (rows.set flow { row with
        status := status
        errorMessage := errorMessage
        finishedAt := if status.terminal then some now else none }, true)
    else (rows, false)
  | none => (rows, false)

/-- The rows that stay pending, and the finished ones that `purge_expired` ranks. -/
def unexpired (rows : Dict ℕ FlowRow) (now : ℤ) : Dict ℕ FlowRow :=
  rows.filter fun item => !item.2.expiredPending now

/-- The finished rows, the latest first; rows that finished at one instant come in any order. -/
def Ranks (rows : Dict ℕ FlowRow) (now : ℤ) (ranked : List (ℕ × FlowRow)) : Prop :=
  ranked.Perm ((unexpired rows now).items.filter fun item => item.2.status.terminal) ∧
    ranked.Pairwise fun later earlier => earlier.2.finishedAt.getD 0 ≤ later.2.finishedAt.getD 0

instance (rows : Dict ℕ FlowRow) (now : ℤ) (ranked : List (ℕ × FlowRow)) :
    Decidable (Ranks rows now ranked) :=
  inferInstanceAs (Decidable (_ ∧ _))

/-- `purge_expired`. -/
def purgeExpired (rows : Dict ℕ FlowRow) (now : ℤ) (ranked : List (ℕ × FlowRow)) :
    Dict ℕ FlowRow :=
  let stale := (ranked.drop maxRetainedTerminalFlows).map Prod.fst
  (unexpired rows now).filter fun item => decide (item.1 ∉ stale)

/-- `claim_device_slot`. -/
def claimDeviceSlot (slot : Option DeviceSlot) (flow : ℕ) : Option DeviceSlot :=
  match slot with
  | some held => some ⟨flow, held.generation + 1⟩
  | none => some ⟨flow, 1⟩

/-- `consume_device_slot`, and whether a row matched. -/
def consumeDeviceSlot (slot : Option DeviceSlot) (flow : ℕ) : Option DeviceSlot × Bool :=
  match slot with
  | some held => if held.flow = flow then (none, true) else (slot, false)
  | none => (none, false)

/-! ## The replicas -/

/-- `OAuthState`; `object` tells two objects of one flow apart. -/
structure OAuthState where
  object : ℕ
  method : FlowMethod
  status : FlowStatus := .pending
  errorMessage : Option String := none
  deviceAuthId : Option String := none
  userCode : Option String := none
  expiresAt : Option ℤ
  finishedAt : Option ℤ := none
  pollTask : Option ℕ := none

/-- The flows of `OAuthStateStore`, and the start that holds its lock over an await. -/
structure Store where
  flows : ℕ → Option OAuthState := fun _ => none
  lock : Option ℕ := none

/-- `remove_pending_device_flows_locked`. -/
def removePendingDeviceFlows (flows : ℕ → Option OAuthState) : ℕ → Option OAuthState :=
  fun flow => (flows flow).filter fun state =>
    !(decide (state.method = .device) && decide (state.status = .pending))

/-- `remember_flow_locked`, with the pruning of expired browser flows. -/
def rememberFlow (flows : ℕ → Option OAuthState) (flow : ℕ) (state : OAuthState) (now : ℤ) :
    ℕ → Option OAuthState :=
  Function.update (fun flow => (flows flow).filter fun state =>
    !(decide (state.method = .browser) && decide (state.status = .pending) &&
      state.expiresAt.any fun expires => decide (expires ≤ now))) flow (some state)

/-- `set_flow_status_locked`. -/
def OAuthState.withStatus (state : OAuthState) (status : FlowStatus)
    (errorMessage : Option String) (now : ℤ) : OAuthState :=
  { state with
    status := status
    errorMessage := errorMessage
    finishedAt := if status.terminal then some now else none }

/-- `_record_to_state`. -/
def recordToState (object : ℕ) (row : FlowRow) : OAuthState where
  object := object
  method := row.method
  status := row.status
  errorMessage := row.errorMessage
  deviceAuthId := row.deviceAuthId
  userCode := row.userCode
  expiresAt := row.expiresAt
  finishedAt := row.finishedAt

/-- The part of `_reconcile_flow_from_durable` under the lock. -/
def reconcileFlow (flows : ℕ → Option OAuthState) (flow object : ℕ) (record : Option FlowRow)
    (now : ℤ) : ℕ → Option OAuthState :=
  match record, flows flow with
  | none, some state =>
    if state.status.terminal then flows else Function.update flows flow none
  | none, none => flows
  | some row, none => rememberFlow flows flow (recordToState object row) now
  | some row, some state =>
    if row.status.terminal ∧ state.status ≠ row.status then
      Function.update flows flow (some (state.withStatus row.status row.errorMessage now))
    else flows

inductive StartStage where
  | persisting
  | checking
  | claiming
  | claimed
  deriving DecidableEq

/-- A start between the memory of its flow and its response. -/
structure FlowStart where
  replica : ℕ
  flow : ℕ
  state : OAuthState
  stage : StartStage

inductive PollStage where
  | polling
  | consuming
  | persisting
  | settling
  | writingSuccess
  | closing (message : String)
  | writingError (message : String)
  | settlingError (message : String)
  deriving DecidableEq

/-- A run of `_poll_device_tokens`. -/
structure PollTask where
  replica : ℕ
  flow : ℕ
  expiresAt : ℤ
  stage : PollStage

inductive CallbackStage where
  | exchanging
  | settling
  | writingSuccess
  | settlingError (message : String)
  deriving DecidableEq

/-- A callback, of the browser or pasted, on the flow of its state token. -/
structure Callback where
  replica : ℕ
  flow : ℕ
  stage : CallbackStage

/-- A row that a status call, a `/complete` or a callback has read. -/
structure Loaded where
  replica : ℕ
  flow : ℕ
  record : Option FlowRow

structure System where
  clock : ℤ
  next : ℕ
  rows : Dict ℕ FlowRow
  slot : Option DeviceSlot
  stores : ℕ → Store
  starts : ℕ → Option FlowStart
  tasks : ℕ → Option PollTask
  callbacks : ℕ → Option Callback
  loads : ℕ → Option Loaded

inductive Act where
  | tick (now : ℤ)
  | purge (ranked : List (ℕ × FlowRow))
  | startDevice (n r : ℕ) (deviceAuthId userCode : String) (expiresIn : ℕ)
  | startBrowser (n r : ℕ) (expiresIn : ℕ)
  | persistRow (n : ℕ)
  | check (n : ℕ)
  | claim (n : ℕ)
  | ensurePollTask (n : ℕ)
  | abandonStart (n : ℕ)
  | pollTokens (p : ℕ)
  | pollExpired (p : ℕ)
  | pollError (p : ℕ) (message : String)
  | pollConsume (p : ℕ)
  | pollPersist (p : ℕ)
  | pollSettle (p : ℕ)
  | pollWrite (p : ℕ)
  | pollStop (p : ℕ)
  | load (n r flow : ℕ)
  | reconcile (n : ℕ)
  | complete (r flow : ℕ) (deviceAuthId userCode : Option String)
  | forget (r flow : ℕ)
  | cleanup (r : ℕ)
  | callback (n r flow : ℕ)
  | callbackPersist (n : ℕ)
  | callbackSettle (n : ℕ)
  | callbackSuccess (n : ℕ)
  | callbackError (n : ℕ) (message : String)
  | callbackStop (n : ℕ)

namespace System

def setFlows (s : System) (r : ℕ) (flows : ℕ → Option OAuthState) : System :=
  { s with stores := Function.update s.stores r { s.stores r with flows := flows } }

def setLock (s : System) (r : ℕ) (lock : Option ℕ) : System :=
  { s with stores := Function.update s.stores r { s.stores r with lock := lock } }

def setStart (s : System) (n : ℕ) (start : Option FlowStart) : System :=
  { s with starts := Function.update s.starts n start }

def setTask (s : System) (p : ℕ) (task : Option PollTask) : System :=
  { s with tasks := Function.update s.tasks p task }

def setCallback (s : System) (n : ℕ) (callback : Option Callback) : System :=
  { s with callbacks := Function.update s.callbacks n callback }

def setLoad (s : System) (n : ℕ) (load : Option Loaded) : System :=
  { s with loads := Function.update s.loads n load }

/-- The store of `r` can be locked. -/
def unlocked (s : System) (r : ℕ) : Bool := (s.stores r).lock.isNone

def modifyFlow (s : System) (r flow : ℕ) (f : OAuthState → OAuthState) : System :=
  s.setFlows r (Function.update (s.stores r).flows flow (((s.stores r).flows flow).map f))

/-- The start of a flow: the local part under the lock, and the new flow's number. -/
def begin (s : System) (n r : ℕ) (flows : ℕ → Option OAuthState) (state : OAuthState) : System :=
  { (s.setFlows r (rememberFlow flows s.next state s.clock)).setStart n
      (some ⟨r, s.next, state, .persisting⟩) with next := s.next + 1 }

/-- The `finally` of `_poll_device_tokens`. -/
def endTask (s : System) (p : ℕ) (task : PollTask) : System :=
  (s.modifyFlow task.replica task.flow fun state =>
    if state.pollTask = some p then { state with pollTask := none } else state).setTask p none

/-- A status write of the flow table. -/
def writeStatus (s : System) (flow : ℕ) (status : FlowStatus) (errorMessage : Option String) :
    System :=
  { s with rows := (setStatus s.rows flow status errorMessage s.clock).1 }

end System

/-- The row of a start. -/
def OAuthState.toRow (state : OAuthState) : FlowRow where
  method := state.method
  deviceAuthId := state.deviceAuthId
  userCode := state.userCode
  expiresAt := state.expiresAt

/-- `_ensure_device_poll_task_locked` finds all it needs. -/
def OAuthState.pollable (state : OAuthState) : Option ℤ :=
  if state.deviceAuthId.getD "" ≠ "" ∧ state.userCode.getD "" ≠ "" then
    state.expiresAt.filter fun expires => decide (expires ≠ 0)
  else none

/-! ## Steps -/

section Steps

variable (s : System)

/-- `_start_device_flow` up to its first await under the lock, and `_start_browser_flow`. -/
def startStep : Act → Option System
  | .startDevice n r deviceAuthId userCode expiresIn =>
    if (s.starts n).isNone ∧ s.unlocked r then
      some (s.begin n r (removePendingDeviceFlows (s.stores r).flows)
        { object := s.next
          method := .device
          deviceAuthId := some deviceAuthId
          userCode := some userCode
          expiresAt := some (s.clock + expiresIn) })
    else none
  | .startBrowser n r expiresIn =>
    if (s.starts n).isNone ∧ s.unlocked r then
      some (s.begin n r (s.stores r).flows
        { object := s.next, method := .browser, expiresAt := some (s.clock + expiresIn) })
    else none
  | .persistRow n =>
    match s.starts n with
    | some ⟨r, flow, state, .persisting⟩ =>
      if (s.rows.get flow).isSome then some (s.setStart n none)
      else
        let s := { s with rows := s.rows.set flow state.toRow }
        match state.method with
        | .device => some (s.setStart n (some ⟨r, flow, state, .checking⟩))
        | .browser => some (s.setStart n none)
    | _ => none
  | .check n =>
    match s.starts n with
    | some ⟨r, flow, state, .checking⟩ =>
      if s.unlocked r then
        if ((s.stores r).flows flow).map (·.object) = some state.object then
          some ((s.setLock r (some n)).setStart n (some ⟨r, flow, state, .claiming⟩))
        else some (s.setStart n none)
      else none
    | _ => none
  | .claim n =>
    match s.starts n with
    | some ⟨r, flow, state, .claiming⟩ =>
      some ({ s with slot := claimDeviceSlot s.slot flow }.setStart n
        (some ⟨r, flow, state, .claimed⟩))
    | _ => none
  | .ensurePollTask n =>
    match s.starts n with
    | some ⟨r, flow, _, .claimed⟩ =>
      let released := (s.setLock r none).setStart n none
      match (s.stores r).flows flow with
      | some state =>
        match state.pollTask, state.pollable with
        | none, some expires =>
          some { (released.modifyFlow r flow fun state =>
              { state with pollTask := some s.next }).setTask s.next
                (some ⟨r, flow, expires, .polling⟩) with next := s.next + 1 }
        | _, _ => some released
      | none => some released
    | _ => none
  | .abandonStart n =>
    match s.starts n with
    | some ⟨r, _, _, _⟩ =>
      if (s.stores r).lock = some n then some ((s.setLock r none).setStart n none)
      else some (s.setStart n none)
    | none => none
  | _ => none

/-- `_poll_device_tokens`. -/
def pollStep : Act → Option System
  | .pollTokens p =>
    match s.tasks p with
    | some ⟨r, flow, expires, .polling⟩ => some (s.setTask p (some ⟨r, flow, expires, .consuming⟩))
    | _ => none
  | .pollExpired p =>
    match s.tasks p with
    | some ⟨r, flow, expires, .polling⟩ =>
      if expires ≤ s.clock then
        some (s.setTask p (some ⟨r, flow, expires, .closing "Device code expired."⟩))
      else none
    | _ => none
  | .pollError p message =>
    match s.tasks p with
    | some ⟨r, flow, expires, .polling⟩ =>
      some (s.setTask p (some ⟨r, flow, expires, .closing message⟩))
    -- `consumed or await …`: the slot was consumed before the account was to be saved
    | some ⟨r, flow, expires, .persisting⟩ =>
      some (s.setTask p (some ⟨r, flow, expires, .writingError message⟩))
    | _ => none
  | .pollConsume p =>
    match s.tasks p with
    | some task =>
      let (slot, consumed) := consumeDeviceSlot s.slot task.flow
      match task.stage with
      | .consuming =>
        if consumed then
          some ({ s with slot := slot }.setTask p (some { task with stage := .persisting }))
        else some (s.endTask p task)
      | .closing message =>
        if consumed then
          some ({ s with slot := slot }.setTask p (some { task with stage := .writingError message }))
        else some (s.endTask p task)
      | _ => none
    | none => none
  | .pollPersist p =>
    match s.tasks p with
    | some ⟨r, flow, expires, .persisting⟩ =>
      some (s.setTask p (some ⟨r, flow, expires, .settling⟩))
    | _ => none
  | .pollSettle p =>
    match s.tasks p with
    | some ⟨r, flow, expires, .settling⟩ =>
      if s.unlocked r then
        some ((s.modifyFlow r flow fun state => state.withStatus .success none s.clock).setTask p
          (some ⟨r, flow, expires, .writingSuccess⟩))
      else none
    | some ⟨r, flow, expires, .settlingError message⟩ =>
      if s.unlocked r then
        some ((s.modifyFlow r flow fun state =>
          state.withStatus .error (some message) s.clock).endTask p
            ⟨r, flow, expires, .settlingError message⟩)
      else none
    | _ => none
  | .pollWrite p =>
    match s.tasks p with
    | some ⟨r, flow, expires, .writingSuccess⟩ =>
      some ((s.writeStatus flow .success none).endTask p ⟨r, flow, expires, .writingSuccess⟩)
    | some ⟨r, flow, expires, .writingError message⟩ =>
      let s' := s.writeStatus flow .error (some message)
      if (setStatus s.rows flow .error (some message) s.clock).2 then
        some (s'.setTask p (some ⟨r, flow, expires, .settlingError message⟩))
      else some (s'.endTask p ⟨r, flow, expires, .writingError message⟩)
    | _ => none
  | .pollStop p =>
    match s.tasks p with
    | some task => some (s.endTask p task)
    | none => none
  | _ => none

/-- Status calls, `/complete`, and what else drops flows from a store. -/
def storeStep : Act → Option System
  | .load n r flow =>
    if (s.loads n).isNone then
      some (s.setLoad n (some ⟨r, flow, liveRow s.rows flow s.clock⟩))
    else none
  | .reconcile n =>
    match s.loads n with
    | some ⟨r, flow, record⟩ =>
      if s.unlocked r then
        some { (s.setFlows r (reconcileFlow (s.stores r).flows flow s.next record s.clock)).setLoad
          n none with next := s.next + 1 }
      else none
    | none => none
  | .complete r flow deviceAuthId userCode =>
    if s.unlocked r then
      some (s.modifyFlow r flow fun state =>
        { state with
          deviceAuthId := if deviceAuthId.getD "" ≠ "" then deviceAuthId else state.deviceAuthId
          userCode := if userCode.getD "" ≠ "" then userCode else state.userCode })
    else none
  | .forget r flow =>
    -- `prune_terminal_flows_locked`, and the pruning of expired browser flows
    if s.unlocked r ∧ ((s.stores r).flows flow).any fun state =>
        state.status.terminal || decide (state.method = .browser) &&
          state.expiresAt.any fun expires => decide (expires ≤ s.clock) then
      some (s.setFlows r (Function.update (s.stores r).flows flow none))
    else none
  | .cleanup r => if s.unlocked r then some (s.setFlows r fun _ => none) else none
  | _ => none

/-- `manual_callback` and `_handle_callback`; a device flow has no state token. -/
def callbackStep : Act → Option System
  | .callback n r flow =>
    if (s.callbacks n).isNone ∧ s.unlocked r ∧ ((s.stores r).flows flow).any fun state =>
        decide (state.method = .browser) && !state.status.terminal then
      some (s.setCallback n (some ⟨r, flow, .exchanging⟩))
    else none
  | .callbackPersist n =>
    match s.callbacks n with
    | some ⟨r, flow, .exchanging⟩ => some (s.setCallback n (some ⟨r, flow, .settling⟩))
    | _ => none
  | .callbackSettle n =>
    match s.callbacks n with
    | some ⟨r, flow, .settling⟩ =>
      if s.unlocked r then
        some ((s.modifyFlow r flow fun state => state.withStatus .success none s.clock).setCallback
          n (some ⟨r, flow, .writingSuccess⟩))
      else none
    | some ⟨r, flow, .settlingError message⟩ =>
      if s.unlocked r then
        some ((s.modifyFlow r flow fun state =>
          state.withStatus .error (some message) s.clock).setCallback n none)
      else none
    | _ => none
  | .callbackSuccess n =>
    match s.callbacks n with
    | some ⟨_, flow, .writingSuccess⟩ =>
      some ((s.writeStatus flow .success none).setCallback n none)
    | _ => none
  | .callbackError n message =>
    match s.callbacks n with
    | some ⟨r, flow, .exchanging⟩ =>
      let stage := if (setStatus s.rows flow .error (some message) s.clock).2 then
          some ⟨r, flow, .settlingError message⟩
        else none
      some ((s.writeStatus flow .error (some message)).setCallback n stage)
    | _ => none
  | .callbackStop n => some (s.setCallback n none)
  | _ => none

def oauthStep : Act → Option System
  | .tick now => if s.clock ≤ now then some { s with clock := now } else none
  | .purge ranked =>
    if Ranks s.rows s.clock ranked then some { s with rows := purgeExpired s.rows s.clock ranked }
    else none
  | act =>
    (startStep s act).or ((pollStep s act).or ((storeStep s act).or (callbackStep s act)))

end Steps

/-! ## The log -/

/-- `claimed` holds the flow the slot named before. -/
inductive FlowEvent where
  | claimed (flow : ℕ) (replaced : Option ℕ)
  | consumed (p flow : ℕ)
  | persisted (p flow : ℕ)
  | wrote (p flow : ℕ) (status : FlowStatus)
  deriving DecidableEq

def eventsOf (s : System) : Act → List FlowEvent
  | .claim n =>
    match s.starts n with
    | some ⟨_, flow, _, .claiming⟩ => [.claimed flow (s.slot.map (·.flow))]
    | _ => []
  | .pollConsume p =>
    match s.tasks p with
    | some ⟨_, flow, _, .consuming⟩ | some ⟨_, flow, _, .closing _⟩ =>
      if (consumeDeviceSlot s.slot flow).2 then [.consumed p flow] else []
    | _ => []
  | .pollPersist p =>
    match s.tasks p with
    | some ⟨_, flow, _, .persisting⟩ => [.persisted p flow]
    | _ => []
  | .pollSettle p | .pollWrite p =>
    match s.tasks p with
    | some ⟨_, flow, _, .settling⟩ | some ⟨_, flow, _, .writingSuccess⟩ => [.wrote p flow .success]
    | some ⟨_, flow, _, .writingError _⟩ | some ⟨_, flow, _, .settlingError _⟩ =>
      [.wrote p flow .error]
    | _ => []
  | _ => []

def noteFlow (s : System) (act : Act) (_ : System) (log : List FlowEvent) : List FlowEvent :=
  eventsOf s act ++ log

/-- Before any start: no flow, no row, no slot. -/
def Fresh (x : System × List FlowEvent) : Prop :=
  x.1.rows.items = [] ∧ x.1.slot = none ∧ (∀ n, x.1.starts n = none) ∧ (∀ p, x.1.tasks p = none) ∧
    x.2 = []

end DeviceOauth
