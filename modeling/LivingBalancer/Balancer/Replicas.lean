import LivingBalancer.Balancer.Calls

/-!
# Replicas over one accounts table

The step function of the whole system. `Act.on` is a step of one replica's event
loop; `Act.write` is any other writer of an account row (an operator, the refresh
path, an import); `Act.advance` moves the clock. The runtime lock is taken and
given back inside one step, because no critical section awaits; a task that finds
it taken waits, and `SelectPc.releasing` is that wait inside a release.
-/

namespace Balancer

/-- The four columns `update_status` writes. -/
structure StatusColumns where
  status : AccountStatus
  deactivationReason : Option String
  resetAt : Option Int
  blockedAt : Option Int
  deriving DecidableEq

def Account.columns (a : Account) : StatusColumns :=
  ⟨a.status, a.deactivationReason, a.resetAt, a.blockedAt⟩

def Account.withColumns (a : Account) (w : StatusColumns) : Account :=
  { a with
    status := w.status
    deactivationReason := w.deactivationReason
    resetAt := w.resetAt
    blockedAt := w.blockedAt }

def stateColumns (s : AccountState) : StatusColumns :=
  ⟨s.status, s.deactivationReason, epochSeconds s.resetAt, epochSeconds s.blockedAt⟩

/-- The accounts table by primary key. -/
abbrev Rows := String → Option Account

def updateStatus (rows : Rows) (id : String) (w : StatusColumns) : Rows :=
  fun x => if x = id then (rows x).map (·.withColumns w) else rows x

/-- `update_status_if_current`, and whether a row matched. -/
def updateStatusIfCurrent (rows : Rows) (id : String) (w expected : StatusColumns)
    (expectedRefreshToken : Option String) : Rows × Bool :=
  match rows id with
  | none => (rows, false)
  | some row =>
    if row.columns = expected ∧
        (expectedRefreshToken = none ∨ expectedRefreshToken = some row.refreshTokenEncrypted) then
      (updateStatus rows id w, true)
    else (rows, false)

/-- `_persist_state`: an unguarded write of whatever differs from the caller's snapshot. -/
def persistState (rows : Rows) (account : Account) (state : AccountState) : Rows :=
  if account.columns = stateColumns state then rows
  else updateStatus rows account.id (stateColumns state)

/-- `_persist_state_if_current`: the same write, compared and set against the snapshot. -/
def persistStateIfCurrent (rows : Rows) (account : Account) (state : AccountState)
    (expectedRefreshToken : Option String) : Rows × Bool :=
  if account.columns = stateColumns state then (rows, true)
  else updateStatusIfCurrent rows account.id (stateColumns state) account.columns
    expectedRefreshToken

/-- A mark between its runtime sync and its row write; it holds the account lock. -/
structure MarkCall where
  mark : Mark
  account : Account
  state : AccountState

def MarkCall.persist (m : MarkCall) (rows : Rows) : Rows :=
  match m.mark with
  | .rateLimit _ _ | .quotaExceeded _ => persistState rows m.account m.state
  | .permanentFailure _ =>
    (persistStateIfCurrent rows m.account m.state (some m.account.refreshTokenEncrypted)).1
  | .errors _ => (persistStateIfCurrent rows m.account m.state none).1

/-- The runtime values a health mark writes. -/
structure HealthSignal where
  resetAt : Option ℚ
  cooldownUntil : Option ℚ
  blockedAt : Option ℚ
  lastErrorAt : Option ℚ
  errorCount : Int
  deriving DecidableEq

def runtimeSignal (rt : RuntimeState) : HealthSignal :=
  ⟨rt.resetAt, rt.cooldownUntil, rt.blockedAt, rt.lastErrorAt, rt.errorCount⟩

def stateSignal (s : AccountState) : HealthSignal :=
  ⟨s.resetAt, s.cooldownUntil, s.blockedAt, s.lastErrorAt, s.errorCount⟩

/-- One replica. `observed`, `signals` and `signalCount` are histories: the blocks its own
rate-limit marks set, and the last health signal written for each account. -/
structure Replica where
  pool : Pool
  locked : Bool
  accountLocks : List String
  cacheGeneration : Nat
  selects : Nat → Option (SelectCall × SelectPc)
  builtAt : Nat → Nat
  marks : Nat → Option MarkCall
  observed : List (String × Int)
  signals : String → Option (Nat × HealthSignal)
  signalCount : Nat

def Replica.initial : Replica where
  pool := .empty
  locked := false
  accountLocks := []
  cacheGeneration := 0
  selects := fun _ => none
  builtAt := fun _ => 0
  marks := fun _ => none
  observed := []
  signals := fun _ => none
  signalCount := 0

inductive ReplicaAct where
  | start (call : Nat) (args : SelectArgs)
  | loaded (call : Nat) (inputs : SelectionInputs)
  | enter (call : Nat) (monotonic : ℚ) (leaseId : String)
  | choose (call : Nat) (earlier : ℚ) (existing : Option String)
  | commit (call : Nat) (monotonic : ℚ) (leaseId : String)
  | persist (call : Nat)
  | settle (call : Nat)
  | resume (call : Nat)
  | abort (call : Nat) (cancelled : Bool)
  | acquireLease (accountId : String) (kind : LeaseKind) (estimatedTokens : ℚ)
      (caps : AccountConcurrencyCaps) (monotonic : ℚ) (leaseId : String)
  | releaseLease (lease : AccountLease)
  | admission (inputs : SelectionInputs) (monotonic : ℚ)
  | mark (call : Nat) (account : Account) (mark : Mark)
  | markPersist (call : Nat)
  | markAbort (call : Nat)
  | recordSuccess (accountId : String)
  | invalidate

namespace Replica

def set (r : Replica) (call : Nat) (c : SelectCall) (pc : SelectPc) : Replica :=
  { r with selects := fun x => if x = call then some (c, pc) else r.selects x }

def withPool (r : Replica) (p : Pool) : Replica := { r with pool := p }

/-- Run the body of `async with self._runtime_lock`, or find the lock taken. -/
def critical {α : Type} (r : Replica) (body : Pool → α × Pool) : Option (α × Replica) :=
  if r.locked then none
  else
    let taken := { r with locked := true }
    let (result, p) := body taken.pool
    some (result, { taken with pool := p, locked := false })

/-- `release_account_lease(selected_lease)`, which takes the lock only for a lease. -/
def giveBack (r : Replica) (lease : Option AccountLease) : Option Replica :=
  match lease with
  | none => some r
  | some lease => (r.critical fun p => ((), p.release lease)).map (·.2)

/-- The continuation of a call after its lease went back. -/
def afterRelease (r : Replica) (call : Nat) (c : SelectCall) (next : AfterRelease) : Replica :=
  let c := { c with lease := none }
  match next with
  | .stale =>
    if maxSelectionAttempts ≤ c.attempt then
      let c := { c with snapshot := none, errorMessage := none }
      r.set call c (.done (.returned (finishSelection c)))
    else r.set call c .loading
  | .generationChanged => r.set call c .loading
  | .aborted true => r.set call c (.done .cancelled)
  | .aborted false => r.set call c (.done .raised)

def releaseAnd (r : Replica) (call : Nat) (c : SelectCall) (next : AfterRelease) : Replica :=
  match r.giveBack c.lease with
  | some r => r.afterRelease call c next
  | none => r.set call c (.releasing next)

def signal (r : Replica) (accountId : String) : Replica :=
  { r with
    signals := fun x => if x = accountId then
        some (r.signalCount, runtimeSignal (r.pool.get accountId))
      else r.signals x
    signalCount := r.signalCount + 1 }

def unlockAccount (r : Replica) (accountId : String) : Replica :=
  { r with accountLocks := r.accountLocks.filter fun x => decide (x ≠ accountId) }

def emptyInputs : SelectionInputs :=
  ⟨[], fun _ => none, fun _ => none, fun _ => none, none, none, none, [], none, List.nodup_nil⟩

def newCall (args : SelectArgs) : SelectCall :=
  ⟨args, emptyInputs, 0, [], none, [], none, none, none, false, [], 0⟩

/-- The critical section a call enters at the head of its loop. -/
def enterSection (settings : Settings) (now monotonic : ℚ) (leaseId : String) (r : Replica)
    (call : Nat) (c : SelectCall) : Option Replica :=
  match c.args.sticky with
  | none =>
    (r.critical (selectSection settings now monotonic leaseId c)).map fun (c, r) =>
      let c := { c with
        prePersistRuntime := r.pool.runtime.items.map fun e => (e.1, probeRuntime e.2)
        prePersistGeneration := r.cacheGeneration }
      r.set call c (.persisting c.built [])
  | some _ =>
    (r.critical (stickySection settings now monotonic c)).map fun (c, r) =>
      { r.set call c .choosing with
        builtAt := fun x => if x = call then r.signalCount else r.builtAt x }

def settleCall (r : Replica) (call : Nat) (c : SelectCall) (stale : List String) : Replica :=
  match afterPersist c r.pool r.cacheGeneration stale with
  | .release next => r.releaseAnd call c next
  | .reload => r.set call c .loading
  | .finish => r.set call c (.done (.returned (finishSelection c)))

/-- An exception or a cancellation delivered at the await a call is suspended in. -/
def abortCall (r : Replica) (call : Nat) (c : SelectCall) (pc : SelectPc) (cancelled : Bool) :
    Option Replica :=
  let exit := if cancelled then SelectExit.cancelled else .raised
  match pc with
  | .done _ => none
  | .persisting _ _ => some (r.releaseAnd call c (.aborted cancelled))
  | _ => some (r.set call c (.done exit))

def acquireLease (settings : Settings) (now monotonic : ℚ) (r : Replica) (accountId : String)
    (kind : LeaseKind) (estimatedTokens : ℚ) (caps : AccountConcurrencyCaps) (leaseId : String) :
    Option Replica :=
  (r.critical fun p =>
    let p := (p.reclaimStale settings monotonic).update accountId id
    if 0 < caps.limit kind ∧ caps.limit kind ≤ runtimeInflight kind (p.get accountId) then ((), p)
    else ((), p.acquire (newLease leaseId accountId kind estimatedTokens monotonic) now)).map (·.2)

/-- The runtime part of a mark: it runs under the account lock up to its row write. -/
def startMark (now : ℚ) (r : Replica) (call : Nat) (account : Account) (mark : Mark) : Replica :=
  let state := mark.apply now (stateFor account (r.pool.get account.id))
  let r := { r with
    pool := r.pool.update account.id (markRuntime now mark account)
    accountLocks := account.id :: r.accountLocks
    marks := fun x => if x = call then some ⟨mark, account, state⟩ else r.marks x
    observed := match mark with
      | .rateLimit _ _ => (account.id, truncInt now) :: r.observed
      | _ => r.observed }
  r.signal account.id

def endMark (r : Replica) (call : Nat) (m : MarkCall) : Replica :=
  { r.unlockAccount m.account.id with
    marks := fun x => if x = call then none else r.marks x }

/-- `record_success`: it writes a signal only when errors were counted. -/
def success (r : Replica) (accountId : String) : Replica :=
  let counted := decide (0 < (r.pool.get accountId).errorCount)
  let r := r.withPool (r.pool.recordSuccess accountId)
  if counted then r.signal accountId else r

def step (settings : Settings) (now : ℚ) (rows : Rows) (r : Replica) :
    ReplicaAct → Option (Replica × Rows)
  | .start call args =>
    match r.selects call with
    | none => some (r.set call (newCall args) .loading, rows)
    | some _ => none
  | .loaded call inputs =>
    match r.selects call with
    | some (c, .loading) =>
      if inputs.errorCode.isSome ∧ inputs.accounts = [] then
        some (r.set call c
          (.done (.returned ⟨none, inputs.errorMessage, inputs.errorCode, none⟩)), rows)
      else
        let c := { c with
          inputs := inputs
          snapshot := none
          errorMessage := none
          built := [] }
        some (r.set call c .ready, rows)
    | _ => none
  | .enter call monotonic leaseId =>
    match r.selects call with
    | some (c, .ready) =>
      if leaseId ∈ r.pool.issued then none
      else (r.enterSection settings now monotonic leaseId call c).map (·, rows)
    | _ => none
  | .choose call earlier existing =>
    match r.selects call with
    | some (c, .choosing) =>
      match c.args.sticky with
      | none => none
      | some sticky =>
        if earlier ≤ now then
          match chooseSticky sticky existing earlier now c with
          | none => some (r.set call c (.done .raised), rows)
          | some (c, result) => some (r.set call c (.chosen result), rows)
        else none
    | _ => none
  | .commit call monotonic leaseId =>
    match r.selects call with
    | some (c, .chosen result) =>
      if leaseId ∈ r.pool.issued then none
      else
        (r.critical (concludeSelection true now monotonic leaseId c result)).map fun (c, r) =>
          (r.set call c (.persisting c.built []), rows)
    | _ => none
  | .persist call =>
    match r.selects call with
    | some (c, .persisting ((account, state) :: rest) stale) =>
      if state.ignoreStandardQuota then some (r.set call c (.persisting rest stale), rows)
      else
        let (rows, persisted) := persistStateIfCurrent rows account state none
        some (r.set call c (.persisting rest (if persisted then stale else account.id :: stale)),
          rows)
    | _ => none
  | .settle call =>
    match r.selects call with
    | some (c, .persisting [] stale) => some (r.settleCall call c stale, rows)
    | _ => none
  | .resume call =>
    match r.selects call with
    | some (c, .releasing next) => some (r.releaseAnd call c next, rows)
    | _ => none
  | .abort call cancelled =>
    match r.selects call with
    | some (c, pc) => (r.abortCall call c pc cancelled).map (·, rows)
    | none => none
  | .acquireLease accountId kind estimatedTokens caps monotonic leaseId =>
    if leaseId ∈ r.pool.issued then none
    else
      (r.acquireLease settings now monotonic accountId kind estimatedTokens caps leaseId).map
        (·, rows)
  | .releaseLease lease => (r.giveBack (some lease)).map (·, rows)
  | .admission inputs monotonic =>
    (r.critical fun p => ((), (openSection settings now monotonic inputs p).2)).map
      fun (_, r) => (r, rows)
  | .mark call account mark =>
    if (r.marks call).isNone ∧ account.id ∉ r.accountLocks ∧ mark.takesEffect then
      some (r.startMark now call account mark, rows)
    else none
  | .markPersist call =>
    match r.marks call with
    | none => none
    | some m =>
      let r := r.endMark call m
      let r := match m.mark with
        | .errors _ => r
        | _ => { r with cacheGeneration := r.cacheGeneration + 1 }
      some (r, m.persist rows)
  | .markAbort call =>
    match r.marks call with
    | none => none
    | some m => some (r.endMark call m, rows)
  | .recordSuccess accountId =>
    if accountId ∈ r.accountLocks then none else some (r.success accountId, rows)
  | .invalidate => some ({ r with cacheGeneration := r.cacheGeneration + 1 }, rows)

end Replica

structure World where
  now : ℚ
  rows : Rows
  replicas : Nat → Replica

inductive Act where
  | advance (now : ℚ)
  | write (id : String) (row : Option Account)
  | on (replica : Nat) (act : ReplicaAct)

def World.step (settings : Settings) (w : World) : Act → Option World
  | .advance now => if w.now ≤ now then some { w with now := now } else none
  | .write id row =>
    if row.all fun a => a.id == id then
      some { w with rows := fun x => if x = id then row else w.rows x }
    else none
  | .on i act =>
    ((w.replicas i).step settings w.now w.rows act).map fun (r, rows) =>
      { w with
        rows := rows
        replicas := fun x => if x = i then r else w.replicas x }

/-- Every replica has just started; the clock and the table are arbitrary. -/
def World.Initial (w : World) : Prop := ∀ i, w.replicas i = .initial

/-- A strategy that takes the first account of its pool. -/
def firstStrategy : Strategy := ⟨fun _ _ pool h => ⟨pool.head h, List.head_mem h⟩⟩

/-- A plus account with nothing against it. -/
def healthyAccount (id : String) : Account :=
  ⟨id, "plus", "normal", "", .active, none, none, none⟩

/-- Inputs that hold one account and no usage rows. -/
def singleInput (account : Account) : SelectionInputs where
  accounts := [account]
  latestPrimary := fun _ => none
  latestSecondary := fun _ => none
  latestMonthly := fun _ => none
  runtimeAccounts := none
  errorMessage := none
  errorCode := none
  ignoreStandardQuotaAccountIds := []
  routingPolicyOverride := none
  distinct := List.nodup_singleton _

/-- A streaming request with a stream cap of `limit`. -/
def streamArgs (limit : Int) (sticky : Option StickyRequest) : SelectArgs where
  sticky := sticky
  route := { strategy := firstStrategy }
  leaseKind := some .stream
  estimatedLeaseTokens := 10
  streamReserveSlots := 0
  caps := { responseCreateLimit := 0, streamLimit := limit }

def idleWorld (now : ℚ) (rows : List Account) : World where
  now := now
  rows := fun id => rows.find? fun a => a.id == id
  replicas := fun _ => .initial

end Balancer
