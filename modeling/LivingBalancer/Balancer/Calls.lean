import LivingBalancer.Balancer.Runtime
import LivingBalancer.Balancer.Stickiness
import LivingBalancer.Lib.Runs

/-!
# Calls in flight on any number of replicas

Every step runs one task from one suspension point to the next, so the steps are
the interleavings of the event loops. A `select_account` call keeps its locals in
`SelectCall`; its program counter names the await it is suspended in. The rows of
the accounts table are shared by all replicas and written one statement at a time.

`_load_selection_inputs` and the sticky repository answer arbitrarily: the inputs
and the pinned account are part of the action. Degradation flags, metrics and logs
are left out. A loop head that the source reaches without sleeping gets a
suspension point too, which only adds interleavings.
-/

namespace Balancer

structure AccountConcurrencyCaps where
  responseCreateLimit : Int
  streamLimit : Int
  configuredResponseCreateLimit : Option Int := none
  configuredStreamLimit : Option Int := none
  replicaCount : Int := 1

def AccountConcurrencyCaps.limit (caps : AccountConcurrencyCaps) : LeaseKind → Int
  | .responseCreate => caps.responseCreateLimit
  | .stream => caps.streamLimit

/-- The number of held leases at which an account is full for a request. -/
def effectiveCap (caps : AccountConcurrencyCaps) (streamReserveSlots : Int) : LeaseKind → Int
  | .responseCreate => caps.responseCreateLimit
  | .stream => max 1 (caps.streamLimit - max 0 streamReserveSlots)

def inflight (kind : LeaseKind) (s : AccountState) : Int :=
  match kind with
  | .responseCreate => s.inflightResponseCreates
  | .stream => s.inflightStreams

def runtimeInflight (kind : LeaseKind) (rt : RuntimeState) : Int :=
  match kind with
  | .responseCreate => rt.inflightResponseCreates
  | .stream => rt.inflightStreams

/-- Whether `_filter_states_for_account_caps` keeps a state. -/
def underAccountCap (caps : AccountConcurrencyCaps) (leaseKind : Option LeaseKind)
    (streamReserveSlots : Int) (s : AccountState) : Bool :=
  match leaseKind with
  | none => true
  | some kind =>
    !(decide (0 < caps.limit kind) &&
      decide (effectiveCap caps streamReserveSlots kind ≤ inflight kind s))

/-- `_account_lease_allowed_locked`. -/
def accountLeaseAllowed (caps : AccountConcurrencyCaps) (kind : LeaseKind)
    (streamReserveSlots : Int) (rt : RuntimeState) : Bool :=
  decide (caps.limit kind ≤ 0) ||
    decide (runtimeInflight kind rt < effectiveCap caps streamReserveSlots kind)

def accountCapErrorCode : Option LeaseKind → Option String
  | some .responseCreate => some "account_response_create_cap"
  | some .stream => some "account_stream_cap"
  | none => none

def accountCapErrorMessage (caps : AccountConcurrencyCaps) : Option LeaseKind → String
  | some .responseCreate =>
    match decide (1 < caps.replicaCount), caps.configuredResponseCreateLimit with
    | true, some configured =>
      "Account response-create capacity is exhausted; this replica's share is " ++
        toString caps.responseCreateLimit ++ " of the per-account limit " ++ toString configured ++
        " across " ++ toString caps.replicaCount ++ " replicas"
    | _, _ => "Account response-create capacity is exhausted; per-account limit is " ++
        toString caps.responseCreateLimit
  | some .stream =>
    let advice := ". Increase the dashboard stream limit or wait for active streams to finish."
    match decide (1 < caps.replicaCount), caps.configuredStreamLimit with
    | true, some configured =>
      "Account stream capacity is exhausted; this replica's share is " ++
        toString caps.streamLimit ++ " of the per-account limit " ++ toString configured ++
        " across " ++ toString caps.replicaCount ++ " replicas" ++ advice
    | _, _ => "Account stream capacity is exhausted; per-account limit is " ++
        toString caps.streamLimit ++ advice
  | none => "Account capacity is exhausted"

structure SelectArgs where
  sticky : Option StickyRequest
  route : RouteConfig
  leaseKind : Option LeaseKind
  estimatedLeaseTokens : ℚ
  streamReserveSlots : Int
  caps : AccountConcurrencyCaps

structure AccountSelection where
  account : Option Account
  errorMessage : Option String
  errorCode : Option String
  lease : Option AccountLease

/-- The runtime fields compared before and after persisting. -/
structure RuntimeProbe where
  resetAt : Option ℚ
  cooldownUntil : Option ℚ
  errorCount : Int
  lastErrorAt : Option ℚ
  deriving DecidableEq

def probeRuntime (rt : RuntimeState) : RuntimeProbe :=
  ⟨rt.resetAt, rt.cooldownUntil, rt.errorCount, rt.lastErrorAt⟩

/-- The locals of a `select_account` call. `acquired` is a history: the ids of all leases
the call took. -/
structure SelectCall where
  args : SelectArgs
  inputs : SelectionInputs
  attempt : Nat
  built : List (Account × AccountState)
  lease : Option AccountLease
  acquired : List String
  snapshot : Option Account
  errorMessage : Option String
  errorCode : Option String
  hardSticky : Bool
  prePersistRuntime : List (String × RuntimeProbe)
  prePersistGeneration : Nat

def maxSelectionAttempts : Nat := 4

/-- Why a lease is given back before the call goes on. -/
inductive AfterRelease where
  | stale
  | generationChanged
  | aborted (cancelled : Bool)
  deriving DecidableEq

inductive SelectExit where
  | returned (selection : AccountSelection)
  | raised
  | cancelled

/-- The await a call is suspended in. -/
inductive SelectPc where
  | loading
  | ready
  | choosing
  | chosen (result : SelectionResult)
  | persisting (rest : List (Account × AccountState)) (stale : List String)
  | releasing (next : AfterRelease)
  | done (exit : SelectExit)

/-- Put the rewritten entries of a filtered list back in their places. -/
def restore (p : AccountState → Bool) : List AccountState → List AccountState → List AccountState
  | [], _ => []
  | s :: rest, outs =>
    if p s then
      match outs with
      | o :: outs => o :: restore p rest outs
      | [] => s :: restore p rest []
    else s :: restore p rest outs

def replaceStates (built : List (Account × AccountState)) (states : List AccountState) :
    List (Account × AccountState) :=
  List.zipWith (fun entry s => (entry.1, s)) built states

/-- The chosen result is written over the state of the same account. -/
def adoptResult (chosen : AccountState) (entry : Account × AccountState) :
    Account × AccountState :=
  if entry.2.accountId = chosen.accountId then
    (entry.1, { entry.2 with
      status := chosen.status
      deactivationReason := chosen.deactivationReason })
  else entry

/-- The end of both critical sections: sync, snapshot and lease. Only the sticky branch
checks the cap here. -/
def concludeSelection (recheckCap : Bool) (now monotonic : ℚ) (leaseId : String) (c : SelectCall)
    (result : SelectionResult) (p : Pool) : SelectCall × Pool :=
  let p := p.syncStates (result.account.map (·.accountId)) now c.built
  match result.account with
  | none => ({ c with errorMessage := result.error.map (·.message) }, p)
  | some chosen =>
    match c.built.find? fun entry => entry.2.accountId == chosen.accountId with
    | none => ({ c with errorMessage := result.error.map (·.message) }, p)
    | some (account, state) =>
      let snapshot := { account with
        status := chosen.status
        deactivationReason := chosen.deactivationReason
        resetAt := epochSeconds state.resetAt }
      let c := { c with built := c.built.map (adoptResult chosen), snapshot := some snapshot }
      match c.args.leaseKind with
      | none => (c, p)
      | some kind =>
        if recheckCap ∧
            accountLeaseAllowed c.args.caps kind c.args.streamReserveSlots (p.get account.id) = false
        then
          ({ c with
              snapshot := none
              errorCode := accountCapErrorCode (some kind)
              errorMessage := some (accountCapErrorMessage c.args.caps (some kind)) }, p)
        else
          let lease := newLease leaseId account.id kind c.args.estimatedLeaseTokens monotonic
          ({ c with lease := some lease, acquired := leaseId :: c.acquired }, p.acquire lease now)

/-- Reclaim, prune and build: the start of both critical sections. -/
def openSection (settings : Settings) (now monotonic : ℚ) (inputs : SelectionInputs) (p : Pool) :
    List (Account × AccountState) × Pool :=
  ((p.reclaimStale settings monotonic).prune inputs.keptAccounts).buildStates settings now inputs
    inputs.accounts

def capExhausted (c : SelectCall) : SelectionResult :=
  ⟨none, some (.unavailable (accountCapErrorMessage c.args.caps c.args.leaseKind))⟩

def underCallCap (c : SelectCall) : AccountState → Bool :=
  underAccountCap c.args.caps c.args.leaseKind c.args.streamReserveSlots

/-- The critical section of the non-sticky branch. -/
def selectSection (settings : Settings) (now monotonic : ℚ) (leaseId : String) (c : SelectCall)
    (p : Pool) : SelectCall × Pool :=
  let (built, p) := openSection settings now monotonic c.inputs p
  let states := built.map Prod.snd
  let c := { c with attempt := c.attempt + 1 }
  if states ≠ [] ∧ states.filter (underCallCap c) = [] then
    concludeSelection false now monotonic leaseId
      { c with built := built, errorCode := accountCapErrorCode c.args.leaseKind }
      (capExhausted c) p
  else
    let out := selectAccountPreferringBudgetSafe c.args.route .routed false now
      (states.filter (underCallCap c))
    concludeSelection false now monotonic leaseId
      { c with
        built := replaceStates built (restore (underCallCap c) states out.states)
        errorCode := none }
      out.result p

/-- The first critical section of the sticky branch. -/
def stickySection (settings : Settings) (now monotonic : ℚ) (c : SelectCall) (p : Pool) :
    SelectCall × Pool :=
  let (built, p) := openSection settings now monotonic c.inputs p
  ({ c with attempt := c.attempt + 1, built := built }, p)

/-- The sticky choice between the two sections; `none` is its `ValueError`. -/
def chooseSticky (sticky : StickyRequest) (existing : Option String) (earlier now : ℚ)
    (c : SelectCall) : Option (SelectCall × SelectionResult) :=
  let hardSticky := sticky.kind == some .codexSession && sticky.key != "" && existing.isSome
  let keep := fun s => hardSticky || underCallCap c s
  let states := c.built.map Prod.snd
  if states ≠ [] ∧ states.filter keep = [] then
    some ({ c with hardSticky := hardSticky, errorCode := accountCapErrorCode c.args.leaseKind },
      capExhausted c)
  else
    (selectWithStickiness c.args.route sticky existing earlier now (c.built.map (·.1.id))
      (states.filter keep)).map fun out =>
      ({ c with
          hardSticky := hardSticky
          built := replaceStates c.built (restore keep states out.states)
          errorCode := none },
        out.result)

/-- The final `return` of a call. -/
def finishSelection (c : SelectCall) : AccountSelection :=
  match c.snapshot with
  | some account => ⟨some account, none, none, c.lease⟩
  | none =>
    if c.args.route.opportunistic ∧ c.errorMessage.getD "" ≠ "" then
      ⟨none, c.errorMessage, some "opportunistic_burn_window_closed", none⟩
    else if c.errorMessage = some "No available accounts" then
      ⟨none, some ("No available accounts. Service is operating in degraded mode: " ++
        "all upstream accounts are unavailable"), c.errorCode, none⟩
    else ⟨none, c.errorMessage, c.errorCode, none⟩

/-- What a call does once its states are persisted. -/
inductive AfterPersist where
  | release (next : AfterRelease)
  | reload
  | finish
  deriving DecidableEq

def runtimeRecovered (c : SelectCall) (p : Pool) : Bool :=
  c.prePersistRuntime.any fun entry => decide (probeRuntime (p.get entry.1) ≠ entry.2)

def afterPersist (c : SelectCall) (p : Pool) (cacheGeneration : Nat) (stale : List String) :
    AfterPersist :=
  match c.snapshot with
  | some account =>
    if account.id ∈ stale then .release .stale
    else if c.args.sticky = none ∧ cacheGeneration ≠ c.prePersistGeneration ∧
        c.attempt < maxSelectionAttempts then .release .generationChanged
    else .finish
  | none =>
    if c.args.sticky = none then
      if c.errorMessage = some "No available accounts" ∧ runtimeRecovered c p ∧
          c.attempt < maxSelectionAttempts then .reload
      else .finish
    else if c.errorCode.isSome ∧ c.hardSticky = false ∧ c.attempt < maxSelectionAttempts then
      .reload
    else .finish

end Balancer
