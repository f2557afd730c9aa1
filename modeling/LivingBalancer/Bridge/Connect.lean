import Mathlib.Data.Nat.Notation
import LivingBalancer.Lib.Runs

/-!
# Connecting and reconnecting a bridge session

`_create_http_bridge_session` and `_reconnect_http_bridge_session`, await by await. An event
says how the await that the call has reached ends; `penalized` is `_handle_proxy_error` or
`mark_permanent_failure`. A lease that is released is given back unless the wait for the lock of
the load balancer is cancelled. The sockets, the headers and the forced refresh are left out.
-/

namespace BridgeConnect

variable {Id : Type} [DecidableEq Id]

structure Lease (Id : Type) where
  number : ℕ
  accountId : Id
  deriving DecidableEq

/-- The leases that a call has obtained and those that it has released, the last ones first. -/
structure Books (Id : Type) where
  obtained : List (Lease Id) := []
  released : List (Lease Id) := []

namespace Books

def next (b : Books Id) (account : Id) : Lease Id := ⟨b.obtained.length + 1, account⟩

def obtain (b : Books Id) (lease : Lease Id) : Books Id :=
  { b with obtained := lease :: b.obtained }

def release (b : Books Id) (lease : Lease Id) : Books Id :=
  { b with released := lease :: b.released }

end Books

/-- What an await raises; `other` is a cancellation or any exception not named. -/
inductive Failure where
  | proxyError (status : ℕ)
  | refreshError (permanent : Bool)
  | transport
  | other
  deriving DecidableEq

/-- What an account selection meets: an exception, the API key's scope, the preferred account,
the choice among all accounts. -/
structure Selecting (Id : Type) where
  failure : Option Failure := none
  preferredScoped : Bool := true
  preferredFound : Bool := false
  found : Option Id := none
  localCap : Bool := false
  budgetLeft : Bool := true

/-- `_select_account_with_budget`: the preferred account, or where it may fall back another. -/
def selectAccountWithBudget (preferred : Option Id) (fallback : Bool) (excluded : List Id)
    (answer : Selecting Id) : Except Failure (Option Id) :=
  match answer.failure with
  | some failure => .error failure
  | none =>
    match preferred with
    | none => .ok (answer.found.filter fun account => !excluded.contains account)
    | some account =>
      let eligible := !excluded.contains account && answer.preferredScoped
      if eligible && answer.preferredFound then .ok (some account)
      else if fallback then .ok (answer.found.filter fun account => !excluded.contains account)
      else .ok none

inductive Event (Id : Type) where
  | started (failure : Option Failure)
  | selected (answer : Selecting Id)
  | connected (failure : Option Failure) (budgetLeft : Bool)
  | forced (failure : Option Failure)
  | penalized (failure : Option Failure) (budgetLeft : Bool)
  | released (cancelled : Bool)
  | recovered (result : Except Failure Bool) (excluded : List Id)
  | closed (cancelled : Bool)

/-- Where the exceptions of an account failure are handled. -/
inductive Handler where
  | outer
  | forced
  deriving DecidableEq

/-! ## `_create_http_bridge_session` -/

structure CreateArgs (Id : Type) where
  preferredAccountId : Option Id
  requirePreferredAccount : Bool
  fallbackOnPreferredAccountUnavailable : Bool

/-- `releasing` goes on with the loop, or raises when it is given a failure. -/
inductive CreatePc (Id : Type) where
  | starting
  | selecting
  | connecting (account : Id) (lease : Lease Id)
  | forcing (account : Id) (lease : Lease Id)
  | penalizing (account : Id) (lease : Lease Id) (handler : Handler) (cause : Failure)
  | releasing (lease : Lease Id) (raises : Option Failure)
  | returned (account : Id) (lease : Lease Id)
  | raised (failure : Failure)

structure CreateState (Id : Type) where
  excluded : List Id
  retrySameAccountOnce : Bool
  preferredCandidate : Option Id
  books : Books Id
  pc : CreatePc Id

namespace CreateState

def initial (args : CreateArgs Id) : CreateState Id where
  excluded := []
  retrySameAccountOnce := args.preferredAccountId.isSome
  preferredCandidate := args.preferredAccountId
  books := {}
  pc := .starting

def raise (s : CreateState Id) (failure : Failure) : CreateState Id :=
  { s with pc := .raised failure }

/-- The release of the selected lease, and an exception. -/
def releaseAndRaise (s : CreateState Id) (lease : Lease Id) (failure : Failure) :
    CreateState Id :=
  { s with pc := .releasing lease (some failure) }

/-- The release of the selected lease, and the next turn without the account. -/
def exclude (s : CreateState Id) (account : Id) (lease : Lease Id) : CreateState Id :=
  { s with
    excluded := account :: s.excluded
    preferredCandidate := none
    pc := .releasing lease none }

def onSelected (args : CreateArgs Id) (s : CreateState Id) (answer : Selecting Id) :
    CreateState Id :=
  match selectAccountWithBudget s.preferredCandidate args.fallbackOnPreferredAccountUnavailable
      s.excluded answer with
  | .error failure => s.raise failure
  | .ok none => s.raise (.proxyError (if answer.localCap then 429 else 503))
  | .ok (some account) =>
    let lease := s.books.next account
    let s := { s with books := s.books.obtain lease }
    if args.requirePreferredAccount && args.preferredAccountId.isSome &&
        args.preferredAccountId != some account then
      s.releaseAndRaise lease (.proxyError 502)
    else { s with pc := .connecting account lease }

/-- The preferred account failed with budget left: once more, not at all, or another account. -/
def retryPreferred (args : CreateArgs Id) (s : CreateState Id) (account : Id) (lease : Lease Id)
    (sameAgain : Bool) : CreateState Id :=
  if s.retrySameAccountOnce && sameAgain then
    { s with retrySameAccountOnce := false, pc := .releasing lease none }
  else if args.requirePreferredAccount then s.releaseAndRaise lease (.proxyError 503)
  else s.exclude account lease

def onRefreshError (args : CreateArgs Id) (s : CreateState Id) (account : Id) (lease : Lease Id)
    (permanent budgetLeft : Bool) : CreateState Id :=
  if args.preferredAccountId == some account && budgetLeft then
    s.retryPreferred args account lease (!permanent)
  else if permanent then s.releaseAndRaise lease (.proxyError 401)
  else s.releaseAndRaise lease (.proxyError 502)

def onTransport (args : CreateArgs Id) (s : CreateState Id) (account : Id) (lease : Lease Id)
    (budgetLeft : Bool) : CreateState Id :=
  if args.preferredAccountId == some account && budgetLeft then
    s.retryPreferred args account lease true
  else s.releaseAndRaise lease (.proxyError 502)

/-- The end of the two handlers of the forced refresh. -/
def onForcedFailure (args : CreateArgs Id) (s : CreateState Id) (account : Id) (lease : Lease Id)
    (cause : Failure) : CreateState Id :=
  if args.requirePreferredAccount && args.preferredAccountId == some account then
    s.releaseAndRaise lease cause
  else s.exclude account lease

def onConnected (args : CreateArgs Id) (s : CreateState Id) (account : Id) (lease : Lease Id)
    (budgetLeft : Bool) : Option Failure → CreateState Id
  | none => { s with pc := .returned account lease }
  | some (.proxyError status) =>
    if status ≠ 401 ∨ budgetLeft = false then s.releaseAndRaise lease (.proxyError status)
    else { s with pc := .forcing account lease }
  | some (.refreshError true) =>
    { s with pc := .penalizing account lease .outer (.refreshError true) }
  | some (.refreshError false) => s.onRefreshError args account lease false budgetLeft
  | some .transport => s.onTransport args account lease budgetLeft
  | some .other => s.releaseAndRaise lease .other

/-- The retry of a 401: what is neither a proxy error nor a refresh error leaves both `try`s. -/
def onForced (args : CreateArgs Id) (s : CreateState Id) (account : Id) (lease : Lease Id) :
    Option Failure → CreateState Id
  | none => { s with pc := .returned account lease }
  | some (.proxyError status) =>
    if status ≠ 401 then s.releaseAndRaise lease (.proxyError status)
    else { s with pc := .penalizing account lease .forced (.proxyError 401) }
  | some (.refreshError true) =>
    { s with pc := .penalizing account lease .forced (.refreshError true) }
  | some (.refreshError false) => s.onForcedFailure args account lease (.refreshError false)
  | some .transport => s.raise .transport
  | some .other => s.raise .other

def step (args : CreateArgs Id) (s : CreateState Id) (e : Event Id) : Option (CreateState Id) :=
  match s.pc, e with
  | .starting, .started none => some { s with pc := .selecting }
  | .starting, .started (some failure) => some (s.raise failure)
  | .selecting, .selected answer => some (s.onSelected args answer)
  | .connecting account lease, .connected failure budgetLeft =>
    some (s.onConnected args account lease budgetLeft failure)
  | .forcing account lease, .forced failure => some (s.onForced args account lease failure)
  | .penalizing _ _ _ _, .penalized (some failure) _ => some (s.raise failure)
  | .penalizing account lease .outer _, .penalized none budgetLeft =>
    some (s.onRefreshError args account lease true budgetLeft)
  | .penalizing account lease .forced cause, .penalized none _ =>
    some (s.onForcedFailure args account lease cause)
  | .releasing _ _, .released true => some (s.raise .other)
  | .releasing lease raises, .released false =>
    some
      { s with
        books := s.books.release lease
        pc := raises.elim .selecting .raised }
  | _, _ => none

end CreateState

/-! ## `_reconnect_http_bridge_session` -/

/-- The session and the request as the call finds them. -/
structure ReconnectArgs (Id : Type) where
  accountId : Id
  accountLease : Option (Lease Id)
  hardKey : Bool
  closeSkipsAccount : Bool
  requestExcluded : List Id
  forceRefreshAccountId : Option Id
  preferredAccountId : Option Id
  requireSameAccount : Bool
  requirePreferredAccount : Bool

namespace ReconnectArgs

variable (args : ReconnectArgs Id)

def requiredPreferredAccountId : Option Id :=
  if args.requirePreferredAccount then args.preferredAccountId else none

def hardCloseAccountBound : Bool :=
  args.hardKey && (args.closeSkipsAccount || args.requireSameAccount)

def skipSameAccount : Bool :=
  !args.hardKey && args.closeSkipsAccount && args.requiredPreferredAccountId.isNone

/-- The account that a selection is to prefer. -/
def preferredCandidate (excluded : List Id) (requestPreferred : Option Id) : Option Id :=
  if args.skipSameAccount then none
  else if args.hardCloseAccountBound && !excluded.contains args.accountId then some args.accountId
  else if args.requiredPreferredAccountId.isSome then args.requiredPreferredAccountId
  else if args.forceRefreshAccountId.isSome then args.forceRefreshAccountId
  else if requestPreferred.isSome then requestPreferred
  else if !excluded.contains args.accountId then some args.accountId
  else none

end ReconnectArgs

inductive ReconnectPc (Id : Type) where
  | starting
  | selecting
  | recovering (localCap : Bool)
  | connecting (account : Id) (lease : Option (Lease Id))
  | forcing (account : Id) (lease : Option (Lease Id))
  | penalizing (account : Id) (lease : Option (Lease Id)) (handler : Handler) (cause : Failure)
  | releasing (lease : Lease Id) (raises : Option Failure)
  | closing (account : Id) (lease : Option (Lease Id))
  | swapping (account : Id) (lease : Option (Lease Id)) (old : Lease Id)
  | returned
  | raised (failure : Failure)

/-- `accountId` and `accountLease` are those of the session. -/
structure ReconnectState (Id : Type) where
  accountId : Id
  accountLease : Option (Lease Id)
  requestPreferred : Option Id
  excluded : List Id
  retrySameAccountOnce : Bool
  preferredCandidate : Option Id
  books : Books Id
  pc : ReconnectPc Id

namespace ReconnectState

def initial (args : ReconnectArgs Id) : ReconnectState Id where
  accountId := args.accountId
  accountLease := args.accountLease
  requestPreferred := args.preferredAccountId
  excluded := args.requestExcluded
  retrySameAccountOnce := false
  preferredCandidate := none
  books := {}
  pc := .starting

def raise (s : ReconnectState Id) (failure : Failure) : ReconnectState Id :=
  { s with pc := .raised failure }

/-- `release_selected_account_lease`, and what follows it. -/
def releaseSelected (s : ReconnectState Id) (lease : Option (Lease Id))
    (raises : Option Failure) : ReconnectState Id :=
  match lease with
  | none => { s with pc := raises.elim .selecting .raised }
  | some held =>
    { s with
      accountLease := if s.accountLease = some held then none else s.accountLease
      pc := .releasing held raises }

/-- The checks on the excluded accounts, and the first or the next selection. -/
def choosePreferred (args : ReconnectArgs Id) (s : ReconnectState Id) : ReconnectState Id :=
  if args.requiredPreferredAccountId.any s.excluded.contains then s.raise (.proxyError 502)
  else if args.hardCloseAccountBound && s.excluded.contains args.accountId then
    s.raise (.proxyError 502)
  else
    let excluded := if args.skipSameAccount then args.accountId :: s.excluded else s.excluded
    { s with
      excluded := excluded
      retrySameAccountOnce := !args.skipSameAccount && !excluded.contains args.accountId
      preferredCandidate := args.preferredCandidate excluded s.requestPreferred
      pc := .selecting }

/-- The session's lease is kept when its account is the one to select. -/
def reusesLease (s : ReconnectState Id) : Bool :=
  s.preferredCandidate == some s.accountId && s.accountLease.isSome

/-- The account that a selection gives. -/
def selection (args : ReconnectArgs Id) (s : ReconnectState Id) (answer : Selecting Id) :
    Except Failure (Option Id) :=
  selectAccountWithBudget s.preferredCandidate
    (!s.reusesLease && !args.hardCloseAccountBound && args.requiredPreferredAccountId.isNone)
    s.excluded answer

def onNoAccount (args : ReconnectArgs Id) (s : ReconnectState Id) (answer : Selecting Id) :
    ReconnectState Id :=
  if s.reusesLease && !args.hardCloseAccountBound && args.requiredPreferredAccountId.isNone &&
      answer.budgetLeft then
    { s with preferredCandidate := none, pc := .selecting }
  else { s with pc := .recovering answer.localCap }

/-- A selected account; a selection without `lease_kind` gives no lease. -/
def onAccount (args : ReconnectArgs Id) (s : ReconnectState Id) (account : Id) :
    ReconnectState Id :=
  let reuse := s.reusesLease
  let selectionLease := if reuse then none else some (s.books.next account)
  let s :=
    if reuse then s else { s with books := s.books.obtain (s.books.next account) }
  if args.requiredPreferredAccountId.any fun required => required != account then
    s.releaseSelected selectionLease (some (.proxyError 502))
  else
    { s with
      requestPreferred :=
        if args.forceRefreshAccountId.any (fun forced => forced != account) &&
            s.requestPreferred == args.forceRefreshAccountId then none
        else s.requestPreferred
      pc := .connecting account
        (if reuse && account == s.accountId then s.accountLease else selectionLease) }

def onSelected (args : ReconnectArgs Id) (s : ReconnectState Id) (answer : Selecting Id) :
    ReconnectState Id :=
  match s.selection args answer with
  | .error failure => s.raise failure
  | .ok none => s.onNoAccount args answer
  | .ok (some account) => s.onAccount args account

def onRecovered (args : ReconnectArgs Id) (s : ReconnectState Id) (localCap : Bool)
    (result : Except Failure Bool) (excluded : List Id) : ReconnectState Id :=
  match result with
  | .error failure => s.raise failure
  | .ok false => s.raise (.proxyError (if localCap then 429 else 503))
  | .ok true => choosePreferred args { s with excluded := excluded ++ s.excluded }

/-- `abandon_selected_account_retry`; a session bound to its account raises the exception. -/
def abandon (args : ReconnectArgs Id) (s : ReconnectState Id) (account : Id)
    (lease : Option (Lease Id)) (cause : Failure) : ReconnectState Id :=
  if args.hardCloseAccountBound then s.releaseSelected lease (some cause)
  else
    releaseSelected { s with excluded := account :: s.excluded, preferredCandidate := none }
      lease none

/-- The session's account failed, with budget left; or another one did. -/
def onAccountFailure (args : ReconnectArgs Id) (s : ReconnectState Id) (account : Id)
    (lease : Option (Lease Id)) (cause : Failure) (sameAgain budgetLeft : Bool) :
    ReconnectState Id :=
  if account == s.accountId && budgetLeft then
    if s.retrySameAccountOnce && sameAgain then
      releaseSelected { s with retrySameAccountOnce := false } lease none
    else s.abandon args account lease cause
  else s.releaseSelected lease (some cause)

def onConnected (args : ReconnectArgs Id) (s : ReconnectState Id) (account : Id)
    (lease : Option (Lease Id)) (budgetLeft : Bool) : Option Failure → ReconnectState Id
  | none => { s with pc := .closing account lease }
  | some (.proxyError status) =>
    if status ≠ 401 ∨ budgetLeft = false then
      s.releaseSelected lease (some (.proxyError status))
    else { s with pc := .forcing account lease }
  | some (.refreshError true) =>
    { s with pc := .penalizing account lease .outer (.refreshError true) }
  | some (.refreshError false) =>
    s.onAccountFailure args account lease (.refreshError false) true budgetLeft
  | some .transport => s.onAccountFailure args account lease .transport true budgetLeft
  -- no handler catches these
  | some .other => s.raise .other

def onForced (args : ReconnectArgs Id) (s : ReconnectState Id) (account : Id)
    (lease : Option (Lease Id)) : Option Failure → ReconnectState Id
  | none => { s with pc := .closing account lease }
  | some (.proxyError status) =>
    if status ≠ 401 then s.releaseSelected lease (some (.proxyError status))
    else { s with pc := .penalizing account lease .forced (.proxyError 401) }
  | some (.refreshError true) =>
    { s with pc := .penalizing account lease .forced (.refreshError true) }
  | some (.refreshError false) => s.abandon args account lease (.refreshError false)
  | some .transport => s.raise .transport
  | some .other => s.raise .other

/-- The session takes the account, its lease and the new socket. -/
def adopt (s : ReconnectState Id) (account : Id) (lease : Option (Lease Id)) :
    ReconnectState Id :=
  { s with accountId := account, accountLease := lease, pc := .returned }

def onClosed (s : ReconnectState Id) (account : Id) (lease : Option (Lease Id)) :
    ReconnectState Id :=
  if lease = s.accountLease then s.adopt account lease
  else
    match s.accountLease with
    | none => s.adopt account lease
    | some old => { s with pc := .swapping account lease old }

def step (args : ReconnectArgs Id) (s : ReconnectState Id) (e : Event Id) :
    Option (ReconnectState Id) :=
  match s.pc, e with
  | .starting, .started none => some (s.choosePreferred args)
  | .starting, .started (some failure) => some (s.raise failure)
  | .selecting, .selected answer => some (s.onSelected args answer)
  | .recovering localCap, .recovered result excluded =>
    some (s.onRecovered args localCap result excluded)
  | .connecting account lease, .connected failure budgetLeft =>
    some (s.onConnected args account lease budgetLeft failure)
  | .forcing account lease, .forced failure => some (s.onForced args account lease failure)
  | .penalizing _ _ _ _, .penalized (some failure) _ => some (s.raise failure)
  | .penalizing account lease .outer cause, .penalized none budgetLeft =>
    some (s.onAccountFailure args account lease cause false budgetLeft)
  | .penalizing account lease .forced cause, .penalized none _ =>
    some (s.abandon args account lease cause)
  | .releasing _ _, .released true => some (s.raise .other)
  | .releasing lease raises, .released false =>
    some
      { s with
        books := s.books.release lease
        pc := raises.elim .selecting .raised }
  | .closing _ _, .closed true => some (s.raise .other)
  | .closing account lease, .closed false => some (s.onClosed account lease)
  | .swapping _ _ _, .released true => some (s.raise .other)
  | .swapping account lease old, .released false =>
    some ({ s with books := s.books.release old }.adopt account lease)
  | _, _ => none

end ReconnectState

end BridgeConnect
