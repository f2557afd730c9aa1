import Mathlib.Data.Finset.Sort
import Mathlib.Data.String.Basic
import LivingBalancer.Lib.Dict
import LivingBalancer.Lib.Runs

/-!
# The cache invalidation bus

`CacheInvalidationPoller` on any number of replicas over one table of versions. A cycle
of a poller is cut at its awaits: each attempt to write a bump, the SELECT of the
versions, and each callback is a step of its own, and bumps of this and of other
replicas fall between them. A replica runs one cycle at a time, and its callbacks are
registered before the first. Bumps that the replica has already applied to itself
(`bump_local`) and the cancellation of a cycle are left out.
-/

namespace InvalidationBus

open Runs

/-- How one `_bump_once` ends. -/
inductive BumpWrite where
  | committed
  | operationalError
  | otherError
  deriving DecidableEq

/-- What `bump` does next: it returns, or sleeps before another attempt. -/
inductive BumpProgress where
  | returned (succeeded : Bool)
  | retrying (attempt : ℕ)
  deriving DecidableEq

/-- `_BUMP_RETRY_ATTEMPTS`. -/
def bumpRetryAttempts : ℕ := 3

/-- One round of the loop of `bump`. -/
def afterBumpWrite (attempt : ℕ) : BumpWrite → BumpProgress
  | .committed => .returned true
  | .operationalError =>
    if attempt = bumpRetryAttempts - 1 then .returned false else .retrying (attempt + 1)
  | .otherError => .returned false

/-- The upsert of `_bump_once`. -/
def bumpOnce (versions : Dict String ℕ) (ns : String) : Dict String ℕ :=
  versions.modify ns 0 (· + 1)

/-- Where `_poll_once` stands. -/
inductive Cycle where
  | idle
  | flush (todo : List String)
  | flushing (ns : String) (attempt : ℕ) (todo : List String)
  | rows (rest : List (String × ℕ))
  | calling (ns : String) (version done : ℕ) (succeeded : Bool) (rest : List (String × ℕ))
  deriving DecidableEq

/-- `bumps` holds the direct bumps this replica awaits, with their namespace and attempt. -/
structure Poller where
  knownVersions : String → Option ℕ := fun _ => none
  pendingBumps : Finset String := ∅
  pollInitialized : Bool := false
  cycle : Cycle := .idle
  bumps : ℕ → Option (String × ℕ) := fun _ => none

inductive PollerAct where
  | requestBump (ns : String)
  | bump (n : ℕ) (ns : String)
  | bumpWrite (n : ℕ) (outcome : BumpWrite)
  | initializeVersions (rows : List (String × ℕ))
  | poll
  | flushNext
  | flushWrite (outcome : BumpWrite)
  | read (rows : Option (List (String × ℕ)))
  | row
  | callback (succeeds : Bool)
  | callbacksDone

namespace Poller

def setBump (p : Poller) (n : ℕ) (bump : Option (String × ℕ)) : Poller :=
  { p with bumps := fun m => if m = n then bump else p.bumps m }

/-- The loop of `initialize` over the rows it has read. -/
def seed (known : String → Option ℕ) (rows : List (String × ℕ)) : String → Option ℕ :=
  rows.foldl (fun known row => Function.update known row.1 (some row.2)) known

/-- `changed` in `_poll_once`. -/
def changed (p : Poller) (ns : String) (version : ℕ) : Bool :=
  match p.knownVersions ns with
  | some prev => decide (prev < version)
  | none => p.pollInitialized && decide (0 < version)

/-- The acknowledgement that ends the treatment of a row. -/
def acknowledge (p : Poller) (ns : String) (version : ℕ) (rest : List (String × ℕ)) : Poller :=
  { p with
    knownVersions := Function.update p.knownVersions ns
      (some (max ((p.knownVersions ns).getD 0) version))
    cycle := .rows rest }

end Poller

/-- A step of one replica on its poller and on the table. -/
def pollerStep (callbacks : String → ℕ) (versions : Dict String ℕ) (p : Poller) :
    PollerAct → Option (Poller × Dict String ℕ)
  | .requestBump ns => some ({ p with pendingBumps := insert ns p.pendingBumps }, versions)
  | .bump n ns => if (p.bumps n).isNone then some (p.setBump n (some (ns, 0)), versions) else none
  | .bumpWrite n outcome =>
    match p.bumps n with
    | some (ns, attempt) =>
      match afterBumpWrite attempt outcome with
      | .returned true => some (p.setBump n none, bumpOnce versions ns)
      | .returned false => some (p.setBump n none, versions)
      | .retrying next => some (p.setBump n (some (ns, next)), versions)
    | none => none
  | .initializeVersions rows =>
    if p.cycle = .idle ∧ p.pollInitialized = false ∧ rows.Perm versions.items then
      some ({ p with knownVersions := Poller.seed p.knownVersions rows, pollInitialized := true }, versions)
    else none
  | .poll =>
    if p.cycle = .idle then
      some ({ p with cycle := .flush (p.pendingBumps.sort (· ≤ ·)) }, versions)
    else none
  | .flushNext =>
    match p.cycle with
    | .flush (ns :: todo) =>
      some ({ p with
        pendingBumps := p.pendingBumps.erase ns
        cycle := .flushing ns 0 todo }, versions)
    | _ => none
  | .flushWrite outcome =>
    match p.cycle with
    | .flushing ns attempt todo =>
      match afterBumpWrite attempt outcome with
      | .returned true => some ({ p with cycle := .flush todo }, bumpOnce versions ns)
      | .returned false =>
        some ({ p with
          pendingBumps := insert ns p.pendingBumps
          cycle := .flush todo }, versions)
      | .retrying next => some ({ p with cycle := .flushing ns next todo }, versions)
    | _ => none
  | .read rows =>
    if p.cycle = .flush [] then
      match rows with
      | some rows =>
        if rows.Perm versions.items then some ({ p with cycle := .rows rows }, versions) else none
      | none => some ({ p with cycle := .idle }, versions)
    else none
  | .row =>
    match p.cycle with
    | .rows [] => some ({ p with pollInitialized := true, cycle := .idle }, versions)
    | .rows ((ns, version) :: rest) =>
      if p.changed ns version then
        some ({ p with cycle := .calling ns version 0 true rest }, versions)
      else some (p.acknowledge ns version rest, versions)
    | _ => none
  | .callback succeeds =>
    match p.cycle with
    | .calling ns version done succeeded rest =>
      if done < callbacks ns then
        some ({ p with cycle := .calling ns version (done + 1) (succeeded && succeeds) rest },
          versions)
      else none
    | _ => none
  | .callbacksDone =>
    match p.cycle with
    | .calling ns version done succeeded rest =>
      if done < callbacks ns then none
      else if succeeded then some (p.acknowledge ns version rest, versions)
      else some ({ p with cycle := .rows rest }, versions)
    | _ => none

/-! ## The replicas -/

structure Bus where
  versions : Dict String ℕ
  pollers : ℕ → Poller

def busStep (callbacks : String → ℕ) (s : Bus) (act : ℕ × PollerAct) : Option Bus :=
  (pollerStep callbacks s.versions (s.pollers act.1) act.2).map fun after =>
    ⟨after.2, Function.update s.pollers act.1 after.1⟩

/-! ## What is recorded of a replica -/

inductive BusEvent where
  | read (ns : String) (version : ℕ)
  | completed (ns : String) (callback : ℕ)
  | bumpFailed (ns : String)
  deriving DecidableEq

/-- `baseline` holds the versions taken over before the poller was initialized. -/
structure Trace where
  baseline : String → ℕ := fun _ => 0
  events : List BusEvent := []

/-- The events of a step. -/
def eventsOf (p : Poller) : PollerAct → List BusEvent
  | .bumpWrite n outcome =>
    match p.bumps n with
    | some (ns, attempt) =>
      if afterBumpWrite attempt outcome = .returned false then [.bumpFailed ns] else []
    | none => []
  | .read (some rows) => rows.map fun row => .read row.1 row.2
  | .callback true =>
    match p.cycle with
    | .calling ns _ done _ _ => [.completed ns done]
    | _ => []
  | _ => []

def Trace.note (p : Poller) (act : PollerAct) (p' : Poller) (t : Trace) : Trace where
  baseline ns :=
    if p.pollInitialized = false ∧ p.knownVersions ns = none then (p'.knownVersions ns).getD 0
    else t.baseline ns
  events := eventsOf p act ++ t.events

def noteReplica (s : Bus) (act : ℕ × PollerAct) (s' : Bus) (traces : ℕ → Trace) : ℕ → Trace :=
  Function.update traces act.1
    ((traces act.1).note (s.pollers act.1) act.2 (s'.pollers act.1))

/-- The bus before any replica has polled. -/
def Started (x : Bus × (ℕ → Trace)) : Prop :=
  (∀ r, x.1.pollers r = {}) ∧ ∀ r, x.2 r = {}

end InvalidationBus
