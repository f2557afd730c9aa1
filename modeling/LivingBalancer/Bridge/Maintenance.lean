import Mathlib.Logic.Function.Basic
import LivingBalancer.Bridge.Fencing

/-!
# Draining instances and closing accounts beside the fenced calls

`mark_owner_draining` reads the rows of its instance without a lock and writes
them back by primary key when it commits. `_close_http_bridge_sessions_for_account`
deletes the aliases of the account's sessions in one statement and closes the
sessions in the next; both become visible with the commit, but the alias
delete covers the aliases present when it ran. Under READ COMMITTED other calls
commit between the two statements of either.

One clock is shared. A call reads the time before its statement runs, so `now` in
an action is at most the clock.
-/

namespace DurableBridge

open Runs

def Act.time : Act → Option Time
  | .claim _ _ now | .reselect _ now | .renew _ _ now | .release _ _ now
  | .registerOwnedAlias _ _ now => some now
  | .insert _ _ | .readOwner _ | .crash _ => none

structure World where
  sys : Sys
  clock : Time
  drains : Nat → Option (String × List String)
  closures : Nat → Option (String × List Key)

inductive WorldAct where
  | call (a : Act)
  | tick (now : Time)
  | drainRead (job : Nat) (instanceId : String)
  | drainCommit (job : Nat) (now : Time)
  | closeAliases (job : Nat) (accountId : String)
  | closeSessions (job : Nat) (now : Time)
  | abandon (job : Nat)

/-- The assignments of `mark_owner_draining`. -/
def drainingRow (now : Time) (r : SessionRow) : SessionRow :=
  { r with state := .draining, lastSeenAt := now }

def drainingUpdate (now : Time) : RowUpdate :=
  ⟨drainingRow now, fun _ => rfl, fun _ => rfl⟩

/-- The row update of `_close_http_bridge_sessions_for_account`. -/
def closedRow (now : Time) (r : SessionRow) : SessionRow :=
  { r with
    accountId := none
    state := .closed
    closedAt := some now
    ownerInstanceId := none
    leaseExpiresAt := none
    latestTurnState := none
    latestResponseId := none
    latestInputItemCount := none
    latestInputFullFingerprint := none }

def closedUpdate (now : Time) : RowUpdate :=
  ⟨closedRow now, fun _ => rfl, fun _ => rfl⟩

namespace Store

def ownedActive (db : Store) (instanceId : String) : List String :=
  (db.sessions.filter fun r =>
    r.ownerInstanceId == some instanceId && r.state == .active).map (·.id)

/-- The aliases whose session carries the account. -/
def aliasesOf (db : Store) (accountId : String) : List Key :=
  (db.aliases.filter fun a =>
    db.sessions.any fun r => r.accountId == some accountId && r.id == a.sessionId).map (·.key)

def deleteAliases (db : Store) (keys : List Key) : Store where
  sessions := db.sessions
  aliases := db.aliases.filter fun a => a.key ∉ keys
  uniqueId := db.uniqueId
  uniqueKey := db.uniqueKey
  uniqueAlias := db.uniqueAlias.sublist (List.filter_sublist.map _)

@[simp] theorem get_deleteAliases (db : Store) (keys : List Key) (id : String) :
    (db.deleteAliases keys).get id = db.get id := rfl

end Store

def drained (db : Store) (ids : List String) (now : Time) : Store :=
  db.updateWhere (fun r => ids.contains r.id) (drainingUpdate now)

def closed (db : Store) (accountId : String) (keys : List Key) (now : Time) : Store :=
  (db.deleteAliases keys).updateWhere (fun r => r.accountId == some accountId) (closedUpdate now)

namespace World

def db (w : World) : Store := w.sys.db

def step (hash : String → String) (w : World) : WorldAct → Option World
  | .call a =>
    if ∀ now ∈ a.time, now ≤ w.clock then
      (DurableBridge.step hash w.sys a).map fun sys => { w with sys := sys }
    else none
  | .tick now => if w.clock ≤ now then some { w with clock := now } else none
  | .drainRead job instanceId =>
    if (w.drains job).isNone then
      some { w with
        drains := Function.update w.drains job (some (instanceId, w.db.ownedActive instanceId)) }
    else none
  | .drainCommit job now =>
    match w.drains job with
    | some (_, ids) =>
      if now ≤ w.clock then
        some { w with
          sys := w.sys.withDb (drained w.db ids now)
          drains := Function.update w.drains job none }
      else none
    | none => none
  | .closeAliases job accountId =>
    if (w.closures job).isNone then
      some { w with
        closures := Function.update w.closures job (some (accountId, w.db.aliasesOf accountId)) }
    else none
  | .closeSessions job now =>
    match w.closures job with
    | some (accountId, keys) =>
      if now ≤ w.clock then
        some { w with
          sys := w.sys.withDb (closed w.db accountId keys now)
          closures := Function.update w.closures job none }
      else none
    | none => none
  | .abandon job =>
    some { w with
      drains := Function.update w.drains job none
      closures := Function.update w.closures job none }

def Idle (w : World) : Prop :=
  w.db = Store.empty ∧ (∀ call, w.sys.calls call = none) ∧ (∀ job, w.drains job = none) ∧
    ∀ job, w.closures job = none

end World

/-- Everything a step of the world can do to the tables. -/
inductive WorldEffect (hash : String → String) (w : World) : WorldAct → Store → Prop where
  | same (a : WorldAct) (idle : ∀ b, a ≠ .call b) : WorldEffect hash w a w.db
  | called (a : Act) (db : Store) (effect : Effect hash w.sys a db)
      (past : ∀ now ∈ a.time, now ≤ w.clock) : WorldEffect hash w (.call a) db
  | drained (job : Nat) (now : Time) (instanceId : String) (ids : List String)
      (reading : w.drains job = some (instanceId, ids)) :
      WorldEffect hash w (.drainCommit job now) (drained w.db ids now)
  | closed (job : Nat) (now : Time) (accountId : String) (keys : List Key)
      (deleting : w.closures job = some (accountId, keys)) :
      WorldEffect hash w (.closeSessions job now) (closed w.db accountId keys now)

theorem World.step_effect (hash : String → String) {w v : World} {a : WorldAct}
    (h : w.step hash a = some v) : WorldEffect hash w a v.db := by
  cases a with
  | call a =>
    simp only [World.step] at h
    split_ifs at h with past
    obtain ⟨sys, hstep, rfl⟩ := Option.map_eq_some_iff.mp h
    exact .called a sys.db (DurableBridge.step_effect hash hstep) past
  | tick now =>
    simp only [World.step] at h
    split_ifs at h
    cases h
    exact .same _ (fun _ h => nomatch h)
  | drainRead job instanceId =>
    simp only [World.step] at h
    split_ifs at h
    cases h
    exact .same _ (fun _ h => nomatch h)
  | drainCommit job now =>
    simp only [World.step] at h
    split at h
    · rename_i instanceId ids reading
      split_ifs at h
      cases h
      exact .drained job now instanceId ids reading
    · cases h
  | closeAliases job accountId =>
    simp only [World.step] at h
    split_ifs at h
    cases h
    exact .same _ (fun _ h => nomatch h)
  | closeSessions job now =>
    simp only [World.step] at h
    split at h
    · rename_i accountId keys deleting
      split_ifs at h
      cases h
      exact .closed job now accountId keys deleting
    · cases h
  | abandon job =>
    simp only [World.step] at h
    cases h
    exact .same _ (fun _ h => nomatch h)

end DurableBridge
