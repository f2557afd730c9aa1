import Mathlib.Data.List.Nodup
import Mathlib.Order.Lattice
import LivingBalancer.Lib.Runs

/-!
# Durable HTTP bridge sessions and their fenced writes

`durable_bridge_repository.py`: the session and alias tables, `claim_session`
with its two attempts, the fenced renewal and release, and the owned alias
registration. A claim of an existing row reads it FOR UPDATE and commits under
that lock, so it is one step; a claim that found no row inserts in a later step
and may lose the race against another insert. A fenced-out renewal or release
reads the current owner in a later step, after its own statement committed.

Times are integers (microseconds). `durable_bridge_hash` is a parameter: only
equality of digests is used. Purges and `upsert_alias` are not modelled here.
-/

namespace DurableBridge

abbrev Time := Int

inductive SessionState where
  | active
  | draining
  | closed
  deriving DecidableEq, Repr

/-- `DurableBridgeSessionSnapshot`. -/
structure Snapshot where
  id : String
  sessionKeyKind : String
  sessionKeyValue : String
  sessionKeyHash : String
  apiKeyScope : String
  ownerInstanceId : Option String
  ownerEpoch : Int
  leaseExpiresAt : Option Time
  state : SessionState
  accountId : Option String
  model : Option String
  serviceTier : Option String
  latestTurnState : Option String
  latestResponseId : Option String
  latestInputItemCount : Option Int
  latestInputFullFingerprint : Option String
  closedAt : Option Time
  deriving DecidableEq, Repr

/-- `HttpBridgeSessionRecord`; `toSnapshot` is the source's `_to_snapshot`. -/
structure SessionRow extends Snapshot where
  lastSeenAt : Time
  deriving DecidableEq, Repr

/-- `HttpBridgeSessionAlias`. -/
structure AliasRow where
  sessionId : String
  aliasKind : String
  aliasValue : String
  aliasHash : String
  apiKeyScope : String
  deriving DecidableEq, Repr

structure Key where
  kind : String
  hash : String
  scope : String
  deriving DecidableEq, Repr

def SessionRow.key (r : SessionRow) : Key := ⟨r.sessionKeyKind, r.sessionKeyHash, r.apiKeyScope⟩

def AliasRow.key (a : AliasRow) : Key := ⟨a.aliasKind, a.aliasHash, a.apiKeyScope⟩

/-- The two tables with their primary key and unique constraints. -/
structure Store where
  sessions : List SessionRow
  aliases : List AliasRow
  uniqueId : (sessions.map (·.id)).Nodup
  uniqueKey : (sessions.map (·.key)).Nodup
  uniqueAlias : (aliases.map (·.key)).Nodup
  deriving DecidableEq

/-- An UPDATE that leaves the id and the session key columns alone. -/
structure RowUpdate where
  apply : SessionRow → SessionRow
  keepsId : ∀ r, (apply r).id = r.id
  keepsKey : ∀ r, (apply r).key = r.key

/-- Arguments of `claim_session`; the keyword-only defaults are spelled out. -/
structure ClaimArgs where
  sessionKeyKind : String
  sessionKeyValue : String
  apiKeyScope : String
  instanceId : String
  leaseTtl : Time
  accountId : Option String
  model : Option String
  serviceTier : Option String
  latestTurnState : Option String
  latestResponseId : Option String
  allowTakeover : Bool
  forceOwnerEpochAdvance : Bool

def ClaimArgs.key (hash : String → String) (args : ClaimArgs) : Key :=
  ⟨args.sessionKeyKind, hash args.sessionKeyValue, args.apiKeyScope⟩

structure RenewArgs where
  sessionId : String
  instanceId : String
  ownerEpoch : Int
  leaseTtl : Time
  latestTurnState : Option String
  latestResponseId : Option String
  latestInputItemCount : Option Int
  latestInputFullFingerprint : Option String
  state : Option SessionState

structure ReleaseArgs where
  sessionId : String
  instanceId : String
  ownerEpoch : Int
  draining : Bool

structure AliasArgs where
  sessionId : String
  apiKeyScope : String
  instanceId : String
  ownerEpoch : Int
  aliasKind : String
  aliasValue : String
  leaseTtl : Time
  latestTurnState : Option String
  latestResponseId : Option String
  latestInputItemCount : Option Int
  latestInputFullFingerprint : Option String

/-- One second: every lease write uses `max(1.0, lease_ttl_seconds)`. -/
def minLeaseTtl : Time := 1000000

def leaseDeadline (now ttl : Time) : Time := now + max minLeaseTtl ttl

namespace Store

def empty : Store := ⟨[], [], List.nodup_nil, List.nodup_nil, List.nodup_nil⟩

def get (db : Store) (id : String) : Option SessionRow :=
  db.sessions.find? fun r => r.id == id

def findByKey (db : Store) (key : Key) : Option SessionRow :=
  db.sessions.find? fun r => r.key == key

def patch (p : SessionRow → Bool) (u : RowUpdate) (r : SessionRow) : SessionRow :=
  if p r then u.apply r else r

theorem patch_id (p : SessionRow → Bool) (u : RowUpdate) (r : SessionRow) :
    (patch p u r).id = r.id := by
  simp only [patch]
  split
  · exact u.keepsId r
  · rfl

theorem patch_key (p : SessionRow → Bool) (u : RowUpdate) (r : SessionRow) :
    (patch p u r).key = r.key := by
  simp only [patch]
  split
  · exact u.keepsKey r
  · rfl

/-- `UPDATE http_bridge_sessions SET ... WHERE p`. -/
def updateWhere (db : Store) (p : SessionRow → Bool) (u : RowUpdate) : Store where
  sessions := db.sessions.map (patch p u)
  aliases := db.aliases
  uniqueId := by
    rw [List.map_map]
    exact (List.map_congr_left fun r _ => patch_id p u r) ▸ db.uniqueId
  uniqueKey := by
    rw [List.map_map]
    exact (List.map_congr_left fun r _ => patch_key p u r) ▸ db.uniqueKey
  uniqueAlias := db.uniqueAlias

def insertSession (db : Store) (row : SessionRow) (freshId : db.get row.id = none)
    (freshKey : db.findByKey row.key = none) : Store where
  sessions := db.sessions ++ [row]
  aliases := db.aliases
  uniqueId := by
    rw [List.map_append, List.nodup_append]
    refine ⟨db.uniqueId, List.nodup_singleton _, ?_⟩
    intro a ha b hb same
    obtain ⟨r, hr, rfl⟩ := List.mem_map.mp ha
    obtain rfl := List.mem_singleton.mp hb
    exact List.find?_eq_none.mp freshId r hr (by simp [same])
  uniqueKey := by
    rw [List.map_append, List.nodup_append]
    refine ⟨db.uniqueKey, List.nodup_singleton _, ?_⟩
    intro a ha b hb same
    obtain ⟨r, hr, rfl⟩ := List.mem_map.mp ha
    obtain rfl := List.mem_singleton.mp hb
    exact List.find?_eq_none.mp freshKey r hr (by simp [same])
  uniqueAlias := db.uniqueAlias

/-- `_clear_aliases_for_session`. -/
def clearAliases (db : Store) (sessionId : String) : Store where
  sessions := db.sessions
  aliases := db.aliases.filter fun a => a.sessionId != sessionId
  uniqueId := db.uniqueId
  uniqueKey := db.uniqueKey
  uniqueAlias := db.uniqueAlias.sublist (List.filter_sublist.map _)

/-- The DO UPDATE part of the alias upsert on a row with the same key. -/
def repoint (row a : AliasRow) : AliasRow :=
  if a.key = row.key then { a with sessionId := row.sessionId, aliasValue := row.aliasValue } else a

theorem repoint_key (row a : AliasRow) : (repoint row a).key = a.key := by
  simp only [repoint]
  split
  · rfl
  · rfl

/-- `_execute_alias_upsert`: the unique key is (kind, hash, scope). -/
def upsertAlias (db : Store) (row : AliasRow) : Store where
  sessions := db.sessions
  aliases := if row.key ∈ db.aliases.map (·.key) then db.aliases.map (repoint row)
    else db.aliases ++ [row]
  uniqueId := db.uniqueId
  uniqueKey := db.uniqueKey
  uniqueAlias := by
    split
    · rw [List.map_map]
      exact (List.map_congr_left fun a _ => repoint_key row a) ▸ db.uniqueAlias
    · rename_i fresh
      rw [List.map_append, List.nodup_append]
      refine ⟨db.uniqueAlias, List.nodup_singleton _, ?_⟩
      intro a ha b hb same
      obtain rfl := List.mem_singleton.mp hb
      subst same
      exact fresh ha

end Store

def accountChanged (args : ClaimArgs) (existing : SessionRow) : Bool :=
  existing.accountId != args.accountId

def ownerChanged (args : ClaimArgs) (existing : SessionRow) : Bool :=
  existing.ownerInstanceId != some args.instanceId

def leaseExpired (now : Time) (existing : SessionRow) : Bool :=
  match existing.leaseExpiresAt with
  | none => true
  | some deadline => deadline ≤ now

def stateAllowsTakeover (existing : SessionRow) : Bool :=
  existing.state == .draining || existing.state == .closed

/-- The early return of `claim_session`: a live lease of another owner stays. -/
def claimRefused (args : ClaimArgs) (now : Time) (existing : SessionRow) : Bool :=
  ownerChanged args existing && !args.allowTakeover && !leaseExpired now existing &&
    !stateAllowsTakeover existing

def nextEpoch (args : ClaimArgs) (existing : SessionRow) : Int :=
  if ownerChanged args existing then existing.ownerEpoch + 1
  else if accountChanged args existing || args.forceOwnerEpochAdvance then existing.ownerEpoch + 1
  else existing.ownerEpoch

/-- The assignments of a granted claim. The owner-changed and the same-owner
branch of the source write the continuity anchors alike. -/
def claimRow (args : ClaimArgs) (now : Time) (existing : SessionRow) : SessionRow :=
  let changed := accountChanged args existing
  let fresh := changed || args.latestResponseId.isSome
  { existing with
    ownerInstanceId := some args.instanceId
    ownerEpoch := nextEpoch args existing
    leaseExpiresAt := some (leaseDeadline now args.leaseTtl)
    state := .active
    accountId := args.accountId
    model := args.model
    serviceTier := args.serviceTier
    latestTurnState :=
      if changed then args.latestTurnState else args.latestTurnState <|> existing.latestTurnState
    latestResponseId :=
      if changed then args.latestResponseId else args.latestResponseId <|> existing.latestResponseId
    latestInputItemCount := if fresh then none else existing.latestInputItemCount
    latestInputFullFingerprint := if fresh then none else existing.latestInputFullFingerprint
    lastSeenAt := now
    closedAt := none }

/-- The row a claim inserts when it found none. -/
def newRow (hash : String → String) (args : ClaimArgs) (now : Time) (id : String) : SessionRow where
  id := id
  sessionKeyKind := args.sessionKeyKind
  sessionKeyValue := args.sessionKeyValue
  sessionKeyHash := hash args.sessionKeyValue
  apiKeyScope := args.apiKeyScope
  ownerInstanceId := some args.instanceId
  ownerEpoch := 1
  leaseExpiresAt := some (leaseDeadline now args.leaseTtl)
  state := .active
  accountId := args.accountId
  model := args.model
  serviceTier := args.serviceTier
  latestTurnState := args.latestTurnState
  latestResponseId := args.latestResponseId
  latestInputItemCount := none
  latestInputFullFingerprint := none
  closedAt := none
  lastSeenAt := now

def claimUpdate (args : ClaimArgs) (now : Time) : RowUpdate :=
  ⟨claimRow args now, fun _ => rfl, fun _ => rfl⟩

def claimStore (db : Store) (args : ClaimArgs) (now : Time) (existing : SessionRow) : Store :=
  let cleared := if accountChanged args existing then db.clearAliases existing.id else db
  cleared.updateWhere (fun r => r.id == existing.id) (claimUpdate args now)

def renewRow (args : RenewArgs) (now : Time) (r : SessionRow) : SessionRow :=
  let both := args.latestInputItemCount.isSome && args.latestInputFullFingerprint.isSome
  { r with
    leaseExpiresAt := some (leaseDeadline now args.leaseTtl)
    lastSeenAt := now
    latestTurnState := args.latestTurnState <|> r.latestTurnState
    latestResponseId := args.latestResponseId <|> r.latestResponseId
    latestInputItemCount :=
      if both then args.latestInputItemCount
      else if args.latestResponseId.isSome then none else r.latestInputItemCount
    latestInputFullFingerprint :=
      if both then args.latestInputFullFingerprint
      else if args.latestResponseId.isSome then none else r.latestInputFullFingerprint
    state := args.state.getD r.state }

def renewUpdate (args : RenewArgs) (now : Time) : RowUpdate :=
  ⟨renewRow args now, fun _ => rfl, fun _ => rfl⟩

def releaseRow (args : ReleaseArgs) (now : Time) (r : SessionRow) : SessionRow :=
  { r with
    ownerInstanceId := none
    leaseExpiresAt := some now
    lastSeenAt := now
    state := if args.draining then .draining else .closed
    closedAt := if args.draining then none else some now }

def releaseUpdate (args : ReleaseArgs) (now : Time) : RowUpdate :=
  ⟨releaseRow args now, fun _ => rfl, fun _ => rfl⟩

def aliasedRow (args : AliasArgs) (now : Time) (r : SessionRow) : SessionRow :=
  let both := args.latestInputItemCount.isSome && args.latestInputFullFingerprint.isSome
  let written := args.latestResponseId.isSome || both
  { r with
    leaseExpiresAt := some (leaseDeadline now args.leaseTtl)
    lastSeenAt := now
    latestTurnState := args.latestTurnState <|> r.latestTurnState
    latestResponseId := args.latestResponseId <|> r.latestResponseId
    latestInputItemCount := if written then args.latestInputItemCount else r.latestInputItemCount
    latestInputFullFingerprint :=
      if written then args.latestInputFullFingerprint else r.latestInputFullFingerprint }

def aliasedUpdate (args : AliasArgs) (now : Time) : RowUpdate :=
  ⟨aliasedRow args now, fun _ => rfl, fun _ => rfl⟩

/-- The fence of `_execute_fenced_session_update`: a NULL owner matches nobody. -/
def fence (sessionId instanceId : String) (ownerEpoch : Int) (r : SessionRow) : Bool :=
  r.id == sessionId && r.ownerInstanceId == some instanceId && r.ownerEpoch == ownerEpoch

def aliasFence (args : AliasArgs) (r : SessionRow) : Bool :=
  fence args.sessionId args.instanceId args.ownerEpoch r && r.apiKeyScope == args.apiKeyScope

end DurableBridge
