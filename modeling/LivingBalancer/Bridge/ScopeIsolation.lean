import Mathlib.Data.List.Sort
import LivingBalancer.Lib.PyText
import LivingBalancer.Bridge.AliasAccounts

/-!
# API key scopes of durable bridge sessions

The lookups of `durable_bridge_coordinator.py` on the tables that the calls, the maintenance,
the registration of session headers and the purges leave. The scope is a column of both
tables, in every key and every condition, so no property of the digest is used. A record
keeps the scope under which each session was created.
-/

namespace DurableBridge

open Runs

/-- `durable_bridge_api_key_scope`. -/
def durableBridgeApiKeyScope (apiKeyId : Option String) : String :=
  match apiKeyId with
  | none => "__anonymous__"
  | some keyId =>
    let stripped := String.ofList (PyText.strip keyId.toList)
    if stripped = "" then "__anonymous__" else stripped

/-! ## Lookups -/

structure DurableBridgeLookup where
  sessionId : String
  canonicalKind : String
  canonicalKey : String
  apiKeyScope : String
  accountId : Option String
  ownerInstanceId : Option String
  ownerEpoch : Int
  leaseExpiresAt : Option Time
  state : SessionState
  latestTurnState : Option String
  latestResponseId : Option String
  latestInputItemCount : Option Int
  latestInputFullFingerprint : Option String
  model : Option String
  deriving DecidableEq

def toLookup (snapshot : Snapshot) : DurableBridgeLookup where
  sessionId := snapshot.id
  canonicalKind := snapshot.sessionKeyKind
  canonicalKey := snapshot.sessionKeyValue
  apiKeyScope := snapshot.apiKeyScope
  accountId := snapshot.accountId
  ownerInstanceId := snapshot.ownerInstanceId
  ownerEpoch := snapshot.ownerEpoch
  leaseExpiresAt := snapshot.leaseExpiresAt
  state := snapshot.state
  latestTurnState := snapshot.latestTurnState
  latestResponseId := snapshot.latestResponseId
  latestInputItemCount := snapshot.latestInputItemCount
  latestInputFullFingerprint := snapshot.latestInputFullFingerprint
  model := snapshot.model

/-- The order of `find_session_by_latest_turn_state` and its sibling: active rows first, then
by `last_seen_at` and `updated_at`, the later first. -/
def latestFirst (updatedAt : String → Time) (r r' : SessionRow) : Bool :=
  let late (r : SessionRow) : Bool := r.state != .active
  if late r != late r' then late r'
  else if r.lastSeenAt ≠ r'.lastSeenAt then r'.lastSeenAt < r.lastSeenAt
  else updatedAt r'.id ≤ updatedAt r.id

namespace Store

def getSession (db : Store) (hash : String → String) (sessionKeyKind sessionKeyValue
    apiKeyScope : String) : Option SessionRow :=
  db.findByKey ⟨sessionKeyKind, hash sessionKeyValue, apiKeyScope⟩

/-- The join of the two tables; the alias key is unique. -/
def resolveAlias (db : Store) (hash : String → String) (aliasKind aliasValue
    apiKeyScope : String) : Option SessionRow :=
  (db.aliases.find? fun a => a.key == ⟨aliasKind, hash aliasValue, apiKeyScope⟩).bind
    fun a => db.get a.sessionId

/-- `find_session_by_latest_turn_state` and `find_session_by_latest_response_id`. -/
def findSessionBy (db : Store) (updatedAt : String → Time) (anchor : SessionRow → Option String)
    (value apiKeyScope : String) : Option SessionRow :=
  ((db.sessions.filter fun r => anchor r == some value && r.apiKeyScope == apiKeyScope &&
    (r.state == .active || r.state == .draining)).mergeSort (latestFirst updatedAt)).head?

end Store

structure LookupArgs where
  sessionKeyKind : String
  sessionKeyValue : String
  apiKeyId : Option String
  turnState : Option String
  sessionHeader : Option String
  previousResponseId : Option String

/-- `lookup_request_targets`; its `n`th statement reads the tables `db n`. -/
def lookupRequestTargets (hash : String → String) (updatedAt : String → Time) (db : ℕ → Store)
    (args : LookupArgs) : Option DurableBridgeLookup :=
  let apiKeyScope := durableBridgeApiKeyScope args.apiKeyId
  let aliases := [(0, "turn_state", args.turnState),
    (1, "previous_response_id", args.previousResponseId), (2, "session_header", args.sessionHeader)]
  let resolved := aliases.findSome? fun (n, aliasKind, aliasValue) =>
    aliasValue.bind fun value => (db n).resolveAlias hash aliasKind value apiKeyScope
  let snapshot := match resolved with
    | some row => some row
    | none =>
      match (db 3).getSession hash args.sessionKeyKind args.sessionKeyValue apiKeyScope with
      | some row => some row
      | none =>
        match args.turnState.bind fun turnState =>
            (db 4).findSessionBy updatedAt (·.latestTurnState) turnState apiKeyScope with
        | some row => some row
        | none => args.previousResponseId.bind fun responseId =>
            (db 5).findSessionBy updatedAt (·.latestResponseId) responseId apiKeyScope
  snapshot.map fun row => toLookup row.toSnapshot

/-! ## Registration of session headers, and purges -/

namespace Store

def scopeOf (db : Store) (sessionId : String) : Option String :=
  (db.get sessionId).map (·.apiKeyScope)

/-- The rows that a purge takes, and by the foreign key their aliases. -/
def purge (db : Store) (ids : List String) : Store where
  sessions := db.sessions.filter fun r => r.id ∉ ids
  aliases := db.aliases.filter fun a => a.sessionId ∉ ids
  uniqueId := db.uniqueId.sublist (List.filter_sublist.map _)
  uniqueKey := db.uniqueKey.sublist (List.filter_sublist.map _)
  uniqueAlias := db.uniqueAlias.sublist (List.filter_sublist.map _)

end Store

inductive ScopeAct where
  | world (a : WorldAct)
  | registerSessionHeader (sessionId : String) (apiKeyId : Option String) (sessionHeader : String)
  | purge (ids : List String)

/-- An alias of a session that is gone violates the foreign key. -/
def scopeStep (hash : String → String) (w : World) : ScopeAct → Option World
  | .world a => w.step hash a
  | .registerSessionHeader sessionId apiKeyId sessionHeader =>
    match w.db.get sessionId with
    | some _ => some { w with
        sys := w.sys.withDb (w.db.upsertAlias ⟨sessionId, "session_header", sessionHeader,
          hash sessionHeader, durableBridgeApiKeyScope apiKeyId⟩) }
    | none => none
  | .purge ids => some { w with sys := w.sys.withDb (w.db.purge ids) }

/-- The sessions that were created, with their scopes. -/
abbrev Created := List (String × String)

def noteCreated (w : World) (a : ScopeAct) (w' : World) (created : Created) : Created :=
  match a with
  | .world (.call (.insert _ newId)) =>
    match w.db.scopeOf newId, w'.db.scopeOf newId with
    | none, some scope => (newId, scope) :: created
    | _, _ => created
  | _ => created

/-- Session headers are registered with the session's own API key, and a new id is new. -/
def OwnKeys (x : World × Created) : ScopeAct → Prop
  | .world (.call (.insert _ newId)) => newId ∉ x.2.map Prod.fst
  | .registerSessionHeader sessionId apiKeyId _ =>
    x.1.db.scopeOf sessionId = some (durableBridgeApiKeyScope apiKeyId)
  | _ => True

def scopeSystem (hash : String → String) : World × Created → ScopeAct → Option (World × Created) :=
  recording (scopeStep hash) noteCreated

/-! ## Scopes of the rows -/

namespace Store

theorem scopeOf_updateWhere (db : Store) (p : SessionRow → Bool) (u : RowUpdate) (id : String) :
    (db.updateWhere p u).scopeOf id = db.scopeOf id := by
  rw [scopeOf, get_updateWhere, Option.map_map]
  refine congrFun (congrArg Option.map (funext fun r => ?_)) (db.get id)
  exact congrArg Key.scope (patch_key p u r)

theorem scopeOf_claimStore (db : Store) (args : ClaimArgs) (now : Time) (existing : SessionRow)
    (id : String) : (claimStore db args now existing).scopeOf id = db.scopeOf id := by
  rw [claimStore, scopeOf_updateWhere]
  split <;> rfl

theorem scopeOf_insertSession (db : Store) (row : SessionRow) (freshId : db.get row.id = none)
    (freshKey : db.findByKey row.key = none) (id : String) :
    (db.insertSession row freshId freshKey).scopeOf id =
      if id = row.id then some row.apiKeyScope else db.scopeOf id := by
  split_ifs with own
  · have found : (db.insertSession row freshId freshKey).get id = some row := by
      rw [get_eq_some_iff]
      exact ⟨List.mem_append_right _ List.mem_cons_self, own.symm⟩
    rw [scopeOf, found]
    rfl
  · cases h : db.get id with
    | some r => rw [scopeOf, scopeOf, get_insertSession db row freshId freshKey h, h]
    | none =>
      have absent : (db.insertSession row freshId freshKey).get id = none := by
        rw [get, insertSession, List.find?_append]
        have before : db.sessions.find? (fun r => r.id == id) = none := h
        rw [before, Option.none_or]
        exact List.find?_singleton.trans (if_neg (by simpa using fun same => own same.symm))
      rw [scopeOf, scopeOf, absent, h]

theorem scopeOf_purge (db : Store) (ids : List String) (id : String) :
    (db.purge ids).scopeOf id = if id ∈ ids then none else db.scopeOf id := by
  have rows : (db.purge ids).get id = if id ∈ ids then none else db.get id := by
    rw [get, purge, List.find?_filter]
    split_ifs with gone
    · rw [List.find?_eq_none]
      intro r _ found
      simp only [decide_eq_true_eq, beq_iff_eq] at found
      exact found.1 (found.2 ▸ gone)
    · rw [get]
      congr 1
      funext r
      by_cases own : r.id = id
      · simp [own, gone]
      · simp [own]
  rw [scopeOf, rows, scopeOf]
  split_ifs <;> rfl

end Store

/-- Each alias stands beside a session of its scope, and each session was created under its. -/
structure Scoped (db : Store) (created : Created) : Prop where
  aliases : ∀ a ∈ db.aliases, db.scopeOf a.sessionId = some a.apiKeyScope
  sessions : ∀ id scope, db.scopeOf id = some scope → (id, scope) ∈ created
  once : (created.map Prod.fst).Nodup

variable {db : Store} {created : Created}

/-- An update of session rows and a deletion of aliases. -/
theorem Scoped.same {db' : Store} (inv : Scoped db created)
    (rows : ∀ id, db'.scopeOf id = db.scopeOf id) (fewer : db'.aliases ⊆ db.aliases) :
    Scoped db' created where
  aliases a mem := (rows a.sessionId).trans (inv.aliases a (fewer mem))
  sessions id scope found := inv.sessions id scope ((rows id).symm.trans found)
  once := inv.once

theorem Scoped.upserted (inv : Scoped db created) {row : AliasRow}
    (own : db.scopeOf row.sessionId = some row.apiKeyScope) :
    Scoped (db.upsertAlias row) created where
  aliases a mem := by
    have rows : ∀ id, (db.upsertAlias row).scopeOf id = db.scopeOf id := fun _ => rfl
    rw [rows]
    rcases mem_upsertAlias mem with ⟨key, session⟩ | ⟨-, old⟩
    · rw [session, own]
      exact congrArg some (congrArg Key.scope key).symm
    · exact inv.aliases a old
  sessions := inv.sessions
  once := inv.once

theorem Scoped.inserted (inv : Scoped db created) (row : SessionRow)
    (freshId : db.get row.id = none) (freshKey : db.findByKey row.key = none)
    (new : row.id ∉ created.map Prod.fst) :
    Scoped (db.insertSession row freshId freshKey) ((row.id, row.apiKeyScope) :: created) where
  aliases a mem := by
    have found := inv.aliases a mem
    have other : a.sessionId ≠ row.id := by
      intro same
      rw [same, Store.scopeOf, freshId] at found
      cases found
    rw [Store.scopeOf_insertSession, if_neg other]
    exact found
  sessions id scope found := by
    rw [Store.scopeOf_insertSession] at found
    split_ifs at found with own
    · cases found
      rw [own]
      exact List.mem_cons_self
    · exact List.mem_cons_of_mem _ (inv.sessions id scope found)
  once := List.nodup_cons.mpr ⟨new, inv.once⟩

theorem Scoped.purged (inv : Scoped db created) (ids : List String) :
    Scoped (db.purge ids) created where
  aliases a mem := by
    obtain ⟨old, kept⟩ := List.mem_filter.mp mem
    rw [Store.scopeOf_purge, if_neg (of_decide_eq_true kept)]
    exact inv.aliases a old
  sessions id scope found := by
    rw [Store.scopeOf_purge] at found
    split_ifs at found
    exact inv.sessions id scope found
  once := inv.once

/-! ## Every step keeps them -/

variable {hash : String → String} {w w' : World}

theorem Scoped.effect {sys : Sys} {a : Act} (inv : Scoped sys.db created)
    (effect : Effect hash sys a db) (other : ∀ call newId, a ≠ .insert call newId) :
    Scoped db created := by
  cases effect with
  | same => exact inv
  | claimed _ args now existing issued found granted =>
    refine inv.same (Store.scopeOf_claimStore sys.db args now existing) ?_
    intro entry mem
    simp only [claimStore] at mem
    split at mem
    · exact List.mem_of_mem_filter mem
    · exact mem
  | inserted call newId => exact absurd rfl (other call newId)
  | renewed => exact inv.same (Store.scopeOf_updateWhere sys.db _ _) (List.Subset.refl _)
  | released => exact inv.same (Store.scopeOf_updateWhere sys.db _ _) (List.Subset.refl _)
  | registered call args now owned =>
    have updated : Scoped (sys.db.updateWhere (aliasFence args) (aliasedUpdate args now)) created :=
      inv.same (Store.scopeOf_updateWhere sys.db _ _) (List.Subset.refl _)
    refine updated.upserted ?_
    obtain ⟨r, mem, fenced⟩ := List.any_eq_true.mp owned
    simp only [aliasFence, fence, Bool.and_eq_true, beq_iff_eq] at fenced
    have found := (sys.db.get_eq_some_iff args.sessionId r).mpr ⟨mem, fenced.1.1.1⟩
    rw [Store.scopeOf_updateWhere, Store.scopeOf, found, Option.map_some, fenced.2]

theorem Scoped.world {a : WorldAct} (inv : Scoped w.db created)
    (hs : w.step hash a = some w') (other : ∀ call newId, a ≠ .call (.insert call newId)) :
    Scoped w'.db created := by
  have effect := World.step_effect hash hs
  generalize w'.db = db at effect
  cases effect with
  | same => exact inv
  | called a db effect past =>
    exact inv.effect effect fun call newId same => other call newId (congrArg WorldAct.call same)
  | drained job now instanceId ids reading =>
    exact inv.same (Store.scopeOf_updateWhere w.db _ _) (List.Subset.refl _)
  | closed job now accountId keys deleting =>
    exact inv.same (Store.scopeOf_updateWhere _ _ _) fun entry mem => List.mem_of_mem_filter mem

theorem Scoped.inserts {call : ℕ} {newId : String} (inv : Scoped w.db created)
    (new : newId ∉ created.map Prod.fst) (hs : w.step hash (.call (.insert call newId)) = some w') :
    Scoped w'.db (noteCreated w (.world (.call (.insert call newId))) w' created) := by
  have effect := World.step_effect hash hs
  have absent : w'.db = w.db → noteCreated w (.world (.call (.insert call newId))) w' created =
      created := by
    intro same
    rw [noteCreated, same]
    cases w.db.scopeOf newId <;> rfl
  generalize same : w'.db = db at effect
  cases effect with
  | same =>
    rw [absent same]
    exact inv
  | called a db effect past =>
    cases effect with
    | same =>
      rw [absent same]
      exact inv
    | claimed _ args now existing issued found granted =>
      obtain ⟨_, issue | ⟨issue, -⟩⟩ := issued
      · cases issue
      · cases issue
    | inserted call newId args now freshId freshKey =>
      have none_before : w.db.scopeOf newId = none := by
        rw [Store.scopeOf]
        exact congrArg (Option.map _) freshId
      have noted : noteCreated w (.world (.call (.insert call newId))) w' created =
          (newId, args.apiKeyScope) :: created := by
        have after : w'.db.scopeOf newId = some args.apiKeyScope := by
          rw [same]
          exact (Store.scopeOf_insertSession w.sys.db (newRow hash args now newId) freshId freshKey
            newId).trans (if_pos rfl)
        simp only [noteCreated, none_before, after]
      rw [noted]
      exact inv.inserted (newRow hash args now newId) freshId freshKey new

theorem Scoped.step {a : ScopeAct} (inv : Scoped w.db created) (own : OwnKeys (w, created) a)
    (hs : scopeStep hash w a = some w') : Scoped w'.db (noteCreated w a w' created) := by
  cases a with
  | world a =>
    by_cases inserts : ∃ call newId, a = .call (.insert call newId)
    · obtain ⟨call, newId, rfl⟩ := inserts
      exact inv.inserts own hs
    · have other : ∀ call newId, a ≠ .call (.insert call newId) := fun call newId same =>
        inserts ⟨call, newId, same⟩
      have noted : noteCreated w (.world a) w' created = created := by
        rw [noteCreated]
        intro call newId same
        exact other call newId (ScopeAct.world.inj same)
      rw [noted]
      exact inv.world hs other
  | registerSessionHeader sessionId apiKeyId sessionHeader =>
    rw [scopeStep] at hs
    split at hs
    · cases hs
      exact inv.upserted own
    · cases hs
  | purge ids =>
    cases hs
    exact inv.purged ids

/-! ## What a lookup finds -/

theorem Scoped.resolveAlias (inv : Scoped db created) {aliasKind aliasValue scope : String}
    {r : SessionRow} (found : db.resolveAlias hash aliasKind aliasValue scope = some r) :
    db.get r.id = some r ∧ r.apiKeyScope = scope := by
  obtain ⟨entry, named, row⟩ := Option.bind_eq_some_iff.mp found
  have mem := List.mem_of_find?_eq_some named
  have key : entry.key = ⟨aliasKind, hash aliasValue, scope⟩ := by
    simpa using List.find?_some named
  have beside := inv.aliases entry mem
  rw [Store.scopeOf, row] at beside
  have id := ((db.get_eq_some_iff entry.sessionId r).mp row).2
  exact ⟨id ▸ row, (Option.some.inj beside).trans (congrArg Key.scope key)⟩

theorem getSession_scope {sessionKeyKind sessionKeyValue scope : String} {r : SessionRow}
    (found : db.getSession hash sessionKeyKind sessionKeyValue scope = some r) :
    db.get r.id = some r ∧ r.apiKeyScope = scope := by
  have mem := List.mem_of_find?_eq_some found
  have key : r.key = ⟨sessionKeyKind, hash sessionKeyValue, scope⟩ := by
    simpa using List.find?_some found
  exact ⟨(db.get_eq_some_iff r.id r).mpr ⟨mem, rfl⟩, congrArg Key.scope key⟩

theorem findSessionBy_scope {updatedAt : String → Time} {anchor : SessionRow → Option String}
    {value scope : String} {r : SessionRow}
    (found : db.findSessionBy updatedAt anchor value scope = some r) :
    db.get r.id = some r ∧ r.apiKeyScope = scope := by
  have sorted := List.mem_of_head? found
  obtain ⟨mem, matched⟩ := List.mem_filter.mp (List.mem_mergeSort.mp sorted)
  simp only [Bool.and_eq_true, beq_iff_eq] at matched
  exact ⟨(db.get_eq_some_iff r.id r).mpr ⟨mem, rfl⟩, matched.1.2⟩

/-- Whichever statement finds the session, it is a row of that statement's tables with the
scope of the caller's key. -/
theorem lookup_row {updatedAt : String → Time} {tables : ℕ → Store} {records : ℕ → Created}
    (inv : ∀ n, Scoped (tables n) (records n)) {args : LookupArgs} {lookup : DurableBridgeLookup}
    (found : lookupRequestTargets hash updatedAt tables args = some lookup) :
    ∃ n r, (tables n).get r.id = some r ∧ lookup = toLookup r.toSnapshot ∧
      r.apiKeyScope = durableBridgeApiKeyScope args.apiKeyId := by
  obtain ⟨r, snapshot, rfl⟩ := Option.map_eq_some_iff.mp found
  dsimp only at snapshot
  split at snapshot
  · rename_i row resolved
    cases snapshot
    obtain ⟨⟨n, aliasKind, aliasValue⟩, -, at_⟩ := List.exists_of_findSome?_eq_some resolved
    obtain ⟨value, -, alias_⟩ := Option.bind_eq_some_iff.mp at_
    obtain ⟨present, scope⟩ := (inv n).resolveAlias alias_
    exact ⟨n, r, present, rfl, scope⟩
  · split at snapshot
    · rename_i row session
      cases snapshot
      obtain ⟨present, scope⟩ := getSession_scope session
      exact ⟨3, r, present, rfl, scope⟩
    · split at snapshot
      · rename_i row latest
        cases snapshot
        obtain ⟨value, -, turn⟩ := Option.bind_eq_some_iff.mp latest
        obtain ⟨present, scope⟩ := findSessionBy_scope turn
        exact ⟨4, r, present, rfl, scope⟩
      · obtain ⟨value, -, response⟩ := Option.bind_eq_some_iff.mp snapshot
        obtain ⟨present, scope⟩ := findSessionBy_scope response
        exact ⟨5, r, present, rfl, scope⟩

/-- In every run in which headers are registered with their session's own key, a lookup whose
statements read any states of the run returns a session that was created under the scope of
the caller's key, and under no other. -/
theorem lookup_isolated {updatedAt : String → Time} {x : ℕ → World × Created}
    (runs : ∀ n, Reachable (scopeSystem hash) OwnKeys (fun y => World.Idle y.1 ∧ y.2 = []) (x n))
    {args : LookupArgs} {lookup : DurableBridgeLookup}
    (found : lookupRequestTargets hash updatedAt (fun n => (x n).1.db) args = some lookup) :
    lookup.apiKeyScope = durableBridgeApiKeyScope args.apiKeyId ∧
    ∃ n, (lookup.sessionId, durableBridgeApiKeyScope args.apiKeyId) ∈ (x n).2 ∧
      ∀ scope, (lookup.sessionId, scope) ∈ (x n).2 →
        scope = durableBridgeApiKeyScope args.apiKeyId := by
  have inv : ∀ n, Scoped (x n).1.db (x n).2 := by
    intro n
    refine (runs n).invariant (I := fun y => Scoped y.1.db y.2) ?_ ?_
    · rintro ⟨w, created⟩ ⟨idle, rfl⟩
      have empty : w.db = Store.empty := idle.1
      dsimp only
      rw [empty]
      exact ⟨nofun, nofun, List.nodup_nil⟩
    · intro y a z inv own hs
      obtain ⟨stepped, noted⟩ := recording_eq_some.mp hs
      rw [noted]
      exact inv.step own stepped
  obtain ⟨n, r, present, rfl, scope⟩ := lookup_row inv found
  have created : (r.id, r.apiKeyScope) ∈ (x n).2 :=
    (inv n).sessions r.id r.apiKeyScope (by rw [Store.scopeOf, present]; rfl)
  refine ⟨scope, n, scope ▸ created, fun other mem => ?_⟩
  have same := List.inj_on_of_nodup_map (inv n).once mem created rfl
  exact (congrArg Prod.snd same).trans scope

/-- A claim under an API key, with spaces around its id. -/
def keyedClaim : ClaimArgs where
  sessionKeyKind := "session_header"
  sessionKeyValue := "h"
  apiKeyScope := durableBridgeApiKeyScope (some " key-1 ")
  instanceId := "replica-a"
  leaseTtl := 60000000
  accountId := some "account-1"
  model := none
  serviceTier := none
  latestTurnState := none
  latestResponseId := none
  allowTakeover := false
  forceOwnerEpochAdvance := false

def keyedActs : List ScopeAct :=
  [.world (.call (.claim 0 keyedClaim 0)), .world (.call (.insert 0 "s1")),
    .registerSessionHeader "s1" (some "key-1") "h"]

/-- The states of the run through `keyedActs`. -/
def afterKeyed : ℕ → World × Created
  | 0 => (unusedWorld, [])
  | n + 1 => ((keyedActs[n]?).bind (scopeSystem id (afterKeyed n))).getD (afterKeyed n)

def keyedLookup (apiKeyId : Option String) : LookupArgs where
  sessionKeyKind := "request"
  sessionKeyValue := "r"
  apiKeyId := apiKeyId
  turnState := some "h"
  sessionHeader := some "h"
  previousResponseId := none

theorem afterKeyed_reachable :
    Reachable (scopeSystem id) OwnKeys (fun y => World.Idle y.1 ∧ y.2 = []) (afterKeyed 3) := by
  have start : Reachable (scopeSystem id) OwnKeys (fun y => World.Idle y.1 ∧ y.2 = [])
      (afterKeyed 0) :=
    ⟨_, ⟨⟨rfl, fun _ => rfl, fun _ => rfl, fun _ => rfl⟩, rfl⟩, .refl _⟩
  have next : ∀ n a, keyedActs[n]? = some a → (scopeSystem id (afterKeyed n) a).isSome = true →
      scopeSystem id (afterKeyed n) a = some (afterKeyed (n + 1)) := by
    intro n a named enabled
    obtain ⟨y, stepped⟩ := Option.isSome_iff_exists.mp enabled
    rw [afterKeyed, named, Option.bind_some, stepped, Option.getD_some]
  have claimed := start.tail (a := .world (.call (.claim 0 keyedClaim 0))) trivial
    (next 0 _ rfl (by decide +kernel))
  have inserted := claimed.tail (a := .world (.call (.insert 0 "s1")))
    (show "s1" ∉ (afterKeyed 1).2.map Prod.fst by decide +kernel)
    (next 1 _ rfl (by decide +kernel))
  exact inserted.tail (a := .registerSessionHeader "s1" (some "key-1") "h")
    (show (afterKeyed 2).1.db.scopeOf "s1" = some (durableBridgeApiKeyScope (some "key-1")) by
      decide +kernel)
    (next 2 _ rfl (by decide +kernel))

/-- The session is found with its own key, and not with another one. -/
theorem lookup_isolated_keyed :
    (∃ lookup, lookupRequestTargets id (fun _ => 0) (fun _ => (afterKeyed 3).1.db)
        (keyedLookup (some "key-1")) = some lookup ∧
      lookup.apiKeyScope = durableBridgeApiKeyScope (some "key-1") ∧
      (lookup.sessionId, durableBridgeApiKeyScope (some "key-1")) ∈ (afterKeyed 3).2 ∧
        ∀ scope, (lookup.sessionId, scope) ∈ (afterKeyed 3).2 →
          scope = durableBridgeApiKeyScope (some "key-1")) ∧
    lookupRequestTargets id (fun _ => 0) (fun _ => (afterKeyed 3).1.db)
      (keyedLookup (some "key-2")) = none := by
  have found : (lookupRequestTargets id (fun _ => 0) (fun _ => (afterKeyed 3).1.db)
      (keyedLookup (some "key-1"))).isSome = true := by decide +kernel
  obtain ⟨lookup, found⟩ := Option.isSome_iff_exists.mp found
  refine ⟨⟨lookup, found, ?_⟩, by decide +kernel⟩
  obtain ⟨scope, -, created, only⟩ := lookup_isolated (fun _ => afterKeyed_reachable) found
  exact ⟨scope, created, only⟩

end DurableBridge
