import LivingBalancer.Bridge.DurableSession

/-!
# Fencing of durable bridge writes over whole runs

Any number of claim, renew, release and alias calls are in flight; a call that
still has a statement to run is kept in `calls`. `Effect` says once what a step
can do to the tables, `RowChange` what it can do to a row, and the epoch laws are
read off from it.
-/

namespace DurableBridge

open Runs

inductive Reply where
  | snapshot (row : Option Snapshot)
  | registered (ok : Bool)
  | integrityError
  deriving DecidableEq, Repr

/-- What a call still has to run. -/
inductive Waiting where
  | select (args : ClaimArgs)
  | insert (args : ClaimArgs) (attempt : Nat) (now : Time)
  | readOwner (sessionId : String)

structure Sys where
  db : Store
  calls : Nat → Option Waiting
  replies : List (Nat × Reply)

namespace Sys

def wait (s : Sys) (call : Nat) (w : Waiting) : Sys :=
  { s with calls := fun c => if c = call then some w else s.calls c }

def reply (s : Sys) (call : Nat) (r : Reply) : Sys :=
  { s with
    calls := fun c => if c = call then none else s.calls c
    replies := (call, r) :: s.replies }

def withDb (s : Sys) (db : Store) : Sys := { s with db := db }

@[simp] theorem wait_db (s : Sys) (call : Nat) (w : Waiting) : (s.wait call w).db = s.db := rfl

@[simp] theorem reply_db (s : Sys) (call : Nat) (r : Reply) : (s.reply call r).db = s.db := rfl

@[simp] theorem withDb_db (s : Sys) (db : Store) : (s.withDb db).db = db := rfl

end Sys

inductive Act where
  | claim (call : Nat) (args : ClaimArgs) (now : Time)
  | reselect (call : Nat) (now : Time)
  | insert (call : Nat) (newId : String)
  | renew (call : Nat) (args : RenewArgs) (now : Time)
  | release (call : Nat) (args : ReleaseArgs) (now : Time)
  | registerOwnedAlias (call : Nat) (args : AliasArgs) (now : Time)
  | readOwner (call : Nat)
  | crash (call : Nat)

/-- One attempt of `claim_session` up to its commit, or up to the pending insert. -/
def claimSelect (hash : String → String) (s : Sys) (call : Nat) (args : ClaimArgs)
    (attempt : Nat) (now : Time) : Sys :=
  match s.db.findByKey (args.key hash) with
  | none => s.wait call (.insert args attempt now)
  | some existing =>
    if claimRefused args now existing then s.reply call (.snapshot (some existing.toSnapshot))
    else
      let db := claimStore s.db args now existing
      (s.withDb db).reply call (.snapshot ((db.get existing.id).map (·.toSnapshot)))

/-- The insert of a claim that found no row. Two conflicts in a row are raised. -/
def claimInsert (hash : String → String) (s : Sys) (call : Nat) (args : ClaimArgs)
    (attempt : Nat) (now : Time) (newId : String) (freshId : s.db.get newId = none) : Sys :=
  if freshKey : s.db.findByKey (args.key hash) = none then
    let row := newRow hash args now newId
    (s.withDb (s.db.insertSession row freshId freshKey)).reply call (.snapshot (some row.toSnapshot))
  else if attempt = 0 then s.wait call (.select args)
  else s.reply call .integrityError

/-- `_execute_fenced_session_update`: the fenced UPDATE, or the pending owner read. -/
def fencedUpdate (s : Sys) (call : Nat) (sessionId : String) (p : SessionRow → Bool)
    (u : RowUpdate) : Sys :=
  match s.db.sessions.find? p with
  | some r =>
    (s.withDb (s.db.updateWhere p u)).reply call (.snapshot (some (u.apply r).toSnapshot))
  | none => s.wait call (.readOwner sessionId)

def registerAlias (hash : String → String) (s : Sys) (call : Nat) (args : AliasArgs)
    (now : Time) : Sys :=
  if s.db.sessions.any (aliasFence args) then
    let db := (s.db.updateWhere (aliasFence args) (aliasedUpdate args now)).upsertAlias
      ⟨args.sessionId, args.aliasKind, args.aliasValue, hash args.aliasValue, args.apiKeyScope⟩
    (s.withDb db).reply call (.registered true)
  else s.reply call (.registered false)

def step (hash : String → String) (s : Sys) : Act → Option Sys
  | .claim call args now =>
    if (s.calls call).isNone then some (claimSelect hash s call args 0 now) else none
  | .reselect call now =>
    match s.calls call with
    | some (.select args) => some (claimSelect hash s call args 1 now)
    | _ => none
  | .insert call newId =>
    match s.calls call with
    | some (.insert args attempt now) =>
      -- uuid4 ids are taken to be fresh
      if freshId : s.db.get newId = none then
        some (claimInsert hash s call args attempt now newId freshId)
      else none
    | _ => none
  | .renew call args now =>
    if (s.calls call).isNone then
      some (fencedUpdate s call args.sessionId
        (fence args.sessionId args.instanceId args.ownerEpoch) (renewUpdate args now))
    else none
  | .release call args now =>
    if (s.calls call).isNone then
      some (fencedUpdate s call args.sessionId
        (fence args.sessionId args.instanceId args.ownerEpoch) (releaseUpdate args now))
    else none
  | .registerOwnedAlias call args now =>
    if (s.calls call).isNone then some (registerAlias hash s call args now) else none
  | .readOwner call =>
    match s.calls call with
    | some (.readOwner id) => some (s.reply call (.snapshot ((s.db.get id).map (·.toSnapshot))))
    | _ => none
  | .crash call => some { s with calls := fun c => if c = call then none else s.calls c }

def Act.isClaim : Act → Prop
  | .claim _ _ _ | .reselect _ _ | .insert _ _ => True
  | _ => False

/-- The session and the (instance, epoch) pair a fenced write carries. -/
def Act.carries : Act → Option (Nat × String × String × Int)
  | .renew call args _ => some (call, args.sessionId, args.instanceId, args.ownerEpoch)
  | .release call args _ => some (call, args.sessionId, args.instanceId, args.ownerEpoch)
  | .registerOwnedAlias call args _ =>
    some (call, args.sessionId, args.instanceId, args.ownerEpoch)
  | _ => none

/-- Everything a step can do to one session row. -/
inductive RowChange : Act → SessionRow → SessionRow → Prop where
  | same (a : Act) (r : SessionRow) : RowChange a r r
  | claimed (a : Act) (args : ClaimArgs) (now : Time) (r : SessionRow) (claims : a.isClaim) :
      RowChange a r (claimRow args now r)
  | renewed (call : Nat) (args : RenewArgs) (now : Time) (r : SessionRow) :
      RowChange (.renew call args now) r (renewRow args now r)
  | released (call : Nat) (args : ReleaseArgs) (now : Time) (r : SessionRow) :
      RowChange (.release call args now) r (releaseRow args now r)
  | aliased (call : Nat) (args : AliasArgs) (now : Time) (r : SessionRow) :
      RowChange (.registerOwnedAlias call args now) r (aliasedRow args now r)

namespace Store

theorem get_updateWhere (db : Store) (p : SessionRow → Bool) (u : RowUpdate) (id : String) :
    (db.updateWhere p u).get id = (db.get id).map (patch p u) := by
  have sameId : (fun r : SessionRow => r.id == id) ∘ patch p u = fun r => r.id == id := by
    funext r
    simp [patch_id]
  simp only [get, updateWhere]
  rw [List.find?_map, sameId]

theorem get_insertSession (db : Store) (row : SessionRow) (freshId : db.get row.id = none)
    (freshKey : db.findByKey row.key = none) {id : String} {r : SessionRow}
    (h : db.get id = some r) : (db.insertSession row freshId freshKey).get id = some r := by
  have found : db.sessions.find? (fun r => r.id == id) = some r := h
  simp [get, insertSession, List.find?_append, found]

@[simp] theorem get_upsertAlias (db : Store) (row : AliasRow) (id : String) :
    (db.upsertAlias row).get id = db.get id := rfl

@[simp] theorem get_clearAliases (db : Store) (sessionId id : String) :
    (db.clearAliases sessionId).get id = db.get id := rfl

/-- The row with a given id is the only one a fence on that id can match. -/
theorem get_eq_some_iff (db : Store) (id : String) (r : SessionRow) :
    db.get id = some r ↔ r ∈ db.sessions ∧ r.id = id := by
  constructor
  · intro h
    exact ⟨List.mem_of_find?_eq_some h, by simpa using List.find?_some h⟩
  · rintro ⟨hmem, rfl⟩
    cases h : db.get r.id with
    | none =>
      have absent := List.find?_eq_none.mp h r hmem
      simp at absent
    | some q =>
      have hq : q ∈ db.sessions := List.mem_of_find?_eq_some h
      have sameId : q.id = r.id := by simpa using List.find?_some h
      exact congrArg some (List.inj_on_of_nodup_map db.uniqueId hq hmem sameId)

end Store

theorem claimStore_get (db : Store) (args : ClaimArgs) (now : Time) (existing : SessionRow)
    (id : String) : (claimStore db args now existing).get id =
      (db.get id).map (Store.patch (fun r => r.id == existing.id) (claimUpdate args now)) := by
  simp only [claimStore]
  rw [Store.get_updateWhere]
  by_cases h : accountChanged args existing = true
  · simp [h]
  · simp [h]

/-- The claim a step runs, as called or as retried. -/
def Sys.Issues (s : Sys) (a : Act) (args : ClaimArgs) (now : Time) : Prop :=
  ∃ call, a = .claim call args now ∨
    (a = .reselect call now ∧ s.calls call = some (.select args))

/-- Everything a step can do to the two tables. -/
inductive Effect (hash : String → String) (s : Sys) : Act → Store → Prop where
  | same (a : Act) (refused : ∀ call args now, a = .registerOwnedAlias call args now →
      s.db.sessions.any (aliasFence args) = false) : Effect hash s a s.db
  | claimed (a : Act) (args : ClaimArgs) (now : Time) (existing : SessionRow)
      (issued : s.Issues a args now) (found : s.db.findByKey (args.key hash) = some existing)
      (granted : claimRefused args now existing = false) :
      Effect hash s a (claimStore s.db args now existing)
  | inserted (call : Nat) (newId : String) (args : ClaimArgs) (now : Time)
      (freshId : s.db.get newId = none) (freshKey : s.db.findByKey (args.key hash) = none) :
      Effect hash s (.insert call newId)
        (s.db.insertSession (newRow hash args now newId) freshId freshKey)
  | renewed (call : Nat) (args : RenewArgs) (now : Time) :
      Effect hash s (.renew call args now) (s.db.updateWhere
        (fence args.sessionId args.instanceId args.ownerEpoch) (renewUpdate args now))
  | released (call : Nat) (args : ReleaseArgs) (now : Time) :
      Effect hash s (.release call args now) (s.db.updateWhere
        (fence args.sessionId args.instanceId args.ownerEpoch) (releaseUpdate args now))
  | registered (call : Nat) (args : AliasArgs) (now : Time)
      (owned : s.db.sessions.any (aliasFence args) = true) :
      Effect hash s (.registerOwnedAlias call args now)
        ((s.db.updateWhere (aliasFence args) (aliasedUpdate args now)).upsertAlias
          ⟨args.sessionId, args.aliasKind, args.aliasValue, hash args.aliasValue,
            args.apiKeyScope⟩)

theorem claimSelect_effect (hash : String → String) (s : Sys) (call : Nat) {args : ClaimArgs}
    (attempt : Nat) {now : Time} {a : Act} (issued : s.Issues a args now) :
    Effect hash s a (claimSelect hash s call args attempt now).db := by
  have notAlias : ∀ call args now, a = .registerOwnedAlias call args now →
      s.db.sessions.any (aliasFence args) = false := by
    obtain ⟨_, rfl | ⟨rfl, -⟩⟩ := issued
    · exact fun _ _ _ h => nomatch h
    · exact fun _ _ _ h => nomatch h
  simp only [claimSelect]
  split
  · exact .same a notAlias
  · rename_i existing found
    split
    · exact .same a notAlias
    · rename_i granted
      exact .claimed a args now existing issued found (by simpa using granted)

theorem claimInsert_effect (hash : String → String) (s : Sys) (call : Nat) (args : ClaimArgs)
    (attempt : Nat) (now : Time) (newId : String) (freshId : s.db.get newId = none) :
    Effect hash s (.insert call newId)
      (claimInsert hash s call args attempt now newId freshId).db := by
  simp only [claimInsert]
  split
  · rename_i freshKey
    exact .inserted call newId args now freshId freshKey
  · split
    · exact .same _ (fun _ _ _ h => nomatch h)
    · exact .same _ (fun _ _ _ h => nomatch h)

theorem fencedUpdate_db (s : Sys) (call : Nat) (sessionId : String) (p : SessionRow → Bool)
    (u : RowUpdate) : (fencedUpdate s call sessionId p u).db = s.db ∨
      (fencedUpdate s call sessionId p u).db = s.db.updateWhere p u := by
  simp only [fencedUpdate]
  split
  · exact Or.inr rfl
  · exact Or.inl rfl

/-- The step lemma. -/
theorem step_effect (hash : String → String) {s t : Sys} {a : Act}
    (h : step hash s a = some t) : Effect hash s a t.db := by
  cases a with
  | claim call args now =>
    simp only [step] at h
    split at h
    · cases h
      exact claimSelect_effect hash s call 0 ⟨call, Or.inl rfl⟩
    · cases h
  | reselect call now =>
    simp only [step] at h
    split at h
    · rename_i args waiting
      cases h
      exact claimSelect_effect hash s call 1 ⟨call, Or.inr ⟨rfl, waiting⟩⟩
    · cases h
  | insert call newId =>
    simp only [step] at h
    split at h
    · split at h
      · cases h
        exact claimInsert_effect hash s call _ _ _ newId _
      · cases h
    · cases h
  | renew call args now =>
    simp only [step] at h
    split at h
    · cases h
      rcases fencedUpdate_db s call args.sessionId
        (fence args.sessionId args.instanceId args.ownerEpoch) (renewUpdate args now) with hdb | hdb
      · rw [hdb]
        exact .same _ (fun _ _ _ h => nomatch h)
      · rw [hdb]
        exact .renewed call args now
    · cases h
  | release call args now =>
    simp only [step] at h
    split at h
    · cases h
      rcases fencedUpdate_db s call args.sessionId
        (fence args.sessionId args.instanceId args.ownerEpoch) (releaseUpdate args now)
        with hdb | hdb
      · rw [hdb]
        exact .same _ (fun _ _ _ h => nomatch h)
      · rw [hdb]
        exact .released call args now
    · cases h
  | registerOwnedAlias call args now =>
    simp only [step] at h
    split at h
    · cases h
      simp only [registerAlias]
      split
      · rename_i owned
        exact .registered call args now owned
      · rename_i refused
        refine .same _ ?_
        rintro _ _ _ ⟨⟩
        simpa using refused
    · cases h
  | readOwner call =>
    simp only [step] at h
    split at h
    · cases h
      exact .same _ (fun _ _ _ h => nomatch h)
    · cases h
  | crash call =>
    cases h
    exact .same _ (fun _ _ _ h => nomatch h)

/-- A row rewritten where `p` holds. -/
theorem Store.get_patched {db : Store} {id : String} {r : SessionRow} (hr : db.get id = some r)
    (p : SessionRow → Bool) (u : RowUpdate) :
    (db.updateWhere p u).get id = some (patch p u r) := by
  rw [Store.get_updateWhere, hr, Option.map_some]

/-- Rows are never removed, and each changes as `RowChange` says. -/
theorem step_row (hash : String → String) {s t : Sys} {a : Act} (h : step hash s a = some t)
    {id : String} {r : SessionRow} (hr : s.db.get id = some r) :
    ∃ r', t.db.get id = some r' ∧ RowChange a r r' := by
  have effect := step_effect hash h
  generalize t.db = db at effect
  cases effect with
  | same => exact ⟨r, hr, .same a r⟩
  | claimed _ args now existing issued found granted =>
    have claims : a.isClaim := by
      obtain ⟨call, rfl | ⟨rfl, -⟩⟩ := issued
      · trivial
      · trivial
    rw [claimStore_get, hr, Option.map_some]
    refine ⟨_, rfl, ?_⟩
    simp only [Store.patch]
    split
    · exact .claimed a args now r claims
    · exact .same a r
  | inserted call newId args now freshId freshKey =>
    exact ⟨r, Store.get_insertSession s.db (newRow hash args now newId) freshId freshKey hr,
      .same _ r⟩
  | renewed call args now =>
    refine ⟨_, Store.get_patched hr _ _, ?_⟩
    simp only [Store.patch]
    split
    · exact .renewed call args now r
    · exact .same _ r
  | released call args now =>
    refine ⟨_, Store.get_patched hr _ _, ?_⟩
    simp only [Store.patch]
    split
    · exact .released call args now r
    · exact .same _ r
  | registered call args now owned =>
    refine ⟨_, Store.get_patched hr _ _, ?_⟩
    simp only [Store.patch]
    split
    · exact .aliased call args now r
    · exact .same _ r

theorem claimRow_epoch (args : ClaimArgs) (now : Time) (r : SessionRow) :
    r.ownerEpoch ≤ (claimRow args now r).ownerEpoch := by
  simp only [claimRow, nextEpoch]
  split
  · omega
  · split
    · omega
    · omega

theorem RowChange.epoch_le {a : Act} {r r' : SessionRow} (h : RowChange a r r') :
    r.ownerEpoch ≤ r'.ownerEpoch := by
  cases h with
  | same => exact le_refl _
  | claimed _ args now => exact claimRow_epoch args now r
  | renewed => exact le_refl _
  | released => exact le_refl _
  | aliased => exact le_refl _

/-- A claim that moves the owner or the account opens a new epoch. -/
theorem claimRow_advances (args : ClaimArgs) (now : Time) (r : SessionRow)
    (moved : (claimRow args now r).ownerInstanceId ≠ r.ownerInstanceId ∨
      (claimRow args now r).accountId ≠ r.accountId) :
    r.ownerEpoch < (claimRow args now r).ownerEpoch := by
  by_cases ho : ownerChanged args r = true
  · simp only [claimRow, nextEpoch, if_pos ho]
    omega
  · have owner : r.ownerInstanceId = some args.instanceId := by
      simpa [ownerChanged] using ho
    have account : accountChanged args r = true := by
      rcases moved with moved | moved
      · exact absurd owner.symm moved
      · have other : args.accountId ≠ r.accountId := moved
        simpa [accountChanged] using other.symm
    simp only [claimRow, nextEpoch, if_neg ho, account, Bool.true_or, if_true]
    omega

theorem RowChange.claim_advances {a : Act} {r r' : SessionRow} (h : RowChange a r r')
    (ha : a.isClaim)
    (moved : r'.ownerInstanceId ≠ r.ownerInstanceId ∨ r'.accountId ≠ r.accountId) :
    r.ownerEpoch < r'.ownerEpoch := by
  cases h with
  | same => simp at moved
  | claimed _ args now => exact claimRow_advances args now r moved
  | renewed => exact False.elim ha
  | released => exact False.elim ha
  | aliased => exact False.elim ha

/-- The epoch of a row never decreases along a run. -/
theorem epoch_monotone (hash : String → String) {s t : Sys} (run : Steps (step hash) Any s t)
    {id : String} {r : SessionRow} (hr : s.db.get id = some r) :
    ∃ r', t.db.get id = some r' ∧ r.ownerEpoch ≤ r'.ownerEpoch := by
  induction run with
  | refl => exact ⟨r, hr, le_refl _⟩
  | tail a _ _ hstep ih =>
    obtain ⟨r₁, hget, hle⟩ := ih
    obtain ⟨r₂, hget₂, change⟩ := step_row hash hstep hget
    exact ⟨r₂, hget₂, le_trans hle change.epoch_le⟩

/-- The caller's pair is not the row's current pair. -/
def FencedOut (db : Store) (sessionId instanceId : String) (ownerEpoch : Int) : Prop :=
  ∀ r, db.get sessionId = some r →
    ¬ (r.ownerInstanceId = some instanceId ∧ r.ownerEpoch = ownerEpoch)

theorem fence_false {db : Store} {sessionId instanceId : String} {ownerEpoch : Int}
    (out : FencedOut db sessionId instanceId ownerEpoch) :
    ∀ r ∈ db.sessions, fence sessionId instanceId ownerEpoch r = false := by
  intro r hmem
  by_contra hfence
  simp only [fence, Bool.not_eq_false, Bool.and_eq_true, beq_iff_eq] at hfence
  obtain ⟨⟨hid, howner⟩, hepoch⟩ := hfence
  exact out r ((db.get_eq_some_iff sessionId r).mpr ⟨hmem, hid⟩) ⟨howner, hepoch⟩

theorem fencedUpdate_out (s : Sys) (call : Nat) {sessionId instanceId : String}
    {ownerEpoch : Int} (u : RowUpdate) (out : FencedOut s.db sessionId instanceId ownerEpoch) :
    fencedUpdate s call sessionId (fence sessionId instanceId ownerEpoch) u =
      s.wait call (.readOwner sessionId) := by
  have none_found : s.db.sessions.find? (fence sessionId instanceId ownerEpoch) = none := by
    apply List.find?_eq_none.mpr
    intro r hmem
    simp [fence_false out r hmem]
  simp only [fencedUpdate, none_found]

theorem registerAlias_out (hash : String → String) (s : Sys) (call : Nat) (args : AliasArgs)
    (now : Time) (out : FencedOut s.db args.sessionId args.instanceId args.ownerEpoch) :
    registerAlias hash s call args now = s.reply call (.registered false) := by
  have none_found : s.db.sessions.any (aliasFence args) = false := by
    apply List.any_eq_false.mpr
    intro r hmem
    simp [aliasFence, fence_false out r hmem]
  simp only [registerAlias, none_found, Bool.false_eq_true, if_false]

/-- What a fenced-out call leaves behind: a renewal or a release still has to
read the row, an alias registration has answered `False`. -/
def RefusedAs (a : Act) (call : Nat) (sessionId : String) (t u : Sys) : Prop :=
  match a with
  | .registerOwnedAlias _ _ _ => u = t.reply call (.registered false)
  | _ => u = t.wait call (.readOwner sessionId)

theorem step_fencedOut (hash : String → String) {t u : Sys} {a : Act}
    (h : step hash t a = some u) {call : Nat} {sessionId instanceId : String} {ownerEpoch : Int}
    (carries : a.carries = some (call, sessionId, instanceId, ownerEpoch))
    (out : FencedOut t.db sessionId instanceId ownerEpoch) :
    u.db = t.db ∧ RefusedAs a call sessionId t u := by
  cases a with
  | renew c args now =>
    simp only [Act.carries, Option.some.injEq, Prod.mk.injEq] at carries
    obtain ⟨rfl, rfl, rfl, rfl⟩ := carries
    simp only [step] at h
    split at h
    · cases h
      rw [fencedUpdate_out t c (renewUpdate args now) out]
      exact ⟨rfl, rfl⟩
    · cases h
  | release c args now =>
    simp only [Act.carries, Option.some.injEq, Prod.mk.injEq] at carries
    obtain ⟨rfl, rfl, rfl, rfl⟩ := carries
    simp only [step] at h
    split at h
    · cases h
      rw [fencedUpdate_out t c (releaseUpdate args now) out]
      exact ⟨rfl, rfl⟩
    · cases h
  | registerOwnedAlias c args now =>
    simp only [Act.carries, Option.some.injEq, Prod.mk.injEq] at carries
    obtain ⟨rfl, rfl, rfl, rfl⟩ := carries
    simp only [step] at h
    split at h
    · cases h
      rw [registerAlias_out hash t c args now out]
      exact ⟨rfl, rfl⟩
    · cases h
  | claim _ _ _ => cases carries
  | reselect _ _ => cases carries
  | insert _ _ => cases carries
  | readOwner _ => cases carries
  | crash _ => cases carries

/-- A pending owner read answers with the row as it stands when it runs. -/
theorem step_readOwner (hash : String → String) {t u : Sys} {call : Nat} {sessionId : String}
    (waiting : t.calls call = some (.readOwner sessionId))
    (h : step hash t (.readOwner call) = some u) :
    u.db = t.db ∧
      u.replies = (call, .snapshot ((t.db.get sessionId).map (·.toSnapshot))) :: t.replies := by
  simp only [step, waiting, Option.some.injEq] at h
  subst h
  exact ⟨rfl, rfl⟩

theorem Sys.wait_calls_ne (s : Sys) {call c : Nat} (w : Waiting) (h : c ≠ call) :
    (s.wait call w).calls c = s.calls c := by
  simp [Sys.wait, h]

theorem Sys.reply_calls_ne (s : Sys) {call c : Nat} (r : Reply) (h : c ≠ call) :
    (s.reply call r).calls c = s.calls c := by
  simp [Sys.reply, h]

/-- The replies a call has received, newest first. -/
def Sys.repliesTo (s : Sys) (call : Nat) : List (Nat × Reply) :=
  s.replies.filter fun x => x.1 == call

/-- A step of another call: it neither answers `c` nor moves it on. -/
def Untouched (c : Nat) (t u : Sys) : Prop :=
  u.calls c = t.calls c ∧ u.repliesTo c = t.repliesTo c

theorem untouched_wait (s : Sys) (db : Store) {call c : Nat} (w : Waiting) (h : c ≠ call) :
    Untouched c s ((s.withDb db).wait call w) :=
  ⟨Sys.wait_calls_ne (s.withDb db) w h, rfl⟩

theorem untouched_reply (s : Sys) (db : Store) {call c : Nat} (r : Reply) (h : c ≠ call) :
    Untouched c s ((s.withDb db).reply call r) := by
  refine ⟨Sys.reply_calls_ne (s.withDb db) r h, ?_⟩
  have other : (call == c) = false := by simpa using h.symm
  simp [Sys.repliesTo, Sys.reply, Sys.withDb, other]

theorem untouched_claimSelect (hash : String → String) (s : Sys) {call c : Nat}
    (args : ClaimArgs) (attempt : Nat) (now : Time) (h : c ≠ call) :
    Untouched c s (claimSelect hash s call args attempt now) := by
  simp only [claimSelect]
  split
  · exact untouched_wait s s.db _ h
  · split
    · exact untouched_reply s s.db _ h
    · exact untouched_reply s _ _ h

theorem untouched_fencedUpdate (s : Sys) {call c : Nat} (sessionId : String)
    (p : SessionRow → Bool) (u : RowUpdate) (h : c ≠ call) :
    Untouched c s (fencedUpdate s call sessionId p u) := by
  simp only [fencedUpdate]
  split
  · exact untouched_reply s _ _ h
  · exact untouched_wait s s.db _ h

/-- While an owner read is pending, only that read answers the call. -/
theorem step_pendingRead (hash : String → String) {t u : Sys} {a : Act}
    (h : step hash t a = some u) {c : Nat} {sessionId : String}
    (waiting : t.calls c = some (.readOwner sessionId)) :
    Untouched c t u ∨ a = .crash c ∨ a = .readOwner c := by
  cases a with
  | claim call args now =>
    simp only [step] at h
    split at h
    · rename_i idle
      cases h
      exact Or.inl (untouched_claimSelect hash t args 0 now (by rintro rfl; simp [waiting] at idle))
    · cases h
  | reselect call now =>
    simp only [step] at h
    split at h
    · rename_i selecting
      cases h
      exact Or.inl (untouched_claimSelect hash t _ 1 now
        (by rintro rfl; simp [waiting] at selecting))
    · cases h
  | insert call newId =>
    simp only [step] at h
    split at h
    · rename_i inserting
      have other : c ≠ call := by rintro rfl; simp [waiting] at inserting
      split at h
      · cases h
        left
        simp only [claimInsert]
        split
        · exact untouched_reply t _ _ other
        · split
          · exact untouched_wait t t.db _ other
          · exact untouched_reply t t.db _ other
      · cases h
    · cases h
  | renew call args now =>
    simp only [step] at h
    split at h
    · rename_i idle
      cases h
      exact Or.inl (untouched_fencedUpdate t _ _ _ (by rintro rfl; simp [waiting] at idle))
    · cases h
  | release call args now =>
    simp only [step] at h
    split at h
    · rename_i idle
      cases h
      exact Or.inl (untouched_fencedUpdate t _ _ _ (by rintro rfl; simp [waiting] at idle))
    · cases h
  | registerOwnedAlias call args now =>
    simp only [step] at h
    split at h
    · rename_i idle
      have other : c ≠ call := by rintro rfl; simp [waiting] at idle
      cases h
      left
      simp only [registerAlias]
      split
      · exact untouched_reply t _ _ other
      · exact untouched_reply t t.db _ other
    · cases h
  | readOwner call =>
    by_cases same : c = call
    · exact Or.inr (Or.inr (by rw [same]))
    · simp only [step] at h
      split at h
      · cases h
        exact Or.inl (untouched_reply t t.db _ same)
      · cases h
  | crash call =>
    by_cases same : c = call
    · exact Or.inr (Or.inl (by rw [same]))
    · cases h
      exact Or.inl ⟨by simp [same], rfl⟩

/-- Fencing along every run: epochs only grow, a claim that moves the owner or
the account opens a new epoch, and a write that carries any other pair than the
row's changes no row and no alias. A fenced-out renewal or release is answered
with the owner current at its read; an alias registration answers `False`. -/
theorem durable_bridge_fenced (hash : String → String) {s t : Sys}
    (run : Steps (step hash) Any s t) :
    (∀ id r, s.db.get id = some r →
      ∃ r', t.db.get id = some r' ∧ r.ownerEpoch ≤ r'.ownerEpoch) ∧
    (∀ a u, step hash t a = some u →
      (a.isClaim → ∀ id r r', t.db.get id = some r → u.db.get id = some r' →
        (r'.ownerInstanceId ≠ r.ownerInstanceId ∨ r'.accountId ≠ r.accountId) →
        r.ownerEpoch < r'.ownerEpoch) ∧
      (∀ call id inst epoch, a.carries = some (call, id, inst, epoch) →
        FencedOut t.db id inst epoch → u.db = t.db ∧ RefusedAs a call id t u) ∧
      (∀ call id, t.calls call = some (.readOwner id) →
        Untouched call t u ∨ a = .crash call ∨
        (u.db = t.db ∧
          u.replies = (call, .snapshot ((t.db.get id).map (·.toSnapshot))) :: t.replies))) := by
  refine ⟨fun id r hr => epoch_monotone hash run hr, ?_⟩
  intro a u hstep
  refine ⟨?_, ?_, ?_⟩
  · intro claims id r r' hr hr' moved
    obtain ⟨q, hq, change⟩ := step_row hash hstep hr
    have same : q = r' := Option.some.inj (hq.symm.trans hr')
    subst same
    exact change.claim_advances claims moved
  · intro call id inst epoch carries out
    exact step_fencedOut hash hstep carries out
  · intro call id waiting
    rcases step_pendingRead hash hstep waiting with other | crash | read
    · exact Or.inl other
    · exact Or.inr (Or.inl crash)
    · subst read
      exact Or.inr (Or.inr (step_readOwner hash waiting hstep))

def threadHash (value : String) : String :=
  if value = "thread-7" then "7369a510fb91d7dbab5074391bb95b5d9609b3e603177dfc64f91175890a5fca"
  else "29ab4da5d303f37b29ea0f2111603060ea40e3fb6dcb30ea57ea3116028e10d2"

def threadClaim (instanceId : String) (allowTakeover : Bool) : ClaimArgs :=
  ⟨"session_header", "thread-7", "__anonymous__", instanceId, 60000000, some "acc-1", none, none,
    none, none, allowTakeover, false⟩

/-- Instance `a` creates the row and `b` takes it over. -/
def takeoverRun : List Act :=
  [.claim 0 (threadClaim "a" false) 0, .insert 0 "row-1", .claim 1 (threadClaim "b" true) 10]

def idleSys : Sys := ⟨Store.empty, fun _ => none, []⟩

def takenOver : Sys := (replay (step threadHash) idleSys takeoverRun).getD idleSys

def takenRow : SessionRow :=
  claimRow (threadClaim "b" true) 10 (newRow threadHash (threadClaim "a" false) 0 "row-1")

theorem takenOver_run : Steps (step threadHash) Any idleSys takenOver :=
  steps_of_replay takeoverRun (fun _ _ _ => trivial) rfl

theorem takenOver_fencesOut : FencedOut takenOver.db "row-1" "a" 1 := by
  intro r hr
  have row : takenOver.db.get "row-1" = some takenRow := rfl
  have same : takenRow = r := Option.some.inj (row.symm.trans hr)
  subst same
  decide

def staleRenewal : Act := .renew 2 ⟨"row-1", "a", 1, 60000000, none, none, none, none, none⟩ 20

theorem stale_renewal_after_takeover :
    ∃ u, step threadHash takenOver staleRenewal = some u ∧ u.db = takenOver.db ∧
      u = takenOver.wait 2 (.readOwner "row-1") := by
  refine ⟨_, rfl, ?_⟩
  exact ((durable_bridge_fenced threadHash takenOver_run).2 staleRenewal _ rfl).2.1 2 "row-1" "a" 1
    rfl takenOver_fencesOut

/-- The call is over and its answer names `row`. -/
def ReportsOwner (s : Sys) (call : Nat) (row : SessionRow) : Prop :=
  (call, Reply.snapshot (some row.toSnapshot)) ∈ s.repliesTo call

def staleAlias : Act :=
  .registerOwnedAlias 2 ⟨"row-1", "__anonymous__", "a", 1, "turn_state", "ts-1", 60000000,
    some "ts-1", none, none, none⟩ 20

/-- A fenced-out alias registration is over at once and names no owner. -/
theorem stale_alias_names_no_owner :
    ∃ t u, Steps (step threadHash) Any idleSys t ∧ t.db.get "row-1" = some takenRow ∧
      FencedOut t.db "row-1" "a" 1 ∧ step threadHash t staleAlias = some u ∧
      u.calls 2 = none ∧ ¬ ReportsOwner u 2 takenRow := by
  refine ⟨takenOver, _, takenOver_run, rfl, takenOver_fencesOut, rfl, rfl, ?_⟩
  simp only [ReportsOwner]
  decide

end DurableBridge
