import LivingBalancer.Bridge.Maintenance

/-!
# Live leases under draining

A record notes for each session which instance took its own row out of ACTIVE.
As long as no draining call commits over a row that another instance has taken
in the meantime, an unexpired lease ends only through its owner: by a release,
or by a takeover of a row its owner had put into DRAINING or CLOSED. The
draining write carries no fence, so the proviso is not vacuous.
-/

namespace DurableBridge

open Runs

/-! ## Guarded row changes -/

/-- What a call can do to a row, with the guard it passed. -/
inductive GuardedChange (s : Sys) (a : Act) : SessionRow → SessionRow → Prop where
  | same (r : SessionRow) : GuardedChange s a r r
  | claimed (args : ClaimArgs) (now : Time) (r : SessionRow) (issued : s.Issues a args now)
      (granted : claimRefused args now r = false) : GuardedChange s a r (claimRow args now r)
  | renewed (call : Nat) (args : RenewArgs) (now : Time) (r : SessionRow)
      (act : a = .renew call args now)
      (fenced : fence args.sessionId args.instanceId args.ownerEpoch r = true) :
      GuardedChange s a r (renewRow args now r)
  | released (call : Nat) (args : ReleaseArgs) (now : Time) (r : SessionRow)
      (act : a = .release call args now)
      (fenced : fence args.sessionId args.instanceId args.ownerEpoch r = true) :
      GuardedChange s a r (releaseRow args now r)
  | aliased (call : Nat) (args : AliasArgs) (now : Time) (r : SessionRow)
      (act : a = .registerOwnedAlias call args now) (fenced : aliasFence args r = true) :
      GuardedChange s a r (aliasedRow args now r)

theorem Store.findByKey_get {db : Store} {key : Key} {existing : SessionRow}
    (found : db.findByKey key = some existing) : db.get existing.id = some existing :=
  (db.get_eq_some_iff _ _).mpr ⟨List.mem_of_find?_eq_some found, rfl⟩

theorem Store.get_id {db : Store} {id : String} {r : SessionRow} (h : db.get id = some r) :
    r.id = id :=
  ((db.get_eq_some_iff id r).mp h).2

theorem Effect.guarded {hash : String → String} {s : Sys} {a : Act} {db : Store}
    (effect : Effect hash s a db) {id : String} {r : SessionRow} (hr : s.db.get id = some r) :
    ∃ r', db.get id = some r' ∧ GuardedChange s a r r' := by
  cases effect with
  | same => exact ⟨r, hr, .same r⟩
  | claimed _ args now existing issued found granted =>
    rw [claimStore_get, hr, Option.map_some]
    refine ⟨_, rfl, ?_⟩
    simp only [Store.patch]
    split
    · rename_i sameId
      have hid : id = existing.id := by
        rw [← Store.get_id hr]
        exact beq_iff_eq.mp sameId
      have same : r = existing := by
        rw [hid, Store.findByKey_get found] at hr
        exact (Option.some.inj hr).symm
      rw [same]
      exact .claimed args now existing issued granted
    · exact .same r
  | inserted call newId args now freshId freshKey =>
    exact ⟨r, Store.get_insertSession s.db (newRow hash args now newId) freshId freshKey hr,
      .same r⟩
  | renewed call args now =>
    refine ⟨_, Store.get_patched hr _ _, ?_⟩
    simp only [Store.patch]
    split
    · rename_i fenced
      exact .renewed call args now r rfl fenced
    · exact .same r
  | released call args now =>
    refine ⟨_, Store.get_patched hr _ _, ?_⟩
    simp only [Store.patch]
    split
    · rename_i fenced
      exact .released call args now r rfl fenced
    · exact .same r
  | registered call args now owned =>
    refine ⟨_, Store.get_patched hr _ _, ?_⟩
    simp only [Store.patch]
    split
    · rename_i fenced
      exact .aliased call args now r rfl fenced
    · exact .same r

theorem fence_owner {sessionId instanceId : String} {ownerEpoch : Int} {r : SessionRow}
    (h : fence sessionId instanceId ownerEpoch r = true) :
    r.ownerInstanceId = some instanceId := by
  simp only [fence, Bool.and_eq_true, beq_iff_eq] at h
  exact h.1.2

/-! ## Claims in flight -/

def Sys.pendingClaim (s : Sys) (call : Nat) : Option ClaimArgs :=
  match s.calls call with
  | some (.select args) | some (.insert args _ _) => some args
  | _ => none

theorem pendingClaim_wait (s : Sys) (call c : Nat) (w : Waiting) :
    (s.wait call w).pendingClaim c = if c = call then
      (match w with
        | .select args | .insert args _ _ => some args
        | .readOwner _ => none) else s.pendingClaim c := by
  simp only [Sys.pendingClaim, Sys.wait]
  by_cases same : c = call
  · cases w <;> simp [same]
  · simp [same]

theorem pendingClaim_reply (s : Sys) (call c : Nat) (r : Reply) :
    (s.reply call r).pendingClaim c = if c = call then none else s.pendingClaim c := by
  simp only [Sys.pendingClaim, Sys.reply]
  by_cases same : c = call
  · simp [same]
  · simp [same]

/-- A reply leaves only claims that were in flight before. -/
theorem pendingClaim_of_reply {s : Sys} {call c : Nat} {r : Reply} {args : ClaimArgs}
    (h : (s.reply call r).pendingClaim c = some args) : s.pendingClaim c = some args := by
  rw [pendingClaim_reply] at h
  split_ifs at h
  exact h

/-- A claim in flight was in flight before or has just been called. -/
theorem step_pendingClaim (hash : String → String) {s t : Sys} {a : Act}
    (h : step hash s a = some t) {c : Nat} {args : ClaimArgs}
    (pending : t.pendingClaim c = some args) :
    s.pendingClaim c = some args ∨ ∃ now, a = .claim c args now := by
  cases a with
  | claim call args' now =>
    simp only [step, claimSelect] at h
    split_ifs at h
    cases h
    split at pending
    · rw [pendingClaim_wait] at pending
      split_ifs at pending with same
      · exact .inr ⟨now, by rw [same, Option.some.inj pending]⟩
      · exact .inl pending
    · split_ifs at pending
      all_goals
        exact .inl (pendingClaim_of_reply pending :)
  | reselect call now =>
    simp only [step] at h
    split at h
    · rename_i args' waiting
      cases h
      have before : s.pendingClaim call = some args' := by simp [Sys.pendingClaim, waiting]
      simp only [claimSelect] at pending
      split at pending
      · rw [pendingClaim_wait] at pending
        split_ifs at pending with same
        · exact .inl (by rw [same, before, Option.some.inj pending])
        · exact .inl pending
      · split_ifs at pending
        all_goals
          exact .inl (pendingClaim_of_reply pending :)
    · cases h
  | insert call newId =>
    simp only [step] at h
    split at h
    · rename_i args' attempt now waiting
      have before : s.pendingClaim call = some args' := by simp [Sys.pendingClaim, waiting]
      split_ifs at h
      cases h
      simp only [claimInsert] at pending
      split_ifs at pending
      · exact .inl (pendingClaim_of_reply pending :)
      · rw [pendingClaim_wait] at pending
        split_ifs at pending with same
        · exact .inl (by rw [same, before, Option.some.inj pending])
        · exact .inl pending
      · exact .inl (pendingClaim_of_reply pending :)
    · cases h
  | renew call args' now | release call args' now =>
    simp only [step, fencedUpdate] at h
    split_ifs at h
    cases h
    split at pending
    · exact .inl (pendingClaim_of_reply pending :)
    · rw [pendingClaim_wait] at pending
      split_ifs at pending
      exact .inl pending
  | registerOwnedAlias call args' now =>
    simp only [step, registerAlias] at h
    split_ifs at h
    all_goals
      cases h
      exact .inl (pendingClaim_of_reply pending :)
  | readOwner call =>
    simp only [step] at h
    split at h
    · cases h
      exact .inl (pendingClaim_of_reply pending :)
    · cases h
  | crash call =>
    cases h
    simp only [Sys.pendingClaim] at pending ⊢
    by_cases same : c = call
    · simp [same] at pending
    · simp only [if_neg same] at pending
      exact .inl pending

/-! ## The law of live leases -/

def Live (clock : Time) (r : SessionRow) : Prop :=
  ∃ deadline, r.leaseExpiresAt = some deadline ∧ clock < deadline

/-- The instance on whose behalf a step writes. -/
def World.actor (w : World) : WorldAct → Option String
  | .call (.claim _ args _) => some args.instanceId
  | .call (.reselect call _) | .call (.insert call _) =>
    (w.sys.pendingClaim call).map (·.instanceId)
  | .call (.renew _ args _) => some args.instanceId
  | .call (.release _ args _) => some args.instanceId
  | .call (.registerOwnedAlias _ args _) => some args.instanceId
  | .drainCommit job _ => (w.drains job).map Prod.fst
  | _ => none

def IsReleaseBy (instanceId : String) : WorldAct → Prop
  | .call (.release _ args _) => args.instanceId = instanceId
  | _ => False

/-- The instance that itself took the session out of ACTIVE, until a claim puts it back. -/
abbrev Quitters := String → Option String

def noteQuit (w : World) (a : WorldAct) (v : World) (q : Quitters) : Quitters := fun id =>
  match w.db.get id, v.db.get id with
  | some r, some r' =>
    if r'.state = .active then none
    else if r.state = .active ∧ w.actor a = r.ownerInstanceId then w.actor a
    else q id
  | _, _ => none

/-- Claims without takeover, renewals, releases, alias registrations and draining. -/
def LeaseAct : WorldAct → Prop
  | .call (.claim _ args _) => args.allowTakeover = false
  | .closeAliases _ _ | .closeSessions _ _ => False
  | _ => True

/-- Every row a draining call read and that now has another owner is DRAINING already. -/
def DrainsOwn (w : World) : WorldAct → Prop
  | .drainCommit job _ => ∀ i ids, w.drains job = some (i, ids) → ∀ id ∈ ids, ∀ r,
      w.db.get id = some r → ∀ j, r.ownerInstanceId = some j → j ≠ i → r.state = .draining
  | _ => True

/-- An unexpired lease leaves its owner only by the owner's release or after the owner gave it up,
and a draining call leaves the state of the rows of other instances alone. -/
structure LeaseKept (w : World) (q : Quitters) (a : WorldAct) (v : World) : Prop where
  owner : ∀ id r r' i, w.db.get id = some r → v.db.get id = some r' →
    r.ownerInstanceId = some i → Live w.clock r → r'.ownerInstanceId ≠ some i →
    IsReleaseBy i a ∨ q id = some i
  drain : ∀ job now i ids, a = .drainCommit job now → w.drains job = some (i, ids) →
    ∀ id r r' j, w.db.get id = some r → v.db.get id = some r' → r.ownerInstanceId = some j →
    j ≠ i → r'.state = r.state

structure LeaseInv (x : World × Quitters) : Prop where
  claims : ∀ call args, x.1.sys.pendingClaim call = some args → args.allowTakeover = false
  quit : ∀ id r i, x.1.db.get id = some r → r.ownerInstanceId = some i → r.state ≠ .active →
    x.2 id = some i

def leaseStep (hash : String → String) : World × Quitters → WorldAct → Option (World × Quitters) :=
  recording (World.step hash) noteQuit

def LeaseOk (x : World × Quitters) (a : WorldAct) : Prop := LeaseAct a ∧ DrainsOwn x.1 a

theorem not_expired_of_live {clock now : Time} {r : SessionRow} (live : Live clock r)
    (past : now ≤ clock) : leaseExpired now r = false := by
  obtain ⟨deadline, hdeadline, hlt⟩ := live
  simp only [leaseExpired, hdeadline, decide_eq_false_iff_not]
  exact not_le.mpr (lt_of_le_of_lt past hlt)

theorem World.issued_without_takeover {x : World × Quitters} (inv : LeaseInv x) {a : Act}
    (act : LeaseAct (.call a)) {args : ClaimArgs} {now : Time}
    (issued : x.1.sys.Issues a args now) : args.allowTakeover = false := by
  obtain ⟨call, rfl | ⟨rfl, waiting⟩⟩ := issued
  · exact act
  · exact inv.claims call args (by simp [Sys.pendingClaim, waiting])

theorem Issues.time {s : Sys} {a : Act} {args : ClaimArgs} {now : Time}
    (issued : s.Issues a args now) : a.time = some now := by
  obtain ⟨call, rfl | ⟨rfl, -⟩⟩ := issued
  · rfl
  · rfl

theorem drained_get {db : Store} {id : String} {r : SessionRow} (hr : db.get id = some r)
    (ids : List String) (now : Time) : (drained db ids now).get id
      = some (if ids.contains id then drainingRow now r else r) := by
  simp only [drained]
  rw [Store.get_patched hr]
  simp only [Store.patch, Store.get_id hr]
  rfl

/-- One step under the proviso keeps the law. -/
theorem leaseKept_step {hash : String → String} {x : World × Quitters} {a : WorldAct} {v : World}
    (inv : LeaseInv x) (ok : LeaseOk x a) (h : x.1.step hash a = some v) :
    LeaseKept x.1 x.2 a v := by
  have effect := World.step_effect hash h
  constructor
  · intro id r r' i hr hr' howner live moved
    generalize v.db = db at effect hr'
    cases effect with
    | same =>
      obtain rfl : r = r' := Option.some.inj (hr.symm.trans hr')
      exact absurd howner moved
    | called a db effect past =>
      obtain ⟨r'', hr'', change⟩ := effect.guarded hr
      obtain rfl : r'' = r' := Option.some.inj (hr''.symm.trans hr')
      cases change with
      | same => exact absurd howner moved
      | claimed args now _ issued granted =>
        have notTakeover := World.issued_without_takeover inv ok.1 issued
        have hexpired := not_expired_of_live live (past now (Issues.time issued))
        have hchanged : ownerChanged args r = true := by
          simp only [ownerChanged, howner, bne_iff_ne, ne_eq]
          intro same
          exact moved same.symm
        have hstate : stateAllowsTakeover r = true := by
          simpa [claimRefused, hchanged, notTakeover, hexpired] using granted
        have inactive : r.state ≠ .active := by
          intro hactive
          simp [stateAllowsTakeover, hactive] at hstate
        exact .inr (inv.quit id r i hr howner inactive)
      | renewed call args now _ act fenced => exact absurd howner moved
      | released call args now _ act fenced =>
        subst act
        have same := (fence_owner fenced).symm.trans howner
        exact .inl (Option.some.inj same)
      | aliased call args now _ act fenced => exact absurd howner moved
    | drained job now instanceId ids reading =>
      rw [drained_get hr] at hr'
      obtain rfl := Option.some.inj hr'
      split_ifs at moved
      all_goals exact absurd howner moved
    | closed job now accountId keys deleting => exact ok.1.elim
  · rintro job now i ids rfl reading id r r' j hr hr' howner other
    generalize v.db = db at effect hr'
    cases effect with
    | same =>
      obtain rfl : r = r' := Option.some.inj (hr.symm.trans hr')
      rfl
    | drained _ _ instanceId ids' reading' =>
      obtain ⟨rfl, rfl⟩ := Prod.mk.inj (Option.some.inj (reading.symm.trans reading'))
      rw [drained_get hr] at hr'
      obtain rfl := Option.some.inj hr'
      split_ifs with hmem
      · exact (ok.2 i ids reading id (by simpa using hmem) r hr j howner other).symm
      · rfl

theorem noteQuit_eq {w v : World} {a : WorldAct} {q : Quitters} {id i : String}
    {r r' : SessionRow} (hr : w.db.get id = some r) (hr' : v.db.get id = some r')
    (inactive : r'.state ≠ .active) (before : r.state ≠ .active → q id = some i)
    (own : r.state = .active → w.actor a = some i ∧ r.ownerInstanceId = some i) :
    noteQuit w a v q id = some i := by
  simp only [noteQuit, hr, hr', if_neg inactive]
  by_cases active : r.state = .active
  · obtain ⟨hactor, howner⟩ := own active
    simp [active, hactor, howner]
  · simp [active, before active]

theorem Store.get_updateWhere_none {db : Store} {id : String} (h : db.get id = none)
    (p : SessionRow → Bool) (u : RowUpdate) : (db.updateWhere p u).get id = none := by
  rw [Store.get_updateWhere, h, Option.map_none]

/-- A row that was not there before is ACTIVE. -/
theorem WorldEffect.new_active {hash : String → String} {w : World} {a : WorldAct} {db : Store}
    (effect : WorldEffect hash w a db) {id : String} {r : SessionRow}
    (absent : w.db.get id = none) (hr : db.get id = some r) : r.state = .active := by
  have impossible : ∀ {r : SessionRow}, (none : Option SessionRow) = some r → False := nofun
  cases effect with
  | same => exact (impossible (absent.symm.trans hr)).elim
  | called a db effect past =>
    have absent : w.sys.db.get id = none := absent
    cases effect with
    | same => exact (impossible (absent.symm.trans hr)).elim
    | claimed _ args now existing issued found granted =>
      rw [claimStore_get, absent] at hr
      cases hr
    | inserted call newId args now freshId freshKey =>
      have hfind : w.sys.db.sessions.find? (fun r => r.id == id) = none := absent
      have hnew : (newRow hash args now newId) = r := by
        simp only [Store.get, Store.insertSession, List.find?_append, hfind, Option.none_or,
          List.find?_cons] at hr
        split at hr
        · exact Option.some.inj hr
        · cases hr
      rw [← hnew]
      rfl
    | renewed call args now =>
      exact (impossible ((Store.get_updateWhere_none absent _ _).symm.trans hr)).elim
    | released call args now =>
      exact (impossible ((Store.get_updateWhere_none absent _ _).symm.trans hr)).elim
    | registered call args now owned =>
      exact (impossible ((Store.get_updateWhere_none absent _ _).symm.trans hr)).elim
  | drained job now instanceId ids reading =>
    exact (impossible ((Store.get_updateWhere_none absent _ _).symm.trans hr)).elim
  | closed job now accountId keys deleting =>
    exact (impossible ((Store.get_updateWhere_none
      (show (w.db.deleteAliases keys).get id = none from absent) _ _).symm.trans hr)).elim

/-- One step under the proviso keeps the invariant. -/
theorem leaseInv_step {hash : String → String} {x y : World × Quitters} {a : WorldAct}
    (inv : LeaseInv x) (ok : LeaseOk x a) (h : leaseStep hash x a = some y) : LeaseInv y := by
  obtain ⟨hstep, hnote⟩ := recording_eq_some.mp h
  have effect := World.step_effect hash hstep
  constructor
  · intro call args pending
    cases a with
    | call a =>
      simp only [World.step] at hstep
      split_ifs at hstep
      obtain ⟨sys, hsys, hy⟩ := Option.map_eq_some_iff.mp hstep
      rw [← hy] at pending
      rcases step_pendingClaim hash hsys pending with before | ⟨now, rfl⟩
      · exact inv.claims call args before
      · exact ok.1
    | tick now | drainRead job i | closeAliases job i =>
      simp only [World.step] at hstep
      split_ifs at hstep
      rw [← Option.some.inj hstep] at pending
      exact inv.claims call args pending
    | drainCommit job now | closeSessions job now =>
      simp only [World.step] at hstep
      split at hstep
      · split_ifs at hstep
        rw [← Option.some.inj hstep] at pending
        exact inv.claims call args pending
      · cases hstep
    | abandon job =>
      rw [← Option.some.inj hstep] at pending
      exact inv.claims call args pending
  · intro id r' i hr' howner' inactive
    rw [hnote]
    cases hr : x.1.db.get id with
    | none => exact absurd (effect.new_active hr hr') inactive
    | some r =>
      have quit : ∀ i, r.ownerInstanceId = some i → r.state ≠ .active → x.2 id = some i :=
        fun i => inv.quit id r i hr
      have hget := hr'
      generalize y.1.db = db at effect hget
      cases effect with
      | same =>
        obtain rfl : r = r' := Option.some.inj (hr.symm.trans hget)
        exact noteQuit_eq hr hr' inactive (quit i howner') fun active => absurd active inactive
      | called a db effect past =>
        obtain ⟨r'', hr'', change⟩ := effect.guarded hr
        obtain rfl : r'' = r' := Option.some.inj (hr''.symm.trans hget)
        cases change with
        | same =>
          exact noteQuit_eq hr hr' inactive (quit i howner') fun active => absurd active inactive
        | claimed args now _ issued granted => exact absurd rfl inactive
        | renewed call args now _ act fenced =>
          subst act
          have howner : r.ownerInstanceId = some i := howner'
          have hactor : some args.instanceId = some i := (fence_owner fenced).symm.trans howner
          exact noteQuit_eq hr hr' inactive (quit i howner) fun _ => ⟨hactor, howner⟩
        | released call args now _ act fenced => cases howner'
        | aliased call args now _ act fenced =>
          have inactive' : r.state ≠ .active := inactive
          exact noteQuit_eq hr hr' inactive (quit i howner') fun active =>
            absurd active inactive'
      | drained job now instanceId ids reading =>
        rw [drained_get hr] at hget
        obtain rfl := Option.some.inj hget
        have howner : r.ownerInstanceId = some i := by
          split_ifs at howner'
          · exact howner'
          · exact howner'
        refine noteQuit_eq hr hr' inactive (quit i howner) fun active => ⟨?_, howner⟩
        have hmem : id ∈ ids := by
          by_contra absent
          simp [absent, active] at inactive
        by_cases own : i = instanceId
        · rw [own]
          simp [World.actor, reading]
        · have hdraining := ok.2 instanceId ids reading id hmem r hr i howner own
          rw [active] at hdraining
          cases hdraining
      | closed job now accountId keys deleting => exact ok.1.elim

theorem leaseInv_idle {x : World × Quitters} (idle : x.1.Idle) : LeaseInv x := by
  obtain ⟨hempty, hcalls, -, -⟩ := idle
  constructor
  · intro call args pending
    simp [Sys.pendingClaim, hcalls] at pending
  · intro id r i hr
    rw [hempty] at hr
    cases hr

/-- A draining call that leaves the rows of others alone committed over none of them. -/
theorem drainsOwn_of_kept {hash : String → String} {w v : World} {q : Quitters} {a : WorldAct}
    (h : w.step hash a = some v) (kept : LeaseKept w q a v) : DrainsOwn w a := by
  cases a with
  | drainCommit job now =>
    intro i ids reading id hmem r hr j howner other
    simp only [World.step, reading] at h
    split_ifs at h
    obtain rfl := Option.some.inj h
    have hget := drained_get hr ids now
    have hstate := kept.drain job now i ids rfl reading id r _ j hr hget howner other
    rw [if_pos (by simpa using hmem)] at hstate
    exact hstate.symm
  | call | tick | drainRead | closeAliases | closeSessions | abandon => trivial

/-- After every run whose draining calls commit over no row another instance has taken, a step
keeps the live leases exactly if it is no draining call that does. -/
theorem live_lease_kept_iff (hash : String → String) {x : World × Quitters}
    (reached : Reachable (leaseStep hash) LeaseOk (fun x => x.1.Idle) x) {a : WorldAct}
    (act : LeaseAct a) {v : World} (h : x.1.step hash a = some v) :
    LeaseKept x.1 x.2 a v ↔ DrainsOwn x.1 a := by
  have inv : LeaseInv x := by
    refine reached.invariant (fun x => leaseInv_idle) ?_
    intro x a y inv ok hstep
    exact leaseInv_step inv ok hstep
  refine ⟨drainsOwn_of_kept h, ?_⟩
  intro own
  exact leaseKept_step inv ⟨act, own⟩ h

def idleWorld : World × Quitters := (⟨idleSys, 0, fun _ => none, fun _ => none⟩, fun _ => none)

theorem idleWorld_idle : idleWorld.1.Idle := ⟨rfl, fun _ => rfl, fun _ => rfl, fun _ => rfl⟩

/-- Instance `a` has a live row and a draining call that has read it. -/
def drainingRun : List WorldAct :=
  [.call (.claim 0 (threadClaim "a" false) 0), .call (.insert 0 "row-1"), .drainRead 0 "a"]

def drainingWorld : World × Quitters :=
  (replay (leaseStep threadHash) idleWorld drainingRun).getD idleWorld

/-- The row of `a` expires, and `b` takes it before the draining call commits. -/
def overtakenRun : List WorldAct :=
  drainingRun ++ [.tick 60000000, .call (.claim 1 (threadClaim "b" false) 60000000),
    .drainCommit 0 60000000]

def overtakenWorld : World × Quitters :=
  (replay (leaseStep threadHash) idleWorld overtakenRun).getD idleWorld

theorem draining_own_row_keeps_lease :
    ∃ v, drainingWorld.1.step threadHash (.drainCommit 0 0) = some v ∧
      LeaseKept drainingWorld.1 drainingWorld.2 (.drainCommit 0 0) v := by
  have reached : Reachable (leaseStep threadHash) LeaseOk (fun x => x.1.Idle) drainingWorld := by
    refine reachable_of_replay drainingRun idleWorld_idle ?_ rfl
    intro s a ha
    simp only [drainingRun, List.mem_cons, List.not_mem_nil, or_false] at ha
    rcases ha with rfl | rfl | rfl
    · exact ⟨rfl, trivial⟩
    · exact ⟨trivial, trivial⟩
    · exact ⟨trivial, trivial⟩
  have act : LeaseAct (.drainCommit 0 0) := trivial
  refine ⟨_, rfl, (live_lease_kept_iff threadHash reached act rfl).mpr ?_⟩
  intro i ids reading id hmem r hr j howner other
  have read : drainingWorld.1.drains 0 = some ("a", ["row-1"]) := rfl
  obtain ⟨rfl, rfl⟩ := Prod.mk.inj (Option.some.inj (read.symm.trans reading))
  obtain rfl := List.mem_singleton.mp hmem
  have row : drainingWorld.1.db.get "row-1"
      = some (newRow threadHash (threadClaim "a" false) 0 "row-1") := rfl
  obtain rfl := Option.some.inj (row.symm.trans hr)
  exact absurd (Option.some.inj howner).symm other

theorem draining_displaces_new_owner :
    ∃ x a v, Reachable (leaseStep threadHash) (fun _ a => LeaseAct a) (fun x => x.1.Idle) x ∧
      LeaseAct a ∧ x.1.step threadHash a = some v ∧ ¬ LeaseKept x.1 x.2 a v := by
  refine ⟨overtakenWorld, .call (.claim 2 (threadClaim "c" false) 60000000), _,
    reachable_of_replay overtakenRun idleWorld_idle ?_ rfl, rfl, rfl, ?_⟩
  · intro s a ha
    simp only [overtakenRun, drainingRun, List.cons_append, List.nil_append, List.mem_cons,
      List.not_mem_nil, or_false] at ha
    rcases ha with rfl | rfl | rfl | rfl | rfl | rfl
    all_goals first | rfl | trivial
  · intro kept
    rcases kept.owner "row-1" _ _ "b" rfl rfl rfl ⟨120000000, rfl, by decide⟩ (by decide)
      with hrelease | hquit
    · exact hrelease
    · cases hquit

end DurableBridge
