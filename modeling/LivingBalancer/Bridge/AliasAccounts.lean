import LivingBalancer.Bridge.Maintenance

/-!
# Continuity aliases and the account of their session

A record keeps for each alias key the account its session carried when the alias
was registered. Claims clear the aliases of a session whose account they change,
under the row's lock. An account closure deletes the aliases it sees and closes
the sessions in a later statement, so an alias registered in between outlives the
account of its session.
-/

namespace DurableBridge

open Runs

namespace Store

/-- The account of a present session row. -/
def accountOf (db : Store) (sessionId : String) : Option (Option String) :=
  (db.get sessionId).map (·.accountId)

theorem accountOf_updateWhere (db : Store) (p : SessionRow → Bool) (u : RowUpdate)
    (keeps : ∀ r, (u.apply r).accountId = r.accountId) (id : String) :
    (db.updateWhere p u).accountOf id = db.accountOf id := by
  simp only [accountOf]
  rw [get_updateWhere, Option.map_map]
  congr 1
  funext r
  simp only [Function.comp_apply, patch]
  split
  · exact keeps r
  · rfl

theorem accountOf_insertSession (db : Store) (row : SessionRow) (freshId : db.get row.id = none)
    (freshKey : db.findByKey row.key = none) {id : String} (present : (db.accountOf id).isSome) :
    (db.insertSession row freshId freshKey).accountOf id = db.accountOf id := by
  simp only [accountOf] at present ⊢
  rw [Option.isSome_map] at present
  obtain ⟨r, hr⟩ := Option.isSome_iff_exists.mp present
  rw [get_insertSession db row freshId freshKey hr, hr]

end Store

abbrev Registered := Key → Option (Option String)

def AliasArgs.key (hash : String → String) (args : AliasArgs) : Key :=
  ⟨args.aliasKind, hash args.aliasValue, args.apiKeyScope⟩

/-- Note the session's account when an alias registration is accepted. -/
def noteAlias (hash : String → String) (w : World) (a : WorldAct) (_ : World) (g : Registered) :
    Registered :=
  match a with
  | .call (.registerOwnedAlias _ args _) =>
    if w.db.sessions.any (aliasFence args) then
      Function.update g (args.key hash) (w.db.accountOf args.sessionId)
    else g
  | _ => g

def aliasStep (hash : String → String) :
    World × Registered → WorldAct → Option (World × Registered) :=
  recording (World.step hash) (noteAlias hash)

/-- Each alias that resolves to a session was registered under the session's account. -/
def AliasesOnAccount (x : World × Registered) : Prop :=
  ∀ entry ∈ x.1.db.aliases, ∀ r, x.1.db.get entry.sessionId = some r →
    x.2 entry.key = some r.accountId

/-- A closure closes its sessions while they have no alias but those it deletes. -/
def ClosesAll (w : World) : WorldAct → Prop
  | .closeSessions job _ => ∀ accountId keys, w.closures job = some (accountId, keys) →
      ∀ entry ∈ w.db.aliases, w.db.accountOf entry.sessionId = some (some accountId) →
      entry.key ∈ keys
  | _ => True

/-- The law together with the foreign key of the alias table. -/
def AliasInv (db : Store) (g : Registered) : Prop :=
  ∀ entry ∈ db.aliases, (db.accountOf entry.sessionId).isSome ∧
    g entry.key = db.accountOf entry.sessionId

theorem AliasInv.law {x : World × Registered} (inv : AliasInv x.1.db x.2) :
    AliasesOnAccount x := by
  intro entry hmem r hr
  rw [(inv entry hmem).2, Store.accountOf, hr]
  rfl

/-- An update of session rows that keeps their accounts keeps the law. -/
theorem AliasInv.updateWhere {db : Store} {g : Registered} (inv : AliasInv db g)
    (p : SessionRow → Bool) (u : RowUpdate) (keeps : ∀ r, (u.apply r).accountId = r.accountId) :
    AliasInv (db.updateWhere p u) g := by
  intro entry hmem
  rw [Store.accountOf_updateWhere db p u keeps]
  exact inv entry hmem

theorem claimStore_accountOf (db : Store) (args : ClaimArgs) (now : Time)
    (existing : SessionRow) {id : String} (keeps : id = existing.id →
      accountChanged args existing = false ∧ db.get id = some existing) :
    (claimStore db args now existing).accountOf id = db.accountOf id := by
  simp only [Store.accountOf]
  rw [claimStore_get]
  cases hr : db.get id with
  | none => rfl
  | some r =>
    simp only [Option.map_some, Store.patch]
    split
    · rename_i sameId
      have hid : id = existing.id := ((db.get_eq_some_iff id r).mp hr).2 ▸ beq_iff_eq.mp sameId
      obtain ⟨hsame, hexisting⟩ := keeps hid
      rw [hr] at hexisting
      obtain rfl := Option.some.inj hexisting
      have account : r.accountId = args.accountId := by simpa [accountChanged] using hsame
      simp [claimUpdate, claimRow, account]
    · rfl

theorem AliasInv.claimed {db : Store} {g : Registered} (inv : AliasInv db g) (args : ClaimArgs)
    (now : Time) {existing : SessionRow} (present : db.get existing.id = some existing) :
    AliasInv (claimStore db args now existing) g := by
  intro entry hmem
  have aliases : entry ∈ db.aliases ∧
      (accountChanged args existing = true → entry.sessionId ≠ existing.id) := by
    simp only [claimStore] at hmem
    cases hc : accountChanged args existing with
    | true =>
      simp only [hc, if_true] at hmem
      have kept := List.mem_filter.mp hmem
      exact ⟨kept.1, fun _ => by simpa using kept.2⟩
    | false =>
      simp only [hc, Bool.false_eq_true, if_false] at hmem
      exact ⟨hmem, fun changed => absurd changed Bool.false_ne_true⟩
  rw [claimStore_accountOf]
  · exact inv entry aliases.1
  · intro same
    refine ⟨?_, by rw [same]; exact present⟩
    by_contra changed
    exact aliases.2 (by simpa using changed) same

theorem AliasInv.inserted {db : Store} {g : Registered} (inv : AliasInv db g) (row : SessionRow)
    (freshId : db.get row.id = none) (freshKey : db.findByKey row.key = none) :
    AliasInv (db.insertSession row freshId freshKey) g := by
  intro entry hmem
  have before := inv entry hmem
  rw [Store.accountOf_insertSession db row freshId freshKey before.1]
  exact before

/-- After an upsert the row with the new key points to the new session. -/
theorem mem_upsertAlias {db : Store} {row entry : AliasRow}
    (h : entry ∈ (db.upsertAlias row).aliases) :
    (entry.key = row.key ∧ entry.sessionId = row.sessionId) ∨
      (entry.key ≠ row.key ∧ entry ∈ db.aliases) := by
  simp only [Store.upsertAlias] at h
  split_ifs at h with known
  · obtain ⟨old, hold, rfl⟩ := List.mem_map.mp h
    by_cases same : old.key = row.key
    · left
      exact ⟨by rw [Store.repoint_key, same], by simp [Store.repoint, same]⟩
    · right
      have unchanged : Store.repoint row old = old := by simp [Store.repoint, same]
      rw [unchanged]
      exact ⟨same, hold⟩
  · rcases List.mem_append.mp h with hold | hnew
    · refine Or.inr ⟨?_, hold⟩
      intro same
      exact known (same ▸ List.mem_map_of_mem hold)
    · obtain rfl := List.mem_singleton.mp hnew
      exact Or.inl ⟨rfl, rfl⟩

theorem AliasInv.upserted {db : Store} {g : Registered} (inv : AliasInv db g) (row : AliasRow)
    (present : (db.accountOf row.sessionId).isSome) :
    AliasInv (db.upsertAlias row) (Function.update g row.key (db.accountOf row.sessionId)) := by
  intro entry hmem
  have rows : (db.upsertAlias row).accountOf entry.sessionId = db.accountOf entry.sessionId := rfl
  rw [rows]
  rcases mem_upsertAlias hmem with ⟨hkey, hsession⟩ | ⟨hkey, hold⟩
  · rw [hkey, hsession, Function.update_self]
    exact ⟨present, rfl⟩
  · rw [Function.update_of_ne hkey]
    exact inv entry hold

theorem aliasFence_present {db : Store} {args : AliasArgs}
    (owned : db.sessions.any (aliasFence args) = true) :
    (db.accountOf args.sessionId).isSome := by
  obtain ⟨r, hmem, hfence⟩ := List.any_eq_true.mp owned
  have hid : r.id = args.sessionId := by
    simp only [aliasFence, fence, Bool.and_eq_true, beq_iff_eq] at hfence
    exact hfence.1.1.1
  have hget := (db.get_eq_some_iff args.sessionId r).mpr ⟨hmem, hid⟩
  simp [Store.accountOf, hget]

theorem closed_accountOf (db : Store) (accountId : String) (keys : List Key) (now : Time)
    (id : String) : (closed db accountId keys now).accountOf id =
      (db.accountOf id).map fun acc => if acc = some accountId then none else acc := by
  simp only [Store.accountOf, closed]
  rw [Store.get_updateWhere, Store.get_deleteAliases, Option.map_map, Option.map_map]
  congr 1
  funext r
  by_cases own : r.accountId = some accountId
  · simp [Store.patch, own, closedUpdate, closedRow]
  · simp [Store.patch, own]

theorem AliasInv.closed {db : Store} {g : Registered} (inv : AliasInv db g) {accountId : String}
    {keys : List Key} (now : Time) (all : ∀ entry ∈ db.aliases,
      db.accountOf entry.sessionId = some (some accountId) → entry.key ∈ keys) :
    AliasInv (DurableBridge.closed db accountId keys now) g := by
  intro entry hmem
  obtain ⟨hold, hkey⟩ := List.mem_filter.mp hmem
  obtain ⟨present, hg⟩ := inv entry hold
  obtain ⟨acc, hacc⟩ := Option.isSome_iff_exists.mp present
  have other : acc ≠ some accountId := by
    rintro rfl
    have deleted := all entry hold hacc
    simp [deleted] at hkey
  rw [hg, closed_accountOf, hacc]
  simp [other]

/-- One step that closes no session with further aliases keeps the law. -/
theorem aliasInv_step {hash : String → String} {x y : World × Registered} {a : WorldAct}
    (inv : AliasInv x.1.db x.2) (ok : ClosesAll x.1 a) (h : aliasStep hash x a = some y) :
    AliasInv y.1.db y.2 := by
  obtain ⟨hstep, hnote⟩ := recording_eq_some.mp h
  have effect := World.step_effect hash hstep
  rw [hnote]
  generalize y.1.db = db at effect
  cases effect with
  | same _ idle =>
    have unnoted : noteAlias hash x.1 a y.1 x.2 = x.2 := by
      cases a with
      | call b => exact absurd rfl (idle b)
      | tick | drainRead | drainCommit | closeAliases | closeSessions | abandon => rfl
    rw [unnoted]
    exact inv
  | called b db effect past =>
    have inv : AliasInv x.1.sys.db x.2 := inv
    cases effect with
    | same _ refused =>
      have unnoted : noteAlias hash x.1 (.call b) y.1 x.2 = x.2 := by
        cases b with
        | registerOwnedAlias call args now =>
          have hrefused := refused call args now rfl
          simp [noteAlias, World.db, hrefused]
        | claim | reselect | insert | renew | release | readOwner | crash => rfl
      rw [unnoted]
      exact inv
    | claimed _ args now existing issued found granted =>
      have unnoted : noteAlias hash x.1 (.call b) y.1 x.2 = x.2 := by
        obtain ⟨call, rfl | ⟨rfl, -⟩⟩ := issued
        · rfl
        · rfl
      rw [unnoted]
      have present := (x.1.sys.db.get_eq_some_iff _ _).mpr
        ⟨List.mem_of_find?_eq_some found, rfl⟩
      exact inv.claimed args now present
    | inserted call newId args now freshId freshKey =>
      exact inv.inserted (newRow hash args now newId) freshId freshKey
    | renewed call args now => exact inv.updateWhere _ _ fun _ => rfl
    | released call args now => exact inv.updateWhere _ _ fun _ => rfl
    | registered call args now owned =>
      have noted : noteAlias hash x.1 (.call (.registerOwnedAlias call args now)) y.1 x.2
          = Function.update x.2 (args.key hash) (x.1.sys.db.accountOf args.sessionId) := by
        simp [noteAlias, World.db, owned]
      have accounts := Store.accountOf_updateWhere x.1.sys.db (aliasFence args)
        (aliasedUpdate args now) (fun _ => rfl) args.sessionId
      rw [noted, ← accounts]
      refine (inv.updateWhere (aliasFence args) (aliasedUpdate args now) fun _ => rfl).upserted
        ⟨args.sessionId, args.aliasKind, args.aliasValue, hash args.aliasValue,
          args.apiKeyScope⟩ ?_
      rw [accounts]
      exact aliasFence_present owned
  | drained job now instanceId ids reading => exact inv.updateWhere _ _ fun _ => rfl
  | closed job now accountId keys deleting =>
    exact inv.closed now (ok accountId keys deleting)

/-- A closure that leaves the law intact had deleted every alias of the sessions it closes. -/
theorem closesAll_of_law {hash : String → String} {x y : World × Registered} {a : WorldAct}
    (inv : AliasInv x.1.db x.2) (h : aliasStep hash x a = some y) (law : AliasesOnAccount y) :
    ClosesAll x.1 a := by
  obtain ⟨hstep, hnote⟩ := recording_eq_some.mp h
  cases a with
  | closeSessions job now =>
    intro accountId keys deleting entry hmem hacc
    by_contra missed
    simp only [World.step, deleting] at hstep
    split_ifs at hstep
    have hdb : y.1.db = closed x.1.db accountId keys now := by
      rw [← Option.some.inj hstep]
      rfl
    have hkept : entry ∈ y.1.db.aliases := by
      rw [hdb]
      exact List.mem_filter.mpr ⟨hmem, by simpa using missed⟩
    have hclosed : y.1.db.accountOf entry.sessionId = some none := by
      rw [hdb, closed_accountOf, hacc]
      simp
    obtain ⟨r, hr, hr'⟩ := Option.map_eq_some_iff.mp hclosed
    have hlaw := law entry hkept r hr
    rw [hnote] at hlaw
    have hbefore : x.2 entry.key = some (some accountId) := (inv entry hmem).2.trans hacc
    have hnoted : noteAlias hash x.1 (.closeSessions job now) y.1 x.2 = x.2 := rfl
    rw [hnoted, hbefore, hr'] at hlaw
    cases hlaw
  | call | tick | drainRead | drainCommit | closeAliases | abandon => trivial

/-- At every state of a run whose closures all had deleted every alias of the sessions they
close, aliases stay on their account; the next step keeps this exactly if it is no closure that
missed an alias. -/
theorem aliases_stay_on_account (hash : String → String) {x : World × Registered}
    (reached : Reachable (aliasStep hash) (fun x a => ClosesAll x.1 a) (fun x => x.1.Idle) x) :
    AliasesOnAccount x ∧ ∀ a y, aliasStep hash x a = some y →
      (AliasesOnAccount y ↔ ClosesAll x.1 a) := by
  have inv : AliasInv x.1.db x.2 := by
    refine reached.invariant (I := fun x => AliasInv x.1.db x.2) ?_ ?_
    · intro x idle entry hmem
      rw [idle.1] at hmem
      cases hmem
    · intro x a y inv ok hstep
      exact aliasInv_step inv ok hstep
  refine ⟨inv.law, ?_⟩
  intro a y hstep
  exact ⟨closesAll_of_law inv hstep, fun ok => (aliasInv_step inv ok hstep).law⟩

/-- A registered alias and a closure that has deleted the aliases of its account. -/
def turnAlias (value : String) : AliasArgs :=
  ⟨"row-1", "__anonymous__", "a", 1, "turn_state", value, 60000000, some value, none, none, none⟩

def closingRun : List WorldAct :=
  [.call (.claim 0 (threadClaim "a" false) 0), .call (.insert 0 "row-1"),
    .call (.registerOwnedAlias 1 (turnAlias "ts-1") 0), .closeAliases 0 "acc-1"]

def unregistered (w : World) : World × Registered := (w, fun _ => none)

def unusedWorld : World := ⟨idleSys, 0, fun _ => none, fun _ => none⟩

theorem unusedWorld_idle : (unregistered unusedWorld).1.Idle :=
  ⟨rfl, fun _ => rfl, fun _ => rfl, fun _ => rfl⟩

def closingWorld : World × Registered :=
  (replay (aliasStep id) (unregistered unusedWorld) closingRun).getD (unregistered unusedWorld)

theorem closing_account_keeps_aliases :
    ∃ y, aliasStep id closingWorld (.closeSessions 0 0) = some y ∧ AliasesOnAccount y := by
  have reached : Reachable (aliasStep id) (fun x a => ClosesAll x.1 a) (fun x => x.1.Idle)
      closingWorld := by
    refine reachable_of_replay closingRun unusedWorld_idle ?_ rfl
    intro s a ha
    simp only [closingRun, List.mem_cons, List.not_mem_nil, or_false] at ha
    rcases ha with rfl | rfl | rfl | rfl
    all_goals trivial
  refine ⟨_, rfl, ((aliases_stay_on_account id reached).2 (.closeSessions 0 0) _ rfl).mpr ?_⟩
  intro accountId keys deleting entry hmem _
  have read : closingWorld.1.closures 0
      = some ("acc-1", [⟨"turn_state", "ts-1", "__anonymous__"⟩]) := rfl
  obtain ⟨rfl, rfl⟩ := Prod.mk.inj (Option.some.inj (read.symm.trans deleting))
  have rows : closingWorld.1.db.aliases
      = [⟨"row-1", "turn_state", "ts-1", "ts-1", "__anonymous__"⟩] := rfl
  rw [rows] at hmem
  obtain rfl := List.mem_singleton.mp hmem
  exact List.mem_singleton.mpr rfl

/-- An alias registered between the two statements of a closure keeps naming the closed session. -/
theorem alias_outlives_closed_account :
    ∃ x, Reachable (aliasStep id) Any (fun x => x.1.Idle) x ∧ ¬ AliasesOnAccount x := by
  refine ⟨_, reachable_of_replay (closingRun ++
    [.call (.registerOwnedAlias 2 (turnAlias "ts-2") 0), .closeSessions 0 0]) unusedWorld_idle
    (fun _ _ _ => trivial) rfl, ?_⟩
  intro law
  have hlaw := law ⟨"row-1", "turn_state", "ts-2", "ts-2", "__anonymous__"⟩ (by decide) _ rfl
  cases hlaw

end DurableBridge
