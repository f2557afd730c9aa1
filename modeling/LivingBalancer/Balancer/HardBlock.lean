import LivingBalancer.Balancer.CallSteps

/-!
# Hard blocks under in-flight traffic

A row that an operator or the refresh path set to PAUSED, REAUTH_REQUIRED or
DEACTIVATED, and the balancer's writes on older snapshots. Selections and recorded
errors compare the row with their snapshot first and never change such a status;
`mark_rate_limit` and `mark_quota_exceeded` write unconditionally and do.
-/

namespace Balancer

open Runs

/-- The state of a hard-blocked snapshot still has its status. -/
def KeepsHardBlock (e : Account × AccountState) : Prop :=
  e.1.status.hardBlocked = true → e.2.status = e.1.status

section Build

theorem applyUsageQuota_hardBlocked (now : ℚ) (q : QuotaInput) (hard : q.status.hardBlocked = true) :
    (applyUsageQuota now q).status = q.status := by
  simp [applyUsageQuota, hard]

theorem accountVerdict_hardBlocked (settings : Settings) (now : ℚ) {account : Account}
    (runtime : RuntimeState) (primary secondary : Option UsageEntry)
    (hard : account.status.hardBlocked = true) :
    (accountVerdict settings now account runtime primary secondary).status = account.status := by
  have notLimited : account.status ≠ .rateLimited := by
    intro limited
    rw [limited] at hard
    cases hard
  simp only [accountVerdict]
  simp only [notLimited, decide_false, Bool.and_false, Bool.false_eq_true, if_false, false_and]
  exact applyUsageQuota_hardBlocked now _ hard

theorem buildState_hardBlocked (settings : Settings) (now : ℚ) (inputs : SelectionInputs)
    (account : Account) (rt : RuntimeState) :
    KeepsHardBlock (account, (buildState settings now inputs account rt).1) := by
  intro hard
  dsimp only at hard ⊢
  rw [(buildState_verdict settings now inputs account rt).1]
  exact accountVerdict_hardBlocked settings now rt _ _ hard

theorem openSection_hardBlocked (settings : Settings) (now monotonic : ℚ) (inputs : SelectionInputs)
    (p : Pool) : ∀ e ∈ (openSection settings now monotonic inputs p).1, KeepsHardBlock e := by
  rintro ⟨account, state⟩ he
  obtain ⟨_, hstate⟩ := openSection_entry settings now inputs monotonic p _ he
  dsimp only at hstate
  rw [hstate]
  exact buildState_hardBlocked settings now inputs account _

end Build

/-- A choice is never for a hard-blocked snapshot. -/
def SparesHardBlock (choice : Option AccountState) (built : List (Account × AccountState)) : Prop :=
  ∀ ch, choice = some ch → ∀ e ∈ built, e.2.accountId = ch.accountId →
    e.1.status.hardBlocked = false

theorem Selects.keepsHardBlock {cfg : RouteConfig} {limit : ℚ} {grace : String → ℚ}
    {built after : List (Account × AccountState)} {choice : Option AccountState}
    (h : Selects cfg limit grace built after choice) (keeps : ∀ e ∈ built, KeepsHardBlock e) :
    ∀ e ∈ after, KeepsHardBlock e := by
  intro e' he' hard
  obtain ⟨e, he, haccount, examined⟩ := h.mem he'
  rw [haccount] at hard ⊢
  have status := keeps e he hard
  exact (examined.hardBlocked (by rw [status]; exact hard)).trans status

theorem Selects.sparesHardBlock {cfg : RouteConfig} {limit : ℚ} {grace : String → ℚ}
    {built after : List (Account × AccountState)} {choice : Option AccountState}
    (h : Selects cfg limit grace built after choice) (distinct : (built.map (·.1.id)).Nodup)
    (ids : ∀ e ∈ built, e.2.accountId = e.1.id) (keeps : ∀ e ∈ built, KeepsHardBlock e) :
    SparesHardBlock choice after := by
  intro ch hch e' he' hid
  obtain ⟨e, he, haccount, _, selectable⟩ := h.chosen_entry distinct ids hch he' hid
  by_contra hard
  rw [haccount, Bool.not_eq_false] at hard
  have passed := selectable.not_hardBlocked.1
  rw [keeps e he hard, hard] at passed
  cases passed

theorem Concludes.keepsHardBlock {choice : Option AccountState} {c c' : SelectCall}
    (h : Concludes choice c c') (keeps : ∀ e ∈ c.built, KeepsHardBlock e)
    (spares : SparesHardBlock choice c.built) : ∀ e ∈ c'.built, KeepsHardBlock e := by
  intro e' he'
  rcases h.mem he' with he' | ⟨ch, hch, e, he, hid, rfl⟩
  · exact keeps e' he'
  · intro hard
    have soft := spares ch hch e he hid
    rw [soft] at hard
    cases hard

/-- No state a replica holds would change a hard block it was built from. -/
structure Replica.RespectsBlocks (r : Replica) : Prop where
  shaped : r.Shaped
  entries : ∀ call c pc, r.selects call = some (c, pc) → ∀ e ∈ c.built, KeepsHardBlock e
  choices : ∀ call c pc, r.selects call = some (c, pc) → SparesHardBlock pc.choice c.built
  marks : ∀ call m, r.marks call = some m → m.Computed

theorem CallMove.keepsHardBlock {settings : Settings} {now : ℚ} {r : Replica} {act : ReplicaAct}
    {c : SelectCall} {pc : SelectPc} (move : CallMove settings now r act c pc)
    (before : r.RespectsBlocks) :
    (∀ e ∈ c.built, KeepsHardBlock e) ∧ SparesHardBlock pc.choice c.built := by
  have noChoice : ∀ {pc : SelectPc}, pc.choice = none → SparesHardBlock pc.choice c.built := by
    intro pc none ch hch
    rw [none] at hch
    cases hch
  cases move with
  | cleared built _ _ choice =>
    refine ⟨?_, noChoice choice⟩
    rw [built]
    exact List.forall_mem_nil _
  | kept old built _ _ choice _ => exact ⟨built ▸ before.entries _ _ _ old, noChoice choice⟩
  | opened old _ built =>
    refine ⟨?_, noChoice rfl⟩
    rw [built]
    exact openSection_hardBlocked settings now _ _ _
  | selected old _ selects concludes =>
    have keeps := selects.keepsHardBlock (openSection_hardBlocked settings now _ _ _)
    have spares := selects.sparesHardBlock (openSection_distinct settings now _ _ _)
      (openSection_ids settings now _ _ _) (openSection_hardBlocked settings now _ _ _)
    exact ⟨concludes.keepsHardBlock keeps spares, noChoice rfl⟩
  | chose old _ _ selects =>
    have shape := before.shaped _ _ _ old
    have entries := before.entries _ _ _ old
    exact ⟨selects.keepsHardBlock entries,
      selects.sparesHardBlock shape.distinct shape.ids entries⟩
  | committed old concludes =>
    exact ⟨concludes.keepsHardBlock (before.entries _ _ _ old) (before.choices _ _ _ old),
      noChoice rfl⟩

theorem Replica.RespectsBlocks.step {settings : Settings} {now : ℚ} {rows rows' : Rows}
    {r r' : Replica} {act : ReplicaAct} (h : r.RespectsBlocks)
    (hstep : r.step settings now rows act = some (r', rows')) : r'.RespectsBlocks := by
  have facts := Replica.step_facts hstep
  refine ⟨h.shaped.step hstep, ?_, ?_, ?_⟩
  · intro call c pc hc
    rcases facts.calls call c pc hc with old | move
    · exact h.entries call c pc old
    · exact (move.keepsHardBlock h).1
  · intro call c pc hc
    rcases facts.calls call c pc hc with old | move
    · exact h.choices call c pc old
    · exact (move.keepsHardBlock h).2
  · intro call m hm
    rcases facts.marks call m hm with old | computed
    · exact h.marks call m old
    · exact computed

theorem reachable_respectsBlocks {settings : Settings} {ok : World → Act → Prop} {w : World}
    (h : Reachable (World.step settings) ok World.Initial w) (i : Nat) :
    (w.replicas i).RespectsBlocks := by
  refine replica_invariant (I := fun _ r => r.RespectsBlocks) ?_ ?_ ?_ h
  · intro w hw
    rw [hw i]
    refine ⟨?_, ?_, ?_, ?_⟩
    · intro call c pc hc
      cases hc
    · intro call c pc hc
      cases hc
    · intro call c pc hc
      cases hc
    · intro call m hm
      cases hm
  · intro _ _ _ _ hr
    exact hr
  · intro _ _ _ _ hr _ hstep
    exact hr.step hstep

section Rows

variable {rows : Rows} {id : String} {row : Account}

/-- The status column of a row, if the row exists. -/
def Rows.status (rows : Rows) (id : String) : Option AccountStatus := (rows id).map (·.status)

theorem updateStatus_status (w : StatusColumns) (x : String) (hrow : rows id = some row) :
    Rows.status (updateStatus rows x w) id = some (if id = x then w.status else row.status) := by
  simp only [Rows.status, updateStatus]
  by_cases same : id = x
  · rw [if_pos same, if_pos same, hrow]
    rfl
  · rw [if_neg same, if_neg same, hrow]
    rfl

/-- A compare-and-set writes a status of `id` only over the status it expects. -/
theorem persistStateIfCurrent_status (account : Account) (state : AccountState)
    (token : Option String) (hrow : rows id = some row) :
    Rows.status (persistStateIfCurrent rows account state token).1 id = some row.status ∨
      account.id = id ∧ row.columns = account.columns ∧
        Rows.status (persistStateIfCurrent rows account state token).1 id = some state.status := by
  have same : Rows.status rows id = some row.status := by simp [Rows.status, hrow]
  simp only [persistStateIfCurrent]
  split
  · exact Or.inl same
  · simp only [updateStatusIfCurrent]
    cases hcurrent : rows account.id with
    | none => exact Or.inl same
    | some current =>
      dsimp only
      split
      · rename_i matched
        have written := updateStatus_status (stateColumns state) account.id hrow
        by_cases hid : id = account.id
        · have hcurrent' : current = row := by
            rw [← hid, hrow] at hcurrent
            exact (Option.some.inj hcurrent).symm
          rw [if_pos hid] at written
          exact Or.inr ⟨hid.symm, hcurrent' ▸ matched.1, written⟩
        · rw [if_neg hid] at written
          exact Or.inl written
      · exact Or.inl same

theorem persistState_status (account : Account) (state : AccountState) (hrow : rows id = some row) :
    Rows.status (persistState rows account state) id =
      some (if id = account.id ∧ account.columns ≠ stateColumns state then state.status
        else row.status) := by
  simp only [persistState]
  split
  · rename_i same
    simp [Rows.status, hrow, same]
  · rename_i differ
    rw [updateStatus_status _ _ hrow]
    by_cases hid : id = account.id
    · rw [if_pos hid, if_pos ⟨hid, differ⟩]
      rfl
    · rw [if_neg hid, if_neg fun both => hid both.1]

end Rows

/-- The marks whose row write compares nothing. -/
def Mark.unguarded : Mark → Bool
  | .rateLimit _ _ | .quotaExceeded _ => true
  | .permanentFailure _ | .errors _ => false

/-- The step writes the row of `id` for a rate-limit or quota mark whose state differs from
the snapshot it began with. -/
def ReplicaAct.Overwrites (r : Replica) (id : String) : ReplicaAct → Prop
  | .markPersist call => ∃ m, r.marks call = some m ∧ m.account.id = id ∧
      m.mark.unguarded = true ∧ m.account.columns ≠ stateColumns m.state
  | _ => False

/-- The step is the guarded downgrade of a permanent failure of `id`. -/
def ReplicaAct.Downgrades (r : Replica) (id : String) : ReplicaAct → Prop
  | .markPersist call => ∃ m, r.marks call = some m ∧ m.account.id = id ∧
      ∃ errorCode, m.mark = .permanentFailure errorCode
  | _ => False

theorem MarkCall.Computed.status {m : MarkCall} (h : m.Computed) :
    (m.mark.unguarded = true → m.state.status.hardBlocked = false) ∧
      (∀ count, m.mark = .errors count → m.state.status = m.account.status) := by
  obtain ⟨now, rt, hstate⟩ := h
  refine ⟨?_, ?_⟩
  · intro unguarded
    rw [hstate]
    cases hmark : m.mark with
    | rateLimit error jitter => rfl
    | quotaExceeded error => rfl
    | permanentFailure errorCode =>
      rw [hmark] at unguarded
      cases unguarded
    | errors count =>
      rw [hmark] at unguarded
      cases unguarded
  · intro count hmark
    rw [hstate, hmark]
    rfl

theorem MarkCall.Computed.keeps_iff {m : MarkCall} (h : m.Computed) {rows : Rows} {id : String}
    {row : Account} (hrow : rows id = some row) (hard : row.status.hardBlocked = true)
    (spared : ¬ (m.account.id = id ∧ ∃ errorCode, m.mark = .permanentFailure errorCode)) :
    Rows.status (m.persist rows) id = some row.status ↔
      ¬ (m.account.id = id ∧ m.mark.unguarded = true ∧ m.account.columns ≠ stateColumns m.state) := by
  obtain ⟨soft, sameStatus⟩ := h.status
  have unguarded : m.mark.unguarded = true → m.persist rows = persistState rows m.account m.state →
      (Rows.status (m.persist rows) id = some row.status ↔ ¬ (m.account.id = id ∧
        m.mark.unguarded = true ∧ m.account.columns ≠ stateColumns m.state)) := by
    intro kind written
    rw [written, persistState_status m.account m.state hrow, kind]
    by_cases hit : id = m.account.id ∧ m.account.columns ≠ stateColumns m.state
    · rw [if_pos hit]
      refine iff_of_false ?_ fun spare => spare ⟨hit.1.symm, rfl, hit.2⟩
      intro same
      have lifted := soft kind
      rw [Option.some.inj same, hard] at lifted
      cases lifted
    · rw [if_neg hit]
      exact iff_of_true rfl fun bad => hit ⟨bad.1.symm, bad.2.2⟩
  cases hmark : m.mark with
  | rateLimit error jitter =>
    rw [← hmark]
    exact unguarded (by rw [hmark]; rfl) (by simp only [MarkCall.persist, hmark])
  | quotaExceeded error =>
    rw [← hmark]
    exact unguarded (by rw [hmark]; rfl) (by simp only [MarkCall.persist, hmark])
  | permanentFailure errorCode =>
    refine iff_of_true ?_ fun bad => by cases bad.2.1
    simp only [MarkCall.persist, hmark]
    rcases persistStateIfCurrent_status m.account m.state (some m.account.refreshTokenEncrypted)
      hrow with same | ⟨hid, _, _⟩
    · exact same
    · exact absurd ⟨hid, errorCode, hmark⟩ spared
  | errors count =>
    refine iff_of_true ?_ fun bad => by cases bad.2.1
    simp only [MarkCall.persist, hmark]
    rcases persistStateIfCurrent_status m.account m.state none hrow with same | ⟨_, matched, written⟩
    · exact same
    · have status : row.status = m.account.status := congrArg StatusColumns.status matched
      rw [written, sameStatus count hmark, status]

/-- The step lemma: of all steps but a downgrade, exactly the unguarded mark writes take a
hard block away. -/
theorem Replica.RespectsBlocks.keeps_iff {settings : Settings} {now : ℚ} {rows rows' : Rows}
    {r r' : Replica} {act : ReplicaAct} (h : r.RespectsBlocks)
    (hstep : r.step settings now rows act = some (r', rows')) {id : String} {row : Account}
    (hrow : rows id = some row) (hard : row.status.hardBlocked = true)
    (spared : ¬ act.Downgrades r id) :
    Rows.status rows' id = some row.status ↔ ¬ act.Overwrites r id := by
  cases (Replica.step_facts hstep).rows with
  | none quiet =>
    refine iff_of_true (by simp [Rows.status, hrow]) ?_
    intro overwrites
    cases act with
    | markPersist call => cases quiet
    | _ => exact overwrites
  | @persist call c pc e rest old pending _ =>
    refine iff_of_true ?_ fun overwrites => overwrites
    have held : e ∈ c.built := (h.shaped _ _ _ old).pending e (pending ▸ List.mem_cons_self)
    have keeps := h.entries _ _ _ old e held
    rcases persistStateIfCurrent_status e.1 e.2 none hrow with same | ⟨_, matched, written⟩
    · exact same
    · -- the snapshot carries the row's status, and its state kept it
      have status : row.status = e.1.status := congrArg StatusColumns.status matched
      rw [written, keeps (status ▸ hard), status]
  | @mark call m old =>
    rw [(h.marks call m old).keeps_iff hrow hard fun bad => spared ⟨m, old, bad⟩]
    refine not_congr ⟨fun bad => ⟨m, old, bad⟩, ?_⟩
    rintro ⟨m', old', bad⟩
    rw [old] at old'
    cases old'
    exact bad

/-- The run meets no other writer of the row of `id`, and no unguarded write of it. -/
def Act.SparesBlock (id : String) (w : World) : Act → Prop
  | .advance _ => True
  | .write x _ => x ≠ id
  | .on i act => ¬ act.Downgrades (w.replicas i) id ∧ ¬ act.Overwrites (w.replicas i) id

theorem hardBlock_spared {settings : Settings} {id : String} {w w' : World}
    (h : Reachable (World.step settings) Any World.Initial w)
    (run : Steps (World.step settings) (fun w a => a.SparesBlock id w) w w') {status : AccountStatus}
    (hard : status.hardBlocked = true) (blocked : Rows.status w.rows id = some status) :
    Rows.status w'.rows id = some status := by
  -- the invariant of the sparing run: reachable, and the status still in place
  have inv : Reachable (World.step settings) Any World.Initial w' ∧
      Rows.status w'.rows id = some status := by
    refine run.invariant (I := fun w => Reachable (World.step settings) Any World.Initial w ∧
      Rows.status w.rows id = some status) ?_ ⟨h, blocked⟩
    rintro s a t ⟨⟨s₀, h₀, before⟩, blocked⟩ ok hstep
    refine ⟨⟨s₀, h₀, before.tail a trivial hstep⟩, ?_⟩
    cases World.step_move hstep with
    | advance _ => exact blocked
    | @write x row =>
      have other : id ≠ x := fun same => ok same.symm
      simpa [Rows.status, other] using blocked
    | @on i act r rows hr =>
      obtain ⟨row, hrow, rfl⟩ := Option.map_eq_some_iff.mp blocked
      have respects := reachable_respectsBlocks ⟨s₀, h₀, before⟩ i
      exact (respects.keeps_iff hr hrow hard ok.1).mpr ok.2
  exact inv.2

/-- A hard block survives every run that spares its row; and of the balancer steps from any
reachable state, exactly the unguarded mark writes change the status. -/
theorem hard_block_survives (settings : Settings) {w : World}
    (h : Reachable (World.step settings) Any World.Initial w) (id : String)
    (status : AccountStatus) (hard : status.hardBlocked = true)
    (blocked : Rows.status w.rows id = some status) :
    (∀ w', Steps (World.step settings) (fun w a => a.SparesBlock id w) w w' →
      Rows.status w'.rows id = some status) ∧
    (∀ i act w', w.step settings (.on i act) = some w' → ¬ act.Downgrades (w.replicas i) id →
      (Rows.status w'.rows id = some status ↔ ¬ act.Overwrites (w.replicas i) id)) := by
  refine ⟨fun w' run => hardBlock_spared h run hard blocked, ?_⟩
  intro i act w' hstep spared
  cases World.step_move hstep with
  | on hr =>
    obtain ⟨row, hrow, rfl⟩ := Option.map_eq_some_iff.mp blocked
    exact (reachable_respectsBlocks h i).keeps_iff hr hrow hard spared

/-- A request leaves with an active snapshot; the operator pauses the account; the request
comes back with a 429. -/
def pausedThenLimited : List Act :=
  [.write "a" (some { healthyAccount "a" with status := .paused }),
    .on 0 (.mark 1 (healthyAccount "a") (.rateLimit ⟨some 5, none, none⟩ 1))]

/-- A recorded error of the same request leaves the pause alone. -/
def pausedThenError : List Act :=
  [.write "a" (some { healthyAccount "a" with status := .paused }),
    .on 0 (.mark 1 (healthyAccount "a") (.errors 1))]

theorem paused_account_keeps_its_block :
    ∃ w w', replay (World.step {}) (idleWorld 100 [healthyAccount "a"]) pausedThenError = some w ∧
      w.step {} (.on 0 (.markPersist 1)) = some w' ∧ Rows.status w'.rows "a" = some .paused := by
  have run : ((replay (World.step {}) (idleWorld 100 [healthyAccount "a"]) pausedThenError).any
      fun w => decide (Rows.status w.rows "a" = some .paused) &&
        (w.step {} (.on 0 (.markPersist 1))).isSome &&
        ((w.replicas 0).marks 1).any fun m => decide (m.mark = .errors 1)) = true := by
    decide +kernel
  obtain ⟨w, hw, here⟩ := (Option.any_eq_true _ _).mp run
  simp only [Bool.and_eq_true, decide_eq_true_eq, Option.isSome_iff_exists, Option.any_eq_true]
    at here
  obtain ⟨⟨paused, w', hstep⟩, m, hm, kind⟩ := here
  have survives := (hard_block_survives {}
    (reachable_of_replay pausedThenError (fun _ => rfl) (fun _ _ _ => trivial) hw) "a" .paused rfl
    paused).2 0 (.markPersist 1) w' hstep
  refine ⟨w, w', hw, hstep, (survives ?_).mpr ?_⟩
  · rintro ⟨m', hm', _, errorCode, hmark⟩
    rw [hm] at hm'
    cases hm'
    rw [kind] at hmark
    cases hmark
  · rintro ⟨m', hm', _, unguarded, _⟩
    rw [hm] at hm'
    cases hm'
    rw [kind] at unguarded
    cases unguarded

/-- The unguarded write of `mark_rate_limit` makes a paused account rate limited. -/
theorem pause_undone_by_rate_limit :
    ∃ w w', replay (World.step {}) (idleWorld 100 [healthyAccount "a"]) pausedThenLimited = some w ∧
      Rows.status w.rows "a" = some .paused ∧ w.step {} (.on 0 (.markPersist 1)) = some w' ∧
      Rows.status w'.rows "a" = some .rateLimited := by
  have run : ((replay (World.step {}) (idleWorld 100 [healthyAccount "a"]) pausedThenLimited).any
      fun w => decide (Rows.status w.rows "a" = some .paused) &&
        (w.step {} (.on 0 (.markPersist 1))).any fun w' =>
          decide (Rows.status w'.rows "a" = some .rateLimited)) = true := by
    decide +kernel
  obtain ⟨w, hw, here⟩ := (Option.any_eq_true _ _).mp run
  simp only [Bool.and_eq_true, decide_eq_true_eq, Option.any_eq_true] at here
  obtain ⟨paused, w', hstep, limited⟩ := here
  exact ⟨w, w', hw, paused, hstep, limited⟩

end Balancer
