import LivingBalancer.Balancer.HardBlock

/-!
# Rate-limit cooldowns that a peer persisted

A row that is RATE_LIMITED with `blocked_at = b`, seen by a replica whose own
`mark_rate_limit` did not set that block. `HoldsBlock` is what the build has to find
in the runtime table for the state to stay RATE_LIMITED until the persisted deadline:
the early-recovery gate must be shut, and a row without `reset_at` must not meet an
elapsed `reset_at` left in the runtime. The runtime sync itself opens the gate: it
stamps the peer's `blocked_at` over the older one and keeps the elapsed cooldown.
-/

namespace Balancer

open Runs

/-- The row of `id` is rate limited until a deadline ahead of `now`, by a block that no
rate-limit mark of this replica set. -/
def BlockedByPeer (r : Replica) (now : ℚ) (id : String) (account : Account) : Prop :=
  account.status = .rateLimited ∧ ∃ b : Int, account.blockedAt = some b ∧ (id, b) ∉ r.observed ∧
    now < persistedDeadline account b

theorem BlockedByPeer.earlier {r r' : Replica} {now now' : ℚ} {id : String} {account : Account}
    (h : BlockedByPeer r' now' id account) (observed : r.observed ⊆ r'.observed)
    (hle : now ≤ now') : BlockedByPeer r now id account := by
  obtain ⟨limited, b, blockedAt, unseen, running⟩ := h
  exact ⟨limited, b, blockedAt, fun seen => unseen (observed seen), lt_of_le_of_lt hle running⟩

theorem BlockedByPeer.of_columns {r : Replica} {now : ℚ} {id : String} {row account : Account}
    (h : BlockedByPeer r now id row) (same : row.columns = account.columns) :
    BlockedByPeer r now id account := by
  obtain ⟨limited, b, blockedAt, unseen, running⟩ := h
  have status : row.status = account.status := congrArg StatusColumns.status same
  have resetAt : row.resetAt = account.resetAt := congrArg StatusColumns.resetAt same
  have blocked : row.blockedAt = account.blockedAt := congrArg StatusColumns.blockedAt same
  refine ⟨status ▸ limited, b, blocked ▸ blockedAt, unseen, ?_⟩
  simp only [persistedDeadline] at running ⊢
  rw [← resetAt]
  exact running

/-- The runtime claims to have observed the block at `b`, and usage was recorded since. -/
def earlyRecoveryGate (now : ℚ) (account : Account) (rt : RuntimeState)
    (primary long : Option UsageEntry) : Bool :=
  (effectiveBlockedAt account rt).any fun b =>
    observedBlock now rt b && recordedAfter (rateLimitedFreshnessEntry now account primary long) b

/-- A row without `reset_at` meets a runtime reset that no longer runs. -/
def leftoverReset (now : ℚ) (account : Account) (rt : RuntimeState) : Bool :=
  (nonzeroSeconds account.resetAt).isNone && rt.resetAt.isSome && !stillRunning now rt.resetAt

/-- What a build reads of the runtime does not lift the block of the account. -/
structure HoldsBlock (now : ℚ) (inputs : SelectionInputs) (account : Account) (rt : RuntimeState) :
    Prop where
  gateShut : earlyRecoveryGate now account rt (inputs.latestPrimary account.id)
    (usageWindows now account (inputs.latestPrimary account.id)
      (longWindowEntry inputs account)).longEntry = false
  noLeftover : leftoverReset now account rt = false

section Verdict

variable {now : ℚ}

theorem clearElapsed_running {runtimeReset : Option ℚ} {v : QuotaVerdict}
    (limited : v.status = .rateLimited) (reset : v.resetAt = runtimeReset)
    (running : stillRunning now runtimeReset = true) (s : AccountStatus) :
    (clearElapsed now s runtimeReset v).status = .rateLimited ∧
      (clearElapsed now s runtimeReset v).resetAt = runtimeReset := by
  simp only [clearElapsed]
  by_cases here : v.status = s
  · rw [if_pos here, if_pos running]
    exact ⟨limited, rfl⟩
  · rw [if_neg here]
    exact ⟨limited, reset⟩

theorem secondaryQuota_running {q : QuotaInput} (noInference : q.inferStatusFromUsage = false)
    (running : stillRunning now q.runtimeReset = true) (override : Bool) {v : QuotaVerdict}
    (limited : v.status = .rateLimited) (reset : v.resetAt = q.runtimeReset) :
    ∃ v', secondaryQuota now q override v = .ok v' ∧ v'.status = .rateLimited ∧
      v'.resetAt = q.runtimeReset := by
  have cleared : ∀ u : QuotaVerdict, u.status = .rateLimited → u.resetAt = q.runtimeReset →
      ∃ v', Except.ok (clearElapsed now .quotaExceeded q.runtimeReset u) =
        (Except.ok v' : Except QuotaVerdict QuotaVerdict) ∧
        v'.status = .rateLimited ∧ v'.resetAt = q.runtimeReset :=
    fun u status resetAt => ⟨_, rfl, clearElapsed_running status resetAt running _⟩
  simp only [secondaryQuota]
  split
  · split
    · split
      · rw [if_neg (by rw [limited]; decide)]
        exact cleared v limited reset
      · rw [noInference]
        exact cleared { v with usedPercent := some 100 } limited reset
    · exact cleared v limited reset
  · rw [if_neg (by simp [limited])]
    exact ⟨v, rfl, limited, reset⟩

theorem primaryQuota_running {q : QuotaInput} (noInference : q.inferStatusFromUsage = false)
    (running : stillRunning now q.runtimeReset = true) {v : QuotaVerdict}
    (limited : v.status = .rateLimited) (reset : v.resetAt = q.runtimeReset) :
    (primaryQuota now q v).status = .rateLimited ∧
      (primaryQuota now q v).resetAt = q.runtimeReset := by
  simp only [primaryQuota]
  split
  · split
    · rw [noInference]
      have kept : { v with usedPercent := some 100 }.status = .rateLimited := limited
      exact clearElapsed_running kept reset running _
    · exact clearElapsed_running limited reset running _
  · split
    · exact clearElapsed_running limited reset running _
    · exact ⟨limited, reset⟩

/-- Usage and credits never lift a rate limit whose reset is still running. -/
theorem applyUsageQuota_running {q : QuotaInput} (limited : q.status = .rateLimited)
    (noInference : q.inferStatusFromUsage = false)
    (running : stillRunning now q.runtimeReset = true) :
    (applyUsageQuota now q).status = .rateLimited ∧
      (applyUsageQuota now q).resetAt = q.runtimeReset := by
  obtain ⟨v, hv, status, reset⟩ := secondaryQuota_running noInference running
    (hasCreditOverride q.credits) (v := ⟨q.status, q.primaryUsed, q.runtimeReset⟩) limited rfl
  have notQuota : ¬ (hasCreditOverride q.credits = true ∧ v.status = .quotaExceeded ∧
      ¬ (q.primaryUsed.any fun u => decide (100 ≤ u)) = true) := by
    rintro ⟨_, quota, _⟩
    rw [status] at quota
    cases quota
  simp only [applyUsageQuota]
  rw [if_neg (by rw [limited]; decide), hv]
  dsimp only
  rw [if_neg notQuota]
  exact primaryQuota_running noInference running status reset

end Verdict

section Build

variable (settings : Settings) {now : ℚ} {account : Account} {rt : RuntimeState} {b : Int}
  {primary long : Option UsageEntry}

theorem cooldownDeadline_shut (limited : account.status = .rateLimited)
    (blockedAt : account.blockedAt = some b) (running : now < persistedDeadline account b)
    (shut : earlyRecoveryGate now account rt primary long = false) :
    rateLimitedCooldownDeadline now account rt primary long =
      some (persistedDeadline account b) := by
  have effective : effectiveBlockedAt account rt = some (b : ℚ) := by
    simp [effectiveBlockedAt, blockedAt]
  simp only [rateLimitedCooldownDeadline]
  rw [limited, effective]
  dsimp only
  rw [if_pos running, if_neg]
  intro gate
  simp [earlyRecoveryGate, effective, gate.1, gate.2] at shut

/-- The reset a held block is judged by runs past `now`. -/
theorem blockReset_running (clock : 0 ≤ now) (limited : account.status = .rateLimited)
    (blockedAt : account.blockedAt = some b) (running : now < persistedDeadline account b)
    (noLeftover : leftoverReset now account rt = false) :
    stillRunning now (blockReset settings now account rt .rateLimited
      (nonzeroSeconds account.resetAt) long) = true := by
  have runs : ∀ d, now < d → stillRunning now (some d) = true := by
    intro d hd
    have nonzero : d ≠ 0 := ne_of_gt (lt_of_le_of_lt clock hd)
    simp [stillRunning, truthy, nonzero, hd]
  have notQuota : account.status ≠ .quotaExceeded := by
    rw [limited]
    decide
  simp only [persistedDeadline] at running
  simp only [blockReset]
  simp only [effectiveBlockedAt, blockedAt, notQuota, false_and, if_false, true_or, if_true]
  cases hreset : nonzeroSeconds account.resetAt with
  | some d =>
    rw [hreset] at running
    have hd := runs d running
    have hor : orElse (some d) rt.resetAt = some d := by
      simp only [stillRunning, Bool.and_eq_true] at hd
      rw [orElse, if_pos hd.1]
    rw [hor]
    exact hd
  | none =>
    rw [hreset] at running
    have hor : orElse none rt.resetAt = rt.resetAt := rfl
    rw [hor]
    cases hleft : rt.resetAt with
    | some left =>
      simp only [leftoverReset, hreset, hleft, Option.isNone_none, Option.isSome_some, Bool.true_and,
        Bool.not_eq_false'] at noLeftover
      exact noLeftover
    | none =>
      have floor : now < (b : ℚ) + rateLimitedMinCooldownSeconds := running
      simp only [floor, true_and, if_true]
      exact runs _ floor

theorem accountVerdict_held (clock : 0 ≤ now) (limited : account.status = .rateLimited)
    (blockedAt : account.blockedAt = some b) (running : now < persistedDeadline account b)
    (shut : earlyRecoveryGate now account rt primary
      (usageWindows now account primary long).longEntry = false)
    (noLeftover : leftoverReset now account rt = false) :
    (accountVerdict settings now account rt primary long).status = .rateLimited ∧
      stillRunning now (accountVerdict settings now account rt primary long).resetAt = true := by
  have deadline := cooldownDeadline_shut limited blockedAt running shut
  have capacity : zeroPrimaryCapacity settings now account rt primary
      (usageWindows now account primary long) = false := by
    simp [zeroPrimaryCapacity, limited, deadline]
  have noEvidence : effectiveRuntimeReset settings now account rt .rateLimited
      (nonzeroSeconds account.resetAt) primary (usageWindows now account primary long).longEntry =
      blockReset settings now account rt .rateLimited (nonzeroSeconds account.resetAt)
        (usageWindows now account primary long).longEntry := by
    have effective : effectiveBlockedAt account rt = some (b : ℚ) := by
      simp [effectiveBlockedAt, blockedAt]
    simp only [earlyRecoveryGate, effective, Option.any_some] at shut
    simp [effectiveRuntimeReset, cooldownReady, limited, effective, shut]
  have runs : stillRunning now (blockReset settings now account rt .rateLimited
      (nonzeroSeconds account.resetAt) (usageWindows now account primary long).longEntry) = true :=
    blockReset_running settings clock limited blockedAt running noLeftover
  simp only [accountVerdict]
  simp only [capacity, Bool.false_and, Bool.false_eq_true, if_false, limited, noEvidence]
  generalize hq : QuotaInput.mk .rateLimited (usageWindows now account primary long).primaryUsed
    (usageWindows now account primary long).primaryReset _ _ _ _ _ _ = q
  have held : (applyUsageQuota now q).status = .rateLimited ∧
      (applyUsageQuota now q).resetAt = q.runtimeReset := by
    apply applyUsageQuota_running
    · rw [← hq]
    · rw [← hq]
    · rw [← hq]
      exact runs
  rw [if_neg (by rw [held.1]; simp)]
  refine ⟨held.1, ?_⟩
  rw [held.2, ← hq]
  exact runs

theorem stillRunning_not_elapsed {reset : Option ℚ} (h : stillRunning now reset = true) :
    resetElapsed now reset = false := by
  cases reset with
  | none => rfl
  | some r =>
    simp only [stillRunning, Option.any_some, Bool.and_eq_true, decide_eq_true_eq] at h
    simp [resetElapsed, not_le.mpr h.2]

/-- A state built under a peer's block keeps it, with a reset that runs past `now`. -/
theorem buildState_held {inputs : SelectionInputs} (clock : 0 ≤ now)
    (limited : account.status = .rateLimited) (blockedAt : account.blockedAt = some b)
    (running : now < persistedDeadline account b) (holds : HoldsBlock now inputs account rt) :
    (buildState settings now inputs account rt).1.status = .rateLimited ∧
      resetElapsed now (buildState settings now inputs account rt).1.resetAt = false := by
  obtain ⟨status, runs⟩ := accountVerdict_held settings clock limited blockedAt running
    holds.gateShut holds.noLeftover
  obtain ⟨sameStatus, sameReset⟩ := buildState_verdict settings now inputs account rt
  rw [sameStatus, sameReset]
  exact ⟨status, stillRunning_not_elapsed runs⟩

/-- The runtime a section finds lifts no peer's block. -/
def BuildsHeld (r : Replica) (now monotonic : ℚ) (inputs : SelectionInputs) : Prop :=
  ∀ account ∈ inputs.accounts, BlockedByPeer r now account.id account →
    HoldsBlock now inputs account ((r.pool.opened settings inputs monotonic).get account.id)

theorem openSection_held {r : Replica} {monotonic : ℚ} {inputs : SelectionInputs} (clock : 0 ≤ now)
    (held : BuildsHeld settings r now monotonic inputs) :
    ∀ e ∈ (openSection settings now monotonic inputs r.pool).1,
      BlockedByPeer r now e.1.id e.1 →
        e.2.status = .rateLimited ∧ resetElapsed now e.2.resetAt = false := by
  intro e he blocked
  obtain ⟨hmem, hstate⟩ := openSection_entry settings now inputs monotonic r.pool e he
  have holds := held e.1 hmem blocked
  obtain ⟨limited, b, blockedAt, _, running⟩ := blocked
  rw [hstate]
  exact buildState_held settings clock limited blockedAt running holds

end Build

section Select

variable {B : Account → Prop} {cfg : RouteConfig} {limit : ℚ} {grace : String → ℚ}
  {built after : List (Account × AccountState)} {choice : Option AccountState}

/-- Blocked entries stay rate limited in a selection that reads the clock before their reset. -/
theorem Selects.held (h : Selects cfg limit grace built after choice) (hle : ∀ id, limit ≤ grace id)
    (before : ∀ e ∈ built, B e.1 →
      e.2.status = .rateLimited ∧ resetElapsed (grace e.1.id) e.2.resetAt = false) :
    ∀ e ∈ after, B e.1 → e.2.status = .rateLimited := by
  intro e' he' blocked
  obtain ⟨e, he, haccount, examined⟩ := h.mem he'
  obtain ⟨limited, running⟩ := before e he (haccount ▸ blocked)
  exact (examined.rateLimited limited (resetElapsed_mono (hle _) running)).1

/-- A choice for a blocked entry: only past its quota bypass, and still rate limited. -/
def ChoosesHeld (B : Account → Prop) (choice : Option AccountState)
    (built : List (Account × AccountState)) : Prop :=
  ∀ ch, choice = some ch → ∀ e ∈ built, e.2.accountId = ch.accountId → B e.1 →
    e.2.ignoreStandardQuota = true ∧ ch.status = .rateLimited

theorem Selects.choosesHeld (h : Selects cfg limit grace built after choice)
    (distinct : (built.map (·.1.id)).Nodup) (ids : ∀ e ∈ built, e.2.accountId = e.1.id)
    (before : ∀ e ∈ built, B e.1 →
      e.2.status = .rateLimited ∧ resetElapsed (grace e.1.id) e.2.resetAt = false) :
    ChoosesHeld B choice after := by
  intro ch hch e' he' hid blocked
  obtain ⟨e, he, haccount, examined, selectable⟩ := h.chosen_entry distinct ids hch he' hid
  obtain ⟨limited, running⟩ := before e he (haccount ▸ blocked)
  have sameId : ch.accountId = e.1.id := by
    rw [← hid, examined.same.accountId, ids e he]
  rw [sameId] at selectable
  refine ⟨?_, selectable.rateLimited limited running⟩
  by_contra noBypass
  rw [examined.same.ignoreStandardQuota, Bool.not_eq_true] at noBypass
  have lifted := selectable.not_rateLimited limited noBypass
  rw [running] at lifted
  cases lifted

/-- A snapshot of a blocked account is taken only past its quota bypass. -/
def SnapshotHeld (B : Account → Prop) (c : SelectCall) : Prop :=
  ∀ a, c.snapshot = some a → ∀ e ∈ c.built, e.1.id = a.id → B e.1 →
    e.2.ignoreStandardQuota = true

theorem Concludes.held {c c' : SelectCall} (h : Concludes choice c c')
    (ids : ∀ e ∈ c.built, e.2.accountId = e.1.id) (unchosen : c.snapshot = none)
    (entries : ∀ e ∈ c.built, B e.1 → e.2.status = .rateLimited)
    (chooses : ChoosesHeld B choice c.built) :
    (∀ e ∈ c'.built, B e.1 → e.2.status = .rateLimited) ∧ SnapshotHeld B c' := by
  refine ⟨?_, ?_⟩
  · intro e' he' blocked
    rcases h.mem he' with he' | ⟨ch, hch, e, he, hid, rfl⟩
    · exact entries e' he' blocked
    · exact (chooses ch hch e he hid blocked).2
  · intro a ha e' he' same blocked
    rcases h.snapshot a ha with old | ⟨ch, hch, e, he, hid, haccount⟩
    · rw [unchosen] at old
      cases old
    · -- the entry of the snapshot's account, before and after the choice is written over it
      have chosen : ∀ x ∈ c.built, x.1 = e'.1 → x.2.ignoreStandardQuota = true := by
        intro x hx hfst
        refine (chooses ch hch x hx ?_ (hfst ▸ blocked)).1
        rw [ids x hx, hfst, same, haccount, ← ids e he, hid]
      rcases h.mem he' with he' | ⟨ch', _, x, hx, _, rfl⟩
      · exact chosen e' he' rfl
      · exact chosen x hx rfl

end Select

/-- What a step may do under a peer's block. The grace retry of a pinned session counts: it
reads the clock ten seconds ahead, and the status it finds is persisted. -/
def ReplicaAct.HoldsBlocks (settings : Settings) (now : ℚ) (r : Replica) : ReplicaAct → Prop
  | .enter call monotonic _ => ∀ c, r.selects call = some (c, .ready) →
      BuildsHeld settings r now monotonic c.inputs
  | .admission inputs monotonic => BuildsHeld settings r now monotonic inputs
  | .choose call earlier existing => ∀ c sticky, r.selects call = some (c, .choosing) →
      c.args.sticky = some sticky → ∀ e ∈ c.built, BlockedByPeer r now e.1.id e.1 →
        resetElapsed (stickyGrace sticky.reallocate existing earlier now e.1.id) e.2.resetAt = false
  | _ => True

/-- No state in flight has lifted a peer's block that still runs. -/
structure CallHeld (B : Account → Prop) (c : SelectCall) (pc : SelectPc) : Prop where
  entries : ∀ e ∈ c.built, B e.1 → e.2.status = .rateLimited
  choice : ChoosesHeld B pc.choice c.built
  snapshot : SnapshotHeld B c

theorem CallHeld.weaken {B B' : Account → Prop} (imp : ∀ a, B' a → B a) {c : SelectCall}
    {pc : SelectPc} (h : CallHeld B c pc) : CallHeld B' c pc where
  entries := fun e he blocked => h.entries e he (imp _ blocked)
  choice := fun ch hch e he hid blocked => h.choice ch hch e he hid (imp _ blocked)
  snapshot := fun a ha e he same blocked => h.snapshot a ha e he same (imp _ blocked)

theorem CallHeld.quiet {B : Account → Prop} {c : SelectCall} {pc : SelectPc}
    (entries : ∀ e ∈ c.built, B e.1 → e.2.status = .rateLimited) (choice : pc.choice = none)
    (snapshot : SnapshotHeld B c) : CallHeld B c pc where
  entries := entries
  choice := by
    intro ch hch
    rw [choice] at hch
    cases hch
  snapshot := snapshot

theorem SnapshotHeld.none {B : Account → Prop} {c : SelectCall} (h : c.snapshot = none) :
    SnapshotHeld B c := by
  intro a ha
  rw [h] at ha
  cases ha

structure Replica.HoldsBlocks (now : ℚ) (r : Replica) : Prop where
  shaped : r.Shaped
  marks : ∀ call m, r.marks call = some m → m.Computed
  calls : ∀ call c pc, r.selects call = some (c, pc) →
    CallHeld (fun a => BlockedByPeer r now a.id a) c pc

section Step

variable {settings : Settings} {now : ℚ} {r : Replica} {act : ReplicaAct}

theorem CallMove.held {c : SelectCall} {pc : SelectPc} (move : CallMove settings now r act c pc)
    (clock : 0 ≤ now) (before : r.HoldsBlocks now) (ok : act.HoldsBlocks settings now r) :
    CallHeld (fun a => BlockedByPeer r now a.id a) c pc := by
  cases move with
  | cleared built snapshot _ choice =>
    refine .quiet ?_ choice (.none snapshot)
    rw [built]
    exact List.forall_mem_nil _
  | kept old built snapshot _ choice _ =>
    have held := before.calls _ _ _ old
    refine .quiet (built ▸ held.entries) choice ?_
    rcases snapshot with none | same
    · exact .none none
    · intro a ha
      exact built ▸ held.snapshot a (same ▸ ha)
  | opened old snapshot built =>
    have waiting := (before.shaped _ _ _ old).undecided rfl
    refine .quiet ?_ rfl (.none (snapshot.trans waiting))
    rw [built]
    intro e he blocked
    exact (openSection_held settings clock (ok _ old) e he blocked).1
  | selected old snapshot selects concludes =>
    have waiting := (before.shaped _ _ _ old).undecided rfl
    have opened := openSection_held settings clock (ok _ old)
    have entries := selects.held (B := fun a => BlockedByPeer r now a.id a) (fun _ => le_refl now)
      opened
    have chooses := selects.choosesHeld (B := fun a => BlockedByPeer r now a.id a)
      (openSection_distinct settings now _ _ _) (openSection_ids settings now _ _ _) opened
    obtain ⟨after, taken⟩ := concludes.held (selects.ids (openSection_ids settings now _ _ _))
      (snapshot.trans waiting) entries chooses
    exact .quiet after rfl taken
  | @chose call before' _ earlier existing sticky result old key snapshot selects =>
    have shape := before.shaped _ _ _ old
    have held := before.calls _ _ _ old
    have running : ∀ e ∈ before'.built, BlockedByPeer r now e.1.id e.1 →
        e.2.status = .rateLimited ∧
          resetElapsed (stickyGrace sticky.reallocate existing earlier now e.1.id) e.2.resetAt =
            false :=
      fun e he blocked => ⟨held.entries e he blocked, ok before' sticky old key e he blocked⟩
    exact ⟨selects.held (B := fun a => BlockedByPeer r now a.id a)
        (le_stickyGrace sticky.reallocate existing earlier now) running,
      selects.choosesHeld shape.distinct shape.ids running,
      .none (snapshot.trans (shape.undecided rfl))⟩
  | committed old concludes =>
    have shape := before.shaped _ _ _ old
    have held := before.calls _ _ _ old
    obtain ⟨after, taken⟩ := concludes.held shape.ids (shape.undecided rfl) held.entries held.choice
    exact .quiet after rfl taken

theorem Replica.HoldsBlocks.step {rows rows' : Rows} {r' : Replica} (clock : 0 ≤ now)
    (h : r.HoldsBlocks now) (ok : act.HoldsBlocks settings now r)
    (hstep : r.step settings now rows act = some (r', rows')) : r'.HoldsBlocks now := by
  have facts := Replica.step_facts hstep
  refine ⟨h.shaped.step hstep, ?_, ?_⟩
  · intro call m hm
    rcases facts.marks call m hm with old | computed
    · exact h.marks call m old
    · exact computed
  · intro call c pc hc
    have held : CallHeld (fun a => BlockedByPeer r now a.id a) c pc := by
      rcases facts.calls call c pc hc with old | move
      · exact h.calls call c pc old
      · exact move.held clock h ok
    exact held.weaken fun a blocked => blocked.earlier facts.observed (le_refl now)

theorem MarkCall.Computed.not_activates {m : MarkCall} (h : m.Computed) {rows : Rows} {id : String}
    {row : Account} (hrow : rows id = some row) (limited : row.status = .rateLimited) :
    Rows.status (m.persist rows) id ≠ some .active := by
  have unlifted : ∀ status, status = row.status → some status ≠ some AccountStatus.active := by
    intro status same active
    rw [same, limited] at active
    cases active
  obtain ⟨at_, rt, hstate⟩ := h
  simp only [MarkCall.persist]
  cases hmark : m.mark with
  | rateLimit error jitter =>
    dsimp only
    rw [persistState_status _ _ hrow]
    split
    · rw [hstate, hmark]
      exact fun active => by cases active
    · exact unlifted _ rfl
  | quotaExceeded error =>
    dsimp only
    rw [persistState_status _ _ hrow]
    split
    · rw [hstate, hmark]
      exact fun active => by cases active
    · exact unlifted _ rfl
  | permanentFailure errorCode =>
    dsimp only
    rcases persistStateIfCurrent_status m.account m.state (some m.account.refreshTokenEncrypted)
      hrow with same | ⟨_, _, written⟩
    · rw [same]
      exact unlifted _ rfl
    · rw [written, hstate, hmark]
      simp only [Mark.apply, handlePermanentFailure, accountStatusForPermanentFailure]
      split
      · exact fun active => by cases active
      · exact fun active => by cases active
  | errors count =>
    dsimp only
    rcases persistStateIfCurrent_status m.account m.state none hrow with same | ⟨_, matched, written⟩
    · rw [same]
      exact unlifted _ rfl
    · rw [written, hstate, hmark]
      exact unlifted _ (congrArg StatusColumns.status matched).symm

/-- The row of a peer's block is not written back to ACTIVE. -/
theorem Replica.HoldsBlocks.row {rows rows' : Rows} {r' : Replica} (h : r.HoldsBlocks now)
    (hstep : r.step settings now rows act = some (r', rows')) {id : String} {row : Account}
    (hrow : rows id = some row) (blocked : BlockedByPeer r now id row) :
    Rows.status rows' id ≠ some .active := by
  have limited := blocked.1
  have unlifted : some row.status ≠ some AccountStatus.active := by
    rw [limited]
    exact fun active => by cases active
  cases (Replica.step_facts hstep).rows with
  | none quiet =>
    simpa [Rows.status, hrow] using unlifted
  | @persist call c pc e rest old pending _ =>
    have inBuilt : e ∈ c.built := (h.shaped _ _ _ old).pending e (pending ▸ List.mem_cons_self)
    have held := (h.calls _ _ _ old).entries e inBuilt
    rcases persistStateIfCurrent_status e.1 e.2 none hrow with same | ⟨hid, matched, written⟩
    · rw [same]
      exact unlifted
    · -- the snapshot equals the row, so it is under the same block
      have stays := held (hid.symm ▸ blocked.of_columns matched)
      rw [written, stays]
      exact fun active => by cases active
  | @mark call m old => exact (h.marks call m old).not_activates hrow limited

end Step

def Act.HoldsBlocks (settings : Settings) (w : World) : Act → Prop
  | .on i act => act.HoldsBlocks settings w.now (w.replicas i)
  | _ => True

theorem reachable_holdsBlocks {settings : Settings} {w : World}
    (h : Reachable (World.step settings) (fun w a => a.HoldsBlocks settings w)
      (fun w => w.Initial ∧ 0 ≤ w.now) w) (i : Nat) :
    0 ≤ w.now ∧ (w.replicas i).HoldsBlocks w.now := by
  refine replica_invariant (I := fun now r => 0 ≤ now ∧ r.HoldsBlocks now) ?_ ?_ ?_ h
  · rintro w ⟨hw, clock⟩
    rw [hw i]
    refine ⟨clock, ?_, ?_, ?_⟩
    · intro call c pc hc
      cases hc
    · intro call m hm
      cases hm
    · intro call c pc hc
      cases hc
  · rintro now now' r hle ⟨clock, held⟩
    refine ⟨clock.trans hle, held.shaped, held.marks, ?_⟩
    intro call c pc hc
    exact (held.calls call c pc hc).weaken fun a blocked => blocked.earlier (fun _ hx => hx) hle
  · rintro w act r rows ⟨clock, held⟩ ok hstep
    exact ⟨clock, held.step clock ok hstep⟩

/-- Until the persisted deadline of a peer's block: the states built from the row and those in
flight stay RATE_LIMITED, the account is chosen only past a quota bypass, and no step of the
replica writes the row back to ACTIVE. -/
theorem peer_cooldown_holds (settings : Settings) {w : World}
    (h : Reachable (World.step settings) (fun w a => a.HoldsBlocks settings w)
      (fun w => w.Initial ∧ 0 ≤ w.now) w) (i : Nat) :
    (∀ inputs monotonic, BuildsHeld settings (w.replicas i) w.now monotonic inputs →
      ∀ e ∈ (openSection settings w.now monotonic inputs (w.replicas i).pool).1,
        BlockedByPeer (w.replicas i) w.now e.1.id e.1 → e.2.status = .rateLimited) ∧
    (∀ call c pc, (w.replicas i).selects call = some (c, pc) → ∀ e ∈ c.built,
      BlockedByPeer (w.replicas i) w.now e.1.id e.1 → e.2.status = .rateLimited ∧
        (e.2.ignoreStandardQuota = false →
          (∀ ch, pc.choice = some ch → ch.accountId ≠ e.1.id) ∧
          ∀ a, c.snapshot = some a → a.id ≠ e.1.id)) ∧
    (∀ act w', w.step settings (.on i act) = some w' → ∀ id row, w.rows id = some row →
      BlockedByPeer (w.replicas i) w.now id row → Rows.status w'.rows id ≠ some .active) := by
  obtain ⟨clock, held⟩ := reachable_holdsBlocks h i
  refine ⟨?_, ?_, ?_⟩
  · intro inputs monotonic builds e he blocked
    exact (openSection_held settings clock builds e he blocked).1
  · intro call c pc hc e he blocked
    have inFlight := held.calls call c pc hc
    have ids := (held.shaped call c pc hc).ids e he
    refine ⟨inFlight.entries e he blocked, ?_⟩
    intro noBypass
    constructor
    · intro ch hch same
      have bypass := (inFlight.choice ch hch e he (ids.trans same.symm) blocked).1
      rw [noBypass] at bypass
      cases bypass
    · intro a ha same
      have bypass := inFlight.snapshot a ha e he same.symm blocked
      rw [noBypass] at bypass
      cases bypass
  · intro act w' hstep id row hrow blocked
    cases World.step_move hstep with
    | on hr => exact held.row hr hrow blocked

/-- The row of "a" after a peer met a 429 at second 190 that lasts until second 500. -/
def peerBlockedRow : Account :=
  { healthyAccount "a" with status := .rateLimited, resetAt := some 500, blockedAt := some 190 }

/-- That row, with a tenth of the primary window used at second 195. -/
def peerBlockedInput : SelectionInputs :=
  { singleInput peerBlockedRow with
    latestPrimary := fun _ => some ⟨true, 195, some "primary", 10, none, some 300, none, none, none⟩ }

/-- Replica 1 marks the block at second 190; at second 200 replica 0 loads the row. -/
def peerMarks : List Act :=
  [.advance 190,
    .on 1 (.mark 1 (healthyAccount "a") (.rateLimit ⟨some 310, none, none⟩ 1)),
    .on 1 (.markPersist 1), .advance 200, .on 0 (.start 7 (streamArgs 0 none)),
    .on 0 (.loaded 7 peerBlockedInput)]

theorem peerBlockedRow_blocked {r : Replica} (unseen : ("a", 190) ∉ r.observed) :
    BlockedByPeer r 200 "a" peerBlockedRow :=
  ⟨rfl, 190, rfl, unseen, by decide +kernel⟩

def readyWith (p : SelectCall → Bool) : Option (SelectCall × SelectPc) → Bool
  | some (c, .ready) => p c
  | _ => false

theorem readyWith_eq_true {p : SelectCall → Bool} {x : Option (SelectCall × SelectPc)}
    (h : readyWith p x = true) : ∃ c, x = some (c, .ready) ∧ p c = true := by
  simp only [readyWith] at h
  split at h
  · exact ⟨_, rfl, h⟩
  · cases h

/-- A replica that knows nothing of the block holds it through its first selection. -/
theorem first_selection_holds_peer_block :
    ∃ w w' c pc e, replay (World.step {}) (idleWorld 100 [healthyAccount "a"]) peerMarks = some w ∧
      w.step {} (.on 0 (.enter 7 0 "x")) = some w' ∧
      (w'.replicas 0).selects 7 = some (c, pc) ∧ e ∈ c.built ∧
      BlockedByPeer (w'.replicas 0) w'.now "a" e.1 ∧ e.2.status = .rateLimited := by
  have run : ((replay (World.step {}) (idleWorld 100 [healthyAccount "a"]) peerMarks).any fun w =>
      readyWith (fun c => decide (c.inputs.accounts = [peerBlockedRow]) &&
          decide ((((w.replicas 0).pool.opened {} c.inputs 0).get "a").cooldownUntil = none) &&
          decide ((((w.replicas 0).pool.opened {} c.inputs 0).get "a").resetAt = none))
        ((w.replicas 0).selects 7) &&
      (w.step {} (.on 0 (.enter 7 0 "x"))).any fun w' =>
        decide (w'.now = 200) && decide ((w'.replicas 0).observed = []) &&
        ((w'.replicas 0).selects 7).any fun entry =>
          decide (entry.1.built.map Prod.fst = [peerBlockedRow])) = true := by decide +kernel
  obtain ⟨w, hw, here⟩ := (Option.any_eq_true _ _).mp run
  simp only [Bool.and_eq_true, Option.any_eq_true, decide_eq_true_eq] at here
  obtain ⟨ready, w', hstep, ⟨now, observed⟩, ⟨c', pc'⟩, hc', firsts⟩ := here
  obtain ⟨c, hc, passed⟩ := readyWith_eq_true ready
  simp only [Bool.and_eq_true, decide_eq_true_eq] at passed
  obtain ⟨⟨accounts, cooldown⟩, reset⟩ := passed
  have ok : ∀ s : World, ∀ a ∈ peerMarks, a.HoldsBlocks {} s := by
    intro s a ha
    simp only [peerMarks, List.mem_cons, List.not_mem_nil, or_false] at ha
    rcases ha with rfl | rfl | rfl | rfl | rfl | rfl <;> trivial
  have entered : Act.HoldsBlocks {} w (.on 0 (.enter 7 0 "x")) := by
    intro c' hc' account hmem _
    rw [hc] at hc'
    cases hc'
    rw [accounts] at hmem
    cases List.mem_singleton.mp hmem
    refine ⟨?_, ?_⟩
    · have none : ∀ rt : RuntimeState, rt.cooldownUntil = none → ∀ long,
          earlyRecoveryGate w.now peerBlockedRow rt (c.inputs.latestPrimary "a") long = false := by
        intro rt hrt long
        simp [earlyRecoveryGate, effectiveBlockedAt, peerBlockedRow, observedBlock, hrt]
      exact none _ cooldown _
    · have none : ∀ rt : RuntimeState, rt.resetAt = none →
          leftoverReset w.now peerBlockedRow rt = false := by
        intro rt hrt
        simp [leftoverReset, hrt]
      exact none _ reset
  have reached := peer_cooldown_holds {} (w := w')
    ⟨_, ⟨fun _ => rfl, by decide +kernel⟩,
      .tail _ (steps_of_replay peerMarks ok hw) entered hstep⟩ 0
  obtain ⟨e, he, hfst⟩ := List.mem_map.mp (firsts.symm ▸ List.mem_singleton_self peerBlockedRow)
  have blocked : BlockedByPeer (w'.replicas 0) w'.now "a" e.1 := by
    rw [hfst, now]
    exact peerBlockedRow_blocked (by simp [observed])
  have held := reached.2.1 7 c' pc' hc' e he (by rw [hfst] at blocked ⊢; exact blocked)
  exact ⟨w, w', c', pc', e, hw, hstep, hc', he, blocked, held.1⟩

/-- A 429 of its own long ago leaves an elapsed cooldown on replica 0; the sync of its first
selection stamps the peer's block over it. -/
def peerBlockTwice : List Act :=
  [.on 0 (.mark 1 (healthyAccount "a") (.rateLimit ⟨some 5, none, none⟩ 1)),
    .on 0 (.markPersist 1)] ++ peerMarks ++
  [.on 0 (.enter 7 0 "x"), .on 0 (.persist 7), .on 0 (.settle 7),
    .on 0 (.start 8 (streamArgs 0 none)), .on 0 (.loaded 8 peerBlockedInput),
    .on 0 (.enter 8 0 "y")]

/-- The second selection reads its own stamp as an observation of the block, lifts it and
writes the row back to ACTIVE five minutes before the deadline. -/
theorem second_selection_lifts_peer_block :
    ∃ w w', replay (World.step {}) (idleWorld 100 [healthyAccount "a"]) peerBlockTwice = some w ∧
      w.rows "a" = some peerBlockedRow ∧ BlockedByPeer (w.replicas 0) w.now "a" peerBlockedRow ∧
      w.step {} (.on 0 (.persist 8)) = some w' ∧ Rows.status w'.rows "a" = some .active := by
  have run : ((replay (World.step {}) (idleWorld 100 [healthyAccount "a"]) peerBlockTwice).any
      fun w => decide (w.rows "a" = some peerBlockedRow) && decide (w.now = 200) &&
        decide (("a", 190) ∉ (w.replicas 0).observed) &&
        (w.step {} (.on 0 (.persist 8))).any fun w' =>
          decide (Rows.status w'.rows "a" = some .active)) = true := by decide +kernel
  obtain ⟨w, hw, here⟩ := (Option.any_eq_true _ _).mp run
  simp only [Bool.and_eq_true, Option.any_eq_true, decide_eq_true_eq] at here
  obtain ⟨⟨⟨row, now⟩, unseen⟩, w', hstep, active⟩ := here
  refine ⟨w, w', hw, row, ?_, hstep, active⟩
  rw [now]
  exact peerBlockedRow_blocked unseen

end Balancer
