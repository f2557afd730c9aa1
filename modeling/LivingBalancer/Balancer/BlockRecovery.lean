import LivingBalancer.Accounts.UsageRefresh
import LivingBalancer.Balancer.Cooldown
import LivingBalancer.Balancer.SelectAccount

/-!
# Recovery from a persisted block

`background_recovery_state_from_account`, which derives the state of a blocked row without
live runtime state, and the recovery of a quota block inside `_state_from_account`. Both
judge a row by usage that was recorded after the block; a quota block takes any such
long-window row for evidence, an exhausted one too.
-/

namespace Balancer

/-- `_usage_entry_is_recent_available`. -/
def usageEntryIsRecentAvailable (settings : Settings) (now : ℚ) (entry : Option UsageEntry) :
    Bool :=
  entry.any fun e =>
    usageEntryIsRecentEnough settings now e.recordedAt && decide (e.usedPercent < 100)

/-- The throwaway runtime of a background recovery. -/
def recoveryRuntime (account : Account) : RuntimeState :=
  let blockedAt := account.blockedAt.map fun b : Int => (b : ℚ)
  { blockedAt := blockedAt
    cooldownUntil := if account.status = .rateLimited ∧ blockedAt.isSome then
      account.resetAt.map fun r : Int => (r : ℚ) else none }

/-- `background_recovery_state_from_account`. -/
def backgroundRecoveryStateFromAccount (settings : Settings) (now : ℚ) (account : Account)
    (primary secondary : Option UsageEntry) : AccountState :=
  let blockedAt := account.blockedAt.map fun b : Int => (b : ℚ)
  let resetAt := account.resetAt.map fun r : Int => (r : ℚ)
  let state := (stateFromAccount settings now account primary secondary
    (recoveryRuntime account)).1
  if account.status = .rateLimited then
    let freshness := rateLimitedFreshnessEntry now account primary secondary
    match resetAt with
    | none =>
      { state with
        status := .rateLimited, resetAt := none, blockedAt := blockedAt, cooldownUntil := none }
    | some reset =>
      if reset ≤ now then
        match blockedAt with
        | some b =>
          if recordedAfter freshness b then state
          else { state with
            status := .rateLimited
            resetAt := some reset
            blockedAt := some b
            cooldownUntil := some reset }
        | none =>
          if usageEntryIsRecentAvailable settings now freshness then state
          else { state with
            status := .rateLimited
            resetAt := some reset
            blockedAt := none
            cooldownUntil := none }
      else state
  else state

section Verdict

variable {settings : Settings} {now : ℚ} {account : Account} {rt : RuntimeState}
  {primary secondary : Option UsageEntry}

/-- Without inference from usage a verdict keeps its status or becomes active. -/
theorem clearElapsed_status (s : AccountStatus) (runtimeReset : Option ℚ) (v : QuotaVerdict) :
    (clearElapsed now s runtimeReset v).status = v.status ∨
      (clearElapsed now s runtimeReset v).status = .active := by
  simp only [clearElapsed]
  split
  · split
    · exact Or.inl rfl
    · exact Or.inr rfl
  · exact Or.inl rfl

theorem secondaryQuota_status {q : QuotaInput} (noInference : q.inferStatusFromUsage = false)
    (override : Bool) (v : QuotaVerdict) : ∃ v', secondaryQuota now q override v = .ok v' ∧
      (v'.status = v.status ∨ v'.status = .active) := by
  simp only [secondaryQuota]
  split
  · split
    · split
      · split
        · refine ⟨_, rfl, Or.inr ?_⟩
          rcases @clearElapsed_status now .quotaExceeded q.runtimeReset
            { v with status := .active, resetAt := none } with same | active
          · exact same
          · exact active
        · exact ⟨_, rfl, clearElapsed_status _ _ _⟩
      · rw [noInference]
        exact ⟨_, rfl, clearElapsed_status _ _ { v with usedPercent := some 100 }⟩
    · exact ⟨_, rfl, clearElapsed_status _ _ _⟩
  · rw [noInference]
    simp only [Bool.false_eq_true, and_false, if_false]
    exact ⟨v, rfl, Or.inl rfl⟩

theorem primaryQuota_status {q : QuotaInput} (noInference : q.inferStatusFromUsage = false)
    (v : QuotaVerdict) : (primaryQuota now q v).status = v.status ∨
      (primaryQuota now q v).status = .active := by
  simp only [primaryQuota]
  split
  · split
    · rw [noInference]
      exact clearElapsed_status _ _ { v with usedPercent := some 100 }
    · exact clearElapsed_status _ _ _
  · split
    · exact clearElapsed_status _ _ _
    · exact Or.inl rfl

theorem applyUsageQuota_status {q : QuotaInput} (noInference : q.inferStatusFromUsage = false) :
    (applyUsageQuota now q).status = q.status ∨ (applyUsageQuota now q).status = .active := by
  simp only [applyUsageQuota]
  split
  · exact Or.inl rfl
  · obtain ⟨v, hv, status⟩ := @secondaryQuota_status now q noInference (hasCreditOverride q.credits)
      ⟨q.status, q.primaryUsed, q.runtimeReset⟩
    rw [hv]
    dsimp only
    split
    · rcases @primaryQuota_status now q noInference { v with status := .active, resetAt := none }
        with same | active
      · exact Or.inr same
      · exact Or.inr active
    · rcases @primaryQuota_status now q noInference v with same | active
      · rw [same]
        exact status
      · exact Or.inr active

/-- The rule for resetless rate limits only ever puts the block back. -/
theorem resetless_status {q : QuotaInput} {resetless : Prop} [Decidable resetless]
    (noInference : q.inferStatusFromUsage = false)
    (judged : q.status = .rateLimited ∨ q.status = .active) :
    (if resetless then { applyUsageQuota now q with status := .rateLimited }
      else applyUsageQuota now q).status = .rateLimited ∨
    (if resetless then { applyUsageQuota now q with status := .rateLimited }
      else applyUsageQuota now q).status = .active := by
  split
  · exact Or.inl rfl
  · rcases @applyUsageQuota_status now q noInference with same | active
    · rw [same]
      exact judged
    · exact Or.inr active

/-- A rate-limited row is judged rate limited or active. -/
theorem accountVerdict_rateLimited (limited : account.status = .rateLimited) :
    (accountVerdict settings now account rt primary secondary).status = .rateLimited ∨
      (accountVerdict settings now account rt primary secondary).status = .active := by
  simp only [accountVerdict]
  apply resetless_status
  · rfl
  · simp only
    split
    · exact Or.inr rfl
    · exact Or.inl limited

/-- The block of a rate-limited row is kept with its marker. -/
theorem stateFromAccount_rateLimited {b : Int} (limited : account.status = .rateLimited)
    (blocked : account.blockedAt = some b) :
    (stateFromAccount settings now account primary secondary rt).1.status = .active ∨
      (stateFromAccount settings now account primary secondary rt).1.status = .rateLimited ∧
        (stateFromAccount settings now account primary secondary rt).1.blockedAt = some (b : ℚ) := by
  simp only [stateFromAccount]
  rcases @accountVerdict_rateLimited settings now account rt primary secondary limited with
    held | active
  · right
    rw [held]
    refine ⟨rfl, ?_⟩
    rw [nextBlockedAt, if_pos (Or.inr ⟨rfl, by rw [limited]; decide⟩), effectiveBlockedAt, blocked]
  · exact Or.inl active

theorem rateLimitedFreshnessEntry_mem {e : UsageEntry}
    (h : rateLimitedFreshnessEntry now account primary secondary = some e) :
    primary = some e ∨ secondary = some e := by
  simp only [rateLimitedFreshnessEntry] at h
  split at h
  · exact Or.inl h
  · exact Or.inr h
  · split at h
    · exact Or.inr h
    · split at h
      · exact Or.inr h
      · exact Or.inl h

end Verdict

/-- A rate limit whose reset is ahead stays on the row of a background recovery. -/
theorem recovery_waits {settings : Settings} {now : ℚ} {account : Account}
    {primary secondary : Option UsageEntry} {b reset : Int} (clock : 0 ≤ now)
    (limited : account.status = .rateLimited) (blocked : account.blockedAt = some b)
    (hreset : account.resetAt = some reset) (ahead : now < (reset : ℚ)) :
    (stateFromAccount settings now account primary secondary
      (recoveryRuntime account)).1.status = .rateLimited := by
  have nonzero : (reset : ℚ) ≠ 0 := ne_of_gt (lt_of_le_of_lt clock ahead)
  have deadline : nonzeroSeconds account.resetAt = some (reset : ℚ) := by
    rw [hreset, nonzeroSeconds, if_neg (by exact_mod_cast nonzero)]
  have running : now < persistedDeadline account b := by
    rw [persistedDeadline, deadline]
    exact ahead
  -- the throwaway cooldown runs until the reset, so the gate of the observer is shut
  have unobserved : ∀ marker, observedBlock now (recoveryRuntime account) marker = false := by
    intro marker
    have cooldown : (recoveryRuntime account).cooldownUntil = some (reset : ℚ) := by
      simp [recoveryRuntime, limited, blocked, hreset]
    rw [observedBlock, cooldown, Option.any_some, decide_eq_false (not_le.mpr ahead),
      Bool.false_and]
  have shut : earlyRecoveryGate now account (recoveryRuntime account) primary
      (usageWindows now account primary secondary).longEntry = false := by
    simp only [earlyRecoveryGate, unobserved, Bool.false_and]
    cases effectiveBlockedAt account (recoveryRuntime account) with
    | none => rfl
    | some marker => rfl
  have noLeftover : leftoverReset now account (recoveryRuntime account) = false := by
    simp [leftoverReset, deadline]
  exact (accountVerdict_held settings clock limited blocked running shut noLeftover).1

/-- A background recovery of a rate-limited row makes it active only after its reset and with
usage recorded after the block; otherwise the block stays with its marker. -/
theorem background_recovery_needs_evidence (settings : Settings) {now : ℚ} {account : Account}
    {b : Int} (primary secondary : Option UsageEntry) (clock : 0 ≤ now)
    (limited : account.status = .rateLimited) (blocked : account.blockedAt = some b) :
    ((backgroundRecoveryStateFromAccount settings now account primary secondary).status = .active ∧
      (∃ reset, account.resetAt = some reset ∧ (reset : ℚ) ≤ now) ∧
      ∃ e, (primary = some e ∨ secondary = some e) ∧ (b : ℚ) < e.recordedAt) ∨
    ((backgroundRecoveryStateFromAccount settings now account primary secondary).status =
        .rateLimited ∧
      (backgroundRecoveryStateFromAccount settings now account primary secondary).blockedAt =
        some (b : ℚ)) := by
  have derived := @stateFromAccount_rateLimited settings now account (recoveryRuntime account)
    primary secondary b limited blocked
  simp only [backgroundRecoveryStateFromAccount]
  rw [if_pos limited]
  cases hreset : account.resetAt with
  | none =>
    rw [blocked]
    exact Or.inr ⟨rfl, rfl⟩
  | some reset =>
    rw [blocked]
    simp only [Option.map_some]
    by_cases elapsed : (reset : ℚ) ≤ now
    · rw [if_pos elapsed]
      by_cases evidence : recordedAfter (rateLimitedFreshnessEntry now account primary secondary)
          (b : ℚ) = true
      · rw [if_pos evidence]
        refine derived.imp_left fun active => ⟨active, ⟨reset, rfl, elapsed⟩, ?_⟩
        obtain ⟨e, he, after⟩ := (Option.any_eq_true _ _).mp evidence
        exact ⟨e, rateLimitedFreshnessEntry_mem he, of_decide_eq_true after⟩
      · rw [if_neg evidence]
        exact Or.inr ⟨rfl, rfl⟩
    · rw [if_neg elapsed]
      right
      have waits := @recovery_waits settings now account primary secondary b reset clock limited
        blocked hreset (not_le.mp elapsed)
      rcases derived with active | kept
      · rw [waits] at active
        cases active
      · exact kept

def limitedRow : Account :=
  { id := "a", planType := "plus", routingPolicy := "normal", refreshTokenEncrypted := "",
    status := .rateLimited, deactivationReason := none, resetAt := some 2000,
    blockedAt := some 1000 }

def usageRow (recordedAt usedPercent : ℚ) (resetAt : Int) (window : String) : UsageEntry :=
  { standard := true, recordedAt := recordedAt, window := some window,
    usedPercent := usedPercent, resetAt := some resetAt, windowMinutes := none,
    creditsHas := none, creditsUnlimited := none, creditsBalance := none }

theorem background_recovery_needs_evidence_recovers :
    (backgroundRecoveryStateFromAccount {} 3000 limitedRow (some (usageRow 2500 20 9000 "primary"))
        none).status = .active ∧
      ∃ reset, limitedRow.resetAt = some reset ∧ (reset : ℚ) ≤ 3000 := by
  have active : (backgroundRecoveryStateFromAccount {} 3000 limitedRow
      (some (usageRow 2500 20 9000 "primary")) none).status = .active := by decide +kernel
  rcases background_recovery_needs_evidence {} (some (usageRow 2500 20 9000 "primary")) none
      (by norm_num : (0 : ℚ) ≤ 3000) (rfl : limitedRow.status = .rateLimited) rfl with
    recovered | kept
  · exact ⟨active, recovered.2.1⟩
  · rw [active] at kept
    cases kept.1

/-! ## The recovery of a quota block -/

section Quota

variable {settings : Settings} {now : ℚ} {account : Account} {rt : RuntimeState}
  {primary secondary : Option UsageEntry} {b reset : Int}

theorem clearElapsed_other {s : AccountStatus} {runtimeReset : Option ℚ} {v : QuotaVerdict}
    (other : v.status ≠ s) : clearElapsed now s runtimeReset v = v := by
  rw [clearElapsed, if_neg other]

theorem primaryQuota_other {q : QuotaInput} {v : QuotaVerdict}
    (noInference : q.inferStatusFromUsage = false) (other : v.status ≠ .rateLimited) :
    (primaryQuota now q v).status = v.status ∧ (primaryQuota now q v).resetAt = v.resetAt := by
  simp only [primaryQuota]
  split
  · split
    · rw [noInference]
      have same : { v with usedPercent := some 100 }.status ≠ .rateLimited := other
      rw [if_neg Bool.false_ne_true, clearElapsed_other same]
      exact ⟨rfl, rfl⟩
    · rw [clearElapsed_other other]
      exact ⟨rfl, rfl⟩
  · split
    · rw [clearElapsed_other other]
      exact ⟨rfl, rfl⟩
    · exact ⟨rfl, rfl⟩

/-- A quota block with a spent long window and no credits stands or falls with its reset. -/
theorem applyUsageQuota_spent {q : QuotaInput} {used : ℚ}
    (exceeded : q.status = .quotaExceeded) (noInference : q.inferStatusFromUsage = false)
    (hused : q.secondaryUsed = some used) (spent : 100 ≤ used)
    (noCredits : hasCreditOverride q.credits = false) :
    (stillRunning now q.runtimeReset = true →
      (applyUsageQuota now q).status = .quotaExceeded ∧
        (applyUsageQuota now q).resetAt = q.runtimeReset) ∧
    (stillRunning now q.runtimeReset = false → (applyUsageQuota now q).status = .active) := by
  have second : secondaryQuota now q false ⟨q.status, q.primaryUsed, q.runtimeReset⟩ =
      .ok (clearElapsed now .quotaExceeded q.runtimeReset
        ⟨q.status, some 100, q.runtimeReset⟩) := by
    simp only [secondaryQuota, hused, noInference]
    rw [if_pos spent]
    rfl
  have verdict : applyUsageQuota now q = primaryQuota now q (clearElapsed now .quotaExceeded
      q.runtimeReset ⟨q.status, some 100, q.runtimeReset⟩) := by
    simp only [applyUsageQuota, noCredits, second]
    rw [if_neg (by rw [exceeded]; decide), if_neg (fun h => Bool.false_ne_true h.1)]
  rw [verdict, clearElapsed, if_pos exceeded]
  constructor
  · intro running
    rw [if_pos running]
    have kept := @primaryQuota_other now q ⟨.quotaExceeded, some 100, q.runtimeReset⟩ noInference
      AccountStatus.noConfusion
    rw [exceeded]
    exact kept
  · intro stopped
    rw [if_neg (by rw [stopped]; exact Bool.false_ne_true)]
    exact (@primaryQuota_other now q ⟨.active, some 100, none⟩ noInference
      AccountStatus.noConfusion).1

theorem usageWindows_secondaryUsed {long : UsageEntry} {longReset : Int} (clock : 0 ≤ now)
    (hlong : (usageWindows now account primary secondary).longEntry = some long)
    (hreset : long.resetAt = some longReset) (running : now < (longReset : ℚ)) :
    (usageWindows now account primary secondary).secondaryUsed = some long.usedPercent := by
  have formula : (usageWindows now account primary secondary).secondaryUsed =
      if elapsed now ((usageWindows now account primary secondary).longEntry.map (·.usedPercent))
          ((usageWindows now account primary secondary).longEntry.bind (·.resetAt)) then some 0
      else (usageWindows now account primary secondary).longEntry.map (·.usedPercent) := rfl
  have ahead : ¬ longReset ≤ truncInt now := by
    rw [truncInt, if_pos clock, Int.le_floor]
    exact not_le.mpr running
  rw [formula, hlong, Option.map_some, Option.bind_some, hreset, elapsed, Option.isSome_some,
    Option.any_some, decide_eq_false ahead, Bool.and_false, if_neg Bool.false_ne_true]

/-- What lifts a quota block: the debounce is over and the long window was read after it. -/
def quotaBlockLifted (now : ℚ) (b : Int) (long : UsageEntry) : Prop :=
  (b : ℚ) + quotaExceededCooldownSeconds ≤ now ∧ (b : ℚ) < long.recordedAt

theorem effectiveRuntimeReset_quota {long : UsageEntry} (clock : 0 ≤ now)
    (exceeded : account.status = .quotaExceeded) (blocked : account.blockedAt = some b)
    (hreset : account.resetAt = some reset) (ahead : now < (reset : ℚ)) :
    (quotaBlockLifted now b long → effectiveRuntimeReset settings now account rt .quotaExceeded
        (nonzeroSeconds account.resetAt) primary (some long) = none) ∧
    (¬ quotaBlockLifted now b long → effectiveRuntimeReset settings now account rt .quotaExceeded
        (nonzeroSeconds account.resetAt) primary (some long) = some (reset : ℚ)) := by
  have nonzero : (reset : ℚ) ≠ 0 := ne_of_gt (lt_of_le_of_lt clock ahead)
  have deadline : nonzeroSeconds account.resetAt = some (reset : ℚ) := by
    rw [hreset, nonzeroSeconds, if_neg (by exact_mod_cast nonzero)]
  have effective : effectiveBlockedAt account rt = some (b : ℚ) := by
    rw [effectiveBlockedAt, blocked]
  have judged : blockReset settings now account rt .quotaExceeded (some (reset : ℚ)) (some long) =
      some (reset : ℚ) := by
    simp [blockReset, effective, orElse, truthy, nonzero]
  have evidence : ((effectiveBlockedAt account rt).any fun marker =>
      cooldownReady now account rt && recordedAfter (some long) marker) = true ↔
      quotaBlockLifted now b long := by
    simp only [effective, Option.any_some, cooldownReady, exceeded, if_true, recordedAfter,
      Bool.and_eq_true, decide_eq_true_eq, quotaBlockLifted]
  rw [deadline]
  simp only [effectiveRuntimeReset, exceeded]
  constructor
  · intro lifted
    rw [if_pos (evidence.mpr lifted)]
  · intro held
    rw [if_neg fun h => held (evidence.mp h)]
    exact judged

/-- The quota block of a row is still there, and a selection before the reset neither routes
to the account nor makes it active. -/
structure KeepsQuotaBlock (b reset : Int) (state : AccountState) : Prop where
  status : state.status = .quotaExceeded
  blockedAt : state.blockedAt = some (b : ℚ)
  held : ∀ opts t, t < (reset : ℚ) → (examine opts t state).1.status = .quotaExceeded ∧
    (bypassStandardQuota opts state = false → (examine opts t state).2 = .skipped)

theorem examine_quotaBlock {state : AccountState} {opts : SelectOptions} {t : ℚ}
    (exceeded : state.status = .quotaExceeded) (hreset : state.resetAt = some (reset : ℚ))
    (early : t < (reset : ℚ)) : (examine opts t state).1.status = .quotaExceeded ∧
      (bypassStandardQuota opts state = false → (examine opts t state).2 = .skipped) := by
  have running : resetElapsed t state.resetAt = false := by
    rw [hreset, resetElapsed, Option.any_some, decide_eq_false (not_le.mpr early), Bool.and_false]
  have stays : recoverBlock opts t state = (state, bypassStandardQuota opts state) := by
    simp [recoverBlock, exceeded, running]
  refine ⟨?_, fun noBypass => ?_⟩
  · rw [(examine_status opts t state).1, stays]
    exact exceeded
  · exact examine_skipped opts t state (by rw [stays]; exact noBypass)

/-- What a QUOTA_EXCEEDED row is judged by. -/
def quotaBlockInput (settings : Settings) (now : ℚ) (account : Account) (rt : RuntimeState)
    (primary secondary : Option UsageEntry) : QuotaInput :=
  let w := usageWindows now account primary secondary
  let zeroCapacity := zeroPrimaryCapacity settings now account rt primary w
  { status := .quotaExceeded
    primaryUsed := if zeroCapacity then none else w.primaryUsed
    primaryReset := if zeroCapacity then none else w.primaryReset
    primaryWindowMinutes := if zeroCapacity then none else w.primaryWindowMinutes
    runtimeReset := effectiveRuntimeReset settings now account rt .quotaExceeded
      (nonzeroSeconds account.resetAt) primary w.longEntry
    secondaryUsed := w.secondaryUsed
    secondaryReset := w.secondaryReset
    credits := extractCreditStatus [primary, w.longEntry, secondary]
    inferStatusFromUsage := false }

theorem accountVerdict_quota (exceeded : account.status = .quotaExceeded) :
    accountVerdict settings now account rt primary secondary =
      applyUsageQuota now (quotaBlockInput settings now account rt primary secondary) := by
  simp only [accountVerdict, exceeded, reduceCtorEq, decide_false, Bool.and_false,
    Bool.false_eq_true, if_false, false_and]
  rfl

theorem stateFromAccount_verdict :
    (stateFromAccount settings now account primary secondary rt).1.status =
        (accountVerdict settings now account rt primary secondary).status ∧
      (stateFromAccount settings now account primary secondary rt).1.resetAt =
        (accountVerdict settings now account rt primary secondary).resetAt ∧
      (stateFromAccount settings now account primary secondary rt).1.blockedAt =
        nextBlockedAt account rt
          (accountVerdict settings now account rt primary secondary).status := by
  simp only [stateFromAccount, and_self]

/-- A quota block with a spent long window and no credits is kept exactly until the debounce is
over and the long window has been read again after the block. -/
theorem quota_block_kept_iff (settings : Settings) {now : ℚ} {account : Account}
    (rt : RuntimeState) {primary secondary : Option UsageEntry} {b reset longReset : Int}
    {long : UsageEntry} (clock : 0 ≤ now) (exceeded : account.status = .quotaExceeded)
    (blocked : account.blockedAt = some b) (hreset : account.resetAt = some reset)
    (ahead : now < (reset : ℚ))
    (hlong : (usageWindows now account primary secondary).longEntry = some long)
    (spent : 100 ≤ long.usedPercent) (longRuns : long.resetAt = some longReset)
    (longAhead : now < (longReset : ℚ))
    (noCredits : hasCreditOverride (extractCreditStatus
      [primary, (usageWindows now account primary secondary).longEntry, secondary]) = false) :
    KeepsQuotaBlock b reset (stateFromAccount settings now account primary secondary rt).1 ↔
      ¬ quotaBlockLifted now b long := by
  have guard := @effectiveRuntimeReset_quota settings now account rt primary b reset long clock
    exceeded blocked hreset ahead
  have used := usageWindows_secondaryUsed clock hlong longRuns longAhead
  obtain ⟨status, deadline, marker⟩ := @stateFromAccount_verdict settings now account rt primary
    secondary
  rw [accountVerdict_quota exceeded] at status deadline marker
  have guarded : (quotaBlockInput settings now account rt primary secondary).runtimeReset =
      effectiveRuntimeReset settings now account rt .quotaExceeded
        (nonzeroSeconds account.resetAt) primary (some long) := by
    rw [← hlong]
    rfl
  have verdict := @applyUsageQuota_spent now
    (quotaBlockInput settings now account rt primary secondary) long.usedPercent rfl rfl used spent
    noCredits
  rw [guarded] at verdict
  constructor
  · intro kept lifted
    rw [guard.1 lifted] at verdict
    have active := status.trans (verdict.2 rfl)
    rw [kept.status] at active
    cases active
  · intro held
    have running : stillRunning now (some (reset : ℚ)) = true := by
      have nonzero : (reset : ℚ) ≠ 0 := ne_of_gt (lt_of_le_of_lt clock ahead)
      simp [stillRunning, truthy, nonzero, ahead]
    rw [guard.2 held] at verdict
    obtain ⟨exceeds, until_⟩ := verdict.1 running
    rw [exceeds] at status marker
    rw [until_] at deadline
    refine ⟨status, ?_, fun opts t early => examine_quotaBlock status deadline early⟩
    rw [marker, nextBlockedAt, if_pos (Or.inl rfl), effectiveBlockedAt, blocked]

end Quota

def spentRow : Account := { limitedRow with status := .quotaExceeded, resetAt := some 90000 }

def spentWindow (recordedAt : ℚ) : UsageEntry := usageRow recordedAt 100 90000 "secondary"

theorem quota_block_kept_iff_unread :
    KeepsQuotaBlock 1000 90000
      (stateFromAccount {} 2000 spentRow none (some (spentWindow 900)) {}).1 := by
  refine (@quota_block_kept_iff {} 2000 spentRow {} none (some (spentWindow 900)) 1000 90000 90000
    (spentWindow 900) (by norm_num) rfl rfl rfl (by norm_num) (by decide +kernel) (by decide +kernel)
    rfl (by norm_num) (by decide +kernel)).mpr ?_
  rintro ⟨_, after⟩
  exact absurd after (by decide +kernel)

/-- The long window is read as spent after the block, and the block is gone. -/
theorem spent_window_clears_block :
    ¬ KeepsQuotaBlock 1000 90000
      (stateFromAccount {} 2000 spentRow none (some (spentWindow 1500)) {}).1 := by
  intro kept
  have active : (stateFromAccount {} 2000 spentRow none (some (spentWindow 1500)) {}).1.status =
      .active := by decide +kernel
  rw [kept.status] at active
  cases active

end Balancer
