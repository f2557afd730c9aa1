import LivingBalancer.Accounts.UsageRefresh

/-!
# Recoveries by a usage refresh

The write compares the four columns the decision was made on, so a recovery that lands
takes the row out of the very block that was judged. A row that is RATE_LIMITED without
`blocked_at` has no cooldown for this path: its `reset_at` may still be ahead.
-/

namespace UsageRefresh

open Runs
open Balancer (AccountStatus)
open TokenRefresh (StoredAccount Row)

variable {Cipher Token : Type} {decrypt : Cipher → Option Token} {w w' : World Cipher Token}

/-! ## The decision -/

theorem coolingDown_earlier {now now' : ℚ} {account : StoredAccount Cipher} (le : now ≤ now')
    (h : coolingDown now' account = true) : coolingDown now account = true := by
  simp only [coolingDown] at h ⊢
  split at h
  · exact decide_eq_true (lt_of_le_of_lt le (of_decide_eq_true h))
  · exact decide_eq_true (lt_of_le_of_lt le (of_decide_eq_true h))
  · cases h

theorem coolingDown_of_matches {d : Decision Cipher} {account : StoredAccount Cipher}
    (same : d.Matches account) (now : ℚ) : coolingDown now account = coolingDown now d.judged := by
  obtain ⟨status, _, reset, blocked⟩ := same
  have deadline : ∀ b, rateLimitDeadline account b = rateLimitDeadline d.judged b := by
    intro b
    simp only [rateLimitDeadline, reset]
  simp only [coolingDown, status, blocked, deadline]

theorem quotaTarget_long {now : ℚ} {windows : Windows} {recovery : Recovery}
    (h : quotaTarget now windows = some recovery) : windows.long.any windowHasAvailableQuota := by
  by_contra unavailable
  simp only [quotaTarget, if_neg unavailable] at h
  cases h

/-- The block is over, and the long window that was seen is below its limit. -/
structure Judged (now : ℚ) (account : StoredAccount Cipher) (windows : Windows) : Prop where
  status : account.status = .rateLimited ∨ account.status = .quotaExceeded
  rateLimit : ∀ b, account.status = .rateLimited → account.blockedAt = some b →
    rateLimitDeadline account b ≤ now
  quota : ∀ b, account.status = .quotaExceeded → account.blockedAt = some b →
    b + Balancer.quotaExceededCooldownSeconds ≤ now
  quotaWindow : account.status = .quotaExceeded → windows.long.isSome
  longWindow : ∀ window, windows.long = some window →
    ∃ used, window.usedPercent = some used ∧ used < 100

theorem available_used {window : UsageWindow} (h : windowHasAvailableQuota window = true) :
    ∃ used, window.usedPercent = some used ∧ used < 100 := by
  simp only [windowHasAvailableQuota, Option.any_eq_true, decide_eq_true_eq] at h
  obtain ⟨used, known, below⟩ := h
  exact ⟨used, known, below⟩

theorem recover_judged {now : ℚ} {account : StoredAccount Cipher} {windows : Windows}
    {recovery : Recovery}
    (h : recoverQuotaStatusFromUsage now account windows = some recovery) :
    Judged now account windows := by
  simp only [recoverQuotaStatusFromUsage] at h
  split at h
  · cases h
  rename_i notCooling
  split at h
  · rename_i limited
    split at h
    · rename_i lifted
      simp only [rateLimitLifted, Bool.and_eq_true] at lifted
      refine ⟨.inl limited, ?_, ?_, ?_, ?_⟩
      · intro b _ blocked
        simp only [coolingDown, limited, blocked, decide_eq_true_eq, not_lt] at notCooling
        exact notCooling
      · intro b quota
        rw [limited] at quota
        cases quota
      · intro quota
        rw [limited] at quota
        cases quota
      · intro window seen
        have available := lifted.2
        rw [seen] at available
        exact available_used available
    · cases h
  · rename_i exceeded
    have long := quotaTarget_long h
    rw [Option.any_eq_true] at long
    obtain ⟨window, seen, available⟩ := long
    refine ⟨.inr exceeded, ?_, ?_, ?_, ?_⟩
    · intro b limited
      rw [exceeded] at limited
      cases limited
    · intro b _ blocked
      rw [coolingDown, exceeded, blocked] at notCooling
      simpa only [decide_eq_true_eq, not_lt] using notCooling
    · intro _
      exact Option.isSome_of_eq_some seen
    · intro window' seen'
      rw [seen] at seen'
      cases seen'
      exact available_used available
  · cases h

/-! ## Runs -/

/-- What a pending recovery was decided on, at some earlier instant. -/
structure Decision.Made (d : Decision Cipher) (now : ℚ) : Prop where
  before : d.decidedAt ≤ now
  recovery : recoverQuotaStatusFromUsage d.decidedAt d.judged d.windows = some d.recovery

theorem decide_made {call : Call Token} {now : ℚ} {account : StoredAccount Cipher}
    {payload : UsagePayload} {d : Decision Cipher}
    (h : call.decide now account payload = some d) : d.Made now := by
  simp only [Call.decide] at h
  split at h
  · obtain ⟨limits, _, hmap⟩ := Option.bind_eq_some_iff.mp h
    obtain ⟨recovery, hrecovery, rfl⟩ := Option.map_eq_some_iff.mp hmap
    exact ⟨le_rfl, hrecovery⟩
  · cases h

/-- Every pending recovery was decided before now. -/
def Decided (w : World Cipher Token) : Prop :=
  ∀ i call d, w.calls i = some (call, .recovering d) → d.Made w.now

theorem answered_not_recovering {call : Call Token} {account : StoredAccount Cipher}
    {token : Token} {retry : Bool} {d : Decision Cipher} :
    call.answered account token retry ≠ some (.recovering d) := by
  intro h
  simp only [Call.answered] at h
  split at h
  · cases h
  · cases h
  · split_ifs at h <;> cases h

theorem Decided.step [DecidableEq Cipher] {act : Act Cipher Token} (h : Decided w)
    (hstep : step decrypt w act = some w') : Decided w' := by
  have stepped := step_stepped hstep
  intro i call d pending
  rcases stepped.calls i call _ pending with old | advance
  · have made := h i call d old
    exact ⟨made.before.trans stepped.clock, made.recovery⟩
  · cases advance with
    | answered old next => exact absurd next answered_not_recovering
    | decided old decided =>
      have made := decide_made decided
      exact ⟨made.before.trans stepped.clock, made.recovery⟩

theorem reachable_decided [DecidableEq Cipher] {ok : World Cipher Token → Act Cipher Token → Prop}
    (reach : Reachable (step decrypt) ok World.Initial w) : Decided w := by
  refine reach.invariant ?_ fun s act t h _ hstep => h.step hstep
  intro s start i call d pending
  rw [start i] at pending
  cases pending

/-- The row changes only where the four columns are those of the judged row. -/
theorem Decision.land_cases (d : Decision Cipher) (row : Row Cipher) :
    d.land row = row ∨ ∃ account, row = some account ∧ d.Matches account := by
  cases row with
  | none => exact .inl rfl
  | some account =>
    by_cases same : d.Matches account
    · exact .inr ⟨account, rfl, same⟩
    · exact .inl (by simp [Decision.land, same])

theorem Judged.of_matches {d : Decision Cipher} {account : StoredAccount Cipher} {now : ℚ}
    (same : d.Matches account) (h : Judged now d.judged d.windows) :
    Judged now account d.windows := by
  obtain ⟨status, _, reset, blocked⟩ := same
  refine ⟨status ▸ h.status, ?_, ?_, ?_, h.longWindow⟩
  · intro b limited blockedAt
    have deadline := h.rateLimit b (status ▸ limited) (blocked ▸ blockedAt)
    simpa only [rateLimitDeadline, reset] using deadline
  · exact fun b quota blockedAt => h.quota b (status ▸ quota) (blocked ▸ blockedAt)
  · exact fun quota => h.quotaWindow (status ▸ quota)

theorem deactivationStatus_hardBlocked (exc : UsageFetchError) :
    (deactivationStatus exc).hardBlocked = true := by
  simp only [deactivationStatus]
  split
  · simp only [Balancer.accountStatusForPermanentFailure]
    split <;> rfl
  · rfl

/-- A pending recovery leaves operator blocks and running cooldowns as they are. -/
theorem Decision.Made.spares {d : Decision Cipher} {now : ℚ} {account : StoredAccount Cipher}
    (made : d.Made now)
    (blocked : account.status.hardBlocked = true ∨ coolingDown now account = true) :
    ¬ d.Matches account := by
  intro same
  have judged := (recover_judged made.recovery).of_matches same
  rcases blocked with hard | running
  · rcases judged.status with limited | exceeded
    · rw [limited] at hard
      cases hard
    · rw [exceeded] at hard
      cases hard
  · have earlier := coolingDown_earlier made.before running
    rw [coolingDown_of_matches same] at earlier
    have decided := made.recovery
    rw [recoverQuotaStatusFromUsage, if_pos earlier] at decided
    cases decided

section Refreshes

variable [DecidableEq Cipher]

/-- A recovery lands only on the row it was decided on, once the block a mark set is over and
below the long limit; no step of a refresh clears an operator block or a running cooldown. -/
theorem usage_refresh_clears_judged_block
    (reach : Reachable (step decrypt) Any World.Initial w) :
    (∀ i call d, w.calls i = some (call, .recovering d) →
      step decrypt w (.land i) = some w' → w'.row ≠ w.row →
      ∃ account, w.row = some account ∧ d.Matches account ∧ d.decidedAt ≤ w.now ∧
        Judged d.decidedAt account d.windows) ∧
      ∀ act account, act.refreshes = true → step decrypt w act = some w' →
        w.row = some account → ∃ account', w'.row = some account' ∧
          (account.status.hardBlocked = true → account'.status.hardBlocked = true) ∧
          (coolingDown w.now account = true →
            account' = account ∨ account'.status.hardBlocked = true) := by
  have decided := reachable_decided reach
  refine ⟨?_, ?_⟩
  · intro i call d pending hstep changed
    have landed : w'.row = d.land w.row := by
      simp only [step, pending, Option.some.injEq] at hstep
      rw [← hstep]
      rfl
    rcases d.land_cases w.row with same | ⟨account, row, matching⟩
    · exact absurd (landed.trans same) changed
    · have made := decided i call d pending
      exact ⟨account, row, matching, made.before,
        (recover_judged made.recovery).of_matches matching⟩
  · intro act account refreshes hstep row
    rcases (step_stepped hstep).row with same | write | lands
    · exact ⟨account, same.trans row, id, fun _ => .inl rfl⟩
    · rw [write] at refreshes
      cases refreshes
    · generalize hrow : w'.row = row' at lands
      cases lands with
      | @recovery i call d pending =>
        have made := decided i call d pending
        rw [row]
        by_cases matching : d.Matches account
        · simp only [Decision.land, Option.map_some, if_pos matching]
          refine ⟨_, rfl, ?_, ?_⟩
          · exact fun hard => absurd matching (made.spares (.inl hard))
          · exact fun running => absurd matching (made.spares (.inr running))
        · refine ⟨account, ?_, id, fun _ => .inl rfl⟩
          simp only [Decision.land, Option.map_some, if_neg matching]
      | @deactivation i call exc token pending =>
        rw [row]
        have hard := deactivationStatus_hardBlocked exc
        exact ⟨_, rfl, fun _ => hard, fun _ => .inr hard⟩

end Refreshes

section Runs

/-- The call of a background refresh that is answered with these two windows. -/
def quotaCall (primary secondary : ℚ) (reset : Option ℤ) : Call ℕ where
  managed := true
  override := none
  answer := .payload ⟨some (some ⟨some primary, reset, none, none⟩,
    some ⟨some secondary, none, none, none⟩)⟩
  retryAnswer := .routeError

def blockedRow (status : AccountStatus) (blockedAt : Option ℤ) : StoredAccount ℕ where
  tokens := ⟨0, 0, 0, 0⟩
  status := status
  deactivationReason := none
  resetAt := none
  blockedAt := blockedAt

def startWith (now : ℚ) (account : StoredAccount ℕ) : World ℕ ℕ :=
  ⟨now, some account, fun _ => none⟩

/-- The world after a run of enabled steps. -/
def after (start : World ℕ ℕ) (acts : List (Act ℕ ℕ)) : World ℕ ℕ :=
  (replay (step some) start acts).getD start

theorem after_reachable {start : World ℕ ℕ} {acts : List (Act ℕ ℕ)} (initial : start.Initial)
    (enabled : (replay (step some) start acts).isSome = true) :
    Reachable (step some) Any World.Initial (after start acts) :=
  reachable_of_replay acts initial (fun _ _ _ => trivial) (replay_eq_getD enabled start)

/-- A 429 at 1000 without a reset, judged at 1030. -/
def cooledDown : World ℕ ℕ :=
  after (startWith 1000 (blockedRow .rateLimited (some 1000)))
    [.load 0 (quotaCall 40 60 none), .send 0, .answer 0, .advance 1030, .decide 0]

theorem usage_refresh_clears_judged_block_cooled : ∃ w' call d,
    step some cooledDown (.land 0) = some w' ∧
      ∃ account, cooledDown.row = some account ∧ d.Matches account ∧ d.decidedAt ≤ cooledDown.now ∧
        Judged d.decidedAt account d.windows ∧
        cooledDown.calls 0 = some (call, .recovering d) := by
  have reach : Reachable (step some) Any World.Initial cooledDown :=
    after_reachable (fun _ => rfl) (by decide +kernel)
  obtain ⟨w', landed⟩ : ∃ w', step some cooledDown (.land 0) = some w' :=
    Option.isSome_iff_exists.mp (by decide +kernel)
  have changed : w'.row ≠ cooledDown.row := by
    have written : (step some cooledDown (.land 0)).map World.row ≠ some cooledDown.row := by
      decide +kernel
    rw [landed] at written
    exact fun same => written (congrArg some same)
  have pending : cooledDown.calls 0 = some (quotaCall 40 60 none,
      .recovering ⟨blockedRow .rateLimited (some 1000), 1030,
        ⟨some ⟨some 40, none, none, none⟩, some ⟨some 60, none, none, none⟩, none⟩,
        ⟨.active, none⟩⟩) := by decide +kernel
  obtain ⟨account, row, matching, before, judged⟩ :=
    (usage_refresh_clears_judged_block reach).1 0 _ _ pending landed changed
  exact ⟨w', _, _, landed, account, row, matching, before, judged, pending⟩

/-- The deadline that the columns of a row give, whoever wrote them. -/
def columnDeadline (account : StoredAccount ℕ) : Option ℚ :=
  match account.status with
  | .rateLimited => 
    account.resetAt.map (fun r : ℤ => (r : ℚ)) <|> account.blockedAt.map fun b : ℤ => (b : ℚ) + 30
  | .quotaExceeded => account.blockedAt.map fun b : ℤ => (b : ℚ) + 120
  | _ => none

/-- One refresh turns a QUOTA_EXCEEDED row into a RATE_LIMITED one until 5000; the next
recovers it at 2000. -/
def rateLimitedByRefresh : World ℕ ℕ :=
  after (startWith 2000 (blockedRow .quotaExceeded (some 1000)))
    [.load 0 (quotaCall 100 60 (some 5000)), .send 0, .answer 0, .decide 0, .land 0,
      .load 1 (quotaCall 40 60 (some 5000)), .send 1, .answer 1, .decide 1]

theorem usage_refresh_recovers_before_reset :
    ¬ ∀ (w w' : World ℕ ℕ) i call d account, Reachable (step some) Any World.Initial w →
      w.calls i = some (call, .recovering d) → step some w (.land i) = some w' →
      w'.row ≠ w.row → w.row = some account →
      ∀ deadline, columnDeadline account = some deadline → deadline ≤ d.decidedAt := by
  intro claim
  have reach : Reachable (step some) Any World.Initial rateLimitedByRefresh :=
    after_reachable (fun _ => rfl) (by decide +kernel)
  obtain ⟨w', landed⟩ : ∃ w', step some rateLimitedByRefresh (.land 1) = some w' :=
    Option.isSome_iff_exists.mp (by decide +kernel)
  have changed : w'.row ≠ rateLimitedByRefresh.row := by
    have written :
        (step some rateLimitedByRefresh (.land 1)).map World.row ≠ some rateLimitedByRefresh.row := by
      decide +kernel
    rw [landed] at written
    exact fun same => written (congrArg some same)
  have late := claim rateLimitedByRefresh w' 1 (quotaCall 40 60 (some 5000))
    ⟨{ blockedRow .rateLimited none with resetAt := some 5000 }, 2000,
      normalizeRateLimitWindows (some ⟨some 40, some 5000, none, none⟩)
        (some ⟨some 60, none, none, none⟩), ⟨.active, none⟩⟩
    { blockedRow .rateLimited none with resetAt := some 5000 } reach
    (by decide +kernel) landed changed (by decide +kernel) 5000 (by decide +kernel)
  exact absurd late (by decide +kernel)

end Runs

end UsageRefresh
