import LivingBalancer.Lib.Runs
import LivingBalancer.Accounts.RefreshTask

/-!
# Usage refreshes of one account row

`UsageUpdater._refresh_account` with any number of calls in flight, on any replicas. A call
reads the row, sends its fetch, and writes the status at most once: `_deactivate_for_client_error`
after an error of the account, `_recover_quota_status_from_usage` after a payload. All other
writers of the row are one action. What upstream will answer is fixed when a call starts; the
code sees it only at `answer`. Usage rows, cooldowns of the endpoint and the metadata sync
do not touch the columns here, and a check of theirs that fails is `abort`.
-/

namespace UsageRefresh

open Balancer (AccountStatus)
open TokenRefresh (StoredAccount Row)

variable {Cipher Token : Type}

structure UsageWindow where
  usedPercent : Option ℚ
  resetAt : Option ℤ
  limitWindowSeconds : Option ℤ
  resetAfterSeconds : Option ℤ
  deriving DecidableEq

/-- `rate_limit` of `UsagePayload`, with its primary and its secondary window. -/
structure UsagePayload where
  rateLimit : Option (Option UsageWindow × Option UsageWindow)
  deriving DecidableEq

structure UsageFetchError where
  statusCode : ℕ
  code : Option String
  message : String
  deriving DecidableEq

/-- `NormalizedRateLimitWindows`. -/
structure Windows where
  primary : Option UsageWindow
  secondary : Option UsageWindow
  monthly : Option UsageWindow
  deriving DecidableEq

/-! ## The decisions -/

def defaultWindowMinutesMonthly : ℤ := 43200

def normalizeRateLimitWindows (primary secondary : Option UsageWindow) : Windows :=
  match primary, secondary with
  | some window, none =>
    if window.limitWindowSeconds = some (defaultWindowMinutesMonthly * 60) then
      ⟨none, none, some window⟩
    else ⟨some window, none, none⟩
  | _, _ => ⟨primary, secondary, none⟩

/-- `monthly or secondary`. -/
def Windows.long (w : Windows) : Option UsageWindow := w.monthly <|> w.secondary

def windowHasAvailableQuota (window : UsageWindow) : Bool :=
  window.usedPercent.any fun used => decide (used < 100)

def windowIsExhausted (window : UsageWindow) : Bool :=
  window.usedPercent.any fun used => decide (100 ≤ used)

/-- `_reset_at`. -/
def resetAt (window : UsageWindow) (nowEpoch : ℤ) : Option ℤ :=
  match window.resetAt, window.resetAfterSeconds with
  | some reset, _ => some reset
  | none, some seconds => some (nowEpoch + max 0 seconds)
  | none, none => none

/-- The instant a 429 holds the row until; zero counts as no reset. -/
def rateLimitDeadline (account : StoredAccount Cipher) (blockedAt : ℤ) : ℚ :=
  (Balancer.nonzeroSeconds account.resetAt).getD
    (blockedAt + Balancer.rateLimitedMinCooldownSeconds)

/-- The cooldown of a row that a mark has blocked still runs. -/
def coolingDown (now : ℚ) (account : StoredAccount Cipher) : Bool :=
  match account.status, account.blockedAt with
  | .rateLimited, some blockedAt => decide (now < rateLimitDeadline account blockedAt)
  | .quotaExceeded, some blockedAt =>
    decide (now < blockedAt + Balancer.quotaExceededCooldownSeconds)
  | _, _ => false

/-- What a recovery writes; the reason and `blocked_at` become null. -/
structure Recovery where
  status : AccountStatus
  resetAt : Option ℤ
  deriving DecidableEq

/-- The windows under which a RATE_LIMITED row is recovered. -/
def rateLimitLifted (w : Windows) : Bool :=
  (w.primary.isSome || w.monthly.isSome) && w.primary.all windowHasAvailableQuota &&
    (w.primary.isSome || w.long.any windowHasAvailableQuota) && w.long.all windowHasAvailableQuota

/-- The target for a QUOTA_EXCEEDED row. -/
def quotaTarget (now : ℚ) (w : Windows) : Option Recovery :=
  let windows := w.primary.toList ++ w.long.toList
  if w.long.any windowHasAvailableQuota then
    let target : Option Recovery := match w.primary.filter windowIsExhausted with
      | some primary => some ⟨.rateLimited, resetAt primary (Balancer.truncInt now)⟩
      | none => if windows.any windowIsExhausted then none else some ⟨.active, none⟩
    if windows.any windowHasAvailableQuota then target else none
  else none

/-- `_recover_quota_status_from_usage` up to its write. -/
def recoverQuotaStatusFromUsage (now : ℚ) (account : StoredAccount Cipher) (w : Windows) :
    Option Recovery :=
  if coolingDown now account then none
  else
    match account.status with
    | .rateLimited => if rateLimitLifted w then some ⟨.active, none⟩ else none
    | .quotaExceeded => quotaTarget now w
    | _ => none

def deactivatingUsageStatusCodes : List ℕ := [402, 404]

def deactivatingUsageMessageHints : List String :=
  ["your openai account has been deactivated", "account has been deactivated"]

/-- `hint in lowered`. -/
def occursIn (hint text : String) : Bool :=
  text.toList.tails.any fun rest => hint.toList.isPrefixOf rest

/-- `exc.code in PERMANENT_FAILURE_CODES`. -/
def permanentCode (exc : UsageFetchError) : Option String :=
  exc.code.filter fun code => (Balancer.permanentFailureCodes.lookup code).isSome

def shouldDeactivateForUsageError (exc : UsageFetchError) : Bool :=
  deactivatingUsageStatusCodes.contains exc.statusCode || (permanentCode exc).isSome ||
    deactivatingUsageMessageHints.any fun hint => occursIn hint exc.message.toLower

def deactivationStatus (exc : UsageFetchError) : AccountStatus :=
  match permanentCode exc with
  | some code => Balancer.accountStatusForPermanentFailure code
  | none => .deactivated

def deactivationReason (exc : UsageFetchError) : String :=
  "Usage API error: HTTP " ++ toString exc.statusCode ++ " - " ++ exc.message

/-! ## Calls -/

inductive Answer where
  | payload (payload : UsagePayload)
  | error (exc : UsageFetchError)
  | routeError
  deriving DecidableEq

/-- `override` is `access_token_override`; `managed` says that there is an auth manager.
The answers are to the fetch and to the fetch after a forced token refresh. -/
structure Call (Token : Type) where
  managed : Bool
  override : Option Token
  answer : Answer
  retryAnswer : Answer
  deriving DecidableEq

/-- A decision to recover, and what it was made on. -/
structure Decision (Cipher : Type) where
  judged : StoredAccount Cipher
  decidedAt : ℚ
  windows : Windows
  recovery : Recovery
  deriving DecidableEq

/-- Where a call is suspended. `retry` is set once the token has been refreshed. -/
inductive Phase (Cipher Token : Type) where
  | loaded (account : StoredAccount Cipher) (retry : Bool)
  | fetching (account : StoredAccount Cipher) (token : Token) (retry : Bool)
  | refreshing
  | received (account : StoredAccount Cipher) (payload : UsagePayload)
  | recovering (decision : Decision Cipher)
  | deactivating (exc : UsageFetchError) (token : Token)
  deriving DecidableEq

def Call.answerTo (call : Call Token) (retry : Bool) : Answer :=
  if retry then call.retryAnswer else call.answer

/-- The access token of the next fetch. -/
def Call.accessToken (decrypt : Cipher → Option Token) (call : Call Token)
    (account : StoredAccount Cipher) (retry : Bool) : Option Token :=
  if retry then decrypt account.tokens.access
  else call.override <|> decrypt account.tokens.access

/-- The handlers of one fetch; `none` ends the call. -/
def Call.answered (call : Call Token) (account : StoredAccount Cipher) (token : Token)
    (retry : Bool) : Option (Phase Cipher Token) :=
  match call.answerTo retry with
  | .payload payload => some (.received account payload)
  | .routeError => none
  | .error exc =>
    if shouldDeactivateForUsageError exc then
      if call.managed then some (.deactivating exc token) else none
    else if retry || call.override.isSome || exc.statusCode != 401 || !call.managed then none
    else some .refreshing

/-- The decision on a payload, which needs at least one window. -/
def Call.decide (call : Call Token) (now : ℚ) (account : StoredAccount Cipher)
    (payload : UsagePayload) : Option (Decision Cipher) :=
  if call.managed then
    payload.rateLimit.bind fun limits =>
      let w := normalizeRateLimitWindows limits.1 limits.2
      (recoverQuotaStatusFromUsage now account w).map fun recovery => ⟨account, now, w, recovery⟩
  else none

/-- The row the decision was made on, in the columns that the write compares. -/
def Decision.Matches (d : Decision Cipher) (account : StoredAccount Cipher) : Prop :=
  account.status = d.judged.status ∧ account.deactivationReason = d.judged.deactivationReason ∧
    account.resetAt = d.judged.resetAt ∧ account.blockedAt = d.judged.blockedAt

instance (d : Decision Cipher) (account : StoredAccount Cipher) : Decidable (d.Matches account) :=
  inferInstanceAs (Decidable (_ ∧ _ ∧ _ ∧ _))

/-- `update_status_if_current` as a recovery calls it. -/
def Decision.land (d : Decision Cipher) (row : Row Cipher) : Row Cipher :=
  row.map fun account =>
    if d.Matches account then
      { account with
        status := d.recovery.status
        deactivationReason := none
        resetAt := d.recovery.resetAt
        blockedAt := none }
    else account

/-- `update_status` as `_deactivate_for_client_error` calls it: nothing is compared. -/
def deactivate (exc : UsageFetchError) (row : Row Cipher) : Row Cipher :=
  row.map fun account =>
    { account with
      status := deactivationStatus exc
      deactivationReason := some (deactivationReason exc)
      resetAt := none }

/-! ## The system -/

structure World (Cipher Token : Type) where
  now : ℚ
  row : Row Cipher
  calls : ℕ → Option (Call Token × Phase Cipher Token)

/-- `write` is any other writer: a mark, an operator, a token rotation, an import, a deletion.
`share` replaces the account object of a call, which other tasks may hold too. -/
inductive Act (Cipher Token : Type) where
  | advance (now : ℚ)
  | write (row : Row Cipher)
  | load (i : ℕ) (call : Call Token)
  | send (i : ℕ)
  | answer (i : ℕ)
  | refreshed (i : ℕ) (account : StoredAccount Cipher)
  | share (i : ℕ) (account : StoredAccount Cipher)
  | decide (i : ℕ)
  | land (i : ℕ)
  | abort (i : ℕ)

/-- The steps of usage refreshes. -/
def Act.refreshes : Act Cipher Token → Bool
  | .advance _ | .write _ => false
  | _ => true

namespace World

def setCall (w : World Cipher Token) (i : ℕ) (call : Call Token)
    (phase : Option (Phase Cipher Token)) : World Cipher Token :=
  { w with calls := fun j => if j = i then phase.map (call, ·) else w.calls j }

def withRow (w : World Cipher Token) (row : Row Cipher) : World Cipher Token :=
  { w with row := row }

def Initial (w : World Cipher Token) : Prop := ∀ i, w.calls i = none

end World

section System

variable [DecidableEq Cipher]

/-- A call skips an account that has to log in again. A forced token refresh leaves the call
with the tokens of the row. -/
def step (decrypt : Cipher → Option Token) (w : World Cipher Token) :
    Act Cipher Token → Option (World Cipher Token)
  | .advance now => if w.now ≤ now then some { w with now := now } else none
  | .write row => some (w.withRow row)
  | .load i call =>
    match w.calls i, w.row with
    | none, some account =>
      if account.status = .reauthRequired ∨ account.status = .deactivated then none
      else some (w.setCall i call (some (.loaded account false)))
    | _, _ => none
  | .send i =>
    match w.calls i with
    | some (call, .loaded account retry) =>
      some (w.setCall i call
        ((call.accessToken decrypt account retry).map (.fetching account · retry)))
    | _ => none
  | .answer i =>
    match w.calls i with
    | some (call, .fetching account token retry) =>
      some (w.setCall i call (call.answered account token retry))
    | _ => none
  | .refreshed i account =>
    match w.calls i with
    | some (call, .refreshing) =>
      if w.row.all fun stored => decide (stored.tokens = account.tokens) then
        some (w.setCall i call (some (.loaded account true)))
      else none
    | _ => none
  | .share i account =>
    match w.calls i with
    | some (call, .received _ payload) => some (w.setCall i call (some (.received account payload)))
    | _ => none
  | .decide i =>
    match w.calls i with
    | some (call, .received account payload) =>
      some (w.setCall i call ((call.decide w.now account payload).map .recovering))
    | _ => none
  | .land i =>
    match w.calls i with
    | some (call, .recovering d) => some ((w.withRow (d.land w.row)).setCall i call none)
    | some (call, .deactivating exc _) =>
      some ((w.withRow (deactivate exc w.row)).setCall i call none)
    | _ => none
  | .abort i =>
    match w.calls i with
    | some (call, _) => some (w.setCall i call none)
    | none => none

end System

/-! ## What a step does -/

/-- How a call came into its phase. -/
inductive Advances (decrypt : Cipher → Option Token) (w : World Cipher Token)
    (act : Act Cipher Token) (i : ℕ) (call : Call Token) : Phase Cipher Token → Prop where
  | loaded {account : StoredAccount Cipher} (starts : act = .load i call)
      (row : w.row = some account) :
      Advances decrypt w act i call (.loaded account false)
  | sent {account : StoredAccount Cipher} {token : Token} {retry : Bool}
      (old : w.calls i = some (call, .loaded account retry))
      (decrypted : call.accessToken decrypt account retry = some token) :
      Advances decrypt w act i call (.fetching account token retry)
  | answered {account : StoredAccount Cipher} {token : Token} {retry : Bool}
      {phase : Phase Cipher Token} (old : w.calls i = some (call, .fetching account token retry))
      (next : call.answered account token retry = some phase) : Advances decrypt w act i call phase
  | refreshed {account : StoredAccount Cipher} (refreshes : act = .refreshed i account)
      (stored : ∀ row ∈ w.row, row.tokens = account.tokens) :
      Advances decrypt w act i call (.loaded account true)
  | shared {account account' : StoredAccount Cipher} {payload : UsagePayload}
      (old : w.calls i = some (call, .received account payload)) :
      Advances decrypt w act i call (.received account' payload)
  | decided {account : StoredAccount Cipher} {payload : UsagePayload} {d : Decision Cipher}
      (old : w.calls i = some (call, .received account payload))
      (decided : call.decide w.now account payload = some d) :
      Advances decrypt w act i call (.recovering d)

/-- How the row was changed by a call. -/
inductive Lands (w : World Cipher Token) : Row Cipher → Prop where
  | recovery {i : ℕ} {call : Call Token} {d : Decision Cipher}
      (pending : w.calls i = some (call, .recovering d)) : Lands w (d.land w.row)
  | deactivation {i : ℕ} {call : Call Token} {exc : UsageFetchError} {token : Token}
      (pending : w.calls i = some (call, .deactivating exc token)) :
      Lands w (deactivate exc w.row)

theorem World.setCall_calls {w : World Cipher Token} {i j : ℕ} {call call' : Call Token}
    {phase : Option (Phase Cipher Token)} {phase' : Phase Cipher Token}
    (h : (w.setCall i call phase).calls j = some (call', phase')) :
    w.calls j = some (call', phase') ∨ (j = i ∧ call' = call ∧ phase = some phase') := by
  simp only [World.setCall] at h
  by_cases own : j = i
  · rw [if_pos own] at h
    obtain ⟨phase'', hphase, hpair⟩ := Option.map_eq_some_iff.mp h
    cases hpair
    exact .inr ⟨own, rfl, hphase⟩
  · rw [if_neg own] at h
    exact .inl h

section Steps

variable {decrypt : Cipher → Option Token} {w w' : World Cipher Token} {act : Act Cipher Token}

/-- A step advances at most one call; the clock does not go back, and the row changes by a
write of its own or by a call that lands. -/
structure Stepped (decrypt : Cipher → Option Token) (w : World Cipher Token)
    (act : Act Cipher Token) (w' : World Cipher Token) : Prop where
  clock : w.now ≤ w'.now
  still : act.refreshes = true → w'.now = w.now
  row : w'.row = w.row ∨ act = .write w'.row ∨ Lands w w'.row
  calls : ∀ i call phase, w'.calls i = some (call, phase) →
    w.calls i = some (call, phase) ∨ Advances decrypt w act i call phase

/-- The steps that give one call a new phase. -/
theorem Stepped.of_call {i : ℕ} {call : Call Token} {phase : Option (Phase Cipher Token)}
    (h : ∀ phase', phase = some phase' → Advances decrypt w act i call phase') :
    Stepped decrypt w act (w.setCall i call phase) where
  clock := le_rfl
  still _ := rfl
  row := .inl rfl
  calls j call' phase' hc := by
    rcases World.setCall_calls hc with old | ⟨rfl, rfl, now⟩
    · exact .inl old
    · exact .inr (h phase' now)

theorem Stepped.of_landing {i : ℕ} {call : Call Token} {row : Row Cipher} (h : Lands w row) :
    Stepped decrypt w act ((w.withRow row).setCall i call none) where
  clock := le_rfl
  still _ := rfl
  row := .inr (.inr h)
  calls j call' phase' hc := by
    rcases World.setCall_calls hc with old | ⟨_, _, none⟩
    · exact .inl old
    · cases none

theorem load_row [DecidableEq Cipher] {i : ℕ} {call : Call Token}
    (h : step decrypt w (.load i call) = some w') : w'.row = w.row := by
  simp only [step] at h
  split at h
  · split at h
    · cases h
    · cases h
      rfl
  · cases h

theorem refreshed_row [DecidableEq Cipher] {i : ℕ} {account : StoredAccount Cipher}
    (h : step decrypt w (.refreshed i account) = some w') : w'.row = w.row := by
  simp only [step] at h
  split at h
  · split at h
    · cases h
      rfl
    · cases h
  · cases h

theorem step_stepped [DecidableEq Cipher] (h : step decrypt w act = some w') : Stepped decrypt w act w' := by
  cases act with
  | advance now =>
    simp only [step] at h
    split at h
    · rename_i later
      cases h
      exact ⟨later, nofun, .inl rfl, fun _ _ _ hc => .inl hc⟩
    · cases h
  | write row =>
    cases h
    exact ⟨le_rfl, nofun, .inr (.inl rfl), fun _ _ _ hc => .inl hc⟩
  | load i call =>
    simp only [step] at h
    split at h
    · rename_i account free found
      split at h
      · cases h
      · cases h
        refine .of_call ?_
        rintro phase' ⟨⟩
        exact .loaded rfl found
    · cases h
  | send i =>
    simp only [step] at h
    split at h
    · rename_i call account retry old
      cases h
      refine .of_call ?_
      intro phase' hphase
      obtain ⟨token, htoken, rfl⟩ := Option.map_eq_some_iff.mp hphase
      exact .sent old htoken
    · cases h
  | answer i =>
    simp only [step] at h
    split at h
    · rename_i call account token retry old
      cases h
      exact .of_call fun phase' hphase => .answered old hphase
    · cases h
  | refreshed i account =>
    simp only [step] at h
    split at h
    · split at h
      · rename_i same
        cases h
        refine .of_call ?_
        rintro phase' ⟨⟩
        refine .refreshed rfl ?_
        intro row hrow
        rw [hrow] at same
        exact of_decide_eq_true same
      · cases h
    · cases h
  | share i account =>
    simp only [step] at h
    split at h
    · rename_i call account' payload old
      cases h
      refine .of_call ?_
      rintro phase' ⟨⟩
      exact .shared old
    · cases h
  | decide i =>
    simp only [step] at h
    split at h
    · rename_i call account payload old
      cases h
      refine .of_call ?_
      intro phase' hphase
      obtain ⟨d, hd, rfl⟩ := Option.map_eq_some_iff.mp hphase
      exact .decided old hd
    · cases h
  | land i =>
    simp only [step] at h
    split at h
    · rename_i call d pending
      cases h
      exact .of_landing (.recovery pending)
    · rename_i call exc token pending
      cases h
      exact .of_landing (.deactivation pending)
    · cases h
  | abort i =>
    simp only [step] at h
    split at h
    · cases h
      exact .of_call fun _ none => by cases none
    · cases h

end Steps

end UsageRefresh
