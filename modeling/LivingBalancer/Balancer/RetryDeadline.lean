import LivingBalancer.Balancer.RetryHint

/-!
# The persisted deadline of a rate limit

`mark_rate_limit` down to the row: the delay that the error's message hints, the floor without
a hint, or the upstream's own reset time. The row holds whole seconds in an integer column of the
database, a reset time of zero is written as no reset at all, and nothing is written where the
caller's copy of the account says it already.
-/

namespace Balancer

/-- Text whose characters the patterns' classes decide. -/
abbrev AsciiText := {text : List Char // ∀ c ∈ text, c.toNat < 128}

theorem ascii_of_all {text : List Char} (all : text.all (fun c => decide (c.toNat < 128)) = true) :
    ∀ c ∈ text, c.toNat < 128 :=
  fun c member => of_decide_eq_true (List.all_eq_true.mp all c member)

/-- A rate-limit error as the upstream sent it. -/
structure RateLimitError where
  message : Option AsciiText
  resetsAt : Option ℚ
  resetsInSeconds : Option ℚ

/-- `parse_retry_after(message) if message else None`. -/
def RateLimitError.delay (error : RateLimitError) : Option ℚ :=
  match error.message with
  | some message => if message.1 = [] then none else parseRetryAfter message.1
  | none => none

def RateLimitError.upstream (error : RateLimitError) : UpstreamError :=
  ⟨error.delay, error.resetsAt, error.resetsInSeconds⟩

/-- The reset time that the metadata of an error gives. -/
def RateLimitError.resetTime (now : ℚ) (error : RateLimitError) : Option ℚ :=
  match error.resetsAt, error.resetsInSeconds with
  | some reset, _ => some reset
  | none, some seconds => some (now + seconds)
  | none, none => none

/-- The state of an account that `mark_rate_limit` hands to `_persist_state`. -/
def rateLimitState (now jitter : ℚ) (error : RateLimitError) (account : Account)
    (rt : RuntimeState) : AccountState :=
  (Mark.rateLimit error.upstream jitter).apply now (stateFor account rt)

/-! ## The columns -/

/-- The databases, by how they keep an `Integer` column. -/
inductive Backend where
  | sqlite
  | postgresql
  deriving DecidableEq, Repr

def Backend.integerBits : Backend → Nat
  | .sqlite => 64
  | .postgresql => 32

/-- Whether a bound value is one of the column's integers, or null. -/
def Backend.fits (backend : Backend) (value : Option Int) : Bool :=
  value.all fun n =>
    decide (-2 ^ (backend.integerBits - 1) ≤ n) && decide (n < 2 ^ (backend.integerBits - 1))

def Backend.fitsColumns (backend : Backend) (w : StatusColumns) : Bool :=
  backend.fits w.resetAt && backend.fits w.blockedAt

/-- `_persist_state` on a database: an integer too large for its column raises, and the rows stay
as they are. -/
def storeState (backend : Backend) (rows : Rows) (account : Account) (state : AccountState) :
    Option Rows :=
  if account.columns = stateColumns state ∨ backend.fitsColumns (stateColumns state) = true then
    some (persistState rows account state)
  else none

/-- The row write of `mark_rate_limit`; `none` is its exception. -/
def markRateLimit (backend : Backend) (now jitter : ℚ) (error : RateLimitError)
    (account : Account) (rt : RuntimeState) (rows : Rows) : Option Rows :=
  storeState backend rows account (rateLimitState now jitter error account rt)

/-- The reset that a rate limit owes its row. -/
structure DueReset (now : ℚ) (error : RateLimitError) (persisted : Option Int) : Prop where
  hinted : ∀ seconds, error.resetTime now = none → error.delay = some seconds →
    ∃ reset : Int, persisted = some reset ∧ now + seconds ≤ reset
  floor : error.resetTime now = none → error.delay = none →
    ∃ reset : Int, persisted = some reset ∧ now + 30 ≤ reset
  upstream : ∀ reset, error.resetTime now = some reset → persisted = some (truncInt reset)

/-- The hint of an error is read from its message, and the deadline in the row honours it. -/
structure HonorsHint (backend : Backend) (now jitter : ℚ) (error : RateLimitError)
    (account : Account) (rt : RuntimeState) (rows : Rows) : Prop where
  read : ∀ message, error.message = some message → HintRead message.1 error.delay
  stored : ∃ rows' row, markRateLimit backend now jitter error account rt rows = some rows' ∧
    rows' account.id = some row ∧ DueReset now error row.resetAt

/-- Where the row ends with the reset it is owed: it is there, the columns hold what is written
and the upstream's reset is not zero; or nothing is left to write, as the caller's copy says the
same, and the row itself holds such a reset. -/
def RowKeepsDeadline (backend : Backend) (now jitter : ℚ) (error : RateLimitError)
    (account : Account) (rt : RuntimeState) (rows : Rows) : Prop :=
  ∃ row, rows account.id = some row ∧
    if account.columns = stateColumns (rateLimitState now jitter error account rt) then
      DueReset now error row.resetAt
    else
      backend.fitsColumns (stateColumns (rateLimitState now jitter error account rt)) = true ∧
        ∀ reset, error.resetTime now = some reset → truncInt reset ≠ 0

variable {now jitter : ℚ} {error : RateLimitError} {account : Account} {rt : RuntimeState}

theorem truncInt_intCast (n : Int) : truncInt (n : ℚ) = n := by
  rw [truncInt]
  split <;> simp

theorem epochSeconds_ceil {deadline : ℚ} (ahead : 0 < deadline) :
    epochSeconds (some (⌈deadline⌉ : ℚ)) = some ⌈deadline⌉ := by
  have positive : (0 : ℚ) < ⌈deadline⌉ := lt_of_lt_of_le ahead (Int.le_ceil deadline)
  rw [epochSeconds, if_neg (ne_of_gt positive), truncInt_intCast]

theorem epochSeconds_intCast (n : Int) :
    epochSeconds (some (n : ℚ)) = if n = 0 then none else some n := by
  rw [epochSeconds, truncInt_intCast]
  simp

/-! ## Hints are not negative -/

theorem floatOf_nonneg (value : List Char) : 0 ≤ floatOf value := by
  rw [floatOf]
  positivity

theorem unitSeconds_nonneg : ∀ entry ∈ unitSeconds, 0 ≤ entry.2 := by decide +kernel

theorem componentSeconds_nonneg (number unit : List Char) : 0 ≤ componentSeconds number unit := by
  rw [componentSeconds]
  refine mul_nonneg (floatOf_nonneg number) ?_
  cases found : unitSeconds.lookup (unit.map Char.toLower) with
  | none => exact le_refl _
  | some multiplier =>
    obtain ⟨before, after, split, _⟩ := List.lookup_eq_some_iff.mp found
    exact unitSeconds_nonneg _ (split ▸ List.mem_append_right _ List.mem_cons_self)

theorem Run.nonneg {s : List Char} {found : List ℚ} (run : Run s found) : 0 ≤ found.sum := by
  induction run with
  | stop none_ => exact le_refl _
  | next first run ih =>
    rw [List.sum_cons]
    exact add_nonneg (componentSeconds_nonneg _ _) ih

theorem delay_nonneg {seconds : ℚ} (found : error.delay = some seconds) : 0 ≤ seconds := by
  rw [RateLimitError.delay] at found
  split at found
  next message _ =>
    split at found
    · cases found
    · have hint := parseRetryAfter_reads message.1
      rw [found] at hint
      obtain ⟨_, _, _, _, ⟨_, _, _, _, run, _⟩, rfl, _⟩ := hint
      exact run.nonneg
  · cases found

/-! ## The deadline -/

theorem extractResetAt_resetTime :
    extractResetAt now error.upstream = (error.resetTime now).map truncInt := by
  rw [extractResetAt, RateLimitError.resetTime, RateLimitError.upstream]
  cases error.resetsAt <;> cases error.resetsInSeconds <;> rfl

/-- The column of a rate limit by where its deadline comes from. -/
theorem rateLimitState_resetAt :
    (stateColumns (rateLimitState now jitter error account rt)).resetAt =
      match error.resetTime now with
      | some reset => if truncInt reset = 0 then none else some (truncInt reset)
      | none => epochSeconds (some (⌈now + error.delay.getD
          (max (backoffSeconds ((stateFor account rt).errorCount + 1) jitter)
            rateLimitedMinCooldownSeconds)⌉ : ℚ)) := by
  have delay : error.upstream.retryAfter = error.delay := rfl
  simp only [stateColumns, rateLimitState, Mark.apply, handleRateLimit, extractResetAt_resetTime,
    delay]
  cases error.resetTime now with
  | some reset => exact epochSeconds_intCast _
  | none =>
    cases error.delay <;> rfl

theorem delay_read (message : AsciiText) (sent : error.message = some message) :
    HintRead message.1 error.delay := by
  simp only [RateLimitError.delay, sent]
  split
  next empty =>
    have missed : parseRetryAfter message.1 = none := by
      rw [empty]
      decide +kernel
    have read := parseRetryAfter_reads message.1
    rwa [missed] at read
  · exact parseRetryAfter_reads message.1

/-- What is written is owed, unless the upstream's reset time is truncated to zero. -/
theorem rateLimitState_due (clock : 0 < now) :
    DueReset now error (stateColumns (rateLimitState now jitter error account rt)).resetAt ↔
      ∀ reset, error.resetTime now = some reset → truncInt reset ≠ 0 := by
  have column := @rateLimitState_resetAt now jitter error account rt
  constructor
  · intro due reset metadata zero
    have persisted := due.upstream reset metadata
    rw [metadata] at column
    simp only [zero, if_true] at column
    rw [column] at persisted
    cases persisted
  · intro nonzero
    refine ⟨?_, ?_, ?_⟩
    · intro seconds metadata hint
      have ahead : 0 < now + seconds := add_pos_of_pos_of_nonneg clock (delay_nonneg hint)
      rw [metadata, hint] at column
      refine ⟨_, column.trans (epochSeconds_ceil ahead), Int.le_ceil _⟩
    · intro metadata missing
      rw [metadata, missing] at column
      have floor : now + 30 ≤
          now + max (backoffSeconds ((stateFor account rt).errorCount + 1) jitter)
            rateLimitedMinCooldownSeconds := by
        have least := le_max_right (backoffSeconds ((stateFor account rt).errorCount + 1) jitter)
          rateLimitedMinCooldownSeconds
        rw [rateLimitedMinCooldownSeconds] at least ⊢
        linarith
      have ahead := lt_of_lt_of_le (show 0 < now + 30 by linarith) floor
      exact ⟨_, column.trans (epochSeconds_ceil ahead), floor.trans (Int.le_ceil _)⟩
    · intro reset metadata
      rw [metadata] at column
      exact column.trans (if_neg (nonzero reset metadata))

/-- The row honours the hint of a rate limit exactly when it keeps its deadline. -/
theorem honors_hint_iff (backend : Backend) (jitter : ℚ) (error : RateLimitError)
    (account : Account) (rt : RuntimeState) (rows : Rows) (clock : 0 < now) :
    HonorsHint backend now jitter error account rt rows ↔
      RowKeepsDeadline backend now jitter error account rt rows := by
  have reads : HonorsHint backend now jitter error account rt rows ↔
      ∃ rows' row, markRateLimit backend now jitter error account rt rows = some rows' ∧
        rows' account.id = some row ∧ DueReset now error row.resetAt :=
    ⟨HonorsHint.stored, fun stored => ⟨delay_read, stored⟩⟩
  have due := @rateLimitState_due now jitter error account rt clock
  rw [reads, RowKeepsDeadline]
  simp only [markRateLimit, storeState, persistState]
  generalize stateColumns (rateLimitState now jitter error account rt) = written at due ⊢
  by_cases same : account.columns = written
  · simp [same]
  · cases fits : backend.fitsColumns written with
    | false => simp [same]
    | true =>
      simp only [same, if_false, or_true, if_true, Option.some.injEq, true_and, ← due]
      constructor
      · rintro ⟨rows', row, rfl, stored, owed⟩
        rw [updateStatus, if_pos rfl, Option.map_eq_some_iff] at stored
        obtain ⟨old, found, rfl⟩ := stored
        exact ⟨old, found, owed⟩
      · rintro ⟨old, found, owed⟩
        refine ⟨_, old.withColumns written, rfl, ?_, owed⟩
        rw [updateStatus, if_pos rfl, found]
        rfl

def hintedRow : Account :=
  { id := "a", planType := "plus", routingPolicy := "normal", refreshTokenEncrypted := "",
    status := .active, deactivationReason := none, resetAt := none, blockedAt := none }

def hintedError : RateLimitError :=
  ⟨some ⟨"Please try again in 1m 30.5s.".toList, ascii_of_all (by decide +kernel)⟩, none, none⟩

def hintedRows : Rows := fun id => if id = "a" then some hintedRow else none

theorem honors_hint_iff_hinted :
    HonorsHint .sqlite 1000 1 hintedError hintedRow {} hintedRows ∧
      ((markRateLimit .sqlite 1000 1 hintedError hintedRow {} hintedRows).bind fun rows =>
        (rows "a").bind Account.resetAt) = some 1091 := by
  refine ⟨(honors_hint_iff .sqlite 1 hintedError hintedRow {} hintedRows (by norm_num)).mpr
    ⟨hintedRow, rfl, ?_⟩, by decide +kernel⟩
  rw [if_neg (by decide +kernel)]
  refine ⟨by decide +kernel, ?_⟩
  intro reset metadata
  cases metadata

/-- An upstream reset time of zero is persisted as no reset at all. -/
theorem zero_reset_not_persisted :
    ¬ HonorsHint .sqlite 1000 1 ⟨none, some 0, none⟩ hintedRow {} hintedRows := by
  rintro ⟨_, rows, row, marked, found, due⟩
  have persisted := due.upstream 0 rfl
  have column : ((markRateLimit .sqlite 1000 1 ⟨none, some 0, none⟩ hintedRow {} hintedRows).bind
      fun rows => (rows "a").bind Account.resetAt) = none := by decide +kernel
  have there : rows "a" = some row := found
  rw [marked, Option.bind_some, there, Option.bind_some, persisted] at column
  cases column

end Balancer
