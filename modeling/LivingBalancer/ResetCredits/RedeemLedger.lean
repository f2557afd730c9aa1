import Mathlib.Data.Int.Order.Basic
import Mathlib.Data.List.MinMax
import Mathlib.Logic.Function.Basic
import LivingBalancer.Lib.Runs

/-!
# The ledger of reset-credit redemptions

`rate_limit_reset_credits`: the attempts of `_redeem_soonest_reset_credit_locked` on any
number of replicas, cut at their awaits, over the shared table of pins and a credit
snapshot for each replica. What upstream lists, when snapshots are refreshed and where an
attempt fails is up to the environment. The per-account redeem claim is left out: its lease
may run out under a live holder, and without it every run with it is still a run. Replicas
read one clock, in microseconds.
-/

namespace ResetCredits

open Runs

/-! ## Credits -/

structure ResetCreditItem where
  id : String
  status : Option String
  expiresAt : Option ℤ
  deriving DecidableEq

structure ResetCreditsResponse where
  credits : List ResetCreditItem
  availableCount : ℤ

/-- `RateLimitResetCreditsSnapshot`. -/
structure Snapshot where
  availableCount : ℤ
  credits : List ResetCreditItem

def buildSnapshot (response : ResetCreditsResponse) : Snapshot where
  availableCount := response.availableCount
  credits := response.credits

/-- `datetime.max`. -/
def farFuture : ℤ := 253402300799999999

/-- `_select_soonest_available_credit_from_items`. -/
def selectSoonestAvailableCreditFromItems (credits : List ResetCreditItem) (availableCount : ℤ) :
    Option ResetCreditItem :=
  if availableCount ≤ 0 then none
  else (credits.filter fun credit => decide (credit.status = some "available")).minOn?
    fun credit => credit.expiresAt.getD farFuture

/-- `_select_soonest_available_credit`. -/
def selectSoonestAvailableCredit (snapshot : Option Snapshot) : Option ResetCreditItem :=
  snapshot.bind fun snapshot =>
    selectSoonestAvailableCreditFromItems snapshot.credits snapshot.availableCount

/-- `_select_soonest_available_credit_from_response`. -/
def selectSoonestAvailableCreditFromResponse (response : ResetCreditsResponse) :
    Option ResetCreditItem :=
  selectSoonestAvailableCreditFromItems response.credits response.availableCount

/-! ## Attempts -/

/-- The primary key of `reset_credit_redeem_requests`. -/
structure RedeemKey where
  accountId : String
  redeemRequestId : String
  deriving DecidableEq

structure Pin where
  creditId : String
  createdAt : ℤ
  deriving DecidableEq

/-- `REDEEM_REQUEST_TTL`. -/
def redeemRequestTtl : ℤ := 24 * 3600 * 1000000

/-- Where an attempt is. The instants are those its ledger calls read when they began. -/
inductive Phase where
  | entered
  | lookingUp (now : ℤ) (cached : Bool)
  | fetching (pendingCreditId : Option String)
  | purging (now : ℤ) (creditId : String)
  | inserting (now : ℤ) (creditId : String)
  | selecting (creditId : String)
  | consuming (creditId : String)
  | answering
  | ended
  deriving DecidableEq

structure Attempt where
  replica : ℕ
  key : RedeemKey
  clientSuppliedId : Bool
  phase : Phase

structure Redeem where
  clock : ℤ
  pins : RedeemKey → Option Pin
  attempts : ℕ → Option Attempt
  snapshots : ℕ → String → Option Snapshot

namespace Redeem

def setAttempt (s : Redeem) (i : ℕ) (a : Attempt) : Redeem :=
  { s with attempts := Function.update s.attempts i (some a) }

theorem setAttempt_self (s : Redeem) (i : ℕ) (a : Attempt) :
    (s.setAttempt i a).attempts i = some a :=
  Function.update_self ..

theorem setAttempt_ne (s : Redeem) {i j : ℕ} (other : j ≠ i) (a : Attempt) :
    (s.setAttempt i a).attempts j = s.attempts j :=
  Function.update_of_ne other ..

/-- `store.set` on one replica; `none` is `store.invalidate`. -/
def setSnapshot (s : Redeem) (replica : ℕ) (accountId : String) (snapshot : Option Snapshot) :
    Redeem :=
  let store := Function.update (s.snapshots replica) accountId snapshot
  { s with snapshots := Function.update s.snapshots replica store }

/-- The select of `get_pinned_redeem_credit_id`. -/
def getPinnedRedeemCreditId (s : Redeem) (key : RedeemKey) (now : ℤ) : Option String :=
  ((s.pins key).filter fun pin => decide (now - redeemRequestTtl ≤ pin.createdAt)).map (·.creditId)

/-- The delete of `pin_redeem_request`. -/
def purgePins (s : Redeem) (accountId : String) (now : ℤ) : Redeem :=
  { s with pins := fun key => (s.pins key).filter fun pin =>
      !(decide (key.accountId = accountId) && decide (pin.createdAt < now - redeemRequestTtl)) }

/-- The insert of `pin_redeem_request`, which does nothing on a conflict of keys. -/
def insertPin (s : Redeem) (key : RedeemKey) (pin : Pin) : Redeem :=
  match s.pins key with
  | some _ => s
  | none => { s with pins := Function.update s.pins key (some pin) }

/-- The last select of `pin_redeem_request`. -/
def storedCreditId (s : Redeem) (key : RedeemKey) (creditId : String) : String :=
  ((s.pins key).map (·.creditId)).getD creditId

end Redeem

/-- What an attempt does next. `abandon` stands for any exception, cancellation or crash. -/
inductive Move where
  | look
  | find
  | fetched (response : ResetCreditsResponse)
  | purge
  | insert
  | select
  | consume
  | succeed
  | abandon

/-- `_redeem_soonest_reset_credit_locked` from one await to the next. -/
def Attempt.move (a : Attempt) (s : Redeem) : Move → Phase → Option (Redeem × Phase)
  | .look, .entered =>
    let cached := (selectSoonestAvailableCredit (s.snapshots a.replica a.key.accountId)).isSome
    if a.clientSuppliedId then some (s, .lookingUp s.clock cached)
    -- A synthesized id has no pin to look for.
    else some (s, if cached then .fetching none else .ended)
  | .find, .lookingUp now cached =>
    let pending := s.getPinnedRedeemCreditId a.key now
    some (s, if cached || pending.isSome then .fetching pending else .ended)
  | .fetched _, .fetching (some creditId) => some (s, .consuming creditId)
  | .fetched response, .fetching none =>
    match selectSoonestAvailableCreditFromResponse response with
    | some credit => some (s, .purging s.clock credit.id)
    | none =>
      some (s.setSnapshot a.replica a.key.accountId (some (buildSnapshot response)), .ended)
  | .purge, .purging now creditId =>
    some (s.purgePins a.key.accountId now, .inserting now creditId)
  | .insert, .inserting now creditId => some (s.insertPin a.key ⟨creditId, now⟩, .selecting creditId)
  | .select, .selecting creditId => some (s, .consuming (s.storedCreditId a.key creditId))
  | .consume, .consuming _ => some (s, .answering)
  | .succeed, .answering => some (s.setSnapshot a.replica a.key.accountId none, .ended)
  | .abandon, _ => some (s, .ended)
  | _, _ => none

inductive Action where
  | tick (elapsed : ℕ)
  | refresh (replica : ℕ) (accountId : String) (snapshot : Option Snapshot)
  | receive (i replica : ℕ) (accountId : String) (redeemRequestId : Option String) (uuid : String)
  | attempt (i : ℕ) (move : Move)

/-- A request at the consume endpoint; without an id it gets a fresh one. -/
def enter (replica : ℕ) (accountId : String) (redeemRequestId : Option String) (uuid : String) :
    Attempt where
  replica := replica
  key := ⟨accountId, redeemRequestId.getD uuid⟩
  clientSuppliedId := redeemRequestId.isSome
  phase := .entered

def step (s : Redeem) : Action → Option Redeem
  | .tick elapsed => some { s with clock := s.clock + elapsed }
  | .refresh replica accountId snapshot => some (s.setSnapshot replica accountId snapshot)
  | .receive i replica accountId redeemRequestId uuid =>
    if (s.attempts i).isNone then
      some (s.setAttempt i (enter replica accountId redeemRequestId uuid))
    else none
  | .attempt i m => do
    let a ← s.attempts i
    let (t, phase) ← a.move s m a.phase
    return t.setAttempt i { a with phase := phase }

/-! ## What was sent and pinned -/

/-- A consume call upstream. -/
structure Sent where
  key : RedeemKey
  creditId : String
  sentAt : ℤ
  deriving DecidableEq

/-- The consume calls and the pins made so far, oldest first. -/
structure History where
  sent : List Sent
  pinned : List (RedeemKey × Pin)

def History.start : History := ⟨[], []⟩

def note (s : Redeem) (action : Action) (_ : Redeem) (h : History) : History :=
  match action with
  | .attempt i .consume =>
    match s.attempts i with
    | some ⟨_, key, _, .consuming creditId⟩ =>
      { h with sent := h.sent ++ [⟨key, creditId, s.clock⟩] }
    | _ => h
  | .attempt i .insert =>
    match s.attempts i with
    | some ⟨_, key, _, .inserting now creditId⟩ =>
      if (s.pins key).isNone then { h with pinned := h.pinned ++ [(key, ⟨creditId, now⟩)] } else h
    | _ => h
  | _ => h

/-- A process start: a table of pins from before, and nobody at work. -/
def Initial (s : Redeem) : Prop := ∀ i, s.attempts i = none

/-! ## What a step does -/

variable {s t : Redeem} {a : Attempt}

/-- A phase that holds neither an instant nor a credit. -/
inductive Phase.Idle : Phase → Prop where
  | fetching : Phase.Idle (.fetching none)
  | ended : Phase.Idle .ended

/-- The effect of one move on the ledger and on what the attempt holds. -/
inductive Moved (s : Redeem) (a : Attempt) : Move → (RedeemKey → Option Pin) → Phase → Prop where
  | idle {m : Move} {phase : Phase} (unnoted : m ≠ .insert ∧ m ≠ .consume) (idle : phase.Idle) :
      Moved s a m s.pins phase
  | looked (cached : Bool) : Moved s a .look s.pins (.lookingUp s.clock cached)
  | found {now : ℤ} {cached : Bool} {pin : Pin} (before : a.phase = .lookingUp now cached)
      (stored : s.pins a.key = some pin) (live : now - redeemRequestTtl ≤ pin.createdAt) :
      Moved s a .find s.pins (.fetching (some pin.creditId))
  | retargeted {response : ResetCreditsResponse} {creditId : String}
      (before : a.phase = .fetching (some creditId)) :
      Moved s a (.fetched response) s.pins (.consuming creditId)
  | picked (response : ResetCreditsResponse) (creditId : String) :
      Moved s a (.fetched response) s.pins (.purging s.clock creditId)
  | purged {now : ℤ} {creditId : String} (before : a.phase = .purging now creditId) :
      Moved s a .purge (s.purgePins a.key.accountId now).pins (.inserting now creditId)
  | inserted {now : ℤ} {creditId : String} (before : a.phase = .inserting now creditId) :
      Moved s a .insert (s.insertPin a.key ⟨creditId, now⟩).pins (.selecting creditId)
  | selected {creditId : String} (before : a.phase = .selecting creditId) :
      Moved s a .select s.pins (.consuming (s.storedCreditId a.key creditId))
  | sent {creditId : String} (before : a.phase = .consuming creditId) :
      Moved s a .consume s.pins .answering

theorem getPinnedRedeemCreditId_cases (s : Redeem) (key : RedeemKey) (now : ℤ) :
    s.getPinnedRedeemCreditId key now = none ∨
      ∃ pin, s.pins key = some pin ∧ now - redeemRequestTtl ≤ pin.createdAt ∧
        s.getPinnedRedeemCreditId key now = some pin.creditId := by
  rw [Redeem.getPinnedRedeemCreditId]
  cases row : s.pins key with
  | none => exact .inl rfl
  | some pin =>
    by_cases live : now - redeemRequestTtl ≤ pin.createdAt
    · refine .inr ⟨pin, rfl, live, ?_⟩
      simp only [Option.filter_some, decide_eq_true_eq, if_pos live]
      rfl
    · refine .inl ?_
      simp only [Option.filter_some, decide_eq_true_eq, if_neg live]
      rfl

/-- One move, with its effect. The clock and the attempts stand still meanwhile. -/
theorem move_cases {m : Move} {phase : Phase} (h : a.move s m a.phase = some (t, phase)) :
    t.clock = s.clock ∧ t.attempts = s.attempts ∧ Moved s a m t.pins phase := by
  rw [Attempt.move.eq_def] at h
  split at h
  case h_1 =>
    dsimp only at h
    split_ifs at h
    · cases h
      exact ⟨rfl, rfl, .looked _⟩
    · cases h
      exact ⟨rfl, rfl, .idle (by simp) .fetching⟩
    · cases h
      exact ⟨rfl, rfl, .idle (by simp) .ended⟩
  case h_2 now cached before =>
    cases h
    refine ⟨rfl, rfl, ?_⟩
    rcases getPinnedRedeemCreditId_cases s a.key now with missing | ⟨pin, row, live, found⟩
    · rw [missing]
      split_ifs
      · exact .idle (by simp) .fetching
      · exact .idle (by simp) .ended
    · rw [found, if_pos (by simp)]
      exact .found before row live
  case h_3 before =>
    cases h
    exact ⟨rfl, rfl, .retargeted before⟩
  case h_4 =>
    split at h
    · cases h
      exact ⟨rfl, rfl, .picked _ _⟩
    · cases h
      exact ⟨rfl, rfl, .idle (by simp) .ended⟩
  case h_5 before =>
    cases h
    exact ⟨rfl, rfl, .purged before⟩
  case h_6 before =>
    cases h
    refine ⟨?_, ?_, .inserted before⟩
    all_goals
      rw [Redeem.insertPin]
      split <;> rfl
  case h_7 before =>
    cases h
    exact ⟨rfl, rfl, .selected before⟩
  case h_8 before =>
    cases h
    exact ⟨rfl, rfl, .sent before⟩
  case h_9 =>
    cases h
    exact ⟨rfl, rfl, .idle (by simp) .ended⟩
  case h_10 =>
    cases h
    exact ⟨rfl, rfl, .idle (by simp) .ended⟩
  case h_11 => cases h

/-- One step: the environment, a new attempt, or a move of an attempt. -/
inductive Stepped (s : Redeem) : Action → Redeem → Prop where
  | outside {action : Action} {t : Redeem} (quiet : ∀ i m, action ≠ .attempt i m)
      (pins : t.pins = s.pins) (attempts : t.attempts = s.attempts) (clock : s.clock ≤ t.clock) :
      Stepped s action t
  | received {i replica : ℕ} {accountId : String} {redeemRequestId : Option String} {uuid : String}
      (unused : s.attempts i = none) :
      Stepped s (.receive i replica accountId redeemRequestId uuid)
        (s.setAttempt i (enter replica accountId redeemRequestId uuid))
  | moved {i : ℕ} {m : Move} {a : Attempt} {t : Redeem} {phase : Phase}
      (at_ : s.attempts i = some a) (pins : Moved s a m t.pins phase) (attempts : t.attempts = s.attempts)
      (clock : t.clock = s.clock) :
      Stepped s (.attempt i m) (t.setAttempt i { a with phase := phase })

theorem step_cases {action : Action} (h : step s action = some t) : Stepped s action t := by
  cases action with
  | tick elapsed =>
    cases h
    refine .outside (fun _ _ same => by cases same) rfl rfl ?_
    exact Int.le_add_of_nonneg_right (Int.natCast_nonneg elapsed)
  | refresh replica accountId snapshot =>
    cases h
    exact .outside (fun _ _ same => by cases same) rfl rfl (Int.le_refl _)
  | receive i replica accountId redeemRequestId uuid =>
    simp only [step] at h
    split_ifs at h with unused
    cases h
    exact .received (Option.isNone_iff_eq_none.mp unused)
  | attempt i m =>
    simp only [step, Option.bind_eq_bind, Option.bind_eq_some_iff, Option.pure_def,
      Option.some.injEq] at h
    obtain ⟨a, found, ⟨u, phase⟩, moves, rfl⟩ := h
    obtain ⟨clock, attempts, pins⟩ := move_cases moves
    exact .moved found pins attempts clock

end ResetCredits
