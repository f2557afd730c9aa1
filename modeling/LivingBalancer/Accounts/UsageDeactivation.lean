import Mathlib.Tactic.FinCases
import LivingBalancer.Accounts.UsageRecovery

/-!
# Deactivations by a usage refresh

`_deactivate_for_client_error` writes by the id of the account alone, so the failure of an
old token disables an account that has been repaired since. The write meets the token that
failed as long as nobody stores another access token while a fetch that is going to fail
this way is in flight.
-/

namespace UsageRefresh

open Runs
open TokenRefresh (StoredAccount Row)

variable {Cipher Token : Type} {decrypt : Cipher → Option Token} {w w' : World Cipher Token}

/-- The answer deactivates the account. -/
def Answer.dooms : Answer → Bool
  | .error exc => shouldDeactivateForUsageError exc
  | _ => false

/-- The access token of a call whose fetch is going to deactivate the account, from the read
of the row to the write. -/
def doomedToken (decrypt : Cipher → Option Token) (call : Call Token) :
    Phase Cipher Token → Option Token
  | .loaded account retry =>
    if (call.answerTo retry).dooms then call.accessToken decrypt account retry else none
  | .fetching _ token retry => if (call.answerTo retry).dooms then some token else none
  | .deactivating _ token => some token
  | _ => none

def HoldsToken (decrypt : Cipher → Option Token) (row : Row Cipher) (token : Token) : Prop :=
  ∀ account ∈ row, decrypt account.tokens.access = some token

/-- Nobody stores another access token while a doomed fetch is in flight, and a fetch with a
token of its own is doomed only if the row holds that token. -/
def KeepsDoomedToken (decrypt : Cipher → Option Token) (w : World Cipher Token) :
    Act Cipher Token → Prop
  | .write row => ∀ i call phase token, w.calls i = some (call, phase) →
      doomedToken decrypt call phase = some token → HoldsToken decrypt row token
  | .load _ call => ∀ token, call.override = some token → call.answer.dooms = true →
      HoldsToken decrypt w.row token
  | _ => True

/-- The row holds the token of every doomed fetch. -/
def Doomed (decrypt : Cipher → Option Token) (w : World Cipher Token) : Prop :=
  ∀ i call phase token, w.calls i = some (call, phase) →
    doomedToken decrypt call phase = some token → HoldsToken decrypt w.row token

/-! ## Steps -/

theorem HoldsToken.of_tokens {row row' : Row Cipher} {token : Token}
    (same : ∀ account' ∈ row', ∃ account ∈ row, account'.tokens = account.tokens)
    (h : HoldsToken decrypt row token) : HoldsToken decrypt row' token := by
  intro account' stored
  obtain ⟨account, before, tokens⟩ := same account' stored
  rw [tokens]
  exact h account before

theorem Lands.tokens {row' : Row Cipher} (h : Lands w row') :
    ∀ account' ∈ row', ∃ account ∈ w.row, account'.tokens = account.tokens := by
  intro account' stored
  cases h with
  | @recovery i call d pending =>
    obtain ⟨account, before, rfl⟩ := Option.map_eq_some_iff.mp stored
    refine ⟨account, before, ?_⟩
    split <;> rfl
  | @deactivation i call exc token pending =>
    obtain ⟨account, before, rfl⟩ := Option.map_eq_some_iff.mp stored
    exact ⟨account, before, rfl⟩

/-- Decryption is what a call without a token of its own fetches with. -/
theorem accessToken_loaded {call : Call Token} {account : StoredAccount Cipher} {token : Token}
    (h : call.accessToken decrypt account false = some token) :
    call.override = some token ∨ decrypt account.tokens.access = some token := by
  simp only [Call.accessToken, Bool.false_eq_true, if_false] at h
  cases own : call.override with
  | none =>
    rw [own] at h
    exact .inr h
  | some token' =>
    rw [own] at h
    exact .inl h

theorem doomed_loaded {call : Call Token} {account : StoredAccount Cipher} {retry : Bool}
    {token : Token} (h : doomedToken decrypt call (.loaded account retry) = some token) :
    (call.answerTo retry).dooms = true ∧ call.accessToken decrypt account retry = some token := by
  simp only [doomedToken] at h
  split at h
  · rename_i doomed
    exact ⟨doomed, h⟩
  · cases h

/-- Only an answer that deactivates leads to a phase that is still doomed. -/
theorem answered_doomed {call : Call Token} {account : StoredAccount Cipher} {token token' : Token}
    {retry : Bool} {phase : Phase Cipher Token}
    (h : call.answered account token retry = some phase)
    (doomed : doomedToken decrypt call phase = some token') :
    doomedToken decrypt call (.fetching account token retry) = some token' := by
  simp only [Call.answered] at h
  split at h
  · cases h
    cases doomed
  · cases h
  · rename_i exc answer
    split_ifs at h with deactivates
    · cases h
      simp only [doomedToken, answer, Answer.dooms, deactivates, if_true]
      exact doomed
    · cases h
      cases doomed

section Runs

variable [DecidableEq Cipher]

omit [DecidableEq Cipher] in
/-- The row after a permitted step holds the token of every fetch that was doomed before. -/
theorem holds_after {act : Act Cipher Token} (h : Doomed decrypt w)
    (kept : KeepsDoomedToken decrypt w act) (stepped : Stepped decrypt w act w') {i : ℕ}
    {call : Call Token} {phase : Phase Cipher Token} {token : Token}
    (hc : w.calls i = some (call, phase))
    (doomed : doomedToken decrypt call phase = some token) : HoldsToken decrypt w'.row token := by
  rcases stepped.row with same | write | lands
  · rw [same]
    exact h i call phase token hc doomed
  · rw [write] at kept
    exact kept i call phase token hc doomed
  · exact (h i call phase token hc doomed).of_tokens lands.tokens

omit [DecidableEq Cipher] in
/-- A call that reads the row, at its start or after a token refresh, holds the row's token. -/
theorem holds_loaded {act : Act Cipher Token} (kept : KeepsDoomedToken decrypt w act) {i : ℕ}
    {call : Call Token} {account : StoredAccount Cipher} {token : Token}
    (starts : act = .load i call) (row : w.row = some account)
    (doomed : doomedToken decrypt call (.loaded account false) = some token) :
    HoldsToken decrypt w.row token := by
  obtain ⟨dooms, access⟩ := doomed_loaded doomed
  rcases accessToken_loaded access with own | decrypted
  · rw [starts] at kept
    exact kept token own dooms
  · intro stored hstored
    rw [row] at hstored
    cases hstored
    exact decrypted

theorem Doomed.step {act : Act Cipher Token} (h : Doomed decrypt w)
    (kept : KeepsDoomedToken decrypt w act) (hstep : step decrypt w act = some w') :
    Doomed decrypt w' := by
  have stepped := step_stepped hstep
  intro i call phase token hc doomed
  rcases stepped.calls i call phase hc with old | advance
  · exact holds_after h kept stepped old doomed
  · cases advance with
    | loaded starts row =>
      have same : w'.row = w.row := load_row (starts ▸ hstep)
      rw [same]
      exact holds_loaded kept starts row doomed
    | @sent account token' retry old decrypted =>
      refine holds_after h kept stepped old ?_
      simp only [doomedToken] at doomed ⊢
      split at doomed
      · rename_i dooms
        rw [if_pos dooms, decrypted]
        exact doomed
      · cases doomed
    | answered old next => exact holds_after h kept stepped old (answered_doomed next doomed)
    | @refreshed account acts stored =>
      have same : w'.row = w.row := refreshed_row (acts ▸ hstep)
      rw [same]
      intro row hrow
      rw [stored row hrow]
      exact (doomed_loaded doomed).2
    | shared old => cases doomed
    | decided old decided => cases doomed

theorem reachable_doomed
    (reach : Reachable (UsageRefresh.step decrypt) (KeepsDoomedToken decrypt) World.Initial w) :
    Doomed decrypt w := by
  refine reach.invariant ?_ fun s act t h kept hstep => h.step kept hstep
  intro s start i call phase token hc
  rw [start i] at hc
  cases hc

/-- In such a run a deactivation meets the token that failed, on every row it lands on. -/
theorem deactivation_meets_failed_token
    (reach : Reachable (UsageRefresh.step decrypt) (KeepsDoomedToken decrypt) World.Initial w)
    {i : ℕ} {call : Call Token} {exc : UsageFetchError} {token : Token}
    (pending : w.calls i = some (call, .deactivating exc token))
    (hstep : UsageRefresh.step decrypt w (.land i) = some w') :
    w'.row = deactivate exc w.row ∧
      ∀ account, w.row = some account → decrypt account.tokens.access = some token := by
  refine ⟨?_, ?_⟩
  · simp only [UsageRefresh.step, pending, Option.some.injEq] at hstep
    rw [← hstep]
    rfl
  · exact fun account row => reachable_doomed reach i call _ token pending rfl account row

end Runs

section Examples

def paymentRequired : UsageFetchError := ⟨402, none, "Payment required"⟩

def failingCall : Call ℕ where
  managed := true
  override := none
  answer := .error paymentRequired
  retryAnswer := .routeError

def storedRow (access : ℕ) : StoredAccount ℕ where
  tokens := ⟨access, 0, 0, 0⟩
  status := .active
  deactivationReason := none
  resetAt := none
  blockedAt := none

def failedFetch : World ℕ ℕ :=
  after (startWith 0 (storedRow 7)) [.load 0 failingCall, .send 0, .answer 0]

theorem deactivation_meets_failed_token_stored : ∃ w',
    UsageRefresh.step some failedFetch (.land 0) = some w' ∧
      w'.row = deactivate paymentRequired failedFetch.row ∧
      ∀ account, failedFetch.row = some account → account.tokens.access = 7 := by
  have reach : Reachable (UsageRefresh.step some) (KeepsDoomedToken some) World.Initial
      failedFetch := by
    refine reachable_of_replay [.load 0 failingCall, .send 0, .answer 0]
      (s := startWith 0 (storedRow 7)) (fun _ => rfl) ?_
      (replay_eq_getD (by decide +kernel) (startWith 0 (storedRow 7)))
    intro s act mem
    fin_cases mem
    · intro token own
      cases own
    · trivial
    · trivial
  obtain ⟨w', landed⟩ : ∃ w', UsageRefresh.step some failedFetch (.land 0) = some w' :=
    Option.isSome_iff_exists.mp (by decide +kernel)
  have pending : failedFetch.calls 0 = some (failingCall, .deactivating paymentRequired 7) := by
    decide +kernel
  obtain ⟨row, held⟩ := deactivation_meets_failed_token reach pending landed
  exact ⟨w', landed, row, fun account stored => Option.some.inj (held account stored)⟩

/-- A new login is stored while the fetch with the old token fails. -/
def repairedAccount : World ℕ ℕ :=
  after (startWith 0 (storedRow 7))
    [.load 0 failingCall, .send 0, .write (some (storedRow 8)), .answer 0]

theorem deactivation_disables_repaired :
    ¬ ∀ (w w' : World ℕ ℕ) i call exc token account,
      Reachable (UsageRefresh.step some) Any World.Initial w →
      w.calls i = some (call, .deactivating exc token) →
      UsageRefresh.step some w (.land i) = some w' → w.row = some account →
      account.tokens.access = token := by
  intro claim
  have reach : Reachable (UsageRefresh.step some) Any World.Initial repairedAccount :=
    after_reachable (fun _ => rfl) (by decide +kernel)
  obtain ⟨w', landed⟩ : ∃ w', UsageRefresh.step some repairedAccount (.land 0) = some w' :=
    Option.isSome_iff_exists.mp (by decide +kernel)
  have stale := claim repairedAccount w' 0 failingCall paymentRequired 7 (storedRow 8) reach
    (by decide +kernel) landed (by decide +kernel)
  exact absurd stale (by decide)

end Examples

end UsageRefresh
