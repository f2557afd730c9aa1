import LivingBalancer.Lib.PyText
import LivingBalancer.Balancer.Runtime

/-!
# Persisting the outcome of one token refresh

`_persist_refreshed_tokens`, `_flag_persist_conflict_reauth` and
`_handle_permanent_refresh_failure` of `auth_manager.py` over the account row, as
one machine: each phase is the next database statement, with the reads that the
source makes between its attempts. Every write compares the stored ciphertext.
Passing the claim or caller deadline is a choice of the environment.

`Encryptor` collects decryption and the SHA-256 fingerprint of the decrypted
material. Columns that no comparison reads (identity, plan, workspace) are left
out, and so are the sticky and bridge rows a downgrade deletes.
-/

namespace TokenRefresh

open Balancer (AccountStatus)

variable {Cipher Token : Type}

/-- Decryption and fingerprints, of the ciphertext itself where it does not decrypt; digests do not
collide, and no such ciphertext reads as a token. -/
structure Encryptor (Cipher Token : Type) where
  decrypt : Cipher → Option Token
  fingerprint : Cipher → Text
  fingerprint_eq : ∀ c c' t, decrypt c = some t →
    (fingerprint c' = fingerprint c ↔ decrypt c' = some t)

structure Tokens (Cipher : Type) where
  access : Cipher
  refresh : Cipher
  id : Cipher
  lastRefresh : Int
  deriving DecidableEq

/-- The columns of `accounts` that the refresh path reads or writes. -/
structure StoredAccount (Cipher : Type) where
  tokens : Tokens Cipher
  status : AccountStatus
  deactivationReason : Option String
  resetAt : Option Int
  blockedAt : Option Int
  deriving DecidableEq

/-- The account row; `none` when it was deleted. -/
abbrev Row (Cipher : Type) := Option (StoredAccount Cipher)

section Statements

variable [DecidableEq Cipher]

/-- `rotate_tokens`, and whether the row matched. -/
def rotateTokens (row : Row Cipher) (new : Tokens Cipher) (expected : Cipher) :
    Row Cipher × Bool :=
  match row with
  | some a => if a.tokens.refresh = expected then (some { a with tokens := new }, true)
    else (row, false)
  | none => (none, false)

/-- `update_status_if_current` against a row read before. `blockedAt` is the value to write and
whether the column is compared; the source leaves both out by default. -/
def updateStatusIfCurrent (row : Row Cipher) (status : AccountStatus) (reason : Option String)
    (resetAt : Option Int) (blockedAt : Option (Option Int)) (expected : StoredAccount Cipher)
    (expectedRefresh : Cipher) : Row Cipher × Bool :=
  match row with
  | some a =>
    if a.status = expected.status ∧ a.deactivationReason = expected.deactivationReason ∧
        a.resetAt = expected.resetAt ∧ (blockedAt = none ∨ a.blockedAt = expected.blockedAt) ∧
        a.tokens.refresh = expectedRefresh then
      (some { a with
        status := status
        deactivationReason := reason
        resetAt := resetAt
        blockedAt := blockedAt.getD a.blockedAt }, true)
    else (row, false)
  | none => (none, false)

end Statements

/-- The call of `_perform_refresh`: the ciphertext it exchanged, the material a success
returned and the error of a permanent failure. -/
structure Attempt (Cipher : Type) where
  exchanged : Cipher
  rotated : Tokens Cipher
  code : String
  message : String

inductive Outcome (Cipher : Type) where
  | persisted
  | rowGone
  | adopted (row : StoredAccount Cipher)
  | flagged
  | persistConflict
  | failed
  | downgradeConflict

/-- The next statement of a call; `left` counts the attempts after this one. -/
inductive Phase (Cipher : Type) where
  | write (expected : Cipher) (left : Nat)
  | reread (left : Nat)
  | finalWrite (expected : Cipher) (left : Nat)
  | finalReread (left : Nat)
  | flagRead (left : Nat)
  | flagWrite (latest : StoredAccount Cipher) (left : Nat)
  | failRead
  | failWrite (latest : StoredAccount Cipher) (left : Nat)
  | failReread (left : Nat)
  | finished (outcome : Outcome Cipher)

def Phase.isFinished : Phase Cipher → Bool
  | .finished _ => true
  | _ => false

def tokenCasMaxAttempts : Nat := 5

def finalPersistMaxAttempts : Nat := 3

def persistConflictReason : String :=
  "Refresh token persistence conflict; stored token is stale - re-login required"

def Attempt.reason (k : Attempt Cipher) : String :=
  (Balancer.permanentFailureCodes.lookup k.code).getD k.message

def Attempt.failureStatus (k : Attempt Cipher) : AccountStatus :=
  Balancer.accountStatusForPermanentFailure k.code

/-- `_is_genuine_peer_rotation`. -/
def genuinePeerRotation [DecidableEq Token] (consumed latest : Option Token) : Bool :=
  consumed.isSome && latest.isSome && latest != consumed

section Machine

variable [DecidableEq Cipher] [DecidableEq Token]

/-- After a missed token write: adopt, give up, or go on with the ciphertext read. -/
def decideReread (e : Encryptor Cipher Token) (k : Attempt Cipher) (late : Bool) (left : Nat)
    (a : StoredAccount Cipher) : Phase Cipher :=
  let consumed := e.decrypt k.exchanged
  let latest := e.decrypt a.tokens.refresh
  if consumed = none ∨ latest = none then .finished .persistConflict
  else if latest ≠ consumed then .finished (.adopted a)
  else
    match late, left with
    | false, left + 1 => .write a.tokens.refresh left
    | _, _ => .finalWrite a.tokens.refresh (finalPersistMaxAttempts - 1)

/-- The same after a miss of the dedicated final writes. -/
def decideFinal (e : Encryptor Cipher Token) (k : Attempt Cipher) (left : Nat)
    (a : StoredAccount Cipher) : Phase Cipher :=
  let consumed := e.decrypt k.exchanged
  let latest := e.decrypt a.tokens.refresh
  if genuinePeerRotation consumed latest then .finished (.adopted a)
  else if consumed = none ∨ latest = none then .flagRead (finalPersistMaxAttempts - 1)
  else
    match left with
    | left + 1 => .finalWrite a.tokens.refresh left
    | 0 => .flagRead (finalPersistMaxAttempts - 1)

/-- One statement of the call. -/
def advance (e : Encryptor Cipher Token) (k : Attempt Cipher) (late : Bool)
    (phase : Phase Cipher) (row : Row Cipher) : Phase Cipher × Row Cipher :=
  match phase with
  | .write expected left =>
    let (row', landed) := rotateTokens row k.rotated expected
    (if landed then .finished .persisted else .reread left, row')
  | .reread left =>
    match row with
    | none => (.finished .rowGone, row)
    | some a => (decideReread e k late left a, row)
  | .finalWrite expected left =>
    let (row', landed) := rotateTokens row k.rotated expected
    (if landed then .finished .persisted else .finalReread left, row')
  | .finalReread left =>
    match row with
    | none => (.finished .rowGone, row)
    | some a => (decideFinal e k left a, row)
  | .flagRead left =>
    match row with
    | none => (.finished .rowGone, row)
    | some a =>
      if genuinePeerRotation (e.decrypt k.exchanged) (e.decrypt a.tokens.refresh) then
        (.finished (.adopted a), row)
      else (.flagWrite a left, row)
  | .flagWrite latest left =>
    let (row', landed) := updateStatusIfCurrent row .reauthRequired (some persistConflictReason)
      none none latest latest.tokens.refresh
    (if landed then .finished .flagged
      else match left with
        | left + 1 => .flagRead left
        | 0 => .finished .persistConflict, row')
  | .failRead =>
    match row with
    | none => (.finished .failed, row)
    | some a =>
      if e.fingerprint a.tokens.refresh ≠ e.fingerprint k.exchanged then
        (.finished (.adopted a), row)
      else (.failWrite a (tokenCasMaxAttempts - 1), row)
  | .failWrite latest left =>
    let (row', landed) := updateStatusIfCurrent row k.failureStatus (some k.reason)
      none none latest latest.tokens.refresh
    (if landed then .finished .failed else .failReread left, row')
  | .failReread left =>
    match row with
    | none => (.finished .failed, row)
    | some a =>
      if e.fingerprint a.tokens.refresh ≠ e.fingerprint k.exchanged then
        (.finished (.adopted a), row)
      else
        (match late, left with
          | false, left + 1 => .failWrite a left
          | _, _ => .finished .downgradeConflict, row)
  | .finished outcome => (.finished outcome, row)

/-- Where `_persist_refreshed_tokens` starts; a permanent failure starts at `failRead`. -/
def persistStart (k : Attempt Cipher) : Phase Cipher := .write k.exchanged (tokenCasMaxAttempts - 1)

end Machine

/-- `mark_permanent_failure` of a caller that saw the failure, on the account object it holds:
no statement when the object has these values already. `reset` is the reset time its runtime
entry keeps. The flag says that a statement was made and the row matched. -/
def markPermanentFailure [DecidableEq Cipher] (row : Row Cipher) (held : StoredAccount Cipher)
    (code : String) (reset : Option Int) : Row Cipher × Bool :=
  let status := Balancer.accountStatusForPermanentFailure code
  let reason :=
    some ((Balancer.permanentFailureCodes.lookup code).getD ("Authentication failed: " ++ code))
  if held.status = status ∧ held.deactivationReason = reason ∧ held.resetAt = reset ∧
      held.blockedAt = none then (row, false)
  else updateStatusIfCurrent row status reason reset (some none) held held.tokens.refresh

end TokenRefresh
