import LivingBalancer.Lib.Runs
import LivingBalancer.Lib.TimedLease
import LivingBalancer.Accounts.RefreshTask

/-!
# Refreshes of one account under the claim row

`_refresh_account_with_claim` of any number of processes, with the claim statements
of `refresh_claims.py`. A process runs at most one task for each requested
fingerprint (the singleflight), so tasks are indexed by the pair. The system also
lets the account be re-authenticated and its status be changed at any time. The
row is not deleted and its stored token is not re-encrypted or restored, and a task
does not die between a successful exchange and the write of its result.

`used` and `seen` are records for the statements: the tokens that were exchanged,
and the fingerprints of the tokens the account has had.
-/

namespace TokenRefresh

open Balancer (AccountStatus)
open TimedLease

variable {Proc Cipher Token : Type}

local instance textLawful : LawfulBEq Text := inferInstance

/-! ## Owners of claims -/

def claimedByColumnLen : Nat := 128

def claimOwnerTokenLen : Nat := 16

/-- `_compose_claimed_by`. -/
def composeClaimedBy (claimantId owner : Text) : Text :=
  let suffix := '#' :: owner.take claimOwnerTokenLen
  claimantId.take (claimedByColumnLen - suffix.length) ++ suffix

/-- `default_refresh_claimant_id`. -/
def defaultRefreshClaimantId (instanceId processSuffix : Text) : Text :=
  let suffix := ':' :: processSuffix
  instanceId.take (claimedByColumnLen - (claimOwnerTokenLen + 1) - suffix.length) ++ suffix

/-- What the processes bring: instance ids may coincide, process suffixes do not. A suffix is
a pid, a dash and eight hex digits; a fingerprint is a hex digest. -/
structure Deployment (Proc Cipher Token : Type) extends Encryptor Cipher Token where
  instanceId : Proc → Text
  processSuffix : Proc → Text
  suffix_inj : ∀ p q, processSuffix p = processSuffix q → p = q
  suffix_plain : ∀ p, ':' ∉ processSuffix p
  suffix_short : ∀ p, (processSuffix p).length ≤ 40
  fingerprint_long : ∀ c, claimOwnerTokenLen ≤ (fingerprint c).length

def Deployment.claimedBy (d : Deployment Proc Cipher Token) (p : Proc) (owner : Text) : Text :=
  composeClaimedBy (defaultRefreshClaimantId (d.instanceId p) (d.processSuffix p)) owner

/-! ## Tasks -/

/-- `expiry` is what the task's claim statement stored. -/
inductive ClaimTask (Cipher : Type) where
  | waiting
  | polling
  | rereading (expiry : Int)
  | exchanging (expiry : Int) (c : Cipher)
  | persisting (expiry : Int) (k : Attempt Cipher) (phase : Phase Cipher)
  | failing (expiry : Int) (k : Attempt Cipher) (phase : Phase Cipher)
  | releasing

/-- The expiry of a task that may still exchange or write. -/
def ClaimTask.critical : ClaimTask Cipher → Option Int
  | .rereading expiry | .exchanging expiry _ | .persisting expiry _ _ | .failing expiry _ _ =>
    some expiry
  | .waiting | .polling | .releasing => none

structure ClaimState (Proc Cipher Token : Type) where
  row : StoredAccount Cipher
  claim : Option (Lease Text Int)
  clock : Int
  tasks : Proc → Text → Option (ClaimTask Cipher)
  seen : List Text
  used : List Token

inductive ClaimAct (Proc Cipher : Type) where
  | start (p : Proc) (f : Text)
  | acquire (p : Proc) (f : Text) (now : Int) (ttl : Nat)
  | poll (p : Proc) (f : Text)
  | reread (p : Proc) (f : Text) (outOfBudget : Bool)
  | succeed (p : Proc) (f : Text) (k : Attempt Cipher)
  | reject (p : Proc) (f : Text) (k : Attempt Cipher)
  | transient (p : Proc) (f : Text)
  | persist (p : Proc) (f : Text) (late : Bool)
  | release (p : Proc) (f : Text)
  | drop (p : Proc) (f : Text)
  | store (row : StoredAccount Cipher)
  | tick (now : Int)

/-- `_TERMINAL_REFRESH_STATUSES`. -/
def terminalRefreshStatus : AccountStatus → Bool
  | .reauthRequired | .deactivated => true
  | _ => false

section System

variable [DecidableEq Proc] [DecidableEq Cipher] [DecidableEq Token]

def ClaimState.setTask (s : ClaimState Proc Cipher Token) (p : Proc) (f : Text)
    (task : Option (ClaimTask Cipher)) : ClaimState Proc Cipher Token :=
  { s with tasks := fun q g => if q = p ∧ g = f then task else s.tasks q g }

/-- Upstream issues tokens that were not issued before; their digests differ in the part the
claim keeps. -/
def Fresh (d : Deployment Proc Cipher Token) (seen : List Text) (c : Cipher) : Prop :=
  (d.decrypt c).isSome ∧
    ∀ f ∈ seen, f.take claimOwnerTokenLen ≠ (d.fingerprint c).take claimOwnerTokenLen

instance (d : Deployment Proc Cipher Token) (seen : List Text) (c : Cipher) :
    Decidable (Fresh d seen c) :=
  inferInstanceAs (Decidable (_ ∧ _))

/-- The task after the re-read under the claim. -/
def afterReread (d : Deployment Proc Cipher Token) (row : StoredAccount Cipher) (f : Text)
    (expiry : Int) (outOfBudget : Bool) : ClaimTask Cipher :=
  if d.fingerprint row.tokens.refresh ≠ f then .releasing
  else if terminalRefreshStatus row.status || outOfBudget then .releasing
  else .exchanging expiry row.tokens.refresh

def claimStep (d : Deployment Proc Cipher Token) (s : ClaimState Proc Cipher Token) :
    ClaimAct Proc Cipher → Option (ClaimState Proc Cipher Token)
  | .start p f =>
    if f ∈ s.seen ∧ (s.tasks p f).isNone then some (s.setTask p f (some .waiting)) else none
  | .acquire p f now ttl =>
    match s.tasks p f with
    | some .waiting =>
      if now ≤ s.clock then
        let (claim, won) := upsert s.claim (d.claimedBy p f) now (s.clock + ttl)
        some ({ s with claim := claim }.setTask p f
          (some (if won then .rereading (s.clock + ttl) else .polling)))
      else none
    | _ => none
  | .poll p f =>
    match s.tasks p f with
    | some .polling =>
      some (s.setTask p f
        (if d.fingerprint s.row.tokens.refresh ≠ f then none else some .waiting))
    | _ => none
  | .reread p f outOfBudget =>
    match s.tasks p f with
    | some (.rereading expiry) =>
      some (s.setTask p f (some (afterReread d s.row f expiry outOfBudget)))
    | _ => none
  | .succeed p f k =>
    match s.tasks p f with
    | some (.exchanging expiry c) =>
      match d.decrypt c with
      | some t =>
        if k.exchanged = c ∧ Fresh d s.seen k.rotated.refresh then
          some ({ s with
            seen := d.fingerprint k.rotated.refresh :: s.seen
            used := t :: s.used }.setTask p f (some (.persisting expiry k (persistStart k))))
        else none
      | none => none
    | _ => none
  | .reject p f k =>
    match s.tasks p f with
    | some (.exchanging expiry c) =>
      if k.exchanged = c then some (s.setTask p f (some (.failing expiry k .failRead))) else none
    | _ => none
  | .transient p f =>
    match s.tasks p f with
    | some (.exchanging _ _) => some (s.setTask p f (some .releasing))
    | _ => none
  | .persist p f late =>
    match s.tasks p f with
    | some (.persisting expiry k phase) =>
      let (phase', row) := advance d.toEncryptor k late phase (some s.row)
      some ({ s with row := row.getD s.row }.setTask p f
        (some (if phase'.isFinished then .releasing else .persisting expiry k phase')))
    | some (.failing expiry k phase) =>
      let (phase', row) := advance d.toEncryptor k late phase (some s.row)
      some ({ s with row := row.getD s.row }.setTask p f
        (some (if phase'.isFinished then .releasing else .failing expiry k phase')))
    | _ => none
  | .release p f =>
    match s.tasks p f with
    | some .releasing =>
      some ({ s with claim := discard s.claim (d.claimedBy p f) }.setTask p f none)
    | _ => none
  -- a wait that timed out, a release that failed or a crash
  | .drop p f =>
    match s.tasks p f with
    | some (.persisting _ _ _) | none => none
    | some _ => some (s.setTask p f none)
  | .store row =>
    if row.tokens.refresh = s.row.tokens.refresh then some { s with row := row }
    else if Fresh d s.seen row.tokens.refresh then
      some { s with row := row, seen := d.fingerprint row.tokens.refresh :: s.seen }
    else none
  | .tick now => if s.clock ≤ now then some { s with clock := now } else none

end System

end TokenRefresh
