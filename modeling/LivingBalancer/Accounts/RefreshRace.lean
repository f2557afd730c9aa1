import LivingBalancer.Lib.Runs
import LivingBalancer.Accounts.RefreshTask

/-!
# One refresh call against its peers

Peers may rotate, re-authenticate, re-encrypt, change the status or delete the row
between any two statements of the call, and store what does not decrypt. The callers
that joined the call by the fingerprint of their account object mark its permanent
failure afterwards, guarded by what their object holds then; a caller shares its
object with whoever joined the same call before, so other calls may overwrite it.
`Tracks` carries the argument: every ciphertext the call is about to compare decrypts
to the token it exchanged, or is one that does not decrypt and is only flagged.
-/

namespace TokenRefresh

open Runs

variable {Cipher Token : Type}

/-- The ciphertext the next statement compares, if it is a write. -/
def Phase.compares : Phase Cipher → Option Cipher
  | .write expected _ | .finalWrite expected _ => some expected
  | .flagWrite latest _ | .failWrite latest _ => some latest.tokens.refresh
  | _ => none

def Phase.writesTokens : Phase Cipher → Bool
  | .write _ _ | .finalWrite _ _ => true
  | _ => false

/-- The last attempt to flag the account after every token write missed. -/
def Phase.isLastFlag : Phase Cipher → Bool
  | .flagWrite _ 0 => true
  | _ => false

/-- The call is about to flag the account. -/
def Phase.flags : Phase Cipher → Bool
  | .flagWrite _ _ => true
  | _ => false

/-- What the call is about to compare decrypts to the token it exchanged, or does not decrypt and
is about to be flagged. -/
def Tracks (e : Encryptor Cipher Token) (k : Attempt Cipher) (phase : Phase Cipher) : Prop :=
  ∀ c ∈ phase.compares,
    e.decrypt c = e.decrypt k.exchanged ∨ (phase.flags = true ∧ e.decrypt c = none)

/-! ## Decisions after a read -/

theorem fingerprint_ne {e : Encryptor Cipher Token} {c c' : Cipher} {t t' : Token}
    (hc : e.decrypt c = some t) (hc' : e.decrypt c' = some t') (other : t' ≠ t) :
    e.fingerprint c' ≠ e.fingerprint c := by
  intro same
  have := (e.fingerprint_eq c c' t hc).mp same
  rw [hc'] at this
  exact other (Option.some.inj this)

section Decisions

variable [DecidableEq Token]

theorem genuine_iff {consumed latest : Option Token} (hc : consumed.isSome)
    (hl : latest.isSome) : genuinePeerRotation consumed latest = true ↔ latest ≠ consumed := by
  simp [genuinePeerRotation, hc, hl]

theorem decideReread_tracks (e : Encryptor Cipher Token) (k : Attempt Cipher) (late : Bool)
    (left : Nat) (a : StoredAccount Cipher) : Tracks e k (decideReread e k late left a) := by
  simp only [decideReread]
  split_ifs with hnone hother
  · exact nofun
  · exact nofun
  · rw [not_not] at hother
    split
    · rintro c ⟨⟩
      exact .inl hother
    · rintro c ⟨⟩
      exact .inl hother

theorem decideFinal_tracks (e : Encryptor Cipher Token) (k : Attempt Cipher) (left : Nat)
    (a : StoredAccount Cipher) : Tracks e k (decideFinal e k left a) := by
  simp only [decideFinal]
  split_ifs with hgenuine hnone
  · exact nofun
  · exact nofun
  · split
    · rw [not_or] at hnone
      rintro c ⟨⟩
      by_contra other
      exact hgenuine ((genuine_iff (Option.isSome_iff_ne_none.mpr hnone.1)
        (Option.isSome_iff_ne_none.mpr hnone.2)).mpr fun same => other (.inl same))
    · exact nofun

/-- A read that finds another token adopts the row. -/
theorem decideReread_adopts {e : Encryptor Cipher Token} {k : Attempt Cipher}
    {a : StoredAccount Cipher} {t t' : Token} (hk : e.decrypt k.exchanged = some t)
    (ha : e.decrypt a.tokens.refresh = some t') (other : t' ≠ t) (late : Bool) (left : Nat) :
    decideReread e k late left a = .finished (.adopted a) := by
  simp [decideReread, hk, ha, other]

theorem decideFinal_adopts {e : Encryptor Cipher Token} {k : Attempt Cipher}
    {a : StoredAccount Cipher} {t t' : Token} (hk : e.decrypt k.exchanged = some t)
    (ha : e.decrypt a.tokens.refresh = some t') (other : t' ≠ t) (left : Nat) :
    decideFinal e k left a = .finished (.adopted a) := by
  simp [decideFinal, genuinePeerRotation, hk, ha, other]

end Decisions

/-! ## Statements -/

section Statements

variable [DecidableEq Cipher]

theorem rotateTokens_cases (row : Row Cipher) (new : Tokens Cipher) (expected : Cipher) :
    rotateTokens row new expected = (row, false) ∨
      ∃ a, row = some a ∧ a.tokens.refresh = expected ∧
        rotateTokens row new expected = (some { a with tokens := new }, true) := by
  cases row with
  | none => exact .inl rfl
  | some a =>
    by_cases same : a.tokens.refresh = expected
    · exact .inr ⟨a, rfl, same, by simp [rotateTokens, same]⟩
    · exact .inl (by simp [rotateTokens, same])

theorem updateStatus_cases (row : Row Cipher) (status : Balancer.AccountStatus)
    (reason : Option String) (resetAt : Option Int) (blockedAt : Option (Option Int))
    (expected : StoredAccount Cipher) (c : Cipher) :
    updateStatusIfCurrent row status reason resetAt blockedAt expected c = (row, false) ∨
      ∃ a a', row = some a ∧ a.tokens.refresh = c ∧ a'.tokens = a.tokens ∧
        updateStatusIfCurrent row status reason resetAt blockedAt expected c = (some a', true) := by
  cases row with
  | none => exact .inl rfl
  | some a =>
    simp only [updateStatusIfCurrent]
    split_ifs with same
    · exact .inr ⟨a, { a with
        status := status
        deactivationReason := reason
        resetAt := resetAt
        blockedAt := blockedAt.getD a.blockedAt }, rfl, same.2.2.2.2, rfl, rfl⟩
    · exact .inl rfl

variable [DecidableEq Token]

/-- A statement leaves the row alone, or it is a write that found the ciphertext it compares. -/
theorem advance_row (e : Encryptor Cipher Token) (k : Attempt Cipher) (late : Bool)
    (phase : Phase Cipher) (row : Row Cipher) :
    (advance e k late phase row).2 = row ∨
      ∃ a a', row = some a ∧ a.tokens.refresh ∈ phase.compares ∧
        (advance e k late phase row).2 = some a' ∧
        a'.tokens = if phase.writesTokens then k.rotated else a.tokens := by
  cases phase with
  | write expected left | finalWrite expected left =>
    rcases rotateTokens_cases row k.rotated expected with missed | ⟨a, rfl, same, landed⟩
    · exact .inl (by simp [advance, missed])
    · exact .inr ⟨a, { a with tokens := k.rotated }, rfl, by simp [Phase.compares, same],
        by simp [advance, landed], by simp [Phase.writesTokens]⟩
  | flagWrite latest left =>
    rcases updateStatus_cases row .reauthRequired (some persistConflictReason) none none latest
      latest.tokens.refresh with missed | ⟨a, a', rfl, same, htokens, landed⟩
    · exact .inl (by simp [advance, missed])
    · exact .inr ⟨a, a', rfl, by simp [Phase.compares, same], by simp [advance, landed],
        by simp [Phase.writesTokens, htokens]⟩
  | failWrite latest left =>
    rcases updateStatus_cases row k.failureStatus (some k.reason) none none latest
      latest.tokens.refresh with missed | ⟨a, a', rfl, same, htokens, landed⟩
    · exact .inl (by simp [advance, missed])
    · exact .inr ⟨a, a', rfl, by simp [Phase.compares, same], by simp [advance, landed],
        by simp [Phase.writesTokens, htokens]⟩
  | reread left | finalReread left | failRead =>
    left
    cases row <;> simp only [advance]
    all_goals (try split_ifs) <;> rfl
  | flagRead left | failReread left =>
    left
    cases row <;> simp only [advance]
    all_goals (try split_ifs) <;> rfl
  | finished outcome => exact .inl rfl

/-- A read goes on to compare only what decrypts to the exchanged token or is flagged. -/
theorem advance_tracks {e : Encryptor Cipher Token} {k : Attempt Cipher} {t : Token}
    (hk : e.decrypt k.exchanged = some t) (row : Row Cipher) (late : Bool) (phase : Phase Cipher) :
    Tracks e k (advance e k late phase row).1 := by
  have same_of_fingerprint : ∀ a : StoredAccount Cipher,
      ¬ e.fingerprint a.tokens.refresh ≠ e.fingerprint k.exchanged →
        e.decrypt a.tokens.refresh = e.decrypt k.exchanged := by
    intro a same
    rw [hk]
    exact (e.fingerprint_eq _ _ t hk).mp (not_not.mp same)
  cases phase with
  | write expected left | finalWrite expected left =>
    simp only [advance]
    split_ifs <;> exact nofun
  | reread left =>
    cases row with
    | none => exact nofun
    | some a => exact decideReread_tracks e k late left a
  | finalReread left =>
    cases row with
    | none => exact nofun
    | some a => exact decideFinal_tracks e k left a
  | flagRead left =>
    cases row with
    | none => exact nofun
    | some a =>
      simp only [advance]
      split_ifs with genuine
      · exact nofun
      · rintro c ⟨⟩
        cases unread : e.decrypt a.tokens.refresh with
        | none => exact .inr ⟨rfl, rfl⟩
        | some t' =>
          left
          by_contra other
          exact genuine ((genuine_iff (by simp [hk]) (by simp [unread])).mpr (unread ▸ other))
  | flagWrite latest left =>
    simp only [advance]
    split_ifs
    · exact nofun
    · cases left <;> exact nofun
  | failRead =>
    cases row with
    | none => exact nofun
    | some a =>
      simp only [advance]
      split_ifs with same
      · exact nofun
      · rintro c ⟨⟩
        exact .inl (same_of_fingerprint a same)
  | failWrite latest left =>
    simp only [advance]
    split_ifs <;> exact nofun
  | failReread left =>
    cases row with
    | none => exact nofun
    | some a =>
      simp only [advance]
      split_ifs with same
      · exact nofun
      · dsimp only
        split
        · rintro c ⟨⟩
          exact .inl (same_of_fingerprint a same)
        · exact nofun
  | finished outcome => exact nofun

end Statements

/-! ## The race -/

/-- A call with its row, the refresh ciphertexts of its callers' account objects, and the marks of
its failure whose guards are read. -/
structure Race (Cipher : Type) where
  phase : Phase Cipher
  row : Row Cipher
  objects : List Cipher
  marks : List (StoredAccount Cipher × Option Int)

inductive RaceAct (Cipher : Type) where
  | own (late : Bool)
  | peer (row : Row Cipher)
  | overwrite (i : ℕ) (c : Cipher)
  | guard (i : ℕ) (held : StoredAccount Cipher) (reset : Option Int)
  | mark (j : ℕ)

/-- The permanent failure was raised to the callers. -/
def Phase.hasFailed : Phase Cipher → Bool
  | .finished .failed => true
  | _ => false

theorem persistStart_tracks (e : Encryptor Cipher Token) (k : Attempt Cipher) :
    Tracks e k (persistStart k) := by
  rintro c ⟨⟩
  exact .inl rfl

section System

variable [DecidableEq Cipher] [DecidableEq Token]

/-- `overwrite` is another call of the replica that leaves its row in a caller's object, `guard`
the values that `mark_permanent_failure` reads of the object, and `mark` its statement. -/
def raceStep (e : Encryptor Cipher Token) (k : Attempt Cipher) (s : Race Cipher) :
    RaceAct Cipher → Option (Race Cipher)
  | .own late =>
    let (phase, row) := advance e k late s.phase s.row
    some { s with phase := phase, row := row }
  | .peer row => some { s with row := row }
  | .overwrite i c => some { s with objects := s.objects.set i c }
  | .guard i held reset =>
    if s.phase.hasFailed ∧ s.objects[i]? = some held.tokens.refresh then
      some { s with marks := s.marks ++ [(held, reset)] }
    else none
  | .mark j => s.marks[j]?.map fun (held, reset) =>
    { s with row := (markPermanentFailure s.row held k.code reset).1 }

/-- The call starts at `phase` on any row, with callers that joined it by its fingerprint. -/
structure StartsAt (e : Encryptor Cipher Token) (k : Attempt Cipher) (phase : Phase Cipher)
    (s : Race Cipher) : Prop where
  phase : s.phase = phase
  joined : ∀ c ∈ s.objects, e.fingerprint c = e.fingerprint k.exchanged
  marks : s.marks = []

theorem markPermanentFailure_cases (row : Row Cipher) (held : StoredAccount Cipher)
    (code : String) (reset : Option Int) :
    markPermanentFailure row held code reset = (row, false) ∨
      ∃ a a', row = some a ∧ a.tokens.refresh = held.tokens.refresh ∧ a'.tokens = a.tokens ∧
        markPermanentFailure row held code reset = (some a', true) := by
  simp only [markPermanentFailure]
  split_ifs
  · exact .inl rfl
  · exact updateStatus_cases ..

variable {e : Encryptor Cipher Token} {k : Attempt Cipher} {t : Token}

/-- A step of the race advances the call or leaves its phase. -/
theorem raceStep_phase {s s' : Race Cipher} {act : RaceAct Cipher}
    (h : raceStep e k s act = some s') :
    (∃ late, s'.phase = (advance e k late s.phase s.row).1) ∨ s'.phase = s.phase := by
  cases act with
  | own late =>
    cases h
    exact .inl ⟨late, rfl⟩
  | peer row | overwrite i c =>
    cases h
    exact .inr rfl
  | guard i held reset =>
    simp only [raceStep, Option.ite_none_right_eq_some, Option.some.injEq] at h
    obtain ⟨-, rfl⟩ := h
    exact .inr rfl
  | mark j =>
    simp only [raceStep, Option.map_eq_some_iff] at h
    obtain ⟨_, -, rfl⟩ := h
    exact .inr rfl

theorem Race.tracks_of_reachable (hk : e.decrypt k.exchanged = some t) {phase : Phase Cipher}
    (start : Tracks e k phase) {ok : Race Cipher → RaceAct Cipher → Prop} {s : Race Cipher}
    (h : Reachable (raceStep e k) ok (StartsAt e k phase) s) : Tracks e k s.phase := by
  refine h.invariant (fun s starts => starts.phase ▸ start) fun s act s' tracks _ hstep => ?_
  rcases raceStep_phase hstep with ⟨late, next⟩ | same
  · rw [next]
    exact advance_tracks hk s.row late s.phase
  · rwa [same]

end System

end TokenRefresh
