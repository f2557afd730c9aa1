import LivingBalancer.Accounts.RefreshRace

/-!
# Rotations of peers are kept

What one refresh call can do to a token that another replica stored. A call that
meets another token writes nothing and adopts it, with one exception: after its last
attempt to flag the account it does not read the row again. Status writes, those of
the callers that mark the failure included, land only on the exchanged token, with two
exceptions: the flag of a persist conflict also lands on what does not decrypt, and a
mark follows the account object of its caller, which may hold another token by then.
-/

namespace TokenRefresh

open Runs

variable {Cipher Token : Type}

def StoresToken (e : Encryptor Cipher Token) (t : Token) (row : Row Cipher) : Prop :=
  ∃ a, row = some a ∧ e.decrypt a.tokens.refresh = some t

def StoresOther (e : Encryptor Cipher Token) (t : Token) (row : Row Cipher) : Prop :=
  ∃ a t', row = some a ∧ e.decrypt a.tokens.refresh = some t' ∧ t' ≠ t

/-- The next phase of a call that meets another token. -/
def Phase.meetsOther (a : StoredAccount Cipher) : Phase Cipher → Phase Cipher
  | .write _ left => .reread left
  | .finalWrite _ left => .finalReread left
  | .flagWrite _ (left + 1) => .flagRead left
  | .flagWrite _ 0 => .finished .persistConflict
  | .failWrite _ left => .failReread left
  | .finished outcome => .finished outcome
  | _ => .finished (.adopted a)

/-- Nothing the call compares matches another token. -/
theorem Tracks.ne_stored {e : Encryptor Cipher Token} {k : Attempt Cipher} {t : Token}
    (hk : e.decrypt k.exchanged = some t) {phase : Phase Cipher} (tracks : Tracks e k phase)
    {a : StoredAccount Cipher} {t' : Token}
    (ha : e.decrypt a.tokens.refresh = some t') (other : t' ≠ t) {c : Cipher}
    (hc : c ∈ phase.compares) : a.tokens.refresh ≠ c := by
  intro same
  rcases tracks c hc with exchanged | ⟨-, unread⟩
  · rw [← same, ha, hk] at exchanged
    exact other (Option.some.inj exchanged)
  · rw [← same, ha] at unread
    cases unread

section Calls

variable [DecidableEq Cipher] [DecidableEq Token]
variable {e : Encryptor Cipher Token} {k : Attempt Cipher} {t : Token}

theorem rotateTokens_missed {a : StoredAccount Cipher} {expected : Cipher}
    (other : a.tokens.refresh ≠ expected) (new : Tokens Cipher) :
    rotateTokens (some a) new expected = (some a, false) := by
  simp [rotateTokens, other]

theorem updateStatus_missed {a : StoredAccount Cipher} {c : Cipher}
    (other : a.tokens.refresh ≠ c) (status : Balancer.AccountStatus) (reason : Option String)
    (resetAt : Option Int) (blockedAt : Option (Option Int)) (expected : StoredAccount Cipher) :
    updateStatusIfCurrent (some a) status reason resetAt blockedAt expected c =
      (some a, false) := by
  simp [updateStatusIfCurrent, other]

theorem advance_other (hk : e.decrypt k.exchanged = some t) {phase : Phase Cipher}
    (tracks : Tracks e k phase) {a : StoredAccount Cipher} {t' : Token}
    (ha : e.decrypt a.tokens.refresh = some t') (other : t' ≠ t) (late : Bool) :
    advance e k late phase (some a) = (phase.meetsOther a, some a) := by
  cases phase with
  | write expected left | finalWrite expected left =>
    have missed := tracks.ne_stored hk ha other (c := expected) rfl
    simp [advance, rotateTokens_missed missed, Phase.meetsOther]
  | reread left => simp [advance, decideReread_adopts hk ha other, Phase.meetsOther]
  | finalReread left => simp [advance, decideFinal_adopts hk ha other, Phase.meetsOther]
  | flagRead left => simp [advance, genuinePeerRotation, hk, ha, other, Phase.meetsOther]
  | flagWrite latest left =>
    have missed := tracks.ne_stored hk ha other (c := latest.tokens.refresh) rfl
    cases left <;> simp [advance, updateStatus_missed missed, Phase.meetsOther]
  | failRead => simp [advance, fingerprint_ne hk ha other, Phase.meetsOther]
  | failWrite latest left =>
    have missed := tracks.ne_stored hk ha other (c := latest.tokens.refresh) rfl
    simp [advance, updateStatus_missed missed, Phase.meetsOther]
  | failReread left => simp [advance, fingerprint_ne hk ha other, Phase.meetsOther]
  | finished outcome => rfl

/-- The next statement is a token write, and it reports success. -/
def TokenWriteLands (e : Encryptor Cipher Token) (k : Attempt Cipher) (late : Bool)
    (s : Race Cipher) : Prop :=
  s.phase.writesTokens = true ∧ (advance e k late s.phase s.row).1 = .finished .persisted

/-- The next statement adopts the row, or it misses and the statement after it adopts
whatever other token it then finds. -/
def WillAdopt (e : Encryptor Cipher Token) (k : Attempt Cipher) (t : Token) (late : Bool)
    (s : Race Cipher) : Prop :=
  (∃ a, s.row = some a ∧ (advance e k late s.phase s.row).1 = .finished (.adopted a)) ∨
    ∀ late' a', StoresOther e t (some a') →
      advance e k late' (advance e k late s.phase s.row).1 (some a') =
        (.finished (.adopted a'), some a')

/-- A token write lands only on the exchanged token; on another token the call writes
nothing and, unless it is over, adopts it. -/
def KeepsRotations (e : Encryptor Cipher Token) (k : Attempt Cipher) (t : Token)
    (s : Race Cipher) : Prop :=
  ∀ late, (TokenWriteLands e k late s → StoresToken e t s.row) ∧
    (StoresOther e t s.row → (advance e k late s.phase s.row).2 = s.row ∧
      (s.phase.isFinished = false → WillAdopt e k t late s))

theorem Race.lands_on_exchanged (hk : e.decrypt k.exchanged = some t) {s : Race Cipher}
    (tracks : Tracks e k s.phase) {late : Bool} (lands : TokenWriteLands e k late s) :
    StoresToken e t s.row := by
  obtain ⟨writes, persisted⟩ := lands
  generalize hphase : s.phase = phase at *
  cases phase with
  | write expected left | finalWrite expected left =>
    rcases rotateTokens_cases s.row k.rotated expected with missed | ⟨a, hrow, same, -⟩
    · simp [advance, missed] at persisted
    · rcases tracks expected rfl with exchanged | ⟨flags, -⟩
      · exact ⟨a, hrow, by rw [same, exchanged, hk]⟩
      · cases flags
  | reread _ | finalReread _ | flagRead _ | flagWrite _ _ | failRead | failWrite _ _
  | failReread _ | finished _ => simp [Phase.writesTokens] at writes

theorem Race.willAdopt (hk : e.decrypt k.exchanged = some t) {s : Race Cipher}
    (tracks : Tracks e k s.phase) (other : StoresOther e t s.row) (open_ : s.phase.isFinished = false)
    (again : s.phase.isLastFlag = false) (late : Bool) : WillAdopt e k t late s := by
  obtain ⟨a, t', hrow, ha, hne⟩ := other
  have next := advance_other hk tracks ha hne late
  have tracks := advance_tracks hk (some a) late s.phase
  simp only [WillAdopt]
  rw [hrow, next]
  rw [next] at tracks
  -- either the statement read the other token, or it was a write and the next one reads
  cases hphase : s.phase with
  | reread left | finalReread left | flagRead left | failRead | failReread left =>
    exact .inl ⟨a, rfl, rfl⟩
  | write expected left | finalWrite expected left | failWrite latest left =>
    right
    rintro late' _ ⟨a', t'', ⟨⟩, ha', hne'⟩
    rw [hphase] at tracks
    exact advance_other hk tracks ha' hne' late'
  | flagWrite latest left =>
    cases left with
    | zero =>
      rw [hphase] at again
      exact absurd again (by simp [Phase.isLastFlag])
    | succ left =>
      right
      rintro late' _ ⟨a', t'', ⟨⟩, ha', hne'⟩
      rw [hphase] at tracks
      exact advance_other hk tracks ha' hne' late'
  | finished outcome =>
    rw [hphase] at open_
    exact absurd open_ (by simp [Phase.isFinished])

theorem Race.keepsRotations (hk : e.decrypt k.exchanged = some t) {s : Race Cipher}
    (tracks : Tracks e k s.phase) :
    KeepsRotations e k t s ↔ ¬ (s.phase.isLastFlag = true ∧ StoresOther e t s.row) := by
  constructor
  · rintro keeps ⟨last, other⟩
    obtain ⟨a, t', hrow, ha, hne⟩ := other
    have closed : ∀ late, advance e k late s.phase s.row =
        (.finished .persistConflict, some a) := by
      intro late
      rw [hrow, advance_other hk tracks ha hne late]
      cases hphase : s.phase with
      | flagWrite latest left =>
        cases left with
        | zero => rfl
        | succ left => simp [hphase, Phase.isLastFlag] at last
      | write _ _ | reread _ | finalWrite _ _ | finalReread _ | flagRead _ | failRead
      | failWrite _ _ | failReread _ | finished _ => simp [hphase, Phase.isLastFlag] at last
    have unfinished : s.phase.isFinished = false := by
      cases hphase : s.phase with
      | finished outcome => simp [hphase, Phase.isLastFlag] at last
      | _ => rfl
    rcases ((keeps false).2 ⟨a, t', hrow, ha, hne⟩).2 unfinished with ⟨a', -, adopts⟩ | adopts
    · rw [closed] at adopts
      cases adopts
    · have := adopts false a ⟨a, t', rfl, ha, hne⟩
      rw [closed] at this
      cases this
  · intro spared late
    refine ⟨Race.lands_on_exchanged hk tracks, fun other => ⟨?_, fun unfinished => ?_⟩⟩
    · obtain ⟨a, t', hrow, ha, hne⟩ := other
      rw [hrow, advance_other hk tracks ha hne late]
    · refine Race.willAdopt hk tracks other unfinished ?_ late
      rw [Bool.eq_false_iff]
      exact fun last => spared ⟨last, other⟩

/-- Along every race of `_persist_refreshed_tokens` with its peers, rotations are kept in
exactly the states where the call is not at its last flag write with another token stored. -/
theorem keepsRotations_iff (hk : e.decrypt k.exchanged = some t) {s : Race Cipher}
    (h : Reachable (raceStep e k) Any (StartsAt e k (persistStart k)) s) :
    KeepsRotations e k t s ↔ ¬ (s.phase.isLastFlag = true ∧ StoresOther e t s.row) :=
  Race.keepsRotations hk (Race.tracks_of_reachable hk (persistStart_tracks e k) h)

/-! ## Status writes -/

/-- The status write the call is about to make. -/
def Phase.statusWrite (k : Attempt Cipher) :
    Phase Cipher → Option (Balancer.AccountStatus × String × StoredAccount Cipher)
  | .flagWrite latest _ => some (.reauthRequired, persistConflictReason, latest)
  | .failWrite latest _ => some (k.failureStatus, k.reason, latest)
  | _ => none

/-- The act makes a downgrade because of this call, and the row matches it. -/
def downgradeLands (k : Attempt Cipher) (s : Race Cipher) : RaceAct Cipher → Bool
  | .own _ =>
    match s.phase.statusWrite k with
    | some (status, reason, latest) =>
      (updateStatusIfCurrent s.row status (some reason) none none latest latest.tokens.refresh).2
    | none => false
  | .mark j => s.marks[j]?.any fun (held, reset) => (markPermanentFailure s.row held k.code reset).2
  | .peer _ | .overwrite _ _ | .guard _ _ _ => false

def StoresUnreadable (e : Encryptor Cipher Token) (row : Row Cipher) : Prop :=
  ∃ a, row = some a ∧ e.decrypt a.tokens.refresh = none

omit [DecidableEq Cipher] in
theorem Phase.statusWrite_compares {phase : Phase Cipher} {status : Balancer.AccountStatus}
    {reason : String} {latest : StoredAccount Cipher}
    (h : phase.statusWrite k = some (status, reason, latest)) :
    latest.tokens.refresh ∈ phase.compares := by
  cases phase <;> simp [Phase.statusWrite, Phase.compares] at h ⊢ <;> simp [h]

omit [DecidableEq Cipher] [DecidableEq Token] in
/-- A row that the call changes stores what the call compared. -/
theorem Tracks.stored {phase : Phase Cipher} (tracks : Tracks e k phase)
    (hk : e.decrypt k.exchanged = some t) {a : StoredAccount Cipher} {row : Row Cipher}
    (hrow : row = some a) (compared : a.tokens.refresh ∈ phase.compares) :
    StoresToken e t row ∨ (phase.flags = true ∧ StoresUnreadable e row) := by
  rcases tracks _ compared with exchanged | ⟨flags, unread⟩
  · exact .inl ⟨a, hrow, exchanged.trans hk⟩
  · exact .inr ⟨flags, a, hrow, unread⟩

omit [DecidableEq Token] in
theorem Race.own_downgrades (hk : e.decrypt k.exchanged = some t) {s : Race Cipher}
    (tracks : Tracks e k s.phase) {late : Bool} (lands : downgradeLands k s (.own late) = true) :
    StoresToken e t s.row ∨ (s.phase.flags = true ∧ StoresUnreadable e s.row) := by
  simp only [downgradeLands] at lands
  split at lands
  · rename_i status reason latest hwrite
    rcases updateStatus_cases s.row status (some reason) none none latest latest.tokens.refresh
      with missed | ⟨a, -, hrow, same, -⟩
    · simp [missed] at lands
    · exact tracks.stored hk hrow (same ▸ Phase.statusWrite_compares hwrite)
  · cases lands

theorem Race.own_changes (hk : e.decrypt k.exchanged = some t) {s : Race Cipher}
    (tracks : Tracks e k s.phase) {late : Bool}
    (changed : (advance e k late s.phase s.row).2 ≠ s.row) :
    StoresToken e t s.row ∨ (s.phase.flags = true ∧ StoresUnreadable e s.row) := by
  rcases advance_row e k late s.phase s.row with same | ⟨a, -, hrow, compared, -⟩
  · exact absurd same changed
  · exact tracks.stored hk hrow compared

omit [DecidableEq Token] in
theorem mark_downgrades (hk : e.decrypt k.exchanged = some t) {row : Row Cipher}
    {held : StoredAccount Cipher} {reset : Option Int}
    (joined : e.fingerprint held.tokens.refresh = e.fingerprint k.exchanged)
    (changed : (markPermanentFailure row held k.code reset).2 = true ∨
      (markPermanentFailure row held k.code reset).1 ≠ row) : StoresToken e t row := by
  rcases markPermanentFailure_cases row held k.code reset with missed | ⟨a, -, hrow, same, -⟩
  · rw [missed] at changed
    rcases changed with landed | differs
    · cases landed
    · exact absurd rfl differs
  · exact ⟨a, hrow, same ▸ (e.fingerprint_eq _ _ t hk).mp joined⟩

/-- No other call of the replica leaves another token in a caller's account object. -/
def ObjectsKept (e : Encryptor Cipher Token) (k : Attempt Cipher) (_ : Race Cipher) :
    RaceAct Cipher → Prop
  | .overwrite _ c => e.fingerprint c = e.fingerprint k.exchanged
  | _ => True

/-- The objects of the callers, and the guards read of them, hold the exchanged token. -/
structure Joined (e : Encryptor Cipher Token) (k : Attempt Cipher) (s : Race Cipher) : Prop where
  objects : ∀ c ∈ s.objects, e.fingerprint c = e.fingerprint k.exchanged
  marks : ∀ m ∈ s.marks, e.fingerprint m.1.tokens.refresh = e.fingerprint k.exchanged

theorem Joined.step {s s' : Race Cipher} {act : RaceAct Cipher} (joined : Joined e k s)
    (kept : ObjectsKept e k s act) (h : raceStep e k s act = some s') : Joined e k s' := by
  cases act with
  | own late | peer row =>
    cases h
    exact ⟨joined.objects, joined.marks⟩
  | overwrite i c =>
    cases h
    refine ⟨fun c' mem => ?_, joined.marks⟩
    rcases List.mem_or_eq_of_mem_set mem with old | rfl
    · exact joined.objects c' old
    · exact kept
  | guard i held reset =>
    simp only [raceStep, Option.ite_none_right_eq_some, Option.some.injEq] at h
    obtain ⟨⟨-, object⟩, rfl⟩ := h
    refine ⟨joined.objects, fun m mem => ?_⟩
    rcases List.mem_append.mp mem with old | new
    · exact joined.marks m old
    · obtain rfl := List.mem_singleton.mp new
      exact joined.objects _ (List.mem_of_getElem? object)
  | mark j =>
    simp only [raceStep, Option.map_eq_some_iff] at h
    obtain ⟨_, -, rfl⟩ := h
    exact ⟨joined.objects, joined.marks⟩

theorem Joined.of_reachable {phase : Phase Cipher} {s : Race Cipher}
    (h : Reachable (raceStep e k) (ObjectsKept e k) (StartsAt e k phase) s) : Joined e k s :=
  h.invariant (fun _ starts => ⟨starts.joined, by simp [starts.marks]⟩)
    fun _ _ _ joined kept hstep => joined.step kept hstep

/-- Along every race of a refresh call, failed or not, that leaves the callers their token, a
downgrade because of the call lands only on the token it exchanged or, as the flag of a persist
conflict, on what does not decrypt; the second case says that `downgradeLands` misses none. -/
theorem downgrade_lands_on_exchanged (hk : e.decrypt k.exchanged = some t) {start : Phase Cipher}
    (hstart : start = persistStart k ∨ start = .failRead ∨ start = .finished .failed)
    {s s' : Race Cipher}
    (h : Reachable (raceStep e k) (ObjectsKept e k) (StartsAt e k start) s) {act : RaceAct Cipher}
    (hstep : raceStep e k s act = some s')
    (downgrades : downgradeLands k s act = true ∨
      (∀ row, act ≠ .peer row) ∧ s'.row.map (·.status) ≠ s.row.map (·.status)) :
    StoresToken e t s.row ∨
      ((∃ late, act = .own late) ∧ s.phase.flags = true ∧ StoresUnreadable e s.row) := by
  have starts : Tracks e k start := by
    rcases hstart with rfl | rfl | rfl
    · exact persistStart_tracks e k
    · exact nofun
    · exact nofun
  have tracks := Race.tracks_of_reachable hk starts h
  cases act with
  | own late =>
    refine Or.imp_right (fun unread => ⟨⟨late, rfl⟩, unread⟩) ?_
    rcases downgrades with lands | ⟨-, changed⟩
    · exact Race.own_downgrades hk tracks lands
    · have hrow : s'.row = (advance e k late s.phase s.row).2 :=
        congrArg Race.row (Option.some.inj hstep).symm
      exact Race.own_changes hk tracks fun same => changed (by rw [hrow, same])
  | peer row =>
    rcases downgrades with lands | ⟨own, -⟩
    · cases lands
    · exact absurd rfl (own row)
  | overwrite i c =>
    cases hstep
    rcases downgrades with lands | ⟨-, changed⟩
    · cases lands
    · exact absurd rfl changed
  | guard i held reset =>
    simp only [raceStep, Option.ite_none_right_eq_some, Option.some.injEq] at hstep
    obtain ⟨-, rfl⟩ := hstep
    rcases downgrades with lands | ⟨-, changed⟩
    · cases lands
    · exact absurd rfl changed
  | mark j =>
    simp only [raceStep, Option.map_eq_some_iff] at hstep
    obtain ⟨⟨held, reset⟩, pending, rfl⟩ := hstep
    have joined := (Joined.of_reachable h).marks _ (List.mem_of_getElem? pending)
    left
    rcases downgrades with lands | ⟨-, changed⟩
    · exact mark_downgrades hk joined (.inl (by simpa [downgradeLands, pending] using lands))
    · have differs : (markPermanentFailure s.row held k.code reset).1 ≠ s.row := fun same =>
        changed (congrArg (Option.map (·.status)) same)
      exact mark_downgrades hk joined (.inr differs)

end Calls

/-! ## A storm of re-encryptions -/

/-- Ciphertexts that carry their plaintext and a nonce; plaintext 0 stands for one that does not
decrypt. -/
def nonceEncryptor : Encryptor (ℕ × ℕ) ℕ where
  decrypt c := if c.1 = 0 then none else some c.1
  fingerprint c := if c.1 = 0 then List.replicate c.2 'x' else 'f' :: List.replicate c.1 'f'
  fingerprint_eq := by
    rintro ⟨m, n⟩ ⟨m', n'⟩ t readable
    by_cases m_zero : m = 0
    · simp [m_zero] at readable
    · simp only [if_neg m_zero, Option.some.injEq] at readable
      subst readable
      by_cases zero : m' = 0
      · rw [if_pos zero, if_neg m_zero, if_pos zero]
        refine ⟨fun same => ?_, nofun⟩
        have first := congrArg List.head? same
        cases n' <;> simp [List.replicate_succ] at first
      · rw [if_neg zero, if_neg m_zero, if_neg zero]
        simp

def encryptedTokens (token nonce : ℕ) : Tokens (ℕ × ℕ) :=
  { access := (token, nonce), refresh := (token, nonce), id := (token, nonce), lastRefresh := 0 }

def storedTokens (token nonce : ℕ) : Row (ℕ × ℕ) :=
  some
    { tokens := encryptedTokens token nonce
      status := .active
      deactivationReason := none
      resetAt := none
      blockedAt := none }

def exchangeOne : Attempt (ℕ × ℕ) :=
  { exchanged := (1, 0)
    rotated := encryptedTokens 2 0
    code := "refresh_token_expired"
    message := "" }

theorem exchangeOne_exchanged : nonceEncryptor.decrypt exchangeOne.exchanged = some 1 := rfl

/-- The row changes before every write of the call: eight times the same token under a new
nonce, and then to another token before the last flag write. -/
def stormRun : List (RaceAct (ℕ × ℕ)) :=
  [.peer (storedTokens 1 1), .own true, .own true,
    .peer (storedTokens 1 2), .own true, .own true,
    .peer (storedTokens 1 3), .own true, .own true,
    .peer (storedTokens 1 4), .own true, .own true,
    .own true, .peer (storedTokens 1 5), .own true,
    .own true, .peer (storedTokens 1 6), .own true,
    .own true, .peer (storedTokens 9 0)]

def stormStart : Race (ℕ × ℕ) :=
  { phase := persistStart exchangeOne, row := storedTokens 1 0, objects := [(1, 0)], marks := [] }

theorem stormStart_starts :
    StartsAt nonceEncryptor exchangeOne (persistStart exchangeOne) stormStart :=
  ⟨rfl, by decide, rfl⟩

def stormEnd : Race (ℕ × ℕ) :=
  (replay (raceStep nonceEncryptor exchangeOne) stormStart stormRun).getD stormStart

/-- A rotation that lands before the first token write. -/
def rotatedFirst : Race (ℕ × ℕ) := { stormStart with row := storedTokens 9 0 }

theorem rotatedFirst_adopted :
    StoresOther nonceEncryptor 1 rotatedFirst.row ∧
      KeepsRotations nonceEncryptor exchangeOne 1 rotatedFirst := by
  have run : Reachable (raceStep nonceEncryptor exchangeOne) Any
      (StartsAt nonceEncryptor exchangeOne (persistStart exchangeOne)) rotatedFirst :=
    reachable_of_replay [.peer (storedTokens 9 0)] stormStart_starts (fun _ _ _ => trivial) rfl
  exact ⟨⟨_, 9, rfl, rfl, by decide⟩,
    (keepsRotations_iff exchangeOne_exchanged run).mpr fun last => nomatch last.1⟩

/-- A permanent failure before its row is read, with two callers. -/
def failedStart : Race (ℕ × ℕ) :=
  { stormStart with phase := .failRead, objects := [(1, 0), (1, 0)] }

theorem failedStart_starts : StartsAt nonceEncryptor exchangeOne .failRead failedStart :=
  ⟨rfl, by decide, rfl⟩

def activeObject (token nonce : ℕ) : StoredAccount (ℕ × ℕ) :=
  { tokens := encryptedTokens token nonce
    status := .active
    deactivationReason := none
    resetAt := none
    blockedAt := none }

/-- A peer re-encrypts the row before and after the call reads it, so that the downgrade misses once,
and again before it is marked by the second caller, whose object was overwritten with that. -/
def failedRun : List (RaceAct (ℕ × ℕ)) :=
  [.peer (storedTokens 1 1), .own false, .peer (storedTokens 1 2), .own false, .own false,
    .own false, .peer (storedTokens 1 3), .overwrite 1 (1, 3), .guard 1 (activeObject 1 3) none]

def failedEnd : Race (ℕ × ℕ) :=
  (replay (raceStep nonceEncryptor exchangeOne) failedStart failedRun).getD failedStart

theorem failedEnd_marked :
    downgradeLands exchangeOne failedEnd (.mark 0) = true ∧
      StoresToken nonceEncryptor 1 failedEnd.row := by
  have run : Reachable (raceStep nonceEncryptor exchangeOne) (ObjectsKept nonceEncryptor exchangeOne)
      (StartsAt nonceEncryptor exchangeOne .failRead) failedEnd := by
    refine reachable_of_replay failedRun failedStart_starts ?_ rfl
    intro s act mem
    simp only [failedRun, List.mem_cons, List.not_mem_nil, or_false] at mem
    rcases mem with rfl | rfl | rfl | rfl | rfl | rfl | rfl | rfl | rfl
    case inr.inr.inr.inr.inr.inr.inr.inl => rfl
    all_goals trivial
  have lands : downgradeLands exchangeOne failedEnd (.mark 0) = true := rfl
  have marked : raceStep nonceEncryptor exchangeOne failedEnd (.mark 0) = some _ := rfl
  refine ⟨lands, ?_⟩
  rcases downgrade_lands_on_exchanged exchangeOne_exchanged (.inr (.inl rfl)) run marked
    (.inl lands) with stored | ⟨⟨_, own⟩, -⟩
  · exact stored
  · cases own

/-- Every write misses until a peer stores what does not decrypt, and the call is about to flag
that. -/
def blindRun : List (RaceAct (ℕ × ℕ)) :=
  [.peer (storedTokens 1 1), .own true, .own true, .peer (storedTokens 0 0), .own true, .own true,
    .own true]

def blindEnd : Race (ℕ × ℕ) :=
  (replay (raceStep nonceEncryptor exchangeOne) stormStart blindRun).getD stormStart

/-- The account is repaired after its downgrade, another call of the replica adopts the repair into
the object that the first caller shares, and that caller marks the failure. -/
def repairedRun : List (RaceAct (ℕ × ℕ)) :=
  [.own false, .own false, .peer (storedTokens 9 0), .overwrite 0 (9, 0),
    .guard 0 (activeObject 9 0) none]

def repairedEnd : Race (ℕ × ℕ) :=
  (replay (raceStep nonceEncryptor exchangeOne) failedStart repairedRun).getD failedStart

theorem downgrades_land_elsewhere :
    (Reachable (raceStep nonceEncryptor exchangeOne) Any
          (StartsAt nonceEncryptor exchangeOne (persistStart exchangeOne)) blindEnd ∧
        downgradeLands exchangeOne blindEnd (.own true) = true ∧
        ¬ StoresToken nonceEncryptor 1 blindEnd.row) ∧
      (Reachable (raceStep nonceEncryptor exchangeOne) Any
          (StartsAt nonceEncryptor exchangeOne .failRead) repairedEnd ∧
        downgradeLands exchangeOne repairedEnd (.mark 0) = true ∧
        ¬ StoresToken nonceEncryptor 1 repairedEnd.row) := by
  refine ⟨⟨reachable_of_replay blindRun stormStart_starts (fun _ _ _ => trivial) rfl, rfl, ?_⟩,
    reachable_of_replay repairedRun failedStart_starts (fun _ _ _ => trivial) rfl, rfl, ?_⟩
  · rintro ⟨a, ⟨⟩, stored⟩
    cases stored
  · rintro ⟨a, ⟨⟩, stored⟩
    exact absurd (Option.some.inj stored) (by decide)

theorem stormEnd_reachable :
    Reachable (raceStep nonceEncryptor exchangeOne) Any
      (StartsAt nonceEncryptor exchangeOne (persistStart exchangeOne)) stormEnd :=
  reachable_of_replay stormRun stormStart_starts (fun _ _ _ => trivial) rfl

theorem storm_loses_rotation :
    Reachable (raceStep nonceEncryptor exchangeOne) Any
        (StartsAt nonceEncryptor exchangeOne (persistStart exchangeOne)) stormEnd ∧
      ¬ KeepsRotations nonceEncryptor exchangeOne 1 stormEnd := by
  refine ⟨stormEnd_reachable, fun keeps => ?_⟩
  have tracks := Race.tracks_of_reachable exchangeOne_exchanged (persistStart_tracks _ _)
    stormEnd_reachable
  exact (Race.keepsRotations exchangeOne_exchanged tracks).mp keeps
    ⟨rfl, _, 9, rfl, rfl, by decide⟩

end TokenRefresh
