import LivingBalancer.Accounts.ClaimIds
import LivingBalancer.Accounts.RotationKept

/-!
# A refresh token is exchanged once

While every task ends its critical part within the lease its claim statement stored,
at most one task is in that part. A stored token was exchanged only while the task
that did it is about to replace it, so the next task never reads a used token.
-/

namespace TokenRefresh

open Runs TimedLease

variable {Proc Cipher Token : Type}

/-! ## Owners do not collide -/

/-- Claims of two tasks coincide only when the process and the kept digest part do. -/
theorem Deployment.claimedBy_inj (d : Deployment Proc Cipher Token) {p q : Proc} {f g : Text}
    (hf : claimOwnerTokenLen ≤ f.length) (hg : claimOwnerTokenLen ≤ g.length)
    (h : d.claimedBy p f = d.claimedBy q g) :
    p = q ∧ f.take claimOwnerTokenLen = g.take claimOwnerTokenLen := by
  have short : ∀ r, (d.processSuffix r).length ≤ 110 := fun r =>
    le_trans (d.suffix_short r) (by decide)
  obtain ⟨suffixes, owners⟩ := composeClaimedBy_inj (short p) (short q) (d.suffix_plain p)
    (d.suffix_plain q) hf hg h
  exact ⟨d.suffix_inj p q suffixes, owners⟩

/-! ## The invariant -/

/-- The stored token and the records. -/
structure Books (d : Deployment Proc Cipher Token) (row : StoredAccount Cipher)
    (seen : List Text) (used : List Token) : Prop where
  stored : (d.decrypt row.tokens.refresh).isSome
  stored_seen : d.fingerprint row.tokens.refresh ∈ seen
  seen_long : ∀ f ∈ seen, claimOwnerTokenLen ≤ f.length
  seen_inj : ∀ f ∈ seen, ∀ g ∈ seen,
    f.take claimOwnerTokenLen = g.take claimOwnerTokenLen → f = g
  used_seen : ∀ t ∈ used, ∀ c, d.decrypt c = some t → d.fingerprint c ∈ seen
  used_once : used.Nodup

/-- The phases of a permanent failure; none of them writes tokens. -/
def Phase.isFailing : Phase Cipher → Bool
  | .failRead | .failWrite _ _ | .failReread _ => true
  | _ => false

/-- What a task in its critical part knows of the token it read. -/
def TaskOk (d : Deployment Proc Cipher Token) (row : StoredAccount Cipher) (seen : List Text)
    (used : List Token) : ClaimTask Cipher → Prop
  | .exchanging _ c => ∃ t, d.decrypt c = some t ∧ t ∉ used ∧ d.fingerprint c ∈ seen ∧
      (d.decrypt row.tokens.refresh = some t → row.tokens.refresh = c)
  | .persisting _ k phase => Tracks d.toEncryptor k phase ∧
      (∃ t ∈ used, d.decrypt k.exchanged = some t) ∧
      ∃ n, d.decrypt k.rotated.refresh = some n ∧ n ∉ used ∧
        d.fingerprint k.rotated.refresh ∈ seen
  | .failing _ _ phase => phase.isFailing = true
  | .waiting | .polling | .rereading _ | .releasing => True

structure ClaimState.Inv (d : Deployment Proc Cipher Token) (s : ClaimState Proc Cipher Token) :
    Prop where
  books : Books d s.row s.seen s.used
  requested : ∀ p f task, s.tasks p f = some task → f ∈ s.seen
  held : ∀ p f task expiry, s.tasks p f = some task → task.critical = some expiry →
    s.claim = some ⟨d.claimedBy p f, expiry⟩ ∧ s.clock ≤ expiry
  task_ok : ∀ p f task, s.tasks p f = some task → TaskOk d s.row s.seen s.used task
  replaced : ∀ t ∈ s.used, d.decrypt s.row.tokens.refresh = some t →
    ∃ p f expiry k left, s.tasks p f = some (.persisting expiry k (.write k.exchanged left)) ∧
      s.row.tokens.refresh = k.exchanged

variable {d : Deployment Proc Cipher Token} {s : ClaimState Proc Cipher Token}

theorem Books.claimedBy_inj {row : StoredAccount Cipher} {seen : List Text} {used : List Token}
    (books : Books d row seen used) {p q : Proc} {f g : Text} (hf : f ∈ seen) (hg : g ∈ seen)
    (h : d.claimedBy q g = d.claimedBy p f) : q = p ∧ g = f := by
  obtain ⟨hproc, hkept⟩ := d.claimedBy_inj (books.seen_long g hg) (books.seen_long f hf) h
  exact ⟨hproc, books.seen_inj g hg f hf hkept⟩

theorem ClaimState.Inv.critical_unique (inv : s.Inv d) {p q : Proc} {f g : Text}
    {task task' : ClaimTask Cipher} {expiry expiry' : Int} (hp : s.tasks p f = some task)
    (hcrit : task.critical = some expiry) (hq : s.tasks q g = some task')
    (hcrit' : task'.critical = some expiry') : q = p ∧ g = f := by
  have same : d.claimedBy q g = d.claimedBy p f := by
    have hclaim := (inv.held p f task expiry hp hcrit).1
    rw [(inv.held q g task' expiry' hq hcrit').1] at hclaim
    exact congrArg Lease.owner (Option.some.inj hclaim)
  exact inv.books.claimedBy_inj (inv.requested p f task hp) (inv.requested q g task' hq) same

/-- Whether the task may replace the stored token. -/
def ClaimTask.writes : ClaimTask Cipher → Bool
  | .persisting _ _ _ => true
  | .waiting | .polling | .rereading _ | .exchanging _ _ | .failing _ _ _ | .releasing => false

theorem ClaimTask.writes_false {task : ClaimTask Cipher}
    (other : ∀ expiry k phase, task ≠ .persisting expiry k phase) : task.writes = false := by
  cases task with
  | persisting expiry k phase => exact absurd rfl (other expiry k phase)
  | waiting | polling | rereading _ | exchanging _ _ | failing _ _ _ | releasing => rfl

/-- A task that is not critical says nothing about tokens. -/
theorem taskOk_of_idle {row : StoredAccount Cipher} {seen : List Text} {used : List Token}
    {task : ClaimTask Cipher} (idle : task.critical = none) : TaskOk d row seen used task := by
  cases task with
  | waiting | polling | releasing => trivial
  | rereading _ | exchanging _ _ | persisting _ _ _ | failing _ _ _ => cases idle

/-- In the presence of a critical task that is not about to replace it, the stored token is
unused. -/
theorem ClaimState.Inv.stored_unused (inv : s.Inv d) {p : Proc} {f : Text}
    {task : ClaimTask Cipher} {expiry : Int} (hp : s.tasks p f = some task)
    (hcrit : task.critical = some expiry) (idle : task.writes = false) {t : Token}
    (ht : d.decrypt s.row.tokens.refresh = some t) : t ∉ s.used := by
  intro hused
  obtain ⟨q, g, expiry', k, left, hq, -⟩ := inv.replaced t hused ht
  obtain ⟨rfl, rfl⟩ := inv.critical_unique hp hcrit hq rfl
  rw [hp] at hq
  cases hq
  cases idle

/-! ## Records -/

/-- A token whose digest was not seen is none of the used ones. -/
theorem Books.fresh_unused {row : StoredAccount Cipher} {seen : List Text} {used : List Token}
    (books : Books d row seen used) {c : Cipher} {n : Token} (hn : d.decrypt c = some n)
    (fresh : d.fingerprint c ∉ seen) : n ∉ used :=
  fun hused => fresh (books.used_seen n hused c hn)

theorem Fresh.not_seen {seen : List Text} {c : Cipher} (fresh : Fresh d seen c) :
    d.fingerprint c ∉ seen :=
  fun hseen => fresh.2 _ hseen rfl

/-- The account gets a new token; the records remember it. -/
theorem Books.issue {row : StoredAccount Cipher} {seen : List Text} {used : List Token}
    (books : Books d row seen used) {c : Cipher} (fresh : Fresh d seen c) :
    Books d row (d.fingerprint c :: seen) used := by
  have apart : ∀ f ∈ seen, f.take claimOwnerTokenLen ≠ (d.fingerprint c).take claimOwnerTokenLen :=
    fresh.2
  refine ⟨books.stored, List.mem_cons_of_mem _ books.stored_seen, ?_, ?_, ?_, books.used_once⟩
  · intro f hf
    rcases List.mem_cons.mp hf with rfl | hf
    · exact d.fingerprint_long c
    · exact books.seen_long f hf
  · intro f hf g hg same
    rcases List.mem_cons.mp hf with rfl | hf <;> rcases List.mem_cons.mp hg with rfl | hg
    · rfl
    · exact absurd same.symm (apart g hg)
    · exact absurd same (apart f hf)
    · exact books.seen_inj f hf g hg same
  · intro t ht c' hc'
    exact List.mem_cons_of_mem _ (books.used_seen t ht c' hc')

theorem Books.spend {row : StoredAccount Cipher} {seen : List Text} {used : List Token}
    (books : Books d row seen used) {c : Cipher} {t : Token} (ht : d.decrypt c = some t)
    (hseen : d.fingerprint c ∈ seen) (unused : t ∉ used) : Books d row seen (t :: used) := by
  refine ⟨books.stored, books.stored_seen, books.seen_long, books.seen_inj, ?_,
    List.nodup_cons.mpr ⟨unused, books.used_once⟩⟩
  intro t' ht' c' hc'
  rcases List.mem_cons.mp ht' with rfl | ht'
  · rw [(d.fingerprint_eq c c' t' ht).mpr hc']
    exact hseen
  · exact books.used_seen t' ht' c' hc'

/-! ## Steps -/

/-- Writes that leave the stored ciphertext alone. -/
theorem ClaimState.Inv.withRow (inv : s.Inv d) {row : StoredAccount Cipher}
    (same : row.tokens.refresh = s.row.tokens.refresh) : { s with row := row }.Inv d := by
  constructor
  · have books := inv.books
    exact ⟨by rw [same]; exact books.stored, by rw [same]; exact books.stored_seen,
      books.seen_long, books.seen_inj, books.used_seen, books.used_once⟩
  · exact inv.requested
  · exact inv.held
  · intro q g task h
    have before := inv.task_ok q g task h
    cases task with
    | exchanging expiry c =>
      obtain ⟨t, ht, unused, hseen, reading⟩ := before
      exact ⟨t, ht, unused, hseen, by rw [same]; exact reading⟩
    | waiting | polling | rereading _ | persisting _ _ _ | failing _ _ _ | releasing => exact before
  · intro t hused hstored
    simp only [same] at hstored ⊢
    exact inv.replaced t hused hstored

/-- A re-authentication with a token that was not issued before. -/
theorem ClaimState.Inv.reauthenticate (inv : s.Inv d) {row : StoredAccount Cipher}
    (fresh : Fresh d s.seen row.tokens.refresh) :
    { s with
      row := row
      seen := d.fingerprint row.tokens.refresh :: s.seen }.Inv d := by
  have issued := inv.books.issue fresh
  constructor
  · exact ⟨fresh.1, List.mem_cons_self, issued.seen_long, issued.seen_inj, issued.used_seen,
      issued.used_once⟩
  · intro q g task h
    exact List.mem_cons_of_mem _ (inv.requested q g task h)
  · exact inv.held
  · intro q g task h
    have before := inv.task_ok q g task h
    cases task with
    | exchanging expiry c =>
      obtain ⟨t, ht, unused, hseen, -⟩ := before
      refine ⟨t, ht, unused, List.mem_cons_of_mem _ hseen, fun again => ?_⟩
      -- the token being exchanged was seen, the new one was not
      have same := (d.fingerprint_eq c row.tokens.refresh t ht).mpr again
      exact absurd (same ▸ hseen) fresh.not_seen
    | persisting expiry k phase =>
      obtain ⟨tracks, spent, n, hn, unused, hseen⟩ := before
      exact ⟨tracks, spent, n, hn, unused, List.mem_cons_of_mem _ hseen⟩
    | waiting | polling | rereading _ | failing _ _ _ | releasing => exact before
  · intro t hused hstored
    exact absurd hused (inv.books.fresh_unused hstored fresh.not_seen)

section Steps

variable [DecidableEq Proc]

theorem ClaimState.setTask_cases {p q : Proc} {f g : Text} {next : Option (ClaimTask Cipher)}
    {task : ClaimTask Cipher} (h : (s.setTask p f next).tasks q g = some task) :
    (q = p ∧ g = f ∧ next = some task) ∨ (¬ (q = p ∧ g = f) ∧ s.tasks q g = some task) := by
  simp only [ClaimState.setTask] at h
  split_ifs at h with here
  · exact .inl ⟨here.1, here.2, h⟩
  · exact .inr ⟨here, h⟩

omit [DecidableEq Proc] in
/-- Beside a critical task no other one is critical. -/
theorem ClaimState.Inv.others_idle (inv : s.Inv d) {p q : Proc} {f g : Text}
    {task task' : ClaimTask Cipher} {expiry : Int} (hp : s.tasks p f = some task)
    (hcrit : task.critical = some expiry) (there : ¬ (q = p ∧ g = f))
    (hq : s.tasks q g = some task') : task'.critical = none := by
  rw [Option.eq_none_iff_forall_ne_some]
  intro expiry' hcrit'
  exact there (inv.critical_unique hp hcrit hq hcrit')

/-- One task changes, and with it perhaps the claim. -/
theorem ClaimState.Inv.setTask (inv : s.Inv d) {p : Proc} {f : Text}
    {next : Option (ClaimTask Cipher)} {claim : Option (Lease Text Int)}
    (ok : ∀ task, next = some task → f ∈ s.seen ∧ TaskOk d s.row s.seen s.used task)
    (holds : ∀ task expiry, next = some task → task.critical = some expiry →
      claim = some ⟨d.claimedBy p f, expiry⟩ ∧ s.clock ≤ expiry)
    (others : ∀ q g task expiry, ¬ (q = p ∧ g = f) → s.tasks q g = some task →
      task.critical = some expiry → claim = s.claim)
    (kept : ∀ expiry k left, s.tasks p f = some (.persisting expiry k (.write k.exchanged left)) →
      ∀ t ∈ s.used, d.decrypt s.row.tokens.refresh ≠ some t) :
    ({ s with claim := claim }.setTask p f next).Inv d := by
  have cases_task : ∀ q g task, ({ s with claim := claim }.setTask p f next).tasks q g = some task →
      (q = p ∧ g = f ∧ next = some task) ∨ (¬ (q = p ∧ g = f) ∧ s.tasks q g = some task) :=
    fun _ _ _ h => ClaimState.setTask_cases h
  constructor
  · exact inv.books
  · intro q g task h
    rcases cases_task q g task h with ⟨rfl, rfl, hnext⟩ | ⟨-, hold⟩
    · exact (ok task hnext).1
    · exact inv.requested q g task hold
  · intro q g task expiry h hcrit
    rcases cases_task q g task h with ⟨rfl, rfl, hnext⟩ | ⟨there, hold⟩
    · exact holds task expiry hnext hcrit
    · have before := inv.held q g task expiry hold hcrit
      exact ⟨(others q g task expiry there hold hcrit).trans before.1, before.2⟩
  · intro q g task h
    rcases cases_task q g task h with ⟨rfl, rfl, hnext⟩ | ⟨-, hold⟩
    · exact (ok task hnext).2
    · exact inv.task_ok q g task hold
  · intro t hused hstored
    obtain ⟨q, g, expiry, k, left, hq, same⟩ := inv.replaced t hused hstored
    refine ⟨q, g, expiry, k, left, ?_, same⟩
    have there : ¬ (q = p ∧ g = f) := by
      rintro ⟨rfl, rfl⟩
      exact kept expiry k left hq t hused hstored
    simp only [ClaimState.setTask, there, if_false]
    exact hq

/-- A task that may not write changes, and with it perhaps the claim. -/
theorem ClaimState.Inv.setIdle (inv : s.Inv d) {p : Proc} {f : Text} {task : ClaimTask Cipher}
    (hp : s.tasks p f = some task) (idle : task.writes = false)
    {next : Option (ClaimTask Cipher)} {claim : Option (Lease Text Int)}
    (ok : ∀ task', next = some task' → TaskOk d s.row s.seen s.used task')
    (holds : ∀ task' expiry, next = some task' → task'.critical = some expiry →
      claim = some ⟨d.claimedBy p f, expiry⟩ ∧ s.clock ≤ expiry)
    (others : ∀ q g task' expiry, ¬ (q = p ∧ g = f) → s.tasks q g = some task' →
      task'.critical = some expiry → claim = s.claim) :
    ({ s with claim := claim }.setTask p f next).Inv d := by
  refine inv.setTask (fun task' hnext => ?_) holds others fun expiry k left h => ?_
  · exact ⟨inv.requested p f task hp, ok task' hnext⟩
  · rw [hp] at h
    cases h
    cases idle

/-- A task that may not write leaves its critical part, or the system. -/
theorem ClaimState.Inv.leave (inv : s.Inv d) {p : Proc} {f : Text} {task : ClaimTask Cipher}
    (hp : s.tasks p f = some task) (idle : task.writes = false)
    {next : Option (ClaimTask Cipher)} (out : ∀ task', next = some task' → task'.critical = none) :
    (s.setTask p f next).Inv d := by
  refine inv.setIdle hp idle ?_ ?_ fun _ _ _ _ _ _ _ => rfl
  · intro task' hnext
    exact taskOk_of_idle (out task' hnext)
  · intro task' expiry hnext hcrit
    rw [out task' hnext] at hcrit
    cases hcrit

theorem ClaimState.Inv.acquire (inv : s.Inv d) {p : Proc} {f : Text} {now : Int} {ttl : Nat}
    (hp : s.tasks p f = some .waiting) (past : now ≤ s.clock) :
    ({ s with claim := (upsert s.claim (d.claimedBy p f) now (s.clock + ttl)).1 }.setTask p f
      (some (if (upsert s.claim (d.claimedBy p f) now (s.clock + ttl)).2
        then .rereading (s.clock + ttl) else .polling))).Inv d := by
  have hf := inv.requested p f _ hp
  rcases upsert_cases s.claim (d.claimedBy p f) now (s.clock + ttl) with ⟨missed, -⟩ | ⟨won, free⟩
  · rw [missed]
    refine inv.leave hp rfl ?_
    rintro task' ⟨⟩
    rfl
  · rw [won]
    refine inv.setIdle hp rfl ?_ ?_ ?_
    · rintro task ⟨⟩
      trivial
    · rintro task expiry ⟨⟩ ⟨⟩
      exact ⟨rfl, by omega⟩
    · intro q g task expiry there hq hcrit
      -- nobody else is critical: the claim would be live and not ours
      obtain ⟨hclaim, live⟩ := inv.held q g task expiry hq hcrit
      rcases free _ hclaim with expired | same
      · have : expiry < now := expired
        omega
      · exact absurd (inv.books.claimedBy_inj hf (inv.requested q g task hq) same) there

theorem ClaimState.Inv.reread (inv : s.Inv d) {p : Proc} {f : Text} {expiry : Int}
    (hp : s.tasks p f = some (.rereading expiry)) (outOfBudget : Bool) [DecidableEq Cipher]
    [DecidableEq Token] :
    (s.setTask p f (some (afterReread d s.row f expiry outOfBudget))).Inv d := by
  simp only [afterReread]
  split_ifs with rotated stop
  · refine inv.leave hp rfl ?_
    rintro task' ⟨⟩
    rfl
  · refine inv.leave hp rfl ?_
    rintro task' ⟨⟩
    rfl
  · obtain ⟨t, ht⟩ := Option.isSome_iff_exists.mp inv.books.stored
    refine inv.setIdle hp rfl ?_ ?_ fun _ _ _ _ _ _ _ => rfl
    · rintro task ⟨⟩
      exact ⟨t, ht, inv.stored_unused hp rfl rfl ht,
        inv.books.stored_seen, fun _ => rfl⟩
    · rintro task expiry' ⟨⟩ ⟨⟩
      exact inv.held p f _ _ hp rfl

theorem ClaimState.Inv.reject (inv : s.Inv d) {p : Proc} {f : Text} {expiry : Int} {c : Cipher}
    (hp : s.tasks p f = some (.exchanging expiry c)) (k : Attempt Cipher) :
    (s.setTask p f (some (.failing expiry k .failRead))).Inv d := by
  refine inv.setIdle hp rfl ?_ ?_ fun _ _ _ _ _ _ _ => rfl
  · rintro task ⟨⟩
    rfl
  · rintro task expiry' ⟨⟩ ⟨⟩
    exact inv.held p f _ _ hp rfl

theorem ClaimState.Inv.release (inv : s.Inv d) {p : Proc} {f : Text}
    (hp : s.tasks p f = some .releasing) :
    ({ s with claim := discard s.claim (d.claimedBy p f) }.setTask p f none).Inv d := by
  refine inv.setIdle hp rfl ?_ ?_ fun q g task expiry there hq hcrit => ?_
  · rintro task ⟨⟩
  · rintro task expiry ⟨⟩
  · rw [(inv.held q g task expiry hq hcrit).1]
    refine discard_other fun same => there ?_
    exact inv.books.claimedBy_inj (inv.requested p f _ hp) (inv.requested q g task hq) same

theorem ClaimState.Inv.succeed (inv : s.Inv d) {p : Proc} {f : Text} {expiry : Int}
    {k : Attempt Cipher} {t : Token} (hp : s.tasks p f = some (.exchanging expiry k.exchanged))
    (ht : d.decrypt k.exchanged = some t) (fresh : Fresh d s.seen k.rotated.refresh) :
    ({ s with
      seen := d.fingerprint k.rotated.refresh :: s.seen
      used := t :: s.used }.setTask p f (some (.persisting expiry k (persistStart k)))).Inv d := by
  obtain ⟨t', ht', unused, hseen, reading⟩ := inv.task_ok p f _ hp
  obtain rfl : t' = t := Option.some.inj (ht'.symm.trans ht)
  have cases_task : ∀ q g task, ({ s with
      seen := d.fingerprint k.rotated.refresh :: s.seen
      used := t' :: s.used }.setTask p f (some (.persisting expiry k (persistStart k)))).tasks q g =
        some task →
      (q = p ∧ g = f ∧ task = .persisting expiry k (persistStart k)) ∨
        (s.tasks q g = some task ∧ task.critical = none) := by
    intro q g task h
    rcases ClaimState.setTask_cases h with ⟨rfl, rfl, hnext⟩ | ⟨there, hold⟩
    · exact .inl ⟨rfl, rfl, (Option.some.inj hnext).symm⟩
    · exact .inr ⟨hold, inv.others_idle hp rfl there hold⟩
  constructor
  · exact (inv.books.spend ht hseen unused).issue fresh
  · intro q g task h
    rcases cases_task q g task h with ⟨rfl, rfl, -⟩ | ⟨hold, -⟩
    · exact List.mem_cons_of_mem _ (inv.requested _ _ _ hp)
    · exact List.mem_cons_of_mem _ (inv.requested q g task hold)
  · intro q g task expiry' h hcrit
    rcases cases_task q g task h with ⟨rfl, rfl, rfl⟩ | ⟨-, idle⟩
    · cases hcrit
      exact inv.held _ _ _ _ hp rfl
    · rw [idle] at hcrit
      cases hcrit
  · intro q g task h
    rcases cases_task q g task h with ⟨rfl, rfl, rfl⟩ | ⟨-, idle⟩
    · obtain ⟨n, hn⟩ := Option.isSome_iff_exists.mp fresh.1
      have spent := inv.books.spend ht hseen unused
      exact ⟨persistStart_tracks _ k, ⟨t', List.mem_cons_self, ht⟩, n, hn,
        spent.fresh_unused hn fresh.not_seen, List.mem_cons_self⟩
    · exact taskOk_of_idle idle
  · intro u hu hstored
    rcases List.mem_cons.mp hu with rfl | hu
    · refine ⟨p, f, expiry, k, tokenCasMaxAttempts - 1, ?_, reading hstored⟩
      simp only [ClaimState.setTask, and_self, if_true]
      rfl
    · exact absurd hu (inv.stored_unused hp rfl rfl hstored)

variable [DecidableEq Cipher] [DecidableEq Token]

omit [DecidableEq Proc] in
theorem advance_failing {k : Attempt Cipher} {phase : Phase Cipher} (failing : phase.isFailing = true)
    (late : Bool) (row : StoredAccount Cipher) :
    ((advance d.toEncryptor k late phase (some row)).1.isFinished = false →
      (advance d.toEncryptor k late phase (some row)).1.isFailing = true) ∧
      ((advance d.toEncryptor k late phase (some row)).2.getD row).tokens = row.tokens := by
  constructor
  · cases phase with
    | failRead =>
      simp only [advance]
      split_ifs <;> simp [Phase.isFailing, Phase.isFinished]
    | failWrite latest left =>
      simp only [advance]
      split_ifs <;> simp [Phase.isFailing, Phase.isFinished]
    | failReread left =>
      simp only [advance]
      split_ifs
      · simp [Phase.isFinished]
      · dsimp only
        split <;> simp [Phase.isFailing, Phase.isFinished]
    | write _ _ | reread _ | finalWrite _ _ | finalReread _ | flagRead _ | flagWrite _ _
    | finished _ => cases failing
  · rcases advance_row d.toEncryptor k late phase (some row) with
      same | ⟨a, a', ha, -, written, htokens⟩
    · rw [same]
      rfl
    · cases ha
      rw [written, Option.getD_some, htokens]
      cases phase <;> first | rfl | cases failing

/-- Handling a permanent failure never touches the tokens. -/
theorem ClaimState.Inv.fail (inv : s.Inv d) {p : Proc} {f : Text} {expiry : Int}
    {k : Attempt Cipher} {phase : Phase Cipher} (hp : s.tasks p f = some (.failing expiry k phase))
    (late : Bool) :
    ({ s with row := (advance d.toEncryptor k late phase (some s.row)).2.getD s.row }.setTask p f
      (some (if (advance d.toEncryptor k late phase (some s.row)).1.isFinished then .releasing
        else .failing expiry k (advance d.toEncryptor k late phase (some s.row)).1))).Inv d := by
  obtain ⟨next, tokens⟩ := advance_failing (d := d) (k := k) (inv.task_ok p f _ hp) late s.row
  have inv' := inv.withRow (congrArg Tokens.refresh tokens)
  split_ifs with done
  · refine inv'.leave hp rfl ?_
    rintro task' ⟨⟩
    rfl
  · refine inv'.setIdle hp rfl ?_ ?_ fun _ _ _ _ _ _ _ => rfl
    · rintro task ⟨⟩
      exact next (Bool.eq_false_iff.mpr done)
    · rintro task expiry' ⟨⟩ ⟨⟩
      exact inv.held p f _ _ hp rfl

omit [DecidableEq Cipher] [DecidableEq Token] in
/-- The stored token is the one just exchanged: the write lands. -/
theorem ClaimState.Inv.persist_lands (inv : s.Inv d) {p : Proc} {f : Text} {expiry : Int}
    {k : Attempt Cipher} {phase : Phase Cipher}
    (hp : s.tasks p f = some (.persisting expiry k phase)) :
    ({ s with row := { s.row with tokens := k.rotated } }.setTask p f (some .releasing)).Inv d := by
  obtain ⟨-, -, n, hn, unused, hseen⟩ := inv.task_ok p f _ hp
  have cases_task : ∀ q g task, ({ s with
      row := { s.row with tokens := k.rotated } }.setTask p f (some .releasing)).tasks q g =
        some task → task.critical = none ∧ g ∈ s.seen := by
    intro q g task h
    rcases ClaimState.setTask_cases h with ⟨rfl, rfl, hnext⟩ | ⟨there, hold⟩
    · cases hnext
      exact ⟨rfl, inv.requested _ _ _ hp⟩
    · exact ⟨inv.others_idle hp rfl there hold, inv.requested q g task hold⟩
  have books := inv.books
  constructor
  · exact ⟨Option.isSome_iff_exists.mpr ⟨n, hn⟩, hseen, books.seen_long, books.seen_inj,
      books.used_seen, books.used_once⟩
  · exact fun q g task h => (cases_task q g task h).2
  · intro q g task expiry' h hcrit
    rw [(cases_task q g task h).1] at hcrit
    cases hcrit
  · exact fun q g task h => taskOk_of_idle (cases_task q g task h).1
  · intro t hused hstored
    obtain rfl : n = t := Option.some.inj (hn.symm.trans hstored)
    exact absurd hused unused

theorem ClaimState.Inv.persist (inv : s.Inv d) {p : Proc} {f : Text} {expiry : Int}
    {k : Attempt Cipher} {phase : Phase Cipher}
    (hp : s.tasks p f = some (.persisting expiry k phase)) (late : Bool) :
    ({ s with row := (advance d.toEncryptor k late phase (some s.row)).2.getD s.row }.setTask p f
      (some (if (advance d.toEncryptor k late phase (some s.row)).1.isFinished then .releasing
        else .persisting expiry k (advance d.toEncryptor k late phase (some s.row)).1))).Inv d := by
  obtain ⟨tracks, ⟨t, hused, ht⟩, n, hn, unused, hseen⟩ := inv.task_ok p f _ hp
  obtain ⟨u, hu⟩ := Option.isSome_iff_exists.mp inv.books.stored
  by_cases spent : u ∈ s.used
  · obtain ⟨q, g, expiry', k', left, hq, same⟩ := inv.replaced u spent hu
    obtain ⟨rfl, rfl⟩ := inv.critical_unique hp rfl hq rfl
    rw [hp] at hq
    cases hq
    have lands : advance d.toEncryptor k late (.write k.exchanged left) (some s.row) =
        (.finished .persisted, some { s.row with tokens := k.rotated }) := by
      simp [advance, rotateTokens, same]
    rw [lands]
    exact inv.persist_lands hp
  · have other : u ≠ t := fun same => spent (same ▸ hused)
    have tracks' := advance_tracks ht (some s.row) late phase
    rw [advance_other ht tracks hu other late] at tracks' ⊢
    refine inv.setTask ?_ ?_ (fun _ _ _ _ _ _ _ => rfl) ?_
    · intro task hnext
      refine ⟨inv.requested p f _ hp, ?_⟩
      dsimp only at hnext
      split_ifs at hnext
      · cases hnext
        trivial
      · cases hnext
        exact ⟨tracks', ⟨t, hused, ht⟩, n, hn, unused, hseen⟩
    · intro task expiry' hnext hcrit
      dsimp only at hnext
      split_ifs at hnext
      · cases hnext
        cases hcrit
      · cases hnext
        cases hcrit
        exact inv.held p f _ _ hp rfl
    · rintro - - - - v hv hstored
      obtain rfl : u = v := Option.some.inj (hu.symm.trans hstored)
      exact spent hv

/-! ## Runs -/

/-- No task is in its critical part later than the expiry its claim stored. -/
def WithinTtl (s : ClaimState Proc Cipher Token) : ClaimAct Proc Cipher → Prop
  | .tick now => ∀ p f task expiry, s.tasks p f = some task → task.critical = some expiry →
      now ≤ expiry
  | _ => True

/-- No task runs and nothing was exchanged yet; a claim may be left over. -/
structure Idle (d : Deployment Proc Cipher Token) (s : ClaimState Proc Cipher Token) : Prop where
  books : Books d s.row s.seen s.used
  tasks : ∀ p f, s.tasks p f = none
  used : s.used = []

theorem ClaimState.Inv.step (inv : s.Inv d) {act : ClaimAct Proc Cipher} (within : WithinTtl s act)
    {s' : ClaimState Proc Cipher Token} (h : claimStep d s act = some s') : s'.Inv d := by
  cases act with
  | start p f =>
    simp only [claimStep, Option.ite_none_right_eq_some, Option.some.injEq] at h
    obtain ⟨⟨hf, hnone⟩, rfl⟩ := h
    rw [Option.isNone_iff_eq_none] at hnone
    refine inv.setTask ?_ ?_ (fun _ _ _ _ _ _ _ => rfl) fun _ k left h => ?_
    · rintro task ⟨⟩
      exact ⟨hf, trivial⟩
    · rintro task expiry ⟨⟩ ⟨⟩
    · rw [hnone] at h
      cases h
  | acquire p f now ttl =>
    simp only [claimStep] at h
    split at h
    · rename_i hp
      simp only [Option.ite_none_right_eq_some, Option.some.injEq] at h
      obtain ⟨past, rfl⟩ := h
      exact inv.acquire hp past
    · cases h
  | poll p f =>
    simp only [claimStep] at h
    split at h
    · rename_i hp
      cases h
      refine inv.leave hp rfl ?_
      intro task' hnext
      split_ifs at hnext
      cases hnext
      rfl
    · cases h
  | reread p f outOfBudget =>
    simp only [claimStep] at h
    split at h
    · rename_i expiry hp
      cases h
      exact inv.reread hp outOfBudget
    · cases h
  | succeed p f k =>
    simp only [claimStep] at h
    split at h
    · rename_i expiry c hp
      split at h
      · rename_i t ht
        simp only [Option.ite_none_right_eq_some, Option.some.injEq] at h
        obtain ⟨⟨rfl, fresh⟩, rfl⟩ := h
        exact inv.succeed hp ht fresh
      · cases h
    · cases h
  | reject p f k =>
    simp only [claimStep] at h
    split at h
    · rename_i expiry c hp
      simp only [Option.ite_none_right_eq_some, Option.some.injEq] at h
      obtain ⟨-, rfl⟩ := h
      exact inv.reject hp k
    · cases h
  | transient p f =>
    simp only [claimStep] at h
    split at h
    · rename_i expiry c hp
      cases h
      refine inv.leave hp rfl ?_
      rintro task' ⟨⟩
      rfl
    · cases h
  | persist p f late =>
    simp only [claimStep] at h
    split at h
    · rename_i expiry k phase hp
      cases h
      exact inv.persist hp late
    · rename_i expiry k phase hp
      cases h
      exact inv.fail hp late
    · cases h
  | release p f =>
    simp only [claimStep] at h
    split at h
    · rename_i hp
      cases h
      exact inv.release hp
    · cases h
  | drop p f =>
    simp only [claimStep] at h
    split at h
    · cases h
    · cases h
    · rename_i task idle hp
      cases h
      refine inv.leave hp (ClaimTask.writes_false idle) ?_
      rintro task' ⟨⟩
  | store row =>
    simp only [claimStep] at h
    split_ifs at h with same fresh
    · cases h
      exact inv.withRow same
    · cases h
      exact inv.reauthenticate fresh
  | tick now =>
    simp only [claimStep, Option.ite_none_right_eq_some, Option.some.injEq] at h
    obtain ⟨-, rfl⟩ := h
    refine ⟨inv.books, inv.requested, ?_, inv.task_ok, inv.replaced⟩
    intro p f task expiry hp hcrit
    exact ⟨(inv.held p f task expiry hp hcrit).1, within p f task expiry hp hcrit⟩

omit [DecidableEq Proc] [DecidableEq Cipher] [DecidableEq Token] in
theorem Idle.inv (idle : Idle d s) : s.Inv d := by
  refine ⟨idle.books, ?_, ?_, ?_, ?_⟩
  · intro p f task h
    rw [idle.tasks] at h
    cases h
  · intro p f task expiry h
    rw [idle.tasks] at h
    cases h
  · intro p f task h
    rw [idle.tasks] at h
    cases h
  · intro t ht
    rw [idle.used] at ht
    cases ht

theorem ClaimState.Inv.of_reachable (h : Reachable (claimStep d) WithinTtl (Idle d) s) :
    s.Inv d :=
  h.invariant (fun _ idle => idle.inv) fun _ _ _ inv within hstep => inv.step within hstep

/-- Every successful exchange was of another token, and no task is about to send one of them. -/
theorem token_exchanged_once (h : Reachable (claimStep d) WithinTtl (Idle d) s) :
    s.used.Nodup ∧ ∀ p f expiry c, s.tasks p f = some (.exchanging expiry c) →
      ∀ t ∈ s.used, d.decrypt c ≠ some t := by
  have inv := ClaimState.Inv.of_reachable h
  refine ⟨inv.books.used_once, ?_⟩
  intro p f expiry c hp t hused ht
  obtain ⟨t', ht', unused, -⟩ := inv.task_ok p f _ hp
  obtain rfl : t' = t := Option.some.inj (ht'.symm.trans ht)
  exact unused hused

end Steps

/-! ## Two replicas -/

def twoReplicas : Deployment Bool (ℕ × ℕ) ℕ where
  decrypt c := some c.1
  fingerprint c := List.replicate c.1 'a' ++ List.replicate 16 'b'
  fingerprint_eq := by
    rintro c c' t ⟨⟩
    constructor
    · intro same
      have lengths := congrArg List.length same
      simp only [List.length_append, List.length_replicate, Nat.add_right_cancel_iff] at lengths
      rw [lengths]
    · intro same
      rw [Option.some.inj same]
  instanceId _ := "replica".toList
  processSuffix p := if p then "7-0badcafe".toList else "8-0badcafe".toList
  suffix_inj := by decide
  suffix_plain := by decide
  suffix_short := by decide
  fingerprint_long c := by simp [claimOwnerTokenLen]

def digest (token : ℕ) : Text := twoReplicas.fingerprint (token, 0)

def accountStart : ClaimState Bool (ℕ × ℕ) ℕ where
  row :=
    { tokens := encryptedTokens 1 0
      status := .active
      deactivationReason := none
      resetAt := none
      blockedAt := none }
  claim := none
  clock := 0
  tasks _ _ := none
  seen := [digest 1]
  used := []

def exchangeTo (token new : ℕ) : Attempt (ℕ × ℕ) :=
  { exchanged := (token, 0), rotated := encryptedTokens new 0, code := "", message := "" }

/-- Both replicas refresh token 1; the second one waits, adopts token 2 and refreshes that. -/
def replicasRun : List (ClaimAct Bool (ℕ × ℕ)) :=
  [.start true (digest 1), .start false (digest 1), .acquire true (digest 1) 0 30,
    .acquire false (digest 1) 0 30, .reread true (digest 1) false, .poll false (digest 1),
    .succeed true (digest 1) (exchangeTo 1 2), .persist true (digest 1) false,
    .release true (digest 1), .acquire false (digest 1) 0 30, .reread false (digest 1) false,
    .release false (digest 1), .start false (digest 2), .acquire false (digest 2) 0 30,
    .reread false (digest 2) false, .succeed false (digest 2) (exchangeTo 2 3)]

def replicasEnd : ClaimState Bool (ℕ × ℕ) ℕ :=
  (Runs.replay (claimStep twoReplicas) accountStart replicasRun).getD accountStart

theorem accountStart_idle : Idle twoReplicas accountStart := by
  refine ⟨⟨rfl, List.mem_cons_self, by decide, ?_, nofun, List.nodup_nil⟩, fun _ _ => rfl, rfl⟩
  intro f hf g hg _
  rw [List.mem_singleton.mp hf, List.mem_singleton.mp hg]

theorem replicas_exchange_two_tokens : replicasEnd.used = [2, 1] ∧ replicasEnd.used.Nodup := by
  have run : Reachable (claimStep twoReplicas) WithinTtl (Idle twoReplicas) replicasEnd := by
    refine reachable_of_replay replicasRun accountStart_idle ?_ rfl
    intro s act hact
    -- the clock stands still in this run
    cases act with
    | tick now => simp [replicasRun] at hact
    | _ => trivial
  exact ⟨rfl, (token_exchanged_once run).1⟩

end TokenRefresh
