import Mathlib.Data.Int.Order.Basic
import Mathlib.Algebra.Order.Group.Int
import LivingBalancer.Lib.Runs
import LivingBalancer.Lib.SlidingWindow

/-!
# The login rate limit

`DatabaseRateLimiter.check_and_increment`, whose statements run as one step for a key.
Datetimes count microseconds. The record lists the admitted calls, newest first.
-/

namespace RateLimiting

open Runs SlidingWindow

def microsPerSecond : ℤ := 1000000

structure RateLimitAttempt where
  key : String
  type : String
  attemptedAt : ℤ
  deriving DecidableEq

/-- A constructed limiter; other arguments raise `ValueError`. -/
structure DatabaseRateLimiter where
  maxAttempts : ℕ
  windowSeconds : ℕ
  type : String
  maxAttempts_pos : 0 < maxAttempts
  windowSeconds_pos : 0 < windowSeconds

structure DashboardRateLimitError where
  message : String
  retryAfter : ℤ
  deriving DecidableEq

namespace DatabaseRateLimiter

def window (l : DatabaseRateLimiter) : ℤ := l.windowSeconds * microsPerSecond

/-- The stamps of a key. -/
def attempts (l : DatabaseRateLimiter) (rows : List RateLimitAttempt) (key : String) : List ℤ :=
  (rows.filter fun row => row.key = key ∧ row.type = l.type).map (·.attemptedAt)

/-- `max(1, int((reset_at - now).total_seconds()))`; `int` truncates. -/
def retryAfter (l : DatabaseRateLimiter) (oldest : Option ℤ) (now : ℤ) : ℤ :=
  match oldest with
  | none => l.windowSeconds
  | some oldest => max 1 ((oldest + l.window - now).tdiv microsPerSecond)

def checkAndIncrement (l : DatabaseRateLimiter) (rows : List RateLimitAttempt) (key : String)
    (now : ℤ) : List RateLimitAttempt × Except DashboardRateLimitError Unit :=
  let counted := since (now - l.window) (l.attempts rows key)
  if counted.length < l.maxAttempts then (⟨key, l.type, now⟩ :: rows, .ok ())
  else (rows, .error ⟨"Too many attempts", l.retryAfter counted.min? now⟩)

variable {l : DatabaseRateLimiter} {rows : List RateLimitAttempt} {key : String} {now : ℤ}

theorem attempts_cons_self (now : ℤ) :
    l.attempts (⟨key, l.type, now⟩ :: rows) key = now :: l.attempts rows key := by
  simp [attempts]

theorem attempts_cons_other {key' : String} (other : key' ≠ key) (now : ℤ) :
    l.attempts (⟨key', l.type, now⟩ :: rows) key = l.attempts rows key := by
  simp [attempts, other]

theorem checkAndIncrement_cases (l : DatabaseRateLimiter) (rows : List RateLimitAttempt)
    (key : String) (now : ℤ) :
    (l.checkAndIncrement rows key now = (⟨key, l.type, now⟩ :: rows, .ok ()) ∧
      (since (now - l.window) (l.attempts rows key)).length < l.maxAttempts) ∨
    (l.checkAndIncrement rows key now = (rows, .error ⟨"Too many attempts",
        l.retryAfter (since (now - l.window) (l.attempts rows key)).min? now⟩) ∧
      l.maxAttempts ≤ (since (now - l.window) (l.attempts rows key)).length) := by
  simp only [checkAndIncrement]
  split
  · rename_i room
    exact .inl ⟨rfl, room⟩
  · rename_i full
    exact .inr ⟨rfl, Nat.le_of_not_lt full⟩

theorem admitted_iff : (l.checkAndIncrement rows key now).2 = .ok () ↔
    (since (now - l.window) (l.attempts rows key)).length < l.maxAttempts := by
  rcases l.checkAndIncrement_cases rows key now with ⟨heq, room⟩ | ⟨heq, full⟩
  · simp [heq, room]
  · simp [heq, full]

end DatabaseRateLimiter

/-! ## Calls -/

structure Attempts where
  rows : List RateLimitAttempt
  clock : ℤ
  deriving DecidableEq

structure Call where
  key : String
  now : ℤ
  deriving DecidableEq

def callStep (l : DatabaseRateLimiter) (s : Attempts) (c : Call) : Option Attempts :=
  if s.clock ≤ c.now then some ⟨(l.checkAndIncrement s.rows c.key c.now).1, c.now⟩ else none

def noteAdmitted (l : DatabaseRateLimiter) (s : Attempts) (c : Call) (_ : Attempts)
    (admitted : List Call) : List Call :=
  if (l.checkAndIncrement s.rows c.key c.now).2.isOk then c :: admitted else admitted

/-- When the admitted calls of a key were made. -/
def admittedAt (admitted : List Call) (key : String) : List ℤ :=
  (admitted.filter (·.key = key)).map (·.now)

structure Accounted (l : DatabaseRateLimiter) (s : Attempts) (admitted : List Call) : Prop where
  rows : ∀ key, l.attempts s.rows key = admittedAt admitted key
  past : ∀ key, ∀ t ∈ l.attempts s.rows key, t ≤ s.clock
  sparse : ∀ key, Sparse l.window l.maxAttempts (l.attempts s.rows key)

variable {l : DatabaseRateLimiter} {s s' : Attempts} {admitted : List Call}

theorem Accounted.step (acc : Accounted l s admitted) {c : Call} (step : callStep l s c = some s') :
    Accounted l s' (noteAdmitted l s c s' admitted) := by
  simp only [callStep] at step
  split at step <;> cases step
  rename_i later
  rcases l.checkAndIncrement_cases s.rows c.key c.now with ⟨heq, room⟩ | ⟨heq, -⟩
  · have note : noteAdmitted l s c ⟨(l.checkAndIncrement s.rows c.key c.now).1, c.now⟩ admitted =
        c :: admitted := by
      simp [noteAdmitted, heq, Except.isOk, Except.toBool]
    rw [note, heq]
    constructor
    · intro key
      by_cases same : c.key = key
      · subst same
        rw [DatabaseRateLimiter.attempts_cons_self, acc.rows]
        simp [admittedAt]
      · rw [DatabaseRateLimiter.attempts_cons_other same, acc.rows]
        simp [admittedAt, same]
    · intro key t ht
      by_cases same : c.key = key
      · subst same
        rw [DatabaseRateLimiter.attempts_cons_self] at ht
        rcases List.mem_cons.mp ht with rfl | before
        · exact le_rfl
        · exact (acc.past _ t before).trans later
      · rw [DatabaseRateLimiter.attempts_cons_other same] at ht
        exact (acc.past _ t ht).trans later
    · intro key
      by_cases same : c.key = key
      · subst same
        rw [DatabaseRateLimiter.attempts_cons_self]
        exact (acc.sparse _).cons room
      · rw [DatabaseRateLimiter.attempts_cons_other same]
        exact acc.sparse key
  · have note : noteAdmitted l s c ⟨(l.checkAndIncrement s.rows c.key c.now).1, c.now⟩ admitted =
        admitted := by
      simp [noteAdmitted, heq, Except.isOk, Except.toBool]
    rw [note, heq]
    exact ⟨acc.rows, fun key t ht => (acc.past key t ht).trans later, acc.sparse⟩

/-- No attempt of the limiter's type is stored yet. -/
def Unused (l : DatabaseRateLimiter) (x : Attempts × List Call) : Prop :=
  (∀ key, l.attempts x.1.rows key = []) ∧ x.2 = []

theorem Accounted.of_reachable
    (h : Reachable (recording (callStep l) (noteAdmitted l)) Any (Unused l) (s, admitted)) :
    Accounted l s admitted := by
  refine h.invariant (I := fun x => Accounted l x.1 x.2) ?_ ?_
  · rintro ⟨s, admitted⟩ ⟨empty, hadmitted⟩
    obtain rfl : admitted = [] := hadmitted
    refine ⟨fun key => empty key, fun key t ht => ?_, fun key => ?_⟩
    · rw [empty key] at ht
      cases ht
    · rw [empty key]
      exact .nil _ _
  · intro x c y acc _ hstep
    obtain ⟨hcall, hnote⟩ := recording_eq_some.mp hstep
    rw [hnote]
    exact acc.step hcall

/-! ## Waiting -/

/-- Calls for other keys leave the attempts of a key alone. -/
theorem attempts_of_others {key : String}
    (run : Steps (callStep l) (fun _ c => c.key ≠ key) s s') :
    l.attempts s'.rows key = l.attempts s.rows key := by
  refine run.invariant (I := fun t => l.attempts t.rows key = l.attempts s.rows key) ?_ rfl
  intro t c t' same other step
  simp only [callStep] at step
  split at step <;> cases step
  rcases l.checkAndIncrement_cases t.rows c.key c.now with ⟨heq, -⟩ | ⟨heq, -⟩
  · rw [heq, DatabaseRateLimiter.attempts_cons_other other, same]
  · rw [heq, same]

/-- The wait is the time until the oldest counted attempt leaves the window, cut to whole seconds
but at least one. -/
theorem retryAfter_oldest {stamps : List ℤ} {now : ℤ} (counted : since (now - l.window) stamps ≠ []) :
    ∃ oldest ∈ since (now - l.window) stamps, (∀ t ∈ since (now - l.window) stamps, oldest ≤ t) ∧
      0 ≤ oldest + l.window - now ∧
      l.retryAfter (since (now - l.window) stamps).min? now =
        max 1 ((oldest + l.window - now) / microsPerSecond) := by
  cases hmin : (since (now - l.window) stamps).min? with
  | none => exact absurd (List.min?_eq_none_iff.mp hmin) counted
  | some oldest =>
    obtain ⟨mem, least⟩ := List.min?_eq_some_iff.mp hmin
    have inside := (mem_since.mp mem).2
    have left : 0 ≤ oldest + l.window - now := by omega
    refine ⟨oldest, mem, least, left, ?_⟩
    rw [DatabaseRateLimiter.retryAfter, Int.tdiv_eq_ediv_of_nonneg left]

/-- No window holds more admitted calls than the limit. A rejected call is admitted at any time
from `retry_after` on exactly if an attempt leaves the window in less than a second. -/
theorem admitted_after_retry_iff
    (h : Reachable (recording (callStep l) (noteAdmitted l)) Any (Unused l) (s, admitted)) :
    (∀ key, Sparse l.window l.maxAttempts (admittedAt admitted key)) ∧
    ∀ key now rejection, s.clock ≤ now →
      (l.checkAndIncrement s.rows key now).2 = .error rejection →
      ((∀ s', Steps (callStep l) (fun _ c => c.key ≠ key) ⟨s.rows, now⟩ s' →
          ∀ later, s'.clock ≤ later → now + rejection.retryAfter * microsPerSecond ≤ later →
            (l.checkAndIncrement s'.rows key later).2 = .ok ()) ↔
        ∃ t ∈ since (now - l.window) (l.attempts s.rows key),
          t + l.window - now < microsPerSecond) := by
  have acc := Accounted.of_reachable h
  refine ⟨fun key => acc.rows key ▸ acc.sparse key, fun key now rejection hnow rejected => ?_⟩
  have bounded := (acc.sparse key).since_le fun t ht => (acc.past key t ht).trans hnow
  rcases l.checkAndIncrement_cases s.rows key now with ⟨heq, -⟩ | ⟨heq, full⟩
  · rw [heq] at rejected
    cases rejected
  rw [heq] at rejected
  obtain rfl := Except.error.inj rejected
  have counted : since (now - l.window) (l.attempts s.rows key) ≠ [] := by
    rintro empty
    rw [empty] at full
    exact absurd l.maxAttempts_pos (Nat.not_lt.mpr full)
  obtain ⟨oldest, mem, least, left, wait⟩ := retryAfter_oldest counted
  rw [wait]
  constructor
  · intro admits
    refine ⟨oldest, mem, ?_⟩
    by_contra long
    -- a call after exactly the wait still counts the oldest attempt
    have whole : 1 ≤ (oldest + l.window - now) / microsPerSecond := by
      simp only [microsPerSecond] at long ⊢
      omega
    have soon : now + (oldest + l.window - now) / microsPerSecond * microsPerSecond ≤
        oldest + l.window := by
      simp only [microsPerSecond]
      omega
    have again := admits ⟨s.rows, now⟩ (.refl _)
      (now + (oldest + l.window - now) / microsPerSecond * microsPerSecond)
      (by simp only [microsPerSecond] at whole ⊢; omega) (by rw [max_eq_right whole])
    rw [DatabaseRateLimiter.admitted_iff] at again
    have same : since (now + (oldest + l.window - now) / microsPerSecond * microsPerSecond -
        l.window) (l.attempts s.rows key) = since (now - l.window) (l.attempts s.rows key) := since_eq
      (show now - l.window ≤ now + (oldest + l.window - now) / microsPerSecond * microsPerSecond -
        l.window by simp only [microsPerSecond] at whole ⊢; omega)
      fun t ht => (show _ ≤ oldest by omega).trans (least t ht)
    rw [same] at again
    exact absurd full (Nat.not_le.mpr again)
  · rintro ⟨t, ht, short⟩ s' run later hclock hwait
    have first : oldest ≤ t := least t ht
    have second : (oldest + l.window - now) / microsPerSecond = 0 :=
      Int.ediv_eq_zero_of_lt left (by omega)
    rw [second] at hwait
    have gone : oldest < later - l.window := by
      simp only [microsPerSecond] at short hwait
      omega
    rw [DatabaseRateLimiter.admitted_iff, attempts_of_others run]
    have fewer := length_since_lt mem gone (by
      simp only [microsPerSecond] at hwait
      omega)
    exact lt_of_lt_of_le fewer bounded

/-! ## A wait cut short -/

def oneAMinute : DatabaseRateLimiter where
  maxAttempts := 1
  windowSeconds := 60
  type := "totp"
  maxAttempts_pos := by decide
  windowSeconds_pos := by decide

def noAttempts : Attempts × List Call := (⟨[], 0⟩, [])

def attemptedOnce : Attempts × List Call :=
  (recording (callStep oneAMinute) (noteAdmitted oneAMinute) noAttempts ⟨"ip", 0⟩).getD noAttempts

theorem attemptedOnce_reachable : Reachable (recording (callStep oneAMinute)
    (noteAdmitted oneAMinute)) Any (Unused oneAMinute) (attemptedOnce.1, attemptedOnce.2) :=
  reachable_of_replay [⟨"ip", 0⟩] (⟨fun _ => rfl, rfl⟩ : Unused oneAMinute noAttempts)
    (fun _ _ _ => trivial) rfl

/-- Half a second after the first attempt the answer is to wait 59 seconds; after 59 seconds the
call is rejected again. -/
theorem rejected_after_retry :
    Reachable (recording (callStep oneAMinute) (noteAdmitted oneAMinute)) Any (Unused oneAMinute)
      (attemptedOnce.1, attemptedOnce.2) ∧
    attemptedOnce.1.clock ≤ 500000 ∧
    (oneAMinute.checkAndIncrement attemptedOnce.1.rows "ip" 500000).2 =
      .error ⟨"Too many attempts", 59⟩ ∧
    ¬ ∀ s', Steps (callStep oneAMinute) (fun _ c => c.key ≠ "ip") ⟨attemptedOnce.1.rows, 500000⟩ s' →
      ∀ later, s'.clock ≤ later → 500000 + 59 * microsPerSecond ≤ later →
        (oneAMinute.checkAndIncrement s'.rows "ip" later).2 = .ok () := by
  refine ⟨attemptedOnce_reachable, by decide, by decide, fun admits => ?_⟩
  have again := admits _ (.refl _) 59500000 (by decide) (by decide)
  exact absurd again (by decide)

theorem last_half_second_admits :
    (oneAMinute.checkAndIncrement attemptedOnce.1.rows "ip" 59500000).2 =
      .error ⟨"Too many attempts", 1⟩ ∧
    ∀ s', Steps (callStep oneAMinute) (fun _ c => c.key ≠ "ip")
        ⟨attemptedOnce.1.rows, 59500000⟩ s' →
      ∀ later, s'.clock ≤ later → 59500000 + 1 * microsPerSecond ≤ later →
        (oneAMinute.checkAndIncrement s'.rows "ip" later).2 = .ok () := by
  have rejected : (oneAMinute.checkAndIncrement attemptedOnce.1.rows "ip" 59500000).2 =
      .error ⟨"Too many attempts", 1⟩ := by decide
  refine ⟨rejected, ?_⟩
  exact ((admitted_after_retry_iff attemptedOnce_reachable).2 "ip" 59500000 _ (by decide)
    rejected).mpr ⟨0, by decide, by decide⟩

end RateLimiting
