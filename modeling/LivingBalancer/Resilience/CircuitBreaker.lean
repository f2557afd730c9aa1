import Mathlib.Data.Rat.Lemmas
import LivingBalancer.Lib.Runs
import LivingBalancer.Lib.Streaks

/-!
# The circuit breaker

`CircuitBreaker` with any number of guarded calls outstanding. What a call does under the
lock of the breaker is one step: its admission, the record of its outcome, and the release
of its probe. A reading of the monotonic clock is part of the step. The log lists the
recorded outcomes, newest first.
-/

namespace CircuitBreaking

open Runs Streaks

inductive CircuitState where
  | closed
  | «open»
  | halfOpen
  deriving DecidableEq

/-- The arguments of the constructor. -/
structure BreakerConfig where
  failureThreshold : ℤ := 5
  recoveryTimeoutSeconds : ℤ := 60
  successThreshold : ℤ := 2

structure CircuitBreaker where
  state : CircuitState := .closed
  failureCount : ℕ := 0
  successCount : ℕ := 0
  lastFailureTime : Option ℚ := none
  halfOpenProbeInFlight : Bool := false
  deriving DecidableEq

structure CircuitBreakerOpenError where
  message : String

/-- What `_is_server_error` looks at. -/
inductive CallException where
  | clientResponse (status : ℤ)
  | timeout
  | withStatusCode (statusCode : ℤ)
  | other

def isServerError : CallException → Bool
  | .clientResponse status => decide (500 ≤ status)
  | .timeout => true
  | .withStatusCode statusCode => decide (500 ≤ statusCode)
  | .other => true

namespace CircuitBreaker

/-- The property `state`. -/
def currentState (config : BreakerConfig) (b : CircuitBreaker) (now : ℚ) : CircuitState :=
  match b.lastFailureTime with
  | some failed =>
    if b.state = .open ∧ (config.recoveryTimeoutSeconds : ℚ) ≤ now - failed then .halfOpen
    else b.state
  | none => b.state

/-- The answer is whether the call is a probe. -/
def preCallCheck (config : BreakerConfig) (b : CircuitBreaker) (now : ℚ) :
    Except CircuitBreakerOpenError (CircuitBreaker × Bool) :=
  match b.currentState config now with
  | .open => .error ⟨"Circuit breaker is OPEN"⟩
  | .halfOpen =>
    if b.halfOpenProbeInFlight then
      .error ⟨"Circuit breaker is HALF_OPEN — probe in flight"⟩
    else .ok ({ b with halfOpenProbeInFlight := true }, true)
  | .closed => .ok (b, false)

def releaseHalfOpenProbe (b : CircuitBreaker) : CircuitBreaker :=
  { b with halfOpenProbeInFlight := false }

/-- The second reading of `state` tells only whether the breaker is closed, which no clock changes. -/
def recordSuccess (config : BreakerConfig) (b : CircuitBreaker) (now : ℚ) : CircuitBreaker :=
  match b.currentState config now with
  | .halfOpen =>
    if config.successThreshold ≤ b.successCount + 1 then
      { b with state := .closed, failureCount := 0, successCount := 0 }
    else { b with successCount := b.successCount + 1 }
  | .closed => { b with failureCount := 0 }
  | .open => b

def recordFailure (config : BreakerConfig) (b : CircuitBreaker) (exc : CallException) (now : ℚ) :
    CircuitBreaker :=
  if isServerError exc then
    { b with
      failureCount := b.failureCount + 1
      lastFailureTime := some now
      successCount := 0
      state := if config.failureThreshold ≤ b.failureCount + 1 then .open else b.state }
  else b

end CircuitBreaker

/-! ## Guarded calls -/

/-- A call between its admission and the end of its `finally`. -/
structure GuardedCall where
  probe : Bool
  finished : Bool

structure Guarded where
  breaker : CircuitBreaker
  calls : ℕ → Option GuardedCall
  clock : ℚ

inductive CallAct where
  | enter (n : ℕ) (now : ℚ)
  | succeed (n : ℕ) (now : ℚ)
  | fail (n : ℕ) (exc : CallException) (now : ℚ)
  | cancel (n : ℕ)
  | leave (n : ℕ)

def Guarded.setCall (s : Guarded) (n : ℕ) (call : Option GuardedCall) : Guarded :=
  { s with calls := fun m => if m = n then call else s.calls m }

def Guarded.withBreaker (s : Guarded) (b : CircuitBreaker) (now : ℚ) : Guarded :=
  { s with breaker := b, clock := now }

/-- The call, if it is still awaited. -/
def Guarded.running (s : Guarded) (n : ℕ) : Option GuardedCall :=
  (s.calls n).filter fun call => !call.finished

def callStep (config : BreakerConfig) (s : Guarded) : CallAct → Option Guarded
  | .enter n now =>
    if s.clock ≤ now ∧ (s.calls n).isNone then
      match s.breaker.preCallCheck config now with
      | .ok (b, probe) => some ((s.withBreaker b now).setCall n (some ⟨probe, false⟩))
      | .error _ => some { s with clock := now }
    else none
  | .succeed n now =>
    match s.running n with
    | some call =>
      if s.clock ≤ now then
        some ((s.withBreaker (s.breaker.recordSuccess config now) now).setCall n
          (some ⟨call.probe, true⟩))
      else none
    | none => none
  | .fail n exc now =>
    match s.running n with
    | some call =>
      if s.clock ≤ now then
        some ((s.withBreaker (s.breaker.recordFailure config exc now) now).setCall n
          (some ⟨call.probe, true⟩))
      else none
    | none => none
  | .cancel n =>
    match s.running n with
    | some call => some (s.setCall n (some ⟨call.probe, true⟩))
    | none => none
  | .leave n =>
    match s.calls n with
    | some ⟨true, true⟩ =>
      some ((s.withBreaker s.breaker.releaseHalfOpenProbe s.clock).setCall n none)
    | some ⟨false, true⟩ => some (s.setCall n none)
    | _ => none

/-! ## The log -/

/-- A recorded outcome, with the state it was recorded in and whether the call was a probe. -/
structure Recorded where
  state : CircuitState
  success : Bool
  probe : Bool

def noteOutcome (config : BreakerConfig) (s : Guarded) (act : CallAct) (_ : Guarded)
    (log : List Recorded) : List Recorded :=
  match act with
  | .succeed n now =>
    match s.running n with
    | some call => ⟨s.breaker.currentState config now, true, call.probe⟩ :: log
    | none => log
  | .fail n exc now =>
    match s.running n with
    | some call =>
      if isServerError exc then ⟨s.breaker.currentState config now, false, call.probe⟩ :: log
      else log
    | none => log
  | _ => log

def ClosedFailure (r : Recorded) : Prop := r.state = .closed ∧ r.success = false

def TripSuccess (r : Recorded) : Prop := r.state ≠ .closed ∧ r.success = true

/-- The successes of probes. -/
def probeSuccesses (span : List Recorded) : ℕ :=
  (span.filter fun r => r.state = .halfOpen ∧ r.success ∧ r.probe).length

/-! ## What the recorded outcomes do -/

namespace CircuitBreaker

variable {config : BreakerConfig} {b : CircuitBreaker} {now : ℚ}

theorem currentState_closed : b.currentState config now = .closed ↔ b.state = .closed := by
  simp only [currentState]
  split
  · split
    · rename_i both
      simp [both.1]
    · exact Iff.rfl
  · exact Iff.rfl

theorem currentState_of_closed (closed : b.state = .closed) : b.currentState config now = .closed :=
  currentState_closed.mpr closed

/-- A success counts while the breaker is half-open, and may close it. -/
theorem recordSuccess_cases (stored : b.state ≠ .halfOpen) :
    (b.state = .closed ∧ b.recordSuccess config now = { b with failureCount := 0 }) ∨
    (b.currentState config now = .halfOpen ∧ b.state = .open ∧
      (b.recordSuccess config now = { b with successCount := b.successCount + 1 } ∨
        config.successThreshold ≤ b.successCount + 1 ∧ b.recordSuccess config now =
          { b with state := .closed, failureCount := 0, successCount := 0 })) ∨
    (b.currentState config now = .open ∧ b.state = .open ∧ b.recordSuccess config now = b) := by
  cases hstate : b.currentState config now with
  | closed => exact .inl ⟨currentState_closed.mp hstate, by simp [recordSuccess, hstate]⟩
  | «open» =>
    refine .inr (.inr ⟨rfl, ?_, by simp [recordSuccess, hstate]⟩)
    cases h : b.state with
    | closed => exact absurd ((currentState_of_closed h).symm.trans hstate) (by simp)
    | «open» => rfl
    | halfOpen => exact absurd h stored
  | halfOpen =>
    refine .inr (.inl ⟨rfl, ?_, ?_⟩)
    · cases h : b.state with
      | closed => exact absurd ((currentState_of_closed h).symm.trans hstate) (by simp)
      | «open» => rfl
      | halfOpen => exact absurd h stored
    · by_cases enough : config.successThreshold ≤ b.successCount + 1
      · exact .inr ⟨enough, by simp [recordSuccess, hstate, enough]⟩
      · exact .inl (by simp [recordSuccess, hstate, enough])

@[simp]
theorem recordSuccess_flag :
    (b.recordSuccess config now).halfOpenProbeInFlight = b.halfOpenProbeInFlight := by
  simp only [recordSuccess]
  split
  · split <;> rfl
  · rfl
  · rfl

@[simp]
theorem recordFailure_flag {exc : CallException} :
    (b.recordFailure config exc now).halfOpenProbeInFlight = b.halfOpenProbeInFlight := by
  simp only [recordFailure]
  split <;> rfl

theorem recordFailure_neutral {exc : CallException} (neutral : isServerError exc = false) :
    b.recordFailure config exc now = b := by
  simp [recordFailure, neutral]

theorem recordFailure_server {exc : CallException} (server : isServerError exc = true) :
    b.recordFailure config exc now =
      { b with
        failureCount := b.failureCount + 1
        lastFailureTime := some now
        successCount := 0
        state := if config.failureThreshold ≤ b.failureCount + 1 then .open else b.state } := by
  simp [recordFailure, server]

end CircuitBreaker

theorem Guarded.running_eq_some {s : Guarded} {n : ℕ} {call : GuardedCall} :
    s.running n = some call ↔ s.calls n = some call ∧ call.finished = false := by
  simp only [Guarded.running, Option.filter_eq_some_iff, Bool.not_eq_true']

/-! ## Probe slots -/

/-- At most one probe is outstanding, and its slot is taken. -/
structure OneProbe (s : Guarded) : Prop where
  unique : ∀ n m c d, s.calls n = some c → s.calls m = some d → c.probe = true →
    d.probe = true → n = m
  taken : ∀ n c, s.calls n = some c → c.probe = true → s.breaker.halfOpenProbeInFlight = true

variable {config : BreakerConfig} {s s' : Guarded} {log : List Recorded}

/-- A call that is no new probe, under a breaker with the same slot. -/
theorem OneProbe.setCall (one : OneProbe s) {n : ℕ} {call : Option GuardedCall}
    (same : ∀ c, call = some c → c.probe = true → ∃ d, s.calls n = some d ∧ d.probe = true)
    {b : CircuitBreaker} (flag : b.halfOpenProbeInFlight = s.breaker.halfOpenProbeInFlight)
    (now : ℚ) : OneProbe ((s.withBreaker b now).setCall n call) := by
  have before : ∀ m c, ((s.withBreaker b now).setCall n call).calls m = some c → c.probe = true →
      ∃ d, s.calls m = some d ∧ d.probe = true := by
    intro m c hm probe
    simp only [Guarded.setCall, Guarded.withBreaker] at hm
    split at hm
    · rename_i hmn
      rw [hmn]
      exact same c hm probe
    · exact ⟨c, hm, probe⟩
  constructor
  · intro m m' c c' hm hm' probe probe'
    obtain ⟨d, hd, hprobe⟩ := before m c hm probe
    obtain ⟨d', hd', hprobe'⟩ := before m' c' hm' probe'
    exact one.unique m m' d d' hd hd' hprobe hprobe'
  · intro m c hm probe
    obtain ⟨d, hd, hprobe⟩ := before m c hm probe
    exact flag.trans (one.taken m d hd hprobe)

theorem OneProbe.enter (one : OneProbe s) (free : s.breaker.halfOpenProbeInFlight = false) (n : ℕ)
    (now : ℚ) : OneProbe ((s.withBreaker { s.breaker with halfOpenProbeInFlight := true }
      now).setCall n (some ⟨true, false⟩)) := by
  have none : ∀ m c, s.calls m = some c → c.probe = true → False := fun m c hm probe =>
    absurd ((one.taken m c hm probe).symm.trans free) (by decide)
  have only : ∀ m c, ((s.withBreaker { s.breaker with halfOpenProbeInFlight := true }
      now).setCall n (some ⟨true, false⟩)).calls m = some c → c.probe = true → m = n := by
    intro m c hm probe
    simp only [Guarded.setCall, Guarded.withBreaker] at hm
    split at hm
    · assumption
    · exact (none m c hm probe).elim
  constructor
  · intro m m' c c' hm hm' probe probe'
    rw [only m c hm probe, only m' c' hm' probe']
  · intro _ _ _ _
    rfl

theorem OneProbe.release (one : OneProbe s) {n : ℕ} {call : GuardedCall}
    (hcall : s.calls n = some call) (probe : call.probe = true) (now : ℚ) :
    OneProbe ((s.withBreaker s.breaker.releaseHalfOpenProbe now).setCall n none) := by
  have none : ∀ m c, ((s.withBreaker s.breaker.releaseHalfOpenProbe now).setCall n none).calls m =
      some c → c.probe = true → False := by
    intro m c hm hprobe
    simp only [Guarded.setCall, Guarded.withBreaker] at hm
    split at hm
    · cases hm
    · rename_i other
      exact other (one.unique m n c call hm hcall hprobe probe)
  exact ⟨fun m _ c _ hm _ hprobe _ => (none m c hm hprobe).elim,
    fun m c hm hprobe => (none m c hm hprobe).elim⟩

theorem preCallCheck_ok {b b' : CircuitBreaker} {now : ℚ} {probe : Bool}
    (h : b.preCallCheck config now = .ok (b', probe)) :
    (probe = false ∧ b' = b) ∨ (probe = true ∧ b.halfOpenProbeInFlight = false ∧
      b' = { b with halfOpenProbeInFlight := true }) := by
  simp only [CircuitBreaker.preCallCheck] at h
  split at h
  · cases h
  · split at h
    · cases h
    · rename_i free
      cases h
      exact .inr ⟨rfl, by simpa using free, rfl⟩
  · cases h
    exact .inl ⟨rfl, rfl⟩

theorem OneProbe.step (one : OneProbe s) {act : CallAct} (step : callStep config s act = some s') :
    OneProbe s' := by
  cases act with
  | enter n now =>
    simp only [callStep] at step
    split at step
    · split at step <;> cases step
      · rename_i b probe hcheck
        rcases preCallCheck_ok hcheck with ⟨rfl, rfl⟩ | ⟨rfl, free, rfl⟩
        · refine one.setCall ?_ rfl now
          rintro c ⟨⟩ probe
          cases probe
        · exact one.enter free n now
      · exact ⟨one.unique, one.taken⟩
    · cases step
  | succeed n now =>
    simp only [callStep] at step
    split at step
    · rename_i call hcall
      split at step <;> cases step
      refine one.setCall ?_ CircuitBreaker.recordSuccess_flag now
      rintro c ⟨⟩ probe
      exact ⟨call, (Guarded.running_eq_some.mp hcall).1, probe⟩
    · cases step
  | fail n exc now =>
    simp only [callStep] at step
    split at step
    · rename_i call hcall
      split at step <;> cases step
      refine one.setCall ?_ CircuitBreaker.recordFailure_flag now
      rintro c ⟨⟩ probe
      exact ⟨call, (Guarded.running_eq_some.mp hcall).1, probe⟩
    · cases step
  | cancel n =>
    simp only [callStep] at step
    split at step <;> cases step
    rename_i call hcall
    refine one.setCall (b := s.breaker) ?_ rfl s.clock
    rintro c ⟨⟩ probe
    exact ⟨call, (Guarded.running_eq_some.mp hcall).1, probe⟩
  | leave n =>
    simp only [callStep] at step
    split at step <;> cases step
    · rename_i hcall
      exact one.release hcall rfl s.clock
    · refine one.setCall (b := s.breaker) ?_ rfl s.clock
      rintro c ⟨⟩

end CircuitBreaking
