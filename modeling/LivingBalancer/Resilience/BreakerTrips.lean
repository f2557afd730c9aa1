import LivingBalancer.Resilience.CircuitBreaker

/-!
# Why the breaker trips and closes

The counters of the breaker against the log: its failures in a row while closed, and the
successes since it tripped. Only a half-open breaker counts successes; what it counts is
a probe as long as no call admitted before the trip succeeds then.
-/

namespace CircuitBreaking

open Runs Streaks

variable {config : BreakerConfig}

structure Tally (b : CircuitBreaker) (log : List Recorded) : Prop where
  stored : b.state ≠ .halfOpen
  failures : b.state = .closed →
    ∃ span, Streak ClosedFailure log span ∧ b.failureCount ≤ span.length
  quiet : b.state = .closed → b.successCount = 0
  successes : ∃ span, Streak TripSuccess log span ∧ b.successCount ≤ probeSuccesses span

/-- A trip follows enough failures in a row, all recorded while the breaker was closed. -/
def TripExplained (config : BreakerConfig) (b b' : CircuitBreaker) (log : List Recorded) : Prop :=
  b.state = .closed → b'.state = .open →
    ∃ span, Streak ClosedFailure log span ∧ config.failureThreshold ≤ span.length

/-- A close follows enough successes of probes, with no failure since and none of it recorded
while the breaker was closed. -/
def CloseExplained (config : BreakerConfig) (b b' : CircuitBreaker) (log : List Recorded) : Prop :=
  b.state = .open → b'.state = .closed →
    ∃ span, Streak TripSuccess log span ∧ config.successThreshold ≤ probeSuccesses span

variable {b : CircuitBreaker} {log : List Recorded}

theorem Tally.noSuccesses {b : CircuitBreaker} (zero : b.successCount = 0) (log : List Recorded) :
    ∃ span, Streak TripSuccess log span ∧ b.successCount ≤ probeSuccesses span :=
  ⟨[], .nil _ _, zero.le⟩

theorem probeSuccesses_cons (span : List Recorded) :
    probeSuccesses (⟨.halfOpen, true, true⟩ :: span) = probeSuccesses span + 1 := by
  simp [probeSuccesses]

theorem Tally.success (tally : Tally b log) {now : ℚ} {probe : Bool}
    (probes : b.currentState config now = .halfOpen → probe = true) :
    Tally (b.recordSuccess config now) (⟨b.currentState config now, true, probe⟩ :: log) ∧
      TripExplained config b (b.recordSuccess config now)
        (⟨b.currentState config now, true, probe⟩ :: log) ∧
      CloseExplained config b (b.recordSuccess config now)
        (⟨b.currentState config now, true, probe⟩ :: log) := by
  rcases @CircuitBreaker.recordSuccess_cases config b now tally.stored with
    ⟨closed, heq⟩ | ⟨half, opened, heq⟩ | ⟨idle, opened, heq⟩
  · rw [heq]
    refine ⟨⟨tally.stored, fun _ => ⟨[], .nil _ _, le_rfl⟩, tally.quiet,
      Tally.noSuccesses (tally.quiet closed) _⟩, ?_, ?_⟩
    · intro _ opened
      exact absurd (closed.symm.trans opened) (by simp)
    · intro opened
      exact absurd (closed.symm.trans opened) (by simp)
  · obtain ⟨span, streak, counted⟩ := tally.successes
    rw [half, probes half]
    have more : Streak TripSuccess (⟨.halfOpen, true, true⟩ :: log)
        (⟨.halfOpen, true, true⟩ :: span) := streak.cons ⟨by simp, rfl⟩
    have count := probeSuccesses_cons span
    have apart : b.state = .closed → False := fun closed =>
      absurd (closed.symm.trans opened) (by simp)
    rcases heq with heq | ⟨enough, heq⟩
    · rw [heq]
      refine ⟨⟨tally.stored, fun closed => (apart closed).elim, fun closed => (apart closed).elim,
        _, more, ?_⟩, fun closed => (apart closed).elim, fun _ closed => (apart closed).elim⟩
      show b.successCount + 1 ≤ _
      omega
    · rw [heq]
      refine ⟨⟨by simp, fun _ => ⟨[], .nil _ _, le_rfl⟩, fun _ => rfl, Tally.noSuccesses rfl _⟩,
        fun closed => (apart closed).elim, fun _ _ => ⟨_, more, ?_⟩⟩
      omega
  · -- the breaker is open: the success is not counted
    rw [heq]
    obtain ⟨span, streak, counted⟩ := tally.successes
    have apart : b.state = .closed → False := fun closed =>
      absurd (closed.symm.trans opened) (by simp)
    have more : Streak TripSuccess (⟨.open, true, probe⟩ :: log) (⟨.open, true, probe⟩ :: span) :=
      streak.cons ⟨by simp, rfl⟩
    rw [idle]
    refine ⟨⟨tally.stored, fun closed => (apart closed).elim, fun closed => (apart closed).elim,
      _, more, ?_⟩, fun closed => (apart closed).elim, fun _ closed => (apart closed).elim⟩
    simpa [probeSuccesses] using counted

theorem Tally.failure (tally : Tally b log) {exc : CallException}
    (server : isServerError exc = true) (now : ℚ) (probe : Bool) :
    Tally (b.recordFailure config exc now) (⟨b.currentState config now, false, probe⟩ :: log) ∧
      TripExplained config b (b.recordFailure config exc now)
        (⟨b.currentState config now, false, probe⟩ :: log) ∧
      CloseExplained config b (b.recordFailure config exc now)
        (⟨b.currentState config now, false, probe⟩ :: log) := by
  rw [CircuitBreaker.recordFailure_server server]
  by_cases closed : b.state = .closed
  · obtain ⟨span, streak, counted⟩ := tally.failures closed
    have more : Streak ClosedFailure (⟨b.currentState config now, false, probe⟩ :: log)
        (⟨b.currentState config now, false, probe⟩ :: span) :=
      streak.cons ⟨CircuitBreaker.currentState_of_closed closed, rfl⟩
    have long : b.failureCount + 1 ≤
        (⟨b.currentState config now, false, probe⟩ :: span : List Recorded).length :=
      Nat.succ_le_succ counted
    refine ⟨⟨?_, fun _ => ⟨_, more, long⟩, fun _ => rfl, Tally.noSuccesses rfl _⟩, ?_, ?_⟩
    · show (if _ then _ else _) ≠ _
      split
      · simp
      · exact tally.stored
    · intro _ opened
      refine ⟨_, more, ?_⟩
      -- a breaker that stays closed has not tripped
      have enough : config.failureThreshold ≤ b.failureCount + 1 := by
        by_contra few
        simp only [few, if_false, closed] at opened
        cases opened
      omega
    · intro opened
      exact absurd (closed.symm.trans opened) (by simp)
  · have stays : (if config.failureThreshold ≤ b.failureCount + 1 then CircuitState.open
        else b.state) ≠ .closed := by
      split
      · simp
      · exact closed
    refine ⟨⟨?_, fun h => absurd h stays, fun _ => rfl, Tally.noSuccesses rfl _⟩,
      fun h => absurd h closed, fun _ h => absurd h stays⟩
    show (if _ then _ else _) ≠ _
    split
    · simp
    · exact tally.stored

/-! ## Runs -/

/-- A step leaves the counters alone or records one outcome. -/
theorem step_outcome {s s' : Guarded} {act : CallAct} (step : callStep config s act = some s')
    (log : List Recorded) :
    (∃ flag, s'.breaker = { s.breaker with halfOpenProbeInFlight := flag } ∧
      noteOutcome config s act s' log = log) ∨
    (∃ n now call, act = .succeed n now ∧ s.running n = some call ∧
      s'.breaker = s.breaker.recordSuccess config now ∧ noteOutcome config s act s' log =
        ⟨s.breaker.currentState config now, true, call.probe⟩ :: log) ∨
    (∃ n exc now, ∃ call : GuardedCall, act = .fail n exc now ∧ isServerError exc = true ∧
      s'.breaker = s.breaker.recordFailure config exc now ∧ noteOutcome config s act s' log =
        ⟨s.breaker.currentState config now, false, call.probe⟩ :: log) := by
  cases act with
  | enter n now =>
    refine .inl ?_
    simp only [callStep] at step
    split at step
    · split at step <;> cases step
      · rename_i b probe hcheck
        rcases preCallCheck_ok hcheck with ⟨-, rfl⟩ | ⟨-, -, rfl⟩
        · exact ⟨s.breaker.halfOpenProbeInFlight, rfl, rfl⟩
        · exact ⟨true, rfl, rfl⟩
      · exact ⟨s.breaker.halfOpenProbeInFlight, rfl, rfl⟩
    · cases step
  | succeed n now =>
    simp only [callStep] at step
    split at step
    · rename_i call hcall
      split at step <;> cases step
      exact .inr (.inl ⟨n, now, call, rfl, hcall, rfl, by simp [noteOutcome, hcall]⟩)
    · cases step
  | fail n exc now =>
    simp only [callStep] at step
    split at step
    · rename_i call hcall
      split at step <;> cases step
      cases server : isServerError exc with
      | true =>
        exact .inr (.inr ⟨n, exc, now, call, rfl, server, rfl, by simp [noteOutcome, hcall, server]⟩)
      | false =>
        refine .inl ⟨s.breaker.halfOpenProbeInFlight, ?_, by simp [noteOutcome, hcall, server]⟩
        exact CircuitBreaker.recordFailure_neutral server
    · cases step
  | cancel n =>
    simp only [callStep] at step
    split at step <;> cases step
    exact .inl ⟨s.breaker.halfOpenProbeInFlight, rfl, rfl⟩
  | leave n =>
    simp only [callStep] at step
    split at step <;> cases step
    · exact .inl ⟨false, rfl, rfl⟩
    · exact .inl ⟨s.breaker.halfOpenProbeInFlight, rfl, rfl⟩

/-- No call admitted while the breaker was closed succeeds while it is half-open. -/
def ProbesOnly (config : BreakerConfig) (x : Guarded × List Recorded) : CallAct → Prop
  | .succeed n now => x.1.breaker.currentState config now = .halfOpen →
      ∀ call, x.1.running n = some call → call.probe = true
  | _ => True

def NoCalls (x : Guarded × List Recorded) : Prop :=
  x.1.breaker = {} ∧ (∀ n, x.1.calls n = none) ∧ x.2 = []

theorem Tally.step {s s' : Guarded} {log : List Recorded} (tally : Tally s.breaker log)
    {act : CallAct} (probes : ProbesOnly config (s, log) act)
    (step : callStep config s act = some s') :
    Tally s'.breaker (noteOutcome config s act s' log) ∧
      TripExplained config s.breaker s'.breaker (noteOutcome config s act s' log) ∧
      CloseExplained config s.breaker s'.breaker (noteOutcome config s act s' log) := by
  rcases step_outcome step log with
    ⟨flag, heq, hnote⟩ | ⟨n, now, call, rfl, hcall, heq, hnote⟩ |
    ⟨n, exc, now, call, rfl, server, heq, hnote⟩
  · rw [heq, hnote]
    refine ⟨⟨tally.stored, tally.failures, tally.quiet, tally.successes⟩, ?_, ?_⟩
    · intro closed opened
      exact absurd (closed.symm.trans opened) (by simp)
    · intro opened closed
      exact absurd (closed.symm.trans opened) (by simp)
  · rw [heq, hnote]
    exact tally.success fun half => probes half call hcall
  · rw [heq, hnote]
    exact tally.failure server now call.probe

/-- As long as no call admitted before the trip succeeds in a half-open breaker: there is one
probe at a time, and every trip and every close is explained by the log. -/
theorem breaker_safe {s : Guarded} {log : List Recorded}
    (h : Reachable (recording (callStep config) (noteOutcome config)) (ProbesOnly config) NoCalls
      (s, log)) :
    (∀ n m c d, s.calls n = some c → s.calls m = some d → c.probe = true → d.probe = true →
      n = m) ∧
    ∀ act s' log', ProbesOnly config (s, log) act →
      recording (callStep config) (noteOutcome config) (s, log) act = some (s', log') →
      TripExplained config s.breaker s'.breaker log' ∧
        CloseExplained config s.breaker s'.breaker log' := by
  have kept : OneProbe s ∧ Tally s.breaker log := by
    refine h.invariant (I := fun x => OneProbe x.1 ∧ Tally x.1.breaker x.2) ?_ ?_
    · rintro ⟨s, log⟩ ⟨fresh, idle, -⟩
      simp only at fresh idle
      refine ⟨⟨fun n _ c _ hn => ?_, fun n c hn => ?_⟩, ?_⟩
      · rw [idle n] at hn
        cases hn
      · rw [idle n] at hn
        cases hn
      · rw [fresh]
        exact ⟨by simp, fun _ => ⟨[], .nil _ _, le_rfl⟩, fun _ => rfl, Tally.noSuccesses rfl _⟩
    · rintro x act y ⟨one, tally⟩ probes hstep
      obtain ⟨hcall, hnote⟩ := recording_eq_some.mp hstep
      rw [hnote]
      exact ⟨one.step hcall, (tally.step probes hcall).1⟩
  refine ⟨kept.1.unique, fun act s' log' probes hstep => ?_⟩
  obtain ⟨hcall, hnote⟩ := recording_eq_some.mp hstep
  simp only at hnote hcall
  rw [hnote]
  exact (kept.2.step probes hcall).2

/-! ## A straggler -/

def oneFailure : BreakerConfig where
  failureThreshold := 1
  successThreshold := 1

def noCalls : Guarded × List Recorded := (⟨{}, fun _ => none, 0⟩, [])

theorem noCalls_fresh : NoCalls noCalls := ⟨rfl, fun _ => rfl, rfl⟩

def after (acts : List CallAct) : Guarded × List Recorded :=
  (replay (recording (callStep oneFailure) (noteOutcome oneFailure)) noCalls acts).getD noCalls

/-- Two calls are admitted; the second times out and trips the breaker. -/
def tripActs : List CallAct := [.enter 0 0, .enter 1 0, .fail 1 .timeout 0, .leave 1]

/-- After the recovery timeout the first call succeeds and closes the breaker without a probe. -/
theorem straggler_closes_breaker :
    Reachable (recording (callStep oneFailure) (noteOutcome oneFailure)) Any NoCalls
      (after tripActs) ∧
    recording (callStep oneFailure) (noteOutcome oneFailure) (after tripActs) (.succeed 0 60) =
      some (after (tripActs ++ [.succeed 0 60])) ∧
    (after tripActs).1.breaker.state = .open ∧
    (after (tripActs ++ [.succeed 0 60])).1.breaker.state = .closed ∧
    ∀ r ∈ (after (tripActs ++ [.succeed 0 60])).2, r.probe = false := by
  refine ⟨reachable_of_replay tripActs noCalls_fresh (fun _ _ _ => trivial) rfl, rfl,
    by decide +kernel, by decide +kernel, by decide +kernel⟩

/-- The same trip, and a probe when the timeout is over. -/
def probeActs : List CallAct := tripActs ++ [.enter 2 60]

theorem probe_closes_breaker :
    ∃ closed, recording (callStep oneFailure) (noteOutcome oneFailure) (after probeActs)
        (.succeed 2 61) = some closed ∧ closed.1.breaker.state = .closed ∧
      ∃ span, Streak TripSuccess closed.2 span ∧ 1 ≤ probeSuccesses span := by
  have replayed : replay (recording (callStep oneFailure) (noteOutcome oneFailure)) noCalls
      probeActs = some (after probeActs) := by
    exact replay_eq_getD (by decide +kernel) _
  have run : Reachable (recording (callStep oneFailure) (noteOutcome oneFailure))
      (ProbesOnly oneFailure) NoCalls ((after probeActs).1, (after probeActs).2) := by
    refine reachable_of_replay probeActs noCalls_fresh ?_ replayed
    intro x act hact
    simp only [probeActs, tripActs, List.mem_append, List.mem_cons, List.not_mem_nil, or_false]
      at hact
    rcases hact with (rfl | rfl | rfl | rfl) | rfl <;> exact trivial
  have closes : (recording (callStep oneFailure) (noteOutcome oneFailure) (after probeActs)
      (.succeed 2 61)).map (·.1.breaker.state) = some .closed := by decide +kernel
  obtain ⟨⟨s', log'⟩, hstep, closed⟩ := Option.map_eq_some_iff.mp closes
  have probes : ProbesOnly oneFailure ((after probeActs).1, (after probeActs).2)
      (.succeed 2 61) := by
    have probe : ((after probeActs).1.running 2).map (·.probe) = some true := by decide +kernel
    intro _ call hcall
    rw [hcall] at probe
    exact Option.some.inj probe
  have explained := ((breaker_safe run).2 (.succeed 2 61) s' log' probes hstep).2
  obtain ⟨span, streak, enough⟩ := explained (by decide +kernel) closed
  exact ⟨(s', log'), hstep, closed, span, streak, Int.ofNat_le.mp enough⟩

end CircuitBreaking
