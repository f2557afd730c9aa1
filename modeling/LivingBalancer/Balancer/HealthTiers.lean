import LivingBalancer.Balancer.Replicas
import LivingBalancer.Lib.Runs
import LivingBalancer.Lib.Streaks

/-!
# The health tier of one account

State building, `record_success` and the health marks on one runtime entry, in any order
and at instants that never go back. The log lists the successes with the tier they were
recorded in, the upstream errors, and the changes of the tier, newest first. A rate limit
or an exceeded quota leaves the streak of a probing account as it is.
-/

namespace HealthTiers

open Runs Streaks Balancer

structure Health where
  runtime : RuntimeState
  clock : ℚ

def Health.tier (s : Health) : HealthTier := s.runtime.healthTier

def Health.streak (s : Health) : Int := s.runtime.probeSuccessStreak

inductive HealthAct where
  | build (now : ℚ) (inputs : SelectionInputs) (account : Account)
  | recordSuccess (now : ℚ)
  | recordErrors (now : ℚ) (account : Account) (count : Int)
  | markRateLimit (now : ℚ) (account : Account) (error : UpstreamError) (jitter : ℚ)
  | markQuotaExceeded (now : ℚ) (account : Account) (error : UpstreamError)

namespace HealthAct

def now : HealthAct → ℚ
  | .build now _ _ | .recordSuccess now | .recordErrors now _ _ | .markRateLimit now _ _ _
  | .markQuotaExceeded now _ _ => now

/-- What the step leaves of the runtime entry. -/
def apply (settings : Settings) (rt : RuntimeState) : HealthAct → RuntimeState
  | .build now inputs account => (buildState settings now inputs account rt).2
  | .recordSuccess _ => successRuntime rt
  | .recordErrors now account count =>
    if (Mark.errors count).takesEffect then markRuntime now (.errors count) account rt else rt
  | .markRateLimit now account error jitter => markRuntime now (.rateLimit error jitter) account rt
  | .markQuotaExceeded now account error => markRuntime now (.quotaExceeded error) account rt

end HealthAct

def healthStep (settings : Settings) (s : Health) (act : HealthAct) : Option Health :=
  if s.clock ≤ act.now then some ⟨act.apply settings s.runtime, act.now⟩ else none

/-! ## The log -/

inductive Signal where
  | success (tier : HealthTier)
  | error
  | entered (tier : HealthTier)
  deriving DecidableEq

/-- `drained` is the instant at which the account was last put to draining. -/
structure Trace where
  drained : Option ℚ := none
  log : List Signal := []

def signalsOf (tier : HealthTier) : HealthAct → List Signal
  | .build .. => []
  | .recordSuccess _ => [.success tier]
  | .recordErrors _ _ count => if (Mark.errors count).takesEffect then [.error] else []
  | .markRateLimit .. | .markQuotaExceeded .. => [.error]

def noteHealth (s : Health) (act : HealthAct) (s' : Health) (t : Trace) : Trace where
  drained := if s.tier ≠ s'.tier ∧ s'.tier = .draining then some s'.clock else t.drained
  log := (if s.tier ≠ s'.tier then [.entered s'.tier] else []) ++ signalsOf s.tier act ++ t.log

def ProbeSuccess (r : Signal) : Prop := r = .success .probing

/-- The edges of the tier machine. -/
inductive Edge : HealthTier → HealthTier → Prop where
  | stay (tier : HealthTier) : Edge tier tier
  | drain : Edge .healthy .draining
  | probe : Edge .draining .probing
  | relapse : Edge .probing .draining
  | recover : Edge .probing .healthy

/-! ## What state building does to the tier -/

variable {settings : Settings} {now : ℚ} {rt : RuntimeState}

/-- The tier, the instant of the drain and the streak after a building of the state. -/
inductive Refreshed (settings : Settings) (now : ℚ) (rt rt' : RuntimeState) : Prop where
  | stayed (tier : rt'.healthTier = rt.healthTier) (notHealthy : rt.healthTier ≠ .healthy)
      (drain : rt'.drainEnteredAt = rt.drainEnteredAt)
      (streak : rt'.probeSuccessStreak = rt.probeSuccessStreak)
  | stayedHealthy (before : rt.healthTier = .healthy) (tier : rt'.healthTier = .healthy)
      (streak : rt'.probeSuccessStreak = 0)
  | drained (before : rt.healthTier ≠ .draining) (tier : rt'.healthTier = .draining)
      (drain : rt'.drainEnteredAt = some now) (streak : rt'.probeSuccessStreak = 0)
  | probed (before : rt.healthTier = .draining) (tier : rt'.healthTier = .probing)
      (quiet : ∃ t, rt.drainEnteredAt = some t ∧ settings.probeQuietSeconds ≤ now - t)
      (streak : rt'.probeSuccessStreak = rt.probeSuccessStreak)
  | recovered (before : rt.healthTier = .probing) (tier : rt'.healthTier = .healthy)
      (enough : settings.probeSuccessStreakRequired ≤ rt.probeSuccessStreak)
      (streak : rt'.probeSuccessStreak = 0)

/-- The tier `evaluate_health_tier` gives. -/
theorem evaluateHealthTier_cases {drainEnteredAt : Option ℚ} {streak : Int} {h : HealthInput} :
    evaluateHealthTier settings now drainEnteredAt streak h = h.healthTier ∨
      (h.healthTier ≠ .draining ∧
        evaluateHealthTier settings now drainEnteredAt streak h = .draining) ∨
      (h.healthTier = .draining ∧
        evaluateHealthTier settings now drainEnteredAt streak h = .probing ∧
        ∃ t, drainEnteredAt = some t ∧ settings.probeQuietSeconds ≤ now - t) ∨
      (h.healthTier = .probing ∧
        evaluateHealthTier settings now drainEnteredAt streak h = .healthy ∧
        settings.probeSuccessStreakRequired ≤ streak) := by
  by_cases blocked : h.status ≠ .active
  · exact .inl (by simp [evaluateHealthTier, blocked])
  · simp only [evaluateHealthTier, if_neg blocked]
    cases tier : h.healthTier with
    | healthy =>
      by_cases drain : shouldDrain settings now h
      · exact .inr (.inl ⟨by simp, by simp [drain]⟩)
      · exact .inl (by simp [drain])
    | draining =>
      by_cases drain : shouldDrain settings now h
      · exact .inl (by simp [drain])
      · by_cases quiet : drainEnteredAt.any fun t => decide (settings.probeQuietSeconds ≤ now - t)
        · obtain ⟨t, rfl, le⟩ := (Option.any_eq_true _ _).mp quiet
          exact .inr (.inr (.inl ⟨rfl, by simp [drain, quiet], t, rfl, of_decide_eq_true le⟩))
        · exact .inl (by simp [drain, quiet])
    | probing =>
      by_cases drain : shouldDrain settings now h
      · exact .inr (.inl ⟨by simp, by simp [drain]⟩)
      · by_cases enough : settings.probeSuccessStreakRequired ≤ streak
        · exact .inr (.inr (.inr ⟨rfl, by simp [drain, enough], enough⟩))
        · exact .inl (by simp [drain, enough])

theorem refreshHealth_refreshed (soft : settings.softDrainEnabled = true) (status : AccountStatus)
    (used secondary : Option ℚ) :
    Refreshed settings now rt (refreshHealth settings now rt status used secondary) := by
  have evaluated := @evaluateHealthTier_cases settings now rt.drainEnteredAt
    rt.probeSuccessStreak ⟨status, used, secondary, rt.lastErrorAt, rt.errorCount, rt.healthTier⟩
  simp only [refreshHealth, soft, if_true]
  generalize evaluateHealthTier settings now rt.drainEnteredAt rt.probeSuccessStreak
    ⟨status, used, secondary, rt.lastErrorAt, rt.errorCount, rt.healthTier⟩ = tier at evaluated ⊢
  rcases evaluated with rfl | ⟨before, rfl⟩ | ⟨before, rfl, quiet⟩ | ⟨before, rfl, enough⟩
  · by_cases healthy : rt.healthTier = .healthy
    · exact .stayedHealthy healthy (by simp [healthy]) (by simp [healthy])
    · exact .stayed (by simp) healthy (by simp [healthy]) (by simp [healthy])
  · exact .drained before (by simp) (by simp [before]) (by simp [before])
  · exact .probed before (by simp) quiet (by simp)
  · exact .recovered before (by simp) enough (by simp)

/-! ## What a signal does to the tier -/

theorem markRuntime_tier (mark : Mark) (account : Account) :
    (markRuntime now mark account rt).healthTier = rt.healthTier ∧
      (markRuntime now mark account rt).drainEnteredAt = rt.drainEnteredAt := by
  cases mark with
  | errors count =>
    by_cases probing : rt.healthTier = .probing
    · simp [markRuntime, syncRuntime, probing]
    · simp [markRuntime, syncRuntime, probing]
  | rateLimit | quotaExceeded | permanentFailure => exact ⟨rfl, rfl⟩

theorem markRuntime_errors_streak (count : Int) (account : Account) :
    (markRuntime now (.errors count) account rt).probeSuccessStreak =
      if rt.healthTier = .probing then 0 else rt.probeSuccessStreak := by
  by_cases probing : rt.healthTier = .probing
  · simp [markRuntime, syncRuntime, probing]
  · simp [markRuntime, syncRuntime, probing]

theorem successRuntime_tier :
    (successRuntime rt).healthTier = rt.healthTier ∧
      (successRuntime rt).drainEnteredAt = rt.drainEnteredAt := by
  by_cases failed : 0 < rt.errorCount <;> by_cases probing : rt.healthTier = .probing <;>
    simp [successRuntime, failed, probing]

theorem successRuntime_streak :
    (successRuntime rt).probeSuccessStreak =
      if rt.healthTier = .probing then rt.probeSuccessStreak + 1 else rt.probeSuccessStreak := by
  by_cases failed : 0 < rt.errorCount <;> by_cases probing : rt.healthTier = .probing <;>
    simp [successRuntime, failed, probing]

def HealthAct.builds : HealthAct → Bool
  | .build .. => true
  | _ => false

theorem signal_tier {act : HealthAct} (signal : act.builds = false) :
    (act.apply settings rt).healthTier = rt.healthTier ∧
      (act.apply settings rt).drainEnteredAt = rt.drainEnteredAt := by
  cases act with
  | build => cases signal
  | recordSuccess => exact successRuntime_tier
  | recordErrors now account count =>
    simp only [HealthAct.apply]
    split
    · exact markRuntime_tier _ account
    · exact ⟨rfl, rfl⟩
  | markRateLimit now account | markQuotaExceeded now account => exact markRuntime_tier _ account

/-- Outside probing no signal touches the streak. -/
theorem signal_streak {act : HealthAct} (signal : act.builds = false)
    (notProbing : rt.healthTier ≠ .probing) :
    (act.apply settings rt).probeSuccessStreak = rt.probeSuccessStreak := by
  cases act with
  | build => cases signal
  | recordSuccess =>
    rw [HealthAct.apply, successRuntime_streak, if_neg notProbing]
  | recordErrors now account count =>
    simp only [HealthAct.apply]
    split
    · rw [markRuntime_errors_streak, if_neg notProbing]
    · rfl
  | markRateLimit | markQuotaExceeded => rfl

/-! ## Runs -/

variable {s s' : Health} {t : Trace} {act : HealthAct}

theorem healthStep_eq_some :
    healthStep settings s act = some s' ↔
      s.clock ≤ act.now ∧ s' = ⟨act.apply settings s.runtime, act.now⟩ := by
  simp only [healthStep]
  split
  · rename_i le
    simp [le, eq_comm]
  · rename_i late
    simp [late]

theorem noteHealth_same (same : s'.tier = s.tier) :
    noteHealth s act s' t = ⟨t.drained, signalsOf s.tier act ++ t.log⟩ := by
  simp [noteHealth, same]

/-- The streak is that of a probing account, and the drain is dated. -/
structure Dated (s : Health) (t : Trace) : Prop where
  idle : s.tier ≠ .probing → s.streak = 0
  drained : s.tier = .draining → s.runtime.drainEnteredAt = t.drained

/-- The newest entries of the log account for the streak. -/
def Earned (s : Health) (t : Trace) : Prop :=
  ∃ span, Streak ProbeSuccess t.log span ∧ s.streak ≤ span.length

theorem Earned.of_idle (idle : s.streak ≤ 0) : Earned s t := ⟨[], .nil _ _, idle⟩

theorem Dated.refresh (dated : Dated s t)
    (refreshed : Refreshed settings act.now s.runtime s'.runtime) (clock : s'.clock = act.now) :
    Dated s' (noteHealth s act s' t) := by
  cases refreshed with
  | stayed tier notHealthy drain streak =>
    have same : s'.tier = s.tier := tier
    rw [noteHealth_same same]
    refine ⟨fun notProbing => ?_, fun draining => ?_⟩
    · exact streak.trans (dated.idle (same ▸ notProbing))
    · exact drain.trans (dated.drained (same ▸ draining))
  | stayedHealthy before tier streak =>
    exact ⟨fun _ => streak, fun draining => by cases tier.symm.trans draining⟩
  | drained before tier drain streak =>
    refine ⟨fun _ => streak, fun draining => ?_⟩
    have moved : s.tier ≠ s'.tier := fun same => before (same.trans draining)
    simp only [noteHealth]
    rw [if_pos ⟨moved, draining⟩, clock]
    exact drain
  | probed before tier quiet streak =>
    refine ⟨fun notProbing => absurd tier notProbing, fun draining => ?_⟩
    cases tier.symm.trans draining
  | recovered before tier enough streak =>
    exact ⟨fun _ => streak, fun draining => by cases tier.symm.trans draining⟩

theorem Dated.signal (dated : Dated s t) (signal : act.builds = false)
    (heq : s' = ⟨act.apply settings s.runtime, act.now⟩) : Dated s' (noteHealth s act s' t) := by
  have same : s'.tier = s.tier := by rw [heq]; exact (signal_tier signal).1
  rw [noteHealth_same same]
  refine ⟨fun notProbing => ?_, fun draining => ?_⟩
  · rw [heq]
    have before : s.tier ≠ .probing := same ▸ notProbing
    exact (signal_streak signal before).trans (dated.idle before)
  · rw [heq]
    exact (signal_tier signal).2.trans (dated.drained (same ▸ draining))

/-- No rate limit and no exceeded quota is recorded while a probe streak is running. -/
def Unbroken (x : Health × Trace) : HealthAct → Prop
  | .markRateLimit .. | .markQuotaExceeded .. => x.1.tier = .probing → x.1.streak ≤ 0
  | _ => True

theorem Earned.refresh (earned : Earned s t) (dated : Dated s t)
    (refreshed : Refreshed settings act.now s.runtime s'.runtime) (build : act.builds = true) :
    Earned s' (noteHealth s act s' t) := by
  cases refreshed with
  | stayed tier notHealthy drain streak =>
    have same : s'.tier = s.tier := tier
    have silent : signalsOf s.tier act = [] := by
      cases act with
      | build => rfl
      | recordSuccess | recordErrors | markRateLimit | markQuotaExceeded => cases build
    rw [noteHealth_same same, silent]
    obtain ⟨span, streaks, le⟩ := earned
    exact ⟨span, streaks, le_of_eq_of_le streak le⟩
  | stayedHealthy before tier streak => exact .of_idle streak.le
  | drained before tier drain streak => exact .of_idle streak.le
  | probed before tier quiet streak =>
    have idle : s.streak = 0 := dated.idle (by rw [Health.tier, before]; simp)
    exact .of_idle (streak.trans idle).le
  | recovered before tier enough streak => exact .of_idle streak.le

theorem Earned.signal (earned : Earned s t) (dated : Dated s t) (signal : act.builds = false)
    (unbroken : Unbroken (s, t) act) (heq : s' = ⟨act.apply settings s.runtime, act.now⟩) :
    Earned s' (noteHealth s act s' t) := by
  have same : s'.tier = s.tier := by rw [heq]; exact (signal_tier signal).1
  by_cases probing : s.tier = .probing
  · rw [noteHealth_same same, probing]
    obtain ⟨span, streaks, le⟩ := earned
    cases act with
    | build => cases signal
    | recordSuccess now =>
      refine ⟨.success .probing :: span, streaks.cons rfl, ?_⟩
      have counted : s'.streak = s.streak + 1 := by
        rw [heq]
        exact successRuntime_streak.trans (if_pos probing)
      rw [counted, List.length_cons]
      omega
    | recordErrors now account count =>
      by_cases effect : (Mark.errors count).takesEffect = true
      · refine .of_idle (le_of_eq ?_)
        rw [heq]
        simp only [Health.streak, HealthAct.apply, if_pos effect]
        exact (markRuntime_errors_streak count account).trans (if_pos probing)
      · refine ⟨span, ?_, ?_⟩
        · simpa only [signalsOf, if_neg effect, List.nil_append] using streaks
        · rw [heq]
          simpa only [Health.streak, HealthAct.apply, if_neg effect] using le
    | markRateLimit | markQuotaExceeded =>
      refine .of_idle ?_
      rw [heq]
      exact unbroken probing
  · refine .of_idle (le_of_eq ?_)
    rw [heq]
    exact (signal_streak signal probing).trans (dated.idle probing)

theorem build_refreshed (soft : settings.softDrainEnabled = true) (build : act.builds = true) :
    Refreshed settings act.now rt (act.apply settings rt) := by
  cases act with
  | build now inputs account => exact refreshHealth_refreshed soft _ _ _
  | recordSuccess | recordErrors | markRateLimit | markQuotaExceeded => cases build

theorem Dated.step (soft : settings.softDrainEnabled = true) (dated : Dated s t)
    (step : healthStep settings s act = some s') : Dated s' (noteHealth s act s' t) := by
  obtain ⟨-, heq⟩ := healthStep_eq_some.mp step
  cases build : act.builds with
  | true =>
    have refreshed : Refreshed settings act.now s.runtime s'.runtime := by
      rw [heq]
      exact build_refreshed soft build
    exact dated.refresh refreshed (by rw [heq])
  | false => exact dated.signal build heq

theorem Earned.step (soft : settings.softDrainEnabled = true) (earned : Earned s t)
    (dated : Dated s t) (unbroken : Unbroken (s, t) act)
    (step : healthStep settings s act = some s') : Earned s' (noteHealth s act s' t) := by
  obtain ⟨-, heq⟩ := healthStep_eq_some.mp step
  cases build : act.builds with
  | true =>
    have refreshed : Refreshed settings act.now s.runtime s'.runtime := by
      rw [heq]
      exact build_refreshed soft build
    exact earned.refresh dated refreshed build
  | false => exact earned.signal dated build unbroken heq

/-! ## The tier machine -/

/-- A step either builds the state or keeps the tier. -/
theorem step_tier (soft : settings.softDrainEnabled = true)
    (step : healthStep settings s act = some s') :
    s'.tier = s.tier ∨ Refreshed settings s'.clock s.runtime s'.runtime := by
  obtain ⟨-, rfl⟩ := healthStep_eq_some.mp step
  cases build : act.builds with
  | true => exact .inr (build_refreshed soft build)
  | false => exact .inl (signal_tier build).1

theorem edge_of_step (soft : settings.softDrainEnabled = true)
    (step : healthStep settings s act = some s') : Edge s.tier s'.tier := by
  rcases step_tier soft step with same | refreshed
  · rw [same]
    exact .stay s.tier
  · simp only [Health.tier]
    cases refreshed with
    | stayed tier =>
      rw [tier]
      exact .stay _
    | stayedHealthy before tier =>
      rw [before, tier]
      exact .stay .healthy
    | drained before tier =>
      rw [tier]
      cases old : s.runtime.healthTier with
      | healthy => exact .drain
      | draining => exact absurd old before
      | probing => exact .relapse
    | probed before tier =>
      rw [before, tier]
      exact .probe
    | recovered before tier =>
      rw [before, tier]
      exact .recover

theorem Dated.quiet (soft : settings.softDrainEnabled = true) (dated : Dated s t)
    (step : healthStep settings s act = some s') (before : s.tier = .draining)
    (after : s'.tier = .probing) :
    ∃ d, t.drained = some d ∧ settings.probeQuietSeconds ≤ s'.clock - d := by
  rcases step_tier soft step with same | refreshed
  · cases before.symm.trans (same.symm.trans after)
  · cases refreshed with
    | probed _ _ quiet => rwa [dated.drained before] at quiet
    | stayed tier => cases before.symm.trans (tier.symm.trans after)
    | stayedHealthy _ tier | drained _ tier | recovered _ tier => cases tier.symm.trans after

theorem Earned.enough (soft : settings.softDrainEnabled = true) (earned : Earned s t)
    (step : healthStep settings s act = some s') (before : s.tier = .probing)
    (after : s'.tier = .healthy) :
    ∃ span, Streak ProbeSuccess t.log span ∧ settings.probeSuccessStreakRequired ≤ span.length := by
  rcases step_tier soft step with same | refreshed
  · cases before.symm.trans (same.symm.trans after)
  · cases refreshed with
    | recovered _ _ enough =>
      obtain ⟨span, streaks, le⟩ := earned
      exact ⟨span, streaks, enough.trans le⟩
    | stayed tier => cases before.symm.trans (tier.symm.trans after)
    | stayedHealthy healthy => cases before.symm.trans healthy
    | drained _ tier | probed _ tier => cases tier.symm.trans after

/-- A runtime entry as `setdefault` makes it. -/
def Fresh (x : Health × Trace) : Prop := x.1.runtime = {} ∧ x.2 = {}

theorem Fresh.dated {x : Health × Trace} (h : Fresh x) : Dated x.1 x.2 := by
  constructor
  · intro _
    rw [Health.streak, h.1]
  · intro draining
    rw [Health.tier, h.1] at draining
    cases draining

/-- The edges, the quiet time and the streak of every run; and, where no rate limit and no
exceeded quota falls into a probe streak, the successes behind every recovery. -/
theorem health_tier_machine (soft : settings.softDrainEnabled = true) :
    (∀ s t, Reachable (recording (healthStep settings) noteHealth) Any Fresh (s, t) →
      (0 < s.streak → s.tier = .probing) ∧
      ∀ act s', healthStep settings s act = some s' → Edge s.tier s'.tier ∧
        (s.tier = .draining → s'.tier = .probing →
          ∃ d, t.drained = some d ∧ settings.probeQuietSeconds ≤ s'.clock - d)) ∧
    ∀ s t, Reachable (recording (healthStep settings) noteHealth) Unbroken Fresh (s, t) →
      ∀ act s', healthStep settings s act = some s' → s.tier = .probing → s'.tier = .healthy →
        ∃ span, Streak ProbeSuccess t.log span ∧
          settings.probeSuccessStreakRequired ≤ span.length := by
  have dates : ∀ x a y, Dated x.1 x.2 → recording (healthStep settings) noteHealth x a = some y →
      Dated y.1 y.2 := by
    intro x a y dated step
    obtain ⟨hstep, hnote⟩ := recording_eq_some.mp step
    rw [hnote]
    exact dated.step soft hstep
  constructor
  · intro s t run
    have dated : Dated s t := run.invariant (I := fun x => Dated x.1 x.2)
      (fun _ fresh => fresh.dated) fun x a y kept _ step => dates x a y kept step
    refine ⟨fun positive => ?_, fun act s' step => ⟨edge_of_step soft step, dated.quiet soft step⟩⟩
    by_contra notProbing
    have idle := dated.idle notProbing
    omega
  · intro s t run act s' step
    have kept : Dated s t ∧ Earned s t := by
      refine run.invariant (I := fun x => Dated x.1 x.2 ∧ Earned x.1 x.2) ?_ ?_
      · rintro x fresh
        refine ⟨fresh.dated, .of_idle ?_⟩
        rw [Health.streak, fresh.1]
      · rintro x a y ⟨dated, earned⟩ unbroken step
        refine ⟨dates x a y dated step, ?_⟩
        obtain ⟨hstep, hnote⟩ := recording_eq_some.mp step
        rw [hnote]
        exact earned.step soft dated unbroken hstep
    exact kept.2.enough soft step

/-! ## A limit within a streak -/

def idleEntry : Health × Trace := (⟨{}, 0⟩, {})

theorem idleEntry_fresh : Fresh idleEntry := ⟨rfl, rfl⟩

def afterActs (acts : List HealthAct) : Health × Trace :=
  (replay (recording (healthStep {}) noteHealth) idleEntry acts).getD idleEntry

def buildHealthy (now : ℚ) : HealthAct :=
  .build now (singleInput (healthyAccount "a")) (healthyAccount "a")

/-- Two errors drain the account, and a quiet time later it is probing. -/
def probingActs : List HealthAct :=
  [.recordErrors 0 (healthyAccount "a") 2, buildHealthy 0, buildHealthy 100]

/-- The upstream limits the account after two successes. -/
def limitedActs : List HealthAct :=
  probingActs ++ [.recordSuccess 100, .recordSuccess 100,
    .markRateLimit 100 (healthyAccount "a") ⟨some 5, none, none⟩ 1, .recordSuccess 101]

/-- Once its row is active again, the account recovers on one success since the limit. -/
theorem limit_within_streak :
    Reachable (recording (healthStep {}) noteHealth) Any Fresh (afterActs limitedActs) ∧
    (afterActs limitedActs).1.tier = .probing ∧
    (∃ s', healthStep {} (afterActs limitedActs).1 (buildHealthy 200) = some s' ∧
      s'.tier = .healthy) ∧
    ∀ span, Streak ProbeSuccess (afterActs limitedActs).2.log span → span.length ≤ 1 := by
  have log : (afterActs limitedActs).2.log =
      [.success .probing] ++ .error :: ((afterActs limitedActs).2.log.drop 2) := by
    decide +kernel
  refine ⟨reachable_of_replay limitedActs idleEntry_fresh (fun _ _ _ => trivial) ?_, by decide +kernel,
    ?_, fun span streak => ?_⟩
  · exact replay_eq_getD (by decide +kernel) _
  · exact Option.map_eq_some_iff.mp (show (healthStep {} (afterActs limitedActs).1
      (buildHealthy 200)).map Health.tier = some .healthy by decide +kernel)
  · rw [log] at streak
    exact streak.length_le nofun

/-- Three successes in a row. -/
def recoveringActs : List HealthAct :=
  probingActs ++ [.recordSuccess 100, .recordSuccess 100, .recordSuccess 101]

theorem recovered_on_three :
    ∃ span, Streak ProbeSuccess (afterActs recoveringActs).2.log span ∧ 3 ≤ span.length := by
  have run : Reachable (recording (healthStep {}) noteHealth) Unbroken Fresh
      ((afterActs recoveringActs).1, (afterActs recoveringActs).2) := by
    refine reachable_of_replay recoveringActs idleEntry_fresh ?_ ?_
    · intro x act hact
      simp only [recoveringActs, probingActs, List.mem_append, List.mem_cons, List.not_mem_nil,
        or_false] at hact
      rcases hact with (rfl | rfl | rfl) | rfl | rfl | rfl <;> exact trivial
    · exact replay_eq_getD (by decide +kernel) idleEntry
  obtain ⟨s', step, healthy⟩ := Option.map_eq_some_iff.mp
    (show (healthStep {} (afterActs recoveringActs).1 (buildHealthy 200)).map Health.tier =
      some .healthy by decide +kernel)
  have soft : ({} : Settings).softDrainEnabled = true := rfl
  obtain ⟨span, streak, enough⟩ := (health_tier_machine soft).2 _ _ run
    (buildHealthy 200) s' step (by decide +kernel) healthy
  exact ⟨span, streak, Int.ofNat_le.mp enough⟩

end HealthTiers
