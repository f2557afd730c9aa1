import LivingBalancer.Caches.InvalidationBus
import LivingBalancer.Lib.Precedence

/-!
# Delivery on the invalidation bus

What a poller has acknowledged above its baseline, its callbacks have served, and what it
has been asked to bump stays owed until a flush writes it.
-/

namespace InvalidationBus

open Runs Precedence

variable {callbacks : String → ℕ} {versions versions' : Dict String ℕ} {p p' : Poller}
variable {act : PollerAct} {t : Trace}

/-- Callback `i` of a namespace completed after a read of a version of at least `k`. -/
def Served (events : List BusEvent) (ns : String) (i k : ℕ) : Prop :=
  Follows (fun e => e = .completed ns i) (fun e => ∃ v, e = .read ns v ∧ k ≤ v) events

theorem Served.mono {events : List BusEvent} {ns : String} {i k k' : ℕ} (h : Served events ns i k)
    (le : k' ≤ k) (new : List BusEvent) : Served (new ++ events) ns i k' :=
  (h.imp (fun _ he => he) fun _ ⟨v, he, hv⟩ => ⟨v, he, le.trans hv⟩).append new

/-- The rows a cycle has read and not yet treated. -/
def Cycle.observed : Cycle → List (String × ℕ)
  | .rows rest => rest
  | .calling ns version _ _ rest => (ns, version) :: rest
  | _ => []

/-- The callbacks of the current row that have completed, if none has failed. -/
def Cycle.servedTo : Cycle → Option (String × ℕ × ℕ)
  | .calling ns version done true _ => some (ns, version, done)
  | _ => none

def Cycle.treating : Cycle → Bool
  | .rows _ | .calling .. => true
  | _ => false

structure Delivered (callbacks : String → ℕ) (p : Poller) (t : Trace) : Prop where
  fresh : p.pollInitialized = false → p.cycle.treating = false → ∀ ns, p.knownVersions ns = none
  observed : ∀ row ∈ p.cycle.observed, .read row.1 row.2 ∈ t.events
  serving : ∀ ns version done, p.cycle.servedTo = some (ns, version, done) →
    ∀ i < done, Served t.events ns i version
  acknowledged : ∀ ns k, p.knownVersions ns = some k → t.baseline ns < k →
    ∀ i < callbacks ns, Served t.events ns i k

/-! ## What a step leaves as it is -/

theorem Trace.note_baseline {ns : String} {k : ℕ} (known : p.knownVersions ns = some k) :
    (t.note p act p').baseline ns = t.baseline ns := by
  simp [Trace.note, known]

/-- A step that acknowledges nothing. -/
theorem Delivered.keep (h : Delivered callbacks p t) (known : p'.knownVersions = p.knownVersions)
    (fresh : p'.pollInitialized = false → p'.cycle.treating = false →
      p.pollInitialized = false ∧ p.cycle.treating = false)
    (observed : ∀ row ∈ p'.cycle.observed, row ∈ p.cycle.observed ∨
      .read row.1 row.2 ∈ eventsOf p act)
    (serving : ∀ ns version done, p'.cycle.servedTo = some (ns, version, done) →
      ∀ i < done, Served (eventsOf p act ++ t.events) ns i version) :
    Delivered callbacks p' (t.note p act p') where
  fresh uninitialized idle ns := by
    rw [known]
    obtain ⟨before, idle⟩ := fresh uninitialized idle
    exact h.fresh before idle ns
  observed row hrow := by
    rcases observed row hrow with old | new
    · exact List.mem_append_right _ (h.observed row old)
    · exact List.mem_append_left _ new
  serving := serving
  acknowledged ns k hk above i hi := by
    rw [known] at hk
    rw [Trace.note_baseline hk] at above
    exact (h.acknowledged ns k hk above i hi).mono le_rfl _

/-- A step of the cycle that is not about a row. -/
theorem Delivered.keepQuiet (h : Delivered callbacks p t)
    (known : p'.knownVersions = p.knownVersions)
    (fresh : p'.pollInitialized = false → p'.cycle.treating = false →
      p.pollInitialized = false ∧ p.cycle.treating = false)
    (quiet : p'.cycle.observed = []) : Delivered callbacks p' (t.note p act p') := by
  refine h.keep known fresh (fun row hrow => ?_) fun ns version done hserved => ?_
  · rw [quiet] at hrow
    cases hrow
  · cases hcycle : p'.cycle <;> simp_all [Cycle.observed, Cycle.servedTo]

/-- A step beside the cycle. -/
theorem Delivered.keepCycle (h : Delivered callbacks p t)
    (known : p'.knownVersions = p.knownVersions)
    (initialized : p'.pollInitialized = p.pollInitialized) (cycle : p'.cycle = p.cycle) :
    Delivered callbacks p' (t.note p act p') := by
  refine h.keep known ?_ ?_ ?_
  · rw [initialized, cycle]
    exact fun uninitialized idle => ⟨uninitialized, idle⟩
  · rw [cycle]
    exact fun row hrow => .inl hrow
  · rw [cycle]
    intro ns version done hserved i hi
    exact (h.serving ns version done hserved i hi).mono le_rfl _

/-! ## Acknowledgements -/

/-- The row is acknowledged once all its callbacks have served it, or when it is no change. -/
theorem Delivered.acknowledge (h : Delivered callbacks p t) {ns : String} {version : ℕ}
    {rest : List (String × ℕ)} (rows : ∀ row ∈ rest, row ∈ p.cycle.observed)
    (served : p.changed ns version = true → ∀ i < callbacks ns, Served t.events ns i version) :
    Delivered callbacks (p.acknowledge ns version rest)
      (t.note p act (p.acknowledge ns version rest)) where
  fresh _ treating := by cases treating
  observed row hrow := List.mem_append_right _ (h.observed row (rows row hrow))
  serving _ _ _ hserved := by cases hserved
  acknowledged ns' k hk above i hi := by
    by_cases other : ns' = ns
    · subst other
      simp only [Poller.acknowledge, Function.update_self, Option.some.injEq] at hk
      cases prev : p.knownVersions ns' with
      | none =>
        rw [prev] at hk
        by_cases initialized : p.pollInitialized = true
        · have positive : 0 < version := by
            simp only [Option.getD_none] at hk
            omega
          refine (served ?_ i hi).mono (by simp only [Option.getD_none] at hk; omega) _
          simp [Poller.changed, prev, initialized, positive]
        · -- the version becomes the baseline
          refine absurd above ?_
          simp [Trace.note, initialized, prev, Poller.acknowledge, ← hk]
      | some v =>
        rw [prev, Option.getD_some] at hk
        rw [Trace.note_baseline prev] at above
        by_cases newer : v < version
        · exact (served (by simp [Poller.changed, prev, newer]) i hi).mono (by omega) _
        · exact (h.acknowledged ns' v prev (by omega) i hi).mono (by omega) _
    · simp only [Poller.acknowledge, Function.update_of_ne other] at hk
      rw [Trace.note_baseline hk] at above
      exact (h.acknowledged ns' k hk above i hi).mono le_rfl _

theorem Delivered.step (h : Delivered callbacks p t)
    (step : pollerStep callbacks versions p act = some (p', versions')) :
    Delivered callbacks p' (t.note p act p') := by
  cases act with
  | requestBump ns =>
    cases step
    exact h.keepCycle rfl rfl rfl
  | bump n ns =>
    simp only [pollerStep] at step
    split at step <;> cases step
    exact h.keepCycle rfl rfl rfl
  | bumpWrite n outcome =>
    simp only [pollerStep] at step
    split at step
    · split at step <;> cases step <;> exact h.keepCycle rfl rfl rfl
    · cases step
  | initializeVersions rows =>
    simp only [pollerStep] at step
    split at step <;> cases step
    rename_i start
    obtain ⟨idle, uninitialized, -⟩ := start
    have known := h.fresh uninitialized (by rw [idle]; rfl)
    refine ⟨fun initialized => ?_, fun row hrow => ?_, fun ns version done hserved => ?_,
      fun ns k hk above => ?_⟩
    · cases initialized
    · rw [idle] at hrow
      cases hrow
    · rw [idle] at hserved
      cases hserved
    · refine absurd above ?_
      simp only at hk
      simp [Trace.note, uninitialized, known ns, hk]
  | poll =>
    simp only [pollerStep] at step
    split at step <;> cases step
    rename_i idle
    refine h.keepQuiet rfl (fun uninitialized _ => ⟨uninitialized, ?_⟩) rfl
    rw [idle]
    rfl
  | flushNext =>
    simp only [pollerStep] at step
    split at step <;> cases step
    rename_i flush
    refine h.keepQuiet rfl (fun uninitialized _ => ⟨uninitialized, ?_⟩) rfl
    rw [flush]
    rfl
  | flushWrite outcome =>
    simp only [pollerStep] at step
    split at step
    · rename_i flush
      have before : p.cycle.treating = false := by
        rw [flush]
        rfl
      split at step <;> cases step <;>
        exact h.keepQuiet rfl (fun uninitialized _ => ⟨uninitialized, before⟩) rfl
    · cases step
  | read rows =>
    simp only [pollerStep] at step
    split at step
    · rename_i flush
      split at step
      · split at step <;> cases step
        refine h.keep rfl (fun _ treating => ?_) (fun row hrow => .inr ?_) ?_
        · cases treating
        · exact List.mem_map_of_mem hrow
        · rintro _ _ _ ⟨⟩
      · cases step
        refine h.keepQuiet rfl (fun uninitialized _ => ⟨uninitialized, ?_⟩) rfl
        rw [flush]
        rfl
    · cases step
  | row =>
    simp only [pollerStep] at step
    split at step
    · cases step
      exact h.keepQuiet rfl (fun initialized => by cases initialized) rfl
    · rename_i ns version rest hrows
      split at step <;> cases step
      · refine h.keep rfl (fun _ treating => ?_) (fun row hrow => .inl ?_) ?_
        · cases treating
        · rw [hrows]
          exact hrow
        · rintro _ _ _ ⟨⟩ i hi
          cases hi
      · rename_i unchanged
        refine h.acknowledge (fun row hrow => ?_) fun change => absurd change unchanged
        rw [hrows]
        exact List.mem_cons_of_mem _ hrow
    · cases step
  | callback succeeds =>
    simp only [pollerStep] at step
    split at step
    · rename_i ns version done succeeded rest hcalling
      split at step <;> cases step
      refine h.keep rfl (fun _ treating => ?_) (fun row hrow => .inl ?_) ?_
      · cases treating
      · rw [hcalling]
        exact hrow
      · intro ns' version' done' hserved i hi
        cases succeeded <;> cases succeeds <;> cases hserved
        by_cases current : i = done
        · subst current
          have read := h.observed (ns, version) (by rw [hcalling]; exact List.mem_cons_self)
          simp only [eventsOf, hcalling]
          exact .now rfl read ⟨version, rfl, le_rfl⟩
        · refine (h.serving ns version done ?_ i (by omega)).mono le_rfl _
          rw [hcalling]
          rfl
    · cases step
  | callbacksDone =>
    simp only [pollerStep] at step
    split at step
    · rename_i ns version done succeeded rest hcalling
      split at step
      · cases step
      · rename_i all
        split at step <;> cases step
        · rename_i succeeded
          refine h.acknowledge (fun row hrow => ?_) fun _ i hi => ?_
          · rw [hcalling]
            exact List.mem_cons_of_mem _ hrow
          · refine h.serving ns version done ?_ i (by omega)
            rw [hcalling, succeeded]
            rfl
        · refine h.keep rfl (fun _ treating => ?_) (fun row hrow => .inl ?_) ?_
          · cases treating
          · rw [hcalling]
            exact List.mem_cons_of_mem _ hrow
          · rintro _ _ _ ⟨⟩
    · cases step

/-! ## Known versions -/

theorem step_known (step : pollerStep callbacks versions p act = some (p', versions')) :
    p'.knownVersions = p.knownVersions ∨
      (∃ ns version rest, p' = p.acknowledge ns version rest) ∨
      (p.pollInitialized = false ∧ p.cycle = .idle) := by
  cases act with
  | initializeVersions rows =>
    simp only [pollerStep] at step
    split at step <;> cases step
    rename_i start
    exact .inr (.inr ⟨start.2.1, start.1⟩)
  | row =>
    simp only [pollerStep] at step
    split at step
    · cases step
      exact .inl rfl
    · split at step <;> cases step
      · exact .inl rfl
      · exact .inr (.inl ⟨_, _, _, rfl⟩)
    · cases step
  | callbacksDone =>
    simp only [pollerStep] at step
    split at step
    · split at step
      · cases step
      · split at step <;> cases step
        · exact .inr (.inl ⟨_, _, _, rfl⟩)
        · exact .inl rfl
    · cases step
  | requestBump | bump | bumpWrite | poll | flushNext | flushWrite | read | callback =>
    refine .inl ?_
    simp only [pollerStep] at step
    repeat' split at step
    all_goals cases step
    all_goals rfl

theorem acknowledge_mono {ns : String} {k : ℕ} (known : p.knownVersions ns = some k) (ns' : String)
    (version : ℕ) (rest : List (String × ℕ)) :
    ∃ k', (p.acknowledge ns' version rest).knownVersions ns = some k' ∧ k ≤ k' := by
  by_cases other : ns = ns'
  · subst other
    simp only [Poller.acknowledge, Function.update_self, known, Option.getD_some]
    exact ⟨_, rfl, le_max_left k version⟩
  · simp only [Poller.acknowledge, Function.update_of_ne other]
    exact ⟨k, known, le_rfl⟩

theorem Delivered.known_mono (h : Delivered callbacks p t)
    (step : pollerStep callbacks versions p act = some (p', versions')) {ns : String} {k : ℕ}
    (known : p.knownVersions ns = some k) : ∃ k', p'.knownVersions ns = some k' ∧ k ≤ k' := by
  rcases step_known step with same | ⟨ns', version, rest, rfl⟩ | ⟨uninitialized, idle⟩
  · exact ⟨k, by rw [same, known], le_rfl⟩
  · exact acknowledge_mono known ns' version rest
  · have none := h.fresh uninitialized (by rw [idle]; rfl) ns
    rw [none] at known
    cases known

/-! ## Requested bumps -/

/-- A bump is pending, or a flush of it is under way. -/
def Owed (p : Poller) (ns : String) : Prop :=
  ns ∈ p.pendingBumps ∨ ∃ attempt todo, p.cycle = .flushing ns attempt todo

def Commits (p : Poller) (ns : String) (act : PollerAct) : Prop :=
  act = .flushWrite .committed ∧ ∃ attempt todo, p.cycle = .flushing ns attempt todo

theorem flush_failed {ns : String} {attempt : ℕ} {todo : List String} {outcome : BumpWrite}
    (flushing : p.cycle = .flushing ns attempt todo)
    (failed : afterBumpWrite attempt outcome = .returned false)
    (step : pollerStep callbacks versions p (.flushWrite outcome) = some (p', versions')) :
    ns ∈ p'.pendingBumps := by
  simp only [pollerStep, flushing, failed] at step
  cases step
  exact Finset.mem_insert_self ns _

theorem afterBumpWrite_true {attempt : ℕ} {outcome : BumpWrite}
    (h : afterBumpWrite attempt outcome = .returned true) : outcome = .committed := by
  cases outcome with
  | committed => rfl
  | operationalError =>
    simp only [afterBumpWrite] at h
    split at h <;> cases h
  | otherError => cases h

theorem Owed.flushWrite {ns : String} (owed : Owed p ns) {outcome : BumpWrite}
    (unwritten : ¬ Commits p ns (.flushWrite outcome))
    (step : pollerStep callbacks versions p (.flushWrite outcome) = some (p', versions')) :
    Owed p' ns := by
  simp only [pollerStep] at step
  split at step
  · rename_i ns' attempt todo flushing
    by_cases same : ns' = ns
    · subst same
      split at step <;> cases step
      · rename_i wrote
        exact absurd ⟨congrArg _ (afterBumpWrite_true wrote), attempt, todo, flushing⟩ unwritten
      · exact .inl (Finset.mem_insert_self ns' _)
      · exact .inr ⟨_, _, rfl⟩
    · have pending : ns ∈ p.pendingBumps := by
        rcases owed with pending | ⟨attempt', todo', hcycle⟩
        · exact pending
        · rw [flushing, Cycle.flushing.injEq] at hcycle
          exact absurd hcycle.1 same
      split at step <;> cases step
      · exact .inl pending
      · exact .inl (Finset.mem_insert_of_mem pending)
      · exact .inl pending
  · cases step

theorem Owed.step {ns : String} (owed : Owed p ns) (unwritten : ¬ Commits p ns act)
    (step : pollerStep callbacks versions p act = some (p', versions')) : Owed p' ns := by
  cases act with
  | requestBump ns' =>
    cases step
    exact owed.imp_left Finset.mem_insert_of_mem
  | flushWrite outcome => exact owed.flushWrite unwritten step
  | flushNext =>
    simp only [pollerStep] at step
    split at step <;> cases step
    rename_i ns' todo flush
    have pending : ns ∈ p.pendingBumps := owed.resolve_right (by rw [flush]; simp)
    by_cases same : ns = ns'
    · subst same
      exact .inr ⟨0, todo, rfl⟩
    · exact .inl (Finset.mem_erase_of_ne_of_mem same pending)
  | bump | bumpWrite | initializeVersions =>
    simp only [pollerStep] at step
    repeat' split at step
    all_goals cases step
    all_goals exact owed
  | poll | read | row | callback | callbacksDone =>
    -- the cycle holds no flush
    refine .inl ?_
    simp only [pollerStep] at step
    repeat' split at step
    all_goals cases step
    all_goals exact owed.resolve_right (by simp_all)

/-! ## Runs of the bus -/

variable {s s' : Bus} {traces traces' : ℕ → Trace}

/-- A step of the bus is a step of one poller; the others stay as they are. -/
theorem busStep_cases {a : ℕ × PollerAct} (step : busStep callbacks s a = some s') :
    pollerStep callbacks s.versions (s.pollers a.1) a.2 = some (s'.pollers a.1, s'.versions) ∧
      ∀ r ≠ a.1, s'.pollers r = s.pollers r := by
  obtain ⟨after, hstep, rfl⟩ := Option.map_eq_some_iff.mp step
  refine ⟨?_, fun r other => Function.update_of_ne other _ _⟩
  simp only [hstep, Function.update_self]

def AllDelivered (callbacks : String → ℕ) (x : Bus × (ℕ → Trace)) : Prop :=
  ∀ r, Delivered callbacks (x.1.pollers r) (x.2 r)

theorem AllDelivered.step {x y : Bus × (ℕ → Trace)} {a : ℕ × PollerAct}
    (h : AllDelivered callbacks x)
    (step : recording (busStep callbacks) noteReplica x a = some y) :
    AllDelivered callbacks y := by
  obtain ⟨hbus, hnote⟩ := recording_eq_some.mp step
  obtain ⟨hpoller, others⟩ := busStep_cases hbus
  intro r
  by_cases own : r = a.1
  · subst own
    rw [hnote, noteReplica, Function.update_self]
    exact (h a.1).step hpoller
  · rw [hnote, noteReplica, Function.update_of_ne own, others r own]
    exact h r

theorem Started.allDelivered {x : Bus × (ℕ → Trace)} (h : Started x) : AllDelivered callbacks x := by
  intro r
  rw [h.1 r, h.2 r]
  refine ⟨fun _ _ _ => rfl, ?_, ?_, ?_⟩
  · rintro row ⟨⟩
  · rintro _ _ _ ⟨⟩
  · rintro _ _ ⟨⟩

/-- Every version known here is known there, or a later one. -/
def KnownLE (x y : Bus × (ℕ → Trace)) : Prop :=
  ∀ r ns k, (x.1.pollers r).knownVersions ns = some k →
    ∃ k', (y.1.pollers r).knownVersions ns = some k' ∧ k ≤ k'

theorem KnownLE.trans {x y z : Bus × (ℕ → Trace)} (first : KnownLE x y) (second : KnownLE y z) :
    KnownLE x z := by
  intro r ns k known
  obtain ⟨k₁, known₁, le₁⟩ := first r ns k known
  obtain ⟨k₂, known₂, le₂⟩ := second r ns k₁ known₁
  exact ⟨k₂, known₂, le₁.trans le₂⟩

theorem AllDelivered.known_mono {x y : Bus × (ℕ → Trace)} {a : ℕ × PollerAct}
    (h : AllDelivered callbacks x)
    (step : recording (busStep callbacks) noteReplica x a = some y) : KnownLE x y := by
  obtain ⟨hbus, -⟩ := recording_eq_some.mp step
  obtain ⟨hpoller, others⟩ := busStep_cases hbus
  intro r ns k known
  by_cases own : r = a.1
  · subst own
    exact (h a.1).known_mono hpoller known
  · exact ⟨k, by rw [others r own, known], le_rfl⟩

/-- Replica `r` writes the bump of `ns` it has been asked for. -/
def FlushWrites (r : ℕ) (ns : String) (s : Bus) (a : ℕ × PollerAct) : Prop :=
  a.1 = r ∧ Commits (s.pollers r) ns a.2

theorem Owed.run {r : ℕ} {ns : String} (owed : Owed (s.pollers r) ns)
    (run : Steps (busStep callbacks) (fun s a => ¬ FlushWrites r ns s a) s s') :
    Owed (s'.pollers r) ns := by
  refine run.invariant (I := fun s => Owed (s.pollers r) ns) ?_ owed
  intro s a s' owed unwritten step
  obtain ⟨hpoller, others⟩ := busStep_cases step
  by_cases own : r = a.1
  · subst own
    exact owed.step (fun commits => unwritten ⟨rfl, commits⟩) hpoller
  · rw [others r own]
    exact owed

/-- What a poller knows above its baseline its callbacks have served; no known version is
lowered; and a requested bump stays owed until a flush of it commits, which a flush whose
write failed puts back. -/
theorem no_invalidation_lost
    (h : Reachable (recording (busStep callbacks) noteReplica) Any Started (s, traces)) :
    (∀ r ns k, (s.pollers r).knownVersions ns = some k → (traces r).baseline ns < k →
      ∀ i < callbacks ns, Served (traces r).events ns i k) ∧
    (∀ y, Steps (recording (busStep callbacks) noteReplica) Any (s, traces) y →
      KnownLE (s, traces) y) ∧
    (∀ r ns s', busStep callbacks s (r, .requestBump ns) = some s' →
      ns ∈ (s'.pollers r).pendingBumps) ∧
    (∀ r ns attempt todo outcome s', (s.pollers r).cycle = .flushing ns attempt todo →
      afterBumpWrite attempt outcome = .returned false →
      busStep callbacks s (r, .flushWrite outcome) = some s' →
      ns ∈ (s'.pollers r).pendingBumps) ∧
    ∀ r ns s', Owed (s.pollers r) ns →
      Steps (busStep callbacks) (fun s a => ¬ FlushWrites r ns s a) s s' →
      Owed (s'.pollers r) ns := by
  have delivered : AllDelivered callbacks (s, traces) :=
    h.invariant (fun _ start => start.allDelivered) fun _ _ _ kept _ step => kept.step step
  refine ⟨fun r => (delivered r).acknowledged, fun y run => ?_, fun r ns s' step => ?_,
    fun r ns attempt todo outcome s' flushing failed step => ?_,
    fun r ns s' owed run => owed.run run⟩
  · refine run.relates (I := AllDelivered callbacks) (R := KnownLE) ?_
      (fun _ _ _ => KnownLE.trans) ?_ ?_ delivered
    · exact fun x r ns k known => ⟨k, known, le_rfl⟩
    · exact fun _ _ _ kept _ step => kept.step step
    · exact fun _ _ _ kept _ step => kept.known_mono step
  · obtain ⟨hpoller, -⟩ := busStep_cases step
    simp only [pollerStep, Option.some.injEq, Prod.mk.injEq] at hpoller
    rw [← hpoller.1]
    exact Finset.mem_insert_self ns _
  · exact flush_failed flushing failed (busStep_cases step).1

/-! ## A bump that is not requested -/

def quietBus : Bus × (ℕ → Trace) := (⟨Dict.empty, fun _ => {}⟩, fun _ => {})

theorem quietBus_started : Started quietBus := ⟨fun _ => rfl, fun _ => rfl⟩

def oneCallback (_ : String) : ℕ := 1

def afterActs (acts : List (ℕ × PollerAct)) : Bus × (ℕ → Trace) :=
  (replay (recording (busStep oneCallback) noteReplica) quietBus acts).getD quietBus

/-- A mutation bumps its namespace itself, under a database that stays locked. -/
def lockedActs : List (ℕ × PollerAct) :=
  [(0, .bump 0 "api_key"), (0, .bumpWrite 0 .operationalError),
    (0, .bumpWrite 0 .operationalError), (0, .bumpWrite 0 .operationalError)]

theorem direct_bump_lost :
    Reachable (recording (busStep oneCallback) noteReplica) Any Started (afterActs lockedActs) ∧
    .bumpFailed "api_key" ∈ ((afterActs lockedActs).2 0).events ∧
    (afterActs lockedActs).1.versions.get "api_key" = none ∧
    "api_key" ∉ ((afterActs lockedActs).1.pollers 0).pendingBumps ∧
    ¬ Owed ((afterActs lockedActs).1.pollers 0) "api_key" := by
  have quiet : ((afterActs lockedActs).1.pollers 0).pendingBumps = ∅ := by decide +kernel
  have idle : ((afterActs lockedActs).1.pollers 0).cycle = .idle := by decide +kernel
  refine ⟨reachable_of_replay lockedActs quietBus_started (fun _ _ _ => trivial) rfl,
    by decide +kernel, by decide +kernel, by simp [quiet], ?_⟩
  rintro (pending | ⟨attempt, todo, flushing⟩)
  · simp [quiet] at pending
  · rw [idle] at flushing
    cases flushing

/-- Replica 0 is primed, replica 1 bumps, and replica 0 hears of it. -/
def heardActs : List (ℕ × PollerAct) :=
  [(0, .poll), (0, .read (some [])), (0, .row), (1, .bump 0 "settings"),
    (1, .bumpWrite 0 .committed), (0, .poll), (0, .read (some [("settings", 1)])), (0, .row),
    (0, .callback true), (0, .callbacksDone)]

theorem peer_bump_heard :
    ((afterActs heardActs).1.pollers 0).knownVersions "settings" = some 1 ∧
    Served ((afterActs heardActs).2 0).events "settings" 0 1 := by
  have known : ((afterActs heardActs).1.pollers 0).knownVersions "settings" = some 1 := by
    decide +kernel
  have run : Reachable (recording (busStep oneCallback) noteReplica) Any Started
      ((afterActs heardActs).1, (afterActs heardActs).2) := by
    refine reachable_of_replay heardActs quietBus_started (fun _ _ _ => trivial) ?_
    exact replay_eq_getD (by decide +kernel) _
  exact ⟨known, (no_invalidation_lost run).1 0 "settings" 1 known (by decide +kernel) 0
    (by decide)⟩

end InvalidationBus
