import Mathlib.Logic.Basic
import Mathlib.Tactic.TypeStar

/-!
# Runs of guarded transition systems

A system is a partial step function: every choice of the scheduler, the clock
and the environment is part of the action, and `none` says that the action is
not enabled. `ok` restricts the steps of a run; the unrestricted system has
`ok := fun _ _ => True`. No fairness and no termination is asserted here.
-/

namespace Runs

universe u v
variable {State : Type u} {Act : Type v}

def replay (step : State → Act → Option State) : State → List Act → Option State
  | s, [] => some s
  | s, a :: rest => (step s a).bind fun t => replay step t rest

theorem replay_append (step : State → Act → Option State) (s : State) (acts rest : List Act) :
    replay step s (acts ++ rest) = (replay step s acts).bind fun t => replay step t rest := by
  induction acts generalizing s with
  | nil => rfl
  | cons a later ih =>
    rw [List.cons_append, replay, replay]
    cases step s a with
    | none => rfl
    | some t => exact ih t

/-- States reached from `s` by finitely many steps that all meet `ok`. -/
inductive Steps (step : State → Act → Option State) (ok : State → Act → Prop) :
    State → State → Prop where
  | refl (s : State) : Steps step ok s s
  | tail {s t r : State} (a : Act) : Steps step ok s t → ok t a → step t a = some r →
      Steps step ok s r

def Reachable (step : State → Act → Option State) (ok : State → Act → Prop)
    (init : State → Prop) (s : State) : Prop :=
  ∃ s₀, init s₀ ∧ Steps step ok s₀ s

def Any (_ : State) (_ : Act) : Prop := True

variable {step : State → Act → Option State} {ok : State → Act → Prop}
variable {init : State → Prop}

/-- The invariant rule: an invariant of every permitted step is kept by every run. -/
theorem Steps.invariant {I : State → Prop}
    (kept : ∀ s a t, I s → ok s a → step s a = some t → I t)
    {s t : State} (run : Steps step ok s t) (start : I s) : I t := by
  induction run with
  | refl => exact start
  | tail a _ hok hstep ih => exact kept _ a _ ih hok hstep

theorem Reachable.invariant {I : State → Prop} (start : ∀ s, init s → I s)
    (kept : ∀ s a t, I s → ok s a → step s a = some t → I t)
    {s : State} (h : Reachable step ok init s) : I s := by
  obtain ⟨s₀, h₀, run⟩ := h
  exact run.invariant kept (start s₀ h₀)

/-- A reflexive and transitive relation that every step respects relates the two
ends of a run; `I` is an invariant the single steps may rely on. -/
theorem Steps.relates {I : State → Prop} {R : State → State → Prop}
    (refl : ∀ s, R s s) (trans : ∀ s t r, R s t → R t r → R s r)
    (kept : ∀ s a t, I s → ok s a → step s a = some t → I t)
    (respects : ∀ s a t, I s → ok s a → step s a = some t → R s t)
    {s t : State} (run : Steps step ok s t) (start : I s) : R s t := by
  induction run with
  | refl => exact refl _
  | tail a before hok hstep ih =>
    have here := before.invariant kept start
    exact trans _ _ _ ih (respects _ a _ here hok hstep)

theorem Steps.weaken {ok' : State → Act → Prop} (imp : ∀ s a, ok s a → ok' s a) {s t : State}
    (run : Steps step ok s t) : Steps step ok' s t := by
  induction run with
  | refl => exact .refl _
  | tail a _ hok hstep ih => exact .tail a ih (imp _ a hok) hstep

theorem Steps.trans {s t r : State} (first : Steps step ok s t) (second : Steps step ok t r) :
    Steps step ok s r := by
  induction second with
  | refl => exact first
  | tail a _ hok hstep ih => exact .tail a ih hok hstep

theorem steps_of_replay (acts : List Act) {s t : State} (hok : ∀ s, ∀ a ∈ acts, ok s a)
    (h : replay step s acts = some t) : Steps step ok s t := by
  induction acts generalizing s with
  | nil =>
    have same : s = t := Option.some.inj h
    subst same
    exact .refl s
  | cons a rest ih =>
    obtain ⟨r, hr, htail⟩ := Option.bind_eq_some_iff.mp h
    have first : Steps step ok s r := .tail a (.refl s) (hok s a List.mem_cons_self) hr
    exact first.trans (ih (fun s b hb => hok s b (List.mem_cons_of_mem a hb)) htail)

theorem reachable_of_replay {s t : State} (acts : List Act) (start : init s)
    (hok : ∀ s, ∀ a ∈ acts, ok s a) (h : replay step s acts = some t) :
    Reachable step ok init t :=
  ⟨s, start, steps_of_replay acts hok h⟩

theorem Reachable.tail {s t : State} (h : Reachable step ok init s) {a : Act} (hok : ok s a)
    (hstep : step s a = some t) : Reachable step ok init t := by
  obtain ⟨s₀, start, run⟩ := h
  exact ⟨s₀, start, .tail a run hok hstep⟩

theorem replay_eq_getD {s : State} {acts : List Act} (runs : (replay step s acts).isSome = true)
    (d : State) : replay step s acts = some ((replay step s acts).getD d) := by
  obtain ⟨t, ht⟩ := Option.isSome_iff_exists.mp runs
  rw [ht, Option.getD_some]

/-- Where every bad step ends its run in a state that is not good, and the other steps keep what
makes an end good, the end of a run is good exactly when none of its steps is bad. -/
theorem replay_good_iff {Sound Good Ended : State → Prop} {Bad : State → Act → Prop}
    (kept : ∀ s a t, Sound s → step s a = some t → ¬ Bad s a → Sound t)
    (ends : ∀ s a t, Sound s → step s a = some t → Bad s a → (∀ b, step t b = none) ∧ ¬ Good t)
    (good : ∀ t, Sound t → Ended t → Good t)
    (acts : List Act) {s t : State} (start : Sound s) (run : replay step s acts = some t)
    (ended : Ended t) :
    Good t ↔ ∀ before a later r, acts = before ++ a :: later → replay step s before = some r →
      ¬ Bad r a := by
  induction acts generalizing s with
  | nil =>
    cases run
    refine ⟨fun _ before a later _ split => ?_, fun _ => good t start ended⟩
    exact absurd split.symm (List.append_ne_nil_of_right_ne_nil before (List.cons_ne_nil a later))
  | cons a rest ih =>
    obtain ⟨r, hstep, later⟩ := Option.bind_eq_some_iff.mp run
    by_cases bad : Bad s a
    · obtain ⟨stuck, notGood⟩ := ends s a r start hstep bad
      have last : rest = [] ∧ r = t := by
        cases rest with
        | nil => exact ⟨rfl, Option.some.inj later⟩
        | cons b rest => simp [replay, stuck b] at later
      obtain ⟨rfl, rfl⟩ := last
      exact ⟨fun h => absurd h notGood, fun h => absurd bad (h [] a [] s rfl rfl)⟩
    · rw [ih (kept s a r start hstep bad) later]
      constructor
      · intro clean before b after u split replayed
        cases before with
        | nil =>
          cases split
          cases replayed
          exact bad
        | cons first before =>
          cases split
          obtain ⟨r', hstep', replayed⟩ := Option.bind_eq_some_iff.mp replayed
          rw [hstep] at hstep'
          cases hstep'
          exact clean before b after u rfl replayed
      · intro clean before b after u split replayed
        refine clean (a :: before) b after u (by rw [split]; rfl) ?_
        rw [replay, hstep]
        exact replayed

/-- Where something holds at the start of a run and not at its end, some step ends it. -/
theorem replay_turns {P : State → Prop} (acts : List Act) {s t : State}
    (run : replay step s acts = some t) (start : P s) (ended : ¬ P t) :
    ∃ before a later r r', acts = before ++ a :: later ∧ replay step s before = some r ∧
      step r a = some r' ∧ P r ∧ ¬ P r' := by
  induction acts generalizing s with
  | nil =>
    cases run
    exact absurd start ended
  | cons a rest ih =>
    obtain ⟨r, hstep, run'⟩ := Option.bind_eq_some_iff.mp run
    by_cases still : P r
    · obtain ⟨before, b, later, q, q', split, replayed, turn⟩ := ih run' still
      refine ⟨a :: before, b, later, q, q', by rw [split]; rfl, ?_, turn⟩
      rw [replay, hstep]
      exact replayed
    · exact ⟨[], a, rest, s, r, rfl, rfl, hstep, start, still⟩

/-! ## Records of a run -/

variable {Record : Type*}

/-- The system with a record on the side; `note` sees each step as it is taken. -/
def recording (step : State → Act → Option State) (note : State → Act → State → Record → Record)
    (x : State × Record) (a : Act) : Option (State × Record) :=
  (step x.1 a).map fun t => (t, note x.1 a t x.2)

theorem recording_eq_some {note : State → Act → State → Record → Record}
    {x y : State × Record} {a : Act} :
    recording step note x a = some y ↔
      step x.1 a = some y.1 ∧ y.2 = note x.1 a y.1 x.2 := by
  obtain ⟨t, g⟩ := y
  simp only [recording, Option.map_eq_some_iff, Prod.mk.injEq]
  constructor
  · rintro ⟨t', hstep, rfl, rfl⟩
    exact ⟨hstep, rfl⟩
  · rintro ⟨hstep, rfl⟩
    exact ⟨t, hstep, rfl, rfl⟩

end Runs
