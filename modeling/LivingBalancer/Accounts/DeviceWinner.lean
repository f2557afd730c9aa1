import LivingBalancer.Accounts.DeviceFlows

/-!
# One winner per device flow

Who may save an account or write a status for a device flow, in every run of any number of
replicas: the task that has consumed the slot while it named the flow, of which there is
one at most. A success in the table is never written over.
-/

namespace DeviceOauth

open Runs

variable {s s' : System} {act : Act} {log : List FlowEvent}

/-- The slot is consumed before these stages. -/
def PollStage.consumed : PollStage → Bool
  | .polling | .consuming | .closing _ => false
  | .persisting | .settling | .writingSuccess | .writingError _ | .settlingError _ => true

/-- Task `p` saves an account or writes a status for the flow. -/
def FlowEvent.acts (e : FlowEvent) (p flow : ℕ) : Prop :=
  e = .persisted p flow ∨ ∃ status, e = .wrote p flow status

/-! ## What a step leaves as it is -/

def StartsKept (s s' : System) : Prop :=
  ∀ n st', s'.starts n = some st' → ∃ st, s.starts n = some st ∧ st.flow = st'.flow ∧
    (st'.stage ≠ .claimed → st.stage ≠ .claimed) ∧
    (st'.stage = .persisting → st.stage = .persisting)

def TasksKept (s s' : System) : Prop :=
  ∀ p t', s'.tasks p = some t' → t'.stage.consumed = true →
    ∃ t, s.tasks p = some t ∧ t.flow = t'.flow ∧ t.stage.consumed = true

/-- No row is added, and a success stays or is purged. -/
def RowsKept (rows rows' : Dict ℕ FlowRow) : Prop :=
  ∀ flow row', rows'.get flow = some row' → ∃ row, rows.get flow = some row ∧
    (row.status = .success → row'.status = .success)

theorem RowsKept.refl (rows : Dict ℕ FlowRow) : RowsKept rows rows :=
  fun _ row' h => ⟨row', h, id⟩

theorem RowsKept.filter (rows : Dict ℕ FlowRow) (p : ℕ × FlowRow → Bool) :
    RowsKept rows (rows.filter p) := by
  intro flow row' h
  rw [Dict.get_filter, Option.filter_eq_some_iff] at h
  exact ⟨row', h.1, id⟩

theorem RowsKept.purge (rows : Dict ℕ FlowRow) (now : ℤ) (ranked : List (ℕ × FlowRow)) :
    RowsKept rows (purgeExpired rows now ranked) := by
  intro flow row' h
  obtain ⟨row, live, success⟩ := RowsKept.filter _ _ flow row' h
  obtain ⟨row₀, here, success₀⟩ := RowsKept.filter _ _ flow row live
  exact ⟨row₀, here, fun before => success (success₀ before)⟩

/-- A status write reaches an existing row, and a success only as another success. -/
theorem RowsKept.setStatus (rows : Dict ℕ FlowRow) (flow : ℕ) (status : FlowStatus)
    (message : Option String) (now : ℤ) :
    RowsKept rows (setStatus rows flow status message now).1 := by
  intro flow' row' h
  simp only [DeviceOauth.setStatus] at h
  split at h
  · rename_i row here
    split at h
    · rename_i allowed
      rw [Dict.get_set] at h
      by_cases same : flow' = flow
      · subst same
        rw [if_pos rfl] at h
        cases h
        refine ⟨row, here, fun success => ?_⟩
        rcases allowed with again | unfinished
        · exact again
        · exact absurd success unfinished
      · rw [if_neg same] at h
        exact ⟨row', h, id⟩
    · exact ⟨row', h, id⟩
  · exact ⟨row', h, id⟩

theorem StartsKept.setStart {n : ℕ} {st : FlowStart} (old : s.starts n = some st)
    {start : Option FlowStart} (starts : s'.starts = Function.update s.starts n start)
    (kept : ∀ st', start = some st' → st.flow = st'.flow ∧
      (st'.stage ≠ .claimed → st.stage ≠ .claimed) ∧
      (st'.stage = .persisting → st.stage = .persisting)) : StartsKept s s' := by
  intro m st' h
  rw [starts] at h
  by_cases own : m = n
  · subst own
    rw [Function.update_self] at h
    exact ⟨st, old, kept st' h⟩
  · rw [Function.update_of_ne own] at h
    exact ⟨st', h, rfl, id, id⟩

theorem TasksKept.setTask {p : ℕ} {task : Option PollTask}
    (tasks : s'.tasks = Function.update s.tasks p task)
    (kept : ∀ t', task = some t' → t'.stage.consumed = true →
      ∃ t, s.tasks p = some t ∧ t.flow = t'.flow ∧ t.stage.consumed = true) : TasksKept s s' := by
  intro q t' h consumed
  rw [tasks] at h
  by_cases own : q = p
  · subst own
    rw [Function.update_self] at h
    exact kept t' h consumed
  · rw [Function.update_of_ne own] at h
    exact ⟨t', h, rfl, consumed⟩

/-- A step that starts nothing and leaves the slot alone. -/
structure Calm (s s' : System) : Prop where
  next : s.next ≤ s'.next
  slot : s'.slot = s.slot
  starts : StartsKept s s'
  tasks : TasksKept s s'
  rows : RowsKept s.rows s'.rows

theorem Calm.of_same (next : s.next ≤ s'.next) (slot : s'.slot = s.slot)
    (starts : s'.starts = s.starts) (tasks : s'.tasks = s.tasks) (rows : RowsKept s.rows s'.rows) :
    Calm s s' where
  next := next
  slot := slot
  starts n st' h := ⟨st', by rwa [← starts], rfl, id, id⟩
  tasks p t' h consumed := ⟨t', by rwa [← tasks], rfl, consumed⟩
  rows := rows

/-- What a step does to the slot, the starts, the tasks and the rows, with its events. -/
inductive Effect (s s' : System) : List FlowEvent → Prop
  | calm (calm : Calm s s') : Effect s s' []
  | acts (p : ℕ) (t : PollTask) (e : FlowEvent) (calm : Calm s s') (task : s.tasks p = some t)
      (consumed : t.stage.consumed = true) (event : e.acts p t.flow) : Effect s s' [e]
  | begins (n : ℕ) (st : FlowStart) (flow : st.flow = s.next) (next : s'.next = s.next + 1)
      (slot : s'.slot = s.slot) (starts : s'.starts = Function.update s.starts n (some st))
      (stage : st.stage = .persisting) (tasks : s'.tasks = s.tasks) (rows : s'.rows = s.rows) :
      Effect s s' []
  | creates (n : ℕ) (st : FlowStart) (row : FlowRow) (old : s.starts n = some st)
      (stage : st.stage = .persisting) (status : row.status = .pending) (next : s'.next = s.next)
      (slot : s'.slot = s.slot) (starts : StartsKept s s')
      (left : ∀ st', s'.starts n = some st' → st'.stage ≠ .persisting)
      (tasks : s'.tasks = s.tasks) (rows : s'.rows = s.rows.set st.flow row) : Effect s s' []
  | claims (n : ℕ) (st : FlowStart) (generation : ℕ) (old : s.starts n = some st)
      (stage : st.stage = .claiming) (next : s'.next = s.next)
      (slot : s'.slot = some ⟨st.flow, generation⟩)
      (starts : s'.starts = Function.update s.starts n (some { st with stage := .claimed }))
      (tasks : s'.tasks = s.tasks) (rows : s'.rows = s.rows) :
      Effect s s' [.claimed st.flow (s.slot.map (·.flow))]
  | consumes (p : ℕ) (t t' : PollTask) (generation : ℕ) (flow : t'.flow = t.flow)
      (named : s.slot = some ⟨t.flow, generation⟩) (next : s'.next = s.next) (slot : s'.slot = none)
      (starts : s'.starts = s.starts) (tasks : s'.tasks = Function.update s.tasks p (some t'))
      (rows : s'.rows = s.rows) : Effect s s' [.consumed p t.flow]

/-! ## What each step does -/

theorem TasksKept.refl_of (same : s'.tasks = s.tasks) : TasksKept s s' :=
  fun p t' h consumed => ⟨t', by rwa [← same], rfl, consumed⟩

theorem claimDeviceSlot_eq (slot : Option DeviceSlot) (flow : ℕ) :
    ∃ generation, claimDeviceSlot slot flow = some ⟨flow, generation⟩ := by
  cases slot with
  | none => exact ⟨1, rfl⟩
  | some held => exact ⟨held.generation + 1, rfl⟩

theorem consumeDeviceSlot_true {slot : Option DeviceSlot} {flow : ℕ}
    (h : (consumeDeviceSlot slot flow).2 = true) :
    ∃ generation, slot = some ⟨flow, generation⟩ ∧ (consumeDeviceSlot slot flow).1 = none := by
  cases slot with
  | none => cases h
  | some held =>
    simp only [consumeDeviceSlot] at h ⊢
    split at h
    · rename_i named
      exact ⟨held.generation, by rw [← named], by rw [if_pos named]⟩
    · cases h

/-- A step that only moves a start on, or ends it. -/
theorem Calm.ofStart {n : ℕ} {st : FlowStart} (old : s.starts n = some st)
    {start : Option FlowStart} (starts : s'.starts = Function.update s.starts n start)
    (kept : ∀ st', start = some st' → st.flow = st'.flow ∧
      (st'.stage ≠ .claimed → st.stage ≠ .claimed) ∧
      (st'.stage = .persisting → st.stage = .persisting))
    (next : s.next ≤ s'.next) (slot : s'.slot = s.slot) (tasks : TasksKept s s')
    (rows : s'.rows = s.rows) : Calm s s' where
  next := next
  slot := slot
  starts := .setStart old starts kept
  tasks := tasks
  rows := by
    rw [rows]
    exact .refl _

/-- A step that only ends a start. -/
theorem Calm.endStart {n : ℕ} {st : FlowStart} (old : s.starts n = some st)
    (starts : s'.starts = Function.update s.starts n none) (next : s.next ≤ s'.next)
    (slot : s'.slot = s.slot) (tasks : TasksKept s s') (rows : s'.rows = s.rows) : Calm s s' := by
  refine .ofStart old starts ?_ next slot tasks rows
  rintro st' ⟨⟩

/-- A step that only moves a task on, or ends it. -/
theorem Calm.ofTask {p : ℕ} {task : Option PollTask}
    (tasks : s'.tasks = Function.update s.tasks p task)
    (kept : ∀ t', task = some t' → t'.stage.consumed = true →
      ∃ t, s.tasks p = some t ∧ t.flow = t'.flow ∧ t.stage.consumed = true)
    (next : s'.next = s.next) (slot : s'.slot = s.slot) (starts : s'.starts = s.starts)
    (rows : RowsKept s.rows s'.rows) : Calm s s' where
  next := Nat.le_of_eq next.symm
  slot := slot
  starts n st' h := ⟨st', by rwa [← starts], rfl, id, id⟩
  tasks := .setTask tasks kept
  rows := rows

/-- A step that moves a task to a stage that has consumed no more than its own. -/
theorem Calm.moveTask {p : ℕ} {t t' : PollTask} (task : s.tasks p = some t)
    (tasks : s'.tasks = Function.update s.tasks p (some t')) (flow : t.flow = t'.flow)
    (consumed : t'.stage.consumed = true → t.stage.consumed = true) (next : s'.next = s.next)
    (slot : s'.slot = s.slot) (starts : s'.starts = s.starts) (rows : RowsKept s.rows s'.rows) :
    Calm s s' := by
  refine .ofTask tasks ?_ next slot starts rows
  rintro _ ⟨⟩ reached
  exact ⟨t, task, flow, consumed reached⟩

/-- A step that only ends a task, with its status written or not. -/
theorem Calm.endTask {p : ℕ} (tasks : s'.tasks = Function.update s.tasks p none)
    (next : s'.next = s.next) (slot : s'.slot = s.slot) (starts : s'.starts = s.starts)
    (rows : RowsKept s.rows s'.rows) : Calm s s' := by
  refine .ofTask tasks ?_ next slot starts rows
  rintro t' ⟨⟩

theorem startStep_effect (step : startStep s act = some s') : Effect s s' (eventsOf s act) := by
  cases act with
  | startDevice n r deviceAuthId userCode expiresIn =>
    simp only [startStep] at step
    split at step <;> cases step
    exact .begins n _ rfl rfl rfl rfl rfl rfl rfl
  | startBrowser n r expiresIn =>
    simp only [startStep] at step
    split at step <;> cases step
    exact .begins n _ rfl rfl rfl rfl rfl rfl rfl
  | persistRow n =>
    simp only [startStep] at step
    split at step
    · rename_i r flow state old
      split at step
      · cases step
        exact .calm (.endStart old rfl (Nat.le_refl _) rfl (.refl_of rfl) rfl)
      · split at step <;> cases step
        · refine .creates n _ state.toRow old rfl rfl rfl rfl (.setStart old rfl ?_) ?_ rfl rfl
          · rintro st' ⟨⟩
            exact ⟨rfl, fun _ => by simp, fun h => by cases h⟩
          · intro st' h
            simp only [System.setStart, Function.update_self] at h
            cases h
            simp
        · refine .creates n _ state.toRow old rfl rfl rfl rfl (.setStart old rfl ?_) ?_ rfl rfl
          · rintro st' ⟨⟩
          · intro st' h
            simp only [System.setStart, Function.update_self] at h
            cases h
    · cases step
  | check n =>
    simp only [startStep] at step
    split at step
    · rename_i r flow state old
      split at step
      · split at step <;> cases step
        · refine .calm (.ofStart old rfl ?_ (Nat.le_refl _) rfl (.refl_of rfl) rfl)
          rintro st' ⟨⟩
          exact ⟨rfl, fun _ => by simp, fun h => by cases h⟩
        · exact .calm (.endStart old rfl (Nat.le_refl _) rfl (.refl_of rfl) rfl)
      · cases step
    · cases step
  | claim n =>
    simp only [startStep] at step
    split at step
    · rename_i r flow state old
      obtain ⟨generation, slot⟩ := claimDeviceSlot_eq s.slot flow
      cases step
      simp only [eventsOf, old]
      exact .claims n _ generation old rfl rfl slot rfl rfl rfl
    · cases step
  | ensurePollTask n =>
    simp only [startStep] at step
    split at step
    · rename_i r flow state old
      split at step
      · split at step <;> cases step
        · -- the new task polls
          refine .calm (.endStart old rfl (Nat.le_succ _) rfl (.setTask rfl ?_) rfl)
          rintro t' ⟨⟩ consumed
          cases consumed
        · exact .calm (.endStart old rfl (Nat.le_refl _) rfl (.refl_of rfl) rfl)
      · cases step
        exact .calm (.endStart old rfl (Nat.le_refl _) rfl (.refl_of rfl) rfl)
    · cases step
  | abandonStart n =>
    simp only [startStep] at step
    split at step
    · rename_i r flow state stage old
      split at step <;> cases step
      · exact .calm (.endStart old rfl (Nat.le_refl _) rfl (.refl_of rfl) rfl)
      · exact .calm (.endStart old rfl (Nat.le_refl _) rfl (.refl_of rfl) rfl)
    · cases step
  | _ => cases step

theorem pollStep_effect (step : pollStep s act = some s') : Effect s s' (eventsOf s act) := by
  cases act with
  | pollTokens p =>
    simp only [pollStep] at step
    split at step <;> cases step
    rename_i r flow expires task
    exact .calm (.moveTask task rfl rfl (fun reached => by cases reached) rfl rfl rfl (.refl _))
  | pollExpired p =>
    simp only [pollStep] at step
    split at step
    · rename_i r flow expires task
      split at step <;> cases step
      exact .calm (.moveTask task rfl rfl (fun reached => by cases reached) rfl rfl rfl (.refl _))
    · cases step
  | pollError p message =>
    simp only [pollStep] at step
    split at step <;> cases step
    · rename_i r flow expires task
      exact .calm (.moveTask task rfl rfl (fun reached => by cases reached) rfl rfl rfl (.refl _))
    · rename_i r flow expires task
      exact .calm (.moveTask task rfl rfl (fun _ => rfl) rfl rfl rfl (.refl _))
  | pollConsume p =>
    simp only [pollStep] at step
    split at step
    · rename_i task old
      obtain ⟨r, flow, expires, stage⟩ := task
      by_cases consumed : (consumeDeviceSlot s.slot flow).2 = true
      · obtain ⟨generation, named, emptied⟩ := consumeDeviceSlot_true consumed
        cases stage with
        | consuming =>
          simp only [consumed, if_true, Option.some.injEq] at step
          subst step
          simp only [eventsOf, old, consumed, if_true]
          exact .consumes p ⟨r, flow, expires, .consuming⟩ ⟨r, flow, expires, .persisting⟩
            generation rfl named rfl emptied rfl rfl rfl
        | closing message =>
          simp only [consumed, if_true, Option.some.injEq] at step
          subst step
          simp only [eventsOf, old, consumed, if_true]
          exact .consumes p ⟨r, flow, expires, .closing message⟩
            ⟨r, flow, expires, .writingError message⟩ generation rfl named rfl emptied rfl rfl rfl
        | _ => cases step
      · cases stage with
        | consuming | closing message =>
          simp only [consumed, Bool.false_eq_true, if_false, Option.some.injEq] at step
          subst step
          simp only [eventsOf, old, consumed, Bool.false_eq_true, if_false]
          exact .calm (.endTask rfl rfl rfl rfl (.refl _))
        | _ => cases step
    · cases step
  | pollPersist p =>
    simp only [pollStep] at step
    split at step <;> cases step
    rename_i r flow expires task
    simp only [eventsOf, task]
    exact .acts p _ _ (.moveTask task rfl rfl (fun _ => rfl) rfl rfl rfl (.refl _))
      task rfl (.inl rfl)
  | pollSettle p =>
    simp only [pollStep] at step
    split at step
    · rename_i r flow expires task
      split at step <;> cases step
      simp only [eventsOf, task]
      exact .acts p _ _ (.moveTask task rfl rfl (fun _ => rfl) rfl rfl rfl (.refl _))
        task rfl (.inr ⟨_, rfl⟩)
    · rename_i r flow expires message task
      split at step <;> cases step
      simp only [eventsOf, task]
      exact .acts p _ _ (.endTask rfl rfl rfl rfl (.refl _)) task rfl (.inr ⟨_, rfl⟩)
    · cases step
  | pollWrite p =>
    simp only [pollStep] at step
    split at step
    · rename_i r flow expires task
      cases step
      simp only [eventsOf, task]
      exact .acts p _ _ (.endTask rfl rfl rfl rfl (.setStatus _ _ _ _ _)) task rfl (.inr ⟨_, rfl⟩)
    · rename_i r flow expires message task
      split at step <;> cases step
      · simp only [eventsOf, task]
        exact .acts p _ _ (.moveTask task rfl rfl (fun _ => rfl) rfl rfl rfl (.setStatus _ _ _ _ _))
          task rfl (.inr ⟨_, rfl⟩)
      · simp only [eventsOf, task]
        exact .acts p _ _ (.endTask rfl rfl rfl rfl (.setStatus _ _ _ _ _)) task rfl (.inr ⟨_, rfl⟩)
    · cases step
  | pollStop p =>
    simp only [pollStep] at step
    split at step <;> cases step
    exact .calm (.endTask rfl rfl rfl rfl (.refl _))
  | _ => cases step

theorem storeStep_effect (step : storeStep s act = some s') : Effect s s' (eventsOf s act) := by
  cases act with
  | load n r flow =>
    simp only [storeStep] at step
    split at step <;> cases step
    exact .calm (.of_same (Nat.le_refl _) rfl rfl rfl (.refl _))
  | reconcile n =>
    simp only [storeStep] at step
    split at step
    · split at step <;> cases step
      exact .calm (.of_same (Nat.le_succ _) rfl rfl rfl (.refl _))
    · cases step
  | complete | forget | cleanup =>
    simp only [storeStep] at step
    split at step <;> cases step
    exact .calm (.of_same (Nat.le_refl _) rfl rfl rfl (.refl _))
  | _ => cases step

theorem callbackStep_effect (step : callbackStep s act = some s') :
    Effect s s' (eventsOf s act) := by
  cases act with
  | callback n r flow =>
    simp only [callbackStep] at step
    split at step <;> cases step
    exact .calm (.of_same (Nat.le_refl _) rfl rfl rfl (.refl _))
  | callbackPersist n =>
    simp only [callbackStep] at step
    split at step <;> cases step
    exact .calm (.of_same (Nat.le_refl _) rfl rfl rfl (.refl _))
  | callbackSettle n =>
    simp only [callbackStep] at step
    split at step
    · split at step <;> cases step
      exact .calm (.of_same (Nat.le_refl _) rfl rfl rfl (.refl _))
    · split at step <;> cases step
      exact .calm (.of_same (Nat.le_refl _) rfl rfl rfl (.refl _))
    · cases step
  | callbackSuccess | callbackError =>
    simp only [callbackStep] at step
    split at step <;> cases step
    exact .calm (.of_same (Nat.le_refl _) rfl rfl rfl (.setStatus _ _ _ _ _))
  | callbackStop n =>
    cases step
    exact .calm (.of_same (Nat.le_refl _) rfl rfl rfl (.refl _))
  | _ => cases step

theorem oauthStep_effect (step : oauthStep s act = some s') : Effect s s' (eventsOf s act) := by
  cases act with
  | tick now =>
    simp only [oauthStep] at step
    split at step <;> cases step
    exact .calm (.of_same (Nat.le_refl _) rfl rfl rfl (.refl _))
  | purge ranked =>
    simp only [oauthStep] at step
    split at step <;> cases step
    exact .calm (.of_same (Nat.le_refl _) rfl rfl rfl (.purge _ _ _))
  | _ =>
    simp only [oauthStep, Option.or_eq_some_iff] at step
    rcases step with start | ⟨-, poll | ⟨-, store | ⟨-, callback⟩⟩⟩
    · exact startStep_effect start
    · exact pollStep_effect poll
    · exact storeStep_effect store
    · exact callbackStep_effect callback

/-! ## The invariant -/

/-- No flow is claimed twice, and none is consumed twice. -/
def Once (newer older : FlowEvent) : Prop :=
  (∀ f f' r r', newer = .claimed f r → older = .claimed f' r' → f ≠ f') ∧
    ∀ f f' p p', newer = .consumed p f → older = .consumed p' f' → f ≠ f'

structure Slotted (s : System) (log : List FlowEvent) : Prop where
  below : ∀ n st, s.starts n = some st → st.flow < s.next
  known : ∀ flow r, .claimed flow r ∈ log → flow < s.next
  rowsBelow : ∀ flow row, s.rows.get flow = some row → flow < s.next
  distinct : ∀ n m st st', s.starts n = some st → s.starts m = some st' → st.flow = st'.flow →
    n = m
  unclaimed : ∀ n st r, s.starts n = some st → st.stage ≠ .claimed → .claimed st.flow r ∉ log
  rowless : ∀ n st, s.starts n = some st → st.stage = .persisting → s.rows.get st.flow = none
  slot : ∀ held, s.slot = some held → (∃ r, .claimed held.flow r ∈ log) ∧
    (∀ p, .consumed p held.flow ∉ log) ∧ ∀ flow, .claimed flow (some held.flow) ∉ log
  once : log.Pairwise Once
  claimed : ∀ p flow, .consumed p flow ∈ log → ∃ r, .claimed flow r ∈ log
  replaced : ∀ flow flow', .claimed flow' (some flow) ∈ log →
    (∃ r, .claimed flow r ∈ log) ∧ ∀ p, .consumed p flow ∉ log
  tasks : ∀ p t, s.tasks p = some t → t.stage.consumed = true → .consumed p t.flow ∈ log
  backed : ∀ e earlier, e :: earlier <:+ log → ∀ p flow, e.acts p flow →
    .consumed p flow ∈ earlier

theorem Slotted.calm (h : Slotted s log) (calm : Calm s s') : Slotted s' log where
  below n st' hn := by
    obtain ⟨st, old, flow, -⟩ := calm.starts n st' hn
    have := h.below n st old
    have := calm.next
    omega
  known flow r hr := Nat.lt_of_lt_of_le (h.known flow r hr) calm.next
  rowsBelow flow row' hrow := by
    obtain ⟨row, old, -⟩ := calm.rows flow row' hrow
    exact Nat.lt_of_lt_of_le (h.rowsBelow flow row old) calm.next
  distinct n m st₁ st₂ hn hm same := by
    obtain ⟨st, old, flow, -⟩ := calm.starts n st₁ hn
    obtain ⟨st', old', flow', -⟩ := calm.starts m st₂ hm
    exact h.distinct n m st st' old old' (flow.trans (same.trans flow'.symm))
  unclaimed n st' r hn stage := by
    obtain ⟨st, old, flow, before, -⟩ := calm.starts n st' hn
    rw [← flow]
    exact h.unclaimed n st r old (before stage)
  rowless n st' hn stage := by
    obtain ⟨st, old, flow, -, before⟩ := calm.starts n st' hn
    have none := h.rowless n st old (before stage)
    cases hrow : s'.rows.get st'.flow with
    | none => rfl
    | some row' =>
      obtain ⟨row, here, -⟩ := calm.rows st'.flow row' hrow
      rw [← flow, none] at here
      cases here
  slot held hslot := h.slot held (calm.slot ▸ hslot)
  once := h.once
  claimed := h.claimed
  replaced := h.replaced
  tasks p t' hp consumed := by
    obtain ⟨t, old, flow, before⟩ := calm.tasks p t' hp consumed
    rw [← flow]
    exact h.tasks p t old before
  backed := h.backed

theorem backed_cons {e : FlowEvent}
    (h : ∀ e earlier, e :: earlier <:+ log → ∀ p flow, e.acts p flow → .consumed p flow ∈ earlier)
    (new : ∀ p flow, e.acts p flow → .consumed p flow ∈ log) :
    ∀ e' earlier, e' :: earlier <:+ e :: log → ∀ p flow, e'.acts p flow →
      .consumed p flow ∈ earlier := by
  intro e' earlier suffix
  rcases List.suffix_cons_iff.mp suffix with heq | older
  · cases heq
    exact new
  · exact h e' earlier older

theorem FlowEvent.acts.plain {e : FlowEvent} {p flow : ℕ} (h : e.acts p flow) :
    (∀ f r, e ≠ .claimed f r) ∧ ∀ q f, e ≠ .consumed q f := by
  rcases h with rfl | ⟨status, rfl⟩
  · exact ⟨nofun, nofun⟩
  · exact ⟨nofun, nofun⟩

theorem FlowEvent.acts.unique {e : FlowEvent} {p q flow flow' : ℕ} (h : e.acts p flow)
    (h' : e.acts q flow') : p = q ∧ flow = flow' := by
  rcases h with rfl | ⟨status, rfl⟩ <;> rcases h' with heq | ⟨status', heq⟩ <;> cases heq <;>
    exact ⟨rfl, rfl⟩

/-- An account saved, or a status written, by the task that consumed the slot. -/
theorem Slotted.acted (h : Slotted s log) {e : FlowEvent} {p flow : ℕ} (event : e.acts p flow)
    (consumed : .consumed p flow ∈ log) : Slotted s (e :: log) := by
  obtain ⟨notClaimed, notConsumed⟩ := event.plain
  have claims : ∀ f r, .claimed f r ∈ e :: log ↔ .claimed f r ∈ log := fun f r =>
    List.mem_cons.trans (or_iff_right fun same => notClaimed f r same.symm)
  have consumes : ∀ q f, .consumed q f ∈ e :: log ↔ .consumed q f ∈ log := fun q f =>
    List.mem_cons.trans (or_iff_right fun same => notConsumed q f same.symm)
  constructor
  · exact h.below
  · simpa only [claims] using h.known
  · exact h.rowsBelow
  · exact h.distinct
  · simpa only [claims] using h.unclaimed
  · exact h.rowless
  · simpa only [claims, consumes] using h.slot
  · refine List.pairwise_cons.mpr ⟨fun d _ => ⟨?_, ?_⟩, h.once⟩
    · exact fun f _ r _ same => absurd same (notClaimed f r)
    · exact fun f _ q _ same => absurd same (notConsumed q f)
  · simpa only [claims, consumes] using h.claimed
  · simpa only [claims, consumes] using h.replaced
  · simpa only [consumes] using h.tasks
  · refine backed_cons h.backed fun q flow' acts => ?_
    obtain ⟨rfl, rfl⟩ := event.unique acts
    exact consumed

theorem Slotted.begins (h : Slotted s log) {n : ℕ} {st : FlowStart} (flow : st.flow = s.next)
    (next : s'.next = s.next + 1) (slot : s'.slot = s.slot)
    (starts : s'.starts = Function.update s.starts n (some st)) (tasks : s'.tasks = s.tasks)
    (rows : s'.rows = s.rows) : Slotted s' log := by
  have found : ∀ m st', s'.starts m = some st' → (m = n ∧ st' = st) ∨ s.starts m = some st' := by
    intro m st' hm
    rw [starts] at hm
    by_cases own : m = n
    · subst own
      rw [Function.update_self] at hm
      exact .inl ⟨rfl, (Option.some.inj hm).symm⟩
    · rw [Function.update_of_ne own] at hm
      exact .inr hm
  constructor
  · intro m st' hm
    rcases found m st' hm with ⟨-, rfl⟩ | old
    · omega
    · have := h.below m st' old
      omega
  · intro f r hr
    have := h.known f r hr
    omega
  · intro f row hrow
    have := h.rowsBelow f row (rows ▸ hrow)
    omega
  · intro m m' st₁ st₂ hm hm' same
    rcases found m st₁ hm with ⟨rfl, rfl⟩ | old <;> rcases found m' st₂ hm' with ⟨rfl, rfl⟩ | old'
    · rfl
    · have := h.below m' st₂ old'
      omega
    · have := h.below m st₁ old
      omega
    · exact h.distinct m m' st₁ st₂ old old' same
  · intro m st' r hm stage
    rcases found m st' hm with ⟨-, rfl⟩ | old
    · intro hr
      have := h.known _ r hr
      omega
    · exact h.unclaimed m st' r old stage
  · intro m st' hm stage
    rw [rows]
    rcases found m st' hm with ⟨-, rfl⟩ | old
    · cases hrow : s.rows.get st'.flow with
      | none => rfl
      | some row =>
        have := h.rowsBelow _ row hrow
        omega
    · exact h.rowless m st' old stage
  · exact fun held hslot => h.slot held (slot ▸ hslot)
  · exact h.once
  · exact h.claimed
  · exact h.replaced
  · exact fun p t hp => h.tasks p t (tasks ▸ hp)
  · exact h.backed

theorem Slotted.creates (h : Slotted s log) {n : ℕ} {st : FlowStart} {row : FlowRow}
    (old : s.starts n = some st) (next : s'.next = s.next) (slot : s'.slot = s.slot)
    (starts : StartsKept s s') (left : ∀ st', s'.starts n = some st' → st'.stage ≠ .persisting)
    (tasks : s'.tasks = s.tasks) (rows : s'.rows = s.rows.set st.flow row) : Slotted s' log := by
  constructor
  · intro m st' hm
    obtain ⟨st₀, before, flow, -⟩ := starts m st' hm
    have := h.below m st₀ before
    omega
  · rw [next]
    exact h.known
  · intro f row' hrow
    rw [rows, Dict.get_set] at hrow
    rw [next]
    by_cases own : f = st.flow
    · rw [own]
      exact h.below n st old
    · rw [if_neg own] at hrow
      exact h.rowsBelow f row' hrow
  · intro m m' st₁ st₂ hm hm' same
    obtain ⟨st', before, flow, -⟩ := starts m st₁ hm
    obtain ⟨st'', before', flow', -⟩ := starts m' st₂ hm'
    exact h.distinct m m' st' st'' before before' (flow.trans (same.trans flow'.symm))
  · intro m st' r hm stage
    obtain ⟨st₀, before, flow, unclaimed, -⟩ := starts m st' hm
    rw [← flow]
    exact h.unclaimed m st₀ r before (unclaimed stage)
  · intro m st' hm stage
    obtain ⟨st₀, before, flow, -, persisting⟩ := starts m st' hm
    have other : st'.flow ≠ st.flow := by
      intro same
      have own := h.distinct m n st₀ st before old (flow.trans same)
      subst own
      exact left st' hm stage
    rw [rows, Dict.get_set, if_neg other, ← flow]
    exact h.rowless m st₀ before (persisting stage)
  · exact fun held hslot => h.slot held (slot ▸ hslot)
  · exact h.once
  · exact h.claimed
  · exact h.replaced
  · exact fun p t hp => h.tasks p t (tasks ▸ hp)
  · exact h.backed

theorem Slotted.claims (h : Slotted s log) {n generation : ℕ} {st : FlowStart}
    (old : s.starts n = some st) (stage : st.stage = .claiming) (next : s'.next = s.next)
    (slot : s'.slot = some ⟨st.flow, generation⟩)
    (starts : s'.starts = Function.update s.starts n (some { st with stage := .claimed }))
    (tasks : s'.tasks = s.tasks) (rows : s'.rows = s.rows) :
    Slotted s' (.claimed st.flow (s.slot.map (·.flow)) :: log) := by
  have fresh : ∀ r, .claimed st.flow r ∉ log := fun r =>
    h.unclaimed n st r old (by rw [stage]; simp)
  have kept : ∀ m st', s'.starts m = some st' →
      (m = n ∧ st'.flow = st.flow ∧ st'.stage = .claimed) ∨ (m ≠ n ∧ s.starts m = some st') := by
    intro m st' hm
    rw [starts] at hm
    by_cases own : m = n
    · subst own
      rw [Function.update_self] at hm
      cases hm
      exact .inl ⟨rfl, rfl, rfl⟩
    · rw [Function.update_of_ne own] at hm
      exact .inr ⟨own, hm⟩
  have held : ∀ f, s.slot.map (·.flow) = some f →
      (∃ r, .claimed f r ∈ log) ∧ ∀ p, .consumed p f ∉ log := by
    intro f hf
    obtain ⟨held, hslot, rfl⟩ := Option.map_eq_some_iff.mp hf
    exact ⟨(h.slot held hslot).1, (h.slot held hslot).2.1⟩
  constructor
  · intro m st' hm
    rw [next]
    rcases kept m st' hm with ⟨-, flow, -⟩ | ⟨-, before⟩
    · rw [flow]
      exact h.below n st old
    · exact h.below m st' before
  · intro f r hr
    rw [next]
    rcases List.mem_cons.mp hr with heq | older
    · cases heq
      exact h.below n st old
    · exact h.known f r older
  · rw [next, rows]
    exact h.rowsBelow
  · intro m m' st₁ st₂ hm hm' same
    rcases kept m st₁ hm with ⟨rfl, flow, -⟩ | ⟨-, before⟩ <;>
      rcases kept m' st₂ hm' with ⟨rfl, flow', -⟩ | ⟨-, before'⟩
    · rfl
    · exact h.distinct m m' st st₂ old before' (flow.symm.trans same)
    · exact h.distinct m m' st₁ st before old (same.trans flow')
    · exact h.distinct m m' st₁ st₂ before before' same
  · intro m st' r hm unclaimed hr
    rcases kept m st' hm with ⟨-, -, claimed⟩ | ⟨other, before⟩
    · exact unclaimed claimed
    · rcases List.mem_cons.mp hr with heq | older
      · rw [FlowEvent.claimed.injEq] at heq
        exact other (h.distinct m n st' st before old heq.1)
      · exact h.unclaimed m st' r before unclaimed older
  · intro m st' hm persisting
    rw [rows]
    rcases kept m st' hm with ⟨-, -, claimed⟩ | ⟨-, before⟩
    · rw [claimed] at persisting
      cases persisting
    · exact h.rowless m st' before persisting
  · intro held' hslot
    rw [slot] at hslot
    cases hslot
    refine ⟨⟨_, List.mem_cons_self⟩, fun p hp => ?_, fun f hf => ?_⟩
    · rcases List.mem_cons.mp hp with heq | older
      · cases heq
      · obtain ⟨r, hr⟩ := h.claimed p st.flow older
        exact fresh r hr
    · rcases List.mem_cons.mp hf with heq | older
      · rw [FlowEvent.claimed.injEq] at heq
        obtain ⟨⟨r, hr⟩, -⟩ := held st.flow heq.2.symm
        exact fresh r hr
      · obtain ⟨⟨r, hr⟩, -⟩ := h.replaced st.flow f older
        exact fresh r hr
  · refine List.pairwise_cons.mpr ⟨fun d hd => ⟨?_, nofun⟩, h.once⟩
    rintro f f' r r' ⟨⟩ rfl same
    rw [← same] at hd
    exact fresh r' hd
  · intro p f hp
    rcases List.mem_cons.mp hp with heq | older
    · cases heq
    · obtain ⟨r, hr⟩ := h.claimed p f older
      exact ⟨r, List.mem_cons_of_mem _ hr⟩
  · intro f f' hf
    have before : (∃ r, .claimed f r ∈ log) ∧ ∀ p, .consumed p f ∉ log := by
      rcases List.mem_cons.mp hf with heq | older
      · rw [FlowEvent.claimed.injEq] at heq
        exact held f heq.2.symm
      · exact h.replaced f f' older
    obtain ⟨⟨r, hr⟩, unconsumed⟩ := before
    refine ⟨⟨r, List.mem_cons_of_mem _ hr⟩, fun p hp => ?_⟩
    rcases List.mem_cons.mp hp with heq | older
    · cases heq
    · exact unconsumed p older
  · intro p t hp consumed
    rw [tasks] at hp
    exact List.mem_cons_of_mem _ (h.tasks p t hp consumed)
  · refine backed_cons h.backed ?_
    rintro p f (heq | ⟨status, heq⟩) <;> cases heq

theorem Slotted.consumes (h : Slotted s log) {p generation : ℕ} {t t' : PollTask}
    (flow : t'.flow = t.flow) (named : s.slot = some ⟨t.flow, generation⟩)
    (next : s'.next = s.next) (slot : s'.slot = none) (starts : s'.starts = s.starts)
    (tasks : s'.tasks = Function.update s.tasks p (some t')) (rows : s'.rows = s.rows) :
    Slotted s' (.consumed p t.flow :: log) := by
  obtain ⟨claimed, unconsumed, unreplaced⟩ := h.slot _ named
  have claims : ∀ f r, .claimed f r ∈ .consumed p t.flow :: log ↔ .claimed f r ∈ log :=
    fun f r => List.mem_cons.trans (or_iff_right nofun)
  constructor
  · rw [next, starts]
    exact h.below
  · simpa only [claims, next] using h.known
  · rw [next, rows]
    exact h.rowsBelow
  · rw [starts]
    exact h.distinct
  · simpa only [claims, starts] using h.unclaimed
  · rw [starts, rows]
    exact h.rowless
  · intro held hslot
    rw [slot] at hslot
    cases hslot
  · refine List.pairwise_cons.mpr ⟨fun d hd => ⟨nofun, ?_⟩, h.once⟩
    rintro f f' q q' ⟨⟩ rfl same
    rw [← same] at hd
    exact unconsumed q' hd
  · intro q f hq
    simp only [claims]
    rcases List.mem_cons.mp hq with heq | older
    · cases heq
      exact claimed
    · exact h.claimed q f older
  · intro f f' hf
    rw [claims] at hf
    simp only [claims]
    refine ⟨(h.replaced f f' hf).1, fun q hq => ?_⟩
    rcases List.mem_cons.mp hq with heq | older
    · cases heq
      exact unreplaced f' hf
    · exact (h.replaced f f' hf).2 q older
  · intro q t'' hq consumed
    rw [tasks] at hq
    by_cases own : q = p
    · subst own
      rw [Function.update_self] at hq
      cases hq
      rw [flow]
      exact List.mem_cons_self
    · rw [Function.update_of_ne own] at hq
      exact List.mem_cons_of_mem _ (h.tasks q t'' hq consumed)
  · refine backed_cons h.backed ?_
    rintro q f (heq | ⟨status, heq⟩) <;> cases heq

theorem Slotted.step (h : Slotted s log) {events : List FlowEvent} (effect : Effect s s' events) :
    Slotted s' (events ++ log) := by
  cases effect with
  | calm calm => exact h.calm calm
  | acts p t e calm task consumed event =>
    exact (h.calm calm).acted event (h.tasks p t task consumed)
  | begins n st flow next slot starts stage tasks rows =>
    exact h.begins flow next slot starts tasks rows
  | creates n st row old stage status next slot starts left tasks rows =>
    exact h.creates old next slot starts left tasks rows
  | claims n st generation old stage next slot starts tasks rows =>
    exact h.claims old stage next slot starts tasks rows
  | consumes p t t' generation flow named next slot starts tasks rows =>
    exact h.consumes flow named next slot starts tasks rows

theorem Fresh.slotted {x : System × List FlowEvent} (h : Fresh x) : Slotted x.1 x.2 := by
  obtain ⟨s, log⟩ := x
  obtain ⟨rows, slot, starts, tasks, events⟩ := h
  simp only at rows slot starts tasks events
  subst events
  have rowless : ∀ flow, s.rows.get flow = none := by
    intro flow
    rw [Dict.get, rows]
    rfl
  constructor
  · intro n st hn
    cases (starts n).symm.trans hn
  · intro flow r hr
    cases hr
  · intro flow row hrow
    cases (rowless flow).symm.trans hrow
  · intro n m st st' hn
    cases (starts n).symm.trans hn
  · intro n st r hn
    cases (starts n).symm.trans hn
  · intro n st hn
    cases (starts n).symm.trans hn
  · intro held hslot
    cases slot.symm.trans hslot
  · exact .nil
  · intro p flow hp
    cases hp
  · intro flow flow' hf
    cases hf
  · intro p t hp
    cases (tasks p).symm.trans hp
  · intro e earlier suffix
    cases List.eq_nil_of_suffix_nil suffix

/-! ## One winner -/

/-- The flow has a success on record, or none at all any more, and its row is not to come. -/
structure Settled (flow : ℕ) (s : System) : Prop where
  known : flow < s.next
  persisted : ∀ n st, s.starts n = some st → st.flow = flow → st.stage ≠ .persisting
  success : ∀ row, s.rows.get flow = some row → row.status = .success

theorem Settled.calm {flow : ℕ} (h : Settled flow s) (calm : Calm s s') : Settled flow s' where
  known := Nat.lt_of_lt_of_le h.known calm.next
  persisted n st' hn same stage := by
    obtain ⟨st, old, flow, -, before⟩ := calm.starts n st' hn
    exact h.persisted n st old (flow.trans same) (before stage)
  success row' hrow := by
    obtain ⟨row, old, kept⟩ := calm.rows flow row' hrow
    exact kept (h.success row old)

theorem Settled.step {flow : ℕ} (h : Settled flow s) {events : List FlowEvent}
    (effect : Effect s s' events) : Settled flow s' := by
  cases effect with
  | calm calm => exact h.calm calm
  | acts p t e calm => exact h.calm calm
  | begins n st fresh next slot starts stage tasks rows =>
    have known := h.known
    refine ⟨by omega, fun m st' hm same => ?_, by rw [rows]; exact h.success⟩
    rw [starts] at hm
    by_cases own : m = n
    · subst own
      rw [Function.update_self] at hm
      cases hm
      omega
    · rw [Function.update_of_ne own] at hm
      exact h.persisted m st' hm same
  | creates n st row old stage status next slot starts left tasks rows =>
    have other : flow ≠ st.flow := fun same => h.persisted n st old same.symm stage
    refine ⟨by rw [next]; exact h.known, fun m st' hm same persisting => ?_, fun row' hrow => ?_⟩
    · obtain ⟨st₀, before, flow, -, kept⟩ := starts m st' hm
      exact h.persisted m st₀ before (flow.trans same) (kept persisting)
    · rw [rows, Dict.get_set, if_neg other] at hrow
      exact h.success row' hrow
  | claims n st generation old stage next slot starts tasks rows =>
    refine ⟨by rw [next]; exact h.known, fun m st' hm same => ?_, by rw [rows]; exact h.success⟩
    rw [starts] at hm
    by_cases own : m = n
    · subst own
      rw [Function.update_self] at hm
      cases hm
      simp
    · rw [Function.update_of_ne own] at hm
      exact h.persisted m st' hm same
  | consumes p t t' generation flow named next slot starts tasks rows =>
    exact ⟨by rw [next]; exact h.known, by rw [starts]; exact h.persisted,
      by rw [rows]; exact h.success⟩

theorem Slotted.consumed_of_acts (h : Slotted s log) {e : FlowEvent} (he : e ∈ log) {p flow : ℕ}
    (acts : e.acts p flow) : .consumed p flow ∈ log := by
  obtain ⟨later, earlier, rfl⟩ := List.append_of_mem he
  have consumed := h.backed e earlier (List.suffix_append later _) p flow acts
  exact List.mem_append_right later (List.mem_cons_of_mem e consumed)

theorem one_consumer {log : List FlowEvent} (once : log.Pairwise Once) {p q flow : ℕ}
    (hp : .consumed p flow ∈ log) (hq : .consumed q flow ∈ log) : p = q := by
  induction log with
  | nil => cases hp
  | cons e log ih =>
    obtain ⟨first, rest⟩ := List.pairwise_cons.mp once
    rcases List.mem_cons.mp hp with rfl | laterP <;> rcases List.mem_cons.mp hq with heq | laterQ
    · cases heq
      rfl
    · exact absurd rfl ((first _ laterQ).2 flow flow p q rfl rfl)
    · subst heq
      exact absurd rfl ((first _ laterP).2 flow flow q p rfl rfl)
    · exact ih rest laterP laterQ

theorem consumed_named {events : List FlowEvent} (effect : Effect s s' events) {p flow : ℕ}
    (he : .consumed p flow ∈ events) : s.slot.map (·.flow) = some flow ∧ s'.slot = none := by
  cases effect with
  | calm | begins | creates => cases he
  | acts q t e calm task consumed event =>
    exact absurd (List.mem_singleton.mp he).symm (event.plain.2 p flow)
  | claims => cases List.mem_singleton.mp he
  | consumes q t t' generation _ named _ slot =>
    cases List.mem_singleton.mp he
    exact ⟨by rw [named]; rfl, slot⟩

/-- A task saves an account or writes a status only after it has consumed a slot that named
its flow; a flow is claimed once and consumed once, so one task ever does; a flow whose slot
was claimed over has no such task; and a success in the table is not written over. -/
theorem device_flow_one_winner
    (h : Reachable (recording oauthStep noteFlow) Any Fresh (s, log)) :
    (∀ e earlier, e :: earlier <:+ log → ∀ p flow, e.acts p flow →
      .consumed p flow ∈ earlier) ∧
    (∀ act s' p flow, oauthStep s act = some s' → .consumed p flow ∈ eventsOf s act →
      s.slot.map (·.flow) = some flow ∧ s'.slot = none) ∧
    log.Pairwise Once ∧
    (∀ p flow, .consumed p flow ∈ log → ∃ replaced, .claimed flow replaced ∈ log) ∧
    (∀ e ∈ log, ∀ e' ∈ log, ∀ p q flow, e.acts p flow → e'.acts q flow → p = q) ∧
    (∀ flow flow', .claimed flow' (some flow) ∈ log → ∀ e ∈ log, ∀ p, ¬ e.acts p flow) ∧
    ∀ flow row, s.rows.get flow = some row → row.status = .success →
      ∀ y, Steps (recording oauthStep noteFlow) Any (s, log) y →
        ∀ row', y.1.rows.get flow = some row' → row'.status = .success := by
  have slotted : Slotted s log := by
    refine h.invariant (I := fun x => Slotted x.1 x.2) (fun _ fresh => fresh.slotted) ?_
    intro x act y kept _ step
    obtain ⟨hstep, hnote⟩ := recording_eq_some.mp step
    rw [hnote]
    exact kept.step (oauthStep_effect hstep)
  refine ⟨slotted.backed, fun act s' p flow step => consumed_named (oauthStep_effect step),
    slotted.once, slotted.claimed, fun e he e' he' p q flow acts acts' => ?_,
    fun flow flow' replaced e he p acts => ?_, fun flow row hrow success y run row' hrow' => ?_⟩
  · exact one_consumer slotted.once (slotted.consumed_of_acts he acts)
      (slotted.consumed_of_acts he' acts')
  · exact (slotted.replaced flow flow' replaced).2 p (slotted.consumed_of_acts he acts)
  · have settled : Settled flow s := by
      refine ⟨slotted.rowsBelow flow row hrow, fun n st hn same stage => ?_, fun row₁ hrow₁ => ?_⟩
      · have rowless := slotted.rowless n st hn stage
        rw [same, hrow] at rowless
        cases rowless
      · cases hrow.symm.trans hrow₁
        exact success
    have after : Settled flow y.1 := by
      refine run.invariant (I := fun x => Settled flow x.1) ?_ settled
      intro x act y kept _ step
      exact kept.step (oauthStep_effect (recording_eq_some.mp step).1)
    exact after.success row' hrow'

/-! ## A device flow that succeeds -/

def emptySystem : System × List FlowEvent :=
  (⟨0, 0, .empty, none, fun _ => {}, fun _ => none, fun _ => none, fun _ => none, fun _ => none⟩,
    [])

def afterActs (acts : List Act) : System × List FlowEvent :=
  (replay (recording oauthStep noteFlow) emptySystem acts).getD emptySystem

/-- Replica 0 starts flow 0 and its task 1 receives the tokens. -/
def winningActs : List Act :=
  [.startDevice 0 0 "auth" "code" 900, .persistRow 0, .check 0, .claim 0, .ensurePollTask 0,
    .pollTokens 1, .pollConsume 1, .pollPersist 1, .pollSettle 1, .pollWrite 1]

theorem emptySystem_fresh : Fresh emptySystem :=
  ⟨rfl, rfl, fun _ => rfl, fun _ => rfl, rfl⟩

theorem winner_consumed_first :
    ((afterActs winningActs).1.rows.get 0).map (·.status) = some .success ∧
    .consumed 1 0 ∈ (afterActs winningActs).2.tail := by
  have run : Reachable (recording oauthStep noteFlow) Any Fresh
      ((afterActs winningActs).1, (afterActs winningActs).2) := by
    refine reachable_of_replay winningActs emptySystem_fresh (fun _ _ _ => trivial) ?_
    exact replay_eq_getD (by decide +kernel) emptySystem
  have log : .wrote 1 0 .success :: (afterActs winningActs).2.tail = (afterActs winningActs).2 := by
    decide +kernel
  have last : .wrote 1 0 .success :: (afterActs winningActs).2.tail <:+
      (afterActs winningActs).2 := ⟨[], log⟩
  refine ⟨by decide +kernel, ?_⟩
  exact (device_flow_one_winner run).1 _ _ last 1 0 (.inr ⟨_, rfl⟩)

end DeviceOauth
