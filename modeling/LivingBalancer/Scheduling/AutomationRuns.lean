import LivingBalancer.Scheduling.AutomationClaims

/-!
# Exclusive execution of automation runs

Two claims of one run are a claim timeout apart, and its result is the one its last
claimant wrote, as long as a claim is no further behind its stamp than the pass that takes
the run is behind its own start, and nobody completes a run that has been taken from it.
-/

namespace Automations

open Runs

variable {timeout : ℤ} {s s' : Board} {act : Act} {log : List RunEvent}

/-! ## What a step does -/

/-- A step that claims and completes nothing. -/
structure Quiet (s s' : Board) : Prop where
  clock : s.clock ≤ s'.clock
  next : s.nextRun ≤ s'.nextRun
  rows : ∀ r run', s'.runs r = some run' → s.runs r = some run' ∨
    (r = s.nextRun ∧ s.nextRun < s'.nextRun) ∨
    ∃ run, s.runs r = some run ∧ run.finishedAt = none ∧ run'.startedAt = run.startedAt
  holding : ∀ w r, (s'.workers w).run = some r → (s.workers w).run = some r

/-- Worker `c.worker` comes to execute `c.run`. -/
structure Claims (s s' : Board) (c : Claim) : Prop where
  clock : s'.clock = s.clock
  made : c.made = s.clock
  next : s.nextRun ≤ s'.nextRun
  row : ∃ run, s'.runs c.run = some run ∧ run.startedAt = c.stamp
  others : ∀ r, r ≠ c.run → s'.runs r = s.runs r
  holding : ∀ w r, (s'.workers w).run = some r →
    (w = c.worker ∧ r = c.run) ∨ (s.workers w).run = some r

/-- The claims that take an existing run. -/
def Act.takes : Act → Option (RunTrigger × ℕ × ℕ)
  | .reclaim w r _ _ => some (.scheduled, w, r)
  | .claimManual w r _ _ => some (.manual, w, r)
  | _ => none

/-- The run is new, or taken by a pass that finds it claimable. -/
def Source (timeout : ℤ) (s : Board) (act : Act) (s' : Board) (c : Claim) : Prop :=
  (c.run = s.nextRun ∧ s.nextRun < s'.nextRun) ∨
    ∃ run trigger now, act.takes = some (trigger, c.worker, c.run) ∧ s.runs c.run = some run ∧
      (s.workers c.worker).now = some now ∧ run.claimable trigger (now - timeout) = true

structure Completes (s s' : Board) (r w : ℕ) (result : RunResult) : Prop where
  clock : s'.clock = s.clock
  next : s'.nextRun = s.nextRun
  executing : (s.workers w).run = some r
  row : ∃ run, s.runs r = some run ∧ s'.runs r = some (run.complete result)
  others : ∀ r', r' ≠ r → s'.runs r' = s.runs r'
  holding : ∀ w' r', (s'.workers w').run = some r' → w' ≠ w ∧ (s.workers w').run = some r'

theorem Quiet.refl (s : Board) : Quiet s s where
  clock := le_rfl
  next := Nat.le_refl _
  rows _ _ h := .inl h
  holding _ _ h := h

/-- A worker that goes on with its pass, starts one or ends it. -/
theorem Quiet.setWorker (s : Board) (w : ℕ) {worker : Worker} (free : worker.run = none) :
    Quiet s (s.setWorker w worker) where
  clock := le_rfl
  next := Nat.le_refl _
  rows _ _ h := .inl h
  holding w' r h := by
    by_cases own : w' = w
    · subst own
      simp only [Board.setWorker, Function.update_self, free] at h
      cases h
    · simpa only [Board.setWorker, Function.update_of_ne own] using h

/-- A row that is deleted, or skipped before it has finished. -/
theorem Quiet.setRun (s : Board) (r : ℕ) {row : Option AutomationRun}
    (kept : ∀ run', row = some run' →
      ∃ run, s.runs r = some run ∧ run.finishedAt = none ∧ run'.startedAt = run.startedAt) :
    Quiet s (s.setRun r row) where
  clock := le_rfl
  next := Nat.le_refl _
  rows r' run' h := by
    by_cases own : r' = r
    · subst own
      simp only [Board.setRun, Function.update_self] at h
      exact .inr (.inr (kept run' h))
    · simp only [Board.setRun, Function.update_of_ne own] at h
      exact .inl h
  holding _ _ h := h

theorem Quiet.insert (s : Board) (run : AutomationRun) : Quiet s (s.insert run) where
  clock := le_rfl
  next := Nat.le_succ _
  rows r run' h := by
    by_cases new : r = s.nextRun
    · exact .inr (.inl ⟨new, Nat.lt_succ_self _⟩)
    · simp only [Board.insert, Function.update_of_ne new] at h
      exact .inl h
  holding _ _ h := h

/-- A worker in a pass comes to execute `r`. -/
theorem Claims.of_row {w r : ℕ} {now : ℤ} {rows : List (ℕ × AutomationRun)}
    (claim : AutomationRun) (dispatch : Dispatch) (clock : s'.clock = s.clock)
    (next : s.nextRun ≤ s'.nextRun)
    (runs : s'.runs = Function.update s.runs r (some claim))
    (workers : s'.workers = Function.update s.workers w (.executing now rows r claim dispatch)) :
    Claims s s' ⟨r, w, claim.startedAt, s.clock⟩ where
  clock := clock
  made := rfl
  next := next
  row := ⟨claim, by rw [runs, Function.update_self], rfl⟩
  others r' other := by rw [runs, Function.update_of_ne other]
  holding w' r' h := by
    by_cases own : w' = w
    · subst own
      rw [workers, Function.update_self] at h
      exact .inl ⟨rfl, (Option.some.inj h).symm⟩
    · rw [workers, Function.update_of_ne own] at h
      exact .inr h

theorem Claims.insertClaimed (s : Board) (w : ℕ) (now : ℤ) (rows : List (ℕ × AutomationRun))
    (run : AutomationRun) :
    Claims s (s.insertClaimed w now rows run) ⟨s.nextRun, w, run.startedAt, s.clock⟩ :=
  .of_row run .execute rfl (Nat.le_succ _) rfl rfl

theorem Claims.takeRun (s : Board) (w r : ℕ) (now : ℤ) (rows : List (ℕ × AutomationRun))
    (run : AutomationRun) (stamp : ℤ) (dispatch : Dispatch) :
    Claims s (s.takeRun w r now rows run stamp dispatch) ⟨r, w, stamp, s.clock⟩ :=
  .of_row { run with startedAt := stamp } dispatch rfl (Nat.le_refl _) rfl rfl

theorem Completes.of_row {w r : ℕ} {now : ℤ} {rows : List (ℕ × AutomationRun)}
    {claim run : AutomationRun} {dispatch : Dispatch}
    (executing : s.workers w = .executing now rows r claim dispatch) (row : s.runs r = some run)
    (result : RunResult) : Completes s ((s.setRun r (some (run.complete result))).setWorker w
      (.passing now rows)) r w result where
  clock := rfl
  next := rfl
  executing := by rw [executing]; rfl
  row := ⟨run, row, Function.update_self ..⟩
  others r' other := Function.update_of_ne other _ _
  holding w' r' h := by
    by_cases own : w' = w
    · subst own
      simp only [Board.setWorker, Function.update_self] at h
      cases h
    · exact ⟨own, by simpa only [Board.setWorker, Board.setRun, Function.update_of_ne own] using h⟩

/-! ## What is recorded of a step -/

theorem noteRun_claimed {w r : ℕ} {now : ℤ} {rows : List (ℕ × AutomationRun)}
    (issued : act.worker = some w) (passing : s.workers w = .passing now rows)
    {claim : AutomationRun} {dispatch : Dispatch}
    (executing : s'.workers w = .executing now rows r claim dispatch) :
    noteRun s act s' log = .claimed ⟨r, w, claim.startedAt, s.clock⟩ :: log := by
  cases act <;> simp_all [Act.worker, noteRun]

/-- A worker that stays as it is has claimed nothing. -/
theorem noteRun_same (notComplete : ∀ w result, act ≠ .complete w result)
    (same : ∀ w, act.worker = some w → s'.workers w = s.workers w) :
    noteRun s act s' log = log := by
  cases act with
  | complete w result => exact absurd rfl (notComplete w result)
  | tick | start | observe | skipPlaceholder | leave | deleteRun => rfl
  | claimRun w | claimAccountRun w | reclaim w | createManualRun w | claimManual w =>
    simp only [noteRun, Act.worker, Option.map_some, same w rfl]
    cases s.workers w <;> rfl

/-- A step records nothing, a claim or a completion, and does what it records. -/
inductive Recorded (timeout : ℤ) (s : Board) (act : Act) (s' : Board) (log : List RunEvent) : Prop
  | quiet (note : noteRun s act s' log = log) (does : Quiet s s')
  | claims (c : Claim) (note : noteRun s act s' log = .claimed c :: log) (does : Claims s s' c)
      (source : Source timeout s act s' c)
  | completes (r w : ℕ) (result : RunResult) (issued : act = .complete w result)
      (note : noteRun s act s' log = .completed r w result :: log)
      (does : Completes s s' r w result)

section Passing

variable {w : ℕ} {now : ℤ} {rows : List (ℕ × AutomationRun)}

theorem Recorded.unchanged (notComplete : ∀ w result, act ≠ .complete w result) :
    Recorded timeout s act s log :=
  .quiet (noteRun_same notComplete fun _ _ => rfl) (.refl s)

theorem Recorded.insertClaimed (issued : act.worker = some w)
    (passing : s.workers w = .passing now rows) (run : AutomationRun) :
    Recorded timeout s act (s.insertClaimed w now rows run) log := by
  have executing : (s.insertClaimed w now rows run).workers w =
      .executing now rows s.nextRun run .execute := Function.update_self ..
  exact .claims _ (noteRun_claimed issued passing executing) (.insertClaimed s w now rows run)
    (.inl ⟨rfl, Nat.lt_succ_self _⟩)

theorem Recorded.takeRun {r : ℕ} {trigger : RunTrigger} {run : AutomationRun}
    (issued : act.worker = some w) (takes : act.takes = some (trigger, w, r))
    (passing : s.workers w = .passing now rows) (row : s.runs r = some run)
    (free : run.claimable trigger (now - timeout) = true) (stamp : ℤ) (dispatch : Dispatch) :
    Recorded timeout s act (s.takeRun w r now rows run stamp dispatch) log := by
  have executing : (s.takeRun w r now rows run stamp dispatch).workers w =
      .executing now rows r { run with startedAt := stamp } dispatch := Function.update_self ..
  refine .claims _ (noteRun_claimed issued passing executing)
    (.takeRun s w r now rows run stamp dispatch) (.inr ⟨run, trigger, now, takes, row, ?_, free⟩)
  rw [passing]
  rfl

end Passing

theorem step_recorded (step : boardStep timeout s act = some s') (log : List RunEvent) :
    Recorded timeout s act s' log := by
  cases act with
  | tick now =>
    simp only [boardStep] at step
    split at step <;> cases step
    rename_i later
    exact .quiet rfl ⟨later, Nat.le_refl _, fun _ _ h => .inl h, fun _ _ h => h⟩
  | start w =>
    simp only [boardStep] at step
    split at step <;> cases step
    exact .quiet rfl (.setWorker s w rfl)
  | observe w r =>
    simp only [boardStep] at step
    split at step <;> cases step
    exact .quiet rfl (.setWorker s w rfl)
  | claimRun w slotKey dueSlot =>
    simp only [boardStep] at step
    split at step
    · rename_i now rows passing
      split at step <;> cases step
      · exact .insertClaimed rfl passing _
      · exact .unchanged nofun
    · cases step
  | claimAccountRun w slotKey accountId scheduledFor =>
    simp only [boardStep] at step
    split at step
    · rename_i now rows passing
      split at step
      · split at step <;> cases step
        · exact .insertClaimed rfl passing _
        · exact .unchanged nofun
      · cases step
    · cases step
  | reclaim w r observed dispatch =>
    simp only [boardStep] at step
    split at step
    · rename_i now rows passing
      split at step
      · split at step
        · rename_i run row
          split at step <;> cases step
          · rename_i free
            exact .takeRun rfl rfl passing row free.1 now dispatch
          · exact .unchanged nofun
        · cases step
          exact .unchanged nofun
      · cases step
    · cases step
  | createManualRun w slotKey accountId delay =>
    simp only [boardStep] at step
    split at step
    · rename_i now rows passing
      split at step
      · split at step <;> cases step
        · exact .quiet (noteRun_same nofun fun _ _ => rfl) (.insert s _)
        · exact .insertClaimed rfl passing _
      · cases step
    · cases step
  | claimManual w r observed utcnow =>
    simp only [boardStep] at step
    split at step
    · rename_i now rows passing
      split at step
      · split at step
        · rename_i run row
          split at step <;> cases step
          · rename_i free
            exact .takeRun rfl rfl passing row free.1 _ .execute
          · exact .unchanged nofun
        · cases step
          exact .unchanged nofun
      · cases step
    · cases step
  | skipPlaceholder w r observed accountId =>
    simp only [boardStep] at step
    split at step
    · rename_i now rows passing
      split at step
      · split at step
        · rename_i run row
          split at step <;> cases step
          · rename_i free
            refine .quiet rfl (.setRun s r fun run' h => ⟨run, row, ?_, ?_⟩)
            · have placeholder := free.2.1
              simp only [AutomationRun.isUnclaimedPlaceholder, Bool.and_eq_true,
                Option.isNone_iff_eq_none] at placeholder
              exact placeholder.1.1.2
            · cases h
              rfl
          · exact .quiet rfl (.refl s)
        · cases step
          exact .quiet rfl (.refl s)
      · cases step
    · cases step
  | complete w result =>
    simp only [boardStep] at step
    split at step
    · rename_i now rows r claim dispatch executing
      split at step
      · split at step <;> cases step
        · rename_i run row
          refine .completes r w result rfl ?_ (.of_row executing row result)
          simp [noteRun, executing, Board.setWorker]
        · refine .quiet ?_ (.setWorker s w rfl)
          simp [noteRun, executing, Board.setWorker]
      · cases step
    · cases step
  | leave w =>
    cases step
    exact .quiet rfl (.setWorker s w rfl)
  | deleteRun r =>
    cases step
    refine .quiet rfl (.setRun s r fun run' h => ?_)
    cases h

/-! ## The latest claim -/

/-- The latest claim of the run is `w`'s. -/
def Held (log : List RunEvent) (r w : ℕ) : Prop := ∃ c, lastClaim r log = some c ∧ c.worker = w

theorem Held.unique {r w w' : ℕ} (h : Held log r w) (h' : Held log r w') : w = w' := by
  obtain ⟨c, hc, rfl⟩ := h
  obtain ⟨c', hc', rfl⟩ := h'
  rw [Option.some.inj (hc.symm.trans hc')]

theorem lastClaim_claimed {c : Claim} {r : ℕ} :
    lastClaim r (.claimed c :: log) = if c.run = r then some c else lastClaim r log := rfl

theorem lastClaim_mem {r : ℕ} {c : Claim} (h : lastClaim r log = some c) :
    .claimed c ∈ log ∧ c.run = r := by
  induction log with
  | nil => cases h
  | cons e rest ih =>
    cases e with
    | completed =>
      obtain ⟨hmem, hrun⟩ := ih h
      exact ⟨List.mem_cons_of_mem _ hmem, hrun⟩
    | claimed d =>
      rw [lastClaim_claimed] at h
      by_cases same : d.run = r
      · rw [if_pos same] at h
        cases h
        exact ⟨List.mem_cons_self, same⟩
      · rw [if_neg same] at h
        obtain ⟨hmem, hrun⟩ := ih h
        exact ⟨List.mem_cons_of_mem _ hmem, hrun⟩

/-- The later of two claims of a run is made a timeout after the earlier one. -/
def Apart (timeout : ℤ) (newer older : RunEvent) : Prop :=
  ∀ c d, newer = .claimed c → older = .claimed d → c.run = d.run → d.made + timeout ≤ c.made

/-- Every claim of a run is its latest one, or a timeout older than that. -/
theorem claim_before_last (spaced : log.Pairwise (Apart timeout)) {d : Claim}
    (hd : .claimed d ∈ log) :
    ∃ c, lastClaim d.run log = some c ∧ (d = c ∨ d.made + timeout ≤ c.made) := by
  induction log with
  | nil => cases hd
  | cons e rest ih =>
    obtain ⟨newer, spacedRest⟩ := List.pairwise_cons.mp spaced
    rcases List.mem_cons.mp hd with rfl | hrest
    · exact ⟨d, if_pos rfl, .inl rfl⟩
    · cases e with
      | completed => exact ih spacedRest hrest
      | claimed c =>
        by_cases same : c.run = d.run
        · exact ⟨c, if_pos same, .inr (newer _ hrest c d rfl rfl same)⟩
        · obtain ⟨c', hc', order⟩ := ih spacedRest hrest
          exact ⟨c', by rw [lastClaim_claimed, if_neg same, hc'], order⟩

/-! ## The invariant -/

structure Orderly (timeout : ℤ) (s : Board) (log : List RunEvent) : Prop where
  below : ∀ r run, s.runs r = some run → r < s.nextRun
  known : ∀ e ∈ log, e.run < s.nextRun
  made : ∀ c, .claimed c ∈ log → c.made ≤ s.clock
  stamped : ∀ r c run, lastClaim r log = some c → s.runs r = some run → run.startedAt = c.stamp
  spaced : log.Pairwise (Apart timeout)
  final : ∀ r w result, .completed r w result ∈ log →
    Held log r w ∧ ∀ run, s.runs r = some run → run.complete result = run
  unfinished : ∀ w r, (s.workers w).run = some r → Held log r w →
    ∀ w' result, .completed r w' result ∉ log

/-- Where a pass finds a claimed run claimable, the claim was stamped after the scheduled
time, and was no further behind its stamp than the pass is behind its start. -/
def Punctual (timeout : ℤ) (x : Board × List RunEvent) (act : Act) : Prop :=
  (∀ trigger w r now run c, act.takes = some (trigger, w, r) → (x.1.workers w).now = some now →
    x.1.runs r = some run → run.claimable trigger (now - timeout) = true →
    lastClaim r x.2 = some c →
    run.scheduledFor < run.startedAt ∧ c.made - run.startedAt ≤ x.1.clock - now) ∧
  ∀ w r result, act = .complete w result → (x.1.workers w).run = some r → Held x.2 r w

theorem Punctual.of_plain {x : Board × List RunEvent} (takes : act.takes = none)
    (notComplete : ∀ w result, act ≠ .complete w result) : Punctual timeout x act := by
  constructor
  · intro trigger w r now run c htakes
    rw [takes] at htakes
    cases htakes
  · intro w r result heq
    exact absurd heq (notComplete w result)

/-- A row that a result was written to has finished. -/
theorem complete_finished {run : AutomationRun} {result : RunResult}
    (h : run.complete result = run) : run.finishedAt ≠ none := by
  rw [← h]
  simp [AutomationRun.complete]

theorem claimable_unfinished {run : AutomationRun} {trigger : RunTrigger} {before : ℤ}
    (h : run.claimable trigger before = true) : run.finishedAt = none := by
  simp only [AutomationRun.claimable, Bool.and_eq_true, Option.isNone_iff_eq_none] at h
  exact h.1.1.2

theorem claimable_stale {run : AutomationRun} {trigger : RunTrigger} {before : ℤ}
    (h : run.claimable trigger before = true) (after : run.scheduledFor < run.startedAt) :
    run.startedAt < before := by
  simp only [AutomationRun.claimable, AutomationRun.stale, Bool.and_eq_true, Bool.or_eq_true,
    decide_eq_true_eq] at h
  exact h.2.resolve_left (not_le.mpr after)

theorem Orderly.quiet (h : Orderly timeout s log) (quiet : Quiet s s') : Orderly timeout s' log where
  below r run' row := by
    have next := quiet.next
    rcases quiet.rows r run' row with old | ⟨rfl, grown⟩ | ⟨run, old, -⟩
    · have := h.below r run' old
      omega
    · exact grown
    · have := h.below r run old
      omega
  known e he := Nat.lt_of_lt_of_le (h.known e he) quiet.next
  made c hc := le_trans (h.made c hc) quiet.clock
  stamped r c run' last row := by
    obtain ⟨hmem, hrun⟩ := lastClaim_mem last
    rcases quiet.rows r run' row with old | ⟨new, -⟩ | ⟨run, old, -, same⟩
    · exact h.stamped r c run' last old
    · have known : c.run < s.nextRun := h.known _ hmem
      omega
    · exact same.trans (h.stamped r c run last old)
  spaced := h.spaced
  final r w result done := by
    obtain ⟨held, written⟩ := h.final r w result done
    refine ⟨held, fun run' row => ?_⟩
    rcases quiet.rows r run' row with old | ⟨new, -⟩ | ⟨run, old, running, -⟩
    · exact written run' old
    · have known : r < s.nextRun := h.known _ done
      omega
    · exact absurd running (complete_finished (written run old))
  unfinished w r holding := h.unfinished w r (quiet.holding w r holding)

/-- A run that can be claimed has not been completed. -/
theorem Orderly.not_completed (h : Orderly timeout s log) {c : Claim}
    (source : Source timeout s act s' c) (w : ℕ) (result : RunResult) :
    .completed c.run w result ∉ log := by
  intro done
  rcases source with ⟨new, -⟩ | ⟨run, trigger, now, -, row, -, free⟩
  · have known : c.run < s.nextRun := h.known _ done
    omega
  · exact complete_finished ((h.final _ w result done).2 run row) (claimable_unfinished free)

/-- A new claim is made a timeout after every earlier one of its run. -/
theorem Orderly.apart (h : Orderly timeout s log) {c : Claim}
    (source : Source timeout s act s' c) (claims : Claims s s' c)
    (punctual : Punctual timeout (s, log) act) : ∀ e ∈ log, Apart timeout (.claimed c) e := by
  rintro e he _ d ⟨⟩ rfl same
  obtain ⟨last, hlast, order⟩ := claim_before_last h.spaced he
  rw [← same] at hlast
  have before : last.made ≤ s.clock := h.made last (lastClaim_mem hlast).1
  have made := claims.made
  rcases source with ⟨new, -⟩ | ⟨run, trigger, now, takes, row, pass, free⟩
  · have known : d.run < s.nextRun := h.known _ he
    omega
  · obtain ⟨after, lag⟩ := punctual.1 trigger c.worker c.run now run last takes pass row free hlast
    have stale := claimable_stale free after
    have latest : last.made + timeout ≤ c.made := by
      simp only at lag
      omega
    rcases order with rfl | earlier
    · exact latest
    · omega

theorem Orderly.claims (h : Orderly timeout s log) {c : Claim}
    (source : Source timeout s act s' c) (claims : Claims s s' c)
    (punctual : Punctual timeout (s, log) act) : Orderly timeout s' (.claimed c :: log) where
  below r run' row := by
    have next := claims.next
    by_cases own : r = c.run
    · subst own
      rcases source with ⟨new, grown⟩ | ⟨run, trigger, now, -, old, -⟩
      · omega
      · have := h.below c.run run old
        omega
    · rw [claims.others r own] at row
      have := h.below r run' row
      omega
  known e he := by
    have next := claims.next
    rcases List.mem_cons.mp he with rfl | old
    · rcases source with ⟨new, grown⟩ | ⟨run, trigger, now, -, old, -⟩
      · simp only [RunEvent.run]
        omega
      · exact Nat.lt_of_lt_of_le (h.below c.run run old) next
    · exact Nat.lt_of_lt_of_le (h.known e old) next
  made d hd := by
    rw [claims.clock]
    rcases List.mem_cons.mp hd with heq | old
    · cases heq
      exact le_of_eq claims.made
    · exact h.made d old
  stamped r d run' last row := by
    by_cases own : c.run = r
    · subst own
      rw [lastClaim_claimed, if_pos rfl] at last
      cases last
      obtain ⟨run, hrow, stamp⟩ := claims.row
      rw [hrow] at row
      cases row
      exact stamp
    · rw [lastClaim_claimed, if_neg own] at last
      rw [claims.others r (Ne.symm own)] at row
      exact h.stamped r d run' last row
  spaced := List.pairwise_cons.mpr ⟨h.apart source claims punctual, h.spaced⟩
  final r w result done := by
    rcases List.mem_cons.mp done with heq | old
    · cases heq
    · have other : r ≠ c.run := by
        rintro rfl
        exact h.not_completed source w result old
      obtain ⟨⟨last, hlast, held⟩, written⟩ := h.final r w result old
      refine ⟨⟨last, by rw [lastClaim_claimed, if_neg (Ne.symm other), hlast], held⟩, ?_⟩
      rw [claims.others r other]
      exact written
  unfinished w r holding held w' result done := by
    rcases List.mem_cons.mp done with heq | old
    · cases heq
    · rcases claims.holding w r holding with ⟨rfl, rfl⟩ | before
      · exact h.not_completed source w' result old
      · obtain ⟨last, hlast, owner⟩ := held
        by_cases own : c.run = r
        · subst own
          exact h.not_completed source w' result old
        · rw [lastClaim_claimed, if_neg own] at hlast
          exact h.unfinished w r before ⟨last, hlast, owner⟩ w' result old

theorem Orderly.completes (h : Orderly timeout s log) {r w : ℕ} {result : RunResult}
    (completes : Completes s s' r w result) (held : Held log r w) :
    Orderly timeout s' (.completed r w result :: log) where
  below r' run' row := by
    rw [completes.next]
    by_cases own : r' = r
    · subst own
      obtain ⟨run, old, -⟩ := completes.row
      exact h.below r' run old
    · rw [completes.others r' own] at row
      exact h.below r' run' row
  known e he := by
    rw [completes.next]
    rcases List.mem_cons.mp he with rfl | old
    · obtain ⟨run, row, -⟩ := completes.row
      exact h.below r run row
    · exact h.known e old
  made c hc := by
    rw [completes.clock]
    rcases List.mem_cons.mp hc with heq | old
    · cases heq
    · exact h.made c old
  stamped r' c run' last row := by
    by_cases own : r' = r
    · subst own
      obtain ⟨run, old, new⟩ := completes.row
      rw [new] at row
      cases row
      exact h.stamped r' c run last old
    · rw [completes.others r' own] at row
      exact h.stamped r' c run' last row
  spaced := by
    refine List.pairwise_cons.mpr ⟨?_, h.spaced⟩
    rintro e - c d ⟨⟩
  final r' w' result' done := by
    rcases List.mem_cons.mp done with heq | old
    · cases heq
      refine ⟨held, fun run' row => ?_⟩
      obtain ⟨run, -, new⟩ := completes.row
      rw [new] at row
      cases row
      rfl
    · have other : r' ≠ r := by
        rintro rfl
        exact h.unfinished w r' completes.executing held w' result' old
      obtain ⟨last, written⟩ := h.final r' w' result' old
      refine ⟨last, ?_⟩
      rw [completes.others r' other]
      exact written
  unfinished w' r' holding held' w'' result' done := by
    obtain ⟨other, before⟩ := completes.holding w' r' holding
    rcases List.mem_cons.mp done with heq | old
    · cases heq
      exact other (Held.unique held' held)
    · exact h.unfinished w' r' before held' w'' result' old

theorem Orderly.step (h : Orderly timeout s log) (punctual : Punctual timeout (s, log) act)
    (step : boardStep timeout s act = some s') : Orderly timeout s' (noteRun s act s' log) := by
  cases step_recorded step log with
  | quiet note does =>
    rw [note]
    exact h.quiet does
  | claims c note does source =>
    rw [note]
    exact h.claims source does punctual
  | completes r w result issued note does =>
    rw [note]
    exact h.completes does (punctual.2 w r result issued does.executing)

/-! ## Exclusive execution -/

/-- No run has been claimed yet: the rows are older than the workers' first passes. -/
def Unclaimed (x : Board × List RunEvent) : Prop :=
  (∀ r run, x.1.runs r = some run → r < x.1.nextRun) ∧ (∀ w, x.1.workers w = .idle) ∧ x.2 = []

theorem Unclaimed.orderly {x : Board × List RunEvent} (h : Unclaimed x) :
    Orderly timeout x.1 x.2 := by
  obtain ⟨s, log⟩ := x
  obtain ⟨below, idle, fresh⟩ := h
  simp only at below idle fresh
  subst fresh
  constructor
  · exact below
  · intro e he
    cases he
  · intro c hc
    cases hc
  · intro r c run last
    cases last
  · exact .nil
  · intro r w result done
    cases done
  · intro w r holding
    rw [idle w] at holding
    cases holding

/-- Any two claims of a run are a timeout apart, and what a worker wrote as its result is
what the row says, the worker being the last to have claimed it. -/
theorem runs_exclusive
    (h : Reachable (recording (boardStep timeout) noteRun) (Punctual timeout) Unclaimed (s, log)) :
    log.Pairwise (Apart timeout) ∧
    ∀ r w result, .completed r w result ∈ log →
      Held log r w ∧ ∀ run, s.runs r = some run → run.complete result = run := by
  have orderly : Orderly timeout s log := by
    refine h.invariant (I := fun x => Orderly timeout x.1 x.2) (fun _ fresh => fresh.orderly) ?_
    intro x a y kept punctual step
    obtain ⟨hstep, hnote⟩ := recording_eq_some.mp step
    rw [hnote]
    exact kept.step punctual hstep
  exact ⟨orderly.spaced, orderly.final⟩

/-! ## A long pass and a late completion -/

def emptyBoard : Board × List RunEvent := (⟨0, fun _ => none, 0, fun _ => .idle⟩, [])

theorem emptyBoard_unclaimed : Unclaimed emptyBoard := by
  refine ⟨fun r run row => ?_, fun _ => rfl, rfl⟩
  cases row

/-- The timeout under the default request budget of 180 seconds. -/
def defaultTimeout : ℤ := claimTimeout 180000000

def afterActs (acts : List Act) : Board × List RunEvent :=
  (replay (recording (boardStep defaultTimeout) noteRun) emptyBoard acts).getD emptyBoard

/-- The run of account `a`, due a second before the clock began, as a pass claims it at its
start. -/
def accountRun : AutomationRun := newRun .scheduled "slot" (-1000000) 0 (some "a")

/-- Worker 0 claims the run 200 seconds into its pass; a pass begun 11 seconds later takes it. -/
def longPassActs : List Act :=
  [.start 0, .tick 200000000, .claimAccountRun 0 "slot" "a" (-1000000), .tick 211000000,
    .start 1, .observe 1 0, .reclaim 1 0 accountRun .execute]

def runResult (status : RunStatus) : RunResult := ⟨status, 211000000, some "a", none, none, 1⟩

/-- Worker 0 claims the run at the start of its pass, and 211 seconds later worker 1 finds it. -/
def staleActs : List Act :=
  [.start 0, .claimAccountRun 0 "slot" "a" (-1000000), .tick 211000000, .start 1, .observe 1 0]

/-- Worker 1 takes the run and completes it; then worker 0 completes it. -/
def lateActs : List Act :=
  staleActs ++ [.reclaim 1 0 accountRun .execute, .complete 1 (runResult .success),
    .complete 0 (runResult .failed)]

/-- Two workers execute a run claimed 11 seconds ago; and a worker that has lost its run
overwrites the result of the one that took it. -/
theorem long_pass_and_late_completion :
    (Reachable (recording (boardStep defaultTimeout) noteRun) Any Unclaimed
        (afterActs longPassActs) ∧
      ((afterActs longPassActs).1.workers 0).run = some 0 ∧
      ((afterActs longPassActs).1.workers 1).run = some 0 ∧
      (afterActs longPassActs).2 =
        [.claimed ⟨0, 1, 211000000, 211000000⟩, .claimed ⟨0, 0, 0, 200000000⟩] ∧
      defaultTimeout = 210000000) ∧
    Reachable (recording (boardStep defaultTimeout) noteRun) Any Unclaimed (afterActs lateActs) ∧
      .completed 0 1 (runResult .success) ∈ (afterActs lateActs).2 ∧
      (lastClaim 0 (afterActs lateActs).2).map (·.worker) = some 1 ∧
      ((afterActs lateActs).1.runs 0).map (·.status) = some .failed := by
  refine ⟨⟨?_, by decide +kernel, by decide +kernel, by decide +kernel, by decide⟩, ?_,
    by decide +kernel, by decide +kernel, by decide +kernel⟩
  · exact reachable_of_replay longPassActs emptyBoard_unclaimed (fun _ _ _ => trivial)
      (replay_eq_getD (by decide +kernel) _)
  · exact reachable_of_replay lateActs emptyBoard_unclaimed (fun _ _ _ => trivial)
      (replay_eq_getD (by decide +kernel) _)

/-- The takeover and the completion of worker 1 are punctual. -/
theorem taken_run_completed :
    Held (afterActs (lateActs.take 7)).2 0 1 ∧
    ((afterActs (lateActs.take 7)).1.runs 0).map (·.status) = some .success ∧
    ∀ run, (afterActs (lateActs.take 7)).1.runs 0 = some run →
      run.complete (runResult .success) = run := by
  have stale : Reachable (recording (boardStep defaultTimeout) noteRun)
      (Punctual defaultTimeout) Unclaimed (afterActs staleActs) := by
    refine reachable_of_replay staleActs emptyBoard_unclaimed ?_
      (replay_eq_getD (by decide +kernel) _)
    intro x act hact
    simp only [staleActs, List.mem_cons, List.not_mem_nil, or_false] at hact
    rcases hact with rfl | rfl | rfl | rfl | rfl <;>
      exact .of_plain rfl fun _ _ => Act.noConfusion
  have taken : Reachable (recording (boardStep defaultTimeout) noteRun)
      (Punctual defaultTimeout) Unclaimed (afterActs (lateActs.take 6)) := by
    refine stale.tail (a := .reclaim 1 0 accountRun .execute) ⟨?_, ?_⟩ ?_
    · rintro trigger w r now run c ⟨⟩ pass row - last
      have hpass : ((afterActs staleActs).1.workers 1).now = some 211000000 := by decide +kernel
      have hrow : (afterActs staleActs).1.runs 0 = some accountRun := by decide +kernel
      have hlast : lastClaim 0 (afterActs staleActs).2 = some ⟨0, 0, 0, 0⟩ := by decide +kernel
      have hclock : (afterActs staleActs).1.clock = 211000000 := by decide +kernel
      rw [hpass] at pass
      rw [hrow] at row
      rw [hlast] at last
      cases pass
      cases row
      cases last
      rw [hclock]
      decide
    · rintro w r result ⟨⟩
    · rfl
  have completed : Reachable (recording (boardStep defaultTimeout) noteRun)
      (Punctual defaultTimeout) Unclaimed (afterActs (lateActs.take 7)) := by
    refine taken.tail (a := .complete 1 (runResult .success)) ⟨?_, ?_⟩ ?_
    · rintro trigger w r now run c ⟨⟩
    · rintro w r result ⟨⟩ holding
      have executing : ((afterActs (lateActs.take 6)).1.workers 1).run = some 0 := by
        decide +kernel
      rw [executing] at holding
      cases holding
      exact Option.map_eq_some_iff.mp (show (lastClaim 0 (afterActs (lateActs.take 6)).2).map
        Claim.worker = some 1 by decide +kernel)
    · rfl
  have final := (runs_exclusive completed).2 0 1 (runResult .success) (by decide +kernel)
  exact ⟨final.1, by decide +kernel, final.2⟩

end Automations
