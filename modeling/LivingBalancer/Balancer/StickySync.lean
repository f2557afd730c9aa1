import LivingBalancer.Balancer.CallSteps

/-!
# The sticky sync and the marks it races with

A sticky selection builds its states under the runtime lock, awaits the sticky
repository without it, and then writes the built values into the runtime table. A
health mark takes only the account lock, so it can land in between. The sync does
not pass `expected_version`: it keeps a mark exactly when it has nothing different
to write for that account.
-/

namespace Balancer

open Runs

@[simp] theorem runtimeSignal_sync (account : Account) (state : AccountState) (selected : Bool)
    (now : ℚ) (rt : RuntimeState) :
    runtimeSignal (syncRuntime account state selected now rt) = stateSignal state :=
  rfl

@[simp] theorem runtimeSignal_addLease (lease : AccountLease) (now : ℚ) (rt : RuntimeState) :
    runtimeSignal (addLease lease now rt) = runtimeSignal rt :=
  rfl

theorem syncStates_untouched (selected : Option String) (now : ℚ)
    (built : List (Account × AccountState)) (p : Pool) {id : String}
    (absent : id ∉ built.map (·.1.id)) : (p.syncStates selected now built).get id = p.get id := by
  induction built generalizing p with
  | nil => rfl
  | cons e rest ih =>
    rw [List.map_cons, List.mem_cons, not_or] at absent
    have later := ih (p.update e.1.id (syncRuntime e.1 e.2 (selected == some e.2.accountId) now))
      absent.2
    rw [Pool.get_update, if_neg absent.1] at later
    exact later

/-- The sync writes the five values of every held state, whatever the table holds by then. -/
theorem syncStates_signal (selected : Option String) (now : ℚ)
    {built : List (Account × AccountState)} (distinct : (built.map (·.1.id)).Nodup) (p : Pool)
    {e : Account × AccountState} (he : e ∈ built) :
    runtimeSignal ((p.syncStates selected now built).get e.1.id) = stateSignal e.2 := by
  induction built generalizing p with
  | nil => cases he
  | cons first rest ih =>
    obtain ⟨fresh, distinct⟩ := List.nodup_cons.mp distinct
    have start : (p.syncStates selected now (first :: rest)) =
        (p.update first.1.id
          (syncRuntime first.1 first.2 (selected == some first.2.accountId) now)).syncStates
            selected now rest := rfl
    rw [start]
    rcases List.mem_cons.mp he with rfl | he
    · rw [syncStates_untouched _ _ _ _ fresh, Pool.get_update, if_pos rfl, runtimeSignal_sync]
    · exact ih distinct _ he

/-- Taking the lease after the sync leaves the five values as the sync wrote them. -/
theorem concludeSelection_signal (recheckCap : Bool) (now monotonic : ℚ) (leaseId : String)
    (c : SelectCall) (result : SelectionResult) (p : Pool) (id : String) :
    runtimeSignal ((concludeSelection recheckCap now monotonic leaseId c result p).2.get id) =
      runtimeSignal ((p.syncStates (result.account.map (·.accountId)) now c.built).get id) := by
  simp only [concludeSelection]
  split
  · rfl
  · split
    · rfl
    · split
      · rfl
      · split
        · rfl
        · rw [Pool.get_acquire]
          split
          · rename_i same
            rw [runtimeSignal_addLease, same]
          · rfl

theorem commit_pool {settings : Settings} {now : ℚ} {rows rows' : Rows} {r r' : Replica}
    {call : Nat} {c : SelectCall} {result : SelectionResult} {monotonic : ℚ} {leaseId : String}
    (chosen : r.selects call = some (c, .chosen result))
    (hstep : r.step settings now rows (.commit call monotonic leaseId) = some (r', rows')) :
    r'.pool = (concludeSelection true now monotonic leaseId c result r.pool).2 := by
  simp only [Replica.step, chosen] at hstep
  split at hstep
  · cases hstep
  · obtain ⟨⟨c', q⟩, hq, heq⟩ := Option.map_eq_some_iff.mp hstep
    obtain ⟨_, rfl⟩ := Replica.critical_some hq
    cases heq
    rfl

/-- A mark for `id` landed after the call built its states, and its values are in force. -/
def Replica.MarkedSince (r : Replica) (call : Nat) (id : String) (signal : HealthSignal) : Prop :=
  ∃ n, r.signals id = some (n, signal) ∧ r.builtAt call ≤ n ∧
    runtimeSignal (r.pool.get id) = signal

/-- A mark that lands between the build and the sync of a sticky selection stays in force
exactly when no state the selection holds for that account carries other values. -/
theorem sticky_sync_keeps_mark_iff (settings : Settings) {w w' : World}
    (h : Reachable (World.step settings) Any World.Initial w) (i call : Nat) (c : SelectCall)
    (result : SelectionResult)
    (chosen : (w.replicas i).selects call = some (c, .chosen result)) (id : String)
    (signal : HealthSignal) (marked : (w.replicas i).MarkedSince call id signal) (monotonic : ℚ)
    (leaseId : String) (hstep : w.step settings (.on i (.commit call monotonic leaseId)) = some w') :
    runtimeSignal ((w'.replicas i).pool.get id) = signal ↔
      ∀ e ∈ c.built, e.1.id = id → stateSignal e.2 = signal := by
  obtain ⟨_, _, _, inForce⟩ := marked
  have shape := reachable_shaped h i call c _ chosen
  cases World.step_move hstep with
  | @on _ _ r rows hr =>
    dsimp only
    rw [if_pos rfl, commit_pool chosen hr, concludeSelection_signal]
    by_cases held : id ∈ c.built.map (·.1.id)
    · obtain ⟨e, he, rfl⟩ := List.mem_map.mp held
      rw [syncStates_signal _ _ shape.distinct _ he]
      constructor
      · intro same e' he' hid
        rw [List.inj_on_of_nodup_map shape.distinct he' he hid]
        exact same
      · intro agree
        exact agree e he rfl
    · rw [syncStates_untouched _ _ _ _ held]
      refine iff_of_true inForce ?_
      intro e he hid
      exact absurd (List.mem_map.mpr ⟨e, he, hid⟩) held

/-- A sticky request holds account "a"; a mark lands on `marked` before it commits. -/
def markDuringSticky (marked : String) : List Act :=
  [.on 0 (.start 7 (streamArgs 0 (some { key := "s", kind := some .stickyThread }))),
    .on 0 (.loaded 7 (singleInput (healthyAccount "a"))), .on 0 (.enter 7 0 "x"),
    .on 0 (.choose 7 100 none),
    .on 0 (.mark 1 (healthyAccount marked) (.rateLimit ⟨some 60, none, none⟩ 1))]

/-- What `mark_rate_limit` at second 100 with a retry delay of a minute leaves behind. -/
def minuteSignal : HealthSignal := ⟨some 160, some 160, some 100, some 100, 1⟩

/-- The check of a concrete run before its commit. -/
def awaitsCommit (marked : String) (w : World) : Bool :=
  (match (w.replicas 0).selects 7 with
    | some (c, .chosen _) => decide (c.built.map (·.1.id) = ["a"])
    | _ => false) &&
  decide ((w.replicas 0).signals marked = some (0, minuteSignal)) &&
  decide ((w.replicas 0).builtAt 7 = 0) &&
  decide (runtimeSignal ((w.replicas 0).pool.get marked) = minuteSignal)

theorem mark_on_another_account_kept :
    ∃ w w', replay (World.step {}) (idleWorld 100 [healthyAccount "a", healthyAccount "b"])
        (markDuringSticky "b") = some w ∧
      w.step {} (.on 0 (.commit 7 0 "x")) = some w' ∧
      runtimeSignal ((w'.replicas 0).pool.get "b") = minuteSignal := by
  have run : ((replay (World.step {}) (idleWorld 100 [healthyAccount "a", healthyAccount "b"])
      (markDuringSticky "b")).any fun w => awaitsCommit "b" w &&
        (w.step {} (.on 0 (.commit 7 0 "x"))).isSome) = true := by decide +kernel
  obtain ⟨w, hw, here⟩ := (Option.any_eq_true _ _).mp run
  simp only [awaitsCommit, Bool.and_eq_true, decide_eq_true_eq, Option.isSome_iff_exists] at here
  obtain ⟨⟨⟨⟨pc, signals⟩, builtAt⟩, inForce⟩, w', hstep⟩ := here
  split at pc
  · rename_i c result hc
    have kept := sticky_sync_keeps_mark_iff {}
      (reachable_of_replay (markDuringSticky "b") (fun _ => rfl) (fun _ _ _ => trivial) hw) 0 7 c
      result hc "b" minuteSignal ⟨0, signals, le_of_eq builtAt, inForce⟩ 0 "x" hstep
    refine ⟨w, w', hw, hstep, kept.mpr ?_⟩
    intro e he hid
    have among : e.1.id ∈ c.built.map (·.1.id) := List.mem_map.mpr ⟨e, he, rfl⟩
    rw [of_decide_eq_true pc, hid] at among
    exact absurd among (by decide)
  · cases pc

/-- The commit of a sticky selection that still holds "a" as it was wipes out the mark. -/
theorem sticky_sync_loses_rate_limit :
    ∃ w w', replay (World.step {}) (idleWorld 100 [healthyAccount "a"]) (markDuringSticky "a") =
        some w ∧
      (w.replicas 0).MarkedSince 7 "a" minuteSignal ∧
      w.step {} (.on 0 (.commit 7 0 "x")) = some w' ∧
      runtimeSignal ((w'.replicas 0).pool.get "a") = ⟨none, none, none, none, 0⟩ := by
  have run : ((replay (World.step {}) (idleWorld 100 [healthyAccount "a"])
      (markDuringSticky "a")).any fun w => awaitsCommit "a" w &&
        (w.step {} (.on 0 (.commit 7 0 "x"))).any fun w' =>
          decide (runtimeSignal ((w'.replicas 0).pool.get "a") = ⟨none, none, none, none, 0⟩)) =
      true := by decide +kernel
  obtain ⟨w, hw, here⟩ := (Option.any_eq_true _ _).mp run
  simp only [awaitsCommit, Bool.and_eq_true, decide_eq_true_eq, Option.any_eq_true] at here
  obtain ⟨⟨⟨⟨_, signals⟩, builtAt⟩, inForce⟩, w', hstep, lost⟩ := here
  exact ⟨w, w', hw, ⟨0, signals, le_of_eq builtAt, inForce⟩, hstep, lost⟩

end Balancer
