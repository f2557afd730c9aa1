import LivingBalancer.Balancer.LeaseCalls

/-!
# Leases over whole runs

Every step of the system keeps `Replica.Sound` on every replica. Read off from it:
the counters agree with the leases held, the caps hold, and no finished call leaves
a lease behind that it did not return, cancelled calls included.
-/

namespace Balancer

open Runs

/-- The table after `release_account_lease` of an optional lease. -/
def Pool.releaseIf (p : Pool) : Option AccountLease → Pool
  | none => p
  | some lease => p.release lease

theorem Replica.giveBack_free {r : Replica} (h : r.locked = false) (lease : Option AccountLease) :
    r.giveBack lease = some (r.withPool (r.pool.releaseIf lease)) := by
  cases lease with
  | none => rfl
  | some lease =>
    simp only [Replica.giveBack]
    rw [Replica.critical_free h]
    rfl

theorem Accountable.released {p : Pool} {c : SelectCall} (h : Accountable p c) (ledger : Ledger p) :
    ∀ x ∈ c.acquired, ¬ (p.releaseIf c.lease).Holds x := by
  intro x hx hq
  cases hlease : c.lease with
  | none =>
    rw [hlease] at hq
    obtain ⟨l, hl, _⟩ := h.held x hx hq
    rw [hlease] at hl
    cases hl
  | some lease =>
    rw [hlease] at hq
    obtain ⟨l, hl, rfl⟩ := h.held x hx (ledger.holds_of_release hq)
    have same : l = lease := Option.some.inj (hl.symm.trans hlease)
    subst same
    exact ledger.release_drops (h.owns l hlease).1.2 hq

theorem Pool.releaseIf_moves {cap : LeaseKind → Int} (p : Pool) (lease : Option AccountLease) :
    LeaseMoves (UnderCap cap) p (p.releaseIf lease) := by
  cases lease with
  | none => exact .refl
  | some lease => exact .single (.release p lease)

section Step

variable {cap : LeaseKind → Int} {r : Replica} {call : Nat} {c : SelectCall}

theorem Replica.Sound.releaseAnd (h : r.Sound cap) (next : AfterRelease)
    (caps : CapsAgree cap c.args.caps) (known : ∀ x ∈ c.acquired, x ∈ r.pool.issued)
    (accounts : Accountable r.pool c) : (r.releaseAnd call c next).Sound cap := by
  have moves : LeaseMoves (UnderCap cap) r.pool (r.pool.releaseIf c.lease) :=
    r.pool.releaseIf_moves c.lease
  have gone := accounts.released h.ledger
  have known' := fun x hx => (h.ledger.held_before underCap_fresh moves (known x hx)).1
  -- the lock is free, so the release never waits
  have unlocked : (r.withPool (r.pool.releaseIf c.lease)).locked = false := h.unlocked
  simp only [Replica.releaseAnd]
  rw [Replica.giveBack_free h.unlocked]
  dsimp only
  simp only [Replica.afterRelease]
  cases next with
  | stale =>
    dsimp only
    split
    · exact h.set unlocked moves rfl ⟨caps, known', fun x hx hq => absurd hq (gone x hx)⟩
    · exact h.set unlocked moves rfl ⟨caps, known', rfl, gone⟩
  | generationChanged => exact h.set unlocked moves rfl ⟨caps, known', rfl, gone⟩
  | aborted cancelled =>
    cases cancelled with
    | true => exact h.set unlocked moves rfl ⟨caps, known', gone⟩
    | false => exact h.set unlocked moves rfl ⟨caps, known', gone⟩

theorem finishSelection_lease (hsnapshot : c.snapshot ≠ none) :
    (finishSelection c).lease = c.lease := by
  simp only [finishSelection]
  cases h : c.snapshot with
  | none => exact absurd h hsnapshot
  | some account => rfl

theorem afterPersist_reload {p : Pool} {generation : Nat} {stale : List String}
    (h : afterPersist c p generation stale = .reload) : c.snapshot = none := by
  simp only [afterPersist] at h
  cases hs : c.snapshot with
  | none => rfl
  | some account =>
    rw [hs] at h
    dsimp only at h
    split at h
    · cases h
    · split at h <;> cases h

theorem Replica.Sound.settle (h : r.Sound cap) {stale : List String}
    (sound : CallSound cap r.pool c (.persisting [] stale)) :
    (r.settleCall call c stale).Sound cap := by
  have accounts : Accountable r.pool c := sound.accounts
  simp only [Replica.settleCall]
  cases hnext : afterPersist c r.pool r.cacheGeneration stale with
  | release next => exact h.releaseAnd next sound.caps sound.known accounts
  | reload =>
    have nosnapshot := afterPersist_reload hnext
    have hlease : c.lease = none := by
      cases hl : c.lease with
      | none => rfl
      | some l => exact absurd nosnapshot (accounts.owns l hl).2
    refine h.set h.unlocked .refl rfl ⟨sound.caps, sound.known, hlease, ?_⟩
    intro x hx hp
    obtain ⟨l, hl, _⟩ := accounts.held x hx hp
    rw [hlease] at hl
    cases hl
  | finish =>
    refine h.set h.unlocked .refl rfl ⟨sound.caps, sound.known, ?_⟩
    intro x hx hp
    obtain ⟨l, hl, hxl⟩ := accounts.held x hx hp
    exact ⟨l, (finishSelection_lease (accounts.owns l hl).2).trans hl, hxl⟩

theorem Replica.Sound.abort (h : r.Sound cap) {pc : SelectPc} {cancelled : Bool} {r' : Replica}
    (sound : CallSound cap r.pool c pc) (hstep : r.abortCall call c pc cancelled = some r') :
    r'.Sound cap := by
  have leave : (∀ x ∈ c.acquired, ¬ r.pool.Holds x) →
      (r.set call c (.done (if cancelled then .cancelled else .raised))).Sound cap := by
    intro gone
    refine h.set h.unlocked .refl rfl ⟨sound.caps, sound.known, ?_⟩
    cases cancelled with
    | true => exact gone
    | false => exact gone
  have accounts := sound.accounts
  simp only [Replica.abortCall] at hstep
  cases pc with
  | done exit => cases hstep
  | persisting rest stale =>
    cases hstep
    exact h.releaseAnd _ sound.caps sound.known accounts
  | releasing next => exact accounts.elim
  | loading =>
    cases hstep
    exact leave accounts.2
  | ready =>
    cases hstep
    exact leave accounts.2
  | choosing =>
    cases hstep
    exact leave accounts.2
  | chosen result =>
    cases hstep
    exact leave accounts.2

theorem Replica.Sound.enter (h : r.Sound cap) (settings : Settings) (now monotonic : ℚ)
    {leaseId : String} (fresh : leaseId ∉ r.pool.issued) {r' : Replica}
    (sound : CallSound cap r.pool c .ready)
    (hstep : r.enterSection settings now monotonic leaseId call c = some r') : r'.Sound cap := by
  obtain ⟨hlease, gone⟩ : c.lease = none ∧ ∀ x ∈ c.acquired, ¬ r.pool.Holds x := sound.accounts
  simp only [Replica.enterSection] at hstep
  cases hsticky : c.args.sticky with
  | none =>
    rw [hsticky] at hstep
    dsimp only at hstep
    rw [Replica.critical_free h.unlocked] at hstep
    cases hstep
    obtain ⟨moves, after⟩ := selectSection_sound settings now monotonic h.ledger sound.caps
      sound.known hlease gone fresh
    obtain ⟨caps, known, accounts⟩ := after [] []
    exact h.setPool moves ⟨caps, known, accounts.held, accounts.owns⟩
  | some sticky =>
    rw [hsticky] at hstep
    dsimp only at hstep
    rw [Replica.critical_free h.unlocked] at hstep
    cases hstep
    have opened := openSection_moves settings now monotonic c.inputs h.ledger
    have moves : LeaseMoves (UnderCap cap) r.pool
        (openSection settings now monotonic c.inputs r.pool).2 := opened.weaken fun _ _ hok => hok.elim
    refine h.next h.unlocked moves ?_
    intro x c' pc' hx
    rcases Replica.set_selects _ call _ _ x _ hx with old | new
    · exact Or.inl old
    · cases new
      refine Or.inr ⟨sound.caps, ?_, hlease, ?_⟩
      · intro x hx
        exact opened.issued_eq ▸ sound.known x hx
      · intro x hx
        exact not_holds_moves h.ledger moves (sound.known x hx) (gone x hx)

end Step

/-- The caps an action brings into the system are the constant ones. -/
def ReplicaAct.CapsOk (cap : LeaseKind → Int) : ReplicaAct → Prop
  | .start _ args => CapsAgree cap args.caps
  | .acquireLease _ _ _ caps _ _ => CapsAgree cap caps
  | _ => True

/-- A step that keeps the calls and everything the lease accounting reads. -/
theorem Replica.Sound.frame {cap : LeaseKind → Int} {r r' : Replica} (h : r.Sound cap)
    (locked : r'.locked = r.locked) (same : SamePool r.pool r'.pool)
    (selects : r'.selects = r.selects) : r'.Sound cap := by
  refine h.next (locked.trans h.unlocked) (.single (.frame same)) ?_
  intro call c pc hc
  exact Or.inl (selects ▸ hc)

theorem Replica.Sound.acquireLease {cap : LeaseKind → Int} {r r' : Replica} (h : r.Sound cap)
    {settings : Settings} {now monotonic estimatedTokens : ℚ} {accountId leaseId : String}
    {kind : LeaseKind} {caps : AccountConcurrencyCaps} (agree : CapsAgree cap caps)
    (fresh : leaseId ∉ r.pool.issued)
    (hstep : r.acquireLease settings now monotonic accountId kind estimatedTokens caps leaseId =
      some r') : r'.Sound cap := by
  have reclaimed : LeaseMoves (fun _ _ => False) r.pool (r.pool.reclaimStale settings monotonic) :=
    .reclaimStale r.pool settings monotonic
  have opened : LeaseMoves (fun _ _ => False) r.pool
      ((r.pool.reclaimStale settings monotonic).update accountId id) :=
    reclaimed.tail (.frame (.update _ (.refl _)))
  have moves : LeaseMoves (UnderCap cap) r.pool
      ((r.pool.reclaimStale settings monotonic).update accountId id) :=
    opened.weaken fun _ _ hok => hok.elim
  have ledger := h.ledger.moves underCap_fresh moves
  simp only [Replica.acquireLease] at hstep
  rw [Replica.critical_free h.unlocked] at hstep
  cases hstep
  dsimp only
  split
  · exact h.next h.unlocked moves fun call c pc hc => Or.inl hc
  · rename_i room
    refine h.next h.unlocked (moves.tail (.acquire _ now ⟨⟨?_, le_max_left _ _⟩, ?_⟩))
      fun call c pc hc => Or.inl hc
    · rw [opened.issued_eq]
      exact fresh
    · intro positive
      have agreed := agree kind positive
      have balanced := (ledger.balanced accountId).inflight kind
      rw [agreed, balanced] at room
      by_contra full
      exact room ⟨positive, not_lt.mp full⟩

/-- The step lemma: whatever a replica does, its leases stay accounted for. -/
theorem Replica.Sound.step {cap : LeaseKind → Int} {settings : Settings} {now : ℚ}
    {rows rows' : Rows} {r r' : Replica} {act : ReplicaAct} (h : r.Sound cap)
    (ok : act.CapsOk cap) (hstep : r.step settings now rows act = some (r', rows')) :
    r'.Sound cap := by
  cases act with
  | start call args =>
    simp only [Replica.step] at hstep
    split at hstep
    · cases hstep
      refine h.set h.unlocked .refl rfl ⟨ok, ?_, rfl, ?_⟩
      · intro x hx
        cases hx
      · intro x hx
        cases hx
    · cases hstep
  | loaded call inputs =>
    simp only [Replica.step] at hstep
    split at hstep
    · rename_i c hc
      have sound := h.calls call c _ hc
      obtain ⟨hlease, gone⟩ : c.lease = none ∧ ∀ x ∈ c.acquired, ¬ r.pool.Holds x := sound.accounts
      split at hstep
      · cases hstep
        exact h.set h.unlocked .refl rfl
          ⟨sound.caps, sound.known, fun x hx hp => absurd hp (gone x hx)⟩
      · cases hstep
        exact h.set h.unlocked .refl rfl ⟨sound.caps, sound.known, hlease, gone⟩
    · cases hstep
  | enter call monotonic leaseId =>
    simp only [Replica.step] at hstep
    split at hstep
    · rename_i c hc
      split at hstep
      · cases hstep
      · rename_i fresh
        obtain ⟨q, hq, heq⟩ := Option.map_eq_some_iff.mp hstep
        cases heq
        exact h.enter settings now monotonic fresh (h.calls call c _ hc) hq
    · cases hstep
  | choose call earlier existing =>
    simp only [Replica.step] at hstep
    split at hstep
    · rename_i c hc
      have sound := h.calls call c _ hc
      obtain ⟨hlease, gone⟩ : c.lease = none ∧ ∀ x ∈ c.acquired, ¬ r.pool.Holds x := sound.accounts
      split at hstep
      · cases hstep
      · split at hstep
        · split at hstep
          · cases hstep
            exact h.set h.unlocked .refl rfl ⟨sound.caps, sound.known, gone⟩
          · rename_i c' result hchoose
            cases hstep
            obtain ⟨hargs, hlease', hacquired⟩ := chooseSticky_keeps hchoose
            refine h.set h.unlocked .refl rfl ⟨hargs ▸ sound.caps, hacquired ▸ sound.known,
              hlease'.trans hlease, hacquired ▸ gone⟩
        · cases hstep
    · cases hstep
  | commit call monotonic leaseId =>
    simp only [Replica.step] at hstep
    split at hstep
    · rename_i c result hc
      have sound := h.calls call c _ hc
      obtain ⟨hlease, gone⟩ : c.lease = none ∧ ∀ x ∈ c.acquired, ¬ r.pool.Holds x := sound.accounts
      split at hstep
      · cases hstep
      · rename_i fresh
        rw [Replica.critical_free h.unlocked] at hstep
        cases hstep
        obtain ⟨moves, after⟩ := concludeSelection_sound true now monotonic c result h.ledger
          sound.caps sound.known hlease gone fresh (fun hfalse => by cases hfalse)
        exact h.setPool moves (after _ _)
    · cases hstep
  | persist call =>
    simp only [Replica.step] at hstep
    split at hstep
    · rename_i c account state rest stale hc
      have sound := h.calls call c _ hc
      split at hstep
      · cases hstep
        exact h.set h.unlocked .refl rfl ⟨sound.caps, sound.known, sound.accounts⟩
      · cases hstep
        exact h.set h.unlocked .refl rfl ⟨sound.caps, sound.known, sound.accounts⟩
    · cases hstep
  | settle call =>
    simp only [Replica.step] at hstep
    split at hstep
    · rename_i c stale hc
      cases hstep
      exact h.settle (h.calls call c _ hc)
    · cases hstep
  | resume call =>
    simp only [Replica.step] at hstep
    split at hstep
    · rename_i c next hc
      exact (h.calls call c _ hc).accounts.elim
    · cases hstep
  | abort call cancelled =>
    simp only [Replica.step] at hstep
    split at hstep
    · rename_i c pc hc
      obtain ⟨q, hq, heq⟩ := Option.map_eq_some_iff.mp hstep
      cases heq
      exact h.abort (h.calls call c pc hc) hq
    · cases hstep
  | acquireLease accountId kind estimatedTokens caps monotonic leaseId =>
    simp only [Replica.step] at hstep
    split at hstep
    · cases hstep
    · rename_i fresh
      obtain ⟨q, hq, heq⟩ := Option.map_eq_some_iff.mp hstep
      cases heq
      exact h.acquireLease ok fresh hq
  | releaseLease lease =>
    simp only [Replica.step, Replica.giveBack_free h.unlocked] at hstep
    cases hstep
    exact h.next h.unlocked (r.pool.releaseIf_moves (some lease)) fun call c pc hc => Or.inl hc
  | admission inputs monotonic =>
    simp only [Replica.step, Replica.critical_free h.unlocked] at hstep
    cases hstep
    have opened := openSection_moves settings now monotonic inputs h.ledger
    exact h.next h.unlocked (opened.weaken fun _ _ hok => hok.elim) fun call c pc hc => Or.inl hc
  | mark call account mark =>
    simp only [Replica.step] at hstep
    split at hstep
    · cases hstep
      exact h.frame rfl (.update _ (markRuntime_same now mark account _)) rfl
    · cases hstep
  | markPersist call =>
    simp only [Replica.step] at hstep
    split at hstep
    · cases hstep
    · rename_i m hm
      cases hstep
      cases m.mark <;> exact h.frame rfl (.refl _) rfl
  | markAbort call =>
    simp only [Replica.step] at hstep
    split at hstep
    · cases hstep
    · cases hstep
      exact h.frame rfl (.refl _) rfl
  | recordSuccess accountId =>
    simp only [Replica.step] at hstep
    split at hstep
    · cases hstep
    · cases hstep
      simp only [Replica.success]
      split
      · exact h.frame rfl (.recordSuccess r.pool accountId) rfl
      · exact h.frame rfl (.recordSuccess r.pool accountId) rfl
  | invalidate =>
    cases hstep
    exact h.frame rfl (.refl _) rfl

def Act.CapsOk (cap : LeaseKind → Int) : Act → Prop
  | .on _ act => act.CapsOk cap
  | _ => True

def World.Sound (cap : LeaseKind → Int) (w : World) : Prop := ∀ i, (w.replicas i).Sound cap

theorem Replica.initial_sound {cap : LeaseKind → Int} : Replica.initial.Sound cap := by
  refine ⟨rfl, .empty, ?_, ?_⟩
  · intro id kind positive
    exact le_of_lt positive
  · intro call c pc hc
    cases hc

theorem World.Sound.step {cap : LeaseKind → Int} {settings : Settings} {w w' : World} {a : Act}
    (h : w.Sound cap) (ok : a.CapsOk cap) (hstep : w.step settings a = some w') :
    w'.Sound cap := by
  intro i
  cases a with
  | advance now =>
    simp only [World.step] at hstep
    split at hstep
    · cases hstep
      exact h i
    · cases hstep
  | write id row =>
    simp only [World.step] at hstep
    split at hstep
    · cases hstep
      exact h i
    · cases hstep
  | on j act =>
    obtain ⟨⟨r, rows⟩, hr, rfl⟩ := Option.map_eq_some_iff.mp hstep
    dsimp only
    split
    · exact (h j).step ok hr
    · exact h i

/-- The run lemma: every replica of every reachable state is accounted for. -/
theorem reachable_sound {cap : LeaseKind → Int} {settings : Settings} {w : World}
    (h : Reachable (World.step settings) (fun _ a => a.CapsOk cap) World.Initial w) :
    w.Sound cap := by
  refine h.invariant ?_ ?_
  · intro s hs i
    rw [hs i]
    exact Replica.initial_sound
  · intro s a t hs ok hstep
    exact hs.step ok hstep

/-- Without a constant cap every action is admitted. -/
theorem uncapped_ok (a : Act) : a.CapsOk fun _ => 0 := by
  have none : ∀ caps, CapsAgree (fun _ => 0) caps := by
    intro caps kind positive
    exact absurd positive (lt_irrefl 0)
  cases a with
  | on i act => cases act <;> first | exact none _ | trivial
  | advance now => trivial
  | write id row => trivial

theorem reachable_uncapped {settings : Settings} {w : World}
    (h : Reachable (World.step settings) Any World.Initial w) : w.Sound fun _ => 0 := by
  obtain ⟨w₀, h₀, run⟩ := h
  exact reachable_sound ⟨w₀, h₀, run.weaken fun _ a _ => uncapped_ok a⟩

/-- The counters of every account runtime agree with its leases, no clamp ever changed a
result, an id is subtracted at most once and exactly when it is no longer held, and a
runtime with a lease survives every prune. -/
theorem lease_accounting (settings : Settings) {w : World}
    (h : Reachable (World.step settings) Any World.Initial w) (i : Nat) (id : String) :
    ((w.replicas i).pool.get id).inflightResponseCreates =
        heldOfKind .responseCreate ((w.replicas i).pool.get id) ∧
      ((w.replicas i).pool.get id).inflightStreams =
        heldOfKind .stream ((w.replicas i).pool.get id) ∧
      ((w.replicas i).pool.get id).leasedTokens = heldTokens ((w.replicas i).pool.get id) ∧
      (w.replicas i).pool.clamped = false ∧
      (w.replicas i).pool.subtracted.Nodup ∧
      (∀ x ∈ (w.replicas i).pool.issued,
        x ∈ (w.replicas i).pool.subtracted ↔ ¬ (w.replicas i).pool.Holds x) ∧
      (heldLeases ((w.replicas i).pool.get id) ≠ [] → ∀ accounts,
        ((w.replicas i).pool.prune accounts).runtime.get id = (w.replicas i).pool.runtime.get id) := by
  have ledger := (reachable_uncapped h i).ledger
  have balanced := ledger.balanced id
  refine ⟨balanced.responseCreates, balanced.streams, balanced.tokens, ledger.unclamped,
    ledger.once, ?_, ?_⟩
  · intro x hx
    constructor
    · intro hsub hheld
      exact (ledger.live x hheld).2 hsub
    · intro gone
      rcases ledger.conserved x hx with hsub | hheld
      · exact hsub
      · exact absurd hheld gone
  · intro held accounts
    exact Pool.prune_keeps _ accounts held

/-- Two streams on one account; the first lease is given back twice. -/
def doubleRelease : List Act :=
  [.on 0 (.acquireLease "a" .stream 10 ⟨0, 2, none, none, 1⟩ 0 "x"),
    .on 0 (.acquireLease "a" .stream 5 ⟨0, 2, none, none, 1⟩ 1 "y"),
    .on 0 (.releaseLease ⟨"x", "a", .stream, 0, 10⟩),
    .on 0 (.releaseLease ⟨"x", "a", .stream, 0, 10⟩)]

theorem double_release_subtracts_once :
    ∃ w, replay (World.step {}) (idleWorld 100 []) doubleRelease = some w ∧
      heldOfKind .stream ((w.replicas 0).pool.get "a") = 1 ∧
      ((w.replicas 0).pool.get "a").inflightStreams = 1 ∧
      (w.replicas 0).pool.clamped = false := by
  have run : ((replay (World.step {}) (idleWorld 100 []) doubleRelease).any fun w =>
      decide (heldOfKind .stream ((w.replicas 0).pool.get "a") = 1)) = true := by decide +kernel
  obtain ⟨w, hw, counted⟩ := (Option.any_eq_true _ _).mp run
  have count := of_decide_eq_true counted
  have accounted := lease_accounting {}
    (reachable_of_replay doubleRelease (fun _ => rfl) (fun _ _ _ => trivial) hw) 0 "a"
  exact ⟨w, hw, count, by rw [accounted.2.1, count]; rfl, accounted.2.2.2.1⟩

/-- The constant caps hold in every reachable state, and a call that returned or raised
left none of its leases held but the one it returned. -/
theorem concurrency_caps_hold (settings : Settings) (cap : LeaseKind → Int) {w : World}
    (h : Reachable (World.step settings) (fun _ a => a.CapsOk cap) World.Initial w) (i : Nat) :
    (∀ id kind, 0 < cap kind →
      (heldOfKind kind ((w.replicas i).pool.get id) : Int) ≤ cap kind) ∧
    (∀ call c selection,
      (w.replicas i).selects call = some (c, .done (.returned selection)) →
      ∀ x ∈ c.acquired, (w.replicas i).pool.Holds x →
        ∃ l, selection.lease = some l ∧ l.leaseId = x) ∧
    (∀ call c, (w.replicas i).selects call = some (c, .done .raised) →
      ∀ x ∈ c.acquired, ¬ (w.replicas i).pool.Holds x) := by
  have sound := reachable_sound h i
  refine ⟨sound.capped, ?_, ?_⟩
  · intro call c selection hc
    exact (sound.calls call c _ hc).accounts
  · intro call c hc
    exact (sound.calls call c _ hc).accounts

/-- One request streams on the only account; the cap of one refuses a second lease. -/
def fullAccount : List Act :=
  [.on 0 (.start 7 (streamArgs 1 none)), .on 0 (.loaded 7 (singleInput (healthyAccount "a"))),
    .on 0 (.enter 7 0 "x"), .on 0 (.persist 7), .on 0 (.settle 7),
    .on 0 (.acquireLease "a" .stream 5 ⟨0, 1, none, none, 1⟩ 1 "y")]

/-- A cap of one stream and no cap on response creates. -/
def oneStream : LeaseKind → Int
  | .responseCreate => 0
  | .stream => 1

theorem full_account_keeps_its_cap :
    ∃ w, replay (World.step {}) (idleWorld 100 [healthyAccount "a"]) fullAccount = some w ∧
      (w.replicas 0).pool.issued = ["x"] ∧
      (heldOfKind .stream ((w.replicas 0).pool.get "a") : Int) ≤ 1 := by
  have run : ((replay (World.step {}) (idleWorld 100 [healthyAccount "a"]) fullAccount).any fun w =>
      decide ((w.replicas 0).pool.issued = ["x"])) = true := by decide +kernel
  obtain ⟨w, hw, issued⟩ := (Option.any_eq_true _ _).mp run
  have agree : ∀ caps : AccountConcurrencyCaps, caps.streamLimit = 1 → CapsAgree oneStream caps := by
    intro caps hcaps kind positive
    cases kind with
    | responseCreate => exact absurd positive (lt_irrefl 0)
    | stream => exact hcaps
  have ok : ∀ s : World, ∀ a ∈ fullAccount, a.CapsOk oneStream := by
    intro _ a ha
    simp only [fullAccount, List.mem_cons, List.not_mem_nil, or_false] at ha
    rcases ha with rfl | rfl | rfl | rfl | rfl | rfl
    · exact agree _ rfl
    · trivial
    · trivial
    · trivial
    · trivial
    · exact agree _ rfl
  have held := concurrency_caps_hold {} oneStream
    (reachable_of_replay fullAccount (fun _ => rfl) ok hw) 0
  exact ⟨w, hw, of_decide_eq_true issued, held.1 "a" .stream (by decide)⟩

/-- A cancellation never has to wait: the lock is free at every suspension point. -/
theorem Replica.Sound.cancel {cap : LeaseKind → Int} {r : Replica} (h : r.Sound cap) {call : Nat}
    {c : SelectCall} {pc : SelectPc} (hc : r.selects call = some (c, pc))
    (running : ∀ exit, pc ≠ .done exit) : ∃ r' c', r.abortCall call c pc true = some r' ∧
      r'.selects call = some (c', .done .cancelled) ∧ c'.acquired = c.acquired := by
  have accounts := (h.calls call c pc hc).accounts
  cases pc with
  | done exit => exact absurd rfl (running exit)
  | releasing next => exact accounts.elim
  | persisting rest stale =>
    refine ⟨_, { c with lease := none }, rfl, ?_, rfl⟩
    simp only [Replica.releaseAnd]
    rw [Replica.giveBack_free h.unlocked]
    simp [Replica.afterRelease, Replica.set]
  | loading => exact ⟨_, c, rfl, by simp [Replica.set], rfl⟩
  | ready => exact ⟨_, c, rfl, by simp [Replica.set], rfl⟩
  | choosing => exact ⟨_, c, rfl, by simp [Replica.set], rfl⟩
  | chosen result => exact ⟨_, c, rfl, by simp [Replica.set], rfl⟩

def persistingWith (leases : List String) : Option (SelectCall × SelectPc) → Bool
  | some (c, .persisting _ _) => decide (c.acquired = leases)
  | _ => false

theorem persistingWith_eq_true {leases : List String} {x : Option (SelectCall × SelectPc)}
    (h : persistingWith leases x = true) :
    ∃ c rest stale, x = some (c, .persisting rest stale) ∧ c.acquired = leases := by
  simp only [persistingWith] at h
  split at h
  · rename_i c rest stale
    exact ⟨c, rest, stale, rfl, of_decide_eq_true h⟩
  · cases h

/-- A `select_account` call can be cancelled at every await; the cancellation propagates at
once, and neither then nor in any later state is a lease of that call still held. -/
theorem cancellation_leaks_no_lease (settings : Settings) {w : World}
    (h : Reachable (World.step settings) Any World.Initial w) (i : Nat) (call : Nat)
    (c : SelectCall) (pc : SelectPc) (hc : (w.replicas i).selects call = some (c, pc)) :
    (pc = .done .cancelled → ∀ x ∈ c.acquired, ¬ (w.replicas i).pool.Holds x) ∧
    ((∀ exit, pc ≠ .done exit) → ∃ w' c', w.step settings (.on i (.abort call true)) = some w' ∧
      (w'.replicas i).selects call = some (c', .done .cancelled) ∧ c'.acquired = c.acquired ∧
      ∀ x ∈ c.acquired, ¬ (w'.replicas i).pool.Holds x) := by
  have sound := reachable_uncapped h
  refine ⟨?_, ?_⟩
  · rintro rfl
    exact ((sound i).calls call c _ hc).accounts
  · intro running
    obtain ⟨r', c', habort, hc', hacquired⟩ := (sound i).cancel hc running
    have hstep : w.step settings (.on i (.abort call true)) = some { w with
        replicas := fun x => if x = i then r' else w.replicas x } := by
      simp [World.step, Replica.step, hc, habort]
    refine ⟨_, c', hstep, by simpa using hc', hacquired, ?_⟩
    have after := sound.step (uncapped_ok _) hstep i
    have gone := (after.calls call c' _ (by simpa using hc')).accounts
    exact hacquired ▸ gone

theorem cancelled_while_persisting :
    ∃ w c rest stale w' c',
      replay (World.step {}) (idleWorld 100 [healthyAccount "a"]) (fullAccount.take 3) = some w ∧
      (w.replicas 0).selects 7 = some (c, .persisting rest stale) ∧ c.acquired = ["x"] ∧
      w.step {} (.on 0 (.abort 7 true)) = some w' ∧
      (w'.replicas 0).selects 7 = some (c', .done .cancelled) ∧
      ¬ (w'.replicas 0).pool.Holds "x" := by
  have run : ((replay (World.step {}) (idleWorld 100 [healthyAccount "a"])
      (fullAccount.take 3)).any fun w =>
        persistingWith ["x"] ((w.replicas 0).selects 7)) = true := by decide +kernel
  obtain ⟨w, hw, here⟩ := (Option.any_eq_true _ _).mp run
  obtain ⟨c, rest, stale, hc, acquired⟩ := persistingWith_eq_true here
  have cancel := cancellation_leaks_no_lease {}
    (reachable_of_replay (fullAccount.take 3) (fun _ => rfl) (fun _ _ _ => trivial) hw) 0 7 c _ hc
  obtain ⟨w', c', hstep, hc', _, gone⟩ := cancel.2 (by intro exit; simp)
  exact ⟨w, c, rest, stale, w', c', hw, hc, acquired, hstep, hc', gone "x" (by simp [acquired])⟩

end Balancer
