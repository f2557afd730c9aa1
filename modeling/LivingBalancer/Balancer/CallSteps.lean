import LivingBalancer.Balancer.LeaseCalls

/-!
# What a replica step does to the states a call holds

A request carries its account snapshots and built states through every await of a
selection. `CallMove` lists what one step can make of them, `RowMove` which rows it
writes, and `StepFacts` collects both; nothing here depends on which account a
strategy prefers.
-/

namespace Balancer

open Runs

/-- The entries a call has still to persist. -/
def SelectPc.pending : SelectPc → List (Account × AccountState)
  | .persisting rest _ => rest
  | _ => []

/-- The choice a sticky call has made and not committed yet. -/
def SelectPc.choice : SelectPc → Option AccountState
  | .chosen result => result.account
  | _ => none

/-- The suspension points between loading the inputs and taking a snapshot. -/
def SelectPc.undecided : SelectPc → Bool
  | .ready | .choosing | .chosen _ => true
  | _ => false

/-- A selection over built entries, with the account it returns. -/
structure Selects (cfg : RouteConfig) (limit : ℚ) (grace : String → ℚ)
    (built after : List (Account × AccountState)) (choice : Option AccountState) : Prop where
  examined : List.Forall₂ (fun e e' => e'.1 = e.1 ∧ Examined cfg limit e.2 e'.2) built after
  chosen : ∀ ch, choice = some ch → ∃ e ∈ built, Selectable cfg (grace ch.accountId) e.2 ch

/-- The end of a selection: the choice is written over its entry, and the snapshot is one of
its account. -/
structure Concludes (choice : Option AccountState) (c c' : SelectCall) : Prop where
  built : c'.built = c.built ∨ ∃ ch, choice = some ch ∧ c'.built = c.built.map (adoptResult ch)
  snapshot : ∀ a, c'.snapshot = some a → c.snapshot = some a ∨
    ∃ ch, choice = some ch ∧ ∃ e ∈ c.built, e.2.accountId = ch.accountId ∧ a.id = e.1.id

/-- How a step can leave a call it moved. -/
inductive CallMove (settings : Settings) (now : ℚ) (r : Replica) :
    ReplicaAct → SelectCall → SelectPc → Prop where
  | cleared {act : ReplicaAct} {c : SelectCall} {pc : SelectPc} (built : c.built = [])
      (snapshot : c.snapshot = none) (pending : pc.pending = []) (choice : pc.choice = none) :
      CallMove settings now r act c pc
  | kept {act : ReplicaAct} {call : Nat} {c c' : SelectCall} {pc pc' : SelectPc}
      (old : r.selects call = some (c, pc)) (built : c'.built = c.built)
      (snapshot : c'.snapshot = none ∨ c'.snapshot = c.snapshot)
      (pending : pc'.pending = [] ∨ ∃ e, pc.pending = e :: pc'.pending)
      (choice : pc'.choice = none) (decided : pc'.undecided = false) :
      CallMove settings now r act c' pc'
  | opened {call : Nat} {c c' : SelectCall} {monotonic : ℚ} {leaseId : String}
      (old : r.selects call = some (c, .ready)) (snapshot : c'.snapshot = c.snapshot)
      (built : c'.built = (openSection settings now monotonic c.inputs r.pool).1) :
      CallMove settings now r (.enter call monotonic leaseId) c' .choosing
  | selected {call : Nat} {c mid c' : SelectCall} {monotonic : ℚ} {leaseId : String}
      {choice : Option AccountState} (old : r.selects call = some (c, .ready))
      (snapshot : mid.snapshot = c.snapshot)
      (selects : Selects c.args.route now (fun _ => now)
        (openSection settings now monotonic c.inputs r.pool).1 mid.built choice)
      (concludes : Concludes choice mid c') :
      CallMove settings now r (.enter call monotonic leaseId) c' (.persisting c'.built [])
  | chose {call : Nat} {c c' : SelectCall} {earlier : ℚ} {existing : Option String}
      {sticky : StickyRequest} {result : SelectionResult}
      (old : r.selects call = some (c, .choosing)) (key : c.args.sticky = some sticky)
      (snapshot : c'.snapshot = c.snapshot)
      (selects : Selects c.args.route now (stickyGrace sticky.reallocate existing earlier now)
        c.built c'.built result.account) :
      CallMove settings now r (.choose call earlier existing) c' (.chosen result)
  | committed {call : Nat} {c c' : SelectCall} {monotonic : ℚ} {leaseId : String}
      {result : SelectionResult} (old : r.selects call = some (c, .chosen result))
      (concludes : Concludes result.account c c') :
      CallMove settings now r (.commit call monotonic leaseId) c' (.persisting c'.built [])

def ReplicaAct.persistsMark : ReplicaAct → Bool
  | .markPersist _ => true
  | _ => false

/-- The row writes of a replica step. -/
inductive RowMove (r : Replica) (rows : Rows) : ReplicaAct → Rows → Prop where
  | none {act : ReplicaAct} (quiet : act.persistsMark = false) : RowMove r rows act rows
  | persist {call : Nat} {c : SelectCall} {pc : SelectPc} {e : Account × AccountState}
      {rest : List (Account × AccountState)} (old : r.selects call = some (c, pc))
      (pending : pc.pending = e :: rest) (noBypass : e.2.ignoreStandardQuota = false) :
      RowMove r rows (.persist call) (persistStateIfCurrent rows e.1 e.2 .none).1
  | mark {call : Nat} {m : MarkCall} (old : r.marks call = some m) :
      RowMove r rows (.markPersist call) (m.persist rows)

/-- A mark in flight carries the state it computed when it began. -/
def MarkCall.Computed (m : MarkCall) : Prop :=
  ∃ now rt, m.state = m.mark.apply now (stateFor m.account rt)

structure StepFacts (settings : Settings) (now : ℚ) (rows : Rows) (r : Replica) (act : ReplicaAct)
    (r' : Replica) (rows' : Rows) : Prop where
  observed : r.observed ⊆ r'.observed
  marks : ∀ call m, r'.marks call = some m → r.marks call = some m ∨ m.Computed
  rows : RowMove r rows act rows'
  calls : ∀ call c pc, r'.selects call = some (c, pc) →
    r.selects call = some (c, pc) ∨ CallMove settings now r act c pc

section Sections

variable {c c' : SelectCall} {p : Pool}

theorem examined_entries {cfg : RouteConfig} {limit : ℚ} (keep : AccountState → Bool)
    {built : List (Account × AccountState)} {outs : List AccountState}
    (h : List.Forall₂ (Examined cfg limit) ((built.map Prod.snd).filter keep) outs) :
    List.Forall₂ (fun e e' : Account × AccountState => e'.1 = e.1 ∧ Examined cfg limit e.2 e'.2)
      built (replaceStates built (restore keep (built.map Prod.snd) outs)) := by
  have related := restore_related (fun s => Examined.refl s) keep h
  generalize restore keep (built.map Prod.snd) outs = states at related
  clear h
  induction built generalizing states with
  | nil =>
    cases related
    exact .nil
  | cons e rest ih =>
    cases related with
    | cons head tail => exact .cons ⟨rfl, head⟩ (ih _ tail)

theorem examined_refl (cfg : RouteConfig) (limit : ℚ) (built : List (Account × AccountState)) :
    List.Forall₂ (fun e e' : Account × AccountState => e'.1 = e.1 ∧ Examined cfg limit e.2 e'.2)
      built built :=
  List.forall₂_same.mpr fun e _ => ⟨rfl, .refl e.2⟩

/-- A sound selection over the states that pass a filter is one over the entries. -/
theorem Sound.selects {cfg : RouteConfig} {limit : ℚ} {grace : String → ℚ}
    {keep : AccountState → Bool} {built : List (Account × AccountState)} {out : Outcome}
    (sound : Sound cfg limit grace ((built.map Prod.snd).filter keep) out) :
    Selects cfg limit grace built
      (replaceStates built (restore keep (built.map Prod.snd) out.states)) out.result.account := by
  refine ⟨examined_entries keep sound.examined, ?_⟩
  intro ch hch
  obtain ⟨s, hs, selectable⟩ := sound.chosen ch hch
  obtain ⟨e, he, rfl⟩ := List.mem_map.mp (List.mem_of_mem_filter hs)
  exact ⟨e, he, selectable⟩

theorem concludeSelection_concludes (recheckCap : Bool) (now monotonic : ℚ) (leaseId : String)
    (c : SelectCall) (result : SelectionResult) (p : Pool) :
    Concludes result.account c (concludeSelection recheckCap now monotonic leaseId c result p).1 := by
  have unchanged : ∀ choice, ∀ c' : SelectCall, c'.built = c.built → c'.snapshot = c.snapshot →
      Concludes choice c c' := fun choice c' built snapshot =>
    ⟨Or.inl built, fun a ha => Or.inl (snapshot ▸ ha)⟩
  simp only [concludeSelection]
  cases hchosen : result.account with
  | none => exact unchanged none _ rfl rfl
  | some chosen =>
    dsimp only
    cases hfind : c.built.find? fun entry => entry.2.accountId == chosen.accountId with
    | none => exact unchanged (some chosen) _ rfl rfl
    | some entry =>
      obtain ⟨account, state⟩ := entry
      have hmem := List.mem_of_find?_eq_some hfind
      have hid : state.accountId = chosen.accountId := by simpa using List.find?_some hfind
      have adopted : ∀ c' : SelectCall, c'.built = c.built.map (adoptResult chosen) →
          (∀ a, c'.snapshot = some a → a.id = account.id) → Concludes (some chosen) c c' :=
        fun c' built snapshot => ⟨Or.inr ⟨chosen, rfl, built⟩, fun a ha =>
          Or.inr ⟨chosen, rfl, (account, state), hmem, hid, snapshot a ha⟩⟩
      have named : ∀ a b : Account, some b = some a → b.id = account.id → a.id = account.id := by
        rintro a b ⟨⟩ hb
        exact hb
      dsimp only
      cases c.args.leaseKind with
      | none => exact adopted _ rfl fun a ha => named a _ ha rfl
      | some kind =>
        dsimp only
        split
        · refine adopted _ rfl ?_
          intro a ha
          cases ha
        · exact adopted _ rfl fun a ha => named a _ ha rfl

theorem selectSection_selects (settings : Settings) (now monotonic : ℚ) (leaseId : String)
    (c : SelectCall) (p : Pool) : ∃ mid choice, mid.snapshot = c.snapshot ∧
      Selects c.args.route now (fun _ => now) (openSection settings now monotonic c.inputs p).1
        mid.built choice ∧
      Concludes choice mid (selectSection settings now monotonic leaseId c p).1 := by
  simp only [selectSection]
  generalize openSection settings now monotonic c.inputs p = opening
  obtain ⟨built, q⟩ := opening
  dsimp only
  split
  · refine ⟨_, _, ?_, ?_, concludeSelection_concludes false now monotonic leaseId _ _ q⟩
    · rfl
    · refine ⟨examined_refl _ _ built, ?_⟩
      intro ch hch
      cases hch
  · have sound : Sound c.args.route now (fun _ => now) ((built.map Prod.snd).filter (underCallCap c))
        (selectAccountPreferringBudgetSafe c.args.route .routed false now
          ((built.map Prod.snd).filter (underCallCap c))) :=
      .preferringBudgetSafe .routed false (le_refl now) (fun _ => le_refl now)
    refine ⟨_, _, ?_, ?_, concludeSelection_concludes false now monotonic leaseId _ _ q⟩
    · rfl
    · exact sound.selects

theorem chooseSticky_selects {sticky : StickyRequest} {existing : Option String} {earlier now : ℚ}
    (hle : earlier ≤ now) {result : SelectionResult}
    (h : chooseSticky sticky existing earlier now c = some (c', result)) :
    c'.snapshot = c.snapshot ∧
      Selects c.args.route now (stickyGrace sticky.reallocate existing earlier now) c.built c'.built
        result.account := by
  simp only [chooseSticky] at h
  split at h
  · cases h
    refine ⟨rfl, examined_refl _ _ _, ?_⟩
    intro ch hch
    cases hch
  · obtain ⟨out, hout, heq⟩ := Option.map_eq_some_iff.mp h
    cases heq
    exact ⟨rfl, (selectWithStickiness_sound hle hout).selects⟩

end Sections

theorem Replica.critical_some {α : Type} {r r' : Replica} {body : Pool → α × Pool} {x : α}
    (h : r.critical body = some (x, r')) :
    x = (body r.pool).1 ∧ r' = r.withPool (body r.pool).2 := by
  by_cases hlocked : r.locked = true
  · simp [Replica.critical, hlocked] at h
  · rw [Replica.critical_free (by simpa using hlocked)] at h
    cases h
    exact ⟨rfl, rfl⟩

theorem Replica.giveBack_some {r r' : Replica} {lease : Option AccountLease}
    (h : r.giveBack lease = some r') : ∃ p, r' = r.withPool p := by
  cases lease with
  | none =>
    cases h
    exact ⟨r.pool, rfl⟩
  | some lease =>
    obtain ⟨⟨x, q⟩, hq, heq⟩ := Option.map_eq_some_iff.mp h
    exact ⟨_, heq.symm.trans (Replica.critical_some hq).2⟩

section Facts

variable {settings : Settings} {now : ℚ} {rows : Rows} {r : Replica} {act : ReplicaAct}

/-- A step that moves one call and at most the runtime table. -/
theorem StepFacts.set {call : Nat} {c : SelectCall} {pc : SelectPc} (p : Pool)
    (quiet : act.persistsMark = false) (move : CallMove settings now r act c pc) :
    StepFacts settings now rows r act ((r.withPool p).set call c pc) rows where
  observed := fun _ hx => hx
  marks := fun _ _ hm => Or.inl hm
  rows := .none quiet
  calls := by
    intro x c' pc' hx
    rcases Replica.set_selects _ call c pc x _ hx with old | new
    · exact Or.inl old
    · cases new
      exact Or.inr move

/-- A step that moves no call. -/
theorem StepFacts.frame {r' : Replica} {rows' : Rows} (observed : r.observed ⊆ r'.observed)
    (marks : ∀ call m, r'.marks call = some m → r.marks call = some m ∨ m.Computed)
    (selects : r'.selects = r.selects) (rowMove : RowMove r rows act rows') :
    StepFacts settings now rows r act r' rows' where
  observed := observed
  marks := marks
  rows := rowMove
  calls := fun _ _ _ hc => Or.inl (selects ▸ hc)

theorem StepFacts.releaseAnd {call : Nat} {c : SelectCall} {pc : SelectPc} (next : AfterRelease)
    (quiet : act.persistsMark = false) (old : r.selects call = some (c, pc)) :
    StepFacts settings now rows r act (r.releaseAnd call c next) rows := by
  have moved : ∀ (p : Pool) (c' : SelectCall) (pc' : SelectPc), c'.built = c.built →
      (c'.snapshot = none ∨ c'.snapshot = c.snapshot) → pc'.pending = [] → pc'.choice = none →
      pc'.undecided = false →
      StepFacts settings now rows r act ((r.withPool p).set call c' pc') rows :=
    fun p c' pc' built snapshot pending choice decided =>
      .set p quiet (.kept old built snapshot (Or.inl pending) choice decided)
  simp only [Replica.releaseAnd]
  cases hback : r.giveBack c.lease with
  | none => exact moved r.pool c _ rfl (Or.inr rfl) rfl rfl rfl
  | some back =>
    obtain ⟨p, rfl⟩ := Replica.giveBack_some hback
    dsimp only
    simp only [Replica.afterRelease]
    cases next with
    | stale =>
      dsimp only
      split
      · exact moved p _ _ rfl (Or.inl rfl) rfl rfl rfl
      · exact moved p _ _ rfl (Or.inr rfl) rfl rfl rfl
    | generationChanged => exact moved p _ _ rfl (Or.inr rfl) rfl rfl rfl
    | aborted cancelled =>
      cases cancelled with
      | true => exact moved p _ _ rfl (Or.inr rfl) rfl rfl rfl
      | false => exact moved p _ _ rfl (Or.inr rfl) rfl rfl rfl

theorem StepFacts.enter {r' : Replica} {call : Nat} {c : SelectCall} {monotonic : ℚ}
    {leaseId : String} (old : r.selects call = some (c, .ready))
    (h : r.enterSection settings now monotonic leaseId call c = some r') :
    StepFacts settings now rows r (.enter call monotonic leaseId) r' rows := by
  simp only [Replica.enterSection] at h
  cases hsticky : c.args.sticky with
  | none =>
    rw [hsticky] at h
    obtain ⟨⟨c', q⟩, hq, heq⟩ := Option.map_eq_some_iff.mp h
    obtain ⟨hc', rfl⟩ := Replica.critical_some hq
    cases heq
    obtain ⟨mid, choice, snapshot, selects, concludes⟩ :=
      selectSection_selects settings now monotonic leaseId c r.pool
    rw [← hc'] at concludes
    refine .set _ rfl ?_
    exact .selected old snapshot selects ⟨concludes.built, concludes.snapshot⟩
  | some sticky =>
    rw [hsticky] at h
    obtain ⟨⟨c', q⟩, hq, heq⟩ := Option.map_eq_some_iff.mp h
    obtain ⟨rfl, rfl⟩ := Replica.critical_some hq
    cases heq
    have facts : StepFacts settings now rows r (.enter call monotonic leaseId)
        ((r.withPool (stickySection settings now monotonic c r.pool).2).set call
          (stickySection settings now monotonic c r.pool).1 .choosing) rows :=
      .set _ rfl (.opened old rfl rfl)
    exact ⟨facts.observed, facts.marks, facts.rows, facts.calls⟩

end Facts

/-- What a replica step can do to the rows and to the states its calls hold. -/
theorem Replica.step_facts {settings : Settings} {now : ℚ} {rows rows' : Rows} {r r' : Replica}
    {act : ReplicaAct} (hstep : r.step settings now rows act = some (r', rows')) :
    StepFacts settings now rows r act r' rows' := by
  cases act with
  | start call args =>
    simp only [Replica.step] at hstep
    split at hstep
    · cases hstep
      exact .set r.pool rfl (.cleared rfl rfl rfl rfl)
    · cases hstep
  | loaded call inputs =>
    simp only [Replica.step] at hstep
    split at hstep
    · rename_i c old
      split at hstep
      · cases hstep
        exact .set r.pool rfl (.kept old rfl (Or.inr rfl) (Or.inl rfl) rfl rfl)
      · cases hstep
        exact .set r.pool rfl (.cleared rfl rfl rfl rfl)
    · cases hstep
  | enter call monotonic leaseId =>
    simp only [Replica.step] at hstep
    split at hstep
    · rename_i c old
      split at hstep
      · cases hstep
      · obtain ⟨q, hq, heq⟩ := Option.map_eq_some_iff.mp hstep
        cases heq
        exact .enter old hq
    · cases hstep
  | choose call earlier existing =>
    simp only [Replica.step] at hstep
    split at hstep
    · rename_i c old
      split at hstep
      · cases hstep
      · rename_i sticky key
        split at hstep
        · rename_i hle
          split at hstep
          · cases hstep
            exact .set r.pool rfl (.kept old rfl (Or.inr rfl) (Or.inl rfl) rfl rfl)
          · rename_i c' result hchoose
            cases hstep
            obtain ⟨snapshot, selects⟩ := chooseSticky_selects hle hchoose
            exact .set r.pool rfl (.chose old key snapshot selects)
        · cases hstep
    · cases hstep
  | commit call monotonic leaseId =>
    simp only [Replica.step] at hstep
    split at hstep
    · rename_i c result old
      split at hstep
      · cases hstep
      · obtain ⟨⟨c', q⟩, hq, heq⟩ := Option.map_eq_some_iff.mp hstep
        obtain ⟨rfl, rfl⟩ := Replica.critical_some hq
        cases heq
        exact .set _ rfl (.committed old (concludeSelection_concludes ..))
    · cases hstep
  | persist call =>
    simp only [Replica.step] at hstep
    split at hstep
    · rename_i c account state rest stale old
      split at hstep
      · cases hstep
        exact .set r.pool rfl (.kept old rfl (Or.inr rfl) (Or.inr ⟨_, rfl⟩) rfl rfl)
      · rename_i bypass
        cases hstep
        have moved : ∀ stale', StepFacts settings now rows r (.persist call)
            (r.set call c (.persisting rest stale')) rows := fun stale' =>
          .set r.pool rfl (.kept old rfl (Or.inr rfl) (Or.inr ⟨_, rfl⟩) rfl rfl)
        have facts := moved
          (if (persistStateIfCurrent rows account state none).2 then stale else account.id :: stale)
        exact ⟨facts.observed, facts.marks, .persist old rfl (by simpa using bypass), facts.calls⟩
    · cases hstep
  | settle call =>
    simp only [Replica.step] at hstep
    split at hstep
    · rename_i c stale old
      cases hstep
      simp only [Replica.settleCall]
      split
      · exact .releaseAnd _ rfl old
      · exact .set r.pool rfl (.kept old rfl (Or.inr rfl) (Or.inl rfl) rfl rfl)
      · exact .set r.pool rfl (.kept old rfl (Or.inr rfl) (Or.inl rfl) rfl rfl)
    · cases hstep
  | resume call =>
    simp only [Replica.step] at hstep
    split at hstep
    · rename_i c next old
      cases hstep
      exact .releaseAnd _ rfl old
    · cases hstep
  | abort call cancelled =>
    simp only [Replica.step] at hstep
    split at hstep
    · rename_i c pc old
      obtain ⟨q, hq, heq⟩ := Option.map_eq_some_iff.mp hstep
      cases heq
      simp only [Replica.abortCall] at hq
      split at hq
      · cases hq
      · cases hq
        exact .releaseAnd _ rfl old
      · cases hq
        exact .set r.pool rfl (.kept old rfl (Or.inr rfl) (Or.inl rfl) rfl rfl)
    · cases hstep
  | acquireLease accountId kind estimatedTokens caps monotonic leaseId =>
    simp only [Replica.step] at hstep
    split at hstep
    · cases hstep
    · obtain ⟨q, hq, heq⟩ := Option.map_eq_some_iff.mp hstep
      cases heq
      obtain ⟨⟨x, back⟩, hback, rfl⟩ := Option.map_eq_some_iff.mp hq
      obtain ⟨_, rfl⟩ := Replica.critical_some hback
      exact .frame (fun _ hx => hx) (fun _ _ hm => Or.inl hm) rfl (.none rfl)
  | releaseLease lease =>
    obtain ⟨q, hq, heq⟩ := Option.map_eq_some_iff.mp hstep
    cases heq
    obtain ⟨p, rfl⟩ := Replica.giveBack_some hq
    exact .frame (fun _ hx => hx) (fun _ _ hm => Or.inl hm) rfl (.none rfl)
  | admission inputs monotonic =>
    obtain ⟨⟨x, q⟩, hq, heq⟩ := Option.map_eq_some_iff.mp hstep
    cases heq
    obtain ⟨_, rfl⟩ := Replica.critical_some hq
    exact .frame (fun _ hx => hx) (fun _ _ hm => Or.inl hm) rfl (.none rfl)
  | mark call account mark =>
    simp only [Replica.step] at hstep
    split at hstep
    · cases hstep
      refine .frame ?_ ?_ rfl (.none rfl)
      · intro x hx
        cases mark with
        | rateLimit error jitter => exact List.mem_cons_of_mem _ hx
        | quotaExceeded error => exact hx
        | permanentFailure errorCode => exact hx
        | errors count => exact hx
      · intro x m hm
        simp only [Replica.startMark, Replica.signal] at hm
        split at hm
        · cases hm
          exact Or.inr ⟨now, _, rfl⟩
        · exact Or.inl hm
    · cases hstep
  | markPersist call =>
    simp only [Replica.step] at hstep
    split at hstep
    · cases hstep
    · rename_i m old
      have ended : ∀ x m', (r.endMark call m).marks x = some m' → r.marks x = some m' := by
        intro x m' hm
        simp only [Replica.endMark, Replica.unlockAccount] at hm
        split at hm
        · cases hm
        · exact hm
      cases hstep
      cases m.mark <;> exact .frame (fun _ hx => hx) (fun x m' hm => Or.inl (ended x m' hm)) rfl
        (.mark old)
  | markAbort call =>
    simp only [Replica.step] at hstep
    split at hstep
    · cases hstep
    · rename_i m old
      cases hstep
      refine .frame (fun _ hx => hx) ?_ rfl (.none rfl)
      intro x m' hm
      simp only [Replica.endMark, Replica.unlockAccount] at hm
      split at hm
      · cases hm
      · exact Or.inl hm
  | recordSuccess accountId =>
    simp only [Replica.step] at hstep
    split at hstep
    · cases hstep
    · cases hstep
      simp only [Replica.success]
      split
      · exact .frame (fun _ hx => hx) (fun _ _ hm => Or.inl hm) rfl (.none rfl)
      · exact .frame (fun _ hx => hx) (fun _ _ hm => Or.inl hm) rfl (.none rfl)
  | invalidate =>
    cases hstep
    exact .frame (fun _ hx => hx) (fun _ _ hm => Or.inl hm) rfl (.none rfl)

section Build

variable (settings : Settings) (now : ℚ) (inputs : SelectionInputs)

theorem buildState_verdict (account : Account) (rt : RuntimeState) :
    (buildState settings now inputs account rt).1.status =
      (accountVerdict settings now account rt (inputs.latestPrimary account.id)
        (longWindowEntry inputs account)).status ∧
    (buildState settings now inputs account rt).1.resetAt =
      (accountVerdict settings now account rt (inputs.latestPrimary account.id)
        (longWindowEntry inputs account)).resetAt := by
  simp only [buildState, applyOverrides, stateFromAccount, and_self]

theorem buildStates_accounts (accounts : List Account) (p : Pool) :
    (p.buildStates settings now inputs accounts).1.map Prod.fst = accounts := by
  induction accounts generalizing p with
  | nil => rfl
  | cons account rest ih =>
    simp only [Pool.buildStates, List.map_cons, ih]

/-- Accounts are distinct, so building one leaves the runtime the others are built from. -/
theorem buildStates_entry {accounts : List Account} (distinct : (accounts.map (·.id)).Nodup)
    (p : Pool) : ∀ e ∈ (p.buildStates settings now inputs accounts).1,
      e.1 ∈ accounts ∧ e.2 = (buildState settings now inputs e.1 (p.get e.1.id)).1 := by
  induction accounts generalizing p with
  | nil =>
    intro e he
    cases he
  | cons account rest ih =>
    obtain ⟨fresh, distinct⟩ := List.nodup_cons.mp distinct
    intro e he
    simp only [Pool.buildStates, List.mem_cons] at he
    rcases he with rfl | he
    · exact ⟨List.mem_cons_self, rfl⟩
    · obtain ⟨hmem, hstate⟩ := ih distinct _ e he
      have other : e.1.id ≠ account.id := by
        intro same
        exact fresh (List.mem_map.mpr ⟨e.1, hmem, same⟩)
      rw [Pool.get_update, if_neg other] at hstate
      exact ⟨List.mem_cons_of_mem _ hmem, hstate⟩

/-- The runtime table as the build of a section finds it. -/
def Pool.opened (p : Pool) (monotonic : ℚ) : Pool :=
  (p.reclaimStale settings monotonic).prune inputs.keptAccounts

theorem openSection_entry (monotonic : ℚ) (p : Pool) :
    ∀ e ∈ (openSection settings now monotonic inputs p).1, e.1 ∈ inputs.accounts ∧
      e.2 = (buildState settings now inputs e.1
        ((p.opened settings inputs monotonic).get e.1.id)).1 :=
  buildStates_entry settings now inputs inputs.distinct _

theorem openSection_ids (monotonic : ℚ) (p : Pool) :
    ∀ e ∈ (openSection settings now monotonic inputs p).1, e.2.accountId = e.1.id := by
  intro e he
  rw [(openSection_entry settings now inputs monotonic p e he).2]
  rfl

theorem openSection_distinct (monotonic : ℚ) (p : Pool) :
    ((openSection settings now monotonic inputs p).1.map (·.1.id)).Nodup := by
  have accounts := buildStates_accounts settings now inputs inputs.accounts
    (p.opened settings inputs monotonic)
  have ids : (openSection settings now monotonic inputs p).1.map (·.1.id) =
      inputs.accounts.map (·.id) := by
    rw [← accounts, List.map_map]
    rfl
  rw [ids]
  exact inputs.distinct

end Build

/-- What always holds of the entries of a call. -/
structure CallShape (c : SelectCall) (pc : SelectPc) : Prop where
  distinct : (c.built.map (·.1.id)).Nodup
  ids : ∀ e ∈ c.built, e.2.accountId = e.1.id
  pending : ∀ e ∈ pc.pending, e ∈ c.built
  undecided : pc.undecided = true → c.snapshot = none

theorem Selects.accounts {cfg : RouteConfig} {limit : ℚ} {grace : String → ℚ}
    {built after : List (Account × AccountState)} {choice : Option AccountState}
    (h : Selects cfg limit grace built after choice) : after.map (·.1.id) = built.map (·.1.id) := by
  have examined := h.examined
  clear h
  induction examined with
  | nil => rfl
  | cons head _ ih => rw [List.map_cons, List.map_cons, head.1, ih]

theorem Selects.mem {cfg : RouteConfig} {limit : ℚ} {grace : String → ℚ}
    {built after : List (Account × AccountState)} {choice : Option AccountState}
    (h : Selects cfg limit grace built after choice) {e' : Account × AccountState}
    (he' : e' ∈ after) : ∃ e ∈ built, e'.1 = e.1 ∧ Examined cfg limit e.2 e'.2 :=
  Pointwise.exists_left h.examined he'

theorem Selects.ids {cfg : RouteConfig} {limit : ℚ} {grace : String → ℚ}
    {built after : List (Account × AccountState)} {choice : Option AccountState}
    (h : Selects cfg limit grace built after choice)
    (ids : ∀ e ∈ built, e.2.accountId = e.1.id) : ∀ e ∈ after, e.2.accountId = e.1.id := by
  intro e' he'
  obtain ⟨e, he, haccount, examined⟩ := h.mem he'
  rw [examined.same.accountId, ids e he, haccount]

theorem adoptResult_fst (ch : AccountState) (e : Account × AccountState) :
    (adoptResult ch e).1 = e.1 ∧ (adoptResult ch e).2.accountId = e.2.accountId := by
  simp only [adoptResult]
  split
  · exact ⟨rfl, rfl⟩
  · exact ⟨rfl, rfl⟩

/-- Every entry a concluded call holds is one it held before, or that with the choice for its
account written over it. -/
theorem Concludes.mem {choice : Option AccountState} {c c' : SelectCall}
    (h : Concludes choice c c') {e' : Account × AccountState} (he' : e' ∈ c'.built) :
    e' ∈ c.built ∨ ∃ ch, choice = some ch ∧ ∃ e ∈ c.built, e.2.accountId = ch.accountId ∧
      e' = (e.1, { e.2 with
        status := ch.status
        deactivationReason := ch.deactivationReason }) := by
  rcases h.built with same | ⟨ch, hch, mapped⟩
  · exact Or.inl (same ▸ he')
  · rw [mapped] at he'
    obtain ⟨e, he, rfl⟩ := List.mem_map.mp he'
    by_cases hid : e.2.accountId = ch.accountId
    · exact Or.inr ⟨ch, hch, e, he, hid, by rw [adoptResult, if_pos hid]⟩
    · rw [adoptResult, if_neg hid]
      exact Or.inl he

theorem Concludes.shape {choice : Option AccountState} {c c' : SelectCall}
    (h : Concludes choice c c') (distinct : (c.built.map (·.1.id)).Nodup)
    (ids : ∀ e ∈ c.built, e.2.accountId = e.1.id) :
    CallShape c' (.persisting c'.built []) := by
  refine ⟨?_, ?_, fun e he => he, fun undecided => by cases undecided⟩
  · rcases h.built with same | ⟨ch, _, mapped⟩
    · rw [same]
      exact distinct
    · rw [mapped, List.map_map]
      have keeps : (fun e : Account × AccountState => e.1.id) ∘ adoptResult ch =
          fun e => e.1.id := by
        funext e
        exact congrArg Account.id (adoptResult_fst ch e).1
      rw [keeps]
      exact distinct
  · intro e' he'
    rcases h.mem he' with he' | ⟨ch, _, e, he, _, rfl⟩
    · exact ids e' he'
    · exact ids e he

theorem CallMove.shape {settings : Settings} {now : ℚ} {r : Replica} {act : ReplicaAct}
    {c : SelectCall} {pc : SelectPc} (move : CallMove settings now r act c pc)
    (before : ∀ call c pc, r.selects call = some (c, pc) → CallShape c pc) : CallShape c pc := by
  cases move with
  | cleared built snapshot pending _ =>
    refine ⟨?_, ?_, ?_, fun _ => snapshot⟩
    · rw [built]
      exact List.nodup_nil
    · rw [built]
      exact List.forall_mem_nil _
    · rw [pending]
      exact List.forall_mem_nil _
  | kept old built _ pending _ decided =>
    have shape := before _ _ _ old
    refine ⟨built ▸ shape.distinct, built ▸ shape.ids, ?_, ?_⟩
    · rcases pending with none | ⟨e, rest⟩
      · rw [none]
        exact List.forall_mem_nil _
      · intro e' he'
        exact built ▸ shape.pending e' (rest ▸ List.mem_cons_of_mem _ he')
    · intro undecided
      rw [decided] at undecided
      cases undecided
  | opened old snapshot built =>
    have shape := before _ _ _ old
    refine ⟨?_, ?_, List.forall_mem_nil _, fun _ => snapshot.trans (shape.undecided rfl)⟩
    · rw [built]
      exact openSection_distinct settings now _ _ _
    · rw [built]
      exact openSection_ids settings now _ _ _
  | selected old snapshot selects concludes =>
    refine concludes.shape ?_ (selects.ids (openSection_ids settings now _ _ _))
    rw [selects.accounts]
    exact openSection_distinct settings now _ _ _
  | chose old _ snapshot selects =>
    have shape := before _ _ _ old
    refine ⟨?_, selects.ids shape.ids, List.forall_mem_nil _,
      fun _ => snapshot.trans (shape.undecided rfl)⟩
    rw [selects.accounts]
    exact shape.distinct
  | committed old concludes =>
    have shape := before _ _ _ old
    exact concludes.shape shape.distinct shape.ids

def Replica.Shaped (r : Replica) : Prop := ∀ call c pc, r.selects call = some (c, pc) → CallShape c pc

theorem Replica.Shaped.step {settings : Settings} {now : ℚ} {rows rows' : Rows} {r r' : Replica}
    {act : ReplicaAct} (h : r.Shaped) (hstep : r.step settings now rows act = some (r', rows')) :
    r'.Shaped := by
  intro call c pc hc
  rcases (Replica.step_facts hstep).calls call c pc hc with old | move
  · exact h call c pc old
  · exact move.shape h

/-- The entry a choice was made from, for an account whose entry is still held. -/
theorem Selects.chosen_entry {cfg : RouteConfig} {limit : ℚ} {grace : String → ℚ}
    {built after : List (Account × AccountState)} {choice : Option AccountState}
    (h : Selects cfg limit grace built after choice) (distinct : (built.map (·.1.id)).Nodup)
    (ids : ∀ e ∈ built, e.2.accountId = e.1.id) {ch : AccountState} (hch : choice = some ch)
    {e' : Account × AccountState} (he' : e' ∈ after) (hid : e'.2.accountId = ch.accountId) :
    ∃ e ∈ built, e'.1 = e.1 ∧ Examined cfg limit e.2 e'.2 ∧
      Selectable cfg (grace ch.accountId) e.2 ch := by
  obtain ⟨e, he, haccount, examined⟩ := h.mem he'
  obtain ⟨e₀, he₀, selectable⟩ := h.chosen ch hch
  have same : e = e₀ := by
    refine List.inj_on_of_nodup_map distinct he he₀ ?_
    calc e.1.id = e.2.accountId := (ids e he).symm
      _ = e'.2.accountId := examined.same.accountId.symm
      _ = ch.accountId := hid
      _ = e₀.2.accountId := selectable.same.accountId
      _ = e₀.1.id := ids e₀ he₀
  exact ⟨e, he, haccount, examined, same ▸ selectable⟩

/-- What a step of the system is: the clock, another writer, or one replica. -/
inductive WorldMove (settings : Settings) (w : World) : Act → World → Prop where
  | advance {now : ℚ} (later : w.now ≤ now) : WorldMove settings w (.advance now) { w with now := now }
  | write {id : String} {row : Option Account} : WorldMove settings w (.write id row)
      { w with rows := fun x => if x = id then row else w.rows x }
  | on {i : Nat} {act : ReplicaAct} {r : Replica} {rows : Rows}
      (step : (w.replicas i).step settings w.now w.rows act = some (r, rows)) :
      WorldMove settings w (.on i act)
        { w with
          rows := rows
          replicas := fun x => if x = i then r else w.replicas x }

theorem World.step_move {settings : Settings} {w w' : World} {a : Act}
    (h : w.step settings a = some w') : WorldMove settings w a w' := by
  cases a with
  | advance now =>
    simp only [World.step] at h
    split at h
    · rename_i later
      cases h
      exact .advance later
    · cases h
  | write id row =>
    simp only [World.step] at h
    split at h
    · cases h
      exact .write
    · cases h
  | on i act =>
    obtain ⟨⟨r, rows⟩, hr, rfl⟩ := Option.map_eq_some_iff.mp h
    exact .on hr

/-- The invariant rule for one replica: the clock and its own steps are all that moves it. -/
theorem replica_invariant {I : ℚ → Replica → Prop} {settings : Settings}
    {ok : World → Act → Prop} {init : World → Prop} {i : Nat}
    (start : ∀ w, init w → I w.now (w.replicas i))
    (later : ∀ now now' r, now ≤ now' → I now r → I now' r)
    (kept : ∀ w act r rows, I w.now (w.replicas i) → ok w (.on i act) →
      (w.replicas i).step settings w.now w.rows act = some (r, rows) → I w.now r)
    {w : World} (h : Reachable (World.step settings) ok init w) : I w.now (w.replicas i) := by
  refine h.invariant (I := fun w => I w.now (w.replicas i)) start ?_
  intro s a t hs hok hstep
  cases World.step_move hstep with
  | advance hle => exact later _ _ _ hle hs
  | write => exact hs
  | @on j act r rows hr =>
    dsimp only
    by_cases same : i = j
    · subst same
      rw [if_pos rfl]
      exact kept s act r rows hs hok hr
    · rw [if_neg same]
      exact hs

theorem reachable_shaped {settings : Settings} {ok : World → Act → Prop} {w : World}
    (h : Reachable (World.step settings) ok World.Initial w) (i : Nat) :
    (w.replicas i).Shaped := by
  refine replica_invariant (I := fun _ r => r.Shaped) ?_ ?_ ?_ h
  · intro w hw call c pc hc
    rw [hw i] at hc
    cases hc
  · intro _ _ _ _ hr
    exact hr
  · intro _ _ _ _ hr _ hstep
    exact hr.step hstep

end Balancer
