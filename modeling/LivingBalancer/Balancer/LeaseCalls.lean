import LivingBalancer.Balancer.Leases
import LivingBalancer.Balancer.Replicas

/-!
# The leases of the calls in flight

`CallSound` says for every suspension point of a `select_account` call what became
of the leases the call took, and survives whatever other tasks do to the runtime
table. The critical sections of both branches establish it and acquire only below
the concurrency cap. `Replica.Sound` collects this for one replica.
-/

namespace Balancer

open Runs

/-- The caps a call works with are the constant ones, for every kind that is capped. -/
def CapsAgree (cap : LeaseKind → Int) (caps : AccountConcurrencyCaps) : Prop :=
  ∀ kind, 0 < cap kind → caps.limit kind = cap kind

/-- Only the owner named in the lease can hold a lease with its id. -/
def Pool.Owns (p : Pool) (lease : AccountLease) : Prop :=
  lease.leaseId ∈ p.issued ∧
    ∀ id l, l ∈ heldLeases (p.get id) → l.leaseId = lease.leaseId → id = lease.accountId

/-- A call that can still give its lease back. -/
structure Accountable (p : Pool) (c : SelectCall) : Prop where
  held : ∀ x ∈ c.acquired, p.Holds x → ∃ l, c.lease = some l ∧ l.leaseId = x
  owns : ∀ l, c.lease = some l → p.Owns l ∧ c.snapshot ≠ none

/-- What is known of the leases of a call at each of its suspension points. -/
def SelectPc.Accounts (p : Pool) (c : SelectCall) : SelectPc → Prop
  | .persisting _ _ => Accountable p c
  | .releasing _ => False
  | .done (.returned selection) =>
    ∀ x ∈ c.acquired, p.Holds x → ∃ l, selection.lease = some l ∧ l.leaseId = x
  | .done _ => ∀ x ∈ c.acquired, ¬ p.Holds x
  | _ => c.lease = none ∧ ∀ x ∈ c.acquired, ¬ p.Holds x

structure CallSound (cap : LeaseKind → Int) (p : Pool) (c : SelectCall) (pc : SelectPc) : Prop where
  caps : CapsAgree cap c.args.caps
  known : ∀ x ∈ c.acquired, x ∈ p.issued
  accounts : pc.Accounts p c

structure Replica.Sound (cap : LeaseKind → Int) (r : Replica) : Prop where
  unlocked : r.locked = false
  ledger : Ledger r.pool
  capped : Capped cap r.pool
  calls : ∀ call c pc, r.selects call = some (c, pc) → CallSound cap r.pool c pc

theorem underCap_fresh {cap : LeaseKind → Int} (p : Pool) (l : AccountLease)
    (h : UnderCap cap p l) : FreshLease p l := h.1

section Moves

variable {cap : LeaseKind → Int} {p q : Pool}

theorem not_holds_moves (ledger : Ledger p) (moves : LeaseMoves (UnderCap cap) p q) {x : String}
    (known : x ∈ p.issued) (gone : ¬ p.Holds x) : ¬ q.Holds x := by
  rintro ⟨id, l, hl, hx⟩
  exact gone ⟨id, l, (ledger.held_before underCap_fresh moves known).2 id l hl hx, hx⟩

theorem Pool.Owns.moves {lease : AccountLease} (ledger : Ledger p)
    (moves : LeaseMoves (UnderCap cap) p q) (h : p.Owns lease) : q.Owns lease := by
  obtain ⟨known, own⟩ := h
  obtain ⟨known', back⟩ := ledger.held_before underCap_fresh moves known
  exact ⟨known', fun id l hl hx => own id l (back id l hl hx) hx⟩

theorem Accountable.moves {c : SelectCall} (ledger : Ledger p)
    (moves : LeaseMoves (UnderCap cap) p q) (known : ∀ x ∈ c.acquired, x ∈ p.issued)
    (h : Accountable p c) : Accountable q c where
  held := by
    intro x hx hq
    by_contra none
    exact not_holds_moves ledger moves (known x hx) (fun hp => none (h.held x hx hp)) hq
  owns := fun l hl => ⟨(h.owns l hl).1.moves ledger moves, (h.owns l hl).2⟩

/-- What is known of one call survives whatever other tasks do to the table. -/
theorem CallSound.moves {c : SelectCall} {pc : SelectPc} (ledger : Ledger p)
    (moves : LeaseMoves (UnderCap cap) p q) (h : CallSound cap p c pc) :
    CallSound cap q c pc where
  caps := h.caps
  known := fun x hx => (ledger.held_before underCap_fresh moves (h.known x hx)).1
  accounts := by
    have gone : (∀ x ∈ c.acquired, ¬ p.Holds x) → ∀ x ∈ c.acquired, ¬ q.Holds x :=
      fun hp x hx => not_holds_moves ledger moves (h.known x hx) (hp x hx)
    have accounts := h.accounts
    cases pc with
    | persisting rest stale => exact Accountable.moves ledger moves h.known accounts
    | releasing next => exact accounts
    | loading => exact ⟨accounts.1, gone accounts.2⟩
    | ready => exact ⟨accounts.1, gone accounts.2⟩
    | choosing => exact ⟨accounts.1, gone accounts.2⟩
    | chosen result => exact ⟨accounts.1, gone accounts.2⟩
    | done exit =>
      cases exit with
      | returned selection =>
        intro x hx hq
        by_contra none
        exact not_holds_moves ledger moves (h.known x hx) (fun hp => none (accounts x hx hp)) hq
      | raised => exact gone accounts
      | cancelled => exact gone accounts

end Moves

/-- The frame of a step: the table moved, the lock is free, and only `call` may have changed. -/
theorem Replica.Sound.next {cap : LeaseKind → Int} {r r' : Replica} (h : r.Sound cap)
    (unlocked : r'.locked = false) (moves : LeaseMoves (UnderCap cap) r.pool r'.pool)
    (calls : ∀ call c pc, r'.selects call = some (c, pc) →
      r.selects call = some (c, pc) ∨ CallSound cap r'.pool c pc) : r'.Sound cap where
  unlocked := unlocked
  ledger := h.ledger.moves underCap_fresh moves
  capped := h.capped.moves h.ledger moves
  calls := by
    intro call c pc hc
    rcases calls call c pc hc with same | sound
    · exact (h.calls call c pc same).moves h.ledger moves
    · exact sound

theorem Replica.set_selects (r : Replica) (call : Nat) (c : SelectCall) (pc : SelectPc) (x : Nat)
    (entry : SelectCall × SelectPc) (h : (r.set call c pc).selects x = some entry) :
    r.selects x = some entry ∨ entry = (c, pc) := by
  simp only [Replica.set] at h
  split at h
  · exact Or.inr (Option.some.inj h).symm
  · exact Or.inl h

/-- A step that moves the table and leaves one call at a new suspension point. -/
theorem Replica.Sound.set {cap : LeaseKind → Int} {r r' : Replica} (h : r.Sound cap)
    (unlocked : r'.locked = false) (moves : LeaseMoves (UnderCap cap) r.pool r'.pool)
    (selects : r'.selects = r.selects) {call : Nat} {c : SelectCall} {pc : SelectPc}
    (sound : CallSound cap r'.pool c pc) : (r'.set call c pc).Sound cap := by
  refine h.next unlocked moves ?_
  intro x c' pc' hx
  rcases r'.set_selects call c pc x _ hx with old | new
  · exact Or.inl (selects ▸ old)
  · cases new
    exact Or.inr sound

/-- A critical section of one call. -/
theorem Replica.Sound.setPool {cap : LeaseKind → Int} {r : Replica} (h : r.Sound cap) {p : Pool}
    (moves : LeaseMoves (UnderCap cap) r.pool p) {call : Nat} {c : SelectCall} {pc : SelectPc}
    (sound : CallSound cap p c pc) : ((r.withPool p).set call c pc).Sound cap := by
  apply h.set
  · exact h.unlocked
  · exact moves
  · rfl
  · exact sound

/-- A free lock is free again after the section. -/
theorem Replica.critical_free {α : Type} {r : Replica} (h : r.locked = false)
    (body : Pool → α × Pool) :
    r.critical body = some ((body r.pool).1, r.withPool (body r.pool).2) := by
  simp only [Replica.critical, Replica.withPool]
  simp [h]

theorem SameLeases.inflight {rt rt' : RuntimeState} (same : SameLeases rt rt') (kind : LeaseKind) :
    runtimeInflight kind rt' = runtimeInflight kind rt := by
  cases kind with
  | responseCreate => exact same.responseCreates
  | stream => exact same.streams

theorem Balanced.inflight {id : String} {rt : RuntimeState} (h : Balanced id rt)
    (kind : LeaseKind) : runtimeInflight kind rt = heldOfKind kind rt := by
  cases kind with
  | responseCreate => exact h.responseCreates
  | stream => exact h.streams

/-- A built state carries its account's id and the counters of the runtime table. -/
structure BuiltFrom (p : Pool) (entry : Account × AccountState) : Prop where
  id : entry.2.accountId = entry.1.id
  inflight : ∀ kind, inflight kind entry.2 = runtimeInflight kind (p.get entry.1.id)

theorem BuiltFrom.of_same {p q : Pool} {entry : Account × AccountState} (h : BuiltFrom q entry)
    (same : SamePool p q) : BuiltFrom p entry where
  id := h.id
  inflight := fun kind => (h.inflight kind).trans ((same.entries _).inflight kind)

theorem buildState_from (settings : Settings) (now : ℚ) (inputs : SelectionInputs)
    (account : Account) (p : Pool) :
    BuiltFrom p (account, (buildState settings now inputs account (p.get account.id)).1) := by
  refine ⟨rfl, ?_⟩
  intro kind
  cases kind with
  | responseCreate => rfl
  | stream => rfl

theorem buildStates_from (settings : Settings) (now : ℚ) (inputs : SelectionInputs)
    (accounts : List Account) (p : Pool) :
    ∀ entry ∈ (p.buildStates settings now inputs accounts).1, BuiltFrom p entry := by
  induction accounts generalizing p with
  | nil =>
    intro entry hentry
    cases hentry
  | cons account rest ih =>
    intro entry hentry
    simp only [Pool.buildStates, List.mem_cons] at hentry
    rcases hentry with rfl | hentry
    · exact buildState_from settings now inputs account p
    · have same : SamePool p (p.update account.id fun rt =>
          (buildState settings now inputs account rt).2) :=
        SamePool.update _ (refreshHealth_same settings now _ _ _ _)
      exact (ih _ entry hentry).of_same same

/-- Reclaiming, pruning and building hand out no lease. -/
theorem openSection_moves (settings : Settings) (now monotonic : ℚ) (inputs : SelectionInputs)
    {p : Pool} (h : Ledger p) :
    LeaseMoves (fun _ _ => False) p (openSection settings now monotonic inputs p).2 := by
  have reclaimed : LeaseMoves (fun _ _ => False) p (p.reclaimStale settings monotonic) :=
    .reclaimStale p settings monotonic
  have ledger := h.moves (fun _ _ hok => hok.elim) reclaimed
  have pruned := ledger.prune_same inputs.keptAccounts
  exact (reclaimed.tail (.frame pruned)).tail (.frame (.buildStates settings now inputs _ _))

theorem openSection_from (settings : Settings) (now monotonic : ℚ) (inputs : SelectionInputs)
    (p : Pool) : ∀ entry ∈ (openSection settings now monotonic inputs p).1,
      BuiltFrom (openSection settings now monotonic inputs p).2 entry := by
  intro entry hentry
  have same := SamePool.buildStates settings now inputs inputs.accounts
    ((p.reclaimStale settings monotonic).prune inputs.keptAccounts)
  have from_ := buildStates_from settings now inputs _ _ entry hentry
  exact ⟨from_.id, fun kind => (from_.inflight kind).trans ((same.entries _).inflight kind).symm⟩

theorem restore_related {R : AccountState → AccountState → Prop} (refl : ∀ s, R s s)
    (p : AccountState → Bool) {states outs : List AccountState}
    (h : List.Forall₂ R (states.filter p) outs) : List.Forall₂ R states (restore p states outs) := by
  induction states generalizing outs with
  | nil => exact .nil
  | cons s rest ih =>
    simp only [restore]
    by_cases hp : p s = true
    · rw [List.filter_cons_of_pos hp] at h
      rw [if_pos hp]
      cases h with
      | cons hso htail => exact .cons hso (ih htail)
    · rw [List.filter_cons_of_neg hp] at h
      rw [if_neg hp]
      exact .cons (refl s) (ih h)

theorem mem_replaceStates {R : AccountState → AccountState → Prop}
    {built : List (Account × AccountState)} {states : List AccountState}
    (h : List.Forall₂ R (built.map Prod.snd) states) {entry : Account × AccountState}
    (hentry : entry ∈ replaceStates built states) :
    ∃ before ∈ built, entry.1 = before.1 ∧ R before.2 entry.2 := by
  induction built generalizing states with
  | nil => cases hentry
  | cons b rest ih =>
    cases h with
    | cons hbs htail =>
      rcases List.mem_cons.mp hentry with rfl | hentry
      · exact ⟨b, List.mem_cons_self, rfl, hbs⟩
      · obtain ⟨before, hbefore, heq⟩ := ih htail hentry
        exact ⟨before, List.mem_cons_of_mem _ hbefore, heq⟩

/-- What concluding a selection does to the leases: nothing, or one acquisition for the
account that was chosen. -/
theorem concludeSelection_cases (recheckCap : Bool) (now monotonic : ℚ) (leaseId : String)
    (c : SelectCall) (result : SelectionResult) (p : Pool) :
    (concludeSelection recheckCap now monotonic leaseId c result p).1.args = c.args ∧
    ∃ q, SamePool p q ∧
    (((concludeSelection recheckCap now monotonic leaseId c result p).1.lease = c.lease ∧
      (concludeSelection recheckCap now monotonic leaseId c result p).1.acquired = c.acquired ∧
      (concludeSelection recheckCap now monotonic leaseId c result p).2 = q) ∨
    ∃ chosen account state kind, result.account = some chosen ∧ (account, state) ∈ c.built ∧
      state.accountId = chosen.accountId ∧ c.args.leaseKind = some kind ∧
      (recheckCap = true → accountLeaseAllowed c.args.caps kind c.args.streamReserveSlots
        (q.get account.id) = true) ∧
      (concludeSelection recheckCap now monotonic leaseId c result p).1.lease =
        some (newLease leaseId account.id kind c.args.estimatedLeaseTokens monotonic) ∧
      (concludeSelection recheckCap now monotonic leaseId c result p).1.acquired =
        leaseId :: c.acquired ∧
      (concludeSelection recheckCap now monotonic leaseId c result p).1.snapshot ≠ none ∧
      (concludeSelection recheckCap now monotonic leaseId c result p).2 =
        q.acquire (newLease leaseId account.id kind c.args.estimatedLeaseTokens monotonic) now) := by
  have same := SamePool.syncStates (result.account.map (·.accountId)) now c.built p
  simp only [concludeSelection]
  cases hchosen : result.account with
  | none =>
    rw [hchosen] at same
    exact ⟨rfl, _, same, Or.inl ⟨rfl, rfl, rfl⟩⟩
  | some chosen =>
    rw [hchosen] at same
    dsimp only
    cases hfind : c.built.find? fun entry => entry.2.accountId == chosen.accountId with
    | none => exact ⟨rfl, _, same, Or.inl ⟨rfl, rfl, rfl⟩⟩
    | some entry =>
      obtain ⟨account, state⟩ := entry
      dsimp only
      have hmem := List.mem_of_find?_eq_some hfind
      have hid : state.accountId = chosen.accountId := by simpa using List.find?_some hfind
      cases hkind : c.args.leaseKind with
      | none => exact ⟨rfl, _, same, Or.inl ⟨rfl, rfl, rfl⟩⟩
      | some kind =>
        dsimp only
        split
        · exact ⟨rfl, _, same, Or.inl ⟨rfl, rfl, rfl⟩⟩
        · rename_i allowed
          refine ⟨rfl, _, same, Or.inr ⟨chosen, account, state, kind, rfl, hmem, hid, rfl, ?_, rfl,
            rfl, Option.some_ne_none _, rfl⟩⟩
          intro hrecheck
          by_contra full
          exact allowed ⟨hrecheck, by simpa using full⟩

section Conclude

variable {cap : LeaseKind → Int} {p q : Pool} {c : SelectCall}

/-- A new lease makes the call accountable for exactly that lease. -/
theorem Accountable.acquire (ledger : Ledger p) {lease : AccountLease} (now : ℚ)
    (ok : FreshLease p lease) (before : ∀ x ∈ c.acquired, ¬ p.Holds x) {c' : SelectCall}
    (hlease : c'.lease = some lease) (hacquired : c'.acquired = lease.leaseId :: c.acquired)
    (hsnapshot : c'.snapshot ≠ none) : Accountable (p.acquire lease now) c' where
  held := by
    intro x hx hq
    rcases (ledger.holds_acquire now ok.1 x).mp hq with hp | rfl
    · rw [hacquired] at hx
      rcases List.mem_cons.mp hx with rfl | hx
      · exact ⟨lease, hlease, rfl⟩
      · exact absurd hp (before x hx)
    · exact ⟨lease, hlease, rfl⟩
  owns := by
    intro l hl
    have same : l = lease := Option.some.inj (hl.symm.trans hlease)
    subst same
    refine ⟨⟨List.mem_cons_self, ?_⟩, hsnapshot⟩
    intro id l' hl' hx
    rcases (ledger.mem_acquire now ok.1 id l').mp hl' with old | ⟨hid, _⟩
    · exact absurd (hx ▸ (ledger.live _ ⟨id, l', old, rfl⟩).1) ok.1
    · exact hid

theorem Accountable.none (hlease : c.lease = none) (gone : ∀ x ∈ c.acquired, ¬ p.Holds x) :
    Accountable p c where
  held := fun x hx hp => absurd hp (gone x hx)
  owns := by
    intro l hl
    rw [hlease] at hl
    cases hl

theorem effectiveCap_le (caps : AccountConcurrencyCaps) (reserve : Int) (kind : LeaseKind)
    (positive : 0 < caps.limit kind) : effectiveCap caps reserve kind ≤ caps.limit kind := by
  cases kind with
  | responseCreate => exact le_refl _
  | stream =>
    have : 0 < caps.streamLimit := positive
    simp only [effectiveCap, AccountConcurrencyCaps.limit]
    omega

/-- The lease part of a concluded section. `under` is what the branch knows of the chosen
account: the sticky branch rechecks the cap, the other one filtered by it. -/
theorem concludeSelection_sound (recheckCap : Bool) (now monotonic : ℚ) {leaseId : String}
    (c : SelectCall) (result : SelectionResult) (ledger : Ledger p) (caps : CapsAgree cap c.args.caps)
    (known : ∀ x ∈ c.acquired, x ∈ p.issued) (hlease : c.lease = none)
    (gone : ∀ x ∈ c.acquired, ¬ p.Holds x) (fresh : leaseId ∉ p.issued)
    (under : recheckCap = false → ∀ chosen account state kind, result.account = some chosen →
      (account, state) ∈ c.built → state.accountId = chosen.accountId →
      c.args.leaseKind = some kind → 0 < c.args.caps.limit kind →
      runtimeInflight kind (p.get account.id) < c.args.caps.limit kind) :
    LeaseMoves (UnderCap cap) p (concludeSelection recheckCap now monotonic leaseId c result p).2 ∧
    ∀ rest stale, CallSound cap (concludeSelection recheckCap now monotonic leaseId c result p).2
      (concludeSelection recheckCap now monotonic leaseId c result p).1
      (.persisting rest stale) := by
  obtain ⟨hargs, q, same, outcome⟩ :=
    concludeSelection_cases recheckCap now monotonic leaseId c result p
  have framed : LeaseMoves (UnderCap cap) p q := .single (.frame same)
  have ledgerQ := ledger.frame same
  have goneQ : ∀ x ∈ c.acquired, ¬ q.Holds x := fun x hx hq => gone x hx ((same.holds x).mp hq)
  rcases outcome with ⟨lease', acquired', pool'⟩ | ⟨chosen, account, state, kind, hchosen, hmem, hid,
    hkind, allowed, lease', acquired', snapshot', pool'⟩
  · rw [pool']
    refine ⟨framed, fun rest stale => ⟨hargs ▸ caps, ?_, ?_⟩⟩
    · rw [acquired', same.issued]
      exact known
    · exact .none (lease'.trans hlease) (acquired' ▸ goneQ)
  · have freshQ : FreshLease q
        (newLease leaseId account.id kind c.args.estimatedLeaseTokens monotonic) :=
      ⟨same.issued ▸ fresh, le_max_left _ _⟩
    have free : 0 < c.args.caps.limit kind →
        runtimeInflight kind (q.get account.id) < c.args.caps.limit kind := by
      intro positive
      by_cases hrecheck : recheckCap = true
      · have allowed := allowed hrecheck
        have le := effectiveCap_le c.args.caps c.args.streamReserveSlots kind positive
        simp only [accountLeaseAllowed, Bool.or_eq_true, decide_eq_true_eq] at allowed
        omega
      · rw [(same.entries account.id).inflight]
        exact under (by simpa using hrecheck) chosen account state kind hchosen hmem hid hkind positive
    have underCap : UnderCap cap q
        (newLease leaseId account.id kind c.args.estimatedLeaseTokens monotonic) := by
      refine ⟨freshQ, fun positive => ?_⟩
      have agreed := caps kind positive
      have below := free (by rw [agreed]; exact positive)
      rw [agreed, (ledgerQ.balanced account.id).inflight] at below
      exact below
    rw [pool']
    refine ⟨framed.tail (.acquire _ now underCap), fun rest stale => ⟨hargs ▸ caps, ?_, ?_⟩⟩
    · rw [acquired']
      intro x hx
      rcases List.mem_cons.mp hx with rfl | hx
      · exact List.mem_cons_self
      · exact List.mem_cons_of_mem _ (same.issued ▸ known x hx)
    · exact .acquire ledgerQ now freshQ goneQ lease' acquired' snapshot'

end Conclude

section Sections

variable {cap : LeaseKind → Int} {p : Pool} {c : SelectCall}

/-- The account a filtered selection returns is below the cap in the runtime table. -/
theorem chosen_underCap {route : RouteConfig} {now : ℚ} {q : Pool}
    {built : List (Account × AccountState)} (from_ : ∀ entry ∈ built, BuiltFrom q entry)
    {out : Outcome} (sound : Sound route now (fun _ => now) ((built.map Prod.snd).filter (underCallCap c)) out)
    {chosen : AccountState} (hchosen : out.result.account = some chosen) {account : Account}
    {state : AccountState} (hmem : (account, state) ∈ replaceStates built
      (restore (underCallCap c) (built.map Prod.snd) out.states))
    (hid : state.accountId = chosen.accountId) {kind : LeaseKind}
    (hkind : c.args.leaseKind = some kind) (positive : 0 < c.args.caps.limit kind) :
    runtimeInflight kind (q.get account.id) < c.args.caps.limit kind := by
  obtain ⟨s, hs, selectable⟩ := sound.chosen chosen hchosen
  obtain ⟨hs, under⟩ := List.mem_filter.mp hs
  obtain ⟨entry, hentry, rfl⟩ := List.mem_map.mp hs
  have examined := restore_related (fun s => Examined.refl s) (underCallCap c) sound.examined
  obtain ⟨before, hbefore, haccount, hstate⟩ := mem_replaceStates examined hmem
  have sameId : account.id = entry.1.id := by
    calc account.id = before.1.id := congrArg Account.id haccount
      _ = before.2.accountId := (from_ before hbefore).id.symm
      _ = state.accountId := hstate.same.accountId.symm
      _ = chosen.accountId := hid
      _ = entry.2.accountId := selectable.same.accountId
      _ = entry.1.id := (from_ entry hentry).id
  rw [sameId, ← (from_ entry hentry).inflight kind]
  have le := effectiveCap_le c.args.caps c.args.streamReserveSlots kind positive
  simp only [underCallCap, underAccountCap, hkind, Bool.not_eq_true', Bool.and_eq_false_iff,
    decide_eq_false_iff_not] at under
  omega

theorem selectSection_sound (settings : Settings) (now monotonic : ℚ) {leaseId : String}
    (ledger : Ledger p) (caps : CapsAgree cap c.args.caps)
    (known : ∀ x ∈ c.acquired, x ∈ p.issued) (hlease : c.lease = none)
    (gone : ∀ x ∈ c.acquired, ¬ p.Holds x) (fresh : leaseId ∉ p.issued) :
    LeaseMoves (UnderCap cap) p (selectSection settings now monotonic leaseId c p).2 ∧
    ∀ rest stale, CallSound cap (selectSection settings now monotonic leaseId c p).2
      (selectSection settings now monotonic leaseId c p).1 (.persisting rest stale) := by
  have opened := openSection_moves settings now monotonic c.inputs ledger
  have from_ := openSection_from settings now monotonic c.inputs p
  have moved : LeaseMoves (UnderCap cap) p (openSection settings now monotonic c.inputs p).2 :=
    opened.weaken fun _ _ hok => hok.elim
  have ledgerQ := ledger.moves underCap_fresh moved
  have issued := opened.issued_eq
  have goneQ := fun x hx => not_holds_moves ledger moved (known x hx) (gone x hx)
  simp only [selectSection]
  generalize openSection settings now monotonic c.inputs p = opening at *
  obtain ⟨built, q⟩ := opening
  dsimp only at *
  split
  · have concluded := concludeSelection_sound false now monotonic
      { c with
        attempt := c.attempt + 1
        built := built
        errorCode := accountCapErrorCode c.args.leaseKind }
      (capExhausted { c with attempt := c.attempt + 1 }) ledgerQ caps (issued ▸ known) hlease goneQ
      (issued ▸ fresh) (fun _ chosen _ _ _ hchosen => by cases hchosen)
    exact ⟨moved.trans concluded.1, concluded.2⟩
  · have sound : Sound c.args.route now (fun _ => now) ((built.map Prod.snd).filter (underCallCap c))
        (selectAccountPreferringBudgetSafe c.args.route .routed false now
          ((built.map Prod.snd).filter (underCallCap c))) :=
      .preferringBudgetSafe .routed false (le_refl now) (fun _ => le_refl now)
    have concluded := concludeSelection_sound false now monotonic
      { c with
        attempt := c.attempt + 1
        built := replaceStates built (restore (underCallCap c) (built.map Prod.snd)
          (selectAccountPreferringBudgetSafe c.args.route .routed false now
            ((built.map Prod.snd).filter (underCallCap c))).states)
        errorCode := none }
      (selectAccountPreferringBudgetSafe c.args.route .routed false now
        ((built.map Prod.snd).filter (underCallCap c))).result ledgerQ caps (issued ▸ known) hlease
      goneQ (issued ▸ fresh)
      (fun _ chosen account state kind hchosen hmem hid hkind positive =>
        chosen_underCap from_ sound hchosen hmem hid hkind positive)
    exact ⟨moved.trans concluded.1, concluded.2⟩

theorem chooseSticky_keeps {sticky : StickyRequest} {existing : Option String} {earlier now : ℚ}
    {c' : SelectCall} {result : SelectionResult}
    (h : chooseSticky sticky existing earlier now c = some (c', result)) :
    c'.args = c.args ∧ c'.lease = c.lease ∧ c'.acquired = c.acquired := by
  simp only [chooseSticky] at h
  split at h
  · cases h
    exact ⟨rfl, rfl, rfl⟩
  · obtain ⟨out, _, heq⟩ := Option.map_eq_some_iff.mp h
    cases heq
    exact ⟨rfl, rfl, rfl⟩

end Sections

end Balancer
