import Mathlib.Data.List.Count
import LivingBalancer.Bridge.Connect

/-!
# The leases of a connecting call

A call keeps its books straight while every exception passes a handler that gives the lease
back. `Escapes` names the awaits whose exceptions pass none: the forced refresh after a 401,
the calls that penalize an account, the releases themselves, and for a reconnect also a
cancelled attempt and the last awaits before the session takes the lease.
-/

namespace BridgeConnect

open Runs

variable {Id : Type} [DecidableEq Id]

/-! ## Books -/

/-- Every lease that was obtained is released once; `original` is the lease of the session. -/
structure Books.Settled (original : Option (Lease Id)) (b : Books Id) : Prop where
  once : ∀ l ∈ b.obtained, b.released.count l = 1
  known : ∀ l ∈ b.released, l ∈ b.obtained ∨ original = some l
  numbered : ∀ l ∈ b.obtained, 1 ≤ l.number ∧ l.number ≤ b.obtained.length

/-- The last lease that was obtained is the only one that is not released. -/
def Books.Holds (original : Option (Lease Id)) (b : Books Id) (lease : Lease Id) : Prop :=
  ∃ before : Books Id, before.Settled original ∧ lease = before.next lease.accountId ∧
    b = before.obtain lease

namespace Books

variable {original : Option (Lease Id)} {b : Books Id} {lease : Lease Id}

omit [DecidableEq Id] in
theorem settled_empty [DecidableEq Id] : Settled original ({} : Books Id) where
  once := List.forall_mem_nil _
  known := List.forall_mem_nil _
  numbered := List.forall_mem_nil _

theorem Settled.next_fresh (settled : b.Settled original)
    (outside : ∀ o, original = some o → o.number = 0) (account : Id) :
    b.next account ∉ b.obtained ∧ b.next account ∉ b.released := by
  have fresh : b.next account ∉ b.obtained := by
    intro mem
    have bound := (settled.numbered _ mem).2
    simp only [next] at bound
    omega
  refine ⟨fresh, fun mem => ?_⟩
  rcases settled.known _ mem with obtained | own
  · exact fresh obtained
  · have zero := outside _ own
    simp only [next] at zero
    omega

theorem Settled.holds (settled : b.Settled original) (account : Id) :
    (b.obtain (b.next account)).Holds original (b.next account) :=
  ⟨b, settled, rfl, rfl⟩

theorem Holds.mem (holds : b.Holds original lease) : lease ∈ b.obtained := by
  obtain ⟨before, _, _, rfl⟩ := holds
  exact List.mem_cons_self

theorem Holds.unreleased (holds : b.Holds original lease)
    (outside : ∀ o, original = some o → o.number = 0) : lease ∉ b.released := by
  obtain ⟨before, settled, fresh, rfl⟩ := holds
  rw [fresh]
  exact (settled.next_fresh outside lease.accountId).2

theorem Holds.release (holds : b.Holds original lease)
    (outside : ∀ o, original = some o → o.number = 0) : (b.release lease).Settled original := by
  obtain ⟨before, settled, fresh, rfl⟩ := holds
  have ⟨new, unreleased⟩ := settled.next_fresh outside lease.accountId
  rw [← fresh] at new unreleased
  refine ⟨?_, ?_, ?_⟩
  · intro l mem
    rcases List.mem_cons.mp mem with rfl | earlier
    · rw [Books.release, List.count_cons_self]
      exact congrArg Nat.succ (List.count_eq_zero.mpr unreleased)
    · have other : lease ≠ l := by
        rintro rfl
        exact new earlier
      rw [Books.release, List.count_cons_of_ne other]
      exact settled.once l earlier
  · intro l mem
    rcases List.mem_cons.mp mem with rfl | earlier
    · exact .inl List.mem_cons_self
    · exact (settled.known l earlier).imp_left (List.mem_cons_of_mem _)
  · intro l mem
    rcases List.mem_cons.mp mem with rfl | earlier
    · rw [fresh]
      exact ⟨Nat.succ_pos _, Nat.le_refl _⟩
    · obtain ⟨positive, bound⟩ := settled.numbered l earlier
      exact ⟨positive, Nat.le_succ_of_le bound⟩

theorem Settled.original_not_obtained (settled : b.Settled original) {o : Lease Id}
    (outside : o.number = 0) : o ∉ b.obtained := by
  intro mem
  have positive := (settled.numbered o mem).1
  omega

/-- The lease of the session is no lease of the call. -/
theorem Settled.releaseOriginal (settled : b.Settled (some lease)) (outside : lease.number = 0) :
    (b.release lease).Settled (some lease) := by
  have apart : ∀ l ∈ b.obtained, lease ≠ l := by
    rintro l mem rfl
    exact settled.original_not_obtained outside mem
  refine ⟨?_, ?_, settled.numbered⟩
  · intro l mem
    rw [Books.release, List.count_cons_of_ne (apart l mem)]
    exact settled.once l mem
  · intro l mem
    rcases List.mem_cons.mp mem with rfl | earlier
    · exact .inr rfl
    · exact settled.known l earlier

theorem Holds.releaseOriginal (holds : b.Holds original lease) {o : Lease Id}
    (own : original = some o) (outside : o.number = 0) : (b.release o).Holds original lease := by
  obtain ⟨before, settled, fresh, rfl⟩ := holds
  rw [own] at settled ⊢
  exact ⟨before.release o, settled.releaseOriginal outside, fresh, rfl⟩

/-- A lease that is held was obtained, or was the session's, and is not released. -/
def Held (original : Option (Lease Id)) (b : Books Id) (l : Lease Id) : Prop :=
  (l ∈ b.obtained ∨ original = some l) ∧ l ∉ b.released

/-- Every lease that the call obtained has been released exactly once. -/
def ReleasedOnce (b : Books Id) : Prop := ∀ l ∈ b.obtained, b.released.count l = 1

theorem Holds.not_releasedOnce (holds : b.Holds original lease)
    (outside : ∀ o, original = some o → o.number = 0) : ¬ b.ReleasedOnce := by
  intro once
  have one := once lease holds.mem
  rw [List.count_eq_zero.mpr (holds.unreleased outside)] at one
  cases one

/-- Where the session has no other lease, the one of the call is the only one held. -/
theorem Holds.held_iff (holds : b.Holds original lease)
    (outside : ∀ o, original = some o → o.number = 0)
    (given : ∀ o, original = some o → o ∈ b.released) (l : Lease Id) :
    b.Held original l ↔ l = lease := by
  constructor
  · rintro ⟨obtained | own, unreleased⟩
    · obtain ⟨before, settled, _, rfl⟩ := holds
      rcases List.mem_cons.mp obtained with rfl | earlier
      · rfl
      · have once := settled.once l earlier
        exact absurd (List.count_eq_zero.mpr unreleased) (by rw [obtain, once]; decide)
    · exact absurd (given l own) unreleased
  · rintro rfl
    exact ⟨.inl holds.mem, holds.unreleased outside⟩

end Books

/-! ## `_create_http_bridge_session` -/

namespace CreateState

variable {args : CreateArgs Id} {s t : CreateState Id} {e : Event Id}

/-- The exception of the await passes no handler that releases the selected lease. -/
def Escapes (s : CreateState Id) (e : Event Id) : Prop :=
  match s.pc, e with
  | .forcing _ _, .forced (some .transport) => True
  | .forcing _ _, .forced (some .other) => True
  | .penalizing _ _ _ _, .penalized (some _) _ => True
  | .releasing _ _, .released true => True
  | _, _ => False

/-- How a call is to end: the session holds the one lease that is held, for its own account; or
every lease has been given back once. -/
def Exact (s : CreateState Id) : Prop :=
  match s.pc with
  | .returned account lease =>
    lease.accountId = account ∧ ∀ l, s.books.Held none l ↔ l = lease
  | .raised _ => s.books.ReleasedOnce
  | _ => True

def Ended (s : CreateState Id) : Prop :=
  match s.pc with
  | .returned _ _ => True
  | .raised _ => True
  | _ => False

/-- The selected lease is for the account that the call connects. -/
def Holding (s : CreateState Id) (account : Id) (lease : Lease Id) : Prop :=
  s.books.Holds none lease ∧ lease.accountId = account

def Sound (s : CreateState Id) : Prop :=
  match s.pc with
  | .starting => s.books.Settled none
  | .selecting => s.books.Settled none
  | .connecting account lease => s.Holding account lease
  | .forcing account lease => s.Holding account lease
  | .penalizing account lease _ _ => s.Holding account lease
  | .releasing lease _ => s.books.Holds none lease
  | .returned account lease => s.Holding account lease
  | .raised _ => s.books.Settled none

omit [DecidableEq Id] in
theorem outside_none (o : Lease Id) (h : none = some o) : o.number = 0 := by
  cases h

theorem Sound.exact (sound : s.Sound) : s.Exact := by
  simp only [Sound, Exact] at *
  split
  · rename_i account lease hpc
    rw [hpc] at sound
    refine ⟨sound.2, sound.1.held_iff outside_none ?_⟩
    intro o own
    cases own
  · rename_i hpc
    rw [hpc] at sound
    exact sound.once
  · trivial

/-- Every handler goes on to release the lease that the call holds. -/
theorem Sound.releases {lease : Lease Id} {raises : Option Failure}
    (next : t.pc = .releasing lease raises) (books : t.books.Holds none lease) : t.Sound := by
  simp only [Sound, next]
  exact books

theorem retryPreferred_sound {account : Id} {lease : Lease Id} {sameAgain : Bool}
    (holds : s.books.Holds none lease) : (s.retryPreferred args account lease sameAgain).Sound := by
  simp only [retryPreferred]
  split
  · exact Sound.releases rfl holds
  · split
    · exact Sound.releases rfl holds
    · exact Sound.releases rfl holds

theorem onRefreshError_sound {account : Id} {lease : Lease Id} {permanent budgetLeft : Bool}
    (holds : s.books.Holds none lease) :
    (s.onRefreshError args account lease permanent budgetLeft).Sound := by
  simp only [onRefreshError]
  split
  · exact retryPreferred_sound holds
  · split
    · exact Sound.releases rfl holds
    · exact Sound.releases rfl holds

theorem onTransport_sound {account : Id} {lease : Lease Id} {budgetLeft : Bool}
    (holds : s.books.Holds none lease) :
    (s.onTransport args account lease budgetLeft).Sound := by
  simp only [onTransport]
  split
  · exact retryPreferred_sound holds
  · exact Sound.releases rfl holds

theorem onForcedFailure_sound {account : Id} {lease : Lease Id} {cause : Failure}
    (holds : s.books.Holds none lease) :
    (s.onForcedFailure args account lease cause).Sound := by
  simp only [onForcedFailure]
  split
  · exact Sound.releases rfl holds
  · exact Sound.releases rfl holds

theorem onSelected_sound {answer : Selecting Id} (settled : s.books.Settled none) :
    (s.onSelected args answer).Sound := by
  simp only [onSelected]
  split
  · exact settled
  · exact settled
  · rename_i account _
    split
    · exact Sound.releases rfl (settled.holds account)
    · exact ⟨settled.holds account, rfl⟩

theorem onConnected_sound {account : Id} {lease : Lease Id} {budgetLeft : Bool}
    (holding : s.Holding account lease) (failure : Option Failure) :
    (s.onConnected args account lease budgetLeft failure).Sound := by
  match failure with
  | none => exact holding
  | some (.proxyError status) =>
    simp only [onConnected]
    split
    · exact Sound.releases rfl holding.1
    · exact holding
  | some (.refreshError true) => exact holding
  | some (.refreshError false) => exact onRefreshError_sound holding.1
  | some .transport => exact onTransport_sound holding.1
  | some .other => exact Sound.releases rfl holding.1

/-- A step that escapes no handler keeps the books straight. -/
theorem Sound.step (sound : s.Sound) (hstep : step args s e = some t) (caught : ¬ s.Escapes e) :
    t.Sound := by
  simp only [CreateState.step] at hstep
  split at hstep
  all_goals rename_i hpc
  all_goals simp only [Sound, hpc] at sound
  all_goals simp only [Escapes, hpc, not_true_eq_false, not_false_eq_true] at caught
  all_goals cases hstep
  · exact sound
  · exact sound
  · exact onSelected_sound sound
  · exact onConnected_sound sound _
  · rename_i account lease failure
    match failure with
    | none => exact sound
    | some (.proxyError status) =>
      simp only [onForced]
      split
      · exact Sound.releases rfl sound.1
      · exact sound
    | some (.refreshError true) => exact sound
    | some (.refreshError false) => exact onForcedFailure_sound sound.1
    | some .transport => exact absurd trivial caught
    | some .other => exact absurd trivial caught
  · exact onRefreshError_sound sound.1
  · exact onForcedFailure_sound sound.1
  · rename_i lease raises
    have settled := sound.release outside_none
    cases raises with
    | none => exact settled
    | some failure => exact settled

/-- A step that escapes leaves a lease behind. -/
theorem Escapes.leaks (sound : s.Sound) (hstep : CreateState.step args s e = some t)
    (escapes : s.Escapes e) : (∀ e', CreateState.step args t e' = none) ∧ ¬ t.Exact := by
  have raised {u : CreateState Id} {failure : Failure} {lease : Lease Id}
      (hpc : u.pc = .raised failure) (holds : u.books.Holds none lease) :
      (∀ e', CreateState.step args u e' = none) ∧ ¬ u.Exact := by
    refine ⟨fun e' => ?_, fun exact => ?_⟩
    · simp only [CreateState.step, hpc]
    · simp only [Exact, hpc] at exact
      exact holds.not_releasedOnce outside_none exact
  simp only [CreateState.step] at hstep
  split at hstep
  all_goals rename_i hpc
  all_goals simp only [Sound, hpc] at sound
  all_goals simp only [Escapes, hpc] at escapes
  all_goals cases hstep
  · rename_i account lease failure
    match failure with
    | none => exact False.elim escapes
    | some (.proxyError _) => exact False.elim escapes
    | some (.refreshError true) => exact False.elim escapes
    | some (.refreshError false) => exact False.elim escapes
    | some .transport => exact raised rfl sound.1
    | some .other => exact raised rfl sound.1
  · exact raised rfl sound.1
  · exact raised rfl sound

/-- A call of `_create_http_bridge_session` that has ended. -/
theorem exact_iff {trace : List (Event Id)} (run : replay (CreateState.step args)
    (initial args) trace = some t) (ended : t.Ended) :
    t.Exact ↔ ∀ before e later s, trace = before ++ e :: later →
      replay (CreateState.step args) (initial args) before = some s → ¬ s.Escapes e :=
  replay_good_iff (fun _ _ _ sound hstep caught => sound.step hstep caught)
    (fun _ _ _ sound hstep escapes => Escapes.leaks sound hstep escapes)
    (fun _ sound _ => sound.exact) trace Books.settled_empty run ended

end CreateState

/-! ## `_reconnect_http_bridge_session` -/

theorem selectAccountWithBudget_bound {preferred account : Id} {excluded : List Id}
    {answer : Selecting Id}
    (h : selectAccountWithBudget (some preferred) false excluded answer = .ok (some account)) :
    account = preferred := by
  simp only [selectAccountWithBudget] at h
  split at h
  · cases h
  · split at h
    · cases h
      rfl
    · cases h

/-- The session's lease is of its own account, and no lease that the call will obtain. -/
def ReconnectArgs.WellFormed (args : ReconnectArgs Id) : Prop :=
  ∀ o, args.accountLease = some o → o.number = 0 ∧ o.accountId = args.accountId

omit [DecidableEq Id] in
theorem ReconnectArgs.WellFormed.outside {args : ReconnectArgs Id} (formed : args.WellFormed) :
    ∀ o, args.accountLease = some o → o.number = 0 :=
  fun o own => (formed o own).1

namespace ReconnectState

variable {args : ReconnectArgs Id} {s t : ReconnectState Id} {e : Event Id}

/-- The lease is one that the call has obtained, not the session's. -/
def Obtained (s : ReconnectState Id) (lease : Option (Lease Id)) : Prop :=
  ∃ l, lease = some l ∧ l ∈ s.books.obtained

/-- The exception of the await leaves the call while it holds a lease that it has obtained. -/
def Escapes (s : ReconnectState Id) (e : Event Id) : Prop :=
  match s.pc, e with
  | .connecting _ lease, .connected (some .other) _ => s.Obtained lease
  | .forcing _ lease, .forced (some .transport) => s.Obtained lease
  | .forcing _ lease, .forced (some .other) => s.Obtained lease
  | .penalizing _ lease _ _, .penalized (some _) _ => s.Obtained lease
  | .releasing lease _, .released true => s.Obtained (some lease)
  | .closing _ lease, .closed true => s.Obtained lease
  | .swapping _ lease _, .released true => s.Obtained lease
  | _, _ => False

/-- How a call is to end: the session has the one lease that is held, for its account; or every
lease of the call has been given back once, and the session has none or one that is held. -/
def Exact (args : ReconnectArgs Id) (s : ReconnectState Id) : Prop :=
  match s.pc with
  | .returned => ∃ lease, s.accountLease = some lease ∧ lease.accountId = s.accountId ∧
      ∀ l, s.books.Held args.accountLease l ↔ l = lease
  | .raised _ => s.books.ReleasedOnce ∧
      ∀ l, s.accountLease = some l → s.books.Held args.accountLease l
  | _ => True

def Ended (s : ReconnectState Id) : Prop :=
  match s.pc with
  | .returned => True
  | .raised _ => True
  | _ => False

/-- The session still has its lease, or has given it back. -/
def Owned (args : ReconnectArgs Id) (s : ReconnectState Id) : Prop :=
  (s.accountLease = args.accountLease ∧ ∀ o, args.accountLease = some o → o ∉ s.books.released) ∨
    (s.accountLease = none ∧ ∀ o, args.accountLease = some o → o ∈ s.books.released)

/-- The selected lease: the session's own, for its account, or one of the call. -/
inductive Holding (args : ReconnectArgs Id) (s : ReconnectState Id) (account : Id) :
    Option (Lease Id) → Prop where
  | reused (o : Lease Id) (session : s.accountLease = some o)
      (original : args.accountLease = some o) (own : o.accountId = account)
      (settled : s.books.Settled args.accountLease) (held : o ∉ s.books.released) :
      Holding args s account (some o)
  | obtained (l : Lease Id) (own : l.accountId = account)
      (holds : s.books.Holds args.accountLease l) (owned : s.Owned args) :
      Holding args s account (some l)

/-- The lease that is being released is one of the call, or the session's, which has let it go. -/
inductive Releasing (args : ReconnectArgs Id) (s : ReconnectState Id) (lease : Lease Id) :
    Prop where
  | original (session : s.accountLease = none) (original : args.accountLease = some lease)
      (settled : s.books.Settled args.accountLease)
  | obtained (holds : s.books.Holds args.accountLease lease) (owned : s.Owned args)

/-- The call holds nothing of its own. -/
structure Idle (args : ReconnectArgs Id) (s : ReconnectState Id) : Prop where
  account : s.accountId = args.accountId
  settled : s.books.Settled args.accountLease
  owned : s.Owned args

def Sound (args : ReconnectArgs Id) (s : ReconnectState Id) : Prop :=
  match s.pc with
  | .starting => s.Idle args
  | .selecting => s.Idle args
  | .recovering _ => s.Idle args
  | .connecting account lease => s.accountId = args.accountId ∧ s.Holding args account lease
  | .forcing account lease => s.accountId = args.accountId ∧ s.Holding args account lease
  | .penalizing account lease _ _ => s.accountId = args.accountId ∧ s.Holding args account lease
  | .closing account lease => s.accountId = args.accountId ∧ s.Holding args account lease
  | .releasing lease _ => s.accountId = args.accountId ∧ s.Releasing args lease
  | .swapping account lease old => s.accountLease = some old ∧ args.accountLease = some old ∧
      old ∉ s.books.released ∧ ∃ l, lease = some l ∧ l.accountId = account ∧
        s.books.Holds args.accountLease l
  | .returned => s.Exact args
  | .raised _ => s.Exact args

theorem Sound.exact (sound : s.Sound args) : s.Exact args := by
  simp only [Sound, Exact] at *
  split
  · rename_i hpc
    simpa only [hpc] using sound
  · rename_i hpc
    simpa only [hpc] using sound
  · trivial

omit [DecidableEq Id] in
theorem Owned.held (owned : s.Owned args) {l : Lease Id} (session : s.accountLease = some l) :
    s.books.Held args.accountLease l := by
  rcases owned with ⟨same, unreleased⟩ | ⟨gone, _⟩
  · rw [same] at session
    exact ⟨.inr session, unreleased l session⟩
  · rw [gone] at session
    cases session

theorem Idle.raise (idle : s.Idle args) (failure : Failure) : (s.raise failure).Sound args :=
  ⟨idle.settled.once, fun _ session => idle.owned.held session⟩

theorem holds_not_original (formed : args.WellFormed) {l : Lease Id} {b : Books Id}
    (holds : b.Holds args.accountLease l) : args.accountLease ≠ some l := by
  intro original
  have zero := formed.outside l original
  obtain ⟨before, _, fresh, _⟩ := holds
  rw [fresh] at zero
  simp only [Books.next] at zero
  omega

/-- Releasing a lease of the call changes nothing for the session's. -/
theorem Owned.released (owned : s.Owned args) (formed : args.WellFormed) {l : Lease Id}
    (holds : s.books.Holds args.accountLease l) (pc : ReconnectPc Id) :
    Owned args { s with books := s.books.release l, pc := pc } := by
  rcases owned with ⟨same, unreleased⟩ | ⟨gone, given⟩
  · refine .inl ⟨same, fun o own mem => ?_⟩
    rcases List.mem_cons.mp mem with rfl | earlier
    · exact holds_not_original formed holds own
    · exact unreleased o own earlier
  · exact .inr ⟨gone, fun o own => List.mem_cons_of_mem l (given o own)⟩

/-- Every handler goes on to release what the call holds. -/
theorem releaseSelected_sound {account : Id} {lease : Option (Lease Id)} (formed : args.WellFormed)
    (same : s.accountId = args.accountId) (holding : s.Holding args account lease)
    (raises : Option Failure) : (s.releaseSelected lease raises).Sound args := by
  cases holding with
  | reused o session original own settled held =>
    exact ⟨same, .original (if_pos session) original settled⟩
  | obtained l own holds owned =>
    have other : s.accountLease ≠ some l := by
      rcases owned with ⟨still, _⟩ | ⟨gone, _⟩
      · rw [still]
        exact holds_not_original formed holds
      · rw [gone]
        exact nofun
    have kept : (if s.accountLease = some l then none else s.accountLease) = s.accountLease :=
      if_neg other
    refine ⟨same, .obtained holds ?_⟩
    simp only [Owned, releaseSelected, kept]
    exact owned

theorem Releasing.done {lease : Lease Id} (formed : args.WellFormed)
    (same : s.accountId = args.accountId) (releasing : s.Releasing args lease)
    (pc : ReconnectPc Id) :
    Idle args { s with books := s.books.release lease, pc := pc } := by
  cases releasing with
  | original session original settled =>
    refine ⟨same, ?_, .inr ⟨session, ?_⟩⟩
    · rw [original] at settled ⊢
      exact settled.releaseOriginal (formed.outside lease original)
    · intro o own
      rw [original] at own
      cases own
      exact List.mem_cons_self
  | obtained holds owned =>
    exact ⟨same, holds.release formed.outside, owned.released formed holds pc⟩

theorem choosePreferred_sound (idle : s.Idle args) : (s.choosePreferred args).Sound args := by
  simp only [choosePreferred]
  split
  · exact idle.raise _
  · split
    · exact idle.raise _
    · exact ⟨idle.account, idle.settled, idle.owned⟩

theorem onAccount_sound {account : Id} (formed : args.WellFormed) (idle : s.Idle args)
    (bound : s.reusesLease = true → account = s.accountId) :
    (s.onAccount args account).Sound args := by
  simp only [onAccount]
  cases reuse : s.reusesLease with
  | true =>
    have mine := bound reuse
    simp only [reusesLease, Bool.and_eq_true, beq_iff_eq] at reuse
    obtain ⟨o, session⟩ := Option.isSome_iff_exists.mp reuse.2
    have held := idle.owned.held session
    have original : args.accountLease = some o := by
      rcases idle.owned with ⟨still, _⟩ | ⟨gone, _⟩
      · rw [← still, session]
      · rw [gone] at session
        cases session
    split
    · exact idle.raise _
    · simp only [mine, beq_self_eq_true, Bool.and_self, if_true, session]
      refine ⟨idle.account, .reused o rfl original ?_ idle.settled held.2⟩
      rw [(formed o original).2, idle.account]
  | false =>
    have holds := idle.settled.holds account
    split
    · exact releaseSelected_sound (s := { s with books := s.books.obtain (s.books.next account) })
        formed idle.account (.obtained _ rfl holds idle.owned) _
    · exact ⟨idle.account, .obtained _ rfl holds idle.owned⟩

theorem onSelected_sound {answer : Selecting Id} (formed : args.WellFormed) (idle : s.Idle args) :
    (s.onSelected args answer).Sound args := by
  simp only [onSelected]
  split
  · exact idle.raise _
  · simp only [onNoAccount]
    split
    · exact ⟨idle.account, idle.settled, idle.owned⟩
    · exact ⟨idle.account, idle.settled, idle.owned⟩
  · rename_i account selected
    refine onAccount_sound formed idle fun reuse => ?_
    have preferred : s.preferredCandidate = some s.accountId := by
      simp only [reusesLease, Bool.and_eq_true, beq_iff_eq] at reuse
      exact reuse.1
    rw [selection, preferred, reuse] at selected
    exact selectAccountWithBudget_bound selected

theorem onRecovered_sound {localCap : Bool} {result : Except Failure Bool} {excluded : List Id}
    (idle : s.Idle args) : (s.onRecovered args localCap result excluded).Sound args := by
  match result with
  | .error failure => exact idle.raise _
  | .ok false => exact idle.raise _
  | .ok true => exact choosePreferred_sound ⟨idle.account, idle.settled, idle.owned⟩

theorem Holding.congr {account : Id} {lease : Option (Lease Id)}
    (holding : s.Holding args account lease) (session : t.accountLease = s.accountLease)
    (books : t.books = s.books) : t.Holding args account lease := by
  cases holding with
  | reused o has original own settled held =>
    exact .reused o (session.trans has) original own (books ▸ settled) (books ▸ held)
  | obtained l own holds owned =>
    refine .obtained l own (books ▸ holds) ?_
    rw [Owned, session, books]
    exact owned

theorem abandon_sound {account : Id} {lease : Option (Lease Id)} {cause : Failure}
    (formed : args.WellFormed) (same : s.accountId = args.accountId)
    (holding : s.Holding args account lease) :
    (s.abandon args account lease cause).Sound args := by
  simp only [abandon]
  split
  · exact releaseSelected_sound formed same holding _
  · exact releaseSelected_sound
      (s := { s with excluded := account :: s.excluded, preferredCandidate := none })
      formed same (holding.congr rfl rfl) _

theorem onAccountFailure_sound {account : Id} {lease : Option (Lease Id)} {cause : Failure}
    {sameAgain budgetLeft : Bool} (formed : args.WellFormed)
    (same : s.accountId = args.accountId) (holding : s.Holding args account lease) :
    (s.onAccountFailure args account lease cause sameAgain budgetLeft).Sound args := by
  simp only [onAccountFailure]
  split
  · split
    · exact releaseSelected_sound (s := { s with retrySameAccountOnce := false })
        formed same (holding.congr rfl rfl) _
    · exact abandon_sound formed same holding
  · exact releaseSelected_sound formed same holding _

/-- An exception that leaves the call while it holds the session's own lease, if any. -/
theorem Holding.raised {account : Id} {lease : Option (Lease Id)}
    (holding : s.Holding args account lease) (caught : ¬ s.Obtained lease) (failure : Failure) :
    (s.raise failure).Sound args := by
  cases holding with
  | reused o session original _ settled held =>
    refine ⟨settled.once, fun l mine => ?_⟩
    cases session.symm.trans mine
    exact ⟨.inr original, held⟩
  | obtained l _ holds _ => exact absurd ⟨l, rfl, holds.mem⟩ caught

theorem adopt_exact {account : Id} {l : Lease Id} (formed : args.WellFormed)
    (own : l.accountId = account) (holds : s.books.Holds args.accountLease l)
    (given : ∀ o, args.accountLease = some o → o ∈ s.books.released) :
    (s.adopt account (some l)).Exact args :=
  ⟨l, rfl, own, holds.held_iff formed.outside given⟩

theorem onClosed_sound {account : Id} {lease : Option (Lease Id)} (formed : args.WellFormed)
    (holding : s.Holding args account lease) : (s.onClosed account lease).Sound args := by
  cases holding with
  | reused o session original own settled held =>
    rw [onClosed, if_pos session.symm]
    refine ⟨o, rfl, own, fun l => ⟨?_, ?_⟩⟩
    · rintro ⟨obtained | mine, unreleased⟩
      · have once := settled.once l obtained
        exact absurd (List.count_eq_zero.mpr unreleased) (by rw [adopt, once]; decide)
      · rw [original] at mine
        exact (Option.some.inj mine).symm
    · rintro rfl
      exact ⟨.inr original, held⟩
  | obtained l own holds owned =>
    have other := holds_not_original formed holds
    rcases owned with ⟨still, unreleased⟩ | ⟨gone, given⟩
    · rw [onClosed, if_neg fun same => other (same.trans still).symm]
      cases original : args.accountLease with
      | none =>
        rw [original] at still
        simp only [still]
        refine adopt_exact formed own holds fun o mine => ?_
        rw [original] at mine
        cases mine
      | some old =>
        rw [original] at still
        simp only [still]
        exact ⟨rfl, original, unreleased old original, l, rfl, own, holds⟩
    · rw [onClosed, gone, if_neg (Option.some_ne_none l)]
      exact adopt_exact formed own holds given

theorem onConnected_sound {account : Id} {lease : Option (Lease Id)} {budgetLeft : Bool}
    {failure : Option Failure} (formed : args.WellFormed) (same : s.accountId = args.accountId)
    (holding : s.Holding args account lease) (caught : failure = some .other → ¬ s.Obtained lease) :
    (s.onConnected args account lease budgetLeft failure).Sound args := by
  match failure with
  | none => exact ⟨same, holding.congr rfl rfl⟩
  | some (.proxyError status) =>
    simp only [onConnected]
    split
    · exact releaseSelected_sound formed same holding _
    · exact ⟨same, holding.congr rfl rfl⟩
  | some (.refreshError true) => exact ⟨same, holding.congr rfl rfl⟩
  | some (.refreshError false) => exact onAccountFailure_sound formed same holding
  | some .transport => exact onAccountFailure_sound formed same holding
  | some .other => exact holding.raised (caught rfl) _

theorem onForced_sound {account : Id} {lease : Option (Lease Id)} {failure : Option Failure}
    (formed : args.WellFormed) (same : s.accountId = args.accountId)
    (holding : s.Holding args account lease)
    (caught : failure = some .transport ∨ failure = some .other → ¬ s.Obtained lease) :
    (s.onForced args account lease failure).Sound args := by
  match failure with
  | none => exact ⟨same, holding.congr rfl rfl⟩
  | some (.proxyError status) =>
    simp only [onForced]
    split
    · exact releaseSelected_sound formed same holding _
    · exact ⟨same, holding.congr rfl rfl⟩
  | some (.refreshError true) => exact ⟨same, holding.congr rfl rfl⟩
  | some (.refreshError false) => exact abandon_sound formed same holding
  | some .transport => exact holding.raised (caught (.inl rfl)) _
  | some .other => exact holding.raised (caught (.inr rfl)) _

/-- A step that escapes no handler keeps the books straight. -/
theorem Sound.step (formed : args.WellFormed) (sound : s.Sound args)
    (hstep : ReconnectState.step args s e = some t) (caught : ¬ s.Escapes e) : t.Sound args := by
  simp only [ReconnectState.step] at hstep
  split at hstep
  all_goals rename_i hpc
  all_goals simp only [Sound, hpc] at sound
  all_goals simp only [Escapes, hpc] at caught
  all_goals cases hstep
  · exact choosePreferred_sound sound
  · exact sound.raise _
  · exact onSelected_sound formed sound
  · exact onRecovered_sound sound
  · refine onConnected_sound formed sound.1 sound.2 ?_
    rintro rfl
    exact caught
  · refine onForced_sound formed sound.1 sound.2 ?_
    rintro (rfl | rfl)
    · exact caught
    · exact caught
  · exact sound.2.raised caught _
  · exact onAccountFailure_sound formed sound.1 sound.2
  · exact abandon_sound formed sound.1 sound.2
  · obtain ⟨_, ⟨session, _, settled⟩ | ⟨holds, _⟩⟩ := sound
    · refine ⟨settled.once, fun l mine => ?_⟩
      cases session.symm.trans mine
    · exact absurd ⟨_, rfl, holds.mem⟩ caught
  · rename_i lease raises
    have idle := sound.2.done formed sound.1 (raises.elim .selecting .raised)
    cases raises with
    | none => exact idle
    | some failure => exact idle.raise failure
  · exact sound.2.raised caught _
  · exact onClosed_sound formed sound.2
  · obtain ⟨_, _, _, l, rfl, _, holds⟩ := sound
    exact absurd ⟨l, rfl, holds.mem⟩ caught
  · obtain ⟨_, original, _, l, rfl, own, holds⟩ := sound
    refine ⟨l, rfl, own, ?_⟩
    refine (holds.releaseOriginal original (formed.outside _ original)).held_iff formed.outside ?_
    intro o mine
    cases original.symm.trans mine
    exact List.mem_cons_self

/-- A step that escapes leaves a lease behind. -/
theorem Escapes.leaks (formed : args.WellFormed) (sound : s.Sound args)
    (hstep : ReconnectState.step args s e = some t) (escapes : s.Escapes e) :
    (∀ e', ReconnectState.step args t e' = none) ∧ ¬ t.Exact args := by
  have raised {failure : Failure} {lease : Lease Id}
      (holds : s.books.Holds args.accountLease lease) :
      (∀ e', ReconnectState.step args (s.raise failure) e' = none) ∧
        ¬ (s.raise failure).Exact args :=
    ⟨fun _ => rfl, fun exact => holds.not_releasedOnce formed.outside exact.1⟩
  have holding {account : Id} {lease : Option (Lease Id)} {failure : Failure}
      (held : s.Holding args account lease) (obtained : s.Obtained lease) :
      (∀ e', ReconnectState.step args (s.raise failure) e' = none) ∧
        ¬ (s.raise failure).Exact args := by
    cases held with
    | reused o _ original _ settled _ =>
      obtain ⟨l, same, mem⟩ := obtained
      cases same
      exact absurd mem (settled.original_not_obtained (formed.outside o original))
    | obtained l _ holds _ => exact raised holds
  simp only [ReconnectState.step] at hstep
  split at hstep
  all_goals rename_i hpc
  all_goals simp only [Sound, hpc] at sound
  all_goals simp only [Escapes, hpc] at escapes
  all_goals cases hstep
  · rename_i account lease failure budgetLeft
    match failure with
    | none => exact False.elim escapes
    | some (.proxyError _) => exact False.elim escapes
    | some (.refreshError _) => exact False.elim escapes
    | some .transport => exact False.elim escapes
    | some .other => exact holding sound.2 escapes
  · rename_i account lease failure
    match failure with
    | none => exact False.elim escapes
    | some (.proxyError _) => exact False.elim escapes
    | some (.refreshError _) => exact False.elim escapes
    | some .transport => exact holding sound.2 escapes
    | some .other => exact holding sound.2 escapes
  · exact holding sound.2 escapes
  · obtain ⟨_, ⟨_, original, settled⟩ | ⟨holds, _⟩⟩ := sound
    · obtain ⟨l, same, mem⟩ := escapes
      cases same
      exact absurd mem (settled.original_not_obtained (formed.outside _ original))
    · exact raised holds
  · exact holding sound.2 escapes
  · obtain ⟨_, _, _, l, rfl, _, holds⟩ := sound
    exact raised holds

/-- A call of `_reconnect_http_bridge_session` that has ended. -/
theorem exact_iff (formed : args.WellFormed) {trace : List (Event Id)}
    (run : replay (ReconnectState.step args) (initial args) trace = some t) (ended : t.Ended) :
    t.Exact args ↔ ∀ before e later s, trace = before ++ e :: later →
      replay (ReconnectState.step args) (initial args) before = some s → ¬ s.Escapes e := by
  have start : (initial args).Sound args :=
    ⟨rfl, Books.settled_empty, .inl ⟨rfl, fun _ _ => List.not_mem_nil⟩⟩
  have kept : ∀ (s : ReconnectState Id) (e : Event Id) (t : ReconnectState Id), s.Sound args →
      ReconnectState.step args s e = some t → ¬ s.Escapes e → t.Sound args :=
    fun _ _ _ sound hstep caught => sound.step formed hstep caught
  have ends : ∀ (s : ReconnectState Id) (e : Event Id) (t : ReconnectState Id), s.Sound args →
      ReconnectState.step args s e = some t → s.Escapes e →
      (∀ e', ReconnectState.step args t e' = none) ∧ ¬ t.Exact args :=
    fun _ _ _ sound hstep escapes => Escapes.leaks formed sound hstep escapes
  exact replay_good_iff kept ends (fun _ sound _ => sound.exact) trace start run ended

end ReconnectState

/-! ## Both calls -/

/-- A call that has ended has kept its books straight exactly when none of its exceptions has
passed every handler that releases the lease. -/
theorem leases_exact_iff (createArgs : CreateArgs Id) (reconnectArgs : ReconnectArgs Id)
    (formed : reconnectArgs.WellFormed) (trace : List (Event Id)) :
    (∀ t, replay (CreateState.step createArgs) (.initial createArgs) trace = some t → t.Ended →
      (t.Exact ↔ ∀ before e later s, trace = before ++ e :: later →
        replay (CreateState.step createArgs) (.initial createArgs) before = some s →
        ¬ s.Escapes e)) ∧
    (∀ t, replay (ReconnectState.step reconnectArgs) (.initial reconnectArgs) trace = some t →
      t.Ended → (t.Exact reconnectArgs ↔ ∀ before e later s, trace = before ++ e :: later →
        replay (ReconnectState.step reconnectArgs) (.initial reconnectArgs) before = some s →
        ¬ s.Escapes e)) :=
  ⟨fun _ run ended => CreateState.exact_iff run ended,
    fun _ run ended => ReconnectState.exact_iff formed run ended⟩

/-- A call with no account to prefer. -/
def anyAccount : CreateArgs ℕ := ⟨none, false, true⟩

/-- A session of account 7 whose socket was closed. -/
def closedSession : ReconnectArgs ℕ where
  accountId := 7
  accountLease := some ⟨0, 7⟩
  hardKey := false
  closeSkipsAccount := false
  requestExcluded := []
  forceRefreshAccountId := none
  preferredAccountId := none
  requireSameAccount := false
  requirePreferredAccount := false

/-- The session's account fails with its own lease and with a new one, and account 9 is taken. -/
def failedAttempts : List (Event ℕ) :=
  [.started none, .selected { preferredFound := true }, .connected (some .transport) true,
    .released false, .selected { preferredFound := true }, .connected (some .transport) true,
    .released false, .selected { found := some 9 }, .connected none true, .closed false]

/-- A reconnect that gives two leases back keeps the third and meets no escape. -/
theorem leases_exact_iff_released : ∃ t,
    replay (ReconnectState.step closedSession) (.initial closedSession) failedAttempts = some t ∧
      t.Exact closedSession ∧ ∀ before e later s, failedAttempts = before ++ e :: later →
        replay (ReconnectState.step closedSession) (.initial closedSession) before = some s →
        ¬ s.Escapes e := by
  have formed : closedSession.WellFormed := by
    rintro o own
    cases own
    exact ⟨rfl, rfl⟩
  have ended := (leases_exact_iff anyAccount closedSession formed failedAttempts).2 _ rfl trivial
  refine ⟨_, rfl, ?_, ended.mp ?_⟩
  all_goals
    refine ⟨⟨2, 9⟩, rfl, rfl, fun l => ⟨?_, ?_⟩⟩
    · rintro ⟨obtained | own, unreleased⟩
      · change l ∈ [⟨2, 9⟩, ⟨1, 7⟩] at obtained
        change l ∉ [⟨1, 7⟩, ⟨0, 7⟩] at unreleased
        simp only [List.mem_cons, List.not_mem_nil, or_false] at obtained unreleased
        tauto
      · exact absurd (Option.some.inj own ▸ List.mem_cons_of_mem _ List.mem_cons_self) unreleased
    · rintro rfl
      exact ⟨.inl List.mem_cons_self, by decide⟩

/-- A forced refresh that times out, after a 401. -/
def timedOutRefresh : List (Event ℕ) :=
  [.started none, .selected { found := some 7 }, .connected (some (.proxyError 401)) true,
    .forced (some .transport)]

/-- The lease of the account stays held when the forced refresh times out. -/
theorem create_leaks_after_401 : ∃ t,
    replay (CreateState.step anyAccount) (.initial anyAccount) timedOutRefresh = some t ∧
      t.Ended ∧ ¬ t.Exact := by
  refine ⟨_, rfl, trivial, fun once => ?_⟩
  exact absurd (once ⟨1, 7⟩ List.mem_cons_self) (by decide)

end BridgeConnect
