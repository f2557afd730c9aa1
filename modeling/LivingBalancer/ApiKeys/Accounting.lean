import LivingBalancer.ApiKeys.Sessions

/-!
# Limit accounting over all interleavings

Every call is in a session and the committed rows are balanced, whatever the order in which
the statements of the calls, their commits and their aborts are taken.
-/

namespace ApiKeys

open Runs

structure Accounts (pricing : Pricing) (s : Sys) : Prop where
  distinct : s.drawn.Nodup
  db : Session pricing s.limits.committed s.limits.committed s.reservations.committed
    s.reservations.committed s.drawn .idle
  calls : ∀ c, s.calls c = .rollback ∨ Session pricing s.limits.committed (s.limits.view c)
    s.reservations.committed (s.reservations.view c) s.drawn (s.calls c)

section System

variable {pricing : Pricing} {s t : Sys} {c : Nat}

theorem Session.bounded {base limits : Nat → Option Limit}
    {settled reservations : String → Option Reservation} {drawn : List String} {pc : Pc}
    (h : Session pricing base limits settled reservations drawn pc) (id : Nat) (row : Limit)
    (hrow : base id = some row) (resetAt : Int) (future : row.resetAt < resetAt) :
    pc.ahead id resetAt = 0 := by
  have beyond : ∀ i : ReservationItem, Dated base i.limitId i.expectedResetAt → i.limitId = id →
      i.expectedResetAt ≠ resetAt := by
    rintro i ⟨row', hrow', hle⟩ rfl rfl
    rw [hrow] at hrow'
    cases hrow'
    omega
  cases pc with
  | reserve args k limit delta todo items =>
    exact booked_eq_zero fun i hi => beyond i (h.shape.2.dated i hi)
  | createReservation args items =>
    have planned : Planned base [] items := h.shape
    exact booked_eq_zero fun i hi => beyond i (planned.dated i hi)
  | recordActual s item actual todo next =>
    obtain ⟨_, ⟨r, _, hr, _, _, partly⟩, _⟩ := h.shape
    obtain ⟨done, hitems, _⟩ := partly.split
    have hi : item ∈ r.items := hitems ▸ List.mem_append_right _ List.mem_cons_self
    refine if_neg ?_
    rintro ⟨same, live⟩
    exact beyond item (h.books.dated _ r hr item hi) same live
  | _ => rfl

theorem Settlement.Fits.once {settled settled' : String → Option Reservation} {x : Settlement}
    (h : x.Fits settled) (once : Once settled settled') : x.Fits settled' := by
  obtain ⟨r, hr, hitems⟩ := h.row
  obtain ⟨r', hr', rfl | ⟨_, left⟩⟩ := once _ r hr
  · exact ⟨⟨r', hr', hitems⟩, h.amounts, h.leaves, h.closes⟩
  · exact ⟨⟨r', hr', fun open_ => absurd open_ left⟩, h.amounts, h.leaves, h.closes⟩

theorem Chain.once {settled settled' : String → Option Reservation} (once : Once settled settled')
    {pc : Pc} (h : Chain pricing settled pc) : Chain pricing settled' pc := by
  induction pc with
  | claim x next ih => exact ⟨h.1.once once, ih h.2⟩
  | commit next => exact h
  | _ => exact h.elim

theorem Planned.later {base base' : Nat → Option Limit} (later : Later base base')
    {todo : List (Nat × Limit)} {items : List ReservationItem} (h : Planned base todo items) :
    Planned base' todo items :=
  ⟨h.distinct, fun p hp => (h.loaded p hp).later later, h.amounts, fun i hi => (h.dated i hi).later later⟩

/-- The points of a call stay what they are while others commit. -/
theorem Shape.later {base base' : Nat → Option Limit}
    {settled settled' reservations reservations' : String → Option Reservation}
    (later : Later base base') (once : Once settled settled')
    (held : ∀ id todo, Underway settled reservations id todo → Underway settled' reservations' id todo)
    {pc : Pc} (h : Shape pricing base settled reservations pc) :
    Shape pricing base' settled' reservations' pc := by
  cases pc with
  | reserve => exact ⟨h.1, h.2.later later⟩
  | createReservation => exact Planned.later later h
  | staleItems cutoff batchSize ids =>
    intro id hid
    obtain ⟨r, hr⟩ := Option.ne_none_iff_exists'.mp (h id hid)
    obtain ⟨r', hr', _⟩ := once id r hr
    simp [hr']
  | claim x next => exact Chain.once once h
  | adjust | recordActual => exact ⟨h.1, held _ _ h.2.1, h.2.2.once once⟩
  | settleStatus => exact ⟨h.1, held _ _ h.2.1, h.2.2.once once⟩
  | _ => exact h

/-- A call goes on past a commit of another one. -/
theorem Session.interfere {limits : Table Nat Limit} {reservations : Table String Reservation}
    {drawn : List String} {c' : Nat} {pc own : Pc} (other : c' ≠ c)
    (db : Session pricing limits.committed limits.committed reservations.committed
      reservations.committed drawn .idle)
    (committer : Session pricing limits.committed (limits.view c) reservations.committed
      (reservations.view c) drawn own)
    (even : ∀ id resetAt, own.ahead id resetAt = 0) (free : own.settling = none)
    (mine : Session pricing limits.committed (limits.view c') reservations.committed
      (reservations.view c') drawn pc) :
    Session pricing (limits.view c) ((limits.commit c).view c') (reservations.view c)
      ((reservations.commit c).view c') drawn pc where
  books := Books.interfere other db.books
    (committer.books.congr fun id row _ => (even id row.resetAt).symm) mine.books mine.bounded
  whole := by
    intro id r hr busy
    rcases reservations.view_commit_cases other id with ⟨same, _⟩ | ⟨same, _⟩
    · exact mine.whole id r (same ▸ hr) busy
    · exact committer.whole id r (same ▸ hr) (by simp [free])
  shape := by
    refine mine.shape.later committer.books.later committer.books.once ?_
    rintro id todo ⟨r, r₀, hr, hr₀, open_, partly⟩
    rcases reservations.view_commit_cases other id with ⟨same, kept⟩ | ⟨_, kept⟩
    · exact ⟨r, r₀, same.trans hr, kept.trans hr₀, open_, partly⟩
    · rw [hr, hr₀] at kept
      cases kept
      exact absurd open_ partly.left
  clean := by
    intro resting
    obtain ⟨hlimits, hreservations⟩ := mine.clean resting
    constructor
    · funext k
      rcases limits.view_commit_cases other k with ⟨same, kept⟩ | ⟨same, _⟩
      · rw [same, kept, hlimits]
      · exact same
    · funext k
      rcases reservations.view_commit_cases other k with ⟨same, kept⟩ | ⟨same, _⟩
      · rw [same, kept, hreservations]
      · exact same
  unclaimed := by
    intro claiming id r hr open_
    rcases reservations.view_commit_cases other id with ⟨same, kept⟩ | ⟨same, _⟩
    · exact kept.trans (mine.unclaimed claiming id r (same ▸ hr) open_)
    · exact same ▸ hr

/-- A step within a transaction concerns the call alone. -/
theorem Accounts.own (h : Accounts pricing s) (c : Nat) (drawn : t.drawn = s.drawn)
    (limits : t.limits.committed = s.limits.committed)
    (reservations : t.reservations.committed = s.reservations.committed)
    (others : ∀ c', c' ≠ c → t.limits.view c' = s.limits.view c' ∧
      t.reservations.view c' = s.reservations.view c' ∧ t.calls c' = s.calls c')
    (acting : t.calls c = .rollback ∨ Session pricing s.limits.committed (t.limits.view c)
      s.reservations.committed (t.reservations.view c) s.drawn (t.calls c)) : Accounts pricing t where
  distinct := drawn ▸ h.distinct
  db := by
    rw [limits, reservations, drawn]
    exact h.db
  calls := by
    intro c'
    rw [limits, reservations, drawn]
    by_cases same : c' = c
    · subst same
      exact acting
    · obtain ⟨hl, hr, hc⟩ := others c' same
      rw [hl, hr, hc]
      exact h.calls c'

theorem Accounts.draw (h : Accounts pricing s) {id : String} (fresh : id ∉ s.drawn) :
    Accounts pricing { s with drawn := id :: s.drawn } where
  distinct := List.nodup_cons.mpr ⟨fresh, h.distinct⟩
  db := h.db.draw fresh
  calls := fun c' => (h.calls c').imp_right fun session => session.draw fresh

theorem Accounts.commit (h : Accounts pricing s) {next : Pc} (hpc : s.calls c = .commit next) :
    Accounts pricing (Sys.goto { s with limits := s.limits.commit c,
                                         reservations := s.reservations.commit c } c next) := by
  have committer := (h.calls c).resolve_left (by simp [hpc])
  rw [hpc] at committer
  have ready : Ready pricing false next := committer.shape
  have db : Session pricing (s.limits.view c) (s.limits.view c) (s.reservations.view c)
      (s.reservations.view c) s.drawn .idle :=
    ⟨committer.books.committed fun _ _ _ => rfl, fun id r hr _ => committer.whole id r hr nofun, rfl,
      fun _ => ⟨rfl, rfl⟩, nofun⟩
  refine ⟨h.distinct, db, ?_⟩
  intro c'
  by_cases same : c' = c
  · subst same
    obtain ⟨shape, ahead, _⟩ :
      Shape pricing (s.limits.view c') (s.reservations.view c') (s.reservations.view c') next ∧ _ :=
        ready.point
    simpa [Sys.goto] using Or.inr (db.enter shape ahead)
  · simp only [Sys.goto, if_neg same]
    refine (h.calls c').imp_right ?_
    exact Session.interfere same h.db committer (fun _ _ => rfl) rfl

theorem Accounts.rollback (h : Accounts pricing s) : Accounts pricing (s.close c) := by
  refine h.own c rfl rfl rfl ?_ ?_
  · intro c' other
    exact ⟨s.limits.view_rollback_other other, s.reservations.view_rollback_other other, if_neg other⟩
  · simpa [Sys.close, Sys.goto] using h.db

theorem Accounts.stay (h : Accounts pricing s) {pc : Pc} (acting : pc = .rollback ∨
      Session pricing s.limits.committed (s.limits.view c) s.reservations.committed
        (s.reservations.view c) s.drawn pc) : Accounts pricing (s.goto c pc) := by
  refine h.own c rfl rfl rfl ?_ ?_
  · exact fun c' other => ⟨rfl, rfl, if_neg other⟩
  · simpa [Sys.goto] using acting

theorem Accounts.putLimit (h : Accounts pricing s) {pc : Pc} {id : Nat} {row : Option Limit}
    {free : s.limits.Free c id} (acting : pc = .rollback ∨
      Session pricing s.limits.committed ((s.limits.put c id row free).view c)
        s.reservations.committed (s.reservations.view c) s.drawn pc) :
    Accounts pricing (Sys.goto { s with limits := s.limits.put c id row free } c pc) := by
  refine h.own c rfl rfl rfl ?_ ?_
  · exact fun c' other => ⟨s.limits.view_put_other other id row free, rfl, if_neg other⟩
  · simpa [Sys.goto] using acting

theorem Accounts.putReservation (h : Accounts pricing s) {pc : Pc} {id : String}
    {r : Option Reservation} {free : s.reservations.Free c id} (acting : pc = .rollback ∨
      Session pricing s.limits.committed (s.limits.view c) s.reservations.committed
        ((s.reservations.put c id r free).view c) s.drawn pc) :
    Accounts pricing (Sys.goto { s with reservations := s.reservations.put c id r free } c pc) := by
  refine h.own c rfl rfl rfl ?_ ?_
  · exact fun c' other => ⟨rfl, s.reservations.view_put_other other id r free, if_neg other⟩
  · simpa [Sys.goto] using acting

theorem Accounts.session (h : Accounts pricing s) {pc : Pc} (hpc : s.calls c = pc)
    (live : pc ≠ .rollback) : Session pricing s.limits.committed (s.limits.view c)
      s.reservations.committed (s.reservations.view c) s.drawn pc := by
  have session := (h.calls c).resolve_left (hpc ▸ live)
  rwa [hpc] at session

end System

section Reads

variable {pricing : Pricing} {base : Nat → Option Limit}
variable {settled : String → Option Reservation} {drawn : List String}

/-- A point a call may go on to after it has read. -/
def Begins (pricing : Pricing) (base : Nat → Option Limit)
    (settled : String → Option Reservation) (pc : Pc) : Prop :=
  pc = .rollback ∨ Shape pricing base settled settled pc ∧ ∀ id resetAt, pc.ahead id resetAt = 0

theorem Ready.begins {dirty : Bool} {pc : Pc} (h : Ready pricing dirty pc) :
    Begins pricing base settled pc := by
  obtain ⟨shape, ahead, _⟩ : Shape pricing base settled settled pc ∧ _ := h.point
  exact Or.inr ⟨shape, ahead⟩

theorem Chain.begins {pc : Pc} (h : Chain pricing settled pc) : Begins pricing base settled pc := by
  obtain ⟨shape, ahead, _⟩ : Shape pricing base settled settled pc ∧ _ := h.point
  exact Or.inr ⟨shape, ahead⟩

theorem mem_limitsByKey {snap : Snapshot} {order : List Nat} {keyId : String} {p : Nat × Limit}
    (hp : p ∈ snap.limitsByKey order keyId) : snap.limits p.1 = some p.2 := by
  obtain ⟨id, _, hid⟩ := List.mem_filterMap.mp hp
  obtain ⟨row, hrow, hsome⟩ := Option.bind_eq_some_iff.mp hid
  split at hsome
  · cases hsome
    exact hrow
  · cases hsome

theorem limitsByKey_sublist (snap : Snapshot) (order : List Nat) (keyId : String) :
    ((snap.limitsByKey order keyId).map Prod.fst).Sublist order := by
  induction order with
  | nil => exact List.Sublist.refl []
  | cons id order ih =>
    simp only [Snapshot.limitsByKey] at ih ⊢
    rw [List.filterMap_cons]
    split
    · exact ih.cons id
    · rename_i p hp
      obtain ⟨row, _, hsome⟩ := Option.bind_eq_some_iff.mp hp
      split at hsome
      · cases hsome
        exact ih.cons_cons id
      · cases hsome

theorem planned_of_select {snap : Snapshot} (hlimits : snap.limits = base) {env : Env}
    {keyId : String} {rows : List (Nat × Limit)} (h : snap.select env keyId = some rows) :
    Planned base rows [] := by
  simp only [Snapshot.select] at h
  split at h
  · rename_i chosen
    cases h
    refine ⟨?_, ?_, nofun, nofun⟩
    · exact chosen.1.sublist (limitsByKey_sublist snap env.order keyId)
    · intro p hp
      exact ⟨p.2, hlimits ▸ mem_limitsByKey hp, le_refl _⟩
  · cases h

theorem expiredLimits_elapsed (snap : Snapshot) (order : List Nat) (now : Int) (batchSize : Nat) :
    ∀ p ∈ snap.expiredLimits order now batchSize, p.2.resetAt < now := by
  intro p hp
  have hp := List.mem_of_mem_take hp
  rw [List.mem_mergeSort] at hp
  obtain ⟨id, _, hid⟩ := List.mem_filterMap.mp hp
  obtain ⟨row, _, hsome⟩ := Option.bind_eq_some_iff.mp hid
  split at hsome
  · rename_i elapsed
    cases hsome
    exact elapsed
  · cases hsome

/-- No limit has been deleted, so a reservation has all its items. -/
theorem snapshot_items {limits : Nat → Option Limit} {ahead : Nat → Int → Int}
    {reservations : String → Option Reservation}
    (books : Books base limits settled reservations drawn ahead) {snap : Snapshot}
    (hlimits : snap.limits = base) {id : String} {r : Reservation} (hr : reservations id = some r) :
    snap.items r = r.items := by
  refine List.filter_eq_self.mpr ?_
  intro i hi
  obtain ⟨row, hrow, _⟩ := books.dated id r hr i hi
  rw [hlimits, hrow]
  rfl

theorem chain_claim {snap : Snapshot} (db : Session pricing base base settled settled drawn .idle)
    (hlimits : snap.limits = base) {x : Settlement} {r : Reservation} {f : ReservationItem → Int}
    {next : Pc} (hr : settled x.reservationId = some r)
    (todo : x.todo = (snap.items r).map fun i => (i, f i)) (amounts : ∀ i, 0 ≤ f i)
    (leaves : x.claimAs ≠ .reserved)
    (closes : ∀ status usage, x.closing = some (status, usage) → status ≠ .reserved)
    (chain : Chain pricing settled next) : Chain pricing settled (.claim x next) := by
  refine ⟨⟨⟨r, hr, ?_⟩, ?_, leaves, closes⟩, chain⟩
  · intro _
    rw [todo, List.map_map, snapshot_items db.books hlimits hr]
    exact (List.map_id r.items).symm
  · intro p hp
    rw [todo] at hp
    obtain ⟨i, _, rfl⟩ := List.mem_map.mp hp
    exact amounts i

theorem chain_nextStale {snap : Snapshot}
    (db : Session pricing base base settled settled drawn .idle) (hlimits : snap.limits = base)
    (hreservations : snap.reservations = settled) (cutoff : Int) (batchSize : Nat) {ids : List String}
    (present : ∀ id ∈ ids, settled id ≠ none) :
    Chain pricing settled (nextStale snap cutoff batchSize ids) := by
  induction ids with
  | nil => exact rfl
  | cons id ids ih =>
    obtain ⟨r, hr⟩ := Option.ne_none_iff_exists'.mp (present id List.mem_cons_self)
    have rest := ih fun k hk => present k (List.mem_cons_of_mem id hk)
    simp only [nextStale]
    rw [hreservations, hr]
    exact chain_claim db hlimits hr rfl (fun _ => le_refl 0) nofun nofun rest

/-- Where a call that has read goes on to. -/
theorem resume_begins {snap : Snapshot} {env : Env} {pc pc' : Pc}
    (db : Session pricing base base settled settled drawn .idle) (hlimits : snap.limits = base)
    (hreservations : snap.reservations = settled) (shape : Shape pricing base settled settled pc)
    (resting : pc.rests = true) (h : resume pricing env pc (.rows snap) = some pc') :
    Begins pricing base settled pc' := by
  have idle : Begins pricing base settled .idle := Or.inr ⟨rfl, fun _ _ => rfl⟩
  have commit : Chain pricing settled (.commit .idle) := rfl
  cases pc with
  | idle => cases h; exact Or.inl rfl
  | enforce args limitsReset =>
    obtain ⟨rows, hrows, rfl⟩ := Option.map_eq_some_iff.mp h
    split
    · split
      · exact (ready_nextLazyReset args rows).begins
      · exact nextReserve_point args (planned_of_select hlimits hrows) |>.imp_right
          fun ⟨shape, ahead, _⟩ => ⟨shape, ahead⟩
    · exact Or.inl rfl
  | settle args =>
    simp only [resume, hreservations] at h
    split at h
    · cases h; exact idle
    · rename_i r hr
      split at h
      · cases h
        refine (chain_claim (x := settlementOf pricing args (snap.items r)) db hlimits hr rfl
          (fun i => shape.2.2 i.limitType) nofun ?_ commit).begins
        rintro status usage ⟨⟩
        exact shape.2.1
      · cases h; exact idle
  | release id =>
    simp only [resume, hreservations] at h
    split at h
    · cases h; exact idle
    · rename_i r hr
      split at h
      · cases h
        refine (chain_claim (x := releaseOf id (snap.items r)) db hlimits hr rfl
          (fun _ => le_refl 0) nofun ?_ commit).begins
        rintro status usage ⟨⟩
        decide
      · cases h; exact idle
  | releaseStale cutoff batchSize =>
    simp only [resume] at h
    split at h
    · rename_i batch
      split at h
      · cases h; exact idle
      · cases h
        refine Or.inr ⟨?_, fun _ _ => rfl⟩
        intro id hid absent
        have stale := batch.2.2.1 id hid
        rw [Snapshot.stale, hreservations, absent] at stale
        cases stale
    · cases h
  | staleItems cutoff batchSize ids =>
    cases h
    exact (chain_nextStale db hlimits hreservations cutoff batchSize shape).begins
  | resetExpired now batchSize =>
    have elapsed := expiredLimits_elapsed snap env.order now batchSize
    simp only [resume] at h
    split at h
    · split at h
      · cases h; exact idle
      · cases h
        exact (ready_nextExpiredReset now batchSize elapsed).begins
    · cases h
  | _ => cases resting

end Reads

section Runs

variable {pricing : Pricing} {s t : Sys} {c : Nat} {env : Env}

theorem Accounts.read (h : Accounts pricing s) (resting : (s.calls c).rests = true)
    (hst : statement env.clock (s.calls c) = some .select)
    (hstep : step pricing s (.run c env) = some t) : Accounts pricing t := by
  obtain ⟨st, s', reply, pc, hst', hexec, hresume, rfl⟩ := step_run hstep
  rw [hst] at hst'
  cases hst'
  cases hexec
  have session := h.session rfl (c := c) (by rintro hpc; rw [hpc] at resting; cases resting)
  obtain ⟨hlimits, hreservations⟩ := session.clean resting
  have shape := session.shape
  rw [hlimits, hreservations] at hresume
  rw [hreservations] at shape
  refine h.stay ?_
  rw [hlimits, hreservations]
  refine (resume_begins h.db rfl rfl shape resting hresume).imp_right ?_
  rintro ⟨shape, even⟩
  exact h.db.enter shape even

/-- A statement of a call keeps the accounts. -/
theorem Accounts.run (h : Accounts pricing s) (hstep : step pricing s (.run c env) = some t) :
    Accounts pricing t := by
  cases hpc : s.calls c with
  | idle =>
    obtain ⟨st, _, _, _, hst, _⟩ := step_run hstep
    rw [hpc] at hst
    cases hst
  | enforce | settle | release | releaseStale | staleItems | resetExpired =>
    exact h.read (by rw [hpc]; rfl) (by rw [hpc]; rfl) hstep
  | edit | editLimits | editKey | editReload | upsertLimits | writeLimits =>
    exact (h.session hpc nofun).shape.elim
  | reserve args id limit delta todo items =>
    have session := h.session hpc nofun
    obtain ⟨s', reply, pc, hexec, hresume, rfl⟩ := step_run_at hpc rfl hstep
    rcases exec_updateLimit hexec with ⟨rfl, rfl, _⟩ | ⟨rfl, row, free, hrow, hcond, rfl⟩
    · cases hresume
      exact h.stay (Or.inl rfl)
    · cases hresume
      have live : row.resetAt = limit.resetAt := by simpa using (Bool.and_eq_true_iff.mp hcond).1
      refine h.putLimit ?_
      exact session.reserved hrow live (Table.view_put_self ..)
        fun k hk => Table.view_put_ne _ _ _ _ hk
  | createReservation args items =>
    obtain ⟨s', reply, pc, hexec, hresume, rfl⟩ := step_run_at hpc rfl hstep
    rcases exec_insertReservation hexec with ⟨rfl, rfl⟩ | ⟨rfl, fresh, free, rfl⟩
    · cases hresume
      exact h.stay (Or.inl rfl)
    · cases hresume
      have drawn := h.draw fresh
      have session := drawn.session hpc nofun
      have absent : ∀ table : String → Option Reservation,
          (∀ id, table id ≠ none → id ∈ s.drawn) → table env.uuid = none := by
        intro table known
        by_contra present
        exact fresh (known env.uuid present)
      refine drawn.putReservation (Or.inr ?_)
      exact session.created drawn.distinct List.mem_cons_self
        (absent _ (h.session hpc nofun).books.known) (absent _ h.db.books.known) rfl rfl
        (Table.view_put_self ..) fun k hk => Table.view_put_ne _ _ _ _ hk
  | claim x next =>
    have session := h.session hpc nofun
    obtain ⟨s', reply, pc, hexec, hresume, rfl⟩ := step_run_at hpc rfl hstep
    rcases exec_updateReservation hexec with ⟨rfl, rfl, _⟩ | ⟨rfl, r, free, hr, hcond, rfl⟩
    · simp only [resume] at hresume
      split at hresume
      · cases hresume
        exact h.stay (Or.inr session.lost)
      · cases hresume
        exact h.stay (Or.inl rfl)
    · cases hresume
      refine h.putReservation (Or.inr ?_)
      exact session.claimed h.distinct hr hcond (Table.view_put_self ..)
        fun k hk => Table.view_put_ne _ _ _ _ hk
  | adjust x item actual todo next =>
    have session := h.session hpc nofun
    obtain ⟨s', reply, pc, hexec, hresume, rfl⟩ := step_run_at hpc rfl hstep
    rcases exec_updateLimit hexec with ⟨rfl, rfl, missed⟩ | ⟨rfl, row, free, hrow, hcond, rfl⟩
    · cases hresume
      refine h.stay (Or.inr (session.passed ?_))
      intro row hrow live
      have guard := session.adjustable hrow live
      have refused := missed row hrow
      simp [adjustable, live] at refused
      omega
    · cases hresume
      have live : row.resetAt = item.expectedResetAt := by
        simpa using (Bool.and_eq_true_iff.mp hcond).1
      refine h.putLimit (Or.inr ?_)
      exact session.adjusted hrow live (Table.view_put_self ..)
        fun k hk => Table.view_put_ne _ _ _ _ hk
  | recordActual x item actual todo next =>
    have session := h.session hpc nofun
    obtain ⟨s', reply, pc, hexec, hresume, rfl⟩ := step_run_at hpc rfl hstep
    rcases exec_upsertItem hexec with ⟨rfl, rfl⟩ | ⟨rfl, r, free, hr, rfl⟩
    · cases hresume
      exact h.stay (Or.inl rfl)
    · cases hresume
      refine h.putReservation (Or.inr ?_)
      exact session.recorded h.distinct hr (Table.view_put_self ..)
        fun k hk => Table.view_put_ne _ _ _ _ hk
  | settleStatus id status usage next =>
    have session := h.session hpc nofun
    obtain ⟨s', reply, pc, hexec, hresume, rfl⟩ := step_run_at hpc rfl hstep
    rcases exec_updateReservation hexec with ⟨rfl, rfl, missed⟩ | ⟨rfl, r, free, hr, hcond, rfl⟩
    · obtain ⟨_, ⟨r, _, hr, _⟩, _⟩ := session.shape
      cases missed r hr
    · cases hresume
      refine h.putReservation (Or.inr ?_)
      exact session.closed h.distinct hr (Table.view_put_self ..)
        fun k hk => Table.view_put_ne _ _ _ _ hk
  | reset id expected new next =>
    have session := h.session hpc nofun
    obtain ⟨s', reply, pc, hexec, hresume, rfl⟩ := step_run_at hpc rfl hstep
    rcases exec_updateLimit hexec with ⟨rfl, rfl, _⟩ | ⟨rfl, row, free, hrow, hcond, rfl⟩
    · cases hresume
      exact h.stay (Or.inr (session.resetDone session.books))
    · cases hresume
      have live : row.resetAt = expected := by simpa using hcond
      refine h.putLimit (Or.inr (session.resetDone ?_))
      exact session.books.reset hrow (live ▸ session.shape.1) (Table.view_put_self ..)
        fun k hk => Table.view_put_ne _ _ _ _ hk
  | commit next =>
    obtain ⟨s', reply, pc, hexec, hresume, rfl⟩ := step_run_at hpc rfl hstep
    cases hexec
    cases hresume
    exact h.commit hpc
  | rollback =>
    obtain ⟨s', reply, pc, hexec, hresume, rfl⟩ := step_run_at hpc rfl hstep
    cases hexec
    cases hresume
    exact h.rollback

end Runs

section Claims

def Act.isEdit : Act → Bool
  | .start _ (.updateKey _) => true
  | _ => false

/-- The settlements started count no negative amount, for any kind of limit. -/
def Act.CountsUsage (pricing : Pricing) : Act → Prop
  | .start _ request => match request.entry with
    | .settle args => ∀ type, 0 ≤ args.increment pricing type
    | _ => True
  | _ => True

def Unedited (_ : Sys) (a : Act) : Prop := a.isEdit = false

def Permitted (pricing : Pricing) (_ : Sys) (a : Act) : Prop :=
  a.isEdit = false ∧ a.CountsUsage pricing

/-- No reservations and no calls yet, and each window begins with its counter. -/
structure Fresh (s : Sys) : Prop where
  limits : ∃ rows, s.limits = Table.ofRows rows ∧
    ∀ id row, rows id = some row → row.currentValue = row.windowStart ∧ 0 ≤ row.windowStart
  reservations : s.reservations = Table.ofRows fun _ => none
  calls : s.calls = fun _ => .idle
  drawn : s.drawn = []

def itemsAt (id : Nat) (resetAt : Int) (r : Reservation) : List ReservationItem :=
  r.items.filter fun i => i.limitId == id && i.expectedResetAt == resetAt

/-- `reserved_delta` over the items of the window whose reservation is still `reserved`. -/
def reservedSum (s : Sys) (id : Nat) (resetAt : Int) : Int :=
  Table.total (fun r => if r.status = .reserved then
    ((itemsAt id resetAt r).map ReservationItem.reservedDelta).sum else 0) s.drawn s.reservations.committed

/-- `actual_delta` over the items of the window whose reservation has left `reserved`. -/
def settledSum (s : Sys) (id : Nat) (resetAt : Int) : Int :=
  Table.total (fun r => if r.status = .reserved then 0 else
    ((itemsAt id resetAt r).map fun i => i.actualDelta.getD 0).sum) s.drawn s.reservations.committed

def Balanced (s : Sys) : Prop :=
  ∀ id row, s.limits.committed id = some row → 0 ≤ row.currentValue ∧
    row.currentValue = row.windowStart + reservedSum s id row.resetAt + settledSum s id row.resetAt

/-- The guard of a pending adjustment holds whenever the item's window is still the current one. -/
def GuardHolds (s : Sys) : Prop :=
  ∀ c x item actual todo next row, s.calls c = .adjust x item actual todo next →
    s.limits.view c item.limitId = some row → row.resetAt = item.expectedResetAt →
    adjustable item.expectedResetAt (actual - item.reservedDelta) row = true

/-- An adjustment for another window than the current one changes no limit. -/
def OldWindowsKept (pricing : Pricing) (s : Sys) : Prop :=
  ∀ c env t x item actual todo next row, s.calls c = .adjust x item actual todo next →
    s.limits.view c item.limitId = some row → row.resetAt ≠ item.expectedResetAt →
    step pricing s (.run c env) = some t → t.limits = s.limits

theorem booked_eq_sum (id : Nat) (resetAt : Int) (r : Reservation) : booked id resetAt r.items =
    ((itemsAt id resetAt r).map fun i => i.actualDelta.getD i.reservedDelta).sum := by
  simp only [itemsAt]
  induction r.items with
  | nil => rfl
  | cons i items ih =>
    rw [booked_cons, ih, List.filter_cons]
    by_cases here : i.limitId = id ∧ i.expectedResetAt = resetAt
    · have matched : (i.limitId == id && i.expectedResetAt == resetAt) = true := by simp [here]
      rw [if_pos matched, List.map_cons, List.sum_cons, ReservationItem.share, if_pos here]
    · have unmatched : ¬ (i.limitId == id && i.expectedResetAt == resetAt) = true := by simpa using here
      rw [if_neg unmatched, ReservationItem.share, if_neg here, zero_add]

/-- A committed reservation accounts for its reserved or for its actual amounts. -/
theorem Reservation.Whole.booked_eq {r : Reservation} (h : r.Whole) (id : Nat) (resetAt : Int) :
    booked id resetAt r.items =
      (if r.status = .reserved then ((itemsAt id resetAt r).map ReservationItem.reservedDelta).sum else 0) +
      (if r.status = .reserved then 0 else ((itemsAt id resetAt r).map fun i => i.actualDelta.getD 0).sum) := by
  rw [booked_eq_sum]
  by_cases open_ : r.status = .reserved
  · rw [if_pos open_, if_pos open_, add_zero]
    refine congrArg List.sum (List.map_congr_left ?_)
    intro i hi
    rw [h.unrecorded open_ i (List.mem_of_mem_filter hi), Option.getD_none]
  · rw [if_neg open_, if_neg open_, zero_add]
    refine congrArg List.sum (List.map_congr_left ?_)
    intro i hi
    obtain ⟨a, ha, _⟩ := h.recorded open_ i (List.mem_of_mem_filter hi)
    rw [ha, Option.getD_some, Option.getD_some]

variable {pricing : Pricing} {s t : Sys}

theorem accounts_of_fresh (h : Fresh s) : Accounts pricing s := by
  obtain ⟨rows, hlimits, hrows⟩ := h.limits
  have books : Books rows rows (fun _ => none) (fun _ => none) [] fun _ _ => 0 := by
    refine ⟨?_, Later.refl rows, ?_, ?_, ?_, ?_, Once.refl _⟩
    · exact fun _ known => absurd rfl known
    · exact fun id row hrow => ⟨row, hrow, le_refl _⟩
    · exact fun id row hrow => (hrows id row hrow).2
    · intro id row hrow
      have begins := (hrows id row hrow).1
      simp [counted, Table.total, begins]
    · rintro id r ⟨⟩
  have db : Session pricing rows rows (fun _ => none) (fun _ => none) [] .idle := by
    refine ⟨books, ?_, rfl, fun _ => ⟨rfl, rfl⟩, ?_⟩
    · rintro id r ⟨⟩
    · rintro ⟨⟩
  refine ⟨?_, ?_, ?_⟩
  · rw [h.drawn]
    exact List.nodup_nil
  · rw [hlimits, h.reservations, h.drawn]
    exact db
  · intro c
    rw [hlimits, h.reservations, h.drawn, h.calls]
    exact Or.inr db

theorem accounts_step (h : Accounts pricing s) {a : Act} (permitted : Permitted pricing s a)
    (hstep : step pricing s a = some t) : Accounts pricing t := by
  cases a with
  | start c request =>
    simp only [step] at hstep
    split at hstep
    · cases hstep
      have closed : Accounts pricing (s.close c) := h.rollback
      have hpc : (s.close c).calls c = .idle := if_pos rfl
      obtain ⟨hlimits, hreservations⟩ := (closed.session hpc nofun).clean rfl
      refine closed.stay (Or.inr ?_)
      rw [hlimits, hreservations]
      cases request with
      | enforceLimits | release | releaseStale | resetExpired => exact closed.db.enter rfl fun _ _ => rfl
      | finalize | fail => exact closed.db.enter ⟨rfl, nofun, permitted.2⟩ fun _ _ => rfl
      | updateKey => cases permitted.1
    · cases hstep
  | run c env => exact h.run hstep
  | abort c =>
    cases hstep
    exact h.rollback

theorem Accounts.balanced (h : Accounts pricing s) : Balanced s := by
  intro id row hrow
  have balance := h.db.books.balance id row hrow
  have opening := h.db.books.opening id row hrow
  have nonneg : 0 ≤ counted s.drawn s.reservations.committed id row.resetAt :=
    Table.total_nonneg _ _ _ (h.db.shares_nonneg id row.resetAt)
  have split : counted s.drawn s.reservations.committed id row.resetAt =
      reservedSum s id row.resetAt + settledSum s id row.resetAt := by
    refine Table.total_eq_add _ _ _ ?_
    intro key r hr
    exact (h.db.whole key r hr nofun).booked_eq id row.resetAt
  simp only [Pc.ahead] at balance
  omega

theorem Accounts.guardHolds (h : Accounts pricing s) : GuardHolds s := by
  intro c x item actual todo next row hpc hrow live
  have guard := (h.session hpc nofun).adjustable hrow live
  simp only [adjustable]
  simp only [live, beq_self_eq_true, Bool.true_and, Bool.or_eq_true, decide_eq_true_eq]
  exact Or.inr guard

theorem oldWindowsKept (pricing : Pricing) (s : Sys) : OldWindowsKept pricing s := by
  intro c env t x item actual todo next row hpc hrow ended hstep
  obtain ⟨st, s', reply, pc, hst, hexec, _, rfl⟩ := step_run hstep
  rw [hpc] at hst
  cases hst
  rcases exec_updateLimit hexec with ⟨_, rfl, _⟩ | ⟨_, row', free, hrow', hcond, _⟩
  · rfl
  · rw [hrow] at hrow'
    cases hrow'
    exact absurd (by simpa using (Bool.and_eq_true_iff.mp hcond).1) ended

theorem once_step (h : Accounts pricing s) {a : Act} (hstep : step pricing s a = some t) :
    Once s.reservations.committed t.reservations.committed := by
  cases a with
  | start c request =>
    simp only [step] at hstep
    split at hstep
    · cases hstep
      exact Once.refl _
    · cases hstep
  | abort c =>
    cases hstep
    exact Once.refl _
  | run c env =>
    obtain ⟨st, s', reply, pc, hst, hexec, _, rfl⟩ := step_run hstep
    have committed : (s'.goto c pc).reservations.committed = _ :=
      (exec_effect hexec).reservations.committed
    rw [committed]
    cases commits : st.commits with
    | false => exact Once.refl _
    | true =>
      rcases h.calls c with doomed | session
      · rw [doomed] at hst
        cases hst
        cases commits
      · exact session.books.once

theorem reachable_accounts (h : Reachable (step pricing) (Permitted pricing) Fresh s) :
    Accounts pricing s :=
  h.invariant (fun _ fresh => accounts_of_fresh fresh) fun _ _ _ hs ok hstep => accounts_step hs ok hstep

/-- One key with a daily limit of 100 tokens. -/
def dailyTokens : Sys where
  keys := fun id => if id = "key" then some ⟨true, none⟩ else none
  limits := Table.ofRows fun id =>
    if id = 1 then some ⟨"key", .totalTokens, .daily, none, 100, 0, 1000, 0⟩ else none
  reservations := Table.ofRows fun _ => none
  calls := fun _ => .idle
  limitIds := [1]
  drawn := []

theorem fresh_dailyTokens : Fresh dailyTokens := by
  refine ⟨⟨_, rfl, ?_⟩, rfl, rfl, rfl⟩
  intro id row hrow
  split at hrow
  · cases hrow
    exact ⟨rfl, le_refl 0⟩
  · cases hrow

def unpriced : Pricing := fun _ _ _ _ _ => 0

/-- A request reserves seven tokens, and its settlement reports the given input tokens. -/
def reserveAndFinalize (inputTokens : Int) : List Act :=
  let env : Env := { order := [1], uuid := "r" }
  [.start 0 (.enforceLimits ⟨"key", none, none, some ⟨some 3, some 4⟩, 10⟩),
    .run 0 env, .run 0 env, .run 0 env, .run 0 env,
    .start 0 (.finalize "r" "model" inputTokens 0 0 none none),
    .run 0 env, .run 0 env, .run 0 env, .run 0 env, .run 0 env, .run 0 env]

end Claims

end ApiKeys
