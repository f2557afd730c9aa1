import LivingBalancer.Scheduling.LeaderLease

/-!
# One instance's view of its lease

`LeaderElection.try_acquire`, `renew` and `release` of one instance with any number of
calls in flight, over the row that all instances share. The instance's monotonic clock
is the database clock up to an offset; between the execution of a statement and its
reply any time may pass. A statement that is rolled back is a call that fails before
it executes.

The local deadline is the instant after the reply plus the remaining lease, so it is
later than the stored expiry by the delay of the reply.
-/

namespace LeaderElection

open Runs TimedLease

variable {Leader : Type}

inductive CallKind where
  | acquire
  | renew

/-- A call in flight: sent, executed with what the statement returned, or anchored. -/
inductive Call where
  | sent (kind : CallKind)
  | executed (kind : CallKind) (instant : ℤ) (remaining : Option ℤ)
  | anchored (kind : CallKind) (deadline : ℤ)

structure Instance (Leader : Type) where
  isLeader : Bool
  leaseDeadline : Option ℤ
  calls : ℕ → Option Call
  table : Table Leader

inductive InstanceAct (Leader : Type) where
  | start (n : ℕ) (kind : CallKind)
  | execute (n : ℕ) (snapshot : ℤ)
  | reply (n : ℕ)
  | finish (n : ℕ)
  | fail (n : ℕ)
  | keep
  | clear
  | delete
  | other (statement : Statement Leader)

def Statement.leader? : Statement Leader → Option Leader
  | .acquire leader _ | .renew leader | .release leader => some leader
  | .tick _ => none

/-- The instance and its deployment; `offset` turns the database clock into its own. -/
structure Setting (Leader : Type) where
  me : Leader
  offset : ℤ
  dialect : Dialect
  ttl : Leader → ℕ

namespace Instance

def setCall (s : Instance Leader) (n : ℕ) (call : Option Call) : Instance Leader :=
  { s with calls := fun m => if m = n then call else s.calls m }

/-- `loop.time()`. -/
def monotonic (cfg : Setting Leader) (s : Instance Leader) : ℤ := s.table.clock + cfg.offset

def demote (s : Instance Leader) : Instance Leader :=
  { s with isLeader := false, leaseDeadline := none }

/-- The handler of a failed acquisition: a held lease before its deadline is kept. -/
def acquireFailed (cfg : Setting Leader) (s : Instance Leader) : Instance Leader :=
  if s.isLeader && s.leaseDeadline.any (s.monotonic cfg < ·) then s else s.demote

/-- The flag is set and the clock is before the local deadline. -/
def ReportsLeader (cfg : Setting Leader) (s : Instance Leader) : Prop :=
  s.isLeader = true ∧ ∃ d, s.leaseDeadline = some d ∧ s.monotonic cfg < d

/-- The row names the instance with an expiry not yet reached. -/
def OwnsLease (cfg : Setting Leader) (s : Instance Leader) : Prop :=
  ∃ l, s.table.row = some l ∧ l.owner = cfg.me ∧ s.table.clock < l.expiresAt

end Instance

section System

variable [DecidableEq Leader]

/-- The statement of a call. -/
def callSql (cfg : Setting Leader) (kind : CallKind) (t : Table Leader) (snapshot : ℤ) :
    Option (Lease Leader ℤ) × Option ℤ :=
  match kind with
  | .acquire => acquireSql cfg.dialect t.row cfg.me snapshot t.clock (cfg.ttl cfg.me)
  | .renew => renewSql t.row cfg.me t.clock (cfg.ttl cfg.me)

def instanceStep (cfg : Setting Leader) (s : Instance Leader) :
    InstanceAct Leader → Option (Instance Leader)
  | .start n kind =>
    match s.calls n, kind with
    | none, .acquire => some (s.setCall n (some (.sent .acquire)))
    | none, .renew => if s.isLeader then some (s.setCall n (some (.sent .renew))) else none
    | some _, _ => none
  | .execute n snapshot =>
    match s.calls n with
    | some (.sent kind) =>
      if snapshot ≤ s.table.clock then
        let (row, remaining) := callSql cfg kind s.table snapshot
        some ({ s with table := { s.table with row := row } }.setCall n
          (some (.executed kind s.table.clock remaining)))
      else none
    | _ => none
  | .reply n =>
    match s.calls n with
    | some (.executed _ _ none) => some (s.demote.setCall n none)
    | some (.executed kind _ (some remaining)) =>
      some (s.setCall n (some (.anchored kind (s.monotonic cfg + remaining))))
    | _ => none
  | .finish n =>
    match s.calls n with
    | some (.anchored kind deadline) =>
      some ({ s with
        isLeader := match kind with
          | .acquire => true
          | .renew => s.isLeader
        leaseDeadline := some deadline }.setCall n none)
    | _ => none
  -- an error at any point of the call; `renew` raises it to its caller
  | .fail n =>
    match s.calls n with
    | some (.sent .acquire) | some (.executed .acquire _ _) | some (.anchored .acquire _) =>
      some ((s.acquireFailed cfg).setCall n none)
    | some _ => some (s.setCall n none)
    | none => none
  -- the renewal of the release keeper and of the drain
  | .keep =>
    some { s with
      table := { s.table with
        row := (renewSql s.table.row cfg.me s.table.clock (cfg.ttl cfg.me)).1 } }
  -- `release` clears the local state first and deletes the row later
  | .clear => some s.demote
  | .delete => some { s with table := { s.table with row := releaseSql s.table.row cfg.me } }
  | .other statement =>
    if statement.leader? = some cfg.me then none
    else (tableStep cfg.dialect cfg.ttl s.table statement).map fun t => { s with table := t }

/-- The expiry a call in flight stands for. -/
def Call.expiry (cfg : Setting Leader) : Call → Option ℤ
  | .executed _ instant (some remaining) => some (instant + remaining)
  | .anchored _ deadline => some (deadline - cfg.offset)
  | _ => none

/-- The condition: a reply with a remaining lease is read at the instant its statement executed,
and the row is deleted only when the instance does not lead and no call in flight still holds a
lease. -/
def Prompt (cfg : Setting Leader) (s : Instance Leader) : InstanceAct Leader → Prop
  | .reply n => ∀ kind instant remaining,
      s.calls n = some (.executed kind instant (some remaining)) → s.table.clock = instant
  | .delete => ¬ s.ReportsLeader cfg ∧
      ∀ n call x, s.calls n = some call → call.expiry cfg = some x → x ≤ s.table.clock
  | _ => True

/-- An instance that was just started. -/
structure Started (s : Instance Leader) : Prop where
  isLeader : s.isLeader = false
  leaseDeadline : s.leaseDeadline = none
  calls : ∀ n, s.calls n = none

/-! ## Promised expiries -/

/-- While `x` lies ahead, the row is the instance's own and lasts to `x`. -/
structure Promise (cfg : Setting Leader) (t : Table Leader) (x : ℤ) : Prop where
  bounded : x ≤ t.clock + cfg.ttl cfg.me
  covered : t.clock < x → ∃ l, t.row = some l ∧ l.owner = cfg.me ∧ x ≤ l.expiresAt

variable {cfg : Setting Leader} {t t' : Table Leader} {x : ℤ}

omit [DecidableEq Leader] in
/-- A statement that writes the instance's row stores the latest expiry it can have. -/
theorem Promise.written (promise : Promise cfg t x) :
    Promise cfg { t with row := some ⟨cfg.me, t.clock + cfg.ttl cfg.me⟩ } x :=
  ⟨promise.bounded, fun _ => ⟨_, rfl, rfl, promise.bounded⟩⟩

/-- A statement of a call leaves the row alone, or writes it for the longest time. -/
theorem callSql_cases (cfg : Setting Leader) (kind : CallKind) (t : Table Leader) {snapshot : ℤ}
    (past : snapshot ≤ t.clock) :
    callSql cfg kind t snapshot = (t.row, none) ∨
      callSql cfg kind t snapshot = (some ⟨cfg.me, t.clock + cfg.ttl cfg.me⟩,
        some (t.clock + cfg.ttl cfg.me - t.clock)) := by
  cases kind with
  | acquire =>
    rcases acquireSql_cases cfg.dialect t.row cfg.me past (cfg.ttl cfg.me) with
      ⟨missed, -⟩ | ⟨won, -⟩
    · exact .inl missed
    · exact .inr won
  | renew =>
    rcases renewSql_cases t.row cfg.me t.clock (cfg.ttl cfg.me) with missed | ⟨won, -⟩
    · exact .inl missed
    · exact .inr won

theorem Promise.call (promise : Promise cfg t x) (kind : CallKind) {snapshot : ℤ}
    (past : snapshot ≤ t.clock) :
    Promise cfg { t with row := (callSql cfg kind t snapshot).1 } x := by
  rcases callSql_cases cfg kind t past with missed | won
  · rw [missed]
    exact promise
  · rw [won]
    exact promise.written

/-- Nobody else can write or delete a row before its expiry. -/
theorem Promise.other (promise : Promise cfg t x) {statement : Statement Leader}
    (foreign : statement.leader? ≠ some cfg.me)
    (h : tableStep cfg.dialect cfg.ttl t statement = some t') : Promise cfg t' x := by
  cases statement with
  | acquire leader snapshot =>
    have stranger : leader ≠ cfg.me := fun same => foreign (congrArg some same)
    simp only [tableStep, Option.ite_none_right_eq_some, Option.some.injEq] at h
    obtain ⟨past, rfl⟩ := h
    refine ⟨promise.bounded, fun ahead => ?_⟩
    obtain ⟨l, hl, own, lasts⟩ := promise.covered ahead
    rcases acquireSql_cases cfg.dialect t.row leader past (cfg.ttl leader) with
      ⟨missed, -⟩ | ⟨-, free⟩
    · rw [missed]
      exact ⟨l, hl, own, lasts⟩
    · rcases free l hl with expired | theirs
      · exact absurd (lt_of_lt_of_le ahead lasts) (not_lt.mpr expired.le)
      · exact absurd (theirs.symm.trans own) stranger
  | renew leader =>
    have stranger : leader ≠ cfg.me := fun same => foreign (congrArg some same)
    cases h
    refine ⟨promise.bounded, fun ahead => ?_⟩
    obtain ⟨l, hl, own, lasts⟩ := promise.covered ahead
    rcases renewSql_cases t.row leader t.clock (cfg.ttl leader) with missed | ⟨-, l', hl', theirs, -⟩
    · simp only [missed]
      exact ⟨l, hl, own, lasts⟩
    · rw [hl] at hl'
      cases hl'
      exact absurd (theirs.symm.trans own) stranger
  | release leader =>
    have stranger : leader ≠ cfg.me := fun same => foreign (congrArg some same)
    cases h
    refine ⟨promise.bounded, fun ahead => ?_⟩
    obtain ⟨l, hl, own, lasts⟩ := promise.covered ahead
    refine ⟨l, ?_, own, lasts⟩
    simp only [releaseSql, hl]
    exact discard_other fun theirs => stranger (theirs.symm.trans own)
  | tick now =>
    simp only [tableStep, Option.ite_none_right_eq_some, Option.some.injEq] at h
    obtain ⟨later, rfl⟩ := h
    exact ⟨promise.bounded.trans (Int.add_le_add_right later _),
      fun ahead => promise.covered (lt_of_le_of_lt later ahead)⟩

theorem Promise.of_call {kind : CallKind} {snapshot remaining : ℤ} (past : snapshot ≤ t.clock)
    (h : (callSql cfg kind t snapshot).2 = some remaining) :
    Promise cfg { t with row := (callSql cfg kind t snapshot).1 } (t.clock + remaining) := by
  rcases callSql_cases cfg kind t past with missed | won
  · rw [missed] at h
    cases h
  · rw [won] at h ⊢
    cases h
    have expiry : t.clock + (t.clock + cfg.ttl cfg.me - t.clock) = t.clock + cfg.ttl cfg.me := by
      omega
    rw [expiry]
    exact ⟨le_rfl, fun _ => ⟨_, rfl, rfl, le_rfl⟩⟩

structure Promises (cfg : Setting Leader) (s : Instance Leader) : Prop where
  deadline : s.isLeader = true → ∀ d, s.leaseDeadline = some d →
    Promise cfg s.table (d - cfg.offset)
  calls : ∀ n call x, s.calls n = some call → call.expiry cfg = some x → Promise cfg s.table x

variable {s s' : Instance Leader}

omit [DecidableEq Leader] in
theorem Promises.setCall (p : Promises cfg s) (n : ℕ) {call : Option Call}
    (promised : ∀ c x, call = some c → c.expiry cfg = some x → Promise cfg s.table x) :
    Promises cfg (s.setCall n call) := by
  refine ⟨p.deadline, fun m c x h => ?_⟩
  simp only [Instance.setCall] at h
  split_ifs at h
  · exact promised c x h
  · exact p.calls m c x h

omit [DecidableEq Leader] in
theorem Promises.endCall (p : Promises cfg s) (n : ℕ) : Promises cfg (s.setCall n none) :=
  p.setCall n fun _ _ h => nomatch h

omit [DecidableEq Leader] in
theorem Promises.withTable (p : Promises cfg s) {t : Table Leader}
    (kept : ∀ x, Promise cfg s.table x → Promise cfg t x) : Promises cfg { s with table := t } :=
  ⟨fun leads d h => kept _ (p.deadline leads d h), fun n c x h hx => kept x (p.calls n c x h hx)⟩

omit [DecidableEq Leader] in
theorem Promises.demote (p : Promises cfg s) : Promises cfg s.demote :=
  ⟨nofun, p.calls⟩

omit [DecidableEq Leader] in
theorem Promises.acquireFailed (p : Promises cfg s) : Promises cfg (s.acquireFailed cfg) := by
  simp only [Instance.acquireFailed]
  split
  · exact p
  · exact p.demote

theorem Promises.execute (p : Promises cfg s) (n : ℕ) {kind : CallKind} {snapshot : ℤ}
    (past : snapshot ≤ s.table.clock) :
    Promises cfg ({ s with
      table := { s.table with row := (callSql cfg kind s.table snapshot).1 } }.setCall n
        (some (.executed kind s.table.clock (callSql cfg kind s.table snapshot).2))) := by
  refine (p.withTable fun x promise => promise.call kind past).setCall n ?_
  rintro c x ⟨⟩ hx
  cases hremaining : (callSql cfg kind s.table snapshot).2 with
  | none =>
    rw [hremaining] at hx
    cases hx
  | some remaining =>
    rw [hremaining] at hx
    cases hx
    exact Promise.of_call past hremaining

omit [DecidableEq Leader] in
/-- Read at the instant of execution, the deadline is the stored expiry. -/
theorem Promises.reply (p : Promises cfg s) {n : ℕ} {kind : CallKind} {instant remaining : ℤ}
    (h : s.calls n = some (.executed kind instant (some remaining)))
    (same : s.table.clock = instant) :
    Promises cfg (s.setCall n (some (.anchored kind (s.monotonic cfg + remaining)))) := by
  refine p.setCall n ?_
  rintro c x ⟨⟩ ⟨⟩
  have executed := p.calls n _ _ h rfl
  have expiry : s.monotonic cfg + remaining - cfg.offset = instant + remaining := by
    simp only [Instance.monotonic]
    omega
  rw [expiry]
  exact executed

omit [DecidableEq Leader] in
theorem Promises.finish (p : Promises cfg s) {n : ℕ} {kind : CallKind} {deadline : ℤ}
    (h : s.calls n = some (.anchored kind deadline)) (leads : Bool) :
    Promises cfg ({ s with isLeader := leads, leaseDeadline := some deadline }.setCall n none) := by
  have anchored := p.calls n _ _ h rfl
  have finished : Promises cfg { s with isLeader := leads, leaseDeadline := some deadline } := by
    refine ⟨?_, p.calls⟩
    rintro - d ⟨⟩
    exact anchored
  exact finished.endCall n

/-- All that the instance was promised is past when the row is deleted. -/
theorem Promises.delete (p : Promises cfg s) (prompt : Prompt cfg s .delete) :
    Promises cfg { s with table := { s.table with row := releaseSql s.table.row cfg.me } } := by
  obtain ⟨idle, expired⟩ := prompt
  refine ⟨fun leads d hd => ?_, fun n c x hc hx => ?_⟩
  · have known := p.deadline leads d hd
    refine ⟨known.bounded, fun ahead => absurd ⟨leads, d, hd, ?_⟩ idle⟩
    simp only [Instance.monotonic]
    change s.table.clock < d - cfg.offset at ahead
    omega
  · have known := p.calls n c x hc hx
    exact ⟨known.bounded, fun ahead => absurd ahead (not_lt.mpr (expired n c x hc hx))⟩

theorem Promises.step (p : Promises cfg s) {act : InstanceAct Leader} (prompt : Prompt cfg s act)
    (h : instanceStep cfg s act = some s') : Promises cfg s' := by
  cases act with
  | start n kind =>
    have sent : ∀ kind, Promises cfg (s.setCall n (some (.sent kind))) := by
      intro kind
      refine p.setCall n ?_
      rintro c x ⟨⟩ ⟨⟩
    simp only [instanceStep] at h
    split at h
    · cases h
      exact sent .acquire
    · split_ifs at h
      cases h
      exact sent .renew
    · cases h
  | execute n snapshot =>
    simp only [instanceStep] at h
    split at h
    · rename_i kind hcall
      simp only [Option.ite_none_right_eq_some, Option.some.injEq] at h
      obtain ⟨past, rfl⟩ := h
      exact p.execute n past
    · cases h
  | reply n =>
    simp only [instanceStep] at h
    split at h
    · cases h
      exact p.demote.endCall n
    · rename_i kind instant remaining hcall
      cases h
      exact p.reply hcall (prompt kind instant remaining hcall)
    · cases h
  | finish n =>
    simp only [instanceStep] at h
    split at h
    · rename_i kind deadline hcall
      cases h
      exact p.finish hcall _
    · cases h
  | fail n =>
    simp only [instanceStep] at h
    split at h
    all_goals first
      | cases h; exact p.acquireFailed.endCall n
      | cases h; exact p.endCall n
      | cases h
  | keep =>
    cases h
    exact p.withTable fun x promise => promise.call .renew le_rfl
  | clear =>
    cases h
    exact p.demote
  | delete =>
    cases h
    exact p.delete prompt
  | other statement =>
    simp only [instanceStep] at h
    split_ifs at h with own
    obtain ⟨t, ht, rfl⟩ := Option.map_eq_some_iff.mp h
    exact p.withTable fun x promise => promise.other own ht

/-- Along every run in which replies with a lease are read at once, and a release does not
overtake the instance's own calls, local leadership implies ownership. -/
theorem leader_owns_lease (h : Reachable (instanceStep cfg) (Prompt cfg) Started s)
    (reports : s.ReportsLeader cfg) : s.OwnsLease cfg := by
  have promises : Promises cfg s := by
    refine h.invariant (fun s started => ⟨fun _ d hd => ?_, fun n c x hc => ?_⟩)
      fun _ _ _ p prompt hstep => p.step prompt hstep
    · rw [started.leaseDeadline] at hd
      cases hd
    · rw [started.calls] at hc
      cases hc
  obtain ⟨leads, d, hd, before⟩ := reports
  simp only [Instance.monotonic] at before
  have ahead : s.table.clock < d - cfg.offset := by omega
  obtain ⟨l, hl, own, lasts⟩ := (promises.deadline leads d hd).covered ahead
  exact ⟨l, hl, own, lt_of_lt_of_le ahead lasts⟩

omit [DecidableEq Leader] in
/-- The condition cannot be spared: the deadline of a late reply is reached after the lease. -/
theorem deadline_exact {instant remaining : ℤ} (positive : 0 < remaining)
    (row : s.table.row = some ⟨cfg.me, instant + remaining⟩) (executed : instant ≤ s.table.clock)
    (leads : s.isLeader = true)
    (deadline : s.leaseDeadline = some (s.monotonic cfg + remaining)) :
    (∀ now, s.table.clock ≤ now →
      Instance.ReportsLeader cfg { s with table := { s.table with clock := now } } →
        Instance.OwnsLease cfg { s with table := { s.table with clock := now } }) ↔
      s.table.clock = instant := by
  constructor
  · intro owns
    by_contra late
    let now := max s.table.clock (instant + remaining)
    have reports : Instance.ReportsLeader cfg { s with table := { s.table with clock := now } } := by
      refine ⟨leads, _, deadline, ?_⟩
      simp only [Instance.monotonic, now]
      omega
    obtain ⟨l, hl, -, lasts⟩ := owns now (le_max_left _ _) reports
    rw [show s.table.row = some l from hl] at row
    cases row
    simp only [now] at lasts
    omega
  · rintro same now - ⟨-, d, hd, before⟩
    rw [show s.leaseDeadline = some d from hd] at deadline
    cases deadline
    refine ⟨_, row, rfl, ?_⟩
    simp only [Instance.monotonic] at before
    change now < instant + remaining
    omega

end System

/-! ## Two runs -/

/-- Leaders 1 and 2 of one host, both with a TTL of 30 seconds. -/
def twoLeaders : Setting ℕ := { me := 1, offset := 100, dialect := .sqlite, ttl := fun _ => 30 }

def booted : Instance ℕ :=
  { isLeader := false, leaseDeadline := none, calls := fun _ => none,
    table := { row := none, clock := 0 } }

/-- The reply is read at once. -/
def promptReply : List (InstanceAct ℕ) := [.start 0 .acquire, .execute 0 0, .reply 0, .finish 0]

def promptEnd : Instance ℕ := (replay (instanceStep twoLeaders) booted promptReply).getD booted

theorem prompt_reply_owns :
    promptEnd.ReportsLeader twoLeaders ∧ promptEnd.OwnsLease twoLeaders := by
  have started : Started booted := ⟨rfl, rfl, fun _ => rfl⟩
  have reports : promptEnd.ReportsLeader twoLeaders := ⟨rfl, 130, rfl, by decide⟩
  have run : Reachable (instanceStep twoLeaders) (Prompt twoLeaders) Started promptEnd := by
    have sent : Steps (instanceStep twoLeaders) (Prompt twoLeaders) booted _ :=
      .tail (.start 0 .acquire) (.refl booted) trivial rfl
    have executed : Steps (instanceStep twoLeaders) (Prompt twoLeaders) booted _ :=
      .tail (.execute 0 0) sent trivial rfl
    have replied : Steps (instanceStep twoLeaders) (Prompt twoLeaders) booted _ :=
      .tail (.reply 0) executed (by rintro kind instant remaining ⟨⟩; rfl) rfl
    exact ⟨booted, started, .tail (.finish 0) replied trivial rfl⟩
  exact ⟨reports, leader_owns_lease run reports⟩

/-- The reply takes five seconds; the lease runs out, and the other leader takes it. -/
def lateReply : List (InstanceAct ℕ) :=
  [.start 0 .acquire, .execute 0 0, .other (.tick 5), .reply 0, .finish 0, .other (.tick 31),
    .other (.acquire 2 31)]

def lateEnd : Instance ℕ := (replay (instanceStep twoLeaders) booted lateReply).getD booted

theorem late_reply_outlives_lease :
    Reachable (instanceStep twoLeaders) Any Started lateEnd ∧
      lateEnd.ReportsLeader twoLeaders ∧ ¬ lateEnd.OwnsLease twoLeaders := by
  have started : Started booted := ⟨rfl, rfl, fun _ => rfl⟩
  refine ⟨reachable_of_replay lateReply started (fun _ _ _ => trivial) rfl,
    ⟨rfl, 135, rfl, by decide⟩, ?_⟩
  rintro ⟨l, hl, own, -⟩
  cases hl
  cases own

end LeaderElection
