import Mathlib.Data.Int.Order.Basic
import Mathlib.Order.Basic
import LivingBalancer.Lib.Runs
import LivingBalancer.Lib.TimedLease

/-!
# The scheduler leader row

The acquire, renew and release statements of `leader_election.py` against one database
clock, for any number of instances. A statement whose reply is lost, or that is sent
again, is one more step. The record keeps every interval a statement granted and, for
one that was released while it ran, when.
-/

namespace LeaderElection

open Runs TimedLease

variable {Leader : Type}

inductive Dialect where
  | sqlite
  | postgresql

/-- The clock of the takeover test: SQLite has one clock in a statement, PostgreSQL compares
with the start of the transaction. -/
def Dialect.takeoverClock : Dialect → ℤ → ℤ → ℤ
  | .sqlite, _, clock => clock
  | .postgresql, snapshot, _ => snapshot

section Statements

variable [DecidableEq Leader]

/-- The acquire statement; it returns the remaining lease when it wrote the row. -/
def acquireSql (dialect : Dialect) (row : Option (Lease Leader ℤ)) (leader : Leader)
    (snapshot clock : ℤ) (ttl : ℕ) : Option (Lease Leader ℤ) × Option ℤ :=
  let (row', matched) := upsert row leader (dialect.takeoverClock snapshot clock) (clock + ttl)
  (row', if matched then some (clock + ttl - clock) else none)

/-- The renewal statement. -/
def renewSql (row : Option (Lease Leader ℤ)) (leader : Leader) (clock : ℤ) (ttl : ℕ) :
    Option (Lease Leader ℤ) × Option ℤ :=
  let (row', matched) := extend row leader clock (clock + ttl)
  (row', if matched then some (clock + ttl - clock) else none)

/-- The statement of `release`. -/
def releaseSql (row : Option (Lease Leader ℤ)) (leader : Leader) : Option (Lease Leader ℤ) :=
  discard row leader

end Statements

structure Table (Leader : Type) where
  row : Option (Lease Leader ℤ)
  clock : ℤ

inductive Statement (Leader : Type) where
  | acquire (leader : Leader) (snapshot : ℤ)
  | renew (leader : Leader)
  | release (leader : Leader)
  | tick (now : ℤ)

/-- A granted interval `[start, stop)`. -/
structure Grant (Leader : Type) where
  leader : Leader
  start : ℤ
  stop : ℤ
  releasedAt : Option ℤ

section System

variable [DecidableEq Leader]

def tableStep (dialect : Dialect) (ttl : Leader → ℕ) (s : Table Leader) :
    Statement Leader → Option (Table Leader)
  | .acquire leader snapshot =>
    if snapshot ≤ s.clock then
      some { s with row := (acquireSql dialect s.row leader snapshot s.clock (ttl leader)).1 }
    else none
  | .renew leader => some { s with row := (renewSql s.row leader s.clock (ttl leader)).1 }
  | .release leader => some { s with row := releaseSql s.row leader }
  | .tick now => if s.clock ≤ now then some { s with clock := now } else none

def Table.grant (s : Table Leader) (ttl : Leader → ℕ) (leader : Leader) : Grant Leader :=
  { leader := leader, start := s.clock, stop := s.clock + ttl leader, releasedAt := none }

/-- A release ends the leader's interval if it still runs. -/
def Grant.release (leader : Leader) (clock : ℤ) (g : Grant Leader) : Grant Leader :=
  if g.leader = leader ∧ clock < g.stop ∧ g.releasedAt = none then
    { g with releasedAt := some clock }
  else g

/-- The record, newest grant first. -/
def noteGrant (dialect : Dialect) (ttl : Leader → ℕ) (s : Table Leader) (act : Statement Leader)
    (_ : Table Leader) (grants : List (Grant Leader)) : List (Grant Leader) :=
  match act with
  | .acquire leader snapshot =>
    if (acquireSql dialect s.row leader snapshot s.clock (ttl leader)).2.isSome then
      s.grant ttl leader :: grants
    else grants
  | .renew leader =>
    if (renewSql s.row leader s.clock (ttl leader)).2.isSome then s.grant ttl leader :: grants
    else grants
  | .release leader =>
    if s.row.any (·.owner = leader) then grants.map (Grant.release leader s.clock) else grants
  | .tick _ => grants

/-- The earlier interval ends, by its expiry or by a release, before the later one starts. -/
def Grant.endsBefore (earlier later : Grant Leader) : Prop :=
  earlier.stop ≤ later.start ∨ ∃ r, earlier.releasedAt = some r ∧ r ≤ later.start

/-! ## What the statements do -/

theorem acquireSql_cases (dialect : Dialect) (row : Option (Lease Leader ℤ)) (leader : Leader)
    {snapshot clock : ℤ} (past : snapshot ≤ clock) (ttl : ℕ) :
    (acquireSql dialect row leader snapshot clock ttl = (row, none) ∧
        ∃ l, row = some l ∧ l.owner ≠ leader) ∨
      (acquireSql dialect row leader snapshot clock ttl =
          (some ⟨leader, clock + ttl⟩, some (clock + ttl - clock)) ∧
        ∀ l ∈ row, l.expiresAt < clock ∨ l.owner = leader) := by
  have sooner : dialect.takeoverClock snapshot clock ≤ clock := by
    cases dialect with
    | sqlite => exact le_rfl
    | postgresql => exact past
  rcases upsert_cases row leader (dialect.takeoverClock snapshot clock) (clock + ttl) with
    ⟨missed, l, hl, other, -⟩ | ⟨won, free⟩
  · exact .inl ⟨by simp [acquireSql, missed], l, hl, other⟩
  · refine .inr ⟨by simp [acquireSql, won], fun l hl => ?_⟩
    rcases free l hl with expired | own
    · exact .inl (lt_of_lt_of_le expired sooner)
    · exact .inr own

theorem renewSql_cases (row : Option (Lease Leader ℤ)) (leader : Leader) (clock : ℤ) (ttl : ℕ) :
    renewSql row leader clock ttl = (row, none) ∨
      (renewSql row leader clock ttl =
          (some ⟨leader, clock + ttl⟩, some (clock + ttl - clock)) ∧
        ∃ l, row = some l ∧ l.owner = leader ∧ clock < l.expiresAt) := by
  rcases extend_cases row leader clock (clock + ttl) with ⟨missed, -⟩ | ⟨extended, live⟩
  · exact .inl (by simp [renewSql, missed])
  · exact .inr ⟨by simp [renewSql, extended], live⟩

/-! ## The record -/

/-- Where a grant stands: it is covered by the row, over, or released. -/
def Grant.settled (g : Grant Leader) (s : Table Leader) : Prop :=
  (∃ l, s.row = some l ∧ l.owner = g.leader ∧ g.stop ≤ l.expiresAt) ∨ g.stop ≤ s.clock ∨
    ∃ r, g.releasedAt = some r ∧ r ≤ s.clock

structure Recorded (ttl : Leader → ℕ) (s : Table Leader) (grants : List (Grant Leader)) : Prop where
  span : ∀ g ∈ grants, g.start ≤ s.clock ∧ g.stop = g.start + ttl g.leader
  past : ∀ g ∈ grants, ∀ r, g.releasedAt = some r → r ≤ s.clock
  settled : ∀ g ∈ grants, g.settled s
  apart : grants.Pairwise fun later earlier => later.leader ≠ earlier.leader →
    earlier.endsBefore later
  current : ∀ l, s.row = some l → ∃ g rest, grants = g :: rest ∧ g.leader = l.owner ∧
    g.stop = l.expiresAt ∧ g.releasedAt = none

variable {dialect : Dialect} {ttl : Leader → ℕ} {s s' : Table Leader} {grants : List (Grant Leader)}

omit [DecidableEq Leader] in
/-- A grant over a row that is expired or the leader's own. -/
theorem Recorded.grant (hrec : Recorded ttl s grants) {leader : Leader}
    (free : ∀ l ∈ s.row, l.expiresAt < s.clock ∨ l.owner = leader) :
    Recorded ttl { s with row := some ⟨leader, s.clock + ttl leader⟩ }
      (s.grant ttl leader :: grants) := by
  have ended : ∀ g ∈ grants, g.leader ≠ leader → g.endsBefore (s.grant ttl leader) := by
    intro g hg other
    rcases hrec.settled g hg with ⟨l, hl, owner, covers⟩ | expired | released
    · rcases free l hl with expired | same
      · exact .inl (by simp only [Table.grant]; omega)
      · exact absurd (owner.symm.trans same) other
    · exact .inl expired
    · exact .inr released
  constructor
  · intro g hg
    rcases List.mem_cons.mp hg with rfl | hg
    · exact ⟨le_rfl, rfl⟩
    · exact hrec.span g hg
  · intro g hg
    rcases List.mem_cons.mp hg with rfl | hg
    · rintro r ⟨⟩
    · exact hrec.past g hg
  · intro g hg
    rcases List.mem_cons.mp hg with rfl | hg
    · exact .inl ⟨_, rfl, rfl, le_rfl⟩
    · by_cases same : g.leader = leader
      · obtain ⟨started, long⟩ := hrec.span g hg
        refine .inl ⟨_, rfl, same.symm, ?_⟩
        rw [long, same]
        exact Int.add_le_add_right started _
      · exact .inr (ended g hg same)
  · refine List.pairwise_cons.mpr ⟨fun g hg other => ended g hg other.symm, hrec.apart⟩
  · rintro l ⟨⟩
    exact ⟨_, grants, rfl, rfl, rfl, rfl⟩

theorem Grant.release_fields (leader : Leader) (clock : ℤ) (g : Grant Leader) :
    (g.release leader clock).leader = g.leader ∧ (g.release leader clock).start = g.start ∧
      (g.release leader clock).stop = g.stop := by
  simp only [Grant.release]
  split <;> exact ⟨rfl, rfl, rfl⟩

theorem Grant.endsBefore_release {earlier later : Grant Leader} (h : earlier.endsBefore later)
    (leader : Leader) (clock : ℤ) :
    (earlier.release leader clock).endsBefore (later.release leader clock) := by
  obtain ⟨-, hstart, -⟩ := later.release_fields leader clock
  obtain ⟨-, -, hstop⟩ := earlier.release_fields leader clock
  simp only [Grant.endsBefore]
  rw [hstart, hstop]
  refine h.imp id ?_
  rintro ⟨r, hr, before⟩
  exact ⟨r, by simp [Grant.release, hr], before⟩

/-- The holder's release: its running interval ends now. -/
theorem Recorded.release (hrec : Recorded ttl s grants) {leader : Leader} {l : Lease Leader ℤ}
    (hl : s.row = some l) (own : l.owner = leader) :
    Recorded ttl { s with row := none } (grants.map (Grant.release leader s.clock)) := by
  constructor
  · intro g' hg'
    obtain ⟨g, hg, rfl⟩ := List.mem_map.mp hg'
    obtain ⟨hleader, hstart, hstop⟩ := g.release_fields leader s.clock
    rw [hleader, hstart, hstop]
    exact hrec.span g hg
  · intro g' hg' r hr
    obtain ⟨g, hg, rfl⟩ := List.mem_map.mp hg'
    simp only [Grant.release] at hr
    split_ifs at hr
    · cases hr
      exact le_rfl
    · exact hrec.past g hg r hr
  · intro g' hg'
    obtain ⟨g, hg, rfl⟩ := List.mem_map.mp hg'
    have before := hrec.settled g hg
    simp only [Grant.release]
    split_ifs with running
    · exact .inr (.inr ⟨s.clock, rfl, le_rfl⟩)
    · rcases before with ⟨l', hl', owner, -⟩ | expired | released
      · rw [hl] at hl'
        cases hl'
        -- the leader's own interval is over or was released before
        by_cases expired : g.stop ≤ s.clock
        · exact .inr (.inl expired)
        · cases hreleased : g.releasedAt with
          | none => exact absurd ⟨owner.symm.trans own, not_le.mp expired, hreleased⟩ running
          | some r => exact .inr (.inr ⟨r, hreleased, hrec.past g hg r hreleased⟩)
      · exact .inr (.inl expired)
      · exact .inr (.inr released)
  · refine List.pairwise_map.mpr (hrec.apart.imp ?_)
    intro later earlier before other
    rw [(later.release_fields leader s.clock).1, (earlier.release_fields leader s.clock).1] at other
    exact Grant.endsBefore_release (before other) leader s.clock
  · rintro l ⟨⟩

omit [DecidableEq Leader] in
theorem Recorded.tick (hrec : Recorded ttl s grants) {now : ℤ} (later : s.clock ≤ now) :
    Recorded ttl { s with clock := now } grants := by
  refine ⟨fun g hg => ?_, fun g hg r hr => (hrec.past g hg r hr).trans later, fun g hg => ?_,
    hrec.apart, hrec.current⟩
  · exact ⟨(hrec.span g hg).1.trans later, (hrec.span g hg).2⟩
  · rcases hrec.settled g hg with covered | expired | ⟨r, hr, past⟩
    · exact .inl covered
    · exact .inr (.inl (expired.trans later))
    · exact .inr (.inr ⟨r, hr, past.trans later⟩)

theorem Recorded.step (hrec : Recorded ttl s grants) {act : Statement Leader}
    (h : tableStep dialect ttl s act = some s') :
    Recorded ttl s' (noteGrant dialect ttl s act s' grants) := by
  cases act with
  | acquire leader snapshot =>
    simp only [tableStep, Option.ite_none_right_eq_some, Option.some.injEq] at h
    obtain ⟨past, rfl⟩ := h
    rcases acquireSql_cases dialect s.row leader past (ttl leader) with
      ⟨missed, -⟩ | ⟨won, free⟩
    · simp only [noteGrant, missed, Option.isSome_none, Bool.false_eq_true, if_false]
      exact hrec
    · simp only [noteGrant, won, Option.isSome_some, if_true]
      exact hrec.grant free
  | renew leader =>
    cases h
    rcases renewSql_cases s.row leader s.clock (ttl leader) with missed | ⟨won, l, hl, own, -⟩
    · simp only [noteGrant, missed, Option.isSome_none, Bool.false_eq_true, if_false]
      exact hrec
    · simp only [noteGrant, won, Option.isSome_some, if_true]
      refine hrec.grant fun l' hl' => .inr ?_
      rw [hl] at hl'
      cases hl'
      exact own
  | release leader =>
    cases h
    rcases discard_cases s.row leader with ⟨missed, others⟩ | ⟨deleted, l, hl, own⟩
    · have held : s.row.any (·.owner = leader) = false := by
        cases hrow : s.row with
        | none => rfl
        | some l => simpa using others l hrow
      simp only [noteGrant, held, Bool.false_eq_true, if_false, releaseSql, missed]
      exact hrec
    · have held : s.row.any (·.owner = leader) = true := by simp [hl, own]
      simp only [noteGrant, held, if_true, releaseSql, deleted]
      exact hrec.release hl own
  | tick now =>
    simp only [tableStep, Option.ite_none_right_eq_some, Option.some.injEq] at h
    obtain ⟨later, rfl⟩ := h
    exact hrec.tick later

/-- The table before the first statement. -/
def Fresh (x : Table Leader × List (Grant Leader)) : Prop := x.1.row = none ∧ x.2 = []

theorem Recorded.of_reachable
    (h : Reachable (recording (tableStep dialect ttl) (noteGrant dialect ttl)) Any Fresh (s, grants)) :
    Recorded ttl s grants := by
  refine h.invariant (I := fun x => Recorded ttl x.1 x.2) ?_ ?_
  · rintro ⟨s, grants⟩ ⟨hrow, hgrants⟩
    cases hgrants
    refine ⟨nofun, nofun, nofun, .nil, fun l hl => ?_⟩
    rw [hrow] at hl
    cases hl
  · intro x act y hrec _ hstep
    obtain ⟨htable, hnote⟩ := recording_eq_some.mp hstep
    rw [hnote]
    exact hrec.step htable

/-- Intervals granted to two leaders overlap only if the earlier was released before the later
began, and a renewal extends only the newest interval while it runs. -/
theorem leases_apart
    (h : Reachable (recording (tableStep dialect ttl) (noteGrant dialect ttl)) Any Fresh (s, grants)) :
    (grants.Pairwise fun later earlier => later.leader ≠ earlier.leader →
        earlier.endsBefore later) ∧
      ∀ leader, (renewSql s.row leader s.clock (ttl leader)).2.isSome = true →
        ∃ g rest, grants = g :: rest ∧ g.leader = leader ∧ g.releasedAt = none ∧
          s.clock < g.stop := by
  have hrec := Recorded.of_reachable h
  refine ⟨hrec.apart, fun leader extends_ => ?_⟩
  rcases renewSql_cases s.row leader s.clock (ttl leader) with missed | ⟨-, l, hl, own, live⟩
  · rw [missed] at extends_
    cases extends_
  · obtain ⟨g, rest, hgrants, holder, expires, running⟩ := hrec.current l hl
    exact ⟨g, rest, hgrants, holder.trans own, running, expires ▸ live⟩

end System

/-! ## A handover -/

/-- Leader 1 releases after two seconds, leader 2 takes over and expires, leader 1 is back. -/
def handover : List (Statement ℕ) :=
  [.acquire 1 0, .tick 2, .release 1, .acquire 2 1, .tick 8, .acquire 1 8, .renew 1]

def emptyTable : Table ℕ × List (Grant ℕ) := ({ row := none, clock := 0 }, [])

def handoverEnd : Table ℕ × List (Grant ℕ) :=
  (replay (recording (tableStep .postgresql fun _ => 5) (noteGrant .postgresql fun _ => 5))
    emptyTable handover).getD emptyTable

theorem handover_apart :
    handoverEnd.2.map (fun g => (g.leader, g.start, g.stop, g.releasedAt)) =
        [(1, 8, 13, none), (1, 8, 13, none), (2, 2, 7, none), (1, 0, 5, some 2)] ∧
      handoverEnd.2.Pairwise fun later earlier => later.leader ≠ earlier.leader →
        earlier.endsBefore later := by
  have start : Fresh emptyTable := ⟨rfl, rfl⟩
  have run : Reachable
      (recording (tableStep .postgresql fun _ => 5) (noteGrant .postgresql fun _ => 5)) Any Fresh
      (handoverEnd.1, handoverEnd.2) :=
    reachable_of_replay handover start (fun _ _ _ => trivial) rfl
  exact ⟨rfl, (leases_apart run).1⟩

end LeaderElection
