import Mathlib.Data.Nat.Basic
import LivingBalancer.Balancer.Stickiness
import LivingBalancer.Lib.Runs

/-!
# Expired sticky mappings

`StickySessionsRepository` over one table, with any number of `get_account_id` calls. Such a
call reads the row in one statement and, if it was expired, deletes by key and kind in
another; statements of other requests run in between. Datetimes count microseconds.
The history numbers the statements and keeps when a mapping was last upserted and when a
call read its row.
-/

namespace StickySessions

open Balancer Runs

structure StickySession where
  accountId : String
  updatedAt : ℤ
  deriving DecidableEq

abbrev StickyId := String × StickyKind

inductive Lookup where
  | answer (accountId : Option String)
  | expired

/-- What `get_account_id` makes of the row it read. -/
def lookUp (row : Option StickySession) (maxAgeSeconds : Option ℤ) (now : ℤ) : Lookup :=
  match row, maxAgeSeconds with
  | none, _ => .answer none
  | some row, none => .answer (some row.accountId)
  | some row, some age =>
    if row.updatedAt < now - age * 1000000 then .expired else .answer (some row.accountId)

/-- The table, and the calls that wait to delete an expired row. -/
structure Sticky where
  rows : StickyId → Option StickySession
  deleting : ℕ → Option StickyId

inductive StickyAct where
  | getAccountId (n : ℕ) (id : StickyId) (maxAgeSeconds : Option ℤ) (now : ℤ)
  | deleteExpired (n : ℕ)
  | upsert (id : StickyId) (accountId : String) (now : ℤ)
  | delete (id : StickyId)
  | purgeBefore (cutoff : ℤ) (kind : Option StickyKind)

def Sticky.setRow (s : Sticky) (id : StickyId) (row : Option StickySession) : Sticky :=
  { s with rows := fun i => if i = id then row else s.rows i }

def Sticky.setDeleting (s : Sticky) (n : ℕ) (id : Option StickyId) : Sticky :=
  { s with deleting := fun m => if m = n then id else s.deleting m }

def purged (cutoff : ℤ) (kind : Option StickyKind) (id : StickyId) (row : StickySession) : Bool :=
  decide (row.updatedAt < cutoff) && kind.all (· = id.2)

def stickyStep (s : Sticky) : StickyAct → Option Sticky
  | .getAccountId n id maxAgeSeconds now =>
    match s.deleting n with
    | some _ => none
    | none =>
      if id.1 = "" then some s
      else match lookUp (s.rows id) maxAgeSeconds now with
        | .answer _ => some s
        | .expired => some (s.setDeleting n (some id))
  | .deleteExpired n =>
    match s.deleting n with
    | some id => some ((s.setRow id none).setDeleting n none)
    | none => none
  | .upsert id accountId now => some (s.setRow id (some ⟨accountId, now⟩))
  | .delete id => if id.1 = "" then some s else some (s.setRow id none)
  | .purgeBefore cutoff kind =>
    some { s with rows := fun id => (s.rows id).filter fun row => !purged cutoff kind id row }

/-! ## The history -/

structure History where
  instant : ℕ
  upsertedAt : StickyId → Option ℕ
  readAt : ℕ → ℕ

def noteStatement (_ : Sticky) (act : StickyAct) (_ : Sticky) (history : History) : History where
  instant := history.instant + 1
  upsertedAt := match act with
    | .upsert id _ _ => fun i => if i = id then some history.instant else history.upsertedAt i
    | _ => history.upsertedAt
  readAt := match act with
    | .getAccountId n _ _ _ => fun m => if m = n then history.instant else history.readAt m
    | _ => history.readAt

/-- The mapping was last upserted before the call read it. -/
def Stale (history : History) (n : ℕ) (id : StickyId) : Prop :=
  ∀ i, history.upsertedAt id = some i → i < history.readAt n

/-- No mapping is upserted while a call waits to delete it. -/
def NoUpsertBetween (x : Sticky × History) : StickyAct → Prop
  | .upsert id _ _ => ∀ n, x.1.deleting n ≠ some id
  | _ => True

structure Waiting (s : Sticky) (history : History) : Prop where
  past : ∀ id i, history.upsertedAt id = some i → i < history.instant
  stale : ∀ n id, s.deleting n = some id → Stale history n id

variable {s s' : Sticky} {history : History}

/-- A step that upserts nothing and starts no call. -/
theorem Waiting.quiet (w : Waiting s history) {act : StickyAct}
    (upserted : (noteStatement s act s' history).upsertedAt = history.upsertedAt)
    (read : ∀ n id, s'.deleting n = some id →
      (noteStatement s act s' history).readAt n = history.readAt n ∧ s.deleting n = some id) :
    Waiting s' (noteStatement s act s' history) := by
  constructor
  · intro id i hi
    rw [upserted] at hi
    exact Nat.lt_succ_of_lt (w.past id i hi)
  · intro n id hn i hi
    obtain ⟨same, before⟩ := read n id hn
    rw [upserted] at hi
    rw [same]
    exact w.stale n id before i hi

theorem Waiting.step (w : Waiting s history) {act : StickyAct}
    (alone : NoUpsertBetween (s, history) act) (step : stickyStep s act = some s') :
    Waiting s' (noteStatement s act s' history) := by
  cases act with
  | getAccountId n id maxAgeSeconds now =>
    simp only [stickyStep] at step
    split at step
    · cases step
    · rename_i idle
      have kept : ∀ m id', s.deleting m = some id' →
          (noteStatement s (.getAccountId n id maxAgeSeconds now) s' history).readAt m =
            history.readAt m := by
        intro m id' hm
        have other : m ≠ n := by
          rintro rfl
          rw [idle] at hm
          cases hm
        simp [noteStatement, other]
      split at step
      · cases step
        exact w.quiet rfl fun m id' hm => ⟨kept m id' hm, hm⟩
      · split at step <;> cases step
        · exact w.quiet rfl fun m id' hm => ⟨kept m id' hm, hm⟩
        · refine ⟨fun id' i hi => Nat.lt_succ_of_lt (w.past id' i hi), fun m id' hm i hi => ?_⟩
          simp only [Sticky.setDeleting] at hm
          split at hm
          · rename_i hmn
            simp only [noteStatement, hmn, if_true]
            exact w.past id' i hi
          · rw [kept m id' hm]
            exact w.stale m id' hm i hi
  | deleteExpired n =>
    simp only [stickyStep] at step
    split at step <;> cases step
    refine w.quiet rfl fun m id' hm => ⟨rfl, ?_⟩
    simp only [Sticky.setDeleting] at hm
    split at hm
    · cases hm
    · exact hm
  | upsert id accountId now =>
    cases step
    constructor
    · intro id' i hi
      simp only [noteStatement] at hi ⊢
      split at hi
      · cases hi
        exact Nat.lt_succ_self _
      · exact Nat.lt_succ_of_lt (w.past id' i hi)
    · intro m id' hm i hi
      simp only [noteStatement] at hi ⊢
      split at hi
      · rename_i same
        exact absurd (same ▸ hm) (alone m)
      · exact w.stale m id' hm i hi
  | delete id =>
    simp only [stickyStep] at step
    split at step <;> cases step <;> exact w.quiet rfl fun m id' hm => ⟨rfl, hm⟩
  | purgeBefore cutoff kind =>
    cases step
    exact w.quiet rfl fun m id' hm => ⟨rfl, hm⟩

def NoCallWaits (x : Sticky × History) : Prop :=
  (∀ n, x.1.deleting n = none) ∧ ∀ id, x.2.upsertedAt id = none

theorem Waiting.of_reachable
    (h : Reachable (recording stickyStep noteStatement) NoUpsertBetween NoCallWaits (s, history)) :
    Waiting s history := by
  refine h.invariant (I := fun x => Waiting x.1 x.2) ?_ ?_
  · rintro ⟨s, history⟩ ⟨idle, unwritten⟩
    simp only at idle unwritten
    refine ⟨fun id i hi => ?_, fun n id hn => ?_⟩
    · rw [unwritten id] at hi
      cases hi
    · rw [idle n] at hn
      cases hn
  · intro x act y w alone hstep
    obtain ⟨hsticky, hnote⟩ := recording_eq_some.mp hstep
    rw [hnote]
    exact w.step alone hsticky

/-- As long as no mapping is upserted while a call waits to delete it, every mapping a call
deletes was last upserted before the call read it. -/
theorem expired_delete_spares_upserts
    (h : Reachable (recording stickyStep noteStatement) NoUpsertBetween NoCallWaits (s, history))
    {n : ℕ} (step : stickyStep s (.deleteExpired n) = some s') {id : StickyId}
    {row : StickySession} (there : s.rows id = some row) (gone : s'.rows id = none) :
    Stale history n id := by
  simp only [stickyStep] at step
  split at step <;> cases step
  rename_i id' waits
  simp only [Sticky.setRow, Sticky.setDeleting] at gone
  split at gone
  · rename_i same
    rw [same]
    exact (Waiting.of_reachable h).stale n id' waits
  · rw [there] at gone
    cases gone

/-! ## A refresh between the read and the delete -/

def conversation : StickyId := ("thread", .promptCache)

def oldMapping : Sticky × History :=
  ({ rows := fun id => if id = conversation then some ⟨"a", 0⟩ else none
     deleting := fun _ => none },
    ⟨0, fun _ => none, fun _ => 0⟩)

def afterStatements (acts : List StickyAct) : Sticky × History :=
  (replay (recording stickyStep noteStatement) oldMapping acts).getD oldMapping

def expiredRead : StickyAct := .getAccountId 0 conversation (some 60) 100000000

def mapped : StickyAct := .upsert conversation "b" 20000000

def otherMapped : StickyAct := .upsert ("other", .promptCache) "c" 90000000

/-- The mapping is upserted before the read, and another one between the read and the delete. -/
theorem expired_read_deleted :
    ∃ row, (afterStatements [mapped, expiredRead, otherMapped]).1.rows conversation = some row ∧
      Stale (afterStatements [mapped, expiredRead, otherMapped]).2 0 conversation := by
  have step : stickyStep (afterStatements [mapped, expiredRead, otherMapped]).1 (.deleteExpired 0) =
      some (afterStatements [mapped, expiredRead, otherMapped, .deleteExpired 0]).1 := rfl
  have start : Reachable (recording stickyStep noteStatement) NoUpsertBetween NoCallWaits
      oldMapping := ⟨oldMapping, ⟨fun _ => rfl, fun _ => rfl⟩, .refl _⟩
  have written : Reachable (recording stickyStep noteStatement) NoUpsertBetween NoCallWaits
      (afterStatements [mapped]) :=
    start.tail (a := mapped) (fun n waits => by cases waits) rfl
  have read : Reachable (recording stickyStep noteStatement) NoUpsertBetween NoCallWaits
      (afterStatements [mapped, expiredRead]) := written.tail (a := expiredRead) trivial rfl
  have run : Reachable (recording stickyStep noteStatement) NoUpsertBetween NoCallWaits
      (afterStatements [mapped, expiredRead, otherMapped]) := by
    refine read.tail (a := otherMapped) (fun n waits => ?_) rfl
    have waiting : (afterStatements [mapped, expiredRead]).1.deleting n =
        if n = 0 then some conversation else none := rfl
    rw [waiting] at waits
    split_ifs at waits
    exact absurd (Option.some.inj waits) (by decide)
  have there : (afterStatements [mapped, expiredRead, otherMapped]).1.rows conversation =
      some ⟨"b", 20000000⟩ := by decide
  exact ⟨⟨"b", 20000000⟩, there, expired_delete_spares_upserts run step there (by decide)⟩

/-- The mapping is read as expired, rebound to account "b", and then deleted. -/
def reboundActs : List StickyAct := [expiredRead, .upsert conversation "b" 100000000]

theorem expired_delete_drops_upsert :
    Reachable (recording stickyStep noteStatement) Any NoCallWaits (afterStatements reboundActs) ∧
    stickyStep (afterStatements reboundActs).1 (.deleteExpired 0) =
      some (afterStatements (reboundActs ++ [.deleteExpired 0])).1 ∧
    (afterStatements reboundActs).1.rows conversation = some ⟨"b", 100000000⟩ ∧
    (afterStatements (reboundActs ++ [.deleteExpired 0])).1.rows conversation = none ∧
    ¬ Stale (afterStatements reboundActs).2 0 conversation := by
  refine ⟨reachable_of_replay reboundActs
    (⟨fun _ => rfl, fun _ => rfl⟩ : NoCallWaits oldMapping) (fun _ _ _ => trivial) rfl, rfl,
    by decide, by decide, fun stale => ?_⟩
  exact absurd (stale 1 rfl) (by decide)

end StickySessions
