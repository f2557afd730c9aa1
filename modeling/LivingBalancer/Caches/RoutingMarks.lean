import Mathlib.Data.Finset.Basic
import LivingBalancer.Balancer.Account
import LivingBalancer.Lib.Runs

/-!
# Routing marks and refreshes of the snapshot

`RoutingAvailabilityCache` with any number of refreshes in flight. A refresh notes the
marks and starts its read in one go, its SELECT sees the rows of some later instant, and
it applies them later still. The bump that a mark or a clear requests belongs to the bus.

The ledger holds, for every account, the instant of its last mark that neither a clear
nor a refresh begun after it has removed.
-/

namespace RoutingAvailability

open Runs Balancer

variable {Id : Type}

/-- `_ROUTING_UNAVAILABLE_STATUSES`, or no row at all. -/
def unavailableStatus : Option AccountStatus → Bool
  | some .paused | some .reauthRequired | some .deactivated | none => true
  | some .active | some .rateLimited | some .quotaExceeded => false

/-- A refresh that waits for its rows, and one that has read them. -/
inductive Refresh (Id : Type) where
  | reading (marksBefore : Finset Id)
  | read (marksBefore : Finset Id) (snapshot : Id → Option AccountStatus)

structure Cache (Id : Type) where
  snapshot : Option (Id → Option AccountStatus)
  localMarks : Finset Id
  refreshes : ℕ → Option (Refresh Id)
  rows : Id → Option AccountStatus

inductive Act (Id : Type) where
  | mark (account : Id)
  | clear (account : Id)
  | reset
  | start (n : ℕ)
  | select (n : ℕ)
  | finish (n : ℕ)
  | fail (n : ℕ)
  | commit (account : Id) (status : Option AccountStatus)

section System

variable [DecidableEq Id]

namespace Cache

def setRefresh (s : Cache Id) (n : ℕ) (refresh : Option (Refresh Id)) : Cache Id :=
  { s with refreshes := fun m => if m = n then refresh else s.refreshes m }

/-- `mark_unavailable`. -/
def markUnavailable (s : Cache Id) (account : Id) : Cache Id :=
  { s with localMarks := insert account s.localMarks }

/-- `clear_unavailable`. -/
def clearUnavailable (s : Cache Id) (account : Id) : Cache Id :=
  { s with
    localMarks := s.localMarks.erase account
    snapshot := s.snapshot.map fun statuses id =>
      if id = account then some .active else statuses id }

/-- `is_unavailable`. -/
def isUnavailable (s : Cache Id) (account : Id) : Bool :=
  if account ∈ s.localMarks then true
  else match s.snapshot with
    | none => false
    | some statuses => unavailableStatus (statuses account)

/-- The assignments that end `refresh_from_db`. -/
def applyRows (s : Cache Id) (marksBefore : Finset Id) (snapshot : Id → Option AccountStatus) :
    Cache Id :=
  { s with
    snapshot := some snapshot
    localMarks := s.localMarks.filter fun id =>
      id ∉ marksBefore ∨ unavailableStatus (snapshot id) = true }

end Cache

def step (s : Cache Id) : Act Id → Option (Cache Id)
  | .mark account => some (s.markUnavailable account)
  | .clear account => some (s.clearUnavailable account)
  | .reset => some { s with snapshot := none, localMarks := ∅ }
  | .start n =>
    match s.refreshes n with
    | none => some (s.setRefresh n (some (.reading s.localMarks)))
    | some _ => none
  | .select n =>
    match s.refreshes n with
    | some (.reading marksBefore) => some (s.setRefresh n (some (.read marksBefore s.rows)))
    | _ => none
  | .finish n =>
    match s.refreshes n with
    | some (.read marksBefore snapshot) =>
      some ((s.applyRows marksBefore snapshot).setRefresh n none)
    | _ => none
  | .fail n =>
    match s.refreshes n with
    | some _ => some (s.setRefresh n none)
    | none => none
  | .commit account status =>
    some { s with rows := fun id => if id = account then status else s.rows id }

/-! ## The ledger -/

structure Ledger (Id : Type) where
  instant : ℕ
  markedAt : Id → Option ℕ
  begunAt : ℕ → ℕ

/-- A refresh that began after a mark may remove it. -/
def Ledger.finish (ledger : Ledger Id) (n : ℕ) (marks : Finset Id) : Id → Option ℕ :=
  fun id => (ledger.markedAt id).filter fun t => decide (id ∈ marks ∨ ledger.begunAt n ≤ t)

def note (_ : Cache Id) (act : Act Id) (s' : Cache Id) (ledger : Ledger Id) : Ledger Id :=
  { instant := ledger.instant + 1
    markedAt := match act with
      | .mark account => fun id => if id = account then some ledger.instant else ledger.markedAt id
      | .clear account => fun id => if id = account then none else ledger.markedAt id
      | .reset => fun _ => none
      | .finish n => ledger.finish n s'.localMarks
      | _ => ledger.markedAt
    begunAt := match act with
      | .start n => fun m => if m = n then ledger.instant else ledger.begunAt m
      | _ => ledger.begunAt }

/-- No mark is lost: all that the ledger holds are present. -/
def MarksKept (x : Cache Id × Ledger Id) : Prop :=
  ∀ id t, x.2.markedAt id = some t → id ∈ x.1.localMarks

/-- The condition: a refresh that finishes has read an unavailable status, or no row, of every
account that was marked both when it began and again since. -/
def NoStaleRemark (x : Cache Id × Ledger Id) : Act Id → Prop
  | .finish n => ∀ marksBefore snapshot, x.1.refreshes n = some (.read marksBefore snapshot) →
      ∀ id ∈ marksBefore, ∀ t, x.2.markedAt id = some t → x.2.begunAt n ≤ t →
        unavailableStatus (snapshot id) = true
  | _ => True

/-- A process that was just started. -/
structure Started (x : Cache Id × Ledger Id) : Prop where
  snapshot : x.1.snapshot = none
  localMarks : x.1.localMarks = ∅
  refreshes : ∀ n, x.1.refreshes n = none
  markedAt : ∀ id, x.2.markedAt id = none

/-! ## What a step does to the marks -/

variable {s s' : Cache Id} {ledger : Ledger Id}

theorem marked_unavailable {id : Id} (marked : id ∈ s.localMarks) : s.isUnavailable id = true :=
  if_pos marked

/-- Steps other than a finish keep every mark they leave in the ledger. -/
theorem MarksKept.step (kept : MarksKept (s, ledger)) {act : Act Id}
    (other : ∀ n, act ≠ .finish n) (h : step s act = some s') :
    MarksKept (s', note s act s' ledger) := by
  intro id t marked
  cases act with
  | mark account =>
    cases h
    simp only [note] at marked
    split_ifs at marked with same
    · subst same
      exact Finset.mem_insert_self _ _
    · exact Finset.mem_insert_of_mem (kept id t marked)
  | clear account =>
    cases h
    simp only [note] at marked
    split_ifs at marked with same
    exact Finset.mem_erase.mpr ⟨same, kept id t marked⟩
  | reset => cases marked
  | finish n => exact absurd rfl (other n)
  | commit account status =>
    cases h
    exact kept id t marked
  | start n | select n | fail n =>
    have present := kept id t marked
    simp only [RoutingAvailability.step] at h
    split at h <;> cases h
    exact present

theorem marksKept_finish (kept : MarksKept (s, ledger)) {n : ℕ}
    (h : step s (.finish n) = some s') :
    MarksKept (s', note s (.finish n) s' ledger) ↔ NoStaleRemark (s, ledger) (.finish n) := by
  simp only [step] at h
  split at h <;> cases h
  rename_i marksBefore snapshot hrefresh
  have remains : ∀ id, id ∈ (s.applyRows marksBefore snapshot).localMarks ↔
      id ∈ s.localMarks ∧ (id ∉ marksBefore ∨ unavailableStatus (snapshot id) = true) :=
    fun id => Finset.mem_filter
  constructor
  · intro keeps marksBefore' snapshot' hread id before t marked since
    rw [hrefresh] at hread
    cases hread
    have noted : ledger.finish n (s.applyRows marksBefore snapshot).localMarks id = some t := by
      refine Option.filter_eq_some_iff.mpr ⟨marked, decide_eq_true ?_⟩
      exact .inr since
    have present := keeps id t noted
    rcases ((remains id).mp present).2 with unmarked | unavailable
    · exact absurd before unmarked
    · exact unavailable
  · intro spared id t noted
    obtain ⟨marked, legitimate⟩ := Option.filter_eq_some_iff.mp noted
    rcases of_decide_eq_true legitimate with present | since
    · exact present
    · refine (remains id).mpr ⟨kept id t marked, ?_⟩
      by_cases before : id ∈ marksBefore
      · exact .inr (spared marksBefore snapshot hrefresh id before t marked since)
      · exact .inl before

/-- One step of the recorded system keeps the marks exactly under the condition. -/
theorem MarksKept.recorded {x y : Cache Id × Ledger Id} (kept : MarksKept x) {act : Act Id}
    (h : recording RoutingAvailability.step note x act = some y) :
    MarksKept y ↔ NoStaleRemark x act := by
  obtain ⟨s, ledger⟩ := x
  obtain ⟨s', ledger'⟩ := y
  obtain ⟨hs, hnote⟩ := recording_eq_some.mp h
  obtain rfl : ledger' = note s act s' ledger := hnote
  cases act with
  | finish n => exact marksKept_finish kept hs
  | mark account | clear account | reset | start n | select n | fail n | commit account status =>
    exact iff_of_true (kept.step (fun _ same => nomatch same) hs) trivial

/-- Along every run in which no refresh ends with an available status of an account that was
marked when it began and again since, no mark is lost; and no other step loses one. -/
theorem no_mark_lost {x : Cache Id × Ledger Id}
    (h : Reachable (recording step note) NoStaleRemark Started x) :
    MarksKept x ∧ ∀ act y, recording step note x act = some y →
      (MarksKept y ↔ NoStaleRemark x act) := by
  have kept : MarksKept x := by
    refine h.invariant (fun x start id t marked => ?_)
      fun x act y kept spared hstep => (kept.recorded hstep).mpr spared
    rw [start.markedAt] at marked
    cases marked
  exact ⟨kept, fun act y hstep => kept.recorded hstep⟩

end System

/-! ## Two refreshes -/

def quietStart : Cache ℕ × Ledger ℕ :=
  ({ snapshot := none, localMarks := ∅, refreshes := fun _ => none, rows := fun _ => some .active },
    { instant := 0, markedAt := fun _ => none, begunAt := fun _ => 0 })

theorem quietStart_started : Started quietStart := ⟨rfl, rfl, fun _ => rfl, fun _ => rfl⟩

/-- Account 7 is marked while the refresh that has read it as active is in flight. -/
def newMark : List (Act ℕ) := [.start 0, .select 0, .mark 7]

/-- Account 7 is marked before the refresh begins and again after its rows were read. -/
def secondMark : List (Act ℕ) := [.mark 7, .start 0, .select 0, .mark 7]

def runMarks (acts : List (Act ℕ)) : Cache ℕ × Ledger ℕ :=
  (replay (recording step note) quietStart acts).getD quietStart

theorem new_mark_kept :
    MarksKept (runMarks (newMark ++ [.finish 0])) ∧
      (runMarks (newMark ++ [.finish 0])).1.isUnavailable 7 = true := by
  have marked : Steps (recording step note) NoStaleRemark quietStart (runMarks newMark) := by
    refine steps_of_replay newMark (fun x act hact => ?_) rfl
    simp only [newMark, List.mem_cons, List.not_mem_nil, or_false] at hact
    rcases hact with rfl | rfl | rfl <;> trivial
  have spared : NoStaleRemark (runMarks newMark) (.finish 0) := by
    rintro marksBefore snapshot ⟨⟩ id before
    exact absurd before (Finset.notMem_empty id)
  have run : Reachable (recording step note) NoStaleRemark Started
      (runMarks (newMark ++ [.finish 0])) :=
    ⟨quietStart, quietStart_started, .tail (.finish 0) marked spared rfl⟩
  have kept := (no_mark_lost run).1
  exact ⟨kept, marked_unavailable (kept 7 2 rfl)⟩

/-- Marked at instant 3, after the refresh began at 1, and gone when it finishes. -/
theorem second_mark_lost :
    Reachable (recording step note) Any Started (runMarks (secondMark ++ [.finish 0])) ∧
      (runMarks (secondMark ++ [.finish 0])).2.markedAt 7 = some 3 ∧
      (runMarks (secondMark ++ [.finish 0])).2.begunAt 0 = 1 ∧
      ¬ MarksKept (runMarks (secondMark ++ [.finish 0])) ∧
      (runMarks (secondMark ++ [.finish 0])).1.isUnavailable 7 = false := by
  have run : Reachable (recording step note) Any Started
      (runMarks (secondMark ++ [.finish 0])) :=
    reachable_of_replay (secondMark ++ [.finish 0]) quietStart_started (fun _ _ _ => trivial) rfl
  have lost : ¬ MarksKept (runMarks (secondMark ++ [.finish 0])) := fun kept =>
    absurd (kept 7 3 rfl) (by decide)
  exact ⟨run, rfl, rfl, lost, by decide⟩

end RoutingAvailability
