import Mathlib.Tactic.Ring
import LivingBalancer.Lib.LocalTime

/-!
# Schedule slots

`compute_latest_due_slot_utc` and `compute_next_run_utc` of automations/service.py. Instants and
wall-clock times are microseconds since the epoch. Two aware datetimes of one zone compare by
wall clock, a constructed datetime has fold 0, and adding a day moves the wall clock.
-/

namespace Automations

open LocalTime

inductive Weekday where
  | mon
  | tue
  | wed
  | thu
  | fri
  | sat
  | sun
  deriving DecidableEq, Repr

/-- `_WEEKDAY_INDEX_TO_CODE`. -/
def weekdayIndexToCode (index : Int) : Weekday :=
  if index = 0 then .mon
  else if index = 1 then .tue
  else if index = 2 then .wed
  else if index = 3 then .thu
  else if index = 4 then .fri
  else if index = 5 then .sat
  else .sun

def Weekday.index : Weekday → Int
  | .mon => 0
  | .tue => 1
  | .wed => 2
  | .thu => 3
  | .fri => 4
  | .sat => 5
  | .sun => 6

def dayLength : Int := 86400000000

/-- The date of a wall-clock time, in days since 1970-01-01, a Thursday. -/
def dateOf (w : Int) : Int := w / dayLength

/-- `_local_weekday_code`. -/
def localWeekdayCode (w : Int) : Weekday := weekdayIndexToCode ((dateOf w + 3) % 7)

/-- A schedule with its time parsed and its days normalized. -/
structure Schedule where
  hour : ℕ
  minute : ℕ
  days : List Weekday
  hour_lt : hour < 24
  minute_lt : minute < 60
  some_day : days ≠ []

/-- The time of day of a schedule. -/
def Schedule.time (s : Schedule) : Int := (s.hour * 60 + s.minute) * 60000000

/-- The schedule time on the date of `local_now`. -/
def localCandidate (s : Schedule) (localNow : Int) : Int := dateOf localNow * dayLength + s.time

/-- The loop over `range(8)`: the first of the following candidates on an allowed day. -/
def firstAllowed (days : List Weekday) (step : Int) : ℕ → Int → Option Int
  | 0, _ => none
  | tries + 1, candidate =>
    if localWeekdayCode candidate ∈ days then some candidate
    else firstAllowed days step tries (candidate + step)

/-- Nothing stands for the `RuntimeError` behind the loop. -/
def computeLatestDueSlotUtc (zone : Zone) (s : Schedule) (nowUtc : Int) : Option Int :=
  let localNow := zone.wall nowUtc
  let candidate := localCandidate s localNow
  let candidate := if localNow < candidate then candidate - dayLength else candidate
  (firstAllowed s.days (-dayLength) 8 candidate).map zone.toUtc

def computeNextRunUtc (zone : Zone) (s : Schedule) (nowUtc : Int) : Option Int :=
  let localNow := zone.wall nowUtc
  let candidate := localCandidate s localNow
  let candidate := if candidate ≤ localNow then candidate + dayLength else candidate
  (firstAllowed s.days dayLength 8 candidate).map zone.toUtc

/-! ## Slots on the wall clock -/

/-- A wall-clock time that a schedule names. -/
def Schedule.Slot (s : Schedule) (w : Int) : Prop :=
  w % dayLength = s.time ∧ localWeekdayCode w ∈ s.days

/-- The last slot that a clock has reached. -/
def Schedule.LastSlot (s : Schedule) (localNow w : Int) : Prop :=
  s.Slot w ∧ w ≤ localNow ∧ ∀ other, s.Slot other → other ≤ localNow → other ≤ w

/-- The first slot that a clock has not reached. -/
def Schedule.NextSlot (s : Schedule) (localNow w : Int) : Prop :=
  s.Slot w ∧ localNow < w ∧ ∀ other, s.Slot other → localNow < other → w ≤ other

theorem Schedule.time_range (s : Schedule) : 0 ≤ s.time ∧ s.time < dayLength := by
  have hour := s.hour_lt
  have minute := s.minute_lt
  rw [time, dayLength]
  omega

theorem weekdayIndexToCode_index (day : Weekday) : weekdayIndexToCode day.index = day := by
  cases day <;> rfl

theorem Weekday.index_range (day : Weekday) : 0 ≤ day.index ∧ day.index < 7 := by
  cases day <;> decide

theorem dateOf_add (w k : Int) : dateOf (w + k * dayLength) = dateOf w + k := by
  rw [dateOf, dateOf, dayLength]
  omega

/-- Within a week of days there is an allowed one, whichever way the days are walked. -/
theorem allowed_within (s : Schedule) (w sign : Int) (unit : sign = 1 ∨ sign = -1) :
    ∃ k : ℕ, k < 7 ∧ localWeekdayCode (w + k * (sign * dayLength)) ∈ s.days := by
  obtain ⟨day, hday⟩ := List.exists_mem_of_ne_nil s.days s.some_day
  have range := day.index_range
  refine ⟨(sign * (day.index - (dateOf w + 3)) % 7).toNat, by omega, ?_⟩
  have date (k : ℕ) : localWeekdayCode (w + k * (sign * dayLength)) =
      weekdayIndexToCode ((dateOf w + k * sign + 3) % 7) := by
    rw [localWeekdayCode, ← mul_assoc, dateOf_add]
  have same : (dateOf w + (sign * (day.index - (dateOf w + 3)) % 7).toNat * sign + 3) % 7 =
      day.index := by
    obtain rfl | rfl := unit <;> omega
  rw [date, same, weekdayIndexToCode_index]
  exact hday

/-- The loop returns the first allowed candidate when there is one among its tries. -/
theorem firstAllowed_spec {days : List Weekday} {step : Int} {tries : ℕ} {candidate : Int}
    (found : ∃ k : ℕ, k < tries ∧ localWeekdayCode (candidate + k * step) ∈ days) :
    ∃ k : ℕ, firstAllowed days step tries candidate = some (candidate + k * step) ∧
      localWeekdayCode (candidate + k * step) ∈ days ∧
      ∀ i : ℕ, i < k → localWeekdayCode (candidate + i * step) ∉ days := by
  induction tries generalizing candidate with
  | zero =>
    obtain ⟨k, bound, _⟩ := found
    omega
  | succ tries ih =>
    rw [firstAllowed]
    by_cases here : localWeekdayCode candidate ∈ days
    · refine ⟨0, ?_, ?_, fun i hi => absurd hi (Nat.not_lt_zero i)⟩ <;> simp [here]
    · have shift (i : ℕ) : candidate + step + i * step = candidate + (i + 1 : ℕ) * step := by
        push_cast
        ring
      obtain ⟨k, bound, allowed⟩ := found
      cases k with
      | zero => simp [here] at allowed
      | succ k =>
        obtain ⟨j, result, at_, before⟩ := ih ⟨k, by omega, by rw [shift]; exact allowed⟩
        rw [shift] at result at_
        refine ⟨j + 1, by rw [if_neg here, result], at_, fun i hi => ?_⟩
        cases i with
        | zero => simpa using here
        | succ i =>
          have skipped := before i (by omega)
          rwa [shift] at skipped

theorem localCandidate_mod (s : Schedule) (localNow k : Int) :
    (localCandidate s localNow + k * dayLength) % dayLength = s.time := by
  have range := s.time_range
  rw [localCandidate]
  rw [dayLength] at range ⊢
  omega

theorem localCandidate_bounds (s : Schedule) (localNow : Int) :
    localNow - dayLength < localCandidate s localNow ∧
      localCandidate s localNow < localNow + dayLength := by
  have range := s.time_range
  rw [localCandidate, dateOf]
  rw [dayLength] at range ⊢
  omega

/-- The walk back from a candidate that the clock has just reached ends at the last slot. -/
theorem firstAllowed_last (s : Schedule) {localNow c : Int} (aligned : c % dayLength = s.time)
    (reached : c ≤ localNow) (last : localNow < c + dayLength) :
    ∃ w, firstAllowed s.days (-dayLength) 8 c = some w ∧ s.LastSlot localNow w := by
  obtain ⟨k, bound, allowed⟩ := allowed_within s c (-1) (Or.inr rfl)
  rw [Int.neg_one_mul] at allowed
  obtain ⟨j, found, day, before⟩ := firstAllowed_spec ⟨k, Nat.lt_succ_of_lt bound, allowed⟩
  refine ⟨_, found, ⟨?_, day⟩, ?_, ?_⟩
  · rw [dayLength] at aligned ⊢
    omega
  · rw [dayLength]
    omega
  · rintro other ⟨same, allowed⟩ early
    by_contra later
    have steps : other = c + ((c - other) / dayLength).toNat * -dayLength := by
      rw [dayLength] at aligned same last later ⊢
      omega
    have skipped := before ((c - other) / dayLength).toNat (by
      rw [dayLength] at aligned same last later ⊢
      omega)
    rw [← steps] at skipped
    exact skipped allowed

/-- The walk on from a candidate just ahead of the clock ends at the next slot. -/
theorem firstAllowed_next (s : Schedule) {localNow c : Int} (aligned : c % dayLength = s.time)
    (ahead : localNow < c) (next : c ≤ localNow + dayLength) :
    ∃ w, firstAllowed s.days dayLength 8 c = some w ∧ s.NextSlot localNow w := by
  obtain ⟨k, bound, allowed⟩ := allowed_within s c 1 (Or.inl rfl)
  rw [Int.one_mul] at allowed
  obtain ⟨j, found, day, before⟩ := firstAllowed_spec ⟨k, Nat.lt_succ_of_lt bound, allowed⟩
  refine ⟨_, found, ⟨?_, day⟩, ?_, ?_⟩
  · rw [dayLength] at aligned ⊢
    omega
  · rw [dayLength]
    omega
  · rintro other ⟨same, allowed⟩ late
    by_contra earlier
    have steps : other = c + ((other - c) / dayLength).toNat * dayLength := by
      rw [dayLength] at aligned same next earlier ⊢
      omega
    have skipped := before ((other - c) / dayLength).toNat (by
      rw [dayLength] at aligned same next earlier ⊢
      omega)
    rw [← steps] at skipped
    exact skipped allowed

theorem computeLatestDueSlotUtc_spec (zone : Zone) (s : Schedule) (nowUtc : Int) :
    ∃ w, s.LastSlot (zone.wall nowUtc) w ∧
      computeLatestDueSlotUtc zone s nowUtc = some (zone.toUtc w) := by
  have bounds := localCandidate_bounds s (zone.wall nowUtc)
  have aligned := localCandidate_mod s (zone.wall nowUtc)
  rw [computeLatestDueSlotUtc]
  by_cases ahead : zone.wall nowUtc < localCandidate s (zone.wall nowUtc)
  · have yesterday := aligned (-1)
    rw [Int.neg_one_mul, ← Int.sub_eq_add_neg] at yesterday
    obtain ⟨w, found, last⟩ := firstAllowed_last s yesterday (by omega)
      (show zone.wall nowUtc < _ by omega)
    exact ⟨w, last, by simp only [if_pos ahead, found, Option.map_some]⟩
  · have today := aligned 0
    rw [Int.zero_mul, Int.add_zero] at today
    obtain ⟨w, found, last⟩ := firstAllowed_last s today (Int.not_lt.mp ahead)
      (show zone.wall nowUtc < _ by omega)
    exact ⟨w, last, by simp only [if_neg ahead, found, Option.map_some]⟩

theorem computeNextRunUtc_spec (zone : Zone) (s : Schedule) (nowUtc : Int) :
    ∃ w, s.NextSlot (zone.wall nowUtc) w ∧
      computeNextRunUtc zone s nowUtc = some (zone.toUtc w) := by
  have bounds := localCandidate_bounds s (zone.wall nowUtc)
  have aligned := localCandidate_mod s (zone.wall nowUtc)
  rw [computeNextRunUtc]
  by_cases reached : localCandidate s (zone.wall nowUtc) ≤ zone.wall nowUtc
  · have tomorrow := aligned 1
    rw [Int.one_mul] at tomorrow
    obtain ⟨w, found, next⟩ := firstAllowed_next s tomorrow (show zone.wall nowUtc < _ by omega)
      (by omega)
    exact ⟨w, next, by simp only [if_pos reached, found, Option.map_some]⟩
  · have today := aligned 0
    rw [Int.zero_mul, Int.add_zero] at today
    obtain ⟨w, found, next⟩ := firstAllowed_next s today (Int.not_le.mp reached) (by omega)
    exact ⟨w, next, by simp only [if_neg reached, found, Option.map_some]⟩

/-! ## Slots and clock changes -/

/-- At an instant both results are on time and on allowed days. -/
def OnTime (zone : Zone) (s : Schedule) (nowUtc : Int) : Prop :=
  ∃ due next, computeLatestDueSlotUtc zone s nowUtc = some due ∧
    computeNextRunUtc zone s nowUtc = some next ∧ due ≤ nowUtc ∧ nowUtc < next ∧
    localWeekdayCode (zone.wall due) ∈ s.days ∧ localWeekdayCode (zone.wall next) ∈ s.days

/-- The results at two instants are on time, and the due slot has not gone back. -/
structure SlotsInOrder (zone : Zone) (s : Schedule) (n m : Int) : Prop where
  earlier : OnTime zone s n
  later : OnTime zone s m
  forward : ∀ due due', computeLatestDueSlotUtc zone s n = some due →
    computeLatestDueSlotUtc zone s m = some due' → due ≤ due'

/-- No clock change upsets the slots around an instant. -/
structure Undisturbed (zone : Zone) (s : Schedule) (nowUtc : Int) : Prop where
  /-- The last slot is not one that a gap skipped, read as an instant still to come. -/
  skipped : ∀ t old new slot, zone.Shifts t old new → t ≤ nowUtc →
    s.LastSlot (zone.wall nowUtc) slot → t + old ≤ slot → slot < t + new → slot - old ≤ nowUtc
  /-- No slot ahead on the clock was shown before the clock was set back. -/
  repeated : ∀ t old new slot, zone.Shifts t old new → t ≤ nowUtc → s.Slot slot →
    zone.wall nowUtc < slot → t + old ≤ slot
  /-- A gap moves neither of the slots around the instant to a day that is not allowed. -/
  moved : ∀ t old new slot, zone.Shifts t old new →
    s.LastSlot (zone.wall nowUtc) slot ∨ s.NextSlot (zone.wall nowUtc) slot →
    t + old ≤ slot → slot < t + new → localWeekdayCode (zone.wall (slot - old)) ∈ s.days

variable {zone : Zone} {s : Schedule} {nowUtc : Int}

theorem Schedule.LastSlot.eq {localNow v w : Int} (hv : s.LastSlot localNow v)
    (hw : s.LastSlot localNow w) : v = w :=
  le_antisymm (hw.2.2 v hv.1 hv.2.1) (hv.2.2 w hw.1 hw.2.1)

theorem Schedule.NextSlot.eq {localNow v w : Int} (hv : s.NextSlot localNow v)
    (hw : s.NextSlot localNow w) : v = w :=
  le_antisymm (hv.2.2 w hw.1 hw.2.1) (hw.2.2 v hv.1 hv.2.1)

theorem lastSlot_due {w : Int} (last : s.LastSlot (zone.wall nowUtc) w) :
    zone.toUtc w ≤ nowUtc ↔ ∀ t old new slot, zone.Shifts t old new → t ≤ nowUtc →
      s.LastSlot (zone.wall nowUtc) slot → t + old ≤ slot → slot < t + new →
      slot - old ≤ nowUtc := by
  constructor
  · intro due t old new slot shift past other inside gap
    obtain rfl := other.eq last
    by_contra late
    have ahead := (zone.lt_toUtc_iff last.2.1).mpr
      ⟨t, old, new, shift, past, inside, gap, Int.not_le.mp late⟩
    omega
  · intro calm
    by_contra ahead
    obtain ⟨t, old, new, shift, past, inside, gap, late⟩ :=
      (zone.lt_toUtc_iff last.2.1).mp (Int.not_le.mp ahead)
    have early := calm t old new w shift past last inside gap
    omega

theorem nextSlot_ahead {w : Int} (next : s.NextSlot (zone.wall nowUtc) w) :
    nowUtc < zone.toUtc w ↔ ∀ t old new slot, zone.Shifts t old new → t ≤ nowUtc →
      s.Slot slot → zone.wall nowUtc < slot → t + old ≤ slot := by
  constructor
  · intro ahead t old new slot shift past named unreached
    by_contra shown
    have first := next.2.2 slot named unreached
    have passed := (zone.toUtc_le_iff next.2.1).mpr ⟨t, old, new, shift, past, by omega⟩
    omega
  · intro calm
    by_contra passed
    obtain ⟨t, old, new, shift, past, shown⟩ :=
      (zone.toUtc_le_iff next.2.1).mp (Int.not_lt.mp passed)
    have later := calm t old new w shift past next.1 next.2.1
    omega

/-- A slot falls on an allowed day unless a gap moves it. -/
theorem slot_day {w : Int} (named : s.Slot w) :
    localWeekdayCode (zone.wall (zone.toUtc w)) ∈ s.days ↔
      ∀ t old new, zone.Shifts t old new → t + old ≤ w → w < t + new →
        localWeekdayCode (zone.wall (w - old)) ∈ s.days := by
  constructor
  · intro allowed t old new shift inside gap
    rwa [zone.toUtc_gap shift inside gap] at allowed
  · intro moved
    by_cases skipped : ∃ t old new, zone.Shifts t old new ∧ t + old ≤ w ∧ w < t + new
    · obtain ⟨t, old, new, shift, inside, gap⟩ := skipped
      rw [zone.toUtc_gap shift inside gap]
      exact moved t old new shift inside gap
    · rw [zone.wall_toUtc fun t old new shift inside => by
        by_contra gap
        exact skipped ⟨t, old, new, shift, inside, Int.not_le.mp gap⟩]
      exact named.2

theorem onTime_iff : OnTime zone s nowUtc ↔ Undisturbed zone s nowUtc := by
  obtain ⟨v, last, due_⟩ := computeLatestDueSlotUtc_spec zone s nowUtc
  obtain ⟨w, next, next_⟩ := computeNextRunUtc_spec zone s nowUtc
  constructor
  · rintro ⟨due, run, hdue, hrun, past, ahead, dueDay, runDay⟩
    obtain rfl := Option.some.inj (due_.symm.trans hdue)
    obtain rfl := Option.some.inj (next_.symm.trans hrun)
    refine ⟨(lastSlot_due last).mp past, (nextSlot_ahead next).mp ahead, ?_⟩
    rintro t old new slot shift (other | other) inside gap
    · obtain rfl := other.eq last
      exact (slot_day last.1).mp dueDay t old new shift inside gap
    · obtain rfl := other.eq next
      exact (slot_day next.1).mp runDay t old new shift inside gap
  · intro calm
    refine ⟨_, _, due_, next_, (lastSlot_due last).mpr calm.skipped,
      (nextSlot_ahead next).mpr calm.repeated, ?_, ?_⟩
    · exact (slot_day last.1).mpr fun t old new shift inside gap =>
        calm.moved t old new v shift (Or.inl last) inside gap
    · exact (slot_day next.1).mpr fun t old new shift inside gap =>
        calm.moved t old new w shift (Or.inr next) inside gap

/-- The due slot does not go back between two undisturbed instants. -/
theorem due_forward {n m : Int} (order : n ≤ m) (earlier : Undisturbed zone s n)
    (later : Undisturbed zone s m) {v w : Int} (hv : s.LastSlot (zone.wall n) v)
    (hw : s.LastSlot (zone.wall m) w) : zone.toUtc v ≤ zone.toUtc w := by
  have due := (lastSlot_due hv).mpr earlier.skipped
  by_cases reached : v ≤ zone.wall m
  · rcases Int.lt_or_eq_of_le (hw.2.2 v hv.1 reached) with less | rfl
    · -- the later slot had not come at the earlier instant
      have unreached : zone.wall n < w := by
        by_contra shown
        have most := hv.2.2 w hw.1 (Int.not_lt.mp shown)
        omega
      have ahead : n < zone.toUtc w := by
        by_contra passed
        obtain ⟨t, old, new, shift, past, shown⟩ :=
          (zone.toUtc_le_iff unreached).mp (Int.not_lt.mp passed)
        have calm := earlier.repeated t old new w shift past hw.1 unreached
        omega
      omega
    · exact le_refl _
  · -- the clock was set back over the slot of the earlier instant
    obtain ⟨t, old, new, shift, past, shown⟩ :=
      (zone.toUtc_le_iff (Int.not_le.mp reached)).mp (le_trans due order)
    have calm := later.repeated t old new v shift past hv.1 (Int.not_le.mp reached)
    omega

/-- The results at two instants are in order exactly when no clock change upsets the slots
around either. -/
theorem slots_in_order_iff (zone : Zone) (s : Schedule) {n m : Int} (order : n ≤ m) :
    SlotsInOrder zone s n m ↔ Undisturbed zone s n ∧ Undisturbed zone s m := by
  constructor
  · exact fun inOrder => ⟨onTime_iff.mp inOrder.earlier, onTime_iff.mp inOrder.later⟩
  · rintro ⟨earlier, later⟩
    refine ⟨onTime_iff.mpr earlier, onTime_iff.mpr later, fun due due' hdue hdue' => ?_⟩
    obtain ⟨v, hv, found⟩ := computeLatestDueSlotUtc_spec zone s n
    obtain ⟨w, hw, found'⟩ := computeLatestDueSlotUtc_spec zone s m
    obtain rfl := Option.some.inj (found.symm.trans hdue)
    obtain rfl := Option.some.inj (found'.symm.trans hdue')
    exact due_forward order earlier later hv hw

/-- A zone whose clock is set back from 03:00 to 02:00 on 2024-10-27. -/
def setBackZone : Zone := ⟨7200000000, [⟨1729990800000000, 3600000000⟩], trivial⟩

def halfPastTwo : Schedule :=
  { hour := 2, minute := 30, days := [.mon, .tue, .wed, .thu, .fri, .sat, .sun],
    hour_lt := by decide, minute_lt := by decide, some_day := by decide }

theorem slots_in_order_iff_summer :
    SlotsInOrder setBackZone halfPastTwo 1729900000000000 1729989900000000 ∧
      computeLatestDueSlotUtc setBackZone halfPastTwo 1729989900000000 =
        some 1729989000000000 := by
  have calm (now : Int) (summer : now < 1729990800000000) :
      Undisturbed setBackZone halfPastTwo now := by
    refine ⟨?_, ?_, ?_⟩
    · rintro t old new slot (⟨rfl, rfl, rfl⟩ | shift) past
      · exact absurd past (Int.not_le.mpr summer)
      · cases shift
    · rintro t old new slot (⟨rfl, rfl, rfl⟩ | shift) past
      · exact absurd past (Int.not_le.mpr summer)
      · cases shift
    · rintro t old new slot (⟨rfl, rfl, rfl⟩ | shift) _ inside gap
      · exact absurd (Int.lt_of_le_of_lt inside gap) (by decide)
      · cases shift
  exact ⟨(slots_in_order_iff setBackZone halfPastTwo (by decide)).mpr
    ⟨calm _ (by decide), calm _ (by decide)⟩, by decide +kernel⟩

/-- At 02:45 the slot of 02:30 is due; 25 minutes later, at 02:10 in the second pass, that of
the day before is. -/
theorem set_back_replaces_due_slot :
    (1729989900000000 : Int) ≤ 1729991400000000 ∧
      ¬ SlotsInOrder setBackZone halfPastTwo 1729989900000000 1729991400000000 := by
  refine ⟨by decide, fun inOrder => ?_⟩
  have back := inOrder.forward 1729989000000000 1729902600000000 (by decide +kernel)
    (by decide +kernel)
  exact absurd back (by decide)

end Automations
