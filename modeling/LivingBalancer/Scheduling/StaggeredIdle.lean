import Mathlib.Data.List.Chain
import Mathlib.Data.Rat.Defs
import LivingBalancer.Lib.Shares

/-!
# Staggered idle warm-ups

`limit_warmup/service.py`: the accounts divide the rolling window among them by rank, and a
refresh warms an idle account up when it evaluates behind the account's slot and did not start
later than a grace behind it. `datetime` values are microseconds since the epoch, which
`naive_utc_to_epoch` rounds down to seconds; the quotient of the offset is exact.
-/

namespace LimitWarmup

open Shares

variable {Id : Type} [LinearOrder Id]

def rollingWindowSecondsDefault : ℕ := 300 * 60

def shortWindowMaxMinutes : ℤ := 24 * 60

def staggerSlotGraceSeconds : ℕ := 60

def naiveUtcToEpoch (dt : ℕ) : ℕ := dt / 1000000

/-- The fields of a `UsageHistory` row that the warm-up reads. -/
structure UsageHistory where
  usedPercent : ℚ
  resetAt : Option ℤ
  windowMinutes : Option ℤ
  recordedAt : Option ℕ

/-- `_rolling_window_seconds`. -/
def rollingWindowSeconds (entry : UsageHistory) : ℕ :=
  match entry.windowMinutes with
  | some minutes => if 0 < minutes then minutes.toNat * 60 else rollingWindowSecondsDefault
  | none => rollingWindowSecondsDefault

structure StaggeredIdleDue where
  cycleEnd : ℤ
  slotOffsetSeconds : ℕ
  deriving DecidableEq

/-- `int(account_index * window_seconds / len(ordered_account_ids))`. -/
def slotOffset (accountId : Id) (accountIds : List Id) (windowSeconds : ℕ) : ℕ :=
  (ranking accountIds).idxOf accountId * windowSeconds / (ranking accountIds).length

/-- `_staggered_idle_due`; `sorted(set(account_ids))` is the ranking. -/
def staggeredIdleDue (accountId : Id) (accountIds : List Id) (now : ℕ) (resetAt : ℤ)
    (intervalStartedAt : Option ℕ) (usageRefreshIntervalSeconds windowSeconds : ℕ) :
    Option StaggeredIdleDue :=
  if accountId ∉ ranking accountIds then none
  else
    let nowEpoch : ℤ := naiveUtcToEpoch now
    let cycleStart := resetAt - windowSeconds
    if nowEpoch < cycleStart ∨ resetAt ≤ nowEpoch then none
    else
      let elapsed := nowEpoch - cycleStart
      let slotOffset := slotOffset accountId accountIds windowSeconds
      let graceSeconds := max staggerSlotGraceSeconds usageRefreshIntervalSeconds
      let intervalStartEpoch : ℤ := min (naiveUtcToEpoch (intervalStartedAt.getD now)) nowEpoch
      let intervalStartElapsed := max 0 (intervalStartEpoch - cycleStart)
      if ¬ (slotOffset : ℤ) ≤ elapsed then none
      else if slotOffset + graceSeconds ≤ intervalStartElapsed then none
      else some ⟨cycleStart + windowSeconds, slotOffset⟩

/-- `_usage_entry_refreshed_for_cycle`. -/
def usageEntryRefreshedForCycle (entry : UsageHistory) (refreshStartedAt : Option ℕ)
    (cycleEnd : ℤ) (windowSeconds : ℕ) : Bool :=
  match entry.recordedAt with
  | none => false
  | some recordedAt =>
    if (recordedAt : ℤ) < (cycleEnd - windowSeconds) * 1000000 then false
    else if entry.resetAt.any fun resetAt => decide (resetAt ≤ cycleEnd - windowSeconds) then false
    else
      match refreshStartedAt with
      | none => true
      | some started => decide (started ≤ recordedAt)

/-- `_build_staggered_idle_candidate`, by the reset time of the candidate. -/
def buildStaggeredIdleCandidate (accountId : Id) (accountIds : List Id) (now : ℕ)
    (after : Option UsageHistory) (refreshStartedAt : Option ℕ)
    (usageRefreshIntervalSeconds : ℕ) (idleThresholdPercent : ℚ) : Option ℤ := do
  let after ← after
  let resetAt ← after.resetAt
  if after.windowMinutes.any fun minutes => decide (shortWindowMaxMinutes < minutes) then none
  else if idleThresholdPercent < after.usedPercent then none
  else
    let due ← staggeredIdleDue accountId accountIds now resetAt refreshStartedAt
      usageRefreshIntervalSeconds (rollingWindowSeconds after)
    if usageEntryRefreshedForCycle after refreshStartedAt due.cycleEnd (rollingWindowSeconds after)
    then some resetAt else none

/-! ## Slots -/

variable {accountIds : List Id} {a b : Id} {windowSeconds : ℕ}

theorem slot_lt {count i j : ℕ} (positive : 0 < count) (few : count ≤ windowSeconds) (before : i < j) :
    i * windowSeconds / count < j * windowSeconds / count := by
  have next : i * windowSeconds + count ≤ j * windowSeconds := by
    have step : (i + 1) * windowSeconds ≤ j * windowSeconds := Nat.mul_le_mul_right _ before
    rw [Nat.add_mul, Nat.one_mul] at step
    omega
  have := Nat.div_le_div_right (c := count) next
  rw [Nat.add_div_right _ positive] at this
  omega

theorem slotOffset_ne (few : (ranking accountIds).length ≤ windowSeconds) (ha : a ∈ accountIds)
    (different : a ≠ b) :
    slotOffset a accountIds windowSeconds ≠ slotOffset b accountIds windowSeconds := by
  have positive : 0 < (ranking accountIds).length :=
    List.length_pos_of_mem (mem_ranking.mpr ha)
  have ranks : (ranking accountIds).idxOf a ≠ (ranking accountIds).idxOf b := fun same =>
    different ((List.idxOf_inj (mem_ranking.mpr ha)).mp same)
  rcases Nat.lt_or_gt_of_ne ranks with before | behind
  · exact Nat.ne_of_lt (slot_lt positive few before)
  · exact Nat.ne_of_gt (slot_lt positive few behind)

theorem slotOffset_lt (few : (ranking accountIds).length ≤ windowSeconds) (ha : a ∈ accountIds) :
    slotOffset a accountIds windowSeconds < windowSeconds := by
  have positive : 0 < (ranking accountIds).length :=
    List.length_pos_of_mem (mem_ranking.mpr ha)
  have rank := List.idxOf_lt_length_of_mem (mem_ranking.mpr ha)
  apply Nat.div_lt_of_lt_mul
  exact Nat.mul_lt_mul_of_pos_right rank (by omega)

/-! ## Refreshes -/

/-- A refresh evaluates no earlier than it starts. -/
structure Refresh where
  startedAt : ℕ
  now : ℕ
  ordered : startedAt ≤ now

/-- The slot of an account as an instant in seconds. -/
def slotTime (a : Id) (accountIds : List Id) (resetAt : ℤ) (windowSeconds : ℕ) : ℤ :=
  resetAt - windowSeconds + slotOffset a accountIds windowSeconds

/-- The instant, in microseconds, is at or behind one in seconds. -/
def Reached (time : ℤ) (now : ℕ) : Prop := time * 1000000 ≤ now

variable {resetAt : ℤ} {interval : ℕ}

def Refresh.Due (r : Refresh) (a : Id) (accountIds : List Id) (resetAt : ℤ)
    (interval windowSeconds : ℕ) : Prop :=
  (staggeredIdleDue a accountIds r.now resetAt (some r.startedAt) interval windowSeconds).isSome

/-- A refresh is due from the slot to the end of the window, if it starts within the grace. -/
theorem due_iff (ha : a ∈ accountIds) (r : Refresh) :
    r.Due a accountIds resetAt interval windowSeconds ↔
      Reached (slotTime a accountIds resetAt windowSeconds) r.now ∧ ¬ Reached resetAt r.now ∧
      ¬ Reached (slotTime a accountIds resetAt windowSeconds
        + (max staggerSlotGraceSeconds interval : ℕ)) r.startedAt := by
  have ranked : ¬ a ∉ ranking accountIds := not_not.mpr (mem_ranking.mpr ha)
  have started : naiveUtcToEpoch r.startedAt = r.startedAt / 1000000 := rfl
  have evaluated : naiveUtcToEpoch r.now = r.now / 1000000 := rfl
  have ordered := r.ordered
  have grace : 0 < staggerSlotGraceSeconds := by decide
  have earlier : min (naiveUtcToEpoch r.startedAt : ℤ) (naiveUtcToEpoch r.now)
      = naiveUtcToEpoch r.startedAt := min_eq_left (by omega)
  rw [Refresh.Due, staggeredIdleDue, if_neg ranked]
  simp only [Reached, slotTime, Option.getD_some, earlier]
  generalize slotOffset a accountIds windowSeconds = offset
  by_cases outside : (naiveUtcToEpoch r.now : ℤ) < resetAt - windowSeconds ∨
      resetAt ≤ naiveUtcToEpoch r.now
  · rw [if_pos outside]
    simp only [Option.isSome_none, Bool.false_eq_true, false_iff]
    omega
  · rw [if_neg outside]
    by_cases reached : (offset : ℤ) ≤ naiveUtcToEpoch r.now - (resetAt - windowSeconds)
    · rw [if_neg (not_not.mpr reached)]
      by_cases late : ((offset : ℤ) + (max staggerSlotGraceSeconds interval : ℕ) : ℤ)
          ≤ max 0 (naiveUtcToEpoch r.startedAt - (resetAt - windowSeconds))
      · rw [if_pos late]
        simp only [Option.isSome_none, Bool.false_eq_true, false_iff]
        omega
      · rw [if_neg late]
        simp only [Option.isSome_some, true_iff]
        omega
    · rw [if_pos reached]
      simp only [Option.isSome_none, Bool.false_eq_true, false_iff]
      omega

/-- A candidate is an idle account of a short window whose refresh is due. -/
theorem buildStaggeredIdleCandidate_due {after : Option UsageHistory} {r : Refresh}
    {idleThresholdPercent : ℚ}
    (h : buildStaggeredIdleCandidate a accountIds r.now after (some r.startedAt) interval
      idleThresholdPercent = some resetAt) :
    ∃ entry, after = some entry ∧ entry.resetAt = some resetAt ∧
      entry.usedPercent ≤ idleThresholdPercent ∧
      r.Due a accountIds resetAt interval (rollingWindowSeconds entry) := by
  obtain ⟨entry, rfl, h⟩ := Option.bind_eq_some_iff.mp h
  obtain ⟨time, known, h⟩ := Option.bind_eq_some_iff.mp h
  split_ifs at h with long busy
  obtain ⟨due, found, h⟩ := Option.bind_eq_some_iff.mp h
  split_ifs at h
  cases h
  exact ⟨entry, rfl, known, not_lt.mp busy, Option.isSome_of_eq_some found⟩

/-- Refreshes in the order of their starts, no two starts further apart than the interval. -/
def Spaced (interval : ℕ) (refreshes : List Refresh) : Prop :=
  refreshes.IsChain fun q r => r.startedAt ≤ q.startedAt + interval * 1000000

/-- A refresh behind one that evaluates before the slot starts within the grace. -/
theorem starts_within_grace {q r : Refresh} {time : ℤ}
    (spaced : r.startedAt ≤ q.startedAt + interval * 1000000) (early : ¬ Reached time q.now) :
    ¬ Reached (time + (max staggerSlotGraceSeconds interval : ℕ)) r.startedAt := by
  have ordered := q.ordered
  have grace : interval ≤ max staggerSlotGraceSeconds interval := Nat.le_max_right _ _
  generalize max staggerSlotGraceSeconds interval = graceSeconds at grace
  simp only [Reached] at early ⊢
  omega

/-- Slots are different seconds of the window. No refresh is due before the slot; the first to
reach it is due, if it has one before it or starts within the grace. -/
theorem staggered_idle (accountIds : List Id) (windowSeconds interval : ℕ) (resetAt : ℤ)
    (few : (ranking accountIds).length ≤ windowSeconds) (a : Id) (ha : a ∈ accountIds) :
    (slotOffset a accountIds windowSeconds < windowSeconds ∧
      ∀ b ∈ accountIds, a ≠ b →
        slotOffset a accountIds windowSeconds ≠ slotOffset b accountIds windowSeconds) ∧
    ∀ refreshes : List Refresh, Spaced interval refreshes →
      (∀ r ∈ refreshes, ¬ Reached (slotTime a accountIds resetAt windowSeconds) r.now →
        ¬ r.Due a accountIds resetAt interval windowSeconds) ∧
      ∀ before r later, refreshes = before ++ r :: later →
        (∀ q ∈ before, ¬ Reached (slotTime a accountIds resetAt windowSeconds) q.now) →
        Reached (slotTime a accountIds resetAt windowSeconds) r.now → ¬ Reached resetAt r.now →
        (r.Due a accountIds resetAt interval windowSeconds ↔
          before ≠ [] ∨ ¬ Reached (slotTime a accountIds resetAt windowSeconds
            + (max staggerSlotGraceSeconds interval : ℕ)) r.startedAt) := by
  refine ⟨⟨slotOffset_lt few ha, fun b _ different => slotOffset_ne few ha different⟩, ?_⟩
  intro refreshes spaced
  refine ⟨fun r _ early due => early ((due_iff ha r).mp due).1, ?_⟩
  intro before r later split first reached inside
  subst split
  rw [due_iff ha]
  constructor
  · exact fun due => .inr due.2.2
  · rintro (preceded | prompt)
    · obtain ⟨front, q, rfl⟩ := List.eq_nil_or_concat before |>.resolve_left preceded
      rw [List.concat_eq_append] at spaced first
      have next : r.startedAt ≤ q.startedAt + interval * 1000000 := by
        rw [Spaced, List.append_assoc, List.singleton_append, List.isChain_append] at spaced
        exact (List.isChain_cons_cons.mp spaced.2.1).1
      exact ⟨reached, inside, starts_within_grace next (first q (by simp))⟩
    · exact ⟨reached, inside, prompt⟩

/-- A refresh an hour into the window that no other precedes. -/
def lateRefresh : Refresh := ⟨3600000000, 3600000000, Nat.le_refl _⟩

/-- The account of the first slot, when a refresh was made before its window began. -/
theorem staggered_idle_preceded :
    (Refresh.mk 18030000000 18040000000 (by decide)).Due 0 [0, 1] 36000 60 18000 := by
  have few : (ranking [0, 1]).length ≤ 18000 := by decide
  have spaced : Spaced 60 [⟨17970000000, 17980000000, by decide⟩,
      ⟨18030000000, 18040000000, by decide⟩] :=
    List.isChain_pair.mpr (by decide)
  have first := ((staggered_idle [0, 1] 18000 60 36000 few 0 (by decide)).2 _ spaced).2 [_] _ []
    rfl
  unfold Reached at first
  exact (first (by decide) (by decide) (by decide)).mpr (.inl (by decide))

/-- The first refresh of all reaches the slot, before the window ends, and is not due. -/
theorem late_start_misses_slot :
    Spaced 60 [lateRefresh] ∧ Reached (slotTime 0 [0] 18000 18000) lateRefresh.now ∧
      ¬ Reached 18000 lateRefresh.now ∧ ¬ lateRefresh.Due 0 [0] 18000 60 18000 := by
  unfold Spaced Reached Refresh.Due
  decide

end LimitWarmup
