import LivingBalancer.Lib.GapChains
import LivingBalancer.Lib.GroupTotals
import LivingBalancer.Lib.JsonText
import LivingBalancer.Lib.RunningHigh
import Mathlib.Data.List.Sort
import Mathlib.Data.Rat.Defs

/-!
# Quota consumption

The readings of one bucket, in the order of their times, as `_flush` turns them into consumption:
torn reads are dropped by their neighbours in the list, and the consumption of a fixed window is
what its readings rise above its running high. Percentages are exact and not rounded.
-/

namespace QuotaConsumption

open PyJson GapChains RunningHigh Totals

/-- An item of `ordered`. -/
structure Reading where
  ts : ℤ
  pct : ℚ
  resetsAt : Option ℤ
  deriving DecidableEq

/-- `RESET_JITTER_SECONDS`. -/
def resetJitterSeconds : ℤ := 5

/-- `QUOTA_TORN_READ_MIN_PERCENT`. -/
def quotaTornReadMinPercent : ℚ := 40

/-- `QUOTA_RECOVERY_EPSILON_PERCENT`. -/
def quotaRecoveryEpsilonPercent : ℚ := 1 / 2

inductive Granularity
  | hour
  | day
  deriving DecidableEq

def Granularity.period : Granularity → ℤ
  | .hour => 3600
  | .day => 86400

def periodStart (g : Granularity) (ts : ℤ) : ℤ := ts - ts % g.period

/-! ## Windows -/

/-- Reset times that the polls of one window may report. -/
def Near (a b : ℤ) : Prop := b - a ≤ resetJitterSeconds

instance : DecidableRel Near := fun a b => inferInstanceAs (Decidable (b - a ≤ resetJitterSeconds))

def resets (ordered : List Reading) : List ℤ := ordered.filterMap Reading.resetsAt

/-- `resets_sorted`. -/
def resetsSorted (ordered : List Reading) : List ℤ :=
  (resets ordered).dedup.insertionSort (· ≤ ·)

/-- `reset_epoch.get(resets, resets)`. -/
def resetEpoch (ordered : List Reading) (resetsAt : Option ℤ) : Option ℤ :=
  resetsAt.map (anchorOf Near (resetsSorted ordered))

/-! ## Torn reads -/

/-- The percentage at an index, unless the reading there is missing or of another epoch. -/
def pctAt (epoch : Option ℤ → Option ℤ) (ordered : List Reading) (e : Option ℤ) (i : ℕ) :
    Option ℚ :=
  ((ordered[i]?).filter fun n => epoch n.resetsAt = e).map Reading.pct

/-- `keep[i] = False`. -/
def torn (epoch : Option ℤ → Option ℤ) (ordered : List Reading) (i : ℕ) (r : Reading) : Bool :=
  let e := epoch r.resetsAt
  match pctAt epoch ordered e (i + 1) with
  | none => false
  | some nxt =>
    if r.pct - nxt < quotaTornReadMinPercent then false
    else
      match if i = 0 then none else pctAt epoch ordered e (i - 1) with
      | none => true
      | some prv => decide (quotaTornReadMinPercent ≤ r.pct - prv)

/-- `_drop_torn_reads`. -/
def dropTornReads (epoch : Option ℤ → Option ℤ) (ordered : List Reading) : List Reading :=
  (ordered.zipIdx.filter fun p => !torn epoch ordered p.2 p.1).map Prod.fst

/-! ## Consumption -/

/-- `_quota_history_uses_adjacent_deltas`. -/
def quotaHistoryUsesAdjacentDeltas (provider bucket : Str) (resetsAt : Option ℤ) : Bool :=
  match resetsAt with
  | none => true
  | some _ =>
    decide (provider = text "codex" ∧ (bucket = text "7d" ∨ text "_7d" <:+ bucket))

/-- `_quota_adjacent_consumed_delta`. -/
def quotaAdjacentConsumedDelta (prev pct : ℚ) (priorHigh : Option ℚ) : ℚ :=
  if pct ≤ prev then 0
  else
    let delta :=
      match priorHigh with
      | none => pct - prev
      | some high =>
        if prev < high ∧ high - quotaRecoveryEpsilonPercent ≤ pct then max 0 (pct - high)
        else pct - prev
    if delta ≤ quotaRecoveryEpsilonPercent then 0 else delta

/-- The dictionaries of the loop over the kept readings. -/
structure Tally where
  consumption : Dict ℤ ℚ
  epochHigh : Dict (Option ℤ) ℚ
  epochPrev : Dict (Option ℤ) ℚ

def Tally.start : Tally := ⟨.empty, .empty, .empty⟩

def Tally.consume (t : Tally) (g : Granularity) (ts : ℤ) (delta : ℚ) : Tally :=
  { t with consumption := GroupTotals.add t.consumption (periodStart g ts) delta }

/-- One turn of the loop. -/
def Tally.count (provider bucket : Str) (g : Granularity) (epoch : Option ℤ → Option ℤ)
    (t : Tally) (r : Reading) : Tally :=
  let e := epoch r.resetsAt
  if quotaHistoryUsesAdjacentDeltas provider bucket r.resetsAt then
    let high := t.epochHigh.get e
    let seen := { t with
      epochPrev := t.epochPrev.set e r.pct
      epochHigh := t.epochHigh.set e (high.elim r.pct (max · r.pct)) }
    match t.epochPrev.get e with
    | none => seen
    | some prev =>
      let delta := quotaAdjacentConsumedDelta prev r.pct high
      if delta = 0 then seen else seen.consume g r.ts delta
  else
    match t.epochHigh.get e with
    | none => { t with epochHigh := t.epochHigh.set e r.pct }
    | some prev =>
      if prev < r.pct then
        { t.consume g r.ts (r.pct - prev) with epochHigh := t.epochHigh.set e r.pct }
      else t

/-- The readings that `_flush` keeps. -/
def kept (ordered : List Reading) : List Reading := dropTornReads (resetEpoch ordered) ordered

/-- `consumption` as `_flush` has it at the end of its loop. -/
def consumption (provider bucket : Str) (g : Granularity) (ordered : List Reading) : Dict ℤ ℚ :=
  ((kept ordered).foldl (Tally.count provider bucket g (resetEpoch ordered)) .start).consumption

/-! ## What the windows are owed -/

section Spec

variable {κ : Type} [DecidableEq κ]

/-- The names tell the windows apart: the reset times of a window are joined by gaps of at most
the jitter bound. -/
def NamesWindows (ordered : List Reading) (window : Reading → κ) : Prop :=
  ∀ r ∈ ordered, ∀ r' ∈ ordered, window r = window r' ↔
    ∃ a b, r.resetsAt = some a ∧ r'.resetsAt = some b ∧ Joined Near (resets ordered) a b

/-- The reading before an index that is the last of its window there. -/
def previousOf (window : Reading → κ) (ordered : List Reading) (i : ℕ) (r : Reading) :
    Option Reading :=
  ((ordered.take i).filter fun p => window p = window r).getLast?

/-- A reading may be dropped when the next one of the list is of its window and far below, and so
is the previous one of its window, if there is one. -/
def MayDrop (window : Reading → κ) (ordered : List Reading) (i : ℕ) (r : Reading) : Prop :=
  (∃ n, ordered[i + 1]? = some n ∧ window n = window r ∧
    quotaTornReadMinPercent ≤ r.pct - n.pct) ∧
  ∀ p, previousOf window ordered i r = some p → quotaTornReadMinPercent ≤ r.pct - p.pct

/-- The time lies in the period that starts at `p`. -/
def InPeriod (g : Granularity) (p ts : ℤ) : Prop :=
  p % g.period = 0 ∧ p ≤ ts ∧ ts < p + g.period

instance (g : Granularity) (p ts : ℤ) : Decidable (InPeriod g p ts) :=
  inferInstanceAs (Decidable (_ ∧ _ ∧ _))

/-- The consumption of every period is the rises reached in it, and that of every window its
maximum less its first value. -/
def Consumes (window : Reading → κ) (g : Granularity) (kept : List Reading)
    (consumption : Dict ℤ ℚ) : Prop :=
  (∀ p, (consumption.get p).getD 0 =
    total Prod.snd (fun x => decide (InPeriod g p x.1.ts)) (rises window Reading.pct kept)) ∧
  ∀ r ∈ kept, ∃ first top,
    (valuesOf window Reading.pct kept (window r)).head? = some first ∧
    (valuesOf window Reading.pct kept (window r)).max? = some top ∧
    risen window (window r) (rises window Reading.pct kept) = top - first

/-- No reading that stands right behind another window's is dropped though the previous reading
of its own window is close. -/
def NoFalseLead (window : Reading → κ) (ordered : List Reading) : Prop :=
  ∀ i q r n, ordered[i]? = some q → ordered[i + 1]? = some r → ordered[i + 2]? = some n →
    window q ≠ window r → window n = window r → quotaTornReadMinPercent ≤ r.pct - n.pct →
    ∀ p, previousOf window ordered (i + 1) r = some p → quotaTornReadMinPercent ≤ r.pct - p.pct

/-! ## The epochs name the windows -/

theorem near_convex (a b c d : ℤ) (_ : a ≤ b) (_ : b ≤ c) (_ : c ≤ d) (close : Near a d) :
    Near b c := by
  rw [Near] at close ⊢
  omega

theorem resetsSorted_sorted (ordered : List Reading) :
    (resetsSorted ordered).Pairwise (· < ·) := by
  have sorted : (resetsSorted ordered).Pairwise (· ≤ ·) := List.pairwise_insertionSort _ _
  have nodup : (resetsSorted ordered).Nodup :=
    (List.perm_insertionSort _ _).nodup_iff.mpr (List.nodup_dedup _)
  exact sorted.imp₂ (fun _ _ le ne => lt_of_le_of_ne le ne) nodup

theorem mem_resetsSorted {ordered : List Reading} {a : ℤ} :
    a ∈ resetsSorted ordered ↔ a ∈ resets ordered := by
  rw [resetsSorted, List.mem_insertionSort, List.mem_dedup]

theorem joined_resetsSorted {ordered : List Reading} {a b : ℤ} :
    Joined Near (resetsSorted ordered) a b ↔ Joined Near (resets ordered) a b := by
  simp only [GapChains.Joined, mem_resetsSorted]

/-- The epochs of the code are names of the windows. -/
theorem resetEpoch_namesWindows {ordered : List Reading}
    (timed : ∀ r ∈ ordered, r.resetsAt.isSome = true) :
    NamesWindows ordered fun r => resetEpoch ordered r.resetsAt := by
  intro r hr r' hr'
  obtain ⟨a, ha⟩ := Option.isSome_iff_exists.mp (timed r hr)
  obtain ⟨b, hb⟩ := Option.isSome_iff_exists.mp (timed r' hr')
  have same := anchorOf_eq_iff near_convex (resetsSorted_sorted ordered) (a := a) (b := b)
  rw [joined_resetsSorted] at same
  simp only [resetEpoch, ha, hb, Option.map_some, Option.some.injEq, same]
  constructor
  · intro joined
    exact ⟨a, b, rfl, rfl, joined⟩
  · rintro ⟨_, _, rfl, rfl, joined⟩
    exact joined

omit [DecidableEq κ] in
/-- Any two names of the windows agree on which readings share one. -/
theorem NamesWindows.same {κ' : Type} {ordered : List Reading} {window : Reading → κ}
    {window' : Reading → κ'} (names : NamesWindows ordered window)
    (names' : NamesWindows ordered window') {r r' : Reading} (hr : r ∈ ordered)
    (hr' : r' ∈ ordered) : window r = window r' ↔ window' r = window' r' :=
  (names r hr r' hr').trans (names' r hr r' hr').symm

/-! ## Dropped readings -/

theorem mem_kept {ordered : List Reading} {r : Reading} (h : r ∈ kept ordered) : r ∈ ordered := by
  obtain ⟨p, hp, rfl⟩ := List.mem_map.mp h
  obtain ⟨_, found⟩ := List.mem_zipIdx' (List.mem_filter.mp hp).1
  rw [found]
  exact List.getElem_mem _

omit [DecidableEq κ] in
theorem NamesWindows.timed {ordered : List Reading} {window : Reading → κ}
    (names : NamesWindows ordered window) {r : Reading} (hr : r ∈ ordered) :
    r.resetsAt.isSome = true := by
  obtain ⟨a, -, known, -⟩ := (names r hr r hr).mp rfl
  rw [known]
  rfl

omit [DecidableEq κ] in
theorem NamesWindows.epoch {ordered : List Reading} {window : Reading → κ}
    (names : NamesWindows ordered window) {r r' : Reading} (hr : r ∈ ordered)
    (hr' : r' ∈ ordered) :
    resetEpoch ordered r.resetsAt = resetEpoch ordered r'.resetsAt ↔ window r = window r' :=
  (resetEpoch_namesWindows fun _ h => names.timed h).same names hr hr'

/-! ## Neighbours -/

theorem pctAt_eq_some {epoch : Option ℤ → Option ℤ} {ordered : List Reading} {e : Option ℤ}
    {i : ℕ} {v : ℚ} : pctAt epoch ordered e i = some v ↔
      ∃ n, ordered[i]? = some n ∧ epoch n.resetsAt = e ∧ n.pct = v := by
  rw [pctAt, Option.map_eq_some_iff]
  simp only [Option.filter_eq_some_iff, decide_eq_true_eq, and_assoc]

theorem pctAt_eq_none {epoch : Option ℤ → Option ℤ} {ordered : List Reading} {e : Option ℤ}
    {i : ℕ} : pctAt epoch ordered e i = none ↔
      ∀ n, ordered[i]? = some n → epoch n.resetsAt ≠ e := by
  rw [pctAt, Option.map_eq_none_iff]
  simp only [Option.filter_eq_none_iff, decide_eq_true_eq]

/-- A reading is dropped for its neighbours in the list, of which one may be missing. -/
theorem torn_iff {epoch : Option ℤ → Option ℤ} {ordered : List Reading} {i : ℕ} {r : Reading} :
    torn epoch ordered i r = true ↔
      (∃ n, ordered[i + 1]? = some n ∧ epoch n.resetsAt = epoch r.resetsAt ∧
        quotaTornReadMinPercent ≤ r.pct - n.pct) ∧
      ∀ j q, i = j + 1 → ordered[j]? = some q → epoch q.resetsAt = epoch r.resetsAt →
        quotaTornReadMinPercent ≤ r.pct - q.pct := by
  have lead : (match if i = 0 then none else pctAt epoch ordered (epoch r.resetsAt) (i - 1) with
      | none => true
      | some prv => decide (quotaTornReadMinPercent ≤ r.pct - prv)) = true ↔
      ∀ j q, i = j + 1 → ordered[j]? = some q → epoch q.resetsAt = epoch r.resetsAt →
        quotaTornReadMinPercent ≤ r.pct - q.pct := by
    cases i with
    | zero => simp
    | succ j =>
      rw [if_neg (Nat.succ_ne_zero j), Nat.add_sub_cancel]
      cases before : pctAt epoch ordered (epoch r.resetsAt) j with
      | none =>
        rw [pctAt_eq_none] at before
        simp only [true_iff]
        rintro j' q same found own
        cases same
        exact absurd own (before q found)
      | some prv =>
        obtain ⟨p, found, own, rfl⟩ := pctAt_eq_some.mp before
        simp only [decide_eq_true_eq]
        constructor
        · rintro far j' q same found' -
          cases same
          rw [found] at found'
          cases found'
          exact far
        · intro all
          exact all j p rfl found own
  rw [torn]
  cases after : pctAt epoch ordered (epoch r.resetsAt) (i + 1) with
  | none =>
    rw [pctAt_eq_none] at after
    simp only [Bool.false_eq_true, false_iff]
    rintro ⟨⟨n, found, own, -⟩, -⟩
    exact after n found own
  | some nxt =>
    obtain ⟨n, found, own, rfl⟩ := pctAt_eq_some.mp after
    simp only
    by_cases near : r.pct - n.pct < quotaTornReadMinPercent
    · rw [if_pos near]
      simp only [Bool.false_eq_true, false_iff]
      rintro ⟨⟨n', found', -, far⟩, -⟩
      rw [found] at found'
      cases found'
      exact absurd near (not_lt.mpr far)
    · rw [if_neg near, lead]
      exact ⟨fun h => ⟨⟨n, found, own, not_lt.mp near⟩, h⟩, fun h => h.2⟩

theorem previousOf_adjacent {window : Reading → κ} {ordered : List Reading} {i : ℕ} {q r : Reading}
    (found : ordered[i]? = some q) (own : window q = window r) :
    previousOf window ordered (i + 1) r = some q := by
  rw [previousOf, List.take_add_one, found, Option.toList_some, List.filter_append,
    List.filter_cons_of_pos (by simpa using own), List.filter_nil, List.getLast?_concat]

theorem previousOf_zero {window : Reading → κ} {ordered : List Reading} {r : Reading} :
    previousOf window ordered 0 r = none := rfl

/-- The readings are dropped with a reason exactly when no lead is false. -/
theorem mayDrop_iff {ordered : List Reading} {window : Reading → κ}
    (names : NamesWindows ordered window) :
    (∀ i r, ordered[i]? = some r → torn (resetEpoch ordered) ordered i r = true →
      MayDrop window ordered i r) ↔ NoFalseLead window ordered := by
  constructor
  · intro justified i q r n hq hr hn apart own far p hp
    have mem {k : ℕ} {x : Reading} (h : ordered[k]? = some x) : x ∈ ordered := List.mem_of_getElem? h
    have dropped : torn (resetEpoch ordered) ordered (i + 1) r = true := by
      refine torn_iff.mpr ⟨⟨n, hn, (names.epoch (mem hn) (mem hr)).mpr own, far⟩, ?_⟩
      intro j q' same hq' ownQ
      cases same
      rw [hq] at hq'
      cases hq'
      exact absurd ((names.epoch (mem hq) (mem hr)).mp ownQ) apart
    exact (justified (i + 1) r hr dropped).2 p hp
  · intro noFalse i r hr dropped
    have mem {k : ℕ} {x : Reading} (h : ordered[k]? = some x) : x ∈ ordered := List.mem_of_getElem? h
    obtain ⟨⟨n, hn, ownEpoch, far⟩, lead⟩ := torn_iff.mp dropped
    have own := (names.epoch (mem hn) (mem hr)).mp ownEpoch
    refine ⟨⟨n, hn, own, far⟩, fun p hp => ?_⟩
    cases i with
    | zero =>
      rw [previousOf_zero] at hp
      cases hp
    | succ j =>
      obtain ⟨q, hq⟩ : ∃ q, ordered[j]? = some q := by
        have bound : j + 1 < ordered.length := (List.getElem?_eq_some_iff.mp hr).1
        exact ⟨_, List.getElem?_eq_getElem (by omega)⟩
      by_cases same : window q = window r
      · rw [previousOf_adjacent hq same] at hp
        cases hp
        exact lead j p rfl hq ((names.epoch (mem hq) (mem hr)).mpr same)
      · exact noFalse j q r n hq hr hn same own far p hp

/-! ## The running highs -/

section Loop

variable {provider bucket : Str} {g : Granularity} {epoch : Option ℤ → Option ℤ}

/-- The group of a reading in the loop. -/
def epochOf (epoch : Option ℤ → Option ℤ) (r : Reading) : Option ℤ := epoch r.resetsAt

/-- `d` holds the high of every epoch. -/
def HoldsHighs (epoch : Option ℤ → Option ℤ) (before : List Reading) (d : Dict (Option ℤ) ℚ) :
    Prop :=
  ∀ e, d.get e = high (epochOf epoch) Reading.pct before e

theorem HoldsHighs.set {before : List Reading} {d : Dict (Option ℤ) ℚ} {r : Reading} {v : ℚ}
    (h : HoldsHighs epoch before d)
    (reached : (d.get (epochOf epoch r)).elim r.pct (max · r.pct) = v) :
    HoldsHighs epoch (before ++ [r]) (d.set (epochOf epoch r) v) := by
  intro e
  rw [Dict.get_set, high_concat]
  by_cases own : epochOf epoch r = e
  · rw [if_pos own.symm, if_pos own, ← h, ← own, reached]
  · rw [if_neg (Ne.symm own), if_neg own, h]

theorem HoldsHighs.below {before : List Reading} {d : Dict (Option ℤ) ℚ} {r : Reading} {v : ℚ}
    (h : HoldsHighs epoch before d) (known : d.get (epochOf epoch r) = some v) (le : r.pct ≤ v) :
    HoldsHighs epoch (before ++ [r]) d := by
  intro e
  rw [high_concat]
  by_cases own : epochOf epoch r = e
  · rw [if_pos own, ← h, ← own, known, Option.elim_some, max_eq_left le]
  · rw [if_neg own, h]

/-- The loop collects the rises above the running highs. -/
theorem foldl_count {before rest : List Reading} {t : Tally}
    (fixed : ∀ r ∈ rest, quotaHistoryUsesAdjacentDeltas provider bucket r.resetsAt = false)
    (highs : HoldsHighs epoch before t.epochHigh) :
    (rest.foldl (Tally.count provider bucket g epoch) t).consumption =
      GroupTotals.collect (fun x => periodStart g x.1.ts) Prod.snd t.consumption
        (risesFrom (epochOf epoch) Reading.pct before rest) := by
  induction rest generalizing before t with
  | nil => rfl
  | cons r rest ih =>
    have fixed' := fun r' h => fixed r' (List.mem_cons_of_mem _ h)
    have known : t.epochHigh.get (epoch r.resetsAt) =
        high (epochOf epoch) Reading.pct before (epochOf epoch r) := highs _
    rw [List.foldl_cons, risesFrom, rise, ← known, Tally.count, fixed r List.mem_cons_self]
    simp only [Bool.false_eq_true, if_false]
    cases prior : t.epochHigh.get (epoch r.resetsAt) with
    | none =>
      have reached : (t.epochHigh.get (epoch r.resetsAt)).elim r.pct (max · r.pct) = r.pct := by
        rw [prior, Option.elim_none]
      exact ih fixed' (highs.set reached)
    | some prev =>
      simp only [Option.bind_some]
      by_cases above : prev < r.pct
      · have reached : (t.epochHigh.get (epoch r.resetsAt)).elim r.pct (max · r.pct) = r.pct := by
          rw [prior, Option.elim_some, max_eq_right above.le]
        rw [if_pos above, if_pos above]
        exact ih fixed' (highs.set reached)
      · rw [if_neg above, if_neg above]
        exact ih fixed' (highs.below prior (not_lt.mp above))

end Loop

/-- The dictionary collects the rises of the windows. -/
theorem consumption_eq {provider bucket : Str} {g : Granularity} {ordered : List Reading}
    {window : Reading → κ} (names : NamesWindows ordered window)
    (fixed : ∀ r ∈ ordered, quotaHistoryUsesAdjacentDeltas provider bucket r.resetsAt = false) :
    consumption provider bucket g ordered =
      GroupTotals.collect (fun x => periodStart g x.1.ts) Prod.snd .empty
        (rises window Reading.pct (kept ordered)) := by
  have start : HoldsHighs (resetEpoch ordered) [] Tally.start.epochHigh := fun e => rfl
  rw [consumption, foldl_count (fun r h => fixed r (mem_kept h)) start, rises]
  refine congrArg _ (risesFrom_relabel fun a ha b hb => ?_)
  exact names.epoch (mem_kept ha) (mem_kept hb)

theorem periodStart_eq_iff {g : Granularity} {p ts : ℤ} : periodStart g ts = p ↔ InPeriod g p ts := by
  cases g with
  | hour =>
    simp only [periodStart, InPeriod, Granularity.period]
    omega
  | day =>
    simp only [periodStart, InPeriod, Granularity.period]
    omega

theorem consumes {provider bucket : Str} {g : Granularity} {ordered : List Reading}
    {window : Reading → κ} (names : NamesWindows ordered window)
    (fixed : ∀ r ∈ ordered, quotaHistoryUsesAdjacentDeltas provider bucket r.resetsAt = false) :
    Consumes window g (kept ordered) (consumption provider bucket g ordered) := by
  rw [consumption_eq names fixed]
  constructor
  · intro p
    rw [GroupTotals.collect_get, Dict.get_empty]
    simp only [← periodStart_eq_iff]
    split
    · rw [Option.getD_some, Option.getD_none, zero_add]
    · next absent =>
      refine (total_none fun x hx => decide_eq_false fun same => absent ?_).symm
      exact List.mem_map.mpr ⟨x, hx, same⟩
  · intro r hr
    have own : r.pct ∈ valuesOf window Reading.pct (kept ordered) (window r) :=
      List.mem_map_of_mem (List.mem_filter.mpr ⟨hr, decide_eq_true rfl⟩)
    obtain ⟨first, starts⟩ := Option.isSome_iff_exists.mp
      (List.isSome_head?.mpr (List.ne_nil_of_mem own))
    obtain ⟨top, greatest⟩ := Option.isSome_iff_exists.mp (List.isSome_max?_of_mem own)
    exact ⟨first, top, starts, greatest, risen_rises starts greatest⟩

/-- Every drop has its reason and the consumption is what the windows are owed, exactly when no
reading behind another window's is taken for the first of its window. -/
theorem quota_consumption_iff {provider bucket : Str} (g : Granularity) {ordered : List Reading}
    {window : Reading → κ} (names : NamesWindows ordered window)
    (fixed : ∀ r ∈ ordered, quotaHistoryUsesAdjacentDeltas provider bucket r.resetsAt = false) :
    ((∀ i r, ordered[i]? = some r → torn (resetEpoch ordered) ordered i r = true →
        MayDrop window ordered i r) ∧
      Consumes window g (kept ordered) (consumption provider bucket g ordered)) ↔
      NoFalseLead window ordered := by
  rw [mayDrop_iff names]
  exact ⟨fun h => h.1, fun h => ⟨h, consumes names fixed⟩⟩

end Spec

/-- Readings of two windows; the polls of the first report two reset times. -/
def twoWindows : List Reading :=
  [⟨0, 10, some 18000⟩, ⟨60, 20, some 90000⟩, ⟨120, 35, some 18001⟩]

theorem quota_consumption_two_windows :
    Consumes (fun r => resetEpoch twoWindows r.resetsAt) .hour (kept twoWindows)
      (consumption (text "claude") (text "5h") .hour twoWindows) := by
  have names : NamesWindows twoWindows fun r => resetEpoch twoWindows r.resetsAt :=
    resetEpoch_namesWindows (by decide)
  have fixed : ∀ r ∈ twoWindows,
      quotaHistoryUsesAdjacentDeltas (text "claude") (text "5h") r.resetsAt = false := by decide
  refine ((quota_consumption_iff .hour names fixed).mpr ?_).2
  intro i q r n hq hr hn apart own
  match i with
  | 0 =>
    cases hr
    cases hn
    exact absurd own (by decide)
  | _ + 1 => cases hn

/-- The third reading stands behind another window's and goes, though the first one is its
window's. -/
def falseLead : List Reading :=
  [⟨0, 90, some 18000⟩, ⟨60, 10, some 90000⟩, ⟨120, 95, some 18000⟩, ⟨180, 50, some 18000⟩]

theorem false_lead_dropped :
    NamesWindows falseLead (fun r => resetEpoch falseLead r.resetsAt) ∧
    (∀ r ∈ falseLead,
      quotaHistoryUsesAdjacentDeltas (text "claude") (text "5h") r.resetsAt = false) ∧
    ¬ ∀ i r, falseLead[i]? = some r → torn (resetEpoch falseLead) falseLead i r = true →
      MayDrop (fun r => resetEpoch falseLead r.resetsAt) falseLead i r := by
  refine ⟨resetEpoch_namesWindows (by decide), by decide, fun justified => ?_⟩
  have drop := justified 2 ⟨120, 95, some 18000⟩ rfl (by decide +kernel)
  have close := drop.2 ⟨0, 90, some 18000⟩ (by decide +kernel)
  revert close
  decide +kernel

end QuotaConsumption
