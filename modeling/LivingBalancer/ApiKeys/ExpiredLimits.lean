import LivingBalancer.ApiKeys.Accounting
import Mathlib.Order.Bounds.Basic
import Mathlib.Tactic.Linarith
import Mathlib.Tactic.Positivity
import Mathlib.Tactic.Ring

/-!
# The sweep of expired limits

`reset_expired_limits` beside the guarded resets of other replicas: `_lazy_reset_expired_limits`
of a request and the sweep of another leader. Before each of its statements the sweep waits,
and any list of resets by others comes first. A row that another session has locked makes the
`UPDATE` wait for the commit and look at the row again, so the order in which the resets take
effect is all that counts. No reset changes the window of a row.
-/

namespace ExpiredLimits

open ApiKeys

/-- `_EXPIRED_LIMIT_RESET_BATCH_SIZE`. -/
def expiredLimitResetBatchSize : Nat := 500

/-- `api_key_limits`; `order` is the order in which the rows come back unsorted. -/
structure LimitTable where
  order : List Nat
  limits : Nat → Option Limit
  order_nodup : order.Nodup
  listed : ∀ id, (limits id).isSome → id ∈ order

def LimitTable.snapshot (t : LimitTable) : Snapshot where
  keys := fun _ => none
  limits := t.limits
  reservations := fun _ => none
  limitIds := t.order
  drawn := []

/-- The `SELECT` of a batch. -/
def LimitTable.expiredLimits (t : LimitTable) (now : Int) : List (Nat × Limit) :=
  t.snapshot.expiredLimits t.order now expiredLimitResetBatchSize

/-- What a reset leaves in a row. -/
def restarted (new : Int) (row : Limit) : Limit :=
  { row with currentValue := 0, resetAt := new, windowStart := 0 }

def LimitTable.put (t : LimitTable) (id : Nat) (row : Limit) (present : (t.limits id).isSome) :
    LimitTable where
  order := t.order
  limits := fun id' => if id' = id then some row else t.limits id'
  order_nodup := t.order_nodup
  listed := by
    intro id' h
    by_cases same : id' = id
    · rw [same]
      exact t.listed id present
    · rw [if_neg same] at h
      exact t.listed id' h

/-- `UPDATE … SET current_value = 0, reset_at = … WHERE id = … AND reset_at = … RETURNING id`:
the table afterwards, and whether a row came back. -/
def LimitTable.reset (t : LimitTable) (id : Nat) (expected : Int) (new : Limit → Int) :
    LimitTable × Bool :=
  match found : t.limits id with
  | none => (t, false)
  | some row =>
    if row.resetAt = expected then
      (t.put id (restarted (new row) row) (by rw [found]; rfl), true)
    else (t, false)

/-- A guarded reset by another replica, which read the row as expired by its own clock. -/
structure OtherReset where
  id : Nat
  expected : Int
  clock : Int
  expired : expected < clock

def LimitTable.otherReset (t : LimitTable) (other : OtherReset) : LimitTable :=
  (t.reset other.id other.expected fun row =>
    advanceLimitReset other.expected other.clock row.limitWindow).1

/-- An `UPDATE` of the sweep that returned its row. -/
structure SweptReset where
  id : Nat
  written : Int
  deriving DecidableEq

/-- `resets` are the updates that `reset_count` has counted; `sent` numbers the statements. -/
structure Sweep where
  table : LimitTable
  sent : Nat
  resets : List SweptReset

/-- What the other replicas reset before each statement of the sweep. -/
abbrev Others := Nat → List OtherReset

def Sweep.await (others : Others) (s : Sweep) : Sweep :=
  { s with table := (others s.sent).foldl LimitTable.otherReset s.table, sent := s.sent + 1 }

/-- One round of `for limit in expired_limits`. -/
def Sweep.resetRow (others : Others) (now : Int) (s : Sweep) (limit : Nat × Limit) : Sweep :=
  let s := s.await others
  let new := advanceLimitReset limit.2.resetAt now limit.2.limitWindow
  match s.table.reset limit.1 limit.2.resetAt fun _ => new with
  | (table, true) => { s with table := table, resets := s.resets ++ [⟨limit.1, new⟩] }
  | (_, false) => s

/-! ## The loop of `advance_limit_reset` -/

/-- The moments a limit's window ends at. -/
def windowEnds (resetAt : Int) (window : LimitWindow) : Set Int :=
  {t | ∃ windows : Nat, t = resetAt + windows * limitWindowDelta window}

/-- Once the loop has left `now` behind, further rounds change nothing. -/
theorem advanceLoop_spec {delta now : Int} (positive : 0 < delta) (rounds : Nat) (next : Int)
    (enough : now - next < rounds) :
    now < advanceLoop delta now rounds next ∧
      (∃ windows : Nat, advanceLoop delta now rounds next = next + windows * delta ∧
        ∀ fewer < windows, next + fewer * delta ≤ now) ∧
      advanceLoop delta now (rounds + 1) next = advanceLoop delta now rounds next := by
  induction rounds generalizing next with
  | zero =>
    have past : ¬ next ≤ now := by omega
    refine ⟨not_le.mp past, ⟨0, by simp [advanceLoop], ?_⟩, by simp [advanceLoop, past]⟩
    intro fewer h
    omega
  | succ rounds ih =>
    by_cases elapsed : next ≤ now
    · obtain ⟨past, ⟨windows, ends, before⟩, stable⟩ := ih (next + delta) (by omega)
      rw [advanceLoop, if_pos elapsed, advanceLoop, if_pos elapsed]
      refine ⟨past, ⟨windows + 1, ?_, ?_⟩, stable⟩
      · rw [ends]
        push_cast
        ring
      · intro fewer h
        cases fewer with
        | zero => simpa using elapsed
        | succ fewer =>
          have earlier := before fewer (Nat.lt_of_succ_lt_succ h)
          push_cast
          linarith
    · rw [advanceLoop, if_neg elapsed, advanceLoop, if_neg elapsed]
      refine ⟨not_le.mp elapsed, ⟨0, by simp, ?_⟩, rfl⟩
      intro fewer h
      omega

/-- The loop ends: from some number of rounds on the result is the same. -/
theorem advanceLoop_ends (resetAt now : Int) (window : LimitWindow) :
    ∃ rounds, ∀ more, rounds ≤ more →
      advanceLoop (limitWindowDelta window) now more resetAt = advanceLimitReset resetAt now window := by
  refine ⟨(now - resetAt + 1).toNat, ?_⟩
  intro more h
  induction more, h using Nat.le_induction with
  | base => rfl
  | succ more h ih =>
    have enough : now - resetAt < more := by omega
    rw [(advanceLoop_spec (limitWindowDelta_pos window) more resetAt enough).2.2, ih]

theorem advanceLimitReset_spec (resetAt now : Int) (window : LimitWindow) :
    now < advanceLimitReset resetAt now window ∧
      ∃ windows : Nat, advanceLimitReset resetAt now window =
        resetAt + windows * limitWindowDelta window ∧
        ∀ fewer < windows, resetAt + fewer * limitWindowDelta window ≤ now := by
  have spec := advanceLoop_spec (limitWindowDelta_pos window) (now - resetAt + 1).toNat resetAt
    (by omega : now - resetAt < _)
  exact ⟨spec.1, spec.2.1⟩

theorem advanceLimitReset_least (resetAt now : Int) (window : LimitWindow) :
    IsLeast {t | t ∈ windowEnds resetAt window ∧ now < t} (advanceLimitReset resetAt now window) := by
  obtain ⟨past, windows, ends, before⟩ := advanceLimitReset_spec resetAt now window
  refine ⟨⟨⟨windows, ends⟩, past⟩, ?_⟩
  rintro t ⟨⟨other, rfl⟩, later⟩
  rw [ends]
  have enough : windows ≤ other := by
    by_contra fewer
    exact absurd (before other (not_le.mp fewer)) (not_le.mpr later)
  have positive := limitWindowDelta_pos window
  gcongr

/-! ## Resets only move rows ahead -/

/-- A row moves by whole windows, and starts over when it does. -/
inductive Moved (row : Limit) : Limit → Prop where
  | still : Moved row row
  | ahead (windows : Nat) (some_window : 0 < windows) :
      Moved row (restarted (row.resetAt + windows * limitWindowDelta row.limitWindow) row)

theorem Moved.window {row row' : Limit} (h : Moved row row') :
    row'.limitWindow = row.limitWindow := by
  cases h with
  | still => rfl
  | ahead => rfl

theorem Moved.le {row row' : Limit} (h : Moved row row') : row.resetAt ≤ row'.resetAt := by
  cases h with
  | still => exact le_refl _
  | ahead windows =>
    have positive := limitWindowDelta_pos row.limitWindow
    have gained : 0 ≤ (windows : Int) * limitWindowDelta row.limitWindow := by positivity
    exact Int.le_add_of_nonneg_right gained

theorem Moved.trans {row row' row'' : Limit} (first : Moved row row') (second : Moved row' row'') :
    Moved row row'' := by
  cases first with
  | still => exact second
  | ahead windows some_window =>
    cases second with
    | still => exact .ahead windows some_window
    | ahead further =>
      have total : row.resetAt + ((windows + further : Nat) : Int) * limitWindowDelta row.limitWindow =
          row.resetAt + windows * limitWindowDelta row.limitWindow +
            further * limitWindowDelta row.limitWindow := by
        push_cast
        ring
      have moved : Moved row _ := .ahead (windows + further) (by omega)
      rw [total] at moved
      exact moved

/-- A reset of an elapsed row, by whatever clock. -/
theorem Moved.reset {row : Limit} {clock : Int} (elapsed : row.resetAt ≤ clock) :
    Moved row (restarted (advanceLimitReset row.resetAt clock row.limitWindow) row) := by
  obtain ⟨past, windows, ends, -⟩ := advanceLimitReset_spec row.resetAt clock row.limitWindow
  have some_window : 0 < windows := by
    rcases Nat.eq_zero_or_pos windows with rfl | h
    · rw [ends] at past
      simp only [Nat.cast_zero, zero_mul, add_zero] at past
      exact absurd elapsed (not_le.mpr past)
    · exact h
  rw [ends]
  exact .ahead windows some_window

/-- The window ends of a row that moved are those ends of the first row that are left. -/
theorem Moved.least {row row' : Limit} (h : Moved row row') {now new : Int} (elapsed : row'.resetAt ≤ now)
    (least : IsLeast {t | t ∈ windowEnds row'.resetAt row'.limitWindow ∧ now < t} new) :
    IsLeast {t | t ∈ windowEnds row.resetAt row.limitWindow ∧ now < t} new := by
  cases h with
  | still => exact least
  | ahead windows =>
    have positive := limitWindowDelta_pos row.limitWindow
    simp only [restarted] at elapsed least
    obtain ⟨⟨⟨further, rfl⟩, past⟩, below⟩ := least
    refine ⟨⟨⟨windows + further, by push_cast; ring⟩, past⟩, ?_⟩
    rintro t ⟨⟨other, rfl⟩, later⟩
    refine below ⟨⟨other - windows, ?_⟩, later⟩
    have enough : windows ≤ other := by
      by_contra fewer
      have : (other : Int) * limitWindowDelta row.limitWindow ≤
          windows * limitWindowDelta row.limitWindow := by
        gcongr
        omega
      linarith
    rw [Nat.cast_sub enough]
    ring

/-- What a guarded `UPDATE` can do. -/
theorem reset_cases (t : LimitTable) (id : Nat) (expected : Int) (new : Limit → Int) :
    (t.reset id expected new = (t, false) ∧ ∀ row, t.limits id = some row → row.resetAt ≠ expected) ∨
      ∃ row present, t.limits id = some row ∧ row.resetAt = expected ∧
        t.reset id expected new = (t.put id (restarted (new row) row) present, true) := by
  unfold LimitTable.reset
  split
  case h_1 missing =>
    exact Or.inl ⟨rfl, fun row h => absurd (missing.symm.trans h) nofun⟩
  case h_2 row found =>
    by_cases met : row.resetAt = expected
    · rw [if_pos met]
      exact Or.inr ⟨row, by rw [found]; rfl, found, met, rfl⟩
    · rw [if_neg met]
      refine Or.inl ⟨rfl, ?_⟩
      intro row' h
      cases found.symm.trans h
      exact met

@[simp] theorem limits_put (t : LimitTable) (id : Nat) (row : Limit) (present : (t.limits id).isSome)
    (id' : Nat) : (t.put id row present).limits id' = if id' = id then some row else t.limits id' := rfl

/-- `t'` is a later state of `t`: the same rows, each moved. -/
structure Later (t t' : LimitTable) : Prop where
  order : t'.order = t.order
  missing : ∀ id, t.limits id = none → t'.limits id = none
  rows : ∀ id row, t.limits id = some row → ∃ row', t'.limits id = some row' ∧ Moved row row'

theorem Later.refl (t : LimitTable) : Later t t where
  order := rfl
  missing := fun _ h => h
  rows := fun _ row h => ⟨row, h, .still⟩

theorem Later.trans {t t' t'' : LimitTable} (first : Later t t') (second : Later t' t'') :
    Later t t'' where
  order := second.order.trans first.order
  missing := fun id h => second.missing id (first.missing id h)
  rows := by
    intro id row h
    obtain ⟨row', h', moved⟩ := first.rows id row h
    obtain ⟨row'', h'', moved'⟩ := second.rows id row' h'
    exact ⟨row'', h'', moved.trans moved'⟩

theorem later_put {t : LimitTable} {id : Nat} {row new : Limit} (found : t.limits id = some row)
    (moved : Moved row new) (present : (t.limits id).isSome) : Later t (t.put id new present) where
  order := rfl
  missing := by
    intro id' h
    have other : id' ≠ id := by
      rintro rfl
      cases h.symm.trans found
    rw [limits_put, if_neg other, h]
  rows := by
    intro id' row' h
    rw [limits_put]
    by_cases same : id' = id
    · subst same
      cases h.symm.trans found
      exact ⟨new, if_pos rfl, moved⟩
    · rw [if_neg same]
      exact ⟨row', h, .still⟩

theorem later_reset {t : LimitTable} {id : Nat} {expected clock : Int} {new : Limit → Int}
    (elapsed : expected ≤ clock)
    (writes : ∀ row, t.limits id = some row → new row = advanceLimitReset expected clock row.limitWindow) :
    Later t (t.reset id expected new).1 := by
  rcases reset_cases t id expected new with ⟨missed, -⟩ | ⟨row, present, found, met, hit⟩
  · rw [missed]
    exact .refl t
  · rw [hit]
    refine later_put found ?_ present
    rw [writes row found, ← met]
    exact .reset (met ▸ elapsed)

theorem later_otherReset (t : LimitTable) (other : OtherReset) : Later t (t.otherReset other) :=
  later_reset (le_of_lt other.expired) fun _ _ => rfl

theorem later_others (t : LimitTable) (resets : List OtherReset) :
    Later t (resets.foldl LimitTable.otherReset t) := by
  induction resets generalizing t with
  | nil => exact .refl t
  | cons other rest ih => exact (later_otherReset t other).trans (ih _)

/-- Other replicas leave the rows alone that they do not reset. -/
theorem limits_others {id : Nat} (t : LimitTable) {resets : List OtherReset}
    (quiet : ∀ other ∈ resets, other.id ≠ id) :
    (resets.foldl LimitTable.otherReset t).limits id = t.limits id := by
  induction resets generalizing t with
  | nil => rfl
  | cons other rest ih =>
    rw [List.foldl_cons, ih _ fun later h => quiet later (List.mem_cons_of_mem other h)]
    unfold LimitTable.otherReset
    rcases reset_cases t other.id other.expected (fun row =>
        advanceLimitReset other.expected other.clock row.limitWindow) with
      ⟨missed, -⟩ | ⟨row, present, -, -, hit⟩
    · rw [missed]
    · rw [hit, limits_put, if_neg (quiet other List.mem_cons_self).symm]

/-! ## What is left to do -/

/-- The time by which the rows are behind the sweep's clock, summed. -/
def LimitTable.behind (t : LimitTable) (now : Int) : Nat :=
  (t.order.map fun id => ((t.limits id).map fun row => (now - row.resetAt).toNat).getD 0).sum

theorem Later.row_behind_le {t t' : LimitTable} (later : Later t t') (now : Int) (id : Nat) :
    ((t'.limits id).map fun row => (now - row.resetAt).toNat).getD 0 ≤
      ((t.limits id).map fun row => (now - row.resetAt).toNat).getD 0 := by
  cases h : t.limits id with
  | none => rw [later.missing id h]
  | some row =>
    obtain ⟨row', h', moved⟩ := later.rows id row h
    have le := moved.le
    rw [h']
    simp only [Option.map_some, Option.getD_some]
    omega

theorem Later.behind_le {t t' : LimitTable} (later : Later t t') (now : Int) :
    t'.behind now ≤ t.behind now := by
  unfold LimitTable.behind
  rw [later.order]
  exact List.sum_le_sum fun id _ => later.row_behind_le now id

theorem Later.behind_lt {t t' : LimitTable} (later : Later t t') {now : Int} {id : Nat} {row row' : Limit}
    (found : t.limits id = some row) (elapsed : row.resetAt < now)
    (found' : t'.limits id = some row') (moved : row.resetAt < row'.resetAt) :
    t'.behind now < t.behind now := by
  unfold LimitTable.behind
  rw [later.order]
  refine List.sum_lt_sum _ _ (fun id _ => later.row_behind_le now id)
    ⟨id, t.listed id (by rw [found]; rfl), ?_⟩
  rw [found, found']
  simp only [Option.map_some, Option.getD_some]
  omega

/-- A batch holds expired rows as they are. -/
theorem mem_expiredLimits {t : LimitTable} {now : Int} {limit : Nat × Limit}
    (h : limit ∈ t.expiredLimits now) : t.limits limit.1 = some limit.2 ∧ limit.2.resetAt < now := by
  refine ⟨?_, expiredLimits_elapsed _ _ _ _ limit h⟩
  have sorted := List.mem_of_mem_take h
  rw [List.mem_mergeSort] at sorted
  obtain ⟨id, -, picked⟩ := List.mem_filterMap.mp sorted
  obtain ⟨row, found, expired⟩ := Option.bind_eq_some_iff.mp picked
  rw [Option.ite_none_right_eq_some] at expired
  cases expired.2
  exact found

/-- No batch is empty while a row is expired. -/
theorem expiredLimits_eq_nil {t : LimitTable} {now : Int} (none_left : t.expiredLimits now = [])
    {id : Nat} {row : Limit} (found : t.limits id = some row) : now ≤ row.resetAt := by
  by_contra expired
  have picked : (id, row) ∈ t.order.filterMap fun id => (t.snapshot.limits id).bind fun row =>
      if row.resetAt < now then some (id, row) else none := by
    refine List.mem_filterMap.mpr ⟨id, t.listed id (by rw [found]; rfl), ?_⟩
    have expired := not_le.mp expired
    simp [LimitTable.snapshot, found, expired]
  simp only [LimitTable.expiredLimits, Snapshot.expiredLimits, List.take_eq_nil_iff,
    expiredLimitResetBatchSize] at none_left
  rcases none_left with size | empty
  · cases size
  · rw [← List.mem_mergeSort, empty] at picked
    cases picked

/-- A row that the sweep has read as expired, while the table goes on. -/
structure Read (now : Int) (t : LimitTable) (limit : Nat × Limit) : Prop where
  elapsed : limit.2.resetAt < now
  kept : ∃ row, t.limits limit.1 = some row ∧ Moved limit.2 row

theorem Read.later {now : Int} {t t' : LimitTable} {limit : Nat × Limit} (read : Read now t limit)
    (later : Later t t') : Read now t' limit where
  elapsed := read.elapsed
  kept := by
    obtain ⟨row, found, moved⟩ := read.kept
    obtain ⟨row', found', moved'⟩ := later.rows _ _ found
    exact ⟨row', found', moved.trans moved'⟩

theorem read_expiredLimits {t : LimitTable} {now : Int} :
    ∀ limit ∈ t.expiredLimits now, Read now t limit := by
  intro limit h
  obtain ⟨found, elapsed⟩ := mem_expiredLimits h
  exact ⟨elapsed, limit.2, found, .still⟩

section Sweep

variable (others : Others) (now : Int)

theorem later_await (s : Sweep) : Later s.table (s.await others).table :=
  later_others s.table (others s.sent)

/-- What a round over one row can do: the row is no longer as it was read, or it is reset. -/
theorem resetRow_cases (s : Sweep) {limit : Nat × Limit} (read : Read now s.table limit) :
    (s.resetRow others now limit = s.await others ∧
      ∃ row, (s.await others).table.limits limit.1 = some row ∧ limit.2.resetAt < row.resetAt) ∨
    ∃ row present, (s.await others).table.limits limit.1 = some row ∧ row.resetAt < now ∧
      row.resetAt = limit.2.resetAt ∧
      s.resetRow others now limit =
        { (s.await others) with
            table := (s.await others).table.put limit.1
              (restarted (advanceLimitReset row.resetAt now row.limitWindow) row) present
            resets := s.resets ++ [⟨limit.1, advanceLimitReset row.resetAt now row.limitWindow⟩] } := by
  have read := read.later (later_await others s)
  obtain ⟨row, found, moved⟩ := read.kept
  rcases reset_cases (s.await others).table limit.1 limit.2.resetAt
      (fun _ => advanceLimitReset limit.2.resetAt now limit.2.limitWindow) with
    ⟨missed, differs⟩ | ⟨row', present, found', met, hit⟩
  · refine Or.inl ⟨by simp only [Sweep.resetRow, missed], row, found, ?_⟩
    exact lt_of_le_of_ne moved.le (differs row found).symm
  · cases found.symm.trans found'
    refine Or.inr ⟨row, present, found, met ▸ read.elapsed, met, ?_⟩
    simp only [Sweep.resetRow, hit, met, moved.window]
    rfl

theorem later_resetRow (s : Sweep) {limit : Nat × Limit} (read : Read now s.table limit) :
    Later s.table (s.resetRow others now limit).table := by
  have waited := later_await others s
  rcases resetRow_cases others now s read with ⟨missed, -⟩ | ⟨row, present, found, elapsed, -, hit⟩
  · rw [missed]
    exact waited
  · rw [hit]
    exact waited.trans (later_put found (.reset (le_of_lt elapsed)) present)

theorem later_batch (batch : List (Nat × Limit)) (s : Sweep) (read : ∀ limit ∈ batch, Read now s.table limit) :
    Later s.table (batch.foldl (Sweep.resetRow others now) s).table := by
  induction batch generalizing s with
  | nil => exact .refl _
  | cons limit rest ih =>
    have first := later_resetRow others now s (read limit List.mem_cons_self)
    exact first.trans (ih _ fun other h => (read other (List.mem_cons_of_mem limit h)).later first)

/-- The row of a round has left the moment it was read with behind, whoever reset it. -/
theorem resetRow_passes (s : Sweep) {limit : Nat × Limit} (read : Read now s.table limit) :
    ∃ row, (s.resetRow others now limit).table.limits limit.1 = some row ∧
      limit.2.resetAt < row.resetAt := by
  rcases resetRow_cases others now s read with
    ⟨missed, passed⟩ | ⟨row, present, -, elapsed, met, hit⟩
  · rw [missed]
    exact passed
  · rw [hit]
    refine ⟨_, by rw [limits_put, if_pos rfl], ?_⟩
    rw [← met]
    exact lt_advanceLimitReset elapsed row.limitWindow

theorem behind_batch (s : Sweep) (left : s.table.expiredLimits now ≠ []) :
    ((s.table.expiredLimits now).foldl (Sweep.resetRow others now) s).table.behind now <
      s.table.behind now := by
  have read : ∀ limit ∈ s.table.expiredLimits now, Read now s.table limit := read_expiredLimits
  obtain ⟨limit, rest, batch⟩ := List.exists_cons_of_ne_nil left
  have first : limit ∈ s.table.expiredLimits now := by
    rw [batch]
    exact List.mem_cons_self
  obtain ⟨found, elapsed⟩ := mem_expiredLimits first
  have later := later_batch others now _ s read
  rw [batch, List.foldl_cons] at later ⊢
  obtain ⟨row, found', passed⟩ := resetRow_passes others now s (read limit first)
  have read_rest : ∀ other ∈ rest, Read now (s.resetRow others now limit).table other := by
    intro other h
    exact (read other (batch ▸ List.mem_cons_of_mem limit h)).later
      (later_resetRow others now s (read limit first))
  obtain ⟨row', found'', moved⟩ := (later_batch others now rest _ read_rest).rows _ _ found'
  exact later.behind_lt found elapsed found'' (lt_of_lt_of_le passed moved.le)

/-- `reset_expired_limits`: each batch brings some row closer to `now`, so the loop ends. -/
def resetExpiredLimits (s : Sweep) : Sweep :=
  if (s.await others).table.expiredLimits now = [] then s.await others
  else resetExpiredLimits
    (((s.await others).table.expiredLimits now).foldl (Sweep.resetRow others now) (s.await others))
termination_by s.table.behind now
decreasing_by
  exact lt_of_lt_of_le (behind_batch others now _ ‹_›) ((later_await others s).behind_le now)

/-! ## What a sweep has done -/

/-- The other replicas do not reset the row. -/
def Others.Spares (others : Others) (id : Nat) : Prop := ∀ n, ∀ other ∈ others n, other.id ≠ id

/-- The sweep so far: its own resets, and the rows that nobody else resets. -/
structure Swept (start : LimitTable) (s : Sweep) : Prop where
  later : Later start s.table
  resets : ∀ r ∈ s.resets, ∃ row, start.limits r.id = some row ∧ row.resetAt < now ∧
    IsLeast {t | t ∈ windowEnds row.resetAt row.limitWindow ∧ now < t} r.written
  passed : ∀ r ∈ s.resets, ∀ row, s.table.limits r.id = some row → now < row.resetAt
  once : (s.resets.map SweptReset.id).Nodup
  spared : ∀ id, others.Spares id → s.table.limits id = start.limits id ∨
    ∃ row, start.limits id = some row ∧ row.resetAt < now ∧
      s.table.limits id = some (restarted (advanceLimitReset row.resetAt now row.limitWindow) row) ∧
      ⟨id, advanceLimitReset row.resetAt now row.limitWindow⟩ ∈ s.resets

variable {others now} {start : LimitTable} {s : Sweep}

theorem swept_start (t : LimitTable) : Swept others now t ⟨t, 0, []⟩ where
  later := .refl t
  resets := nofun
  passed := nofun
  once := List.nodup_nil
  spared := fun _ _ => Or.inl rfl

theorem Swept.await (swept : Swept others now start s) : Swept others now start (s.await others) where
  later := swept.later.trans (later_await others s)
  resets := swept.resets
  passed := by
    intro r h row' found'
    obtain ⟨row₀, found₀, -⟩ := swept.resets r h
    obtain ⟨row, found, -⟩ := swept.later.rows _ _ found₀
    obtain ⟨row'', found'', moved⟩ := (later_await others s).rows _ _ found
    cases found'.symm.trans found''
    exact lt_of_lt_of_le (swept.passed r h row found) moved.le
  once := swept.once
  spared := by
    intro id spares
    have kept : (s.await others).table.limits id = s.table.limits id :=
      limits_others s.table (spares s.sent)
    rw [kept]
    exact swept.spared id spares

theorem Swept.resetRow (swept : Swept others now start s) {limit : Nat × Limit}
    (read : Read now s.table limit) : Swept others now start (s.resetRow others now limit) := by
  have waited := swept.await
  rcases resetRow_cases others now s read with ⟨missed, -⟩ | ⟨row, present, found, elapsed, -, hit⟩
  · rw [missed]
    exact waited
  obtain ⟨row₀, found₀, moved⟩ : ∃ row₀, start.limits limit.1 = some row₀ ∧ Moved row₀ row := by
    cases h : start.limits limit.1 with
    | none => cases found.symm.trans (waited.later.missing _ h)
    | some row₀ =>
      obtain ⟨row', found', moved⟩ := waited.later.rows _ _ h
      cases found.symm.trans found'
      exact ⟨row₀, rfl, moved⟩
  have fresh : ∀ r ∈ s.resets, r.id ≠ limit.1 := by
    intro r h same
    exact absurd elapsed (not_lt.mpr (le_of_lt (waited.passed r h row (same ▸ found))))
  rw [hit]
  refine ⟨waited.later.trans (later_put found (.reset (le_of_lt elapsed)) present), ?_, ?_, ?_, ?_⟩
  · intro r h
    rcases List.mem_append.mp h with h | h
    · exact swept.resets r h
    · rw [List.mem_singleton] at h
      subst h
      exact ⟨row₀, found₀, lt_of_le_of_lt moved.le elapsed,
        moved.least (le_of_lt elapsed) (advanceLimitReset_least row.resetAt now row.limitWindow)⟩
  · intro r h row' found'
    rw [limits_put] at found'
    rcases List.mem_append.mp h with h | h
    · rw [if_neg (fresh r h)] at found'
      exact waited.passed r h row' found'
    · rw [List.mem_singleton] at h
      subst h
      rw [if_pos rfl] at found'
      cases found'
      exact (advanceLimitReset_spec row.resetAt now row.limitWindow).1
  · rw [List.map_append, List.nodup_append]
    refine ⟨swept.once, List.nodup_singleton _, ?_⟩
    intro id h id' h'
    obtain ⟨r, hr, rfl⟩ := List.mem_map.mp h
    rw [List.map_singleton, List.mem_singleton] at h'
    exact h' ▸ fresh r hr
  · intro id spares
    rw [limits_put]
    by_cases same : id = limit.1
    · subst same
      rw [if_pos rfl]
      rcases waited.spared limit.1 spares with still | ⟨row', -, -, found', logged⟩
      · cases found.symm.trans still |>.trans found₀
        exact Or.inr ⟨row, found₀, elapsed, rfl, List.mem_append_right _ (List.mem_singleton_self _)⟩
      · exact absurd rfl (fresh _ logged)
    · rw [if_neg same]
      rcases waited.spared id spares with still | ⟨row', found', elapsed', reset, logged⟩
      · exact Or.inl still
      · exact Or.inr ⟨row', found', elapsed', reset, List.mem_append_left _ logged⟩

theorem Swept.batch (swept : Swept others now start s) (batch : List (Nat × Limit))
    (read : ∀ limit ∈ batch, Read now s.table limit) :
    Swept others now start (batch.foldl (Sweep.resetRow others now) s) := by
  induction batch generalizing s with
  | nil => exact swept
  | cons limit rest ih =>
    have first := read limit List.mem_cons_self
    refine ih (swept.resetRow first) ?_
    intro other h
    exact (read other (List.mem_cons_of_mem limit h)).later (later_resetRow others now s first)

/-- The sweep, with the last `SELECT` that came back empty. -/
theorem Swept.resetExpiredLimits (swept : Swept others now start s) :
    Swept others now start (resetExpiredLimits others now s) ∧
      (ExpiredLimits.resetExpiredLimits others now s).table.expiredLimits now = [] := by
  induction s using resetExpiredLimits.induct others now with
  | case1 s empty =>
    rw [ExpiredLimits.resetExpiredLimits, if_pos empty]
    exact ⟨swept.await, empty⟩
  | case2 s left ih =>
    rw [ExpiredLimits.resetExpiredLimits, if_neg left]
    exact ih (swept.await.batch _ read_expiredLimits)

theorem sent_resetRow (s : Sweep) (limit : Nat × Limit) :
    (s.resetRow others now limit).sent = s.sent + 1 := by
  unfold Sweep.resetRow
  dsimp only
  split <;> rfl

theorem sent_batch (batch : List (Nat × Limit)) (s : Sweep) :
    (batch.foldl (Sweep.resetRow others now) s).sent = s.sent + batch.length := by
  induction batch generalizing s with
  | nil => rfl
  | cons limit rest ih =>
    rw [List.foldl_cons, ih, sent_resetRow, List.length_cons]
    omega

/-- How many statements a sweep sends at most. -/
theorem sent_resetExpiredLimits (s : Sweep) :
    (resetExpiredLimits others now s).sent ≤
      s.sent + 1 + s.table.behind now * (expiredLimitResetBatchSize + 1) := by
  induction s using resetExpiredLimits.induct others now with
  | case1 s empty =>
    rw [resetExpiredLimits, if_pos empty]
    exact Nat.le_add_right _ _
  | case2 s left ih =>
    rw [resetExpiredLimits, if_neg left]
    have less := behind_batch others now _ left
    have waited := (later_await others s).behind_le now
    have size : ((s.await others).table.expiredLimits now).length ≤ expiredLimitResetBatchSize :=
      List.length_take_le _ _
    rw [sent_batch] at ih
    have sent : (s.await others).sent = s.sent + 1 := rfl
    rw [sent] at ih
    have rounds := Nat.mul_le_mul_right (expiredLimitResetBatchSize + 1)
      (Nat.le_sub_one_of_lt (lt_of_lt_of_le less waited))
    have one : s.table.behind now = s.table.behind now - 1 + 1 := by omega
    rw [one, Nat.add_mul, one_mul]
    omega

end Sweep

/-! ## The sweep is exact -/

/-- What `reset_expired_limits` owes for a table, given what the other replicas reset meanwhile. -/
structure Exact (others : Others) (now : Int) (start : LimitTable) (done : Sweep) : Prop where
  ends : done.sent ≤ 1 + start.behind now * (expiredLimitResetBatchSize + 1)
  none_expired : ∀ id row, start.limits id = some row →
    ∃ row', done.table.limits id = some row' ∧ now ≤ row'.resetAt
  least : ∀ r ∈ done.resets, ∃ row, start.limits r.id = some row ∧ row.resetAt < now ∧
    IsLeast {t | t ∈ windowEnds row.resetAt row.limitWindow ∧ now < t} r.written
  once : (done.resets.map SweptReset.id).Nodup
  untouched : ∀ id row, start.limits id = some row → now ≤ row.resetAt →
    id ∉ done.resets.map SweptReset.id ∧ (others.Spares id → done.table.limits id = some row)
  restarted : ∀ id row, start.limits id = some row → row.resetAt < now → others.Spares id →
    done.table.limits id = some (restarted (advanceLimitReset row.resetAt now row.limitWindow) row)

/-- The sweep and the loop of each reset end, and the sweep is exact. -/
theorem reset_expired_limits_exact (others : Others) (now : Int) (start : LimitTable) :
    Exact others now start (resetExpiredLimits others now ⟨start, 0, []⟩) ∧
      ∀ resetAt window, ∃ rounds, ∀ more, rounds ≤ more →
        advanceLoop (limitWindowDelta window) now more resetAt =
          advanceLimitReset resetAt now window := by
  have begun : Swept others now start ⟨start, 0, []⟩ := swept_start start
  obtain ⟨swept, empty⟩ := begun.resetExpiredLimits
  refine ⟨⟨?_, ?_, swept.resets, swept.once, ?_, ?_⟩, fun resetAt window =>
    advanceLoop_ends resetAt now window⟩
  · have sent : (resetExpiredLimits others now ⟨start, 0, []⟩).sent ≤ _ := sent_resetExpiredLimits _
    rwa [Nat.zero_add] at sent
  · intro id row found
    obtain ⟨row', found', -⟩ := swept.later.rows id row found
    exact ⟨row', found', expiredLimits_eq_nil empty found'⟩
  · intro id row found current
    refine ⟨?_, ?_⟩
    · intro logged
      obtain ⟨r, hr, rfl⟩ := List.mem_map.mp logged
      obtain ⟨row', found', elapsed, -⟩ := swept.resets r hr
      cases found.symm.trans found'
      exact absurd elapsed (not_lt.mpr current)
    · intro spares
      rcases swept.spared id spares with still | ⟨row', found', elapsed, -⟩
      · exact still.trans found
      · cases found.symm.trans found'
        exact absurd elapsed (not_lt.mpr current)
  · intro id row found elapsed spares
    rcases swept.spared id spares with still | ⟨row', found', -, reset, -⟩
    · exact absurd elapsed (not_lt.mpr (expiredLimits_eq_nil empty (still.trans found)))
    · cases found.symm.trans found'
      exact reset

end ExpiredLimits
