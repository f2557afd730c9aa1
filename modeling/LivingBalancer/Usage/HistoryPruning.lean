import LivingBalancer.Lib.Runs
import Mathlib.Data.List.Nodup
import Mathlib.Data.Int.Order.Basic

/-!
# Pruning the usage history

`_prune_usage_history` reads the ids of the latest rows once and then deletes the other rows
recorded before the cutoff, batch by batch, while writers keep inserting. Every statement is one
step. A batch takes any rows its condition admits, since the query has a limit and no order.
-/

namespace UsageHistory

open Runs

variable {Sample : Type}

/-- A row of `usage_history`; `sample` stands for the columns that pruning does not read. -/
structure UsageRow (Sample : Type) where
  id : ℕ
  accountId : String
  recordedAt : ℤ
  window : Option String
  sample : Sample
  deriving DecidableEq

/-- The columns a row is grouped by, `coalesce(window, 'primary')` being the second. -/
def UsageRow.identity (r : UsageRow Sample) : String × String :=
  (r.accountId, r.window.getD "primary")

/-- The table; its ids are the primary key. -/
structure Table (Sample : Type) where
  rows : List (UsageRow Sample)
  distinct : (rows.map UsageRow.id).Nodup

/-- `max(recorded_at)` of the group. -/
def latestTs (rows : List (UsageRow Sample)) (identity : String × String) : Option ℤ :=
  ((rows.filter fun r => r.identity = identity).map UsageRow.recordedAt).max?

/-- `protected_stmt`: every row at the greatest time of its group. -/
def protectedIds (rows : List (UsageRow Sample)) : List ℕ :=
  (rows.filter fun r => latestTs rows r.identity = some r.recordedAt).map UsageRow.id

/-- The rows that a batch may delete. -/
def eligible (cutoff : ℤ) (keep : List ℕ) (rows : List (UsageRow Sample)) :
    List (UsageRow Sample) :=
  rows.filter fun r => r.recordedAt < cutoff ∧ r.id ∉ keep

def Table.insert (t : Table Sample) (r : UsageRow Sample) (fresh : r.id ∉ t.rows.map UsageRow.id) :
    Table Sample where
  rows := r :: t.rows
  distinct := List.nodup_cons.mpr ⟨fresh, t.distinct⟩

def Table.delete (t : Table Sample) (ids : List ℕ) : Table Sample where
  rows := t.rows.filter fun r => r.id ∉ ids
  distinct := t.distinct.sublist (List.filter_sublist.map _)

/-- Where the pass stands: before its first statement, in the loop, or returned. -/
inductive Phase
  | reading
  | pruning (keep : List ℕ) (total : ℕ)
  | returned (keep : List ℕ) (total : ℕ)
  deriving DecidableEq

/-- The table and the pass over it. `began` is the table as the pass read it, `unpruned` what
the table would be without the pass and `batches` the number of its delete statements. -/
structure PruneState (Sample : Type) where
  table : Table Sample
  phase : Phase
  began : List (UsageRow Sample)
  unpruned : List (UsageRow Sample)
  batches : ℕ

inductive PruneAct (Sample : Type)
  | insert (r : UsageRow Sample)
  | readProtected
  | deleteBatch (ids : List ℕ)

/-- What the query of a batch may return. -/
def Batch (size : ℕ) (candidates : List (UsageRow Sample)) (ids : List ℕ) : Prop :=
  ids.Nodup ∧ ids ⊆ candidates.map UsageRow.id ∧ ids.length = min size candidates.length

instance (size : ℕ) (candidates : List (UsageRow Sample)) (ids : List ℕ) :
    Decidable (Batch size candidates ids) :=
  inferInstanceAs (Decidable (_ ∧ ids ⊆ _ ∧ _))

def start (table : Table Sample) : PruneState Sample :=
  ⟨table, .reading, table.rows, table.rows, 0⟩

/-- One statement of the pass or one insert of a writer. -/
def step (cutoff : ℤ) (size : ℕ) (s : PruneState Sample) :
    PruneAct Sample → Option (PruneState Sample)
  | .insert r =>
    if h : cutoff ≤ r.recordedAt ∧ r.id ∉ s.table.rows.map UsageRow.id then
      some { s with table := s.table.insert r h.2, unpruned := r :: s.unpruned }
    else none
  | .readProtected =>
    match s.phase with
    | .reading =>
      some { s with phase := .pruning (protectedIds s.table.rows) 0, began := s.table.rows }
    | _ => none
  | .deleteBatch ids =>
    match s.phase with
    | .pruning keep total =>
      if Batch size (eligible cutoff keep s.table.rows) ids then
        some { s with
          table := s.table.delete ids
          phase := if ids.length < size then .returned keep (total + ids.length)
            else .pruning keep (total + ids.length)
          batches := s.batches + 1 }
      else none
    | _ => none

/-- `BATCH_SIZE`. -/
def batchSize : ℕ := 10000

/-- No row of the group was recorded later. -/
def Top (rows : List (UsageRow Sample)) (r : UsageRow Sample) : Prop :=
  r ∈ rows ∧ ∀ other ∈ rows, other.identity = r.identity → other.recordedAt ≤ r.recordedAt

/-- The latest row of a group for a reader that orders rows of one time by `wins`. -/
def Latest (wins : UsageRow Sample → UsageRow Sample → Prop) (rows : List (UsageRow Sample))
    (identity : String × String) (r : UsageRow Sample) : Prop :=
  r ∈ rows ∧ r.identity = identity ∧ ∀ other ∈ rows, other.identity = identity → other ≠ r →
    other.recordedAt < r.recordedAt ∨ other.recordedAt = r.recordedAt ∧ wins r other

/-! ## Protected rows -/

theorem latestTs_eq_some {rows : List (UsageRow Sample)} {r : UsageRow Sample} (mem : r ∈ rows) :
    latestTs rows r.identity = some r.recordedAt ↔ Top rows r := by
  rw [latestTs, List.max?_eq_some_iff]
  constructor
  · rintro ⟨-, bound⟩
    refine ⟨mem, fun other hother same => bound _ (List.mem_map_of_mem ?_)⟩
    exact List.mem_filter.mpr ⟨hother, decide_eq_true same⟩
  · rintro ⟨-, bound⟩
    refine ⟨List.mem_map_of_mem (List.mem_filter.mpr ⟨mem, decide_eq_true rfl⟩), fun at_ hat => ?_⟩
    obtain ⟨other, hother, rfl⟩ := List.mem_map.mp hat
    obtain ⟨hother, same⟩ := List.mem_filter.mp hother
    exact bound other hother (of_decide_eq_true same)

theorem Table.same_of_id {t : Table Sample} {r r' : UsageRow Sample} (h : r ∈ t.rows)
    (h' : r' ∈ t.rows) (same : r.id = r'.id) : r = r' :=
  List.inj_on_of_nodup_map t.distinct h h' same

theorem mem_protectedIds {t : Table Sample} {r : UsageRow Sample} (mem : r ∈ t.rows) :
    r.id ∈ protectedIds t.rows ↔ Top t.rows r := by
  rw [protectedIds, List.mem_map, ← latestTs_eq_some mem]
  constructor
  · rintro ⟨other, hother, same⟩
    obtain ⟨inTable, top⟩ := List.mem_filter.mp hother
    rw [← t.same_of_id inTable mem same]
    exact of_decide_eq_true top
  · intro top
    exact ⟨r, List.mem_filter.mpr ⟨mem, decide_eq_true top⟩, rfl⟩

/-- Every group has a latest row. -/
theorem exists_top {rows : List (UsageRow Sample)} {r : UsageRow Sample} (mem : r ∈ rows) :
    ∃ top, Top rows top ∧ top.identity = r.identity ∧ r.recordedAt ≤ top.recordedAt := by
  have own : r.recordedAt ∈ (rows.filter fun other => other.identity = r.identity).map
      UsageRow.recordedAt :=
    List.mem_map_of_mem (List.mem_filter.mpr ⟨mem, decide_eq_true rfl⟩)
  cases greatest : latestTs rows r.identity with
  | none =>
    rw [latestTs, List.max?_eq_none_iff] at greatest
    rw [greatest] at own
    cases own
  | some ts =>
    rw [latestTs, List.max?_eq_some_iff] at greatest
    obtain ⟨found, bound⟩ := greatest
    obtain ⟨top, htop, rfl⟩ := List.mem_map.mp found
    obtain ⟨inTable, same⟩ := List.mem_filter.mp htop
    have same := of_decide_eq_true same
    refine ⟨top, ⟨inTable, fun other hother group => ?_⟩, same, bound _ own⟩
    refine bound _ (List.mem_map_of_mem (List.mem_filter.mpr ⟨hother, decide_eq_true ?_⟩))
    exact group.trans same

/-! ## Batches -/

theorem mem_delete {t : Table Sample} {ids : List ℕ} {r : UsageRow Sample} :
    r ∈ (t.delete ids).rows ↔ r ∈ t.rows ∧ r.id ∉ ids := by
  rw [Table.delete, List.mem_filter, decide_eq_true_eq]

/-- Deleting by key removes one row for each key. -/
theorem length_filter_ids {rows : List (UsageRow Sample)} (distinct : (rows.map UsageRow.id).Nodup)
    {ids : List ℕ} (nodup : ids.Nodup) (sub : ids ⊆ rows.map UsageRow.id) :
    (rows.filter fun r => r.id ∉ ids).length + ids.length = rows.length := by
  have removed : ((rows.filter fun r => decide (r.id ∈ ids)).map UsageRow.id).Perm ids := by
    rw [List.perm_ext_iff_of_nodup (distinct.sublist (List.filter_sublist.map _)) nodup]
    intro i
    constructor
    · intro hi
      obtain ⟨r, hr, rfl⟩ := List.mem_map.mp hi
      exact of_decide_eq_true (List.mem_filter.mp hr).2
    · intro hi
      obtain ⟨r, hr, rfl⟩ := List.mem_map.mp (sub hi)
      exact List.mem_map_of_mem (List.mem_filter.mpr ⟨hr, decide_eq_true hi⟩)
  have count := removed.length_eq
  have split := List.length_eq_length_filter_add (l := rows) fun r => decide (r.id ∈ ids)
  simp only [List.length_map, decide_not] at count ⊢
  omega

theorem eligible_delete {cutoff : ℤ} {keep : List ℕ} {t : Table Sample} {ids : List ℕ} :
    eligible cutoff keep (t.delete ids).rows =
      (eligible cutoff keep t.rows).filter fun r => r.id ∉ ids := by
  rw [eligible, eligible, Table.delete, List.filter_filter, List.filter_filter]
  exact List.filter_congr fun r _ => Bool.and_comm _ _

theorem Batch.length_delete {cutoff : ℤ} {size : ℕ} {keep : List ℕ} {t : Table Sample}
    {ids : List ℕ} (h : Batch size (eligible cutoff keep t.rows) ids) :
    (eligible cutoff keep (t.delete ids).rows).length + ids.length =
      (eligible cutoff keep t.rows).length := by
  rw [eligible_delete]
  exact length_filter_ids (t.distinct.sublist (List.filter_sublist.map _)) h.1 h.2.1

/-- A batch deletes rows from before the cutoff that are not protected, and no others. -/
theorem Batch.deletes {cutoff : ℤ} {size : ℕ} {keep : List ℕ} {t : Table Sample} {ids : List ℕ}
    (h : Batch size (eligible cutoff keep t.rows) ids) {r : UsageRow Sample} (mem : r ∈ t.rows)
    (deleted : r.id ∈ ids) : r.recordedAt < cutoff ∧ r.id ∉ keep := by
  obtain ⟨other, hother, same⟩ := List.mem_map.mp (h.2.1 deleted)
  obtain ⟨inTable, admitted⟩ := List.mem_filter.mp hother
  rw [← t.same_of_id inTable mem same]
  exact of_decide_eq_true admitted

/-- The query of a batch has an answer. -/
theorem exists_batch (size : ℕ) {candidates : List (UsageRow Sample)}
    (distinct : (candidates.map UsageRow.id).Nodup) : ∃ ids, Batch size candidates ids := by
  refine ⟨(candidates.map UsageRow.id).take size, ?_, List.take_subset _ _, ?_⟩
  · exact distinct.sublist (List.take_sublist _ _)
  · rw [List.length_take, List.length_map]

/-! ## The invariant of the pass -/

/-- The latest rows of `began` stay, and the other rows of that time may go. -/
structure Guarded (cutoff : ℤ) (keep : List ℕ) (t : Table Sample)
    (began unpruned : List (UsageRow Sample)) : Prop where
  kept : ∀ {r}, Top began r → r ∈ t.rows ∧ r.id ∈ keep
  old : ∀ {r}, r ∈ t.rows → r.recordedAt < cutoff → r ∈ began ∧ (r.id ∈ keep → Top began r)
  present : ∀ {r}, r ∈ t.rows → r ∈ unpruned
  gone : ∀ {r}, r ∈ unpruned → r ∉ t.rows → r.recordedAt < cutoff ∧ r ∈ began ∧ ¬ Top began r

variable {cutoff : ℤ} {size : ℕ} {keep : List ℕ} {t : Table Sample}
variable {began unpruned : List (UsageRow Sample)}

theorem Guarded.start (t : Table Sample) :
    Guarded cutoff (protectedIds t.rows) t t.rows t.rows where
  kept top := ⟨top.1, (mem_protectedIds top.1).mpr top⟩
  old mem _ := ⟨mem, (mem_protectedIds mem).mp⟩
  present mem := mem
  gone mem lost := absurd mem lost

theorem Guarded.insert {r : UsageRow Sample} (fresh : r.id ∉ t.rows.map UsageRow.id)
    (late : cutoff ≤ r.recordedAt) (h : Guarded cutoff keep t began unpruned) :
    Guarded cutoff keep (t.insert r fresh) began (r :: unpruned) where
  kept top := ⟨List.mem_cons_of_mem _ (h.kept top).1, (h.kept top).2⟩
  old mem early := by
    rcases List.mem_cons.mp mem with rfl | before
    · exact absurd early (not_lt.mpr late)
    · exact h.old before early
  present mem := by
    rcases List.mem_cons.mp mem with rfl | before
    · exact List.mem_cons_self
    · exact List.mem_cons_of_mem _ (h.present before)
  gone mem lost := by
    rcases List.mem_cons.mp mem with rfl | before
    · exact absurd List.mem_cons_self lost
    · exact h.gone before fun inTable => lost (List.mem_cons_of_mem _ inTable)

theorem Guarded.delete {ids : List ℕ} (batch : Batch size (eligible cutoff keep t.rows) ids)
    (h : Guarded cutoff keep t began unpruned) :
    Guarded cutoff keep (t.delete ids) began unpruned where
  kept top := by
    obtain ⟨inTable, safe⟩ := h.kept top
    exact ⟨mem_delete.mpr ⟨inTable, fun deleted => (batch.deletes inTable deleted).2 safe⟩, safe⟩
  old mem := h.old (mem_delete.mp mem).1
  present mem := h.present (mem_delete.mp mem).1
  gone {r} mem lost := by
    by_cases inTable : r ∈ t.rows
    · have deleted : r.id ∈ ids := by
        by_contra other
        exact lost (mem_delete.mpr ⟨inTable, other⟩)
      obtain ⟨early, free⟩ := batch.deletes inTable deleted
      exact ⟨early, (h.old inTable early).1, fun top => free (h.kept top).2⟩
    · exact h.gone mem inTable

/-- A deleted row has a later one of its group in the table. -/
theorem Guarded.covered (h : Guarded cutoff keep t began unpruned) {r : UsageRow Sample}
    (mem : r ∈ unpruned) (lost : r ∉ t.rows) :
    ∃ later ∈ t.rows, later.identity = r.identity ∧ r.recordedAt < later.recordedAt := by
  obtain ⟨-, atStart, notTop⟩ := h.gone mem lost
  obtain ⟨top, htop, same, bound⟩ := exists_top atStart
  refine ⟨top, (h.kept htop).1, same, lt_of_le_of_ne bound fun tied => notTop ⟨atStart, ?_⟩⟩
  intro other hother group
  rw [tied]
  exact htop.2 other hother (group.trans same.symm)

/-- No reader can tell from the latest rows that the pass has run. -/
theorem Guarded.latest_iff (h : Guarded cutoff keep t began unpruned)
    (wins : UsageRow Sample → UsageRow Sample → Prop) (identity : String × String)
    (r : UsageRow Sample) :
    Latest wins t.rows identity r ↔ Latest wins unpruned identity r := by
  constructor
  · rintro ⟨mem, group, first⟩
    refine ⟨h.present mem, group, fun other hother same apart => ?_⟩
    by_cases inTable : other ∈ t.rows
    · exact first other inTable same apart
    · obtain ⟨later, hlater, sameLater, after⟩ := h.covered hother inTable
      left
      by_cases own : later = r
      · exact own ▸ after
      · have bound := first later hlater (sameLater.trans same) own
        omega
  · rintro ⟨mem, group, first⟩
    refine ⟨?_, group, fun other hother => first other (h.present hother)⟩
    by_contra lost
    obtain ⟨later, hlater, same, after⟩ := h.covered mem lost
    have apart : later ≠ r := fun equal => lost (equal ▸ hlater)
    have bound := first later (h.present hlater) (same.trans group) apart
    omega

/-- What holds of a pass at any time: its total is what it deleted, and every batch but the
last was a full one. -/
def Sound (cutoff : ℤ) (size : ℕ) (s : PruneState Sample) : Prop :=
  match s.phase with
  | .reading => s.unpruned = s.table.rows ∧ s.batches = 0
  | .pruning keep total => Guarded cutoff keep s.table s.began s.unpruned ∧
      total + s.table.rows.length = s.unpruned.length ∧
      s.batches * size + (eligible cutoff keep s.table.rows).length ≤ s.began.length
  | .returned keep total => Guarded cutoff keep s.table s.began s.unpruned ∧
      total + s.table.rows.length = s.unpruned.length ∧
      s.batches * size ≤ s.began.length + size ∧ eligible cutoff keep s.table.rows = []

theorem eligible_insert {r : UsageRow Sample} (fresh : r.id ∉ t.rows.map UsageRow.id)
    (late : cutoff ≤ r.recordedAt) :
    eligible cutoff keep (t.insert r fresh).rows = eligible cutoff keep t.rows := by
  rw [eligible, Table.insert, List.filter_cons_of_neg]
  · rfl
  · simp only [decide_eq_true_eq]
    omega

theorem length_insert {r : UsageRow Sample} (fresh : r.id ∉ t.rows.map UsageRow.id) :
    (t.insert r fresh).rows.length = t.rows.length + 1 := List.length_cons

theorem Sound.start (t : Table Sample) : Sound cutoff size (start t) := ⟨rfl, rfl⟩

section Steps

variable {s s' : PruneState Sample}

theorem Sound.insert {r : UsageRow Sample} (fresh : r.id ∉ s.table.rows.map UsageRow.id)
    (late : cutoff ≤ r.recordedAt) (h : Sound cutoff size s) : Sound cutoff size
      { s with table := s.table.insert r fresh, unpruned := r :: s.unpruned } := by
  cases phase : s.phase with
  | reading =>
    simp only [Sound, phase] at h ⊢
    exact ⟨congrArg (r :: ·) h.1, h.2⟩
  | pruning keep total =>
    simp only [Sound, phase, eligible_insert fresh late, length_insert, List.length_cons] at h ⊢
    obtain ⟨guarded, counted, bound⟩ := h
    exact ⟨guarded.insert fresh late, by omega, bound⟩
  | returned keep total =>
    simp only [Sound, phase, eligible_insert fresh late, length_insert, List.length_cons] at h ⊢
    obtain ⟨guarded, counted, bound, finished⟩ := h
    exact ⟨guarded.insert fresh late, by omega, bound, finished⟩

theorem Batch.length_rows {ids : List ℕ} (h : Batch size (eligible cutoff keep t.rows) ids) :
    (t.delete ids).rows.length + ids.length = t.rows.length := by
  have inTable : ids ⊆ t.rows.map UsageRow.id :=
    List.Subset.trans h.2.1 (List.filter_sublist.map _).subset
  exact length_filter_ids t.distinct h.1 inTable

theorem Sound.deleteBatch {ids : List ℕ} {total : ℕ} (phase : s.phase = .pruning keep total)
    (batch : Batch size (eligible cutoff keep s.table.rows) ids) (h : Sound cutoff size s) :
    Sound cutoff size { s with
      table := s.table.delete ids
      phase := if ids.length < size then .returned keep (total + ids.length)
        else .pruning keep (total + ids.length)
      batches := s.batches + 1 } := by
  simp only [Sound, phase] at h
  obtain ⟨guarded, counted, bound⟩ := h
  have count := batch.length_rows
  have left := batch.length_delete
  have taken := batch.2.2
  have full : (s.batches + 1) * size = s.batches * size + size := Nat.succ_mul _ _
  by_cases last : ids.length < size
  · have none : eligible cutoff keep (s.table.delete ids).rows = [] :=
      List.eq_nil_of_length_eq_zero (by omega)
    simp only [Sound, if_pos last]
    exact ⟨guarded.delete batch, by omega, by omega, none⟩
  · simp only [Sound, if_neg last]
    exact ⟨guarded.delete batch, by omega, by omega⟩

theorem Sound.step {a : PruneAct Sample} (h : Sound cutoff size s)
    (done : step cutoff size s a = some s') : Sound cutoff size s' := by
  cases a with
  | insert r =>
    rw [UsageHistory.step] at done
    split at done
    · next free =>
      cases done
      exact h.insert free.2 free.1
    · cases done
  | readProtected =>
    rw [UsageHistory.step] at done
    split at done
    · next phase =>
      cases done
      simp only [Sound, phase] at h
      refine ⟨?_, ?_, ?_⟩
      · simp only [h.1]
        exact .start s.table
      · rw [h.1, Nat.zero_add]
      · rw [h.2, Nat.zero_mul, Nat.zero_add]
        exact List.length_filter_le _ _
    · cases done
  | deleteBatch ids =>
    rw [UsageHistory.step] at done
    split at done
    · next keep total phase =>
      split at done
      · next batch =>
        cases done
        exact h.deleteBatch phase batch
      · cases done
    · cases done

theorem sound_of_steps (run : Steps (step cutoff size) Any (start t) s) : Sound cutoff size s :=
  run.invariant (fun _ _ _ h _ done => h.step done) (.start t)

/-- Through the whole pass the latest rows are those of the table without it, and only rows from
before the cutoff are gone. What a finished pass left from that time was latest when it began. The
loop takes one batch more than the table fills, and until then it never lacks a next one. -/
theorem history_pruning (run : Steps (step cutoff batchSize) Any (start t) s) :
    (∀ wins identity r,
      Latest wins s.table.rows identity r ↔ Latest wins s.unpruned identity r) ∧
    (∀ r ∈ s.unpruned, r ∉ s.table.rows → r.recordedAt < cutoff) ∧
    (∀ keep total, s.phase = .returned keep total →
      ∀ r ∈ s.table.rows, r.recordedAt < cutoff → Top s.began r) ∧
    s.batches ≤ s.began.length / batchSize + 1 ∧
    (∀ keep total, s.phase = .pruning keep total →
      ∃ ids s', step cutoff batchSize s (.deleteBatch ids) = some s') := by
  have sound := sound_of_steps run
  have some_ : 0 < batchSize := by decide
  have ends {n : ℕ} (bound : s.batches * batchSize ≤ n + batchSize) :
      s.batches ≤ n / batchSize + 1 := by
    rw [← Nat.add_div_right n some_]
    exact (Nat.le_div_iff_mul_le some_).mpr bound
  cases phase : s.phase with
  | reading =>
    simp only [Sound, phase] at sound
    rw [sound.1, sound.2]
    refine ⟨fun _ _ _ => Iff.rfl, fun r mem lost => absurd mem lost, ?_, Nat.zero_le _, ?_⟩
    · intro keep total other
      cases other
    · intro keep total other
      cases other
  | pruning keep total =>
    simp only [Sound, phase] at sound
    obtain ⟨guarded, -, bound⟩ := sound
    refine ⟨guarded.latest_iff, fun r mem lost => (guarded.gone mem lost).1, ?_, ends (by omega), ?_⟩
    · intro keep' total' other
      cases other
    · intro keep' total' other
      cases other
      have distinct : ((eligible cutoff keep s.table.rows).map UsageRow.id).Nodup :=
        s.table.distinct.sublist (List.filter_sublist.map _)
      obtain ⟨ids, batch⟩ := exists_batch batchSize distinct
      refine ⟨ids, Option.isSome_iff_exists.mp ?_⟩
      simp only [step, phase, if_pos batch]
      rfl
  | returned keep total =>
    simp only [Sound, phase] at sound
    obtain ⟨guarded, -, bound, finished⟩ := sound
    refine ⟨guarded.latest_iff, fun r mem lost => (guarded.gone mem lost).1, ?_, ends bound, ?_⟩
    · intro _ _ _ r mem early
      refine (guarded.old mem early).2 ?_
      by_contra unkept
      have candidate : r ∈ eligible cutoff keep s.table.rows :=
        List.mem_filter.mpr ⟨mem, decide_eq_true ⟨early, unkept⟩⟩
      rw [finished] at candidate
      cases candidate
    · intro keep' total' other
      cases other

end Steps

/-- Two rows of one account, the first without a window. -/
def twoRows : Table Unit where
  rows := [⟨1, "a", 1, none, ()⟩, ⟨2, "a", 5, some "primary", ()⟩]
  distinct := by decide

/-- A pass between whose statements a writer inserts a row. -/
theorem history_pruning_two : ∃ s : PruneState Unit, s.phase = .returned [2] 1 ∧
    s.table.rows.map UsageRow.id = [3, 2] ∧
    ∀ r ∈ s.table.rows, r.recordedAt < 10 → Top s.began r := by
  have run : replay (step 10 batchSize) (start twoRows)
      [.readProtected, .insert ⟨3, "a", 10, none, ()⟩, .deleteBatch [1]] = some _ := rfl
  have steps := steps_of_replay _ (fun _ _ _ => trivial) run
  exact ⟨_, rfl, rfl, (history_pruning steps).2.2.1 _ _ rfl⟩

end UsageHistory
