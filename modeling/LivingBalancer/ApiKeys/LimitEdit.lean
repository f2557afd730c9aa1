import LivingBalancer.ApiKeys.Accounting
import LivingBalancer.ApiKeys.Erasure

/-!
# Editing limits while they are counted

`update_key` copies the counters out of its first read, loads the rows again, and writes the
copies back where they differ from what it loaded last. The result below says exactly when
the commit of an edit leaves a kept rule's counter as the other calls have it.
-/

namespace ApiKeys

open Runs

section Plan

variable {existing : List (Nat × Limit)} {rows : List Limit}

def LimitWrite.target : LimitWrite → Option Nat
  | .insert _ => none
  | .update id _ _ _ => some id
  | .delete id => some id

/-- The existing rows that a list of statements writes. -/
def targets (writes : List LimitWrite) : List Nat := writes.filterMap LimitWrite.target

theorem filterMap_sublist_map {α β : Type} {f : α → Option β} {g : α → β}
    (agrees : ∀ a b, f a = some b → b = g a) (l : List α) : (l.filterMap f).Sublist (l.map g) := by
  induction l with
  | nil => exact List.Sublist.refl []
  | cons a l ih =>
    rw [List.filterMap_cons, List.map_cons]
    split
    · exact ih.cons _
    · rename_i b hb
      rw [agrees a b hb]
      exact ih.cons_cons _

theorem existingByKey_mem {key : LimitType × LimitWindow × Option String} {p : Nat × Limit}
    (h : existingByKey existing key = some p) : p ∈ existing ∧ p.2.identity = key := by
  have hp := List.mem_of_getLast? h
  exact ⟨List.mem_of_mem_filter hp, by simpa using (List.mem_filter.mp hp).2⟩

theorem mem_matchedRows {m : Nat × Limit × Limit} (h : m ∈ matchedRows existing rows) :
    m.2.2 ∈ rows ∧ (m.1, m.2.1) ∈ existing ∧ m.2.1.identity = m.2.2.identity := by
  obtain ⟨row, hrow, hm⟩ := List.mem_filterMap.mp h
  obtain ⟨p, hp, rfl⟩ := Option.map_eq_some_iff.mp hm
  obtain ⟨hmem, hkey⟩ := existingByKey_mem hp
  exact ⟨hrow, hmem, hkey⟩

/-- Distinct rules match distinct rows. -/
theorem matchedRows_nodup (ids : (existing.map Prod.fst).Nodup)
    (distinct : (rows.map Limit.identity).Nodup) : ((matchedRows existing rows).map Prod.fst).Nodup := by
  induction rows with
  | nil => exact List.nodup_nil
  | cons row rows ih =>
    rw [List.map_cons, List.nodup_cons] at distinct
    have rest := ih distinct.2
    simp only [matchedRows] at rest ⊢
    rw [List.filterMap_cons]
    split
    · exact rest
    · rename_i m hm
      obtain ⟨p, hp, rfl⟩ := Option.map_eq_some_iff.mp hm
      obtain ⟨hmem, hkey⟩ := existingByKey_mem hp
      rw [List.map_cons, List.nodup_cons]
      refine ⟨?_, rest⟩
      intro again
      obtain ⟨m', hm', hid⟩ := List.mem_map.mp again
      obtain ⟨hrow', hmem', hkey'⟩ := mem_matchedRows hm'
      have same : (m'.1, m'.2.1) = p := List.inj_on_of_nodup_map ids hmem' hmem hid
      refine distinct.1 ?_
      rw [← hkey, ← same, hkey']
      exact List.mem_map_of_mem hrow'

theorem updateOf_target {id : Nat} {loaded row : Limit} {w : LimitWrite}
    (h : updateOf id loaded row = some w) : w = .update id (changed loaded.maxValue row.maxValue)
      (changed loaded.currentValue row.currentValue) (changed loaded.resetAt row.resetAt) := by
  simp only [updateOf] at h
  split at h
  · cases h
  · exact (Option.some.inj h).symm

theorem deleteOf_eq_some {id : Nat} {old : Limit} {w : LimitWrite} (h : deleteOf rows id old = some w) :
    w = .delete id ∧ ∀ row ∈ rows, row.identity ≠ old.identity := by
  simp only [deleteOf] at h
  split at h
  · cases h
  · rename_i unmatched
    refine ⟨(Option.some.inj h).symm, ?_⟩
    intro row hrow same
    exact unmatched (List.any_eq_true.mpr ⟨row, hrow, decide_eq_true same⟩)

theorem targets_append (ws ws' : List LimitWrite) : targets (ws ++ ws') = targets ws ++ targets ws' :=
  List.filterMap_append

/-- The statements of a flush write each row at most once. -/
theorem targets_flushWrites (existing : List (Nat × Limit)) (rows : List Limit) :
    ∃ updated deleted, targets (flushWrites existing rows) = updated ++ deleted ∧
      updated.Sublist (((matchedRows existing rows).mergeSort fun a b => a.1 ≤ b.1).map Prod.fst) ∧
      deleted.Sublist (existing.map Prod.fst) ∧
      ∀ id ∈ deleted, ∃ old, (id, old) ∈ existing ∧ ∀ row ∈ rows, row.identity ≠ old.identity := by
  have inserts : ∀ news : List Limit, targets (news.map LimitWrite.insert) = [] := by
    intro news
    induction news with
    | nil => rfl
    | cons row news ih => exact ih
  simp only [flushWrites]
  rw [targets_append, targets_append, inserts, List.nil_append]
  refine ⟨_, _, rfl, ?_, ?_, ?_⟩
  · simp only [targets]
    rw [List.filterMap_filterMap]
    refine filterMap_sublist_map ?_ _
    rintro ⟨id, loaded, row⟩ target h
    obtain ⟨w, hw, htarget⟩ := Option.bind_eq_some_iff.mp h
    rw [updateOf_target hw] at htarget
    exact (Option.some.inj htarget).symm
  · simp only [targets]
    rw [List.filterMap_filterMap]
    refine filterMap_sublist_map ?_ _
    rintro ⟨id, old⟩ target h
    obtain ⟨w, hw, htarget⟩ := Option.bind_eq_some_iff.mp h
    rw [(deleteOf_eq_some hw).1] at htarget
    exact (Option.some.inj htarget).symm
  · intro id hid
    obtain ⟨w, hw, htarget⟩ := List.mem_filterMap.mp hid
    obtain ⟨⟨id', old⟩, hmem, hdelete⟩ := List.mem_filterMap.mp hw
    obtain ⟨rfl, unmatched⟩ := deleteOf_eq_some hdelete
    cases htarget
    exact ⟨old, hmem, unmatched⟩

theorem targets_nodup (ids : (existing.map Prod.fst).Nodup)
    (distinct : (rows.map Limit.identity).Nodup) : (targets (flushWrites existing rows)).Nodup := by
  obtain ⟨updated, deleted, heq, hupdated, hdeleted, unmatched⟩ := targets_flushWrites existing rows
  have sorted : (((matchedRows existing rows).mergeSort fun a b => a.1 ≤ b.1).map Prod.fst).Perm
      ((matchedRows existing rows).map Prod.fst) := (List.mergeSort_perm _ _).map _
  rw [heq, List.nodup_append]
  refine ⟨(sorted.nodup_iff.mpr (matchedRows_nodup ids distinct)).sublist hupdated, ids.sublist hdeleted, ?_⟩
  rintro id hid _ hid' rfl
  obtain ⟨m, hm, rfl⟩ := List.mem_map.mp (sorted.mem_iff.mp (hupdated.subset hid))
  obtain ⟨hrow, hmem, hkey⟩ := mem_matchedRows hm
  obtain ⟨old, hold, differs⟩ := unmatched _ hid'
  have same : (m.1, m.2.1) = (m.1, old) := List.inj_on_of_nodup_map ids hmem hold rfl
  cases same
  exact differs _ hrow hkey.symm

theorem targets_existing {id : Nat} (h : id ∈ targets (flushWrites existing rows)) :
    id ∈ existing.map Prod.fst := by
  obtain ⟨updated, deleted, heq, hupdated, hdeleted, _⟩ := targets_flushWrites existing rows
  rw [heq] at h
  rcases List.mem_append.mp h with h | h
  · obtain ⟨m, hm, rfl⟩ := List.mem_map.mp (hupdated.subset h)
    rw [List.mem_mergeSort] at hm
    exact List.mem_map.mpr ⟨_, (mem_matchedRows hm).2.1, rfl⟩
  · exact hdeleted.subset h

/-- A matched row with nothing to write is not touched by the flush. -/
theorem not_mem_targets_of_unchanged (ids : (existing.map Prod.fst).Nodup)
    (distinct : (rows.map Limit.identity).Nodup) {id : Nat} {loaded row : Limit}
    (hm : (id, loaded, row) ∈ matchedRows existing rows) (unchanged : updateOf id loaded row = none) :
    id ∉ targets (flushWrites existing rows) := by
  intro hid
  obtain ⟨w, hw, htarget⟩ := List.mem_filterMap.mp hid
  rw [flushWrites] at hw
  rcases List.mem_append.mp hw with hw | hw
  · rcases List.mem_append.mp hw with hw | hw
    · obtain ⟨new, _, rfl⟩ := List.mem_map.mp hw
      cases htarget
    · obtain ⟨m', hm', hupdate⟩ := List.mem_filterMap.mp hw
      rw [List.mem_mergeSort] at hm'
      rw [updateOf_target hupdate] at htarget
      have same : m' = (id, loaded, row) := List.inj_on_of_nodup_map (matchedRows_nodup ids distinct) hm' hm
        (Option.some.inj htarget)
      subst same
      exact nomatch unchanged.symm.trans hupdate
  · obtain ⟨⟨id', old⟩, hold, hdelete⟩ := List.mem_filterMap.mp hw
    obtain ⟨rfl, unmatched⟩ := deleteOf_eq_some hdelete
    cases htarget
    obtain ⟨hrow, hmem, hkey⟩ := mem_matchedRows hm
    have same : (id, old) = (id, loaded) := List.inj_on_of_nodup_map ids hold hmem rfl
    cases same
    exact unmatched row hrow hkey.symm

end Plan

/-- Every limit row has an id that was given out. -/
def Listed (s : Sys) : Prop :=
  ∀ id, (s.limits.committed id ≠ none ∨ ∃ c, s.limits.pending c id ≠ none) → id ∈ s.limitIds

theorem Listed.view {s : Sys} (h : Listed s) {c id : Nat} (visible : s.limits.view c id ≠ none) :
    id ∈ s.limitIds := by
  by_cases held : s.limits.pending c id = none
  · rw [Table.view_of_none held] at visible
    exact h id (Or.inl visible)
  · exact h id (Or.inr ⟨c, held⟩)

theorem Listed.close {s : Sys} (h : Listed s) (c : Nat) : Listed (s.close c) := by
  rintro id (present | ⟨c', held⟩)
  · exact h id (Or.inl present)
  · exact h id (Or.inr ⟨c', Table.pending_close held⟩)

theorem Listed.step {pricing : Pricing} {s t : Sys} (h : Listed s) {a : Act}
    (hstep : step pricing s a = some t) : Listed t := by
  cases a with
  | start c request =>
    simp only [ApiKeys.step] at hstep
    split at hstep
    · cases hstep
      exact h.close c
    · cases hstep
  | abort c =>
    cases hstep
    exact h.close c
  | run c env =>
    obtain ⟨st, s', reply, pc, _, hexec, _, rfl⟩ := step_run hstep
    have effect := exec_effect hexec
    rintro id (present | ⟨c', held⟩)
    · have committed : s'.limits.committed = _ := effect.limits.committed
      change s'.limits.committed id ≠ none at present
      rw [committed] at present
      refine effect.limitIds id ?_
      split at present
      · exact h.view present
      · exact h id (Or.inl present)
    · rcases effect.writes c' id held with held | visible | given
      · exact effect.limitIds id (h id (Or.inr ⟨c', held⟩))
      · exact effect.limitIds id (h.view visible)
      · exact given

/-- What the flush has left of a kept rule's counter: the committed one, or the copy. -/
structure KeptRule.Settled (k : KeptRule) (limits : Table Nat Limit) (e : Nat) : Prop where
  same : k.copied = k.loaded → (limits.view e k.limitId).map Limit.currentValue =
    (limits.committed k.limitId).map Limit.currentValue
  differs : k.copied ≠ k.loaded → ∃ row, limits.pending e k.limitId = some (some row) ∧
    row.currentValue = k.copied

structure Flushing (limits : Table Nat Limit) (limitIds : List Nat) (e : Nat) (todo : List LimitWrite)
    (kept : List KeptRule) : Prop where
  distinct : (targets todo).Nodup
  known : ∀ id ∈ targets todo, id ∈ limitIds
  keptKnown : ∀ k ∈ kept, k.limitId ∈ limitIds
  untouched : ∀ id ∈ targets todo, limits.pending e id = none
  rules : ∀ k ∈ kept, (∃ maxValue resetAt,
      .update k.limitId maxValue (changed k.loaded k.copied) resetAt ∈ todo) ∨
    k.limitId ∉ targets todo ∧ k.Settled limits e

/-- Where the edit `e` can be before it commits. -/
def EditAt (limits : Table Nat Limit) (limitIds : List Nat) (e : Nat) : Pc → Prop
  | .idle | .rollback => True
  | .edit _ | .editLimits _ _ => ∀ id, limits.pending e id = none
  | .editKey _ rows _ | .editReload _ rows _ | .upsertLimits _ rows _ =>
    (∀ id, limits.pending e id = none) ∧ (rows.map Limit.identity).Nodup
  | .writeLimits todo kept => Flushing limits limitIds e todo kept
  | _ => False

def EditPoint (e : Nat) (s : Sys) : Prop := EditAt s.limits s.limitIds e (s.calls e)

section Others

variable {limits limits' : Table Nat Limit} {e c : Nat} {commits : Bool}

theorem KeptRule.Settled.other {k : KeptRule} (h : k.Settled limits e) (other : e ≠ c)
    (move : Table.Move c commits limits limits') : k.Settled limits' e where
  same := by
    intro equal
    by_cases held : limits.pending e k.limitId = none
    · rw [Table.view_of_none ((move.pending_other other k.limitId).trans held)]
    · have view : limits'.view e k.limitId = limits.view e k.limitId := by
        simp only [Table.view]
        rw [move.pending_other other, move.committed_of_held other held]
      rw [view, move.committed_of_held other held]
      exact h.same equal
  differs := by
    intro unequal
    obtain ⟨row, held, value⟩ := h.differs unequal
    exact ⟨row, (move.pending_other other k.limitId).trans held, value⟩

/-- The edit stays where it is while another call takes a step. -/
theorem EditPoint.other {s t : Sys} (h : EditPoint e s) (other : e ≠ c)
    (move : Table.Move c commits s.limits t.limits) (calls : t.calls e = s.calls e)
    (ids : ∀ id ∈ s.limitIds, id ∈ t.limitIds) : EditPoint e t := by
  have pending : ∀ id, s.limits.pending e id = none → t.limits.pending e id = none :=
    fun id free => (move.pending_other other id).trans free
  simp only [EditPoint] at h ⊢
  rw [calls]
  cases hpc : s.calls e with
  | idle | rollback => trivial
  | edit | editLimits =>
    rw [hpc] at h
    exact fun id => pending id (h id)
  | editKey | editReload | upsertLimits =>
    rw [hpc] at h
    exact ⟨fun id => pending id (h.1 id), h.2⟩
  | writeLimits todo kept =>
    rw [hpc] at h
    refine ⟨h.distinct, fun id hid => ids id (h.known id hid), fun k hk => ids _ (h.keptKnown k hk),
      fun id hid => pending id (h.untouched id hid), ?_⟩
    intro k hk
    exact (h.rules k hk).imp_right fun done => ⟨done.1, done.2.other other move⟩
  | _ =>
    rw [hpc] at h
    exact h.elim

theorem EditPoint.step_other {pricing : Pricing} {s t : Sys} (h : EditPoint e s) {a : Act}
    (other : a.call ≠ e) (hstep : step pricing s a = some t) : EditPoint e t := by
  cases a with
  | start c request =>
    simp only [step] at hstep
    split at hstep
    · cases hstep
      refine h.other (Ne.symm other) (.rollback _) ?_ fun _ hid => hid
      simp [Sys.close, Sys.goto, (Ne.symm other : e ≠ c)]
    · cases hstep
  | abort c =>
    cases hstep
    exact h.other (Ne.symm other) (.rollback _) (if_neg (Ne.symm other)) fun _ hid => hid
  | run c env =>
    obtain ⟨st, s', reply, pc, _, hexec, _, rfl⟩ := step_run hstep
    have effect := exec_effect hexec
    refine h.other (Ne.symm other) effect.limits ?_ effect.limitIds
    exact (if_neg (Ne.symm other)).trans (congrFun effect.calls e)

end Others

section Own

variable {pricing : Pricing} {e : Nat} {s t : Sys}

theorem buildRows_identity {args : EditArgs} {existing : List (Nat × Limit)}
    {rules : List LimitRuleInput} {logged : List Int} {rows : List Limit}
    (h : buildRows args existing rules logged = some rows) :
    rows.map Limit.identity = rules.map LimitRuleInput.identity := by
  have row : ∀ {rule value resetAt l}, limitInputToRow args rule value resetAt = some l →
      l.identity = rule.identity := by
    intro rule value resetAt l hl
    simp only [limitInputToRow] at hl
    split at hl
    · cases hl
    · cases hl
      rfl
  induction rules generalizing logged rows with
  | nil =>
    cases h
    rfl
  | cons rule rules ih =>
    simp only [buildRows] at h
    split at h
    · obtain ⟨l, hl, h⟩ := Option.bind_eq_some_iff.mp h
      obtain ⟨rest, hrest, h⟩ := Option.bind_eq_some_iff.mp h
      cases h
      rw [List.map_cons, List.map_cons, row hl, ih hrest]
    · obtain ⟨l, hl, h⟩ := Option.bind_eq_some_iff.mp h
      obtain ⟨rest, hrest, h⟩ := Option.bind_eq_some_iff.mp h
      cases h
      rw [List.map_cons, List.map_cons, row hl, ih hrest]

theorem buildLimitRows_nodup {args : EditArgs} {existing : List (Nat × Limit)} {logged : List Int}
    {rows : List Limit} (h : buildLimitRowsForUpdate args existing logged = some rows) :
    (rows.map Limit.identity).Nodup := by
  simp only [buildLimitRowsForUpdate] at h
  split at h
  · rename_i distinct
    rw [buildRows_identity h]
    exact distinct
  · cases h

theorem merge_ids (loaded : IdentityMap) (rows : List (Nat × Limit)) :
    (loaded.merge rows).map Prod.fst = rows.map Prod.fst := by
  simp only [IdentityMap.merge]
  rw [List.map_map]
  rfl

/-- Before its first statement the flush has touched nothing. -/
theorem flushing_begin {limits : Table Nat Limit} {limitIds : List Nat}
    {existing : List (Nat × Limit)} {rows : List Limit} (free : ∀ id, limits.pending e id = none)
    (ids : (existing.map Prod.fst).Nodup) (known : ∀ id ∈ existing.map Prod.fst, id ∈ limitIds)
    (distinct : (rows.map Limit.identity).Nodup) :
    Flushing limits limitIds e (flushWrites existing rows) (keptRules existing rows) where
  distinct := targets_nodup ids distinct
  known := fun id hid => known id (targets_existing hid)
  keptKnown := by
    intro k hk
    obtain ⟨m, hm, rfl⟩ := List.mem_map.mp hk
    exact known _ (List.mem_map.mpr ⟨_, (mem_matchedRows hm).2.1, rfl⟩)
  untouched := fun id _ => free id
  rules := by
    intro k hk
    obtain ⟨⟨id, loaded, row⟩, hm, rfl⟩ := List.mem_map.mp hk
    cases hupdate : updateOf id loaded row with
    | some w =>
      refine Or.inl ⟨changed loaded.maxValue row.maxValue, changed loaded.resetAt row.resetAt, ?_⟩
      rw [updateOf_target hupdate] at hupdate
      simp only [flushWrites]
      refine List.mem_append_left _ (List.mem_append_right _ ?_)
      exact List.mem_filterMap.mpr ⟨_, List.mem_mergeSort.mpr hm, hupdate⟩
    | none =>
      have equal : row.currentValue = loaded.currentValue := by
        simp only [updateOf] at hupdate
        split at hupdate
        · rename_i columns
          exact columns.2.1
        · cases hupdate
      refine Or.inr ⟨?_, ?_, fun unequal => absurd equal unequal⟩
      · exact not_mem_targets_of_unchanged ids distinct hm hupdate
      · intro _
        rw [Table.view_of_none (free id)]

theorem select_ids {limits : Nat → Option Limit} {snap : Snapshot} {env : Env} {keyId : String}
    {rows : List (Nat × Limit)} (hlimits : snap.limits = limits) (h : snap.select env keyId = some rows) :
    (rows.map Prod.fst).Nodup ∧ ∀ id ∈ rows.map Prod.fst, limits id ≠ none := by
  have planned : Planned limits rows [] := planned_of_select hlimits h
  refine ⟨planned.distinct, ?_⟩
  intro id hid
  obtain ⟨p, hp, rfl⟩ := List.mem_map.mp hid
  obtain ⟨row, hrow, _⟩ := planned.loaded p hp
  simp [hrow]

/-- Writing a row that no later statement of the flush touches. -/
theorem Flushing.put {limits limits' : Table Nat Limit} {limitIds limitIds' : List Nat} {w : LimitWrite}
    {todo : List LimitWrite} {kept : List KeptRule} {id : Nat}
    (h : Flushing limits limitIds e (w :: todo) kept)
    (ids : ∀ id ∈ limitIds, id ∈ limitIds')
    (committed : limits'.committed = limits.committed)
    (others : ∀ k, k ≠ id → limits'.pending e k = limits.pending e k)
    (apart : id ∉ targets todo)
    (own : ∀ k ∈ kept, k.limitId = id → k.Settled limits' e)
    (passes : ∀ k ∈ kept, k.limitId ≠ id → ∀ maxValue value resetAt,
      w ≠ .update k.limitId maxValue value resetAt) :
    Flushing limits' limitIds' e todo kept := by
  have later : ∀ k ∈ targets todo, k ∈ targets (w :: todo) := by
    intro k hk
    simp only [targets] at hk ⊢
    rw [List.filterMap_cons]
    split
    · exact hk
    · exact List.mem_cons_of_mem _ hk
  refine ⟨?_, fun k hk => ids k (h.known k (later k hk)), fun k hk => ids _ (h.keptKnown k hk), ?_, ?_⟩
  · have distinct := h.distinct
    simp only [targets] at distinct ⊢
    rw [List.filterMap_cons] at distinct
    split at distinct
    · exact distinct
    · exact (List.nodup_cons.mp distinct).2
  · intro k hk
    have elsewhere : k ≠ id := fun same => apart (same ▸ hk)
    exact (others k elsewhere).trans (h.untouched k (later k hk))
  · intro k hk
    by_cases same : k.limitId = id
    · exact Or.inr ⟨same ▸ apart, own k hk same⟩
    · rcases h.rules k hk with ⟨maxValue, resetAt, hmem⟩ | ⟨fresh, settled⟩
      · rcases List.mem_cons.mp hmem with head | hmem
        · exact absurd head.symm (passes k hk same _ _ _)
        · exact Or.inl ⟨maxValue, resetAt, hmem⟩
      · refine Or.inr ⟨fun hin => fresh (later _ hin), ?_, ?_⟩
        · intro equal
          simp only [Table.view]
          rw [others _ same, committed]
          exact settled.same equal
        · intro unequal
          rw [others _ same]
          exact settled.differs unequal

theorem Flushing.head {limits : Table Nat Limit} {limitIds : List Nat} {w : LimitWrite}
    {todo : List LimitWrite} {kept : List KeptRule} {id : Nat}
    (h : Flushing limits limitIds e (w :: todo) kept) (target : w.target = some id) :
    id ∉ targets todo ∧ limits.pending e id = none ∧ ∀ k ∈ kept, k.limitId = id →
      ∃ maxValue resetAt, w = .update id maxValue (changed k.loaded k.copied) resetAt := by
  have first : targets (w :: todo) = id :: targets todo := by
    simp only [targets]
    rw [List.filterMap_cons, target]
  have distinct := h.distinct
  rw [first, List.nodup_cons] at distinct
  have here : id ∈ targets (w :: todo) := first ▸ List.mem_cons_self
  refine ⟨distinct.1, h.untouched id here, ?_⟩
  rintro k hk rfl
  rcases h.rules k hk with ⟨maxValue, resetAt, hmem⟩ | ⟨fresh, _⟩
  · rcases List.mem_cons.mp hmem with head | hmem
    · exact ⟨maxValue, resetAt, head.symm⟩
    · have again : k.limitId ∈ targets todo := List.mem_filterMap.mpr ⟨_, hmem, rfl⟩
      exact absurd again distinct.1
  · exact absurd here fresh

/-- One statement of the flush. -/
theorem Flushing.write {w : LimitWrite} {todo : List LimitWrite} {kept : List KeptRule} {env : Env}
    {reply : Reply} {pc : Pc} (h : Flushing s.limits s.limitIds e (w :: todo) kept)
    (hexec : s.exec e env w.statement = some (t, reply))
    (hresume : resume pricing env (.writeLimits (w :: todo) kept) reply = some pc) :
    pc = .rollback ∨ pc = .writeLimits todo kept ∧ Flushing t.limits t.limitIds e todo kept := by
  cases w with
  | insert row =>
    cases hresume
    refine Or.inr ⟨rfl, ?_⟩
    simp only [LimitWrite.statement, Sys.exec] at hexec
    split at hexec
    · cases hexec
    · rename_i fresh
      obtain ⟨limits, hwrite, heq⟩ := Option.map_eq_some_iff.mp hexec
      obtain ⟨free, rfl⟩ := Table.write_eq_some.mp hwrite
      cases heq
      refine h.put (fun id hid => List.mem_cons_of_mem _ hid) rfl
        (fun k hk => if_neg fun both => hk both.2) ?_ ?_ ?_
      · exact fun hin => fresh (h.known env.rowId hin)
      · exact fun k hk same => absurd (same ▸ h.keptKnown k hk) fresh
      · intro k hk elsewhere m v r head
        cases head
  | update id maxValue value resetAt =>
    obtain ⟨apart, free, own⟩ := h.head rfl
    rcases exec_updateLimit hexec with ⟨rfl, rfl, _⟩ | ⟨rfl, row, unlocked, hrow, _, rfl⟩
    · cases hresume
      exact Or.inl rfl
    · cases hresume
      refine Or.inr ⟨rfl, h.put (fun id hid => hid) rfl (fun k hk => if_neg fun both => hk both.2) apart ?_ ?_⟩
      · rintro k hk rfl
        obtain ⟨_, _, head⟩ := own k hk rfl
        cases head
        have committed : s.limits.committed k.limitId = some row := by
          rw [← Table.view_of_none free, hrow]
        constructor
        · intro equal
          rw [Table.view_put_self, Table.committed_put, committed]
          simp [changed, equal]
        · intro unequal
          exact ⟨_, if_pos ⟨rfl, rfl⟩, by simp [changed, unequal]⟩
      · rintro k hk elsewhere m v r head
        cases head
        exact elsewhere rfl
  | delete id =>
    obtain ⟨apart, _, own⟩ := h.head rfl
    have notKept : ∀ k ∈ kept, k.limitId ≠ id := by
      intro k hk same
      obtain ⟨_, _, head⟩ := own k hk same
      cases head
    have passes : ∀ k ∈ kept, k.limitId ≠ id → ∀ m v r,
        LimitWrite.delete id ≠ .update k.limitId m v r := by
      intro k hk elsewhere m v r head
      cases head
    cases hresume
    refine Or.inr ⟨rfl, ?_⟩
    simp only [LimitWrite.statement, Sys.exec] at hexec
    split at hexec
    · obtain ⟨limits, hwrite, heq⟩ := Option.map_eq_some_iff.mp hexec
      obtain ⟨free, rfl⟩ := Table.write_eq_some.mp hwrite
      cases heq
      exact h.put (fun id hid => hid) rfl (fun k hk => if_neg fun both => hk both.2) apart
        (fun k hk same => absurd same (notKept k hk)) passes
    · cases hexec
      exact h.put (fun id hid => hid) rfl (fun _ _ => rfl) apart
        (fun k hk same => absurd same (notKept k hk)) passes

/-- A statement of the edit: it reaches its next point, and the others do not see it. -/
theorem EditPoint.step_own {env : Env} (listed : Listed s) (h : EditPoint e s)
    (uncommitted : ∀ kept, s.calls e ≠ .writeLimits [] kept)
    (hstep : step pricing s (.run e env) = some t) :
    EditPoint e t ∧ ∀ s', Erased e s s' → Erased e t s' := by
  obtain ⟨st, u, reply, pc, hst, hexec, hresume, rfl⟩ := step_run hstep
  have unseen : st.commits = false → st.draws = false →
      ∀ s', Erased e s s' → Erased e (u.goto e pc) s' := by
    intro quiet drawless s' erased
    have effect := exec_effect hexec
    have limits := effect.limits
    have reservations := effect.reservations
    rw [quiet] at limits reservations
    refine ⟨erased.keys.trans effect.keys.symm, erased.limits.trans limits.rollback_eq.symm,
      erased.reservations.trans reservations.rollback_eq.symm, ?_,
      erased.drawn.trans (effect.drawn drawless).symm,
      fun id hid => effect.limitIds id (erased.limitIds id hid)⟩
    intro c other
    rw [erased.calls c other]
    exact ((if_neg other).trans (congrFun effect.calls c)).symm
  have point : (u.goto e pc).calls e = pc := if_pos rfl
  simp only [EditPoint] at h ⊢
  rw [point]
  cases hpc : s.calls e with
  | idle =>
    rw [hpc] at hst
    cases hst
  | rollback =>
    rw [hpc] at hst hresume
    cases hst
    cases hresume
    exact ⟨trivial, unseen rfl rfl⟩
  | edit args =>
    rw [hpc] at h hst hresume
    cases hst
    cases hexec
    obtain ⟨rows, _, rfl⟩ := Option.map_eq_some_iff.mp hresume
    refine ⟨?_, unseen rfl rfl⟩
    split
    · exact h
    · trivial
  | editLimits args loaded =>
    rw [hpc] at h hst hresume
    cases hst
    cases hexec
    obtain ⟨rows, _, rfl⟩ := Option.map_eq_some_iff.mp hresume
    refine ⟨?_, unseen rfl rfl⟩
    cases hbuilt : buildLimitRowsForUpdate args (loaded.merge rows) env.logged with
    | some built => exact ⟨h, buildLimitRows_nodup hbuilt⟩
    | none => trivial
  | editKey args built loaded =>
    rw [hpc] at h hst hresume
    cases hst
    cases hexec
    obtain ⟨rows, _, rfl⟩ := Option.map_eq_some_iff.mp hresume
    refine ⟨?_, unseen rfl rfl⟩
    split
    · exact h
    · trivial
  | editReload args built loaded =>
    rw [hpc] at h hst hresume
    cases hst
    cases hexec
    obtain ⟨rows, _, rfl⟩ := Option.map_eq_some_iff.mp hresume
    exact ⟨h, unseen rfl rfl⟩
  | upsertLimits args built loaded =>
    rw [hpc] at h hst hresume
    cases hst
    cases hexec
    obtain ⟨rows, hrows, rfl⟩ := Option.map_eq_some_iff.mp hresume
    obtain ⟨ids, visible⟩ := select_ids rfl hrows
    refine ⟨flushing_begin h.1 ?_ ?_ h.2, unseen rfl rfl⟩
    · rw [merge_ids]
      exact ids
    · intro id hid
      rw [merge_ids] at hid
      exact listed.view (visible id hid)
  | writeLimits todo kept =>
    rw [hpc] at h hst hresume
    cases todo with
    | nil => exact absurd hpc (uncommitted kept)
    | cons w todo =>
      cases hst
      have quiet : w.statement.commits = false ∧ w.statement.draws = false := by
        cases w <;> exact ⟨rfl, rfl⟩
      refine ⟨?_, unseen quiet.1 quiet.2⟩
      rcases h.write hexec hresume with rfl | ⟨rfl, flushing⟩
      · trivial
      · exact flushing
  | _ =>
    rw [hpc] at h
    exact h.elim

end Own

section Claims

/-- The steps of the other calls. -/
def without (e : Nat) (acts : List Act) : List Act := acts.filter fun a => a.call ≠ e

/-- The edit has sent its statements and commits next. -/
def Pc.flushed : Pc → Option (List KeptRule)
  | .writeLimits [] kept => some kept
  | _ => none

theorem Pc.eq_of_flushed {pc : Pc} {kept : List KeptRule} (h : pc.flushed = some kept) :
    pc = .writeLimits [] kept := by
  simp only [Pc.flushed] at h
  split at h
  · cases h
    rfl
  · cases h

variable {pricing : Pricing} {e : Nat} {s t : Sys}

theorem run_flushed {env : Env} {kept : List KeptRule} (hpc : s.calls e = .writeLimits [] kept)
    (hstep : step pricing s (.run e env) = some t) :
    t.limits.committed = s.limits.view e ∧ t.calls e = .idle := by
  obtain ⟨st, u, reply, pc, hst, hexec, hresume, rfl⟩ := step_run hstep
  rw [hpc] at hst hresume
  cases hst
  cases hexec
  cases hresume
  exact ⟨rfl, if_pos rfl⟩

theorem idle_step {a : Act} (idle : s.calls e = .idle) (other : ∀ request, a ≠ .start e request)
    (hstep : step pricing s a = some t) : t.calls e = .idle := by
  cases a with
  | start c request =>
    have elsewhere : e ≠ c := fun same => other request (same ▸ rfl)
    simp only [step] at hstep
    split at hstep
    · cases hstep
      simp [Sys.close, Sys.goto, elsewhere, idle]
    · cases hstep
  | abort c =>
    cases hstep
    by_cases same : e = c
    · simp [Sys.close, Sys.goto, same]
    · simp [Sys.close, Sys.goto, same, idle]
  | run c env =>
    obtain ⟨st, u, reply, pc, hst, hexec, _, rfl⟩ := step_run hstep
    by_cases same : e = c
    · subst same
      rw [idle] at hst
      cases hst
    · exact (if_neg same).trans ((congrFun (exec_effect hexec).calls e).trans idle)

theorem idle_replay {acts : List Act} (idle : s.calls e = .idle)
    (alone : ∀ request, .start e request ∉ acts) (h : replay (step pricing) s acts = some t) :
    t.calls e = .idle := by
  induction acts generalizing s with
  | nil =>
    cases h
    exact idle
  | cons a acts ih =>
    obtain ⟨u, hu, htail⟩ := Option.bind_eq_some_iff.mp h
    have next := idle_step idle (fun request same => alone request (same ▸ List.mem_cons_self)) hu
    exact ih next (fun request hin => alone request (List.mem_cons_of_mem a hin)) htail

/-- Up to its flush, the run without the edit goes as the run with it. -/
theorem replay_erased {s' : Sys} {acts : List Act} {kept : List KeptRule} (listed : Listed s)
    (point : EditPoint e s) (erased : Erased e s s') (alone : ∀ request, .start e request ∉ acts)
    (h : replay (step pricing) s acts = some t) (hpc : t.calls e = .writeLimits [] kept) :
    EditPoint e t ∧ ∃ t', replay (step pricing) s' (without e acts) = some t' ∧ Erased e t t' := by
  induction acts generalizing s s' with
  | nil =>
    cases h
    exact ⟨point, s', rfl, erased⟩
  | cons a acts ih =>
    obtain ⟨u, hu, htail⟩ := Option.bind_eq_some_iff.mp h
    have alone' : ∀ request, .start e request ∉ acts :=
      fun request hin => alone request (List.mem_cons_of_mem a hin)
    have stays : u.calls e ≠ .idle := by
      intro idle
      have done := idle_replay idle alone' htail
      rw [hpc] at done
      cases done
    by_cases own : a.call = e
    · have skip : without e (a :: acts) = without e acts := by simp [without, own]
      rw [skip]
      cases a with
      | start c request =>
        cases own
        exact absurd List.mem_cons_self (alone request)
      | abort c =>
        cases own
        cases hu
        exact absurd (if_pos rfl) stays
      | run c env =>
        cases own
        have uncommitted : ∀ kept, s.calls c ≠ .writeLimits [] kept :=
          fun kept hs => stays (run_flushed hs hu).2
        obtain ⟨point', unseen⟩ := point.step_own listed uncommitted hu
        exact ih (listed.step hu) point' (unseen s' erased) alone' htail
    · have keep : without e (a :: acts) = a :: without e acts := by simp [without, own]
      rw [keep]
      obtain ⟨u', hu', erased'⟩ := step_erased erased own hu
      obtain ⟨last, t', htail', erased''⟩ :=
        ih (listed.step hu) (point.step_other own hu) erased' alone' htail
      refine ⟨last, t', ?_, erased''⟩
      rw [replay, hu']
      exact htail'

/-- For every interleaving with other calls: after the commit of an edit a kept rule counts
what the same steps of the others count without the edit, exactly if the copied counter was
still there when the rows were loaded again, or is there when the copy is written. -/
theorem edit_keeps_usage_iff {s₀ s₁ : Sys} {args : EditArgs} {acts : List Act}
    {kept : List KeptRule} {k : KeptRule} {env : Env} (listed : Listed s₀)
    (hstart : step pricing s₀ (.start e (.updateKey args)) = some s₁)
    (alone : ∀ request, .start e request ∉ acts) (hrun : replay (step pricing) s₁ acts = some s)
    (flushed : (s.calls e).flushed = some kept) (hk : k ∈ kept)
    (hcommit : step pricing s (.run e env) = some t) :
    ∃ s', replay (step pricing) (s₀.close e) (without e acts) = some s' ∧
      ((t.limits.committed k.limitId).map Limit.currentValue =
          (s'.limits.committed k.limitId).map Limit.currentValue ↔
        k.copied = k.loaded ∨
          (s.limits.committed k.limitId).map Limit.currentValue = some k.copied) := by
  have hpc := Pc.eq_of_flushed flushed
  simp only [step] at hstart
  split at hstart
  rotate_left
  · cases hstart
  cases hstart
  have begins : EditPoint e ((s₀.close e).goto e (.edit args)) := by
    have entry : ((s₀.close e).goto e (.edit args)).calls e = .edit args := if_pos rfl
    simp only [EditPoint]
    rw [entry]
    exact fun id => if_pos rfl
  have apart : Erased e ((s₀.close e).goto e (.edit args)) (s₀.close e) :=
    ⟨rfl, (s₀.limits.rollback_idem e).symm, (s₀.reservations.rollback_idem e).symm,
      fun c other => (if_neg other).symm, rfl, fun _ hid => hid⟩
  have listed₁ : Listed ((s₀.close e).goto e (.edit args)) := listed.close e
  obtain ⟨point, s', hrun', erased⟩ := replay_erased listed₁ begins apart alone hrun hpc
  refine ⟨s', hrun', ?_⟩
  have committed : s'.limits.committed = s.limits.committed := by rw [erased.limits]; rfl
  simp only [EditPoint] at point
  rw [hpc] at point
  obtain ⟨_, settled⟩ := (point.rules k hk).resolve_left <| by
    rintro ⟨_, _, hin⟩
    cases hin
  rw [(run_flushed hpc hcommit).1, committed]
  by_cases equal : k.copied = k.loaded
  · exact iff_of_true (settled.same equal) (Or.inl equal)
  · obtain ⟨row, held, value⟩ := settled.differs equal
    have copied : (s.limits.view e k.limitId).map Limit.currentValue = some k.copied := by
      simp [Table.view, held, value]
    rw [copied]
    constructor
    · exact fun same => Or.inr same.symm
    · exact fun h => (h.resolve_left equal).symm

def raiseLimit : EditArgs := ⟨"key", [⟨.totalTokens, .daily, 200, none⟩], 10⟩

/-- A request reserves seven tokens between two groups of steps of an edit. -/
def reserveBetween (before after : Nat) : List Act :=
  let env : Env := { order := [1], uuid := "r" }
  List.replicate before (.run 1 env) ++
    [.start 0 (.enforceLimits ⟨"key", none, none, some ⟨some 3, some 4⟩, 10⟩),
      .run 0 env, .run 0 env, .run 0 env, .run 0 env] ++
    List.replicate after (.run 1 env)

theorem listed_dailyTokens : Listed dailyTokens := by
  rintro id (present | ⟨c, held⟩)
  · by_cases one : id = 1
    · exact one ▸ List.mem_cons_self
    · exact absurd (if_neg one) present
  · exact absurd rfl held

theorem reserveBetween_alone (before after : Nat) (request : Request) :
    .start 1 request ∉ reserveBetween before after := by
  simp [reserveBetween]

/-- Reserved after the rows were loaded again: the edit does not write the counter. -/
theorem edit_keeps_late_reservation :
    ∃ s₁ s t s', step unpriced dailyTokens (.start 1 (.updateKey raiseLimit)) = some s₁ ∧
      replay (step unpriced) s₁ (reserveBetween 4 2) = some s ∧
      step unpriced s (.run 1 {}) = some t ∧
      replay (step unpriced) (dailyTokens.close 1) (without 1 (reserveBetween 4 2)) = some s' ∧
      (t.limits.committed 1).map Limit.currentValue = some 7 ∧
      (s'.limits.committed 1).map Limit.currentValue = some 7 := by
  have run : ((step unpriced dailyTokens (.start 1 (.updateKey raiseLimit))).bind fun s₁ =>
      (replay (step unpriced) s₁ (reserveBetween 4 2)).bind fun s =>
        (step unpriced s (.run 1 {})).map fun t => decide ((s.calls 1).flushed = some [⟨1, 0, 0⟩] ∧
          (t.limits.committed 1).map Limit.currentValue = some 7)) = some true := by decide +kernel
  obtain ⟨s₁, hstart, run⟩ := Option.bind_eq_some_iff.mp run
  obtain ⟨s, hrun, run⟩ := Option.bind_eq_some_iff.mp run
  obtain ⟨t, hcommit, checked⟩ := Option.map_eq_some_iff.mp run
  obtain ⟨flushed, value⟩ := of_decide_eq_true checked
  obtain ⟨s', hrun', kept⟩ := edit_keeps_usage_iff (k := ⟨1, 0, 0⟩) listed_dailyTokens hstart
    (reserveBetween_alone 4 2) hrun flushed List.mem_cons_self hcommit
  exact ⟨s₁, s, t, s', hstart, hrun, hcommit, hrun', value, (kept.mpr (Or.inl rfl)).symm.trans value⟩

/-- Reserved between the first read and the reload: the edit writes the old counter back. -/
theorem edit_loses_reservation :
    ¬ ∀ (s₁ s t s' : Sys) (acts : List Act) (kept : List KeptRule) (k : KeptRule),
      step unpriced dailyTokens (.start 1 (.updateKey raiseLimit)) = some s₁ →
      (∀ request, .start 1 request ∉ acts) → replay (step unpriced) s₁ acts = some s →
      (s.calls 1).flushed = some kept → k ∈ kept → step unpriced s (.run 1 {}) = some t →
      replay (step unpriced) (dailyTokens.close 1) (without 1 acts) = some s' →
      (t.limits.committed k.limitId).map Limit.currentValue =
        (s'.limits.committed k.limitId).map Limit.currentValue := by
  intro claim
  have run : ((step unpriced dailyTokens (.start 1 (.updateKey raiseLimit))).bind fun s₁ =>
      (replay (step unpriced) s₁ (reserveBetween 2 4)).bind fun s =>
        (step unpriced s (.run 1 {})).bind fun t =>
          (replay (step unpriced) (dailyTokens.close 1) (without 1 (reserveBetween 2 4))).map fun s' =>
            decide ((s.calls 1).flushed = some [⟨1, 0, 7⟩] ∧
              (t.limits.committed 1).map Limit.currentValue = some 0 ∧
              (s'.limits.committed 1).map Limit.currentValue = some 7)) = some true := by decide +kernel
  obtain ⟨s₁, hstart, run⟩ := Option.bind_eq_some_iff.mp run
  obtain ⟨s, hrun, run⟩ := Option.bind_eq_some_iff.mp run
  obtain ⟨t, hcommit, run⟩ := Option.bind_eq_some_iff.mp run
  obtain ⟨s', hrun', checked⟩ := Option.map_eq_some_iff.mp run
  obtain ⟨flushed, lost, counted⟩ := of_decide_eq_true checked
  have same := claim s₁ s t s' _ _ ⟨1, 0, 7⟩ hstart (reserveBetween_alone 2 4) hrun flushed
    List.mem_cons_self hcommit hrun'
  have impossible : some (0 : Int) = some 7 := lost.symm.trans (same.trans counted)
  cases impossible

end Claims

end ApiKeys
