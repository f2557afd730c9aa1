import LivingBalancer.ApiKeys.Operations

/-!
# A run without one of its calls

Until it commits, a call is seen by the others only through its row locks. Taking it out of
a run therefore leaves a run: the others take the same steps, and the committed rows are the
same. This is the meaning of "what the others would have produced without it".
-/

namespace ApiKeys

open Runs

def Act.call : Act → Nat
  | .start c _ | .run c _ | .abort c => c

/-- `s'` is `s` without the session of call `e` and the row ids that only `e` was given. -/
structure Erased (e : Nat) (s s' : Sys) : Prop where
  keys : s'.keys = s.keys
  limits : s'.limits = s.limits.rollback e
  reservations : s'.reservations = s.reservations.rollback e
  calls : ∀ c, c ≠ e → s'.calls c = s.calls c
  drawn : s'.drawn = s.drawn
  limitIds : ∀ id ∈ s'.limitIds, id ∈ s.limitIds

/-- The same answer, up to the row ids given out. -/
inductive Reply.Same : Reply → Reply → Prop where
  | rows (snap : Snapshot) (ids : List Nat) (fewer : ∀ id ∈ ids, id ∈ snap.limitIds) :
      Reply.Same (.rows snap) (.rows { snap with limitIds := ids })
  | hit : Reply.Same .hit .hit
  | miss : Reply.Same .miss .miss

section Answers

variable {snap : Snapshot} {ids : List Nat}

theorem select_of_fewer (fewer : ∀ id ∈ ids, id ∈ snap.limitIds) {env : Env} {keyId : String}
    {rows : List (Nat × Limit)} (h : snap.select env keyId = some rows) :
    Snapshot.select { snap with limitIds := ids } env keyId = some rows := by
  simp only [Snapshot.select] at h ⊢
  split at h
  · rename_i listed
    have listed' : Snapshot.listedBy { snap with limitIds := ids } env.order :=
      ⟨listed.1, fun id hid => listed.2 id (fewer id hid)⟩
    rw [if_pos listed']
    exact h
  · cases h

theorem nextStale_of_fewer (cutoff : Int) (batchSize : Nat) (reservationIds : List String) :
    nextStale { snap with limitIds := ids } cutoff batchSize reservationIds =
      nextStale snap cutoff batchSize reservationIds := by
  induction reservationIds with
  | nil => rfl
  | cons id rest ih =>
    rw [nextStale, nextStale, ih]
    rfl

/-- A call does not see which row ids were given out. -/
theorem resume_same {pricing : Pricing} {env : Env} {pc pc' : Pc} {reply reply' : Reply}
    (same : Reply.Same reply reply') (h : resume pricing env pc reply = some pc') :
    resume pricing env pc reply' = some pc' := by
  cases same with
  | hit => exact h
  | miss => exact h
  | rows snap ids fewer =>
    cases pc with
    | enforce | edit | editLimits | editKey | editReload | upsertLimits =>
      obtain ⟨rows, hrows, hpc⟩ := Option.map_eq_some_iff.mp h
      exact Option.map_eq_some_iff.mpr ⟨rows, select_of_fewer fewer hrows, hpc⟩
    | resetExpired now batchSize =>
      simp only [resume] at h ⊢
      split at h
      · rename_i listed
        have listed' : Snapshot.listedBy { snap with limitIds := ids } env.order :=
          ⟨listed.1, fun id hid => listed.2 id (fewer id hid)⟩
        rw [if_pos listed']
        exact h
      · cases h
    | staleItems cutoff batchSize reservationIds =>
      simp only [resume] at h ⊢
      rw [nextStale_of_fewer]
      exact h
    | writeLimits todo kept =>
      cases todo with
      | nil => exact h
      | cons w todo => cases w <;> exact h
    | _ => exact h

end Answers

variable {pricing : Pricing} {e : Nat} {s s' t : Sys}

theorem exec_erased (h : Erased e s s') {c : Nat} (other : c ≠ e) {env : Env} {st : Statement}
    {reply : Reply} (hexec : s.exec c env st = some (t, reply)) :
    ∃ t' reply', s'.exec c env st = some (t', reply') ∧ Erased e t t' ∧ Reply.Same reply reply' := by
  have limitsView : s'.limits.view c = s.limits.view c := by
    rw [h.limits]
    exact s.limits.view_rollback_other other
  have reservationsView : s'.reservations.view c = s.reservations.view c := by
    rw [h.reservations]
    exact s.reservations.view_rollback_other other
  have flag : ∀ hit : Bool, Reply.Same (if hit then .hit else .miss) (if hit then .hit else .miss) := by
    rintro (_ | _)
    · exact .miss
    · exact .hit
  cases st with
  | select =>
    cases hexec
    refine ⟨s', _, rfl, h, ?_⟩
    rw [h.keys, limitsView, reservationsView, h.drawn]
    exact .rows ⟨s.keys, s.limits.view c, s.reservations.view c, s.limitIds, s.drawn⟩ s'.limitIds h.limitIds
  | updateLimit id cond set =>
    obtain ⟨⟨limits, hit⟩, hupdate, heq⟩ := Option.map_eq_some_iff.mp hexec
    cases heq
    have hupdate' : s'.limits.update c id cond set = some (limits.rollback e, hit) := by
      rw [h.limits]
      exact Table.update_rollback_other other hupdate
    refine ⟨{ s' with limits := limits.rollback e }, if hit then .hit else .miss, ?_,
      { h with limits := rfl }, flag hit⟩
    simp only [Sys.exec]
    rw [hupdate']
    rfl
  | insertLimit row =>
    simp only [Sys.exec] at hexec
    split at hexec
    · cases hexec
    · rename_i fresh
      obtain ⟨limits, hwrite, heq⟩ := Option.map_eq_some_iff.mp hexec
      cases heq
      have hwrite' : s'.limits.write c env.rowId (some row) = some (limits.rollback e) := by
        rw [h.limits]
        exact Table.write_rollback_other other hwrite
      refine ⟨{ s' with limits := limits.rollback e, limitIds := env.rowId :: s'.limitIds }, .hit, ?_,
        { h with limits := rfl, limitIds := ?_ }, .hit⟩
      · simp only [Sys.exec]
        rw [if_neg fun given => fresh (h.limitIds _ given), hwrite']
        rfl
      · intro id hid
        rcases List.mem_cons.mp hid with rfl | hid
        · exact List.mem_cons_self
        · exact List.mem_cons_of_mem _ (h.limitIds id hid)
  | deleteLimit id =>
    simp only [Sys.exec] at hexec
    split at hexec
    · rename_i present
      obtain ⟨limits, hwrite, heq⟩ := Option.map_eq_some_iff.mp hexec
      cases heq
      have hwrite' : s'.limits.write c id none = some (limits.rollback e) := by
        rw [h.limits]
        exact Table.write_rollback_other other hwrite
      refine ⟨{ s' with limits := limits.rollback e }, .hit, ?_, { h with limits := rfl }, .hit⟩
      simp only [Sys.exec]
      rw [limitsView, if_pos present, hwrite']
      rfl
    · rename_i absent
      cases hexec
      refine ⟨s', .miss, ?_, h, .miss⟩
      simp only [Sys.exec]
      rw [limitsView, if_neg absent]
  | updateReservation id cond set =>
    obtain ⟨⟨reservations, hit⟩, hupdate, heq⟩ := Option.map_eq_some_iff.mp hexec
    cases heq
    have hupdate' : s'.reservations.update c id cond set = some (reservations.rollback e, hit) := by
      rw [h.reservations]
      exact Table.update_rollback_other other hupdate
    refine ⟨{ s' with reservations := reservations.rollback e }, if hit then .hit else .miss, ?_,
      { h with reservations := rfl }, flag hit⟩
    simp only [Sys.exec]
    rw [hupdate']
    rfl
  | insertReservation row =>
    simp only [Sys.exec] at hexec
    split at hexec
    · rename_i referenced
      split at hexec
      · cases hexec
      · rename_i fresh
        obtain ⟨reservations, hwrite, heq⟩ := Option.map_eq_some_iff.mp hexec
        cases heq
        have hwrite' : s'.reservations.write c env.uuid (some row) = some (reservations.rollback e) := by
          rw [h.reservations]
          exact Table.write_rollback_other other hwrite
        refine ⟨{ s' with reservations := reservations.rollback e, drawn := env.uuid :: s'.drawn }, .hit,
          ?_, { h with reservations := rfl, drawn := by rw [h.drawn] }, .hit⟩
        simp only [Sys.exec]
        rw [limitsView, if_pos referenced, h.drawn, if_neg fresh, hwrite']
        rfl
    · rename_i dangling
      cases hexec
      refine ⟨s', .miss, ?_, h, .miss⟩
      simp only [Sys.exec]
      rw [limitsView, if_neg dangling]
  | upsertItem id item actual =>
    simp only [Sys.exec] at hexec
    split at hexec
    · rename_i present
      obtain ⟨⟨reservations, hit⟩, hupdate, heq⟩ := Option.map_eq_some_iff.mp hexec
      cases heq
      have hupdate' := Table.update_rollback_other other hupdate
      rw [← h.reservations] at hupdate'
      refine ⟨{ s' with reservations := reservations.rollback e }, if hit then .hit else .miss, ?_,
        { h with reservations := rfl }, flag hit⟩
      simp only [Sys.exec]
      rw [limitsView, if_pos present, hupdate']
      rfl
    · rename_i absent
      cases hexec
      refine ⟨s', .miss, ?_, h, .miss⟩
      simp only [Sys.exec]
      rw [limitsView, if_neg absent]
  | commit =>
    cases hexec
    refine ⟨_, _, rfl, { h with limits := ?_, reservations := ?_ }, .hit⟩
    · rw [h.limits]
      exact (s.limits.commit_rollback_other other).symm
    · rw [h.reservations]
      exact (s.reservations.commit_rollback_other other).symm
  | rollback =>
    cases hexec
    refine ⟨_, _, rfl, { h with limits := ?_, reservations := ?_ }, .hit⟩
    · rw [h.limits]
      exact s.limits.rollback_comm e c
    · rw [h.reservations]
      exact s.reservations.rollback_comm e c

theorem Erased.goto (h : Erased e s s') (c : Nat) (pc : Pc) :
    Erased e (s.goto c pc) (s'.goto c pc) := by
  refine { h with calls := ?_ }
  intro c' other
  by_cases same : c' = c
  · simp [Sys.goto, same]
  · simp [Sys.goto, same, h.calls c' other]

theorem Erased.close (h : Erased e s s') (c : Nat) : Erased e (s.close c) (s'.close c) := by
  simp only [Sys.close]
  refine Erased.goto ?_ c .idle
  refine { h with limits := ?_, reservations := ?_ }
  · rw [h.limits]
    exact s.limits.rollback_comm e c
  · rw [h.reservations]
    exact s.reservations.rollback_comm e c

/-- The other calls take the same step without `e`. -/
theorem step_erased (h : Erased e s s') {a : Act} (other : a.call ≠ e)
    (hstep : step pricing s a = some t) : ∃ t', step pricing s' a = some t' ∧ Erased e t t' := by
  cases a with
  | start c request =>
    unfold step at hstep ⊢
    dsimp only at hstep ⊢
    rw [h.calls c other]
    split at hstep
    · rename_i idle
      cases hstep
      rw [if_pos idle]
      exact ⟨_, rfl, (h.close c).goto c request.entry⟩
    · cases hstep
  | run c env =>
    obtain ⟨st, u, reply, pc, hst, hexec, hresume, rfl⟩ := step_run hstep
    have other : c ≠ e := other
    obtain ⟨u', reply', hexec', herased, same⟩ := exec_erased h other hexec
    refine ⟨u'.goto c pc, ?_, herased.goto c pc⟩
    simp only [step]
    simp only [h.calls c other, hst, hexec', resume_same same hresume, Option.bind_eq_bind,
      Option.bind_some]
  | abort c =>
    cases hstep
    exact ⟨_, rfl, h.close c⟩

end ApiKeys
