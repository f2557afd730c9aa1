import Mathlib.Data.List.Nodup
import Mathlib.Data.List.Perm.Subperm
import LivingBalancer.QuotaPlanner.Warmups

/-!
# The warm-up budget over whole runs

Apart from the claim that succeeds, no step makes a decision executing, and none makes one
planned. An executing decision has the stamp of its claim, and an executed one a later
instant, so the claim statement counts every decision that was claimed since its boundary.
-/

namespace QuotaPlanner

open Runs

variable {maxWarmups : ℕ} {boundary : ℤ} {s t : Planner} {h : History}

/-! ## What a step does to a row -/

/-- What may become of a row when no claim succeeds: it is planned or executing only if it
was, and executed with the instant at which a call that had sent its probe completed it. -/
structure Ages (s : Planner) (d : ℕ) (row row' : Decision) : Prop where
  key : row'.idempotencyKey = row.idempotencyKey
  planned : row'.status = .planned → row.status = .planned
  executing : row'.status = .executing → row.status = .executing ∧ row'.executedAt = row.executedAt
  executed : row'.status = .executed →
    (row.status = .executed ∧ row'.executedAt = row.executedAt) ∨
    (row.status = .executing ∧ ∃ c stamp now, s.calls c = .sent d stamp ∧
      row'.executedAt = some now ∧ stamp ≤ now)

theorem Ages.refl (s : Planner) (d : ℕ) (row : Decision) : Ages s d row row where
  key := rfl
  planned h := h
  executing h := ⟨h, rfl⟩
  executed h := .inl ⟨h, rfl⟩

/-- What every step does but a claim that succeeds. -/
structure Keeps (s t : Planner) : Prop where
  next : s.nextDecision ≤ t.nextDecision
  rows : ∀ d row, s.decisions d = some row → ∃ row', t.decisions d = some row' ∧ Ages s d row row'
  old : ∀ d row', t.decisions d = some row' → s.decisions d = none → d < t.nextDecision
  gated : ∀ c d, t.calls c = .gated d → s.calls c = .gated d ∨
    ∃ row, s.decisions d = some row ∧ row.idempotencyKey.action = .warmup
  claimed : ∀ c d stamp, t.calls c = .claimed d stamp → s.calls c = .claimed d stamp
  sent : ∀ c d stamp, t.calls c = .sent d stamp → s.calls c = .sent d stamp

/-- A call that goes on, but neither to a claim nor to a probe. -/
theorem Keeps.setCall (kept : Keeps s t) (c : ℕ) {call : Call}
    (gated : ∀ d, call = .gated d →
      ∃ row, s.decisions d = some row ∧ row.idempotencyKey.action = .warmup)
    (claimed : ∀ d stamp, call ≠ .claimed d stamp) (sent : ∀ d stamp, call ≠ .sent d stamp) :
    Keeps s (t.setCall c call) where
  next := kept.next
  rows := kept.rows
  old := kept.old
  gated c' d held := by
    by_cases own : c' = c
    · rw [own, Planner.setCall_self] at held
      exact .inr (gated d held)
    · rw [Planner.setCall_ne t own] at held
      exact kept.gated c' d held
  claimed c' d stamp held := by
    by_cases own : c' = c
    · rw [own, Planner.setCall_self] at held
      exact absurd held (claimed d stamp)
    · rw [Planner.setCall_ne t own] at held
      exact kept.claimed c' d stamp held
  sent c' d stamp held := by
    by_cases own : c' = c
    · rw [own, Planner.setCall_self] at held
      exact absurd held (sent d stamp)
    · rw [Planner.setCall_ne t own] at held
      exact kept.sent c' d stamp held

theorem Keeps.idle (kept : Keeps s t) (c : ℕ) : Keeps s (t.setCall c .idle) :=
  kept.setCall c nofun nofun nofun

theorem Keeps.refl (s : Planner) : Keeps s s where
  next := Nat.le_refl _
  rows d row h := ⟨row, h, Ages.refl s d row⟩
  old d row' h gone := by
    rw [h] at gone
    cases gone
  gated _ _ held := .inl held
  claimed _ _ _ held := held
  sent _ _ _ held := held

theorem Keeps.setDecision {d : ℕ} {row row' : Decision} (found : s.decisions d = some row)
    (ages : Ages s d row row') : Keeps s (s.setDecision d row') where
  next := Nat.le_refl _
  rows d' old h := by
    by_cases own : d' = d
    · subst own
      rw [found] at h
      cases h
      exact ⟨row', s.setDecision_self d' row', ages⟩
    · exact ⟨old, (s.setDecision_ne own row').trans h, Ages.refl s d' old⟩
  old d' new h gone := by
    by_cases own : d' = d
    · subst own
      rw [found] at gone
      cases gone
    · rw [s.setDecision_ne own row', gone] at h
      cases h
  gated _ _ held := .inl held
  claimed _ _ _ held := held
  sent _ _ _ held := held

/-- An update that makes no row planned, executing or, but for a completion, executed. -/
theorem Keeps.updateDecisionStatus {d : ℕ} {status : DecisionStatus} {executedAt : Option ℤ}
    {expected : List DecisionStatus} (planned : status ≠ .planned) (executing : status ≠ .executing)
    (executed : status = .executed → expected = [.executing] ∧
      ∃ c stamp now, s.calls c = .sent d stamp ∧ executedAt = some now ∧ stamp ≤ now) :
    Keeps s (s.updateDecisionStatus d status executedAt expected) := by
  rw [Planner.updateDecisionStatus]
  split
  · rename_i row found
    split_ifs with among
    · refine Keeps.setDecision found ⟨rfl, fun same => absurd same planned,
        fun same => absurd same executing, fun same => ?_⟩
      obtain ⟨only, c, stamp, now, sent, given, later⟩ := executed same
      rw [only] at among
      refine .inr ⟨List.mem_singleton.mp among, c, stamp, now, sent, ?_, later⟩
      dsimp only
      rw [given, Option.some_or]
    · exact Keeps.refl s
  · exact Keeps.refl s

theorem Keeps.logDecision (fresh : ∀ d row, s.decisions d = some row → d < s.nextDecision)
    (key : IdempotencyKey) (status : DecisionStatus) (createdAt : ℤ) :
    Keeps s (s.logDecision key status createdAt) := by
  rw [Planner.logDecision]
  split
  · exact Keeps.refl s
  · refine ⟨Nat.le_succ _, fun d row found => ?_, fun d row' new gone => ?_, fun _ _ held => .inl held,
      fun _ _ _ held => held, fun _ _ _ held => held⟩
    · have other : d ≠ s.nextDecision := Nat.ne_of_lt (fresh d row found)
      exact ⟨row, (Function.update_of_ne other ..).trans found, Ages.refl s d row⟩
    · by_cases own : d = s.nextDecision
      · rw [own]
        exact Nat.lt_succ_self _
      · have same := (Function.update_of_ne own ..).symm.trans new
        rw [gone] at same
        cases same

/-- A call at its claim succeeds. -/
structure Claims (maxWarmups : ℕ) (s t : Planner) (c d : ℕ) (since stamp : ℤ) : Prop where
  gated : s.calls c = .gated d
  later : since ≤ stamp
  budget : s.activeWarmupsSince since < maxWarmups
  next : t.nextDecision = s.nextDecision
  row : ∃ row, s.decisions d = some row ∧ row.status = .planned ∧
    t.decisions d = some { row with status := .executing, executedAt := some stamp }
  others : ∀ d', d' ≠ d → t.decisions d' = s.decisions d'
  calls : t.calls = Function.update s.calls c (.claimed d stamp)

/-- A claim succeeds, a probe is sent, or the records of claims and probes stay. -/
theorem step_cases {a : Act} (fresh : ∀ d row, s.decisions d = some row → d < s.nextDecision)
    (hs : step maxWarmups s a = some t) :
    (∃ c d since stamp affordable, a = .claim c since stamp affordable ∧
      Claims maxWarmups s t c d since stamp ∧
      (note s a t h).claimed = (d, stamp) :: h.claimed ∧ (note s a t h).probes = h.probes) ∨
    (∃ c d stamp, s.calls c = .claimed d stamp ∧ t = s.setCall c (.sent d stamp) ∧
      (note s a t h).claimed = h.claimed ∧ (note s a t h).probes = d :: h.probes) ∨
    (Keeps s t ∧ (note s a t h).claimed = h.claimed ∧ (note s a t h).probes = h.probes) := by
  have ends : ∀ status ∈ [DecisionStatus.skipped, .failed, .canceled], ∀ (d : ℕ) executedAt
      expected, Keeps s (s.updateDecisionStatus d status executedAt expected) := by
    intro status ending d executedAt expected
    refine Keeps.updateDecisionStatus ?_ ?_ ?_
    · rintro rfl
      exact absurd ending (by decide)
    · rintro rfl
      exact absurd ending (by decide)
    · rintro rfl
      exact absurd ending (by decide)
  cases a with
  | log key status createdAt =>
    rw [step] at hs
    split_ifs at hs
    cases hs
    exact .inr (.inr ⟨Keeps.logDecision fresh key status createdAt, rfl, rfl⟩)
  | begin c key =>
    rw [step] at hs
    split at hs
    · rename_i d _ found
      split_ifs at hs with warmup
      cases hs
      refine .inr (.inr ⟨(Keeps.refl s).setCall c ?_ nofun nofun, rfl, rfl⟩)
      rintro d' ⟨⟩
      obtain ⟨row, at_, same⟩ := Planner.find_eq_some found
      exact ⟨row, at_, same ▸ warmup⟩
    · cases hs
  | gateRefused c =>
    rw [step] at hs
    split at hs
    · cases hs
      exact .inr (.inr ⟨(ends _ (by decide) _ _ _).idle c, rfl, rfl⟩)
    · cases hs
  | claim c since stamp affordable =>
    rw [step] at hs
    split at hs
    · rename_i d gated
      split_ifs at hs with later claimable
      · cases hs
        simp only [Planner.claimable, Bool.and_eq_true, decide_eq_true_eq] at claimable
        obtain ⟨⟨planned, budget⟩, -⟩ := claimable
        obtain ⟨row, found, status⟩ := (Option.any_eq_true _ _).mp planned
        have moved : s.updateDecisionStatus d .executing (some stamp) [.planned] =
            s.setDecision d { row with status := .executing, executedAt := some stamp } := by
          simp only [Planner.updateDecisionStatus, found, of_decide_eq_true status,
            List.mem_singleton, if_true, Option.some_or]
        rw [moved]
        refine .inl ⟨c, d, since, stamp, affordable, rfl, ⟨gated, later, budget, rfl, ⟨row, found,
          of_decide_eq_true status, s.setDecision_self d _⟩, fun d' other => s.setDecision_ne other _,
          rfl⟩, ?_, rfl⟩
        simp only [note, Planner.setCall_self]
      · cases hs
        refine .inr (.inr ⟨(Keeps.refl s).setCall c nofun nofun nofun, ?_, rfl⟩)
        simp only [note, Planner.setCall_self]
    · cases hs
  | skipRefused c =>
    rw [step] at hs
    split at hs
    · cases hs
      exact .inr (.inr ⟨(ends _ (by decide) _ _ _).idle c, rfl, rfl⟩)
    · cases hs
  | skipClaimed c =>
    rw [step] at hs
    split at hs
    · cases hs
      exact .inr (.inr ⟨(ends _ (by decide) _ _ _).idle c, rfl, rfl⟩)
    · cases hs
  | send c =>
    rw [step] at hs
    split at hs
    · rename_i d stamp claimed
      cases hs
      refine .inr (.inl ⟨c, d, stamp, claimed, rfl, rfl, ?_⟩)
      simp only [note, claimed]
    · cases hs
  | complete c now =>
    rw [step] at hs
    split at hs
    · rename_i d stamp sent
      split_ifs at hs with later
      cases hs
      have kept : Keeps s (s.updateDecisionStatus d .executed (some now) [.executing]) :=
        Keeps.updateDecisionStatus (fun same => by cases same) (fun same => by cases same)
          fun _ => ⟨rfl, c, stamp, now, sent, rfl, later⟩
      exact .inr (.inr ⟨kept.idle c, rfl, rfl⟩)
    · cases hs
  | fail c now =>
    rw [step] at hs
    split at hs
    · cases hs
      exact .inr (.inr ⟨(ends _ (by decide) _ _ _).idle c, rfl, rfl⟩)
    · cases hs
      exact .inr (.inr ⟨(ends _ (by decide) _ _ _).idle c, rfl, rfl⟩)
    · cases hs
  | leave c =>
    rw [step] at hs
    cases hs
    exact .inr (.inr ⟨(Keeps.refl s).idle c, rfl, rfl⟩)
  | cancel d =>
    rw [step] at hs
    cases hs
    exact .inr (.inr ⟨ends _ (by decide) _ _ _, rfl, rfl⟩)

/-! ## The invariant -/

/-- A claimed decision is a warm-up that is no longer planned, and bears an instant since its
claim while it is executing or executed. -/
def ClaimedRow (s : Planner) (d : ℕ) (stamp : ℤ) : Prop :=
  ∃ row, s.decisions d = some row ∧ row.idempotencyKey.action = .warmup ∧ row.status ≠ .planned ∧
    (row.status = .executing → row.executedAt = some stamp) ∧
    (row.status = .executed → ∃ at_, row.executedAt = some at_ ∧ stamp ≤ at_)

structure Books (maxWarmups : ℕ) (boundary : ℤ) (s : Planner) (h : History) : Prop where
  fresh : ∀ d row, s.decisions d = some row → d < s.nextDecision
  gated : ∀ c d, s.calls c = .gated d →
    ∃ row, s.decisions d = some row ∧ row.idempotencyKey.action = .warmup
  rows : ∀ p ∈ h.claimed, ClaimedRow s p.1 p.2
  once : (h.claimed.map Prod.fst).Nodup
  claimed : ∀ c d stamp, s.calls c = .claimed d stamp → (d, stamp) ∈ h.claimed ∧ d ∉ h.probes
  sent : ∀ c d stamp, s.calls c = .sent d stamp → (d, stamp) ∈ h.claimed
  sole : ∀ c c' d stamp stamp', s.calls c = .claimed d stamp → s.calls c' = .claimed d stamp' →
    c = c'
  probed : ∀ d ∈ h.probes, d ∈ h.claimed.map Prod.fst
  probes : h.probes.Nodup
  gone : ∀ d ∈ h.left, ∃ row, s.decisions d = some row ∧ row.status ≠ .planned
  left : h.left.Nodup
  within : activeClaims boundary s h ≤ maxWarmups

theorem Books.stamp_unique (books : Books maxWarmups boundary s h) {d : ℕ} {stamp stamp' : ℤ}
    (first : (d, stamp) ∈ h.claimed) (second : (d, stamp') ∈ h.claimed) : stamp = stamp' :=
  congrArg Prod.snd (List.inj_on_of_nodup_map books.once first second rfl)

theorem counted_iff {p : ℕ × ℤ} : Counted boundary s p = true ↔ boundary ≤ p.2 ∧
    ∃ row, s.decisions p.1 = some row ∧ (row.status = .executing ∨ row.status = .executed) := by
  simp only [Counted, Bool.and_eq_true, decide_eq_true_eq, Option.any_eq_true, Bool.or_eq_true]

theorem ClaimedRow.consumesBudget {d : ℕ} {stamp : ℤ} (claimed : ClaimedRow s d stamp)
    (counted : Counted boundary s (d, stamp) = true) :
    (s.decisions d).any (Decision.consumesBudget boundary) = true := by
  obtain ⟨since, row, found, status⟩ := counted_iff.mp counted
  obtain ⟨row', same, warmup, -, executing, executed⟩ := claimed
  rw [found] at same
  cases same
  rw [Option.any_eq_true]
  refine ⟨row, found, ?_⟩
  rcases status with running | done
  · simp [Decision.consumesBudget, warmup, running, executing running, since]
  · obtain ⟨at_, stamped, later⟩ := executed done
    have counts : boundary ≤ at_ := le_trans since later
    simp [Decision.consumesBudget, warmup, done, stamped, counts]

/-- The claim statement counts the decisions claimed since its boundary. -/
theorem Books.activeClaims_le (books : Books maxWarmups boundary s h) :
    activeClaims boundary s h ≤ s.activeWarmupsSince boundary := by
  have distinct : ((h.claimed.filter (Counted boundary s)).map Prod.fst).Nodup :=
    books.once.sublist (List.filter_sublist.map Prod.fst)
  have among : (h.claimed.filter (Counted boundary s)).map Prod.fst ⊆
      (List.range s.nextDecision).filter fun d =>
        (s.decisions d).any (Decision.consumesBudget boundary) := by
    intro d mem
    obtain ⟨⟨d, stamp⟩, inside, rfl⟩ := List.mem_map.mp mem
    obtain ⟨claim, counted⟩ := List.mem_filter.mp inside
    have row := books.rows _ claim
    obtain ⟨-, row', found, -⟩ := counted_iff.mp counted
    exact List.mem_filter.mpr ⟨List.mem_range.mpr (books.fresh _ _ found),
      row.consumesBudget counted⟩
  calc activeClaims boundary s h
      = ((h.claimed.filter (Counted boundary s)).map Prod.fst).length := by
        rw [List.length_map]
        exact List.countP_eq_length_filter
    _ ≤ ((List.range s.nextDecision).filter fun d =>
          (s.decisions d).any (Decision.consumesBudget boundary)).length :=
        (List.subperm_of_subset distinct among).length_le
    _ = s.activeWarmupsSince boundary := List.countP_eq_length_filter.symm

/-- A decision leaves `planned` once, since none comes back to it. -/
theorem left_note {a : Act} (books : Books maxWarmups boundary s h)
    (rows : ∀ d row, s.decisions d = some row → ∃ row', t.decisions d = some row' ∧
      (row'.status = .planned → row.status = .planned)) :
    (note s a t h).left.Nodup ∧
      ∀ d ∈ (note s a t h).left, ∃ row, t.decisions d = some row ∧ row.status ≠ .planned := by
  have leaves : ∀ d ∈ (List.range s.nextDecision).filter fun d => s.planned d && !t.planned d,
      ∃ row row', s.decisions d = some row ∧ row.status = .planned ∧ t.decisions d = some row' ∧
        row'.status ≠ .planned := by
    intro d mem
    have parts := (List.mem_filter.mp mem).2
    rw [Bool.and_eq_true, Planner.planned, Option.any_eq_true] at parts
    obtain ⟨⟨row, found, planned⟩, moved⟩ := parts
    obtain ⟨row', found', -⟩ := rows d row found
    refine ⟨row, row', found, of_decide_eq_true planned, found', ?_⟩
    simpa [Planner.planned, found'] using moved
  constructor
  · refine List.Nodup.append (List.nodup_range.filter _) books.left ?_
    intro d new old
    obtain ⟨row, -, found, planned, -, -⟩ := leaves d new
    obtain ⟨row₁, found₁, other⟩ := books.gone d old
    rw [found] at found₁
    cases found₁
    exact other planned
  · intro d mem
    rcases List.mem_append.mp mem with new | old
    · obtain ⟨-, row', -, -, found', moved⟩ := leaves d new
      exact ⟨row', found', moved⟩
    · obtain ⟨row, found, other⟩ := books.gone d old
      obtain ⟨row', found', back⟩ := rows d row found
      exact ⟨row', found', fun planned => other (back planned)⟩

/-! ## Every step keeps it -/

theorem ClaimedRow.keeps {d : ℕ} {stamp : ℤ} (books : Books maxWarmups boundary s h)
    (kept : Keeps s t) (claim : (d, stamp) ∈ h.claimed) : ClaimedRow t d stamp := by
  obtain ⟨row, found, warmup, moved, executing, executed⟩ := books.rows _ claim
  obtain ⟨row', found', ages⟩ := kept.rows d row found
  refine ⟨row', found', ages.key ▸ warmup, fun planned => moved (ages.planned planned), ?_, ?_⟩
  · intro running
    obtain ⟨ran, same⟩ := ages.executing running
    exact same.trans (executing ran)
  · intro done
    rcases ages.executed done with ⟨before, same⟩ | ⟨ran, c, stamp', now, sent, given, later⟩
    · obtain ⟨at_, stamped, since⟩ := executed before
      exact ⟨at_, same.trans stamped, since⟩
    · have own := books.stamp_unique claim (books.sent c d stamp' sent)
      exact ⟨now, given, own ▸ later⟩

theorem Keeps.counted (kept : Keeps s t) {p : ℕ × ℤ} (existing : ∃ row, s.decisions p.1 = some row)
    (counted : Counted boundary t p = true) : Counted boundary s p = true := by
  obtain ⟨since, row', found', status⟩ := counted_iff.mp counted
  obtain ⟨row, found⟩ := existing
  obtain ⟨row₁, found₁, ages⟩ := kept.rows _ _ found
  rw [found'] at found₁
  cases found₁
  refine counted_iff.mpr ⟨since, row, found, ?_⟩
  rcases status with running | done
  · exact .inl (ages.executing running).1
  · rcases ages.executed done with ⟨before, -⟩ | ⟨ran, -⟩
    · exact .inr before
    · exact .inl ran

theorem Books.keeps {g : History} (books : Books maxWarmups boundary s h) (kept : Keeps s t)
    (claimed : g.claimed = h.claimed) (probes : g.probes = h.probes) (left : g.left.Nodup)
    (gone : ∀ d ∈ g.left, ∃ row, t.decisions d = some row ∧ row.status ≠ .planned) :
    Books maxWarmups boundary t g where
  fresh d row found := by
    cases before : s.decisions d with
    | none => exact kept.old d row found before
    | some old => exact Nat.lt_of_lt_of_le (books.fresh d old before) kept.next
  gated c d held := by
    have row : ∃ row, s.decisions d = some row ∧ row.idempotencyKey.action = .warmup :=
      (kept.gated c d held).elim (books.gated c d) id
    obtain ⟨row, found, warmup⟩ := row
    obtain ⟨row', found', ages⟩ := kept.rows d row found
    exact ⟨row', found', ages.key ▸ warmup⟩
  rows p mem := ClaimedRow.keeps books kept (claimed ▸ mem)
  once := claimed ▸ books.once
  claimed c d stamp held := by
    rw [claimed, probes]
    exact books.claimed c d stamp (kept.claimed c d stamp held)
  sent c d stamp held := by
    rw [claimed]
    exact books.sent c d stamp (kept.sent c d stamp held)
  sole c c' d stamp stamp' first second :=
    books.sole c c' d stamp stamp' (kept.claimed c d stamp first) (kept.claimed c' d stamp' second)
  probed d mem := by
    rw [claimed]
    exact books.probed d (probes ▸ mem)
  probes := probes ▸ books.probes
  gone := gone
  left := left
  within := by
    refine Nat.le_trans ?_ books.within
    rw [activeClaims, claimed]
    refine List.countP_mono_left fun p mem counted => kept.counted ?_ counted
    obtain ⟨row, found, -⟩ := books.rows p mem
    exact ⟨row, found⟩

section Claim

variable {c d : ℕ} {since stamp : ℤ} (books : Books maxWarmups boundary s h)
  (claims : Claims maxWarmups s t c d since stamp)
include books claims

/-- A planned decision has not been claimed. -/
theorem Claims.unclaimed : d ∉ h.claimed.map Prod.fst := by
  intro mem
  obtain ⟨p, claim, rfl⟩ := List.mem_map.mp mem
  obtain ⟨row, found, planned, -⟩ := claims.row
  obtain ⟨row', same, -, moved, -⟩ := books.rows p claim
  rw [found] at same
  cases same
  exact moved planned

theorem Claims.other {p : ℕ × ℤ} (mem : p ∈ h.claimed) : p.1 ≠ d := by
  rintro rfl
  exact claims.unclaimed books (List.mem_map_of_mem mem)

/-- The claims before it count as they did, and it counts when its day has begun. -/
theorem Claims.within {g : History} (considered : boundary ≤ stamp → since = boundary)
    (claimed : g.claimed = (d, stamp) :: h.claimed) : activeClaims boundary t g ≤ maxWarmups := by
  have before : h.claimed.countP (Counted boundary t) ≤ activeClaims boundary s h := by
    refine List.countP_mono_left fun p mem counted => ?_
    simpa only [Counted, claims.others p.1 (claims.other books mem)] using counted
  have total : activeClaims boundary t g =
      h.claimed.countP (Counted boundary t) + if Counted boundary t (d, stamp) then 1 else 0 := by
    rw [activeClaims, claimed]
    exact List.countP_cons
  rw [total]
  split_ifs with counted
  · have same := considered (counted_iff.mp counted).1
    have budget := claims.budget
    have counts := books.activeClaims_le
    rw [same] at budget
    omega
  · exact Nat.le_trans before books.within

end Claim

theorem Books.claims {g : History} {c d : ℕ} {since stamp : ℤ}
    (books : Books maxWarmups boundary s h) (claims : Claims maxWarmups s t c d since stamp)
    (considered : boundary ≤ stamp → since = boundary)
    (claimed : g.claimed = (d, stamp) :: h.claimed) (probes : g.probes = h.probes)
    (left : g.left.Nodup)
    (gone : ∀ d ∈ g.left, ∃ row, t.decisions d = some row ∧ row.status ≠ .planned) :
    Books maxWarmups boundary t g := by
  have new := claims.unclaimed books
  obtain ⟨row, found, planned, becomes⟩ := claims.row
  have warmup : row.idempotencyKey.action = .warmup := by
    obtain ⟨row', same, warmup⟩ := books.gated c d claims.gated
    rw [found] at same
    cases same
    exact warmup
  have calls : ∀ c' call, t.calls c' = call → (c' = c ∧ call = .claimed d stamp) ∨
      s.calls c' = call := by
    intro c' call held
    rw [claims.calls] at held
    by_cases own : c' = c
    · subst own
      rw [Function.update_self] at held
      exact .inl ⟨rfl, held.symm⟩
    · rw [Function.update_of_ne own] at held
      exact .inr held
  constructor
  · intro d' row' held
    rw [claims.next]
    by_cases own : d' = d
    · subst own
      exact books.fresh d' row found
    · rw [claims.others d' own] at held
      exact books.fresh d' row' held
  · intro c' d' held
    rcases calls c' _ held with ⟨-, same⟩ | before
    · cases same
    · obtain ⟨row', found', warmup'⟩ := books.gated c' d' before
      by_cases own : d' = d
      · subst own
        exact ⟨_, becomes, warmup⟩
      · exact ⟨row', (claims.others d' own).trans found', warmup'⟩
  · intro p mem
    rw [claimed] at mem
    rcases List.mem_cons.mp mem with rfl | old
    · refine ⟨_, becomes, warmup, ?_, fun _ => rfl, ?_⟩
      · rintro ⟨⟩
      · rintro ⟨⟩
    · obtain ⟨row', found', rest⟩ := books.rows p old
      exact ⟨row', (claims.others p.1 (claims.other books old)).trans found', rest⟩
  · rw [claimed, List.map_cons]
    exact List.nodup_cons.mpr ⟨new, books.once⟩
  · intro c' d' stamp' held
    rw [claimed, probes]
    rcases calls c' _ held with ⟨-, same⟩ | before
    · cases same
      exact ⟨List.mem_cons_self, fun sent => new (books.probed d sent)⟩
    · obtain ⟨mem, unsent⟩ := books.claimed c' d' stamp' before
      exact ⟨List.mem_cons_of_mem _ mem, unsent⟩
  · intro c' d' stamp' held
    rw [claimed]
    rcases calls c' _ held with ⟨-, same⟩ | before
    · cases same
    · exact List.mem_cons_of_mem _ (books.sent c' d' stamp' before)
  · intro c₁ c₂ d' stamp₁ stamp₂ first second
    rcases calls c₁ _ first with ⟨own₁, same₁⟩ | before₁
    · rcases calls c₂ _ second with ⟨own₂, -⟩ | before₂
      · rw [own₁, own₂]
      · cases same₁
        have mem := (books.claimed c₂ d stamp₂ before₂).1
        exact absurd rfl (claims.other books mem)
    · rcases calls c₂ _ second with ⟨-, same₂⟩ | before₂
      · cases same₂
        have mem := (books.claimed c₁ d stamp₁ before₁).1
        exact absurd rfl (claims.other books mem)
      · exact books.sole c₁ c₂ d' stamp₁ stamp₂ before₁ before₂
  · intro d' mem
    rw [claimed, List.map_cons]
    exact List.mem_cons_of_mem _ (books.probed d' (probes ▸ mem))
  · exact probes ▸ books.probes
  · exact gone
  · exact left
  · exact claims.within books considered claimed

theorem Books.sends {g : History} {c d : ℕ} {stamp : ℤ}
    (books : Books maxWarmups boundary s h) (claim : s.calls c = .claimed d stamp)
    (claimed : g.claimed = h.claimed) (probes : g.probes = d :: h.probes) (left : g.left.Nodup)
    (gone : ∀ d ∈ g.left, ∃ row, s.decisions d = some row ∧ row.status ≠ .planned) :
    Books maxWarmups boundary (s.setCall c (.sent d stamp)) g := by
  obtain ⟨mem, unsent⟩ := books.claimed c d stamp claim
  have calls : ∀ c' call, (s.setCall c (.sent d stamp)).calls c' = call →
      (c' = c ∧ call = .sent d stamp) ∨ (c' ≠ c ∧ s.calls c' = call) := by
    intro c' call held
    by_cases own : c' = c
    · rw [own, Planner.setCall_self] at held
      exact .inl ⟨own, held.symm⟩
    · rw [s.setCall_ne own] at held
      exact .inr ⟨own, held⟩
  constructor
  · exact books.fresh
  · intro c' d' held
    rcases calls c' _ held with ⟨-, same⟩ | ⟨-, before⟩
    · cases same
    · exact books.gated c' d' before
  · exact fun p mem => books.rows p (claimed ▸ mem)
  · exact claimed ▸ books.once
  · intro c' d' stamp' held
    rw [claimed, probes]
    rcases calls c' _ held with ⟨-, same⟩ | ⟨other, before⟩
    · cases same
    · obtain ⟨mem', unsent'⟩ := books.claimed c' d' stamp' before
      refine ⟨mem', fun sent => ?_⟩
      rcases List.mem_cons.mp sent with rfl | earlier
      · exact other (books.sole c' c d' stamp' stamp before claim)
      · exact unsent' earlier
  · intro c' d' stamp' held
    rw [claimed]
    rcases calls c' _ held with ⟨-, same⟩ | ⟨-, before⟩
    · cases same
      exact mem
    · exact books.sent c' d' stamp' before
  · intro c₁ c₂ d' stamp₁ stamp₂ first second
    rcases calls c₁ _ first with ⟨-, same⟩ | ⟨-, before₁⟩
    · cases same
    · rcases calls c₂ _ second with ⟨-, same⟩ | ⟨-, before₂⟩
      · cases same
      · exact books.sole c₁ c₂ d' stamp₁ stamp₂ before₁ before₂
  · intro d' sent
    rw [probes] at sent
    rw [claimed]
    rcases List.mem_cons.mp sent with rfl | earlier
    · exact List.mem_map_of_mem (f := Prod.fst) mem
    · exact books.probed d' earlier
  · rw [probes]
    exact List.nodup_cons.mpr ⟨unsent, books.probes⟩
  · exact gone
  · exact left
  · rw [activeClaims, claimed]
    exact books.within

theorem Books.step {a : Act} (books : Books maxWarmups boundary s h)
    (considered : Considered boundary (s, h) a) (hs : step maxWarmups s a = some t) :
    Books maxWarmups boundary t (note s a t h) := by
  rcases step_cases (h := h) books.fresh hs with
    ⟨c, d, since, stamp, affordable, rfl, claims, claimed, probes⟩ |
    ⟨c, d, stamp, claim, rfl, claimed, probes⟩ | ⟨kept, claimed, probes⟩
  · obtain ⟨left, gone⟩ := left_note (a := .claim c since stamp affordable) (t := t) books (by
      intro d' row' found'
      by_cases own : d' = d
      · subst own
        obtain ⟨row, found, planned, becomes⟩ := claims.row
        exact ⟨_, becomes, fun same => by cases same⟩
      · exact ⟨row', (claims.others d' own).trans found', id⟩)
    exact books.claims claims considered claimed probes left gone
  · obtain ⟨left, gone⟩ := left_note (a := a) (t := s.setCall c (.sent d stamp)) books
      fun d' row found => ⟨row, found, id⟩
    exact books.sends claim claimed probes left gone
  · obtain ⟨left, gone⟩ := left_note (a := a) books fun d' row found => by
      obtain ⟨row', found', ages⟩ := kept.rows d' row found
      exact ⟨row', found', ages.planned⟩
    exact books.keeps kept claimed probes left gone

/-! ## Whole runs -/

def plannerSystem (maxWarmups : ℕ) : Planner × History → Act → Option (Planner × History) :=
  recording (step maxWarmups) note

/-- Any table, and no call under way. -/
def Start (x : Planner × History) : Prop :=
  (∀ d row, x.1.decisions d = some row → d < x.1.nextDecision) ∧ (∀ c, x.1.calls c = .idle) ∧
    x.2 = ⟨[], [], []⟩

theorem books_start {x : Planner × History} (start : Start x) :
    Books maxWarmups boundary x.1 x.2 := by
  obtain ⟨s, h⟩ := x
  obtain ⟨fresh, idle, rfl⟩ := start
  constructor
  · exact fresh
  · intro c d held
    rw [idle c] at held
    cases held
  · exact nofun
  · exact List.nodup_nil
  · intro c d stamp held
    rw [idle c] at held
    cases held
  · intro c d stamp held
    rw [idle c] at held
    cases held
  · intro c c' d stamp stamp' held
    rw [idle c] at held
    cases held
  · exact nofun
  · exact List.nodup_nil
  · exact nofun
  · exact List.nodup_nil
  · exact Nat.zero_le _

/-- In every run whose claims since the boundary budget for the day it starts, at most
`maxWarmups` of the decisions claimed since are executing or executed, a decision leaves
`planned` at most once, and its probe is sent at most once. -/
theorem warmup_budget {x : Planner × History}
    (run : Reachable (plannerSystem maxWarmups) (Considered boundary) Start x) :
    activeClaims boundary x.1 x.2 ≤ maxWarmups ∧ x.2.left.Nodup ∧ x.2.probes.Nodup := by
  have books : Books maxWarmups boundary x.1 x.2 := by
    refine run.invariant (I := fun x => Books maxWarmups boundary x.1 x.2)
      (fun x start => books_start start) ?_
    intro x a y books considered hs
    obtain ⟨stepped, noted⟩ := recording_eq_some.mp hs
    rw [noted]
    exact books.step considered stepped
  exact ⟨books.within, books.left, books.probes⟩

def emptyPlanner : Planner × History := (⟨fun _ => none, 0, fun _ => .idle⟩, ⟨[], [], []⟩)

theorem emptyPlanner_start : Start emptyPlanner := by
  refine ⟨?_, fun _ => rfl, rfl⟩
  intro d row found
  cases found

/-- Two replicas race for a decision, and a second decision finds the budget of one spent. -/
def raceActs : List Act :=
  [.log (.manual 0) .planned 90, .log (.manual 1) .planned 95, .begin 0 (.manual 0),
    .begin 1 (.manual 0), .claim 0 100 150 true, .claim 1 100 151 true, .skipRefused 1, .send 0,
    .begin 1 (.manual 1), .claim 1 100 160 true, .complete 0 170, .skipRefused 1]

def afterRace : Planner × History :=
  (replay (plannerSystem 1) emptyPlanner raceActs).getD emptyPlanner

theorem warmup_budget_race :
    (activeClaims 100 afterRace.1 afterRace.2 ≤ 1 ∧ afterRace.2.left.Nodup ∧
      afterRace.2.probes.Nodup) ∧
    activeClaims 100 afterRace.1 afterRace.2 = 1 ∧ afterRace.2.left = [1, 0] ∧
      afterRace.2.probes = [0] := by
  have run : Reachable (plannerSystem 1) (Considered 100) Start afterRace := by
    refine reachable_of_replay raceActs emptyPlanner_start ?_
      (replay_eq_getD (by decide +kernel) _)
    intro x a mem
    simp only [raceActs, List.mem_cons, List.not_mem_nil, or_false] at mem
    rcases mem with rfl | rfl | rfl | rfl | rfl | rfl | rfl | rfl | rfl | rfl | rfl | rfl <;>
      first | exact trivial | exact fun _ => rfl
  exact ⟨warmup_budget run, by decide +kernel, by decide +kernel, by decide +kernel⟩

end QuotaPlanner
