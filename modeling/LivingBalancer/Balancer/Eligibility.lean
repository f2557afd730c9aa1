import LivingBalancer.Balancer.SelectAccount

/-!
# What a selected account is

The checks that `select_account` has made of the account it returns, for every pool, strategy
and set of options.
-/

namespace Balancer

/-- Held back by its errors: `error_count >= 3` and the backoff still runs. -/
def inErrorBackoff (now : ℚ) (s : AccountState) : Bool :=
  decide (3 ≤ s.errorCount) &&
    s.lastErrorAt.any fun t => decide (now - t < errorBackoff s.errorCount)

/-- The state passes the availability filter. -/
def passes (opts : SelectOptions) (now : ℚ) (s : AccountState) : Bool :=
  decide ((examine opts now s).2 = .available)

/-- What the checks let through. -/
structure Eligible (opts : SelectOptions) (now : ℚ) (c : AccountState) : Prop where
  usable : c.status.hardBlocked = false
  cooled : ∀ t, c.cooldownUntil = some t → t ≤ now
  unblocked : c.status = .rateLimited ∨ c.status = .quotaExceeded →
    bypassStandardQuota opts c = true

section Examine

variable {opts : SelectOptions} {now : ℚ} {s : AccountState}

theorem bypassStandardQuota_same {t : AccountState} (same : SameAccount s t) :
    bypassStandardQuota opts t = bypassStandardQuota opts s := by
  rw [bypassStandardQuota, bypassStandardQuota, same.accountId, same.ignoreStandardQuota]

theorem recoverBlock_usable (h : (recoverBlock opts now s).2 = true) :
    (recoverBlock opts now s).1.status.hardBlocked = false := by
  rcases recoverBlock_cases opts now s with ⟨_, kept, usable⟩ | ⟨_, lifted⟩ | ⟨_, lifted⟩
  · rw [kept] at h ⊢
    rcases usable h with status | ⟨status | status, _⟩
    · rw [status]
      rfl
    · rw [status]
      rfl
    · rw [status]
      rfl
  · rw [lifted]
    rfl
  · rw [lifted]
    rfl

theorem recoverBlock_unblocked (h : (recoverBlock opts now s).2 = true)
    (blocked : (recoverBlock opts now s).1.status = .rateLimited ∨
      (recoverBlock opts now s).1.status = .quotaExceeded) :
    bypassStandardQuota opts s = true := by
  rcases recoverBlock_cases opts now s with ⟨_, kept, usable⟩ | ⟨_, lifted⟩ | ⟨_, lifted⟩
  · rw [kept] at h blocked
    rcases usable h with status | ⟨_, bypass⟩
    · simp [status] at blocked
    · exact bypass
  · simp [lifted] at blocked
  · simp [lifted] at blocked

/-- A cooldown that has neither elapsed nor still runs is not set. -/
theorem cooled_of_not_running (positive : 0 < now)
    (stopped : stillRunning now s.cooldownUntil = false) (t : ℚ)
    (set_ : s.cooldownUntil = some t) : t ≤ now := by
  simp only [stillRunning, set_, truthy, Option.any_some, Bool.and_eq_false_iff,
    decide_eq_false_iff_not, not_not, not_lt] at stopped
  rcases stopped with zero | elapsed
  · rw [zero]
    exact positive.le
  · exact elapsed

theorem examine_eligible (positive : 0 < now) (passed : (examine opts now s).2 ≠ .skipped) :
    Eligible opts now (examine opts now s).1 := by
  have unskipped : (recoverBlock opts now s).2 = true := by
    by_contra blocked
    exact passed (examine_skipped opts now s (by simpa using blocked))
  have status := (examine_status opts now s).1
  refine ⟨?_, ?_, ?_⟩
  · rw [status]
    exact recoverBlock_usable unskipped
  · simp only [examine, unskipped, if_true] at passed ⊢
    cases running : stillRunning now
        (clearElapsedCooldown now (recoverBlock opts now s).1).cooldownUntil with
    | true => simp [running] at passed
    | false =>
      have cooled := cooled_of_not_running positive running
      simp only [Bool.false_eq_true, if_false]
      split
      · split <;> exact cooled
      · exact cooled
  · intro blocked
    rw [status] at blocked
    rw [bypassStandardQuota_same (examine_same opts now s)]
    exact recoverBlock_unblocked unskipped blocked

/-- What the filter lets through is not held back by its errors. -/
theorem inErrorBackoff_of_available (h : (examine opts now s).2 = .available) :
    inErrorBackoff now (examine opts now s).1 = false := by
  simp only [examine] at h ⊢
  cases unskipped : (recoverBlock opts now s).2 with
  | false => simp [unskipped] at h
  | true =>
    simp only [unskipped, if_true] at h ⊢
    split at h
    · cases h
    · rename_i stopped
      simp only [stopped, Bool.false_eq_true, if_false]
      split at h
      · rename_i many
        simp only [many, if_true]
        split at h
        · cases h
        · rename_i expired
          simp [expired, inErrorBackoff]
      · rename_i few
        simp [few, inErrorBackoff]

theorem inErrorBackoff_of_backoff (h : (examine opts now s).2 = .backoff) :
    inErrorBackoff now (examine opts now s).1 = true := by
  simp only [examine] at h ⊢
  cases unskipped : (recoverBlock opts now s).2 with
  | false => simp [unskipped] at h
  | true =>
    simp only [unskipped, if_true] at h ⊢
    split at h
    · cases h
    · rename_i stopped
      simp only [stopped, Bool.false_eq_true, if_false]
      split at h
      · rename_i many
        simp only [many, if_true]
        split at h
        · rename_i held
          simp only [Bool.and_eq_true] at held
          simp [held, inErrorBackoff, many]
        · cases h
      · cases h

end Examine

/-- The returned account is eligible, and held back by its errors only where the fallback may be
used and nothing passes the filter. -/
theorem selected_account_eligible {strategy : Strategy} {ranking : Ranking} {opts : SelectOptions}
    {now : ℚ} {states : List AccountState} {c : AccountState} (positive : 0 < now)
    (h : (selectAccount strategy ranking opts now states).account = some c) :
    Eligible opts now c ∧ (inErrorBackoff now c = true →
      opts.allowBackoffFallback = true ∧ ∀ s ∈ states, passes opts now s = false) := by
  obtain ⟨s, _, rfl, passed⟩ := selectAccount_examined h
  refine ⟨examine_eligible positive passed, fun held => ?_⟩
  simp only [selectAccount] at h
  split at h
  · obtain ⟨t, _, same, available⟩ := mem_withStanding (mem_chooseFrom h)
    rw [same, inErrorBackoff_of_available available] at held
    cases held
  · cases h
  · rename_i nothing _
    split at h
    · rename_i fallback
      refine ⟨fallback.1, fun t ht => ?_⟩
      rw [passes, decide_eq_false_iff_not]
      intro available
      have member : (examine opts now t).1 ∈
          withStanding .available (states.map (examine opts now)) :=
        List.mem_map.mpr ⟨examine opts now t, List.mem_filter.mpr
          ⟨List.mem_map_of_mem ht, decide_eq_true available⟩, rfl⟩
      rw [nothing] at member
      cases member
    · cases h

/-- The ranking that takes the first of its pool. -/
def headOf : Strategy := ⟨fun _ _ pool some => ⟨pool.head some, List.head_mem some⟩⟩

/-- Two accounts that failed a moment ago, the first of them soonest to recover. -/
def failingPair : List AccountState :=
  [{ accountId := "a", status := .active, errorCount := 3, lastErrorAt := some 995 },
    { accountId := "b", status := .active, errorCount := 5, lastErrorAt := some 990 }]

theorem selected_account_eligible_failing :
    ∃ c, (selectAccount headOf .routed {} 1000 failingPair).account = some c ∧
      inErrorBackoff 1000 c = true ∧ Eligible {} 1000 c ∧
      ∀ s ∈ failingPair, passes {} 1000 s = false := by
  have chosen : (selectAccount headOf .routed {} 1000 failingPair).account =
      failingPair.head? := by decide +kernel
  have held : inErrorBackoff 1000 (failingPair.head (by decide)) = true := by decide +kernel
  have eligible := selected_account_eligible (by norm_num) chosen
  exact ⟨_, chosen, held, eligible.1, (eligible.2 held).2⟩

end Balancer
