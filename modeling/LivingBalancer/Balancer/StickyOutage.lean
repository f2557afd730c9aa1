import LivingBalancer.Balancer.StickyRebinding

/-!
# A mapping with a time to live during an outage

With a maximum age on the mapping and no demand to reallocate, a request whose pinned
account is only temporarily unable to serve leaves the mapping with that account: the
grace period refreshes it, and a fallback is not persisted. The grace period looks at a
copy of the pinned state.
-/

namespace Balancer

section Outage

variable {cfg : RouteConfig} {sticky : StickyRequest} {kind : StickyKind} {now later : ℚ}
  {pinned : AccountState} {states : List AccountState}

/-- A pinned account that is neither pressed for budget nor blocked for long is tried first. -/
theorem tryPinned_calm (calm : budgetPressured cfg pinned = false)
    (near : rateLimitFarAway kind now pinned = false) :
    ∃ left, left = (selectPinned cfg now pinned.accountId
        (burnFirstReallocate cfg now pinned states).1).states ∧
      (tryPinned cfg sticky kind now pinned states = .keep (selectPinned cfg now pinned.accountId
          (burnFirstReallocate cfg now pinned states).1) ∨
        tryPinned cfg sticky kind now pinned states = .fallBack left sticky.reallocate false) := by
  refine ⟨_, rfl, ?_⟩
  have tried : ¬ ((budgetPressured cfg pinned || rateLimitFarAway kind now pinned) &&
      (burnFirstReallocate cfg now pinned states).2) = true := by
    rw [calm, near, Bool.or_self, Bool.false_and]
    exact Bool.false_ne_true
  simp only [tryPinned]
  rw [if_pos tried]
  split
  · exact Or.inl rfl
  · exact Or.inr rfl

/-- The burn-first probe leaves an account of another policy, or of its own, alone. -/
theorem burnFirstReallocate_pinned (distinct : (states.map AccountState.accountId).Nodup)
    (member : pinned ∈ states) {t : AccountState}
    (ht : t ∈ (burnFirstReallocate cfg now pinned states).1)
    (same : t.accountId = pinned.accountId) : t = pinned := by
  simp only [burnFirstReallocate] at ht
  split at ht
  · exact List.inj_on_of_nodup_map distinct ht member same
  · rename_i other
    split at ht
    · obtain ⟨s, hs, rfl⟩ := List.mem_map.mp ht
      have isPinned : s = pinned := by
        refine List.inj_on_of_nodup_map distinct hs member ?_
        rw [← same]
        split
        · exact (examine_same _ now s).accountId.symm
        · rfl
      subst isPinned
      exact if_neg other
    · exact List.inj_on_of_nodup_map distinct ht member same

/-- What trying the pinned account alone makes of its state. -/
theorem selectPinned_state (distinct : (states.map AccountState.accountId).Nodup)
    (member : pinned ∈ states) {t : AccountState}
    (ht : t ∈ (selectPinned cfg now pinned.accountId
      (burnFirstReallocate cfg now pinned states).1).states)
    (same : t.accountId = pinned.accountId) : t = (examine (cfg.options false) now pinned).1 := by
  obtain ⟨s, hs, rfl⟩ := List.mem_map.mp ht
  have isPinned : s = pinned := by
    refine burnFirstReallocate_pinned distinct member hs ?_
    rw [← same]
    split
    · exact (examine_same _ now s).accountId.symm
    · rfl
  subst isPinned
  exact if_pos (beq_self_eq_true _)

theorem mappingAfter_refresh (ttl : sticky.maxAgeSeconds.isSome = true) (id : String) :
    mappingAfter (some id) (refreshMapping sticky id) = some id := by
  rw [refreshMapping, if_pos ttl]
  rfl

theorem fallBackSelection_unpersisted {accountIds : List String} {applySecondary : Bool} :
    fallBackSelection cfg later accountIds states applySecondary false [] =
      { selectAccountPreferringBudgetSafe cfg .routed applySecondary later states with
        writes := [] } := by
  simp only [fallBackSelection, Bool.false_and]
  split
  · rfl
  · rfl

/-- Once given up without reallocation, a recoverable account of a mapping with a maximum
age keeps it, and the probe of the grace period changes none of the states. -/
theorem afterPinned_recoverable {pinnedId : String} {accountIds : List String}
    {applySecondary : Bool} (ttl : sticky.maxAgeSeconds.isSome = true)
    (recoverable : ∀ s ∈ states, s.accountId = pinnedId → s.status.hardBlocked = false) :
    mappingAfter (some pinnedId) (afterPinned cfg sticky pinnedId now later accountIds states
        false applySecondary).writes = some pinnedId ∧
      (afterPinned cfg sticky pinnedId now later accountIds states false
          applySecondary).toOutcome =
        if (graceResult cfg now pinnedId states).account.isSome then
          ⟨states, graceResult cfg now pinnedId states⟩
        else selectAccountPreferringBudgetSafe cfg .routed applySecondary later states := by
  simp only [afterPinned]
  by_cases graced : (graceResult cfg now pinnedId states).account.isSome = true
  · rw [if_pos ⟨trivial, graced⟩, if_pos graced]
    exact ⟨mappingAfter_refresh ttl pinnedId, rfl⟩
  · have comesBack : (states.all fun s => s.accountId != pinnedId || !s.status.hardBlocked) =
        true := by
      refine List.all_eq_true.mpr fun s hs => ?_
      by_cases same : s.accountId = pinnedId
      · simp [recoverable s hs same]
      · simp [same]
    have aged : sticky.maxAgeSeconds.isNone = false := by
      rw [← Option.not_isSome, ttl]
      rfl
    rw [if_neg (fun both => graced both.2), if_neg graced, comesBack, aged]
    simp only [Bool.not_true, Bool.or_self, Bool.false_eq_true, if_false]
    rw [fallBackSelection_unpersisted]
    exact ⟨rfl, rfl⟩

/-- Whatever serves the request, the mapping stays with the pinned account; and the states
are those that the pinned attempt left, unless the fallback examines them itself. -/
theorem outage_keeps_mapping {accountIds : List String} {out : StickyOutcome}
    (key : sticky.key ≠ "") (kindGiven : sticky.kind = some kind)
    (ttl : sticky.maxAgeSeconds.isSome = true) (keeps : sticky.reallocate = false)
    (distinct : (states.map AccountState.accountId).Nodup) (member : pinned ∈ states)
    (named : pinned.accountId ≠ "") (recoverable : pinned.status.hardBlocked = false)
    (calm : budgetPressured cfg pinned = false)
    (near : pinned.status = .rateLimited → ∀ reset, pinned.resetAt = some reset →
      reset - now < 600)
    (served : selectWithStickiness cfg sticky (some pinned.accountId) now later accountIds
      states = some out) :
    mappingAfter (some pinned.accountId) out.writes = some pinned.accountId ∧
      ∀ left reallocate applySecondary, tryPinned cfg sticky kind now pinned states =
          .fallBack left reallocate applySecondary →
        (∀ s ∈ left, s.accountId = pinned.accountId →
          s = (examine (cfg.options false) now pinned).1) ∧
        out.toOutcome =
          if (graceResult cfg now pinned.accountId left).account.isSome then
            ⟨left, graceResult cfg now pinned.accountId left⟩
          else selectAccountPreferringBudgetSafe cfg .routed applySecondary later left := by
  have notFar : rateLimitFarAway kind now pinned = false := by
    simp only [rateLimitFarAway, Bool.and_eq_false_iff, beq_eq_false_iff_ne]
    by_cases limited : pinned.status = .rateLimited
    · right
      cases hreset : pinned.resetAt with
      | none => rfl
      | some reset =>
        have soon := near limited reset hreset
        simp only [Option.any_some, decide_eq_false_iff_not, not_le]
        exact soon
    · exact Or.inl (Or.inr limited)
  have found := find_pinned distinct member
  obtain ⟨left, hleft, kept | gaveUp⟩ := @tryPinned_calm cfg sticky kind now pinned states calm notFar
  · rw [selectWithStickiness_keep key kindGiven named found kept] at served
    cases served
    refine ⟨mappingAfter_refresh ttl _, fun left' _ _ gone => ?_⟩
    rw [kept] at gone
    cases gone
  · have asLeft : ∀ s ∈ left, s.accountId = pinned.accountId →
        s = (examine (cfg.options false) now pinned).1 := by
      intro s hs same
      rw [hleft] at hs
      exact selectPinned_state distinct member hs same
    have stays : (examine (cfg.options false) now pinned).1.status.hardBlocked = false := by
      rcases examine_lifts (cfg.options false) now pinned with same | ⟨_, active⟩
      · rw [same]
        exact recoverable
      · rw [active]
        rfl
    rw [keeps] at gaveUp
    rw [selectWithStickiness_fallBack key kindGiven named found gaveUp] at served
    cases served
    have after := @afterPinned_recoverable cfg sticky now later left pinned.accountId accountIds
      false ttl fun s hs same => by rw [asLeft s hs same]; exact stays
    refine ⟨after.1, fun left' reallocate applySecondary gone => ?_⟩
    rw [gaveUp] at gone
    cases gone
    exact ⟨asLeft, after.2⟩

end Outage

def cachedPrompt : StickyRequest :=
  { key := "prompt", kind := some .promptCache, maxAgeSeconds := some 1800 }

def brieflyLimited : AccountState :=
  { accountId := "warm", status := .rateLimited, usedPercent := some 100, resetAt := some 1300 }

def warmAndCold : List AccountState :=
  [brieflyLimited, { accountId := "cold", status := .active }]

/-- The fallback serves, and the mapping stays with the rate-limited account. -/
theorem outage_keeps_mapping_falls_back : ∃ out,
    selectWithStickiness stickyRoute cachedPrompt (some "warm") 1000 1001 ["warm", "cold"]
        warmAndCold = some out ∧
      out.result.account = some warmAndCold[1] ∧
      mappingAfter (some "warm") out.writes = some "warm" := by
  have answered : ((selectWithStickiness stickyRoute cachedPrompt (some "warm") 1000 1001
      ["warm", "cold"] warmAndCold).bind fun out => out.result.account) = some warmAndCold[1] := by
    decide +kernel
  obtain ⟨out, served, account⟩ := Option.bind_eq_some_iff.mp answered
  refine ⟨out, served, account, ?_⟩
  have recovers : brieflyLimited.status = .rateLimited → ∀ reset,
      brieflyLimited.resetAt = some reset → reset - 1000 < 600 := by
    intro _ reset hreset
    cases hreset
    norm_num
  exact (@outage_keeps_mapping _ _ .promptCache _ _ brieflyLimited _ _ _ (by decide) rfl rfl rfl
    (by decide) (by decide) (by decide) rfl rfl recovers served).1

end Balancer
