import Mathlib.Data.Prod.Lex
import Mathlib.Data.Rat.Defs
import Mathlib.Algebra.Order.Ring.Rat
import LivingBalancer.Lib.JsonText
import LivingBalancer.Lib.LeastKey

/-!
# Merging additional rate limits

`_merge_additional_rate_limits` of `usage/updater.py` folds the additional limits of a usage
payload into one sample for each quota key and window: the highest percentage, among equal ones
the first by name and feature, and among those the one listed first. The canonical quota key is
a parameter, and a percentage is a value of any linear order, so never NaN.
-/

namespace AdditionalLimits

open PyJson (Str text)
open LeastKey

variable {P : Type} [LinearOrder P]

/-! ## The payload -/

structure UsageWindow (P : Type) where
  usedPercent : Option P
  resetAt : Option ℤ
  limitWindowSeconds : Option ℤ
  resetAfterSeconds : Option ℤ

structure RateLimitPayload (P : Type) where
  primaryWindow : Option (UsageWindow P)
  secondaryWindow : Option (UsageWindow P)

structure AdditionalRateLimitPayload (P : Type) where
  limitName : Str
  meteredFeature : Str
  rateLimit : Option (RateLimitPayload P)

inductive WindowName where
  | primary
  | secondary
  deriving DecidableEq

/-- `_MergedAdditionalWindow`. -/
structure MergedAdditionalWindow (P : Type) where
  limitName : Str
  meteredFeature : Str
  usedPercent : P
  resetAt : Option ℤ
  windowMinutes : Option ℤ
  deriving DecidableEq

/-! ## The merge -/

/-- `_window_minutes`, with the quotient taken exactly: the code divides floats, which agrees up to
2 ^ 53 seconds. -/
def windowMinutes (limitSeconds : Option ℤ) : Option ℤ :=
  limitSeconds.bind fun s => if s ≤ 0 then none else some (max 1 ((s + 59) / 60))

/-- `_reset_at`. -/
def resetAt (resetAt resetAfterSeconds : Option ℤ) (nowEpoch : ℤ) : Option ℤ :=
  match resetAt with
  | some time => some time
  | none => resetAfterSeconds.map fun s => nowEpoch + max 0 s

/-- `_prefer_merged_additional_window`, without its log. -/
def preferMergedAdditionalWindow (existing candidate : MergedAdditionalWindow P) :
    MergedAdditionalWindow P :=
  if existing.usedPercent < candidate.usedPercent then candidate
  else if candidate.usedPercent < existing.usedPercent then existing
  else if toLex (candidate.limitName, candidate.meteredFeature)
      < toLex (existing.limitName, existing.meteredFeature) then candidate
  else existing

abbrev Merged (P : Type) := Dict Str (Dict WindowName (MergedAdditionalWindow P))

/-- `merged.get(quota_key, {}).get(window)`. -/
def Merged.window (merged : Merged P) (quotaKey : Str) (name : WindowName) :
    Option (MergedAdditionalWindow P) :=
  (merged.get quotaKey).bind fun windows => windows.get name

/-- The window of a limit under a name. -/
def RateLimitPayload.window (rateLimit : RateLimitPayload P) : WindowName → Option (UsageWindow P)
  | .primary => rateLimit.primaryWindow
  | .secondary => rateLimit.secondaryWindow

/-- The sample that an additional limit has of a window. -/
def AdditionalRateLimitPayload.candidate (nowEpoch : ℤ) (additional : AdditionalRateLimitPayload P)
    (name : WindowName) : Option (MergedAdditionalWindow P) := do
  let rateLimit ← additional.rateLimit
  let usageWindow ← rateLimit.window name
  let usedPercent ← usageWindow.usedPercent
  return {
    limitName := additional.limitName
    meteredFeature := additional.meteredFeature
    usedPercent := usedPercent
    resetAt := resetAt usageWindow.resetAt usageWindow.resetAfterSeconds nowEpoch
    windowMinutes := windowMinutes usageWindow.limitWindowSeconds }

/-- One round of the loop over the windows. -/
def Merged.addWindow (quotaKey : Str) (merged : Merged P) (name : WindowName)
    (candidate : Option (MergedAdditionalWindow P)) : Merged P :=
  match candidate with
  | none => merged
  | some candidate =>
    let windows := (merged.get quotaKey).getD Dict.empty
    merged.set quotaKey (windows.set name (match windows.get name with
      | none => candidate
      | some existing => preferMergedAdditionalWindow existing candidate))

section Merge

variable (canonicalize : Str → Str → Option Str) (nowEpoch : ℤ)

/-- One round of the loop over the limits. -/
def Merged.addLimit (merged : Merged P) (additional : AdditionalRateLimitPayload P) : Merged P :=
  match canonicalize additional.limitName additional.meteredFeature with
  | none => merged
  | some quotaKey =>
    let merged := merged.addWindow quotaKey .primary (additional.candidate nowEpoch .primary)
    merged.addWindow quotaKey .secondary (additional.candidate nowEpoch .secondary)

def mergeAdditionalRateLimits (limits : List (AdditionalRateLimitPayload P)) : Merged P :=
  limits.foldl (Merged.addLimit canonicalize nowEpoch) Dict.empty

/-- The sample of a limit for a quota key and a window. -/
def sample (quotaKey : Str) (name : WindowName) (additional : AdditionalRateLimitPayload P) :
    Option (MergedAdditionalWindow P) :=
  if canonicalize additional.limitName additional.meteredFeature = some quotaKey then
    additional.candidate nowEpoch name
  else none

/-- The samples for a quota key and a window, in the order of the listing. -/
def samples (limits : List (AdditionalRateLimitPayload P)) (quotaKey : Str) (name : WindowName) :
    List (MergedAdditionalWindow P) :=
  limits.filterMap (sample canonicalize nowEpoch quotaKey name)

end Merge

/-! ## The preference -/

/-- What the preference compares; less is preferred. -/
def rank (w : MergedAdditionalWindow P) : Pᵒᵈ ×ₗ (Str ×ₗ Str) :=
  toLex (OrderDual.toDual w.usedPercent, toLex (w.limitName, w.meteredFeature))

theorem preferMergedAdditionalWindow_eq (existing candidate : MergedAdditionalWindow P) :
    preferMergedAdditionalWindow existing candidate
      = if rank candidate < rank existing then candidate else existing := by
  rw [preferMergedAdditionalWindow]
  by_cases more : existing.usedPercent < candidate.usedPercent
  · have lower : rank candidate < rank existing :=
      Prod.Lex.toLex_lt_toLex.mpr (.inl (OrderDual.toDual_lt_toDual.mpr more))
    rw [if_pos more, if_pos lower]
  · rw [if_neg more]
    by_cases less : candidate.usedPercent < existing.usedPercent
    · have higher : ¬ rank candidate < rank existing := fun lower =>
        lt_asymm lower (Prod.Lex.toLex_lt_toLex.mpr (.inl (OrderDual.toDual_lt_toDual.mpr less)))
      rw [if_pos less, if_neg higher]
    · have same : candidate.usedPercent = existing.usedPercent :=
        le_antisymm (not_lt.mp more) (not_lt.mp less)
      have names : rank candidate < rank existing ↔
          toLex (candidate.limitName, candidate.meteredFeature)
            < toLex (existing.limitName, existing.meteredFeature) := by
        rw [rank, rank, same, Prod.Lex.toLex_lt_toLex]
        simp
      rw [if_neg less]
      by_cases first : rank candidate < rank existing
      · rw [if_pos first, if_pos (names.mp first)]
      · rw [if_neg first, if_neg (mt names.mpr first)]

/-- A further sample, when there is one. -/
def preferred (existing candidate : Option (MergedAdditionalWindow P)) :
    Option (MergedAdditionalWindow P) :=
  match existing, candidate with
  | none, candidate => candidate
  | existing, none => existing
  | some existing, some candidate => some (preferMergedAdditionalWindow existing candidate)

theorem argmin_append_toList (ws : List (MergedAdditionalWindow P))
    (candidate : Option (MergedAdditionalWindow P)) :
    (ws ++ candidate.toList).argmin rank = preferred (ws.argmin rank) candidate := by
  cases candidate with
  | none =>
    rw [Option.toList_none, List.append_nil]
    cases ws.argmin rank <;> rfl
  | some candidate =>
    rw [Option.toList_some, List.argmin_concat]
    cases ws.argmin rank with
    | none => rfl
    | some existing =>
      simp only [preferred, preferMergedAdditionalWindow_eq]
      split_ifs <;> rfl

/-! ## The merged windows -/

theorem window_addWindow (merged : Merged P) (key quotaKey : Str) (name name' : WindowName)
    (candidate : Option (MergedAdditionalWindow P)) :
    (merged.addWindow key name' candidate).window quotaKey name
      = if quotaKey = key ∧ name = name' then preferred (merged.window quotaKey name) candidate
        else merged.window quotaKey name := by
  cases candidate with
  | none =>
    rw [Merged.addWindow]
    cases merged.window quotaKey name <;> simp [preferred]
  | some candidate =>
    rw [Merged.addWindow, Merged.window, Merged.window, Dict.get_set]
    by_cases own : quotaKey = key
    · subst own
      rw [if_pos rfl, Option.bind_some, Dict.get_set]
      by_cases here : name = name'
      · subst here
        cases known : merged.get quotaKey with
        | none => simp [preferred]
        | some windows => cases found : windows.get name <;> simp [preferred, found]
      · cases known : merged.get quotaKey <;> simp [here]
    · simp [own]

section Merge

variable {canonicalize : Str → Str → Option Str} {nowEpoch : ℤ}
variable {limits : List (AdditionalRateLimitPayload P)}

theorem window_addLimit (merged : Merged P) (additional : AdditionalRateLimitPayload P)
    (quotaKey : Str) (name : WindowName) :
    (merged.addLimit canonicalize nowEpoch additional).window quotaKey name
      = preferred (merged.window quotaKey name)
        (sample canonicalize nowEpoch quotaKey name additional) := by
  have skipped : preferred (merged.window quotaKey name) none = merged.window quotaKey name := by
    cases merged.window quotaKey name <;> rfl
  rw [Merged.addLimit, sample]
  cases canonicalize additional.limitName additional.meteredFeature with
  | none => simp [skipped]
  | some key =>
    rw [window_addWindow, window_addWindow]
    by_cases own : quotaKey = key
    · subst own
      cases name <;> simp
    · simp [own, Ne.symm own, skipped]

theorem window_merge (limits : List (AdditionalRateLimitPayload P)) (quotaKey : Str)
    (name : WindowName) :
    (mergeAdditionalRateLimits canonicalize nowEpoch limits).window quotaKey name
      = (samples canonicalize nowEpoch limits quotaKey name).argmin rank := by
  induction limits using List.reverseRecOn with
  | nil => rfl
  | append_singleton limits additional ih =>
    rw [mergeAdditionalRateLimits, List.foldl_append, List.foldl_cons, List.foldl_nil,
      window_addLimit]
    rw [mergeAdditionalRateLimits] at ih
    rw [ih, ← argmin_append_toList, samples, samples, List.filterMap_append]
    cases h : sample canonicalize nowEpoch quotaKey name additional <;> simp [h]

/-- The sample that a sample list is merged to, up to ties. -/
def Preferred (ws : List (MergedAdditionalWindow P)) (w : MergedAdditionalWindow P) : Prop :=
  w ∈ ws ∧ ∀ w' ∈ ws, rank w ≤ rank w'

theorem Preferred.most {ws : List (MergedAdditionalWindow P)} {w : MergedAdditionalWindow P}
    (h : Preferred ws w) : ∀ w' ∈ ws, w'.usedPercent ≤ w.usedPercent := by
  intro w' mem
  rcases Prod.Lex.toLex_le_toLex.mp (h.2 w' mem) with more | ⟨same, -⟩
  · exact le_of_lt (OrderDual.toDual_lt_toDual.mp more)
  · exact le_of_eq (OrderDual.toDual.injective same).symm

theorem preferred_of_window {quotaKey : Str} {name : WindowName} {w : MergedAdditionalWindow P}
    (h : (mergeAdditionalRateLimits canonicalize nowEpoch limits).window quotaKey name = some w) :
    Preferred (samples canonicalize nowEpoch limits quotaKey name) w := by
  rw [window_merge] at h
  exact ⟨List.argmin_mem h, fun w' mem => List.le_of_mem_argmin mem h⟩

/-- A preferred sample is what some order of the listing is merged to. -/
theorem Preferred.listed_first {quotaKey : Str} {name : WindowName} {w : MergedAdditionalWindow P}
    (h : Preferred (samples canonicalize nowEpoch limits quotaKey name) w) :
    ∃ limits', limits.Perm limits' ∧
      (mergeAdditionalRateLimits canonicalize nowEpoch limits').window quotaKey name = some w := by
  obtain ⟨additional, listed, shown⟩ := List.mem_filterMap.mp h.1
  obtain ⟨front, back, rfl⟩ := List.append_of_mem listed
  have perm : (front ++ additional :: back).Perm (additional :: (front ++ back)) :=
    List.perm_middle
  refine ⟨additional :: (front ++ back), perm, ?_⟩
  have first : samples canonicalize nowEpoch (additional :: (front ++ back)) quotaKey name
      = w :: samples canonicalize nowEpoch (front ++ back) quotaKey name :=
    List.filterMap_cons_some shown
  rw [window_merge, first]
  refine argmin_cons fun w' mem => h.2 w' ?_
  refine (perm.filterMap _).mem_iff.mpr ?_
  have later : w' ∈ samples canonicalize nowEpoch (additional :: (front ++ back)) quotaKey name := by
    rw [first]
    exact List.mem_cons_of_mem w mem
  exact later

/-- Samples that the preference does not tell apart differ in nothing it does not compare. -/
def TiesAgree (canonicalize : Str → Str → Option Str) (nowEpoch : ℤ)
    (limits : List (AdditionalRateLimitPayload P)) : Prop :=
  ∀ quotaKey name w w', Preferred (samples canonicalize nowEpoch limits quotaKey name) w →
    Preferred (samples canonicalize nowEpoch limits quotaKey name) w' →
    w.resetAt = w'.resetAt ∧ w.windowMinutes = w'.windowMinutes

theorem TiesAgree.eq (h : TiesAgree canonicalize nowEpoch limits) {quotaKey : Str}
    {name : WindowName} {w w' : MergedAdditionalWindow P}
    (hw : Preferred (samples canonicalize nowEpoch limits quotaKey name) w)
    (hw' : Preferred (samples canonicalize nowEpoch limits quotaKey name) w') : w = w' := by
  have same : rank w = rank w' := le_antisymm (hw.2 w' hw'.1) (hw'.2 w hw.1)
  obtain ⟨percent, names⟩ := Prod.mk.inj (toLex.injective same)
  obtain ⟨limitName, feature⟩ := Prod.mk.inj (toLex.injective names)
  obtain ⟨reset, minutes⟩ := h quotaKey name w w' hw hw'
  obtain ⟨_, _, _, _, _⟩ := w
  obtain ⟨_, _, _, _, _⟩ := w'
  cases OrderDual.toDual.injective percent
  cases limitName
  cases feature
  cases reset
  cases minutes
  rfl

/-- Each merged window is one of the samples for its key, of the highest percentage, and the
same for every order of the listing. -/
structure MergesAlike (canonicalize : Str → Str → Option Str) (nowEpoch : ℤ)
    (limits : List (AdditionalRateLimitPayload P)) : Prop where
  same : ∀ limits', limits.Perm limits' → ∀ quotaKey name,
    (mergeAdditionalRateLimits canonicalize nowEpoch limits').window quotaKey name
      = (mergeAdditionalRateLimits canonicalize nowEpoch limits).window quotaKey name
  missing : ∀ quotaKey name,
    (mergeAdditionalRateLimits canonicalize nowEpoch limits).window quotaKey name = none →
      samples canonicalize nowEpoch limits quotaKey name = []
  highest : ∀ quotaKey name w,
    (mergeAdditionalRateLimits canonicalize nowEpoch limits).window quotaKey name = some w →
      w ∈ samples canonicalize nowEpoch limits quotaKey name ∧
      ∀ w' ∈ samples canonicalize nowEpoch limits quotaKey name, w'.usedPercent ≤ w.usedPercent

/-- The merge does not depend on the listing exactly when ties agree. -/
theorem merges_alike_iff (canonicalize : Str → Str → Option Str) (nowEpoch : ℤ)
    (limits : List (AdditionalRateLimitPayload P)) :
    MergesAlike canonicalize nowEpoch limits ↔ TiesAgree canonicalize nowEpoch limits := by
  constructor
  · intro alike quotaKey name w w' hw hw'
    obtain ⟨limits₁, perm₁, merged₁⟩ := hw.listed_first
    obtain ⟨limits₂, perm₂, merged₂⟩ := hw'.listed_first
    rw [alike.same limits₁ perm₁] at merged₁
    rw [alike.same limits₂ perm₂, merged₁] at merged₂
    cases merged₂
    exact ⟨rfl, rfl⟩
  · intro agree
    refine ⟨fun limits' perm quotaKey name => ?_, fun quotaKey name none_ => ?_,
      fun quotaKey name w found => ?_⟩
    · have samples_perm : (samples canonicalize nowEpoch limits quotaKey name).Perm
          (samples canonicalize nowEpoch limits' quotaKey name) := perm.filterMap _
      cases found : (mergeAdditionalRateLimits canonicalize nowEpoch limits).window quotaKey name with
      | none =>
        rw [window_merge, List.argmin_eq_none] at found
        rw [found] at samples_perm
        rw [window_merge, samples_perm.symm.eq_nil]
        rfl
      | some w =>
        have hw := preferred_of_window found
        rw [window_merge]
        refine argmin_eq_of_unique (samples_perm.mem_iff.mp hw.1)
          (fun w' mem => hw.2 w' (samples_perm.mem_iff.mpr mem)) fun w' mem same => ?_
        refine agree.eq ⟨samples_perm.mem_iff.mpr mem, fun e he => ?_⟩ hw
        rw [same]
        exact hw.2 e he
    · rw [window_merge, List.argmin_eq_none] at none_
      exact none_
    · exact ⟨(preferred_of_window found).1, (preferred_of_window found).most⟩

end Merge

/-- One limit of a primary window. -/
def primaryLimit (usedPercent : ℚ) (resetAt : ℤ) : AdditionalRateLimitPayload ℚ where
  limitName := text "codex_other"
  meteredFeature := text "codex_other"
  rateLimit := some ⟨some ⟨some usedPercent, some resetAt, some 18000, none⟩, none⟩

/-- The same name, feature and percentage with two reset times: the one listed first stays. -/
theorem listing_order_decides :
    ¬ MergesAlike (fun limitName _ => some limitName) 0
      [primaryLimit 50 1000, primaryLimit 50 2000] := by
  intro alike
  have same := alike.same [primaryLimit 50 2000, primaryLimit 50 1000]
    (List.Perm.swap _ _ []) (text "codex_other") .primary
  revert same
  decide

end AdditionalLimits
