import LivingBalancer.Usage.Windows

/-!
# Consolidation of accounts

Rows follow their account into the canonical one. The aggregate of the joined rows is the
sum of the aggregates only when no row of one account is the duplicate of another's.
-/

namespace UsageRollup

open Totals

variable {Account Key : Type}

theorem sum_filterMap_getD (rollups : Account → Option UsageRollupSums) (owners : List Account) :
    (owners.filterMap rollups).sum = (owners.map fun a => (rollups a).getD 0).sum := by
  induction owners with
  | nil => rfl
  | cons a owners ih =>
    cases h : rollups a with
    | none => simp [h, ih]
    | some sums => simp [h, ih]

section Reassign

variable [DecidableEq Account] (c : Account) (dups : List Account) (l : RequestLog Account Key)

theorem reassign_accountId : (reassign c dups l).accountId =
    if l.accountId.any (· ∈ dups) then some c else l.accountId := by
  simp only [reassign]
  split <;> rfl

@[simp]
theorem reassign_id : (reassign c dups l).id = l.id := by
  simp only [reassign]
  split <;> rfl

@[simp]
theorem reassign_requestedAt : (reassign c dups l).requestedAt = l.requestedAt := by
  simp only [reassign]
  split <;> rfl

@[simp]
theorem reassign_requestId : (reassign c dups l).requestId = l.requestId := by
  simp only [reassign]
  split <;> rfl

@[simp]
theorem reassign_apiKeyId : (reassign c dups l).apiKeyId = l.apiKeyId := by
  simp only [reassign]
  split <;> rfl

@[simp]
theorem reassign_usage : (reassign c dups l).usage = l.usage := by
  simp only [reassign]
  split <;> rfl

@[simp]
theorem reassign_countsForKey : (reassign c dups l).countsForKey = l.countsForKey := by
  simp only [reassign]
  split <;> rfl

@[simp]
theorem reassign_countsForAccount :
    (reassign c dups l).countsForAccount = l.countsForAccount := by
  simp only [reassign]
  split_ifs with moved
  · have owned : l.accountId.isSome := by
      cases h : l.accountId with
      | none => simp [h] at moved
      | some a => rfl
    simp [RequestLog.countsForAccount, owned]
  · rfl

end Reassign

section Joined

variable [DecidableEq Account] {c : Account} {dups : List Account}

theorem upto_reassign (w : ℤ) (logs : List (RequestLog Account Key)) :
    upto w (logs.map (reassign c dups)) = (upto w logs).map (reassign c dups) := by
  rw [upto, List.filter_map]
  refine congrArg _ (List.filter_congr fun l _ => ?_)
  simp

theorem since_reassign (w : ℤ) (logs : List (RequestLog Account Key)) :
    since w (logs.map (reassign c dups)) = (since w logs).map (reassign c dups) := by
  rw [since, List.filter_map]
  refine congrArg _ (List.filter_congr fun l _ => ?_)
  simp [RequestLog.after]

theorem keyUsage_reassign [DecidableEq Key] (logs : List (RequestLog Account Key)) (k : Key) :
    keyUsage (logs.map (reassign c dups)) k = keyUsage logs k := by
  rw [keyUsage_eq, keyUsage_eq, total_map fun l _ => reassign_usage c dups l]
  exact total_congr fun l _ => by simp

/-- No row of one of the accounts is the duplicate of another's. -/
def Apart (owners : List Account) (logs : List (RequestLog Account Key)) : Prop :=
  ∀ l ∈ logs, ∀ l' ∈ logs, l.countsForAccount = true → l'.countsForAccount = true →
    l.accountId.any (· ∈ owners) = true → l'.accountId.any (· ∈ owners) = true →
      l.requestId = l'.requestId → l.requestedAt = l'.requestedAt → l.accountId = l'.accountId

instance (owners : List Account) (logs : List (RequestLog Account Key)) :
    Decidable (Apart owners logs) :=
  have (l l' : RequestLog Account Key) : Decidable
      (l.countsForAccount = true → l'.countsForAccount = true →
        l.accountId.any (· ∈ owners) = true → l'.accountId.any (· ∈ owners) = true →
          l.requestId = l'.requestId → l.requestedAt = l'.requestedAt →
            l.accountId = l'.accountId) := inferInstance
  List.decidableBAll _ _

theorem duplicateKey_reassign {logs : List (RequestLog Account Key)} (apart : Apart (c :: dups) logs)
    {l l' : RequestLog Account Key} (hl : l ∈ logs) (hl' : l' ∈ logs)
    (counts : l.countsForAccount = true) (counts' : l'.countsForAccount = true) :
    (reassign c dups l').duplicateKey = (reassign c dups l).duplicateKey ↔
      l'.duplicateKey = l.duplicateKey := by
  have widen : ∀ m : RequestLog Account Key, m.accountId.any (· ∈ dups) = true →
      m.accountId.any (· ∈ c :: dups) = true := by
    intro m hm
    cases h : m.accountId with
    | none => simp [h] at hm
    | some a =>
      simp only [h, Option.any_some, decide_eq_true_eq] at hm ⊢
      exact List.mem_cons_of_mem c hm
  have canonical : ∀ m : RequestLog Account Key, m.accountId = some c →
      m.accountId.any (· ∈ c :: dups) = true := by
    intro m hm
    simp [hm]
  simp only [RequestLog.duplicateKey, Prod.mk.injEq, reassign_requestId, reassign_requestedAt,
    reassign_accountId]
  constructor
  · rintro ⟨accounts, requests, times⟩
    refine ⟨?_, requests, times⟩
    -- rows that end up with one owner had one before: the moved ones are apart
    split_ifs at accounts with moved' moved moved
    · exact apart l' hl' l hl counts' counts (widen l' moved') (widen l moved) requests times
    · exact apart l' hl' l hl counts' counts (widen l' moved') (canonical l accounts.symm) requests
        times
    · exact apart l' hl' l hl counts' counts (canonical l' accounts) (widen l moved) requests times
    · exact accounts
  · rintro ⟨accounts, requests, times⟩
    exact ⟨by rw [accounts], requests, times⟩

/-- The aggregate of the joined logs, row by row. -/
theorem accountUsage_reassign {logs : List (RequestLog Account Key)}
    (apart : Apart (c :: dups) logs) (a : Account) :
    accountUsage (logs.map (reassign c dups)) a =
      total RequestLog.usage (fun l =>
        newest RequestLog.duplicateKey RequestLog.id (logs.filter RequestLog.countsForAccount) l &&
          decide ((reassign c dups l).accountId = some a))
        (logs.filter RequestLog.countsForAccount) := by
  have rows : (logs.map (reassign c dups)).filter RequestLog.countsForAccount =
      (logs.filter RequestLog.countsForAccount).map (reassign c dups) := by
    rw [List.filter_map]
    refine congrArg _ (List.filter_congr fun l _ => ?_)
    simp
  rw [accountUsage_eq, rows, total_map fun l _ => reassign_usage c dups l]
  refine total_congr fun l hl => ?_
  obtain ⟨hl, counts⟩ := List.mem_filter.mp hl
  rw [newest_map (reassign_id c dups)]
  intro l' hl'
  obtain ⟨hl', counts'⟩ := List.mem_filter.mp hl'
  exact duplicateKey_reassign apart hl hl' counts counts'

theorem mergeRollupsInto_own (outside : c ∉ dups) (rollups : Account → Option UsageRollupSums) :
    (mergeRollupsInto c dups rollups c).getD 0 =
      ((c :: dups).map fun a => (rollups a).getD 0).sum := by
  rw [List.map_cons, List.sum_cons, ← sum_filterMap_getD]
  simp only [mergeRollupsInto]
  split_ifs with none
  · rw [List.isEmpty_iff.mp none]
    simp
  · simp

theorem mergeRollupsInto_other {a : Account} (outside : a ∉ dups) (other : a ≠ c)
    (rollups : Account → Option UsageRollupSums) : mergeRollupsInto c dups rollups a = rollups a := by
  simp only [mergeRollupsInto]
  split
  · rfl
  · rw [Function.update_of_ne other, if_neg outside]

end Joined

end UsageRollup
