import LivingBalancer.Usage.Rollup

/-!
# Aggregates over windows of the request log

Every aggregate splits at a time, because the rows of a duplicate group share theirs. A
fold slice folds exactly the rows that count between the watermark and its end,
whatever it skips on the way.
-/

namespace UsageRollup

open Totals

variable {Account Key : Type} {logs logs' : List (RequestLog Account Key)}

/-! ## Windows -/

/-- The rows up to a time. -/
def upto (t : ℤ) (logs : List (RequestLog Account Key)) : List (RequestLog Account Key) :=
  logs.filter fun l => decide (l.requestedAt ≤ t)

/-- The rows after a time. -/
def since (t : ℤ) (logs : List (RequestLog Account Key)) : List (RequestLog Account Key) :=
  logs.filter (RequestLog.after t)

/-- What the table holds after the watermark decides every later window. -/
theorem within_of_since {w stop : ℤ} (tail : since w logs = since w logs') :
    logs.filter (RequestLog.within w stop) = logs'.filter (RequestLog.within w stop) := by
  have cut : ∀ logs : List (RequestLog Account Key), logs.filter (RequestLog.within w stop) =
      (since w logs).filter fun l => decide (l.requestedAt ≤ stop) := by
    intro logs
    rw [since, List.filter_filter]
    refine List.filter_congr fun l _ => ?_
    simp [RequestLog.within, RequestLog.after, Bool.and_comm]
  rw [cut, cut, tail]

theorem since_of_since {w stop : ℤ} (later : w ≤ stop) (tail : since w logs = since w logs') :
    since stop logs = since stop logs' := by
  have cut : ∀ logs : List (RequestLog Account Key), since stop logs =
      (since w logs).filter (RequestLog.after stop) := by
    intro logs
    rw [since, since, List.filter_filter]
    refine List.filter_congr fun l _ => ?_
    rw [Bool.eq_iff_iff]
    simp only [RequestLog.after, Bool.and_eq_true, decide_eq_true_eq]
    omega
  rw [cut, cut, tail]

theorem upto_cut {w stop : ℤ} (later : w ≤ stop) (logs : List (RequestLog Account Key)) :
    (upto stop logs).filter (fun l => decide (l.requestedAt ≤ w)) = upto w logs ∧
      (upto stop logs).filter (fun l => !decide (l.requestedAt ≤ w)) =
        logs.filter (RequestLog.within w stop) := by
  simp only [upto, List.filter_filter]
  constructor <;> refine List.filter_congr fun l _ => ?_
  · rw [Bool.eq_iff_iff]
    simp only [Bool.and_eq_true, decide_eq_true_eq]
    omega
  · rw [Bool.eq_iff_iff]
    simp only [RequestLog.within, Bool.and_eq_true, Bool.not_eq_true', decide_eq_true_eq,
      decide_eq_false_iff_not]
    omega

theorem since_eq (w : ℤ) (logs : List (RequestLog Account Key)) :
    logs.filter (fun l => !decide (l.requestedAt ≤ w)) = since w logs := by
  refine List.filter_congr fun l _ => ?_
  rw [Bool.eq_iff_iff]
  simp only [RequestLog.after, Bool.not_eq_true', decide_eq_true_eq, decide_eq_false_iff_not]
  omega

/-- One of the two aggregates counts the row. -/
def RequestLog.counts (l : RequestLog Account Key) : Prop :=
  l.countsForAccount = true ∨ l.countsForKey = true

theorem earliest_le {first : ℤ} (h : earliest logs = some first) {l : RequestLog Account Key}
    (hl : l ∈ logs) (counts : l.counts) : first ≤ l.requestedAt := by
  have least := (List.min?_eq_some_iff.mp h).2
  have column : ∀ p : RequestLog Account Key → Bool, p l = true →
      ∃ t, ((logs.filter p).map (·.requestedAt)).min? = some t ∧ t ≤ l.requestedAt := by
    intro p hp
    have member : l.requestedAt ∈ (logs.filter p).map (·.requestedAt) :=
      List.mem_map_of_mem (List.mem_filter.mpr ⟨hl, hp⟩)
    cases hmin : ((logs.filter p).map (·.requestedAt)).min? with
    | none =>
      rw [List.min?_eq_none_iff] at hmin
      rw [hmin] at member
      cases member
    | some t => exact ⟨t, rfl, (List.min?_eq_some_iff.mp hmin).2 _ member⟩
  rcases counts with counted | counted
  · obtain ⟨t, ht, before⟩ := column _ counted
    exact (least t (by simp [ht])).trans before
  · obtain ⟨t, ht, before⟩ := column _ counted
    exact (least t (by simp [ht])).trans before

/-- The rows a slice folds, seen in the ledger. -/
theorem window_rows {ledger : List (RequestLog Account Key)} {start w : ℤ} (stop : ℤ)
    (tail : since w logs = since w ledger)
    (same : ∀ l ∈ logs, l.counts → (start < l.requestedAt ↔ w < l.requestedAt))
    {p : RequestLog Account Key → Bool} (counted : ∀ l, p l = true → l.counts) :
    (logs.filter (RequestLog.within start stop)).filter p =
      (ledger.filter (RequestLog.within w stop)).filter p := by
  rw [← within_of_since tail, List.filter_filter, List.filter_filter]
  refine List.filter_congr fun l hl => ?_
  by_cases hp : p l = true
  · have starts : decide (start < l.requestedAt) = decide (w < l.requestedAt) :=
      decide_eq_decide.mpr (same l hl (counted l hp))
    simp only [RequestLog.within, starts]
  · simp [hp]

/-! ## The account aggregate -/

section AccountAggregate

variable [DecidableEq Account]

theorem accountUsage_eq (logs : List (RequestLog Account Key)) (a : Account) :
    accountUsage logs a = total RequestLog.usage (fun l =>
      newest RequestLog.duplicateKey RequestLog.id (logs.filter RequestLog.countsForAccount) l &&
        decide (l.accountId = some a)) (logs.filter RequestLog.countsForAccount) :=
  lookup_grouped ..

theorem accountUsage_congr
    (same : logs.filter RequestLog.countsForAccount = logs'.filter RequestLog.countsForAccount)
    (a : Account) : accountUsage logs a = accountUsage logs' a := by
  rw [accountUsage_eq, accountUsage_eq, same]

/-- No duplicate group is split at a time. -/
theorem accountUsage_split (c : ℤ → Bool) (logs : List (RequestLog Account Key)) (a : Account) :
    accountUsage (logs.filter fun l => c l.requestedAt) a +
      accountUsage (logs.filter fun l => !c l.requestedAt) a = accountUsage logs a := by
  have part : ∀ c : ℤ → Bool, accountUsage (logs.filter fun l => c l.requestedAt) a =
      total RequestLog.usage (fun l =>
        (newest RequestLog.duplicateKey RequestLog.id (logs.filter RequestLog.countsForAccount) l &&
          decide (l.accountId = some a)) && c l.requestedAt)
        (logs.filter RequestLog.countsForAccount) := by
    intro c
    rw [accountUsage_eq, List.filter_comm, total_filter]
    refine total_congr fun l _ => ?_
    by_cases inside : c l.requestedAt = true
    · rw [newest_filter]
      · simp [inside]
      · intro l' _ same
        have times : l'.requestedAt = l.requestedAt := congrArg (·.2.2) same
        rw [times]
        exact inside
    · simp [inside]
  rw [part, part fun t => !c t, total_split, ← accountUsage_eq]

theorem accountUsage_upto {w stop : ℤ} (later : w ≤ stop) (logs : List (RequestLog Account Key))
    (a : Account) : accountUsage (upto w logs) a +
      accountUsage (logs.filter (RequestLog.within w stop)) a = accountUsage (upto stop logs) a := by
  obtain ⟨before, behind⟩ := upto_cut later logs
  rw [← accountUsage_split (fun t => decide (t ≤ w)) (upto stop logs), before, behind]

theorem accountUsage_since (w : ℤ) (logs : List (RequestLog Account Key)) (a : Account) :
    accountUsage (upto w logs) a + accountUsage (since w logs) a = accountUsage logs a := by
  rw [← accountUsage_split (fun t => decide (t ≤ w)) logs, since_eq, upto]

theorem fold_accountRollup {accounts : List Account} {a : Account} (ha : a ∈ accounts)
    (rows : List (RequestLog Account Key)) (rollups : Account → Option UsageRollupSums) :
    (upsertAll (· ∈ accounts) (dedupedUsageAggregate rows) rollups a).getD 0 =
      (rollups a).getD 0 + accountUsage rows a := by
  rw [accountUsage_eq, dedupedUsageAggregate]
  apply upsertAll_grouped
  exact decide_eq_true ha

end AccountAggregate

/-! ## The API-key aggregate -/

section KeyAggregate

variable [DecidableEq Key]

theorem keyUsage_eq (logs : List (RequestLog Account Key)) (k : Key) :
    keyUsage logs k = total RequestLog.usage (fun l =>
      l.countsForKey && decide (l.apiKeyId = some k)) logs :=
  lookup_grouped ..

theorem keyUsage_congr
    (same : logs.filter RequestLog.countsForKey = logs'.filter RequestLog.countsForKey) (k : Key) :
    keyUsage logs k = keyUsage logs' k := by
  have counted : ∀ logs : List (RequestLog Account Key), keyUsage logs k =
      total RequestLog.usage (fun l => decide (l.apiKeyId = some k))
        (logs.filter RequestLog.countsForKey) := by
    intro logs
    rw [keyUsage_eq, total_filter]
  rw [counted, counted, same]

theorem keyUsage_split (c : ℤ → Bool) (logs : List (RequestLog Account Key)) (k : Key) :
    keyUsage (logs.filter fun l => c l.requestedAt) k +
      keyUsage (logs.filter fun l => !c l.requestedAt) k = keyUsage logs k := by
  have part : ∀ c : ℤ → Bool, keyUsage (logs.filter fun l => c l.requestedAt) k =
      total RequestLog.usage (fun l =>
        (l.countsForKey && decide (l.apiKeyId = some k)) && c l.requestedAt) logs := by
    intro c
    rw [keyUsage_eq, total_filter]
    exact total_congr fun l _ => Bool.and_comm ..
  rw [part, part fun t => !c t, total_split, ← keyUsage_eq]

theorem keyUsage_upto {w stop : ℤ} (later : w ≤ stop) (logs : List (RequestLog Account Key))
    (k : Key) : keyUsage (upto w logs) k + keyUsage (logs.filter (RequestLog.within w stop)) k =
      keyUsage (upto stop logs) k := by
  obtain ⟨before, behind⟩ := upto_cut later logs
  rw [← keyUsage_split (fun t => decide (t ≤ w)) (upto stop logs), before, behind]

theorem keyUsage_since (w : ℤ) (logs : List (RequestLog Account Key)) (k : Key) :
    keyUsage (upto w logs) k + keyUsage (since w logs) k = keyUsage logs k := by
  rw [← keyUsage_split (fun t => decide (t ≤ w)) logs, since_eq, upto]

theorem fold_keyRollup {keys : List Key} {k : Key} (hk : k ∈ keys)
    (rows : List (RequestLog Account Key)) (rollups : Key → Option UsageRollupSums) :
    (upsertAll (· ∈ keys) (apiKeyUsageAggregate rows) rollups k).getD 0 =
      (rollups k).getD 0 + keyUsage rows k := by
  rw [keyUsage_eq, apiKeyUsageAggregate]
  apply upsertAll_grouped
  exact decide_eq_true hk

end KeyAggregate

/-! ## Fold slices -/

section Slices

variable [DecidableEq Account] [DecidableEq Key] {s : State Account Key}

/-- The window test looks at both aggregates, so an empty window has no row that counts. -/
theorem not_counts_of_empty {start stop : ℤ} (empty : emptyWindow logs start stop = true)
    {l : RequestLog Account Key} (hl : l ∈ logs) (counts : l.counts) :
    ¬ (start < l.requestedAt ∧ l.requestedAt ≤ stop) := by
  rintro ⟨late, early⟩
  simp only [emptyWindow, Bool.and_eq_true, List.isEmpty_iff] at empty
  have inside : l ∈ logs.filter (RequestLog.within start stop) :=
    List.mem_filter.mpr ⟨hl, by simp [RequestLog.within, late, early]⟩
  rcases counts with counted | counted
  · obtain ⟨l', hl', -, newest⟩ := exists_newest RequestLog.duplicateKey RequestLog.id
      (List.mem_filter.mpr ⟨inside, counted⟩)
    have owned : l'.countsForAccount = true := (List.mem_filter.mp hl').2
    simp [RequestLog.countsForAccount, grouped_eq_nil empty.1 hl' newest] at owned
  · simp [RequestLog.countsForKey, grouped_eq_nil empty.2 inside counted] at counted

/-- The window the loop stops at starts where nothing that counts was skipped. -/
theorem skipEmpty_spec {cfg : FoldConfig} {logs : List (RequestLog Account Key)}
    {target start stop : ℤ} (proper : start < stop) (bounded : stop ≤ target) {window : ℤ × ℤ}
    (h : skipEmpty cfg logs target start stop = window) :
    start ≤ window.1 ∧ stop ≤ window.2 ∧
      ∀ l ∈ logs, l.counts → start < l.requestedAt → window.1 < l.requestedAt := by
  subst h
  fun_induction skipEmpty cfg logs target start stop with
  | case1 start stop skip ih =>
    have long := cfg.slice_long
    obtain ⟨starts, stops, skipped⟩ := ih (by omega) (by omega)
    refine ⟨by omega, by omega, fun l hl counts late => skipped l hl counts ?_⟩
    have := not_counts_of_empty skip.1 hl counts
    omega
  | case2 start stop _ => exact ⟨le_rfl, le_rfl, fun _ _ _ late => late⟩

/-- The slice after its early returns. -/
theorem foldNextSlice_window {cfg : FoldConfig} {target first start : ℤ} {s : State Account Key}
    (current : ¬ target ≤ s.watermark) (hfirst : earliest s.logs = some first)
    (hstart : (if s.watermark < first then first - 1000000 else s.watermark) = start)
    (late : ¬ target ≤ start) {window : ℤ × ℤ}
    (hskip : skipEmpty cfg s.logs target start (min (start + cfg.slice) target) = window) :
    foldNextSlice cfg target s =
      ({ s with
        accountRollups := upsertAll (· ∈ s.accounts)
          (dedupedUsageAggregate (s.logs.filter (RequestLog.within window.1 window.2)))
          s.accountRollups
        keyRollups := upsertAll (· ∈ s.keys)
          (apiKeyUsageAggregate (s.logs.filter (RequestLog.within window.1 window.2))) s.keyRollups
        foldedThrough := some window.2 }, if target ≤ window.2 then .done else .more, true) := by
  simp [foldNextSlice, current, hfirst, hstart, late, hskip]

/-- A slice only bootstraps the watermark, or folds a window that holds exactly the rows that
count between the watermark and its end. -/
theorem foldNextSlice_cases (cfg : FoldConfig) (target : ℤ) (s : State Account Key) :
    (∃ wrote, foldNextSlice cfg target s =
        ({ s with foldedThrough := some s.watermark }, .done, wrote)) ∨
      ∃ start stop wrote status, s.watermark < stop ∧
        (∀ l ∈ s.logs, l.counts → (start < l.requestedAt ↔ s.watermark < l.requestedAt)) ∧
        (status = .more → stop < target) ∧
        foldNextSlice cfg target s =
          ({ s with
            accountRollups := upsertAll (· ∈ s.accounts)
              (dedupedUsageAggregate (s.logs.filter (RequestLog.within start stop))) s.accountRollups
            keyRollups := upsertAll (· ∈ s.keys)
              (apiKeyUsageAggregate (s.logs.filter (RequestLog.within start stop))) s.keyRollups
            foldedThrough := some stop }, status, wrote) := by
  by_cases current : target ≤ s.watermark
  · exact .inl ⟨false, by simp [foldNextSlice, current]⟩
  cases hfirst : earliest s.logs with
  | none => exact .inl ⟨false, by simp [foldNextSlice, current, hfirst]⟩
  | some first =>
    obtain ⟨start, hstart⟩ : ∃ start,
        (if s.watermark < first then first - 1000000 else s.watermark) = start := ⟨_, rfl⟩
    by_cases late : target ≤ start
    · exact .inl ⟨false, by simp [foldNextSlice, current, hfirst, hstart, late]⟩
    · right
      have long := cfg.slice_long
      obtain ⟨⟨start', stop'⟩, hskip⟩ :
        ∃ window, skipEmpty cfg s.logs target start (min (start + cfg.slice) target) = window :=
        ⟨_, rfl⟩
      obtain ⟨starts, stops, skipped⟩ := skipEmpty_spec (by omega) (by omega) hskip
      refine ⟨start', stop', true, if target ≤ stop' then .done else .more, ?_, ?_, ?_,
        by rw [foldNextSlice_window current hfirst hstart late hskip]⟩
      · split_ifs at hstart <;> omega
      · intro l hl counts
        have least := earliest_le hfirst hl counts
        have passed := skipped l hl counts
        split_ifs at hstart <;> omega
      · split_ifs with last
        · exact fun h => nomatch h
        · exact fun _ => not_le.mp last

theorem foldNextSlice_advances {cfg : FoldConfig} {target : ℤ}
    (more : (foldNextSlice cfg target s).2.1 = .more) :
    s.watermark < (foldNextSlice cfg target s).1.watermark ∧
      (foldNextSlice cfg target s).1.watermark < target := by
  rcases foldNextSlice_cases cfg target s with
    ⟨wrote, h⟩ | ⟨start, stop, wrote, status, later, -, below, h⟩
  · rw [h] at more
    cases more
  · rw [h] at more ⊢
    exact ⟨later, below more⟩

/-- `run_fold_pass`: slices until the watermark is current, and how many wrote. -/
def runFoldPass (cfg : FoldConfig) (now : ℤ) (s : State Account Key) : State Account Key × ℕ :=
  if (foldNextSlice cfg (now - cfg.lag) s).2.1 = .more then
    let (t, committed) := runFoldPass cfg now (foldNextSlice cfg (now - cfg.lag) s).1
    (t, committed + (foldNextSlice cfg (now - cfg.lag) s).2.2.toNat)
  else
    ((foldNextSlice cfg (now - cfg.lag) s).1, (foldNextSlice cfg (now - cfg.lag) s).2.2.toNat)
termination_by (now - cfg.lag - s.watermark).toNat
decreasing_by
  rename_i more
  have := foldNextSlice_advances more
  omega

end Slices

end UsageRollup
