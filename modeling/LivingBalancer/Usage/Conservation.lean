import LivingBalancer.Usage.Consolidation

/-!
# Rollups and tail add up to the history

The watermark cuts the ledger: the rollup rows are the aggregate of the ledger up to it,
and the log table still holds everything after it. A consolidation adds folded sums, so
account totals need the folded rows of the joined accounts to be apart.
-/

namespace UsageRollup

open Runs Totals

variable {Account Key : Type} {s s' : State Account Key}

section Keys

variable [DecidableEq Key]

/-- The log table is whole after the watermark and the key rollups cover the rest. -/
structure State.Covered (s : State Account Key) : Prop where
  unfolded : s.foldedThrough = none → s.logs = s.ledger
  tail : since s.watermark s.logs = since s.watermark s.ledger
  keys : ∀ k ∈ s.keys, (s.keyRollups k).getD 0 = keyUsage (upto s.watermark s.ledger) k

theorem State.Covered.keyTotals (cov : s.Covered) {k : Key} (hk : k ∈ s.keys) :
    keyTotals s k = keyUsage s.ledger k := by
  cases h : s.foldedThrough with
  | none => simp [UsageRollup.keyTotals, readApiKeyRollupState, UsageRollup.tail, h, cov.unfolded h]
  | some watermark =>
    have hwatermark : s.watermark = watermark := by simp [State.watermark, h]
    have table := cov.tail
    rw [hwatermark] at table
    simp only [UsageRollup.keyTotals, readApiKeyRollupState, UsageRollup.tail, h, cov.keys k hk, hwatermark]
    rw [← keyUsage_since watermark s.ledger, ← table]
    rfl

/-- What the table no longer holds was folded. -/
theorem State.Covered.folded (cov : s.Covered) {l : RequestLog Account Key} (hl : l ∈ s.ledger)
    (pruned : l ∉ s.logs) : l.requestedAt ≤ s.watermark := by
  by_contra late
  have member : l ∈ since s.watermark s.ledger :=
    List.mem_filter.mpr ⟨hl, by simpa [RequestLog.after] using late⟩
  rw [← cov.tail] at member
  exact pruned (List.mem_of_mem_filter member)

end Keys

section Accounts

variable [DecidableEq Account]

def State.AccountsCovered (s : State Account Key) : Prop :=
  ∀ a ∈ s.accounts, (s.accountRollups a).getD 0 = accountUsage (upto s.watermark s.ledger) a

/-- Folded sums are added, so the folded rows of the joined accounts have to be apart. -/
theorem State.AccountsCovered.merge {c : Account} {dups : List Account}
    (accounts : s.AccountsCovered) (outside : c ∉ dups)
    (nodup : dups.Nodup) (exist : ∀ a ∈ dups, a ∈ s.accounts)
    (apart : Apart (c :: dups) (upto s.watermark s.ledger)) :
    (consolidate c dups s).AccountsCovered := by
  intro a remaining
  obtain ⟨ha, kept⟩ : a ∈ s.accounts ∧ a ∉ dups := by
    simpa [consolidate] using remaining
  change (mergeRollupsInto c dups s.accountRollups a).getD 0 =
    accountUsage (upto s.watermark (s.ledger.map (reassign c dups))) a
  rw [upto_reassign, accountUsage_reassign apart]
  by_cases same : a = c
  · subst same
    have sums : ((a :: dups).map fun b => (s.accountRollups b).getD 0) =
        (a :: dups).map fun b => accountUsage (upto s.watermark s.ledger) b := by
      refine List.map_congr_left fun b hb => accounts b ?_
      rcases List.mem_cons.mp hb with rfl | hb
      · exact ha
      · exact exist b hb
    rw [mergeRollupsInto_own outside, sums]
    simp only [accountUsage_eq]
    rw [← total_owners _ _ _ (List.nodup_cons.mpr ⟨outside, nodup⟩)]
    refine total_congr fun l _ => congrArg _ ?_
    rw [reassign_accountId]
    cases l.accountId with
    | none => rfl
    | some b => by_cases moved : b ∈ dups <;> simp [moved]
  · rw [mergeRollupsInto_other kept same, accounts a ha, accountUsage_eq]
    refine total_congr fun l _ => congrArg _ ?_
    rw [reassign_accountId]
    cases l.accountId with
    | none => rfl
    | some b =>
      by_cases moved : b ∈ dups
      · have apart : b ≠ a := fun h => kept (h ▸ moved)
        simp [moved, apart, Ne.symm same]
      · simp [moved]

end Accounts

section System

variable [DecidableEq Account] [DecidableEq Key]

theorem State.Covered.fold (cov : s.Covered) (cfg : FoldConfig) (target : ℤ) :
    (foldNextSlice cfg target s).1.Covered ∧
      (s.AccountsCovered → (foldNextSlice cfg target s).1.AccountsCovered) := by
  rcases foldNextSlice_cases cfg target s with
    ⟨wrote, h⟩ | ⟨start, stop, wrote, status, later, same, -, h⟩
  · rw [h]
    exact ⟨⟨nofun, cov.tail, cov.keys⟩, id⟩
  · rw [h]
    refine ⟨⟨nofun, since_of_since later.le cov.tail, fun k hk => ?_⟩, fun accounts a ha => ?_⟩
    · have rows := window_rows stop cov.tail same fun l => Or.inr
      refine (fold_keyRollup hk ..).trans ?_
      rw [keyUsage_congr rows, cov.keys k hk]
      exact keyUsage_upto later.le s.ledger k
    · have rows := window_rows stop cov.tail same fun l => Or.inl
      refine (fold_accountRollup ha ..).trans ?_
      rw [accountUsage_congr rows, accounts a ha]
      exact accountUsage_upto later.le s.ledger a

theorem State.Covered.insert (cov : s.Covered) {log : RequestLog Account Key}
    (late : s.watermark < log.requestedAt) :
    { s with logs := s.logs ++ [log], ledger := s.ledger ++ [log] }.Covered ∧
      (s.AccountsCovered →
        { s with logs := s.logs ++ [log], ledger := s.ledger ++ [log] }.AccountsCovered) := by
  have before : upto s.watermark (s.ledger ++ [log]) = upto s.watermark s.ledger := by
    simp [upto, late]
  refine ⟨⟨fun h => by rw [cov.unfolded h], ?_, fun k hk => ?_⟩, fun accounts a ha => ?_⟩
  · have tail := cov.tail
    simp only [since] at tail ⊢
    rw [List.filter_append, List.filter_append]
    exact congrArg (· ++ _) tail
  · rw [cov.keys k hk]
    exact congrArg (keyUsage · k) before.symm
  · rw [accounts a ha]
    exact congrArg (accountUsage · a) before.symm

/-- Only folded rows are pruned. -/
theorem State.Covered.prune (cov : s.Covered) {cfg : FoldConfig} {cutoff now : ℤ} {batch : List ℕ}
    (h : pruneBatch cfg cutoff now batch s = some s') :
    s'.Covered ∧ (s.AccountsCovered → s'.AccountsCovered) := by
  simp only [pruneBatch] at h
  split at h
  · cases h
    exact ⟨cov, id⟩
  · rename_i watermark hfolded
    have hwatermark : s.watermark = watermark := by simp [State.watermark, hfolded]
    split_ifs at h with behind old
    · cases h
      exact ⟨cov, id⟩
    · cases h
      have nonneg := cfg.lag_nonneg
      have table : since s.watermark (s.logs.filter fun l => l.id ∉ batch) =
          since s.watermark s.logs := by
        rw [since, since, List.filter_filter]
        refine List.filter_congr fun l hl => ?_
        by_cases pruned : l.id ∈ batch
        · have early := old.2 l hl pruned
          have folded : ¬ s.watermark < l.requestedAt := by omega
          simp [RequestLog.after, folded]
        · simp [pruned]
      exact ⟨⟨fun none => by simp [hfolded] at none, table.trans cov.tail, cov.keys⟩, id⟩

theorem State.Covered.merge (cov : s.Covered) (c : Account) (dups : List Account) :
    (consolidate c dups s).Covered := by
  refine ⟨nofun, ?_, fun k hk => ?_⟩
  · change since s.watermark (s.logs.map _) = since s.watermark (s.ledger.map _)
    rw [since_reassign, since_reassign, cov.tail]
  · change (s.keyRollups k).getD 0 = keyUsage (upto s.watermark (s.ledger.map _)) k
    rw [upto_reassign, keyUsage_reassign]
    exact cov.keys k hk

theorem State.Covered.accountTotals (cov : s.Covered) (accounts : s.AccountsCovered) {a : Account}
    (ha : a ∈ s.accounts) : accountTotals s a = accountUsage s.ledger a := by
  cases h : s.foldedThrough with
  | none => simp [UsageRollup.accountTotals, readState, UsageRollup.tail, h, cov.unfolded h]
  | some watermark =>
    have hwatermark : s.watermark = watermark := by simp [State.watermark, h]
    have table := cov.tail
    rw [hwatermark] at table
    simp only [UsageRollup.accountTotals, readState, UsageRollup.tail, h, accounts a ha, hwatermark]
    rw [← accountUsage_since watermark s.ledger, ← table]
    rfl

/-! ## Runs -/

/-- A consolidation joins accounts whose folded rows are apart. -/
def MergesApart (s : State Account Key) : Act Account Key → Prop
  | .merge c dups => Apart (c :: dups) (upto s.watermark s.ledger)
  | _ => True

/-- Nothing was folded yet; every log is later than the initial watermark. -/
structure Initial (s : State Account Key) : Prop where
  logs : s.logs = s.ledger
  folded : s.foldedThrough = none ∨ s.foldedThrough = some epoch
  accounts : ∀ a, s.accountRollups a = none
  keys : ∀ k, s.keyRollups k = none
  late : ∀ l ∈ s.ledger, epoch < l.requestedAt

theorem State.Covered.step {cfg : FoldConfig} (cov : s.Covered) {act : Act Account Key}
    (h : UsageRollup.step cfg s act = some s') :
    s'.Covered ∧ (MergesApart s act → s.AccountsCovered → s'.AccountsCovered) := by
  cases act with
  | fold now =>
    cases h
    exact ⟨(cov.fold cfg _).1, fun _ => (cov.fold cfg _).2⟩
  | insert log =>
    simp only [UsageRollup.step, Option.ite_none_right_eq_some, Option.some.injEq] at h
    obtain ⟨⟨late, -⟩, rfl⟩ := h
    exact ⟨(cov.insert late).1, fun _ => (cov.insert late).2⟩
  | prune cutoff now batch => exact ⟨(cov.prune h).1, fun _ => (cov.prune h).2⟩
  | merge c dups =>
    simp only [UsageRollup.step, Option.ite_none_right_eq_some, Option.some.injEq] at h
    obtain ⟨⟨-, -, outside, nodup, exist⟩, rfl⟩ := h
    exact ⟨cov.merge c dups, fun apart accounts => accounts.merge outside nodup exist apart⟩

theorem Initial.covered (init : Initial s) : s.Covered ∧ s.AccountsCovered := by
  have start : s.watermark = epoch := by
    rcases init.folded with h | h <;> simp [State.watermark, h]
  have none : upto s.watermark s.ledger = [] := by
    rw [start, upto, List.filter_eq_nil_iff]
    intro l hl
    simpa using init.late l hl
  refine ⟨⟨fun _ => init.logs, by rw [init.logs], fun k _ => ?_⟩, fun a _ => ?_⟩
  · rw [init.keys, none]
    rfl
  · rw [init.accounts, none]
    rfl

/-- A pass is a run of slices, so a run of passes is one of the runs below. -/
theorem runFoldPass_steps (cfg : FoldConfig) (now : ℤ) (s : State Account Key) :
    Steps (step cfg) MergesApart s (runFoldPass cfg now s).1 := by
  have slice : ∀ s : State Account Key,
      Steps (step cfg) MergesApart s (foldNextSlice cfg (now - cfg.lag) s).1 := fun s =>
    .tail (.fold now) (.refl s) trivial rfl
  fun_induction runFoldPass cfg now s with
  | case1 s _ t committed hrest ih =>
    rw [hrest] at ih
    exact (slice s).trans ih
  | case2 s _ => exact slice s

/-- Key totals, and account totals while consolidations join accounts whose folded rows are
apart, are the aggregate of the whole ledger; only folded rows were pruned. -/
theorem usage_conserved (cfg : FoldConfig) {s : State Account Key}
    (h : Reachable (step cfg) Any Initial s) :
    (∀ k ∈ s.keys, keyTotals s k = keyUsage s.ledger k) ∧
      (∀ l ∈ s.ledger, l ∉ s.logs → l.requestedAt ≤ s.watermark) ∧
      (Reachable (step cfg) MergesApart Initial s →
        ∀ a ∈ s.accounts, accountTotals s a = accountUsage s.ledger a) := by
  have cov : s.Covered := h.invariant (fun _ init => init.covered.1)
    fun _ _ _ cov _ hstep => (cov.step hstep).1
  refine ⟨fun k hk => cov.keyTotals hk, fun l hl pruned => cov.folded hl pruned, fun run => ?_⟩
  have accounts : s.Covered ∧ s.AccountsCovered := run.invariant (fun _ init => init.covered)
    fun _ _ _ both apart hstep =>
      ⟨(both.1.step hstep).1, (both.1.step hstep).2 apart both.2⟩
  exact fun a ha => cov.accountTotals accounts.2 ha

end System

/-! ## Two accounts with one request -/

def failoverLog (id : ℕ) (account request : String) : RequestLog String String where
  id := id
  accountId := some account
  apiKeyId := some "key"
  requestId := request
  requestKind := "normal"
  requestedAt := 100
  deletedAt := none
  inputTokens := some 7
  outputTokens := some 5
  cachedInputTokens := none
  reasoningTokens := none
  costUsd := none

/-- The same instant under both accounts; `request` is the id of the second log. -/
def twoAccounts (request : String) : State String String where
  logs := [failoverLog 1 "main" "req", failoverLog 2 "copy" request]
  accounts := ["main", "copy"]
  keys := ["key"]
  accountRollups _ := none
  keyRollups _ := none
  foldedThrough := none
  ledger := [failoverLog 1 "main" "req", failoverLog 2 "copy" request]

def folded (request : String) : State String String :=
  (foldNextSlice foldConfig 1000 (twoAccounts request)).1

def joined (request : String) : State String String :=
  consolidate "main" ["copy"] (folded request)

theorem twoAccounts_initial (request : String) : Initial (twoAccounts request) := by
  refine ⟨rfl, .inl rfl, fun _ => rfl, fun _ => rfl, fun l hl => ?_⟩
  have late : (epoch : ℤ) < 100 := by decide
  simp only [twoAccounts, List.mem_cons, List.not_mem_nil, or_false] at hl
  rcases hl with rfl | rfl <;> exact late

theorem folded_eq (request : String) : folded request =
    { twoAccounts request with
      accountRollups := upsertAll (· ∈ ["main", "copy"])
        (dedupedUsageAggregate (twoAccounts request).logs) fun _ => none
      keyRollups := upsertAll (· ∈ ["key"])
        (apiKeyUsageAggregate (twoAccounts request).logs) fun _ => none
      foldedThrough := some 1000 } := by
  have rows : emptyWindow (twoAccounts request).logs (-999900) 1000 = false := by
    rw [Bool.eq_false_iff]
    intro empty
    have first : (failoverLog 1 "main" "req").counts := .inl (by decide)
    exact not_counts_of_empty empty List.mem_cons_self first ⟨by decide, by decide⟩
  have hskip : skipEmpty foldConfig (twoAccounts request).logs 1000 (-999900)
      (min (-999900 + foldConfig.slice) 1000) = (-999900, 1000) := by
    rw [skipEmpty]
    exact if_neg fun skip => by
      rw [show min (-999900 + foldConfig.slice) 1000 = 1000 from rfl, rows] at skip
      cases skip.1
  have watermark : (twoAccounts request).watermark = 0 := rfl
  have hfirst : earliest (twoAccounts request).logs = some 100 := rfl
  have hstart : (if (twoAccounts request).watermark < 100 then 100 - 1000000
      else (twoAccounts request).watermark) = -999900 := by
    rw [watermark]
    decide
  rw [folded, foldNextSlice_window (by rw [watermark]; decide) hfirst hstart (by decide) hskip]
  rfl

theorem joined_steps (request : String) {ok : State String String → Act String String → Prop}
    (fold : ∀ s now, ok s (.fold now)) (merge : ok (folded request) (.merge "main" ["copy"])) :
    Steps (step foldConfig) ok (twoAccounts request) (joined request) := by
  have first : step foldConfig (twoAccounts request) (.fold 86400001000) = some (folded request) :=
    rfl
  have second : step foldConfig (folded request) (.merge "main" ["copy"]) =
      some (joined request) := by
    have possible : [("copy" : String)] ≠ [] ∧ "main" ∈ (folded request).accounts ∧
        "main" ∉ ["copy"] ∧ ["copy"].Nodup ∧ ∀ a ∈ ["copy"], a ∈ (folded request).accounts := by
      rw [folded_eq]
      change [("copy" : String)] ≠ [] ∧ "main" ∈ ["main", "copy"] ∧ "main" ∉ ["copy"] ∧
        ["copy"].Nodup ∧ ∀ a ∈ ["copy"], a ∈ ["main", "copy"]
      decide
    rw [step, if_pos possible, joined]
  exact .tail _ (.tail _ (.refl _) (fold _ _) first) merge second

/-- Two folded rows of one request are added, but are one row of the joined account. -/
theorem joined_duplicates_counted_twice :
    Reachable (step foldConfig) Any Initial (joined "req") ∧ "main" ∈ (joined "req").accounts ∧
      accountTotals (joined "req") "main" ≠ accountUsage (joined "req").ledger "main" := by
  refine ⟨⟨_, twoAccounts_initial "req", joined_steps "req" (fun _ _ => trivial) trivial⟩, ?_, ?_⟩
  · rw [joined, folded_eq]
    decide
  · rw [joined, folded_eq]
    intro same
    have counts := congrArg UsageRollupSums.requestCount same
    revert counts
    decide

theorem joined_requests_conserved :
    accountTotals (joined "other") "main" = accountUsage (joined "other").ledger "main" := by
  have apart : MergesApart (folded "other") (.merge "main" ["copy"]) := by
    rw [folded_eq]
    change Apart _ _
    decide
  have run : Reachable (step foldConfig) MergesApart Initial (joined "other") :=
    ⟨_, twoAccounts_initial "other", joined_steps "other" (fun _ _ => trivial) apart⟩
  have any : Reachable (step foldConfig) Any Initial (joined "other") :=
    ⟨_, twoAccounts_initial "other", joined_steps "other" (fun _ _ => trivial) trivial⟩
  refine (usage_conserved foldConfig any).2.2 run "main" ?_
  rw [joined, folded_eq]
  decide

end UsageRollup
