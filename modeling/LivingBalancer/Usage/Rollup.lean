import Mathlib.Data.Rat.Defs
import Mathlib.Tactic.Ring
import LivingBalancer.Lib.Runs
import LivingBalancer.Lib.Totals

/-!
# Usage rollups and the request-log tail

`usage_rollup.py` with the pruning of `core/retention/job.py` and the account
consolidation of the accounts repository, over the request-log table. A fold slice, a
prune batch and a consolidation hold the fold-state lock or read the watermark in the
statement that deletes, so each is one step. Times are microseconds and costs exact.

`ledger` records every log ever inserted under the account that owns it now; no
statement reads it.
-/

namespace UsageRollup

open Totals

variable {Account Key : Type}

/-- The sums of a rollup row. -/
@[ext] structure UsageRollupSums where
  requestCount : ℤ
  inputTokens : ℤ
  outputTokens : ℤ
  cachedInputTokens : ℤ
  totalCostUsd : ℚ
  deriving DecidableEq

namespace UsageRollupSums

instance : Zero UsageRollupSums := ⟨⟨0, 0, 0, 0, 0⟩⟩

instance : Add UsageRollupSums :=
  ⟨fun a b => ⟨a.requestCount + b.requestCount, a.inputTokens + b.inputTokens,
    a.outputTokens + b.outputTokens, a.cachedInputTokens + b.cachedInputTokens,
    a.totalCostUsd + b.totalCostUsd⟩⟩

theorem add_def (a b : UsageRollupSums) :
    a + b = ⟨a.requestCount + b.requestCount, a.inputTokens + b.inputTokens,
      a.outputTokens + b.outputTokens, a.cachedInputTokens + b.cachedInputTokens,
      a.totalCostUsd + b.totalCostUsd⟩ := rfl

theorem zero_def : (0 : UsageRollupSums) = ⟨0, 0, 0, 0, 0⟩ := rfl

instance : AddCommMonoid UsageRollupSums where
  add_assoc a b c := by simp only [add_def, add_assoc]
  zero_add a := by simp only [add_def, zero_def, zero_add]
  add_zero a := by simp only [add_def, zero_def, add_zero]
  add_comm a b := by simp only [add_def, add_comm]
  nsmul := nsmulRec

end UsageRollupSums

/-- The columns of `request_logs` that the aggregates read. -/
structure RequestLog (Account Key : Type) where
  id : ℕ
  accountId : Option Account
  apiKeyId : Option Key
  requestId : String
  requestKind : String
  requestedAt : ℤ
  deletedAt : Option ℤ
  inputTokens : Option ℤ
  outputTokens : Option ℤ
  cachedInputTokens : Option ℤ
  reasoningTokens : Option ℤ
  costUsd : Option ℚ
  deriving DecidableEq

def excludedRequestKinds : List String := ["warmup", "limit_warmup"]

namespace RequestLog

/-- What one row adds to the sums; `SUM` skips `NULL`. -/
def usage (l : RequestLog Account Key) : UsageRollupSums where
  requestCount := 1
  inputTokens := l.inputTokens.getD 0
  outputTokens := (l.outputTokens.or l.reasoningTokens).getD 0
  cachedInputTokens := l.cachedInputTokens.getD 0
  totalCostUsd := l.costUsd.getD 0

/-- Conditions of the account aggregate. -/
def countsForAccount (l : RequestLog Account Key) : Bool :=
  !excludedRequestKinds.contains l.requestKind && l.deletedAt.isNone && l.accountId.isSome

/-- Conditions of the API-key aggregate. -/
def countsForKey (l : RequestLog Account Key) : Bool :=
  l.apiKeyId.isSome && !excludedRequestKinds.contains l.requestKind

def after (t : ℤ) (l : RequestLog Account Key) : Bool := t < l.requestedAt

def within (start stop : ℤ) (l : RequestLog Account Key) : Bool :=
  start < l.requestedAt && l.requestedAt ≤ stop

/-- Duplicate rows agree on all three. -/
def duplicateKey (l : RequestLog Account Key) : Option Account × String × ℤ :=
  (l.accountId, l.requestId, l.requestedAt)

end RequestLog

section Aggregates

variable [DecidableEq Account] [DecidableEq Key]

/-- `deduped_usage_aggregate_stmt` over the rows in the bounds: the grouped sums of the rows
with the highest id of their duplicate group. -/
def dedupedUsageAggregate (logs : List (RequestLog Account Key)) :
    List (Account × UsageRollupSums) :=
  let rows := logs.filter RequestLog.countsForAccount
  grouped RequestLog.accountId RequestLog.usage
    (newest RequestLog.duplicateKey RequestLog.id rows) rows

/-- `api_key_usage_aggregate_stmt` over the rows in the bounds. -/
def apiKeyUsageAggregate (logs : List (RequestLog Account Key)) : List (Key × UsageRollupSums) :=
  grouped RequestLog.apiKeyId RequestLog.usage RequestLog.countsForKey logs

/-- The row of one account in the account aggregate. -/
def accountUsage (logs : List (RequestLog Account Key)) (a : Account) : UsageRollupSums :=
  ((dedupedUsageAggregate logs).lookup a).getD 0

/-- The row of one key in the API-key aggregate. -/
def keyUsage (logs : List (RequestLog Account Key)) (k : Key) : UsageRollupSums :=
  ((apiKeyUsageAggregate logs).lookup k).getD 0

end Aggregates

/-! ## The tables -/

structure State (Account Key : Type) where
  logs : List (RequestLog Account Key)
  accounts : List Account
  keys : List Key
  accountRollups : Account → Option UsageRollupSums
  keyRollups : Key → Option UsageRollupSums
  foldedThrough : Option ℤ
  ledger : List (RequestLog Account Key)

/-- The fold boundaries of a deployment; the source fixes both. -/
structure FoldConfig where
  lag : ℤ
  slice : ℤ
  lag_nonneg : 0 ≤ lag
  slice_long : 1000000 < slice

/-- `FOLD_LAG` and `FOLD_SLICE`. -/
def foldConfig : FoldConfig where
  lag := 24 * 3600 * 1000000
  slice := 7 * 24 * 3600 * 1000000
  lag_nonneg := by decide
  slice_long := by decide

def epoch : ℤ := 0

/-- The watermark after the bootstrap of the state row. -/
def State.watermark (s : State Account Key) : ℤ := s.foldedThrough.getD epoch

section Operations

variable [DecidableEq Account] [DecidableEq Key]

/-- The earliest row that one of the two aggregates counts. -/
def earliest (logs : List (RequestLog Account Key)) : Option ℤ :=
  let accountEarliest := ((logs.filter RequestLog.countsForAccount).map (·.requestedAt)).min?
  let keyEarliest := ((logs.filter RequestLog.countsForKey).map (·.requestedAt)).min?
  ([accountEarliest, keyEarliest].filterMap id).min?

/-- Neither aggregate has a row in the window. -/
def emptyWindow (logs : List (RequestLog Account Key)) (start stop : ℤ) : Bool :=
  (dedupedUsageAggregate (logs.filter (RequestLog.within start stop))).isEmpty &&
    (apiKeyUsageAggregate (logs.filter (RequestLog.within start stop))).isEmpty

/-- The loop that skips empty stretches of history; it returns the window to fold. -/
def skipEmpty (cfg : FoldConfig) (logs : List (RequestLog Account Key)) (target start stop : ℤ) :
    ℤ × ℤ :=
  if emptyWindow logs start stop = true ∧ stop < target then
    skipEmpty cfg logs target stop (min (stop + cfg.slice) target)
  else (start, stop)
termination_by (target - stop).toNat
decreasing_by
  have := cfg.slice_long
  omega

inductive FoldStatus where
  | done
  | more
  deriving DecidableEq

/-- `_fold_next_slice`: the state after the commit, the status and whether it wrote. -/
def foldNextSlice (cfg : FoldConfig) (target : ℤ) (s : State Account Key) :
    State Account Key × FoldStatus × Bool :=
  let watermark := s.watermark
  let s := { s with foldedThrough := some watermark }
  if target ≤ watermark then (s, .done, false)
  else
    match earliest s.logs with
    | none => (s, .done, false)
    | some first =>
      let start := if watermark < first then first - 1000000 else watermark
      if target ≤ start then (s, .done, false)
      else
        let (start, stop) := skipEmpty cfg s.logs target start (min (start + cfg.slice) target)
        let rows := s.logs.filter (RequestLog.within start stop)
        ({ s with
          accountRollups := upsertAll (· ∈ s.accounts) (dedupedUsageAggregate rows) s.accountRollups
          keyRollups := upsertAll (· ∈ s.keys) (apiKeyUsageAggregate rows) s.keyRollups
          foldedThrough := some stop }, if target ≤ stop then .done else .more, true)

/-- One batch of `_prune_request_logs`; without `ORDER BY` the batch may be any. -/
def pruneBatch (cfg : FoldConfig) (cutoff now : ℤ) (batch : List ℕ) (s : State Account Key) :
    Option (State Account Key) :=
  match s.foldedThrough with
  | none => some s
  | some watermark =>
    if watermark < now - 2 * cfg.lag then some s
    else
      let effectiveCutoff := min cutoff (watermark - cfg.lag)
      if batch.length ≤ 10000 ∧ ∀ l ∈ s.logs, l.id ∈ batch → l.requestedAt < effectiveCutoff then
        some { s with logs := s.logs.filter fun l => l.id ∉ batch }
      else none

/-- The consolidation moves a duplicate's rows to the canonical account. -/
def reassign (canonical : Account) (duplicates : List Account) (l : RequestLog Account Key) :
    RequestLog Account Key :=
  if l.accountId.any (· ∈ duplicates) then { l with accountId := some canonical } else l

/-- `merge_rollups_into`. -/
def mergeRollupsInto (canonical : Account) (duplicates : List Account)
    (rollups : Account → Option UsageRollupSums) : Account → Option UsageRollupSums :=
  let found := duplicates.filterMap rollups
  if found.isEmpty then rollups
  else
    let kept := fun a => if a ∈ duplicates then none else rollups a
    Function.update kept canonical (some ((kept canonical).getD 0 + found.sum))

/-- `_reconcile_chatgpt_identity_duplicates` as far as usage is concerned. -/
def consolidate (canonical : Account) (duplicates : List Account) (s : State Account Key) :
    State Account Key :=
  { s with
    foldedThrough := some s.watermark
    logs := s.logs.map (reassign canonical duplicates)
    ledger := s.ledger.map (reassign canonical duplicates)
    accountRollups := mergeRollupsInto canonical duplicates s.accountRollups
    accounts := s.accounts.filter (· ∉ duplicates) }

/-- `read_state`: without a state row there are no sums and no watermark. -/
def readState (s : State Account Key) : (Account → Option UsageRollupSums) × Option ℤ :=
  match s.foldedThrough with
  | none => (fun _ => none, none)
  | some watermark => (s.accountRollups, some watermark)

/-- `read_api_key_rollup_state`. -/
def readApiKeyRollupState (s : State Account Key) : (Key → Option UsageRollupSums) × Option ℤ :=
  match s.foldedThrough with
  | none => (fun _ => none, none)
  | some watermark => (s.keyRollups, some watermark)

/-- The rows of the live tail. -/
def tail (logs : List (RequestLog Account Key)) : Option ℤ → List (RequestLog Account Key)
  | none => logs
  | some watermark => logs.filter (RequestLog.after watermark)

/-- The merged totals of an account, before clamping and rounding. -/
def accountTotals (s : State Account Key) (a : Account) : UsageRollupSums :=
  let (folded, watermark) := readState s
  (folded a).getD 0 + accountUsage (tail s.logs watermark) a

/-- The merged totals of an API key. -/
def keyTotals (s : State Account Key) (k : Key) : UsageRollupSums :=
  let (folded, watermark) := readApiKeyRollupState s
  (folded k).getD 0 + keyUsage (tail s.logs watermark) k

inductive Act (Account Key : Type) where
  | fold (now : ℤ)
  | insert (log : RequestLog Account Key)
  | prune (cutoff now : ℤ) (batch : List ℕ)
  | merge (canonical : Account) (duplicates : List Account)

/-- One committed slice, insert, prune batch or consolidation. A log names an account that
exists, has an id of its own and is later than the watermark. -/
def step (cfg : FoldConfig) (s : State Account Key) : Act Account Key → Option (State Account Key)
  | .fold now => some (foldNextSlice cfg (now - cfg.lag) s).1
  | .insert log =>
    if s.watermark < log.requestedAt ∧ (∀ a ∈ log.accountId, a ∈ s.accounts) ∧
        ∀ l ∈ s.logs, l.id ≠ log.id then
      some { s with logs := s.logs ++ [log], ledger := s.ledger ++ [log] }
    else none
  | .prune cutoff now batch => pruneBatch cfg cutoff now batch s
  | .merge canonical duplicates =>
    if duplicates ≠ [] ∧ canonical ∈ s.accounts ∧ canonical ∉ duplicates ∧ duplicates.Nodup ∧
        ∀ a ∈ duplicates, a ∈ s.accounts then
      some (consolidate canonical duplicates s)
    else none

end Operations

end UsageRollup
