import Mathlib.Data.List.Infix
import Mathlib.Data.List.Sort
import Mathlib.Data.Rat.Defs
import Mathlib.Algebra.Order.BigOperators.Group.List
import Mathlib.Algebra.Order.Ring.Rat
import LivingBalancer.Lib.GroupTotals
import LivingBalancer.Lib.JsonText
import LivingBalancer.Tokdash.UsageStore

/-!
# Usage summed in SQL and in Python

`aggregate_entries` sums the stored entries by source, provider and model and drops the groups
without tokens; `_merge_parsed_usage` adds the groups up by source and joined name.
`parse_entries_json` adds up single entries and drops those without tokens. Cache hit rates are
left out: both compute them from the sums at the end.
-/

namespace Aggregation

open PyJson Totals GroupTotals UsageStore

/-- A row of `usage_entries`, as `_entry_for_storage` leaves it. -/
structure StoredEntry where
  source : Str
  model : Str
  provider : Str
  timestamp : ℤ
  input : ℤ
  output : ℤ
  cacheRead : ℤ
  cacheWrite : ℤ
  reasoning : ℤ
  cost : ℚ
  messageCount : ℤ
  source_ne : source ≠ []
  model_ne : model ≠ []
  messageCount_ne : messageCount ≠ 0

/-- The counters of an application or a model. -/
@[ext]
structure Amount where
  tokens : ℤ
  tokensIn : ℤ
  tokensOut : ℤ
  tokensCache : ℤ
  cost : ℚ
  messages : ℤ
  deriving DecidableEq

namespace Amount

instance : Zero Amount := ⟨⟨0, 0, 0, 0, 0, 0⟩⟩

instance : Add Amount := ⟨fun a b => ⟨a.tokens + b.tokens, a.tokensIn + b.tokensIn,
  a.tokensOut + b.tokensOut, a.tokensCache + b.tokensCache, a.cost + b.cost,
  a.messages + b.messages⟩⟩

@[simp] theorem tokens_zero : (0 : Amount).tokens = 0 := rfl
@[simp] theorem tokensIn_zero : (0 : Amount).tokensIn = 0 := rfl
@[simp] theorem tokensOut_zero : (0 : Amount).tokensOut = 0 := rfl
@[simp] theorem tokensCache_zero : (0 : Amount).tokensCache = 0 := rfl
@[simp] theorem cost_zero : (0 : Amount).cost = 0 := rfl
@[simp] theorem messages_zero : (0 : Amount).messages = 0 := rfl

variable (a b : Amount)

@[simp] theorem tokens_add : (a + b).tokens = a.tokens + b.tokens := rfl
@[simp] theorem tokensIn_add : (a + b).tokensIn = a.tokensIn + b.tokensIn := rfl
@[simp] theorem tokensOut_add : (a + b).tokensOut = a.tokensOut + b.tokensOut := rfl
@[simp] theorem tokensCache_add : (a + b).tokensCache = a.tokensCache + b.tokensCache := rfl
@[simp] theorem cost_add : (a + b).cost = a.cost + b.cost := rfl
@[simp] theorem messages_add : (a + b).messages = a.messages + b.messages := rfl

instance : AddCommMonoid Amount where
  add_assoc a b c := by ext <;> simp [add_assoc]
  zero_add a := by ext <;> simp
  add_zero a := by ext <;> simp
  add_comm a b := by ext <;> simp [add_comm]
  nsmul := nsmulRec

end Amount

/-- `v or "unknown"`. -/
def orUnknown (t : Str) : Str := if t = [] then text "unknown" else t

def fullModelName (provider model : Str) : Str :=
  if provider = [] then model else provider ++ text "/" ++ model

namespace StoredEntry

def name (e : StoredEntry) : Str := fullModelName e.provider e.model

def groupKey (e : StoredEntry) : Str × Str × Str := (e.source, e.provider, e.model)

/-- The counters of a sum of columns. -/
def amountOf (input output cacheRead cacheWrite reasoning : ℤ) (cost : ℚ) (messages : ℤ) :
    Amount where
  tokens := input + cacheWrite + output + cacheRead + reasoning
  tokensIn := input + cacheWrite
  tokensOut := output
  tokensCache := cacheRead
  cost := cost
  messages := messages

def amount (e : StoredEntry) : Amount :=
  amountOf e.input e.output e.cacheRead e.cacheWrite e.reasoning e.cost e.messageCount

def tokens (e : StoredEntry) : ℤ := e.amount.tokens

end StoredEntry

/-! ## The queries -/

/-- The arguments of `_where`. -/
structure Range where
  sources : List Str
  since : Option ℤ
  until_ : Option ℤ

def Range.holds (r : Range) (e : StoredEntry) : Bool :=
  let sources := r.sources.filter (· ≠ [])
  (sources.isEmpty || sources.contains e.source) &&
    r.since.all (fun since => decide (since ≤ e.timestamp)) &&
    r.until_.all fun until_ => decide (e.timestamp < until_)

/-- `query_entries`. -/
def queryEntries (store : List StoredEntry) (r : Range) : List StoredEntry :=
  (store.filter r.holds).insertionSort fun a b => a.timestamp ≤ b.timestamp

/-- `SUM` of integers, which raises when a partial sum leaves 64 bits. -/
def sqlSum (xs : List ℤ) : Option ℤ :=
  xs.foldlM (fun s x => if Fits (s + x) then some (s + x) else none) 0

/-- One row of the `GROUP BY`. -/
def groupAmount (rows : List StoredEntry) : Option Amount :=
  (sqlSum (rows.map (·.input))).bind fun input =>
  (sqlSum (rows.map (·.output))).bind fun output =>
  (sqlSum (rows.map (·.cacheRead))).bind fun cacheRead =>
  (sqlSum (rows.map (·.cacheWrite))).bind fun cacheWrite =>
  (sqlSum (rows.map (·.reasoning))).bind fun reasoning =>
  (sqlSum (rows.map (·.messageCount))).map fun messages =>
    StoredEntry.amountOf input output cacheRead cacheWrite reasoning (rows.map (·.cost)).sum messages

/-- A row of `all_models`. -/
structure ModelRow where
  source : Str
  name : Str
  amount : Amount
  deriving DecidableEq

def groupRows (entries : List StoredEntry) :
    List (Str × Str × Str) → Option (List ModelRow)
  | [] => some []
  | g :: rest =>
    (groupAmount (entries.filter fun e => decide (e.groupKey = g))).bind fun amount =>
      (groupRows entries rest).map fun rows =>
        ⟨orUnknown g.1, fullModelName g.2.1 (orUnknown g.2.2), amount⟩ :: rows

/-- An application with its models, in the order of their costs. -/
structure AppRows where
  total : Amount
  models : List ModelRow

structure Aggregate where
  total : Amount
  apps : Dict Str AppRows
  allModels : List ModelRow

/-- `aggregate_entries`; `none` if a sum raises. -/
def aggregateEntries (store : List StoredEntry) (r : Range) : Option Aggregate :=
  let entries := store.filter r.holds
  (groupRows entries (entries.map StoredEntry.groupKey).dedup).map fun rows =>
    let kept := rows.filter fun row => decide (row.amount.tokens ≠ 0)
    { total := (kept.map ModelRow.amount).sum
      apps := kept.foldl (fun apps row => apps.modify row.source ⟨0, []⟩ fun app =>
        ⟨app.total + row.amount,
          (app.models ++ [row]).insertionSort fun a b => b.amount.cost ≤ a.amount.cost⟩) .empty
      allModels := kept.insertionSort fun a b => b.amount.cost ≤ a.amount.cost }

/-! ## The sums in Python -/

structure App where
  total : Amount
  models : Dict Str Amount

/-- `apps` and `all_models_dict`. -/
structure Usage where
  apps : Dict Str App
  allModels : Dict (Str × Str) Amount

namespace Usage

def empty : Usage := ⟨.empty, .empty⟩

/-- What both loops do for one row. -/
def add (u : Usage) (source name : Str) (amount : Amount) : Usage where
  apps := u.apps.modify source ⟨0, .empty⟩ fun app =>
    ⟨app.total + amount, GroupTotals.add app.models name amount⟩
  allModels := GroupTotals.add u.allModels (source, name) amount

/-- `total_tokens`, `total_cost` and `total_messages`. -/
def total (u : Usage) : Amount := u.allModels.values.sum

end Usage

/-- `_merge_parsed_usage` of the `all_models` of its parts. -/
def mergeParsedUsage (parts : List (List ModelRow)) : Usage :=
  parts.foldl (fun u part => part.foldl (fun u row =>
    if row.amount.tokens = 0 then u
    else u.add (orUnknown row.source) (orUnknown row.name) row.amount) u) .empty

/-- `pricing_db.get_cost`. -/
abbrev Pricing := Str → ℤ → ℤ → ℤ → ℤ → ℚ

/-- The counters of one entry; a cost that is not positive is computed again. -/
def entryAmount (getCost : Pricing) (e : StoredEntry) : Amount :=
  { e.amount with
    cost := if 0 < e.cost then e.cost
      else getCost e.name e.input e.output e.cacheRead e.cacheWrite }

def parseEntriesJson (getCost : Pricing) (entries : List StoredEntry) : Usage :=
  entries.foldl (fun u e =>
    if e.tokens = 0 then u else u.add e.source e.name (entryAmount getCost e)) .empty


/-! ## Sums that a column allows -/

/-- Every partial sum has 64 bits. -/
def Summable (xs : List ℤ) : Prop := ∀ before, before <+: xs → Fits before.sum

theorem sqlSum_from {xs : List ℤ} {s t : ℤ} :
    xs.foldlM (fun s x => if Fits (s + x) then some (s + x) else none) s = some t ↔
      (∀ before, before <+: xs → before ≠ [] → Fits (s + before.sum)) ∧ t = s + xs.sum := by
  induction xs generalizing s with
  | nil =>
    constructor
    · intro h
      cases h
      refine ⟨fun before pre some_ => absurd (List.prefix_nil.mp pre) some_, ?_⟩
      rw [List.sum_nil, add_zero]
    · rintro ⟨_, rfl⟩
      rw [List.sum_nil, add_zero]
      rfl
  | cons x rest ih =>
    rw [List.foldlM_cons]
    by_cases fits : Fits (s + x)
    · rw [if_pos fits]
      refine (ih (s := s + x)).trans ?_
      rw [List.sum_cons, add_assoc]
      refine and_congr_left fun _ => ?_
      constructor
      · intro later before pre some_
        obtain ⟨y, before, rfl⟩ := List.exists_cons_of_ne_nil some_
        obtain ⟨rfl, preRest⟩ := List.cons_prefix_cons.mp pre
        cases before with
        | nil => simpa using fits
        | cons z before =>
          rw [List.sum_cons, ← add_assoc]
          exact later _ preRest (List.cons_ne_nil z before)
      · intro whole before pre some_
        rw [add_assoc, ← List.sum_cons]
        exact whole _ (List.cons_prefix_cons.mpr ⟨rfl, pre⟩) (List.cons_ne_nil x before)
    · rw [if_neg fits]
      constructor
      · intro h
        cases h
      · rintro ⟨whole, _⟩
        have first := whole [x] (List.cons_prefix_cons.mpr ⟨rfl, List.nil_prefix⟩)
          (List.cons_ne_nil x [])
        rw [List.sum_singleton] at first
        exact absurd first fits

theorem sqlSum_eq_some {xs : List ℤ} {t : ℤ} : sqlSum xs = some t ↔ Summable xs ∧ t = xs.sum := by
  rw [sqlSum, sqlSum_from, zero_add]
  refine and_congr_left fun _ => ?_
  constructor
  · intro each before pre
    by_cases none_ : before = []
    · rw [none_]
      decide
    · rw [← zero_add before.sum]
      exact each before pre none_
  · intro each before pre _
    rw [zero_add]
    exact each before pre

/-- Every sum of a group has 64 bits all along. -/
structure SumsFit (rows : List StoredEntry) : Prop where
  input : Summable (rows.map (·.input))
  output : Summable (rows.map (·.output))
  cacheRead : Summable (rows.map (·.cacheRead))
  cacheWrite : Summable (rows.map (·.cacheWrite))
  reasoning : Summable (rows.map (·.reasoning))
  messageCount : Summable (rows.map (·.messageCount))

theorem amount_sum (rows : List StoredEntry) : (rows.map StoredEntry.amount).sum =
    StoredEntry.amountOf (rows.map (·.input)).sum (rows.map (·.output)).sum
      (rows.map (·.cacheRead)).sum (rows.map (·.cacheWrite)).sum (rows.map (·.reasoning)).sum
      (rows.map (·.cost)).sum (rows.map (·.messageCount)).sum := by
  induction rows with
  | nil => rfl
  | cons e rest ih =>
    rw [List.map_cons, List.sum_cons, ih]
    simp only [List.map_cons, List.sum_cons]
    ext
    · simp only [StoredEntry.amount, StoredEntry.amountOf, Amount.tokens_add]
      omega
    · simp only [StoredEntry.amount, StoredEntry.amountOf, Amount.tokensIn_add]
      omega
    · rfl
    · rfl
    · rfl
    · rfl

theorem groupAmount_eq_some {rows : List StoredEntry} {amount : Amount} :
    groupAmount rows = some amount ↔
      SumsFit rows ∧ amount = (rows.map StoredEntry.amount).sum := by
  simp only [groupAmount, Option.bind_eq_some_iff, Option.map_eq_some_iff, sqlSum_eq_some]
  constructor
  · rintro ⟨_, ⟨input, rfl⟩, _, ⟨output, rfl⟩, _, ⟨cacheRead, rfl⟩, _, ⟨cacheWrite, rfl⟩, _,
      ⟨reasoning, rfl⟩, _, ⟨messages, rfl⟩, rfl⟩
    exact ⟨⟨input, output, cacheRead, cacheWrite, reasoning, messages⟩, (amount_sum rows).symm⟩
  · rintro ⟨fit, rfl⟩
    exact ⟨_, ⟨fit.input, rfl⟩, _, ⟨fit.output, rfl⟩, _, ⟨fit.cacheRead, rfl⟩, _,
      ⟨fit.cacheWrite, rfl⟩, _, ⟨fit.reasoning, rfl⟩, _, ⟨fit.messageCount, rfl⟩,
      (amount_sum rows).symm⟩

/-! ## Loops as totals -/

/-- A row of one of the loops: source, name and counters. -/
abbrev Line := (Str × Str) × Amount

def usageOf (lines : List Line) : Usage :=
  lines.foldl (fun u line => u.add line.1.1 line.1.2 line.2) .empty

section Usages

variable {lines lines' : List Line}

theorem usageOf_allModels : (usageOf lines).allModels = collect Prod.fst Prod.snd .empty lines := by
  have from_ : ∀ u : Usage, (lines.foldl (fun u line => u.add line.1.1 line.1.2 line.2) u).allModels =
      collect Prod.fst Prod.snd u.allModels lines := by
    induction lines with
    | nil => exact fun u => rfl
    | cons line rest ih => exact fun u => ih (u.add line.1.1 line.1.2 line.2)
  exact from_ .empty

theorem usageOf_apps (source : Str) : ((usageOf lines).apps.get source).map App.total =
    (collect (fun line => line.1.1) Prod.snd .empty lines).get source := by
  have from_ : ∀ (u : Usage) (d : Dict Str Amount),
      (∀ source, (u.apps.get source).map App.total = d.get source) →
      ((lines.foldl (fun u line => u.add line.1.1 line.1.2 line.2) u).apps.get source).map
        App.total = (collect (fun line => line.1.1) Prod.snd d lines).get source := by
    induction lines with
    | nil => exact fun u d same => same source
    | cons line rest ih =>
      intro u d same
      refine ih (u.add line.1.1 line.1.2 line.2) (GroupTotals.add d line.1.1 line.2) fun source => ?_
      rw [add_get, ← same, ← same, Usage.add, Dict.get_modify]
      by_cases own : source = line.1.1
      · rw [if_pos own, if_pos own]
        cases u.apps.get line.1.1 <;> rfl
      · rw [if_neg own, if_neg own]
  exact from_ .empty .empty fun _ => rfl

theorem usageOf_get (k : Str × Str) : (usageOf lines).allModels.get k =
    if k ∈ lines.map Prod.fst then some (total Prod.snd (fun line => decide (line.1 = k)) lines)
    else none := by
  rw [usageOf_allModels, collect_get]
  simp

/-- The same totals: of everything, of each application, of each source and model name. -/
structure SameTotals (u v : Usage) : Prop where
  total : u.total = v.total
  apps : ∀ source, (u.apps.get source).map App.total = (v.apps.get source).map App.total
  models : ∀ k, u.allModels.get k = v.allModels.get k

/-- The totals of the models fix the others. -/
theorem sameTotals_iff : SameTotals (usageOf lines) (usageOf lines') ↔
    ∀ k, (usageOf lines).allModels.get k = (usageOf lines').allModels.get k := by
  constructor
  · exact SameTotals.models
  intro models
  have keys : ∀ k, k ∈ lines.map Prod.fst ↔ k ∈ lines'.map Prod.fst := by
    intro k
    have same := congrArg Option.isSome (models k)
    rw [usageOf_get, usageOf_get] at same
    by_cases here : k ∈ lines.map Prod.fst <;> by_cases there : k ∈ lines'.map Prod.fst <;>
      simp_all
  have values : ∀ k, total Prod.snd (fun line => decide (line.1 = k)) lines =
      total Prod.snd (fun line => decide (line.1 = k)) lines' := by
    intro k
    by_cases here : k ∈ lines.map Prod.fst
    · have same := models k
      rw [usageOf_get, usageOf_get, if_pos here, if_pos ((keys k).mp here)] at same
      exact Option.some.inj same
    · have absent : ∀ lines : List Line, k ∉ lines.map Prod.fst →
          total Prod.snd (fun line => decide (line.1 = k)) lines = 0 := fun lines none_ =>
        total_none fun line mem => decide_eq_false fun same =>
          none_ (List.mem_map.mpr ⟨line, mem, same⟩)
      rw [absent lines here, absent lines' fun there => here ((keys k).mpr there)]
  have parts : ∀ q : Str × Str → Bool, total Prod.snd (fun line => q line.1) lines =
      total Prod.snd (fun line => q line.1) lines' := by
    intro q
    have perm : (lines.map Prod.fst).dedup.Perm (lines'.map Prod.fst).dedup :=
      (List.perm_ext_iff_of_nodup (List.nodup_dedup _) (List.nodup_dedup _)).mpr fun k => by
        rw [List.mem_dedup, List.mem_dedup, keys]
    rw [← @groups_total _ _ _ _ _ Prod.fst, ← @groups_total _ _ _ _ _ Prod.fst, total_perm perm]
    exact congrArg List.sum (List.map_congr_left fun k _ => values k)
  refine ⟨?_, fun source => ?_, models⟩
  · have all : ∀ lines : List Line, (usageOf lines).total =
        total Prod.snd (fun _ => true) lines := by
      intro lines
      rw [Usage.total, usageOf_allModels, collect_values_sum, total, List.filter_true]
      exact zero_add _
    rw [all, all]
    exact parts fun _ => true
  · rw [usageOf_apps, usageOf_apps, collect_get, collect_get]
    have present : source ∈ lines.map (fun line => line.1.1) ↔
        source ∈ lines'.map fun line => line.1.1 := by
      have named : ∀ lines : List Line, source ∈ lines.map (fun line => line.1.1) ↔
          ∃ name, (source, name) ∈ lines.map Prod.fst := by
        intro lines
        simp
      rw [named, named]
      exact exists_congr fun name => keys (source, name)
    by_cases here : source ∈ lines.map fun line => line.1.1
    · rw [if_pos here, if_pos (present.mp here), parts fun k => decide (k.1 = source)]
    · rw [if_neg here, if_neg (mt present.mpr here)]

end Usages

/-! ## The two reports -/

section Reports

variable {entries : List StoredEntry} {getCost : Pricing}

def StoredEntry.key (e : StoredEntry) : Str × Str := (e.source, e.name)

/-- The lines of the loop in `parse_entries_json`. -/
def entryLines (getCost : Pricing) (entries : List StoredEntry) : List Line :=
  (entries.filter fun e => decide (e.tokens ≠ 0)).map fun e => (e.key, entryAmount getCost e)

theorem parseEntriesJson_eq :
    parseEntriesJson getCost entries = usageOf (entryLines getCost entries) := by
  have from_ : ∀ u : Usage, entries.foldl (fun u e =>
      if e.tokens = 0 then u else u.add e.source e.name (entryAmount getCost e)) u =
      (entryLines getCost entries).foldl (fun u line => u.add line.1.1 line.1.2 line.2) u := by
    induction entries with
    | nil => exact fun u => rfl
    | cons e rest ih =>
      intro u
      rw [List.foldl_cons, ih, entryLines, entryLines]
      by_cases empty : e.tokens = 0
      · rw [if_pos empty, List.filter_cons_of_neg (by simpa using empty)]
      · rw [if_neg empty, List.filter_cons_of_pos (by simpa using empty)]
        rfl
  exact from_ .empty

/-- The lines of the loop in `_merge_parsed_usage`. -/
def rowLines (rows : List ModelRow) : List Line :=
  (rows.filter fun row => decide (row.amount.tokens ≠ 0)).map fun row =>
    ((orUnknown row.source, orUnknown row.name), row.amount)

theorem mergeParsedUsage_eq (rows : List ModelRow) :
    mergeParsedUsage [rows] = usageOf (rowLines rows) := by
  have from_ : ∀ u : Usage, rows.foldl (fun u row =>
      if row.amount.tokens = 0 then u
      else u.add (orUnknown row.source) (orUnknown row.name) row.amount) u =
      (rowLines rows).foldl (fun u line => u.add line.1.1 line.1.2 line.2) u := by
    induction rows with
    | nil => exact fun u => rfl
    | cons row rest ih =>
      intro u
      rw [List.foldl_cons, ih, rowLines, rowLines]
      by_cases empty : row.amount.tokens = 0
      · rw [if_pos empty, List.filter_cons_of_neg (by simpa using empty)]
      · rw [if_neg empty, List.filter_cons_of_pos (by simpa using empty)]
        rfl
  exact from_ .empty

/-- The counters of a group. -/
def groupTotal (entries : List StoredEntry) (g : Str × Str × Str) : Amount :=
  total StoredEntry.amount (fun e => decide (e.groupKey = g)) entries

def groupRow (entries : List StoredEntry) (g : Str × Str × Str) : ModelRow :=
  ⟨orUnknown g.1, fullModelName g.2.1 (orUnknown g.2.2), groupTotal entries g⟩

theorem groupRows_eq_some {gs : List (Str × Str × Str)} {rows : List ModelRow} :
    groupRows entries gs = some rows ↔
      (∀ g ∈ gs, SumsFit (entries.filter fun e => decide (e.groupKey = g))) ∧
        rows = gs.map (groupRow entries) := by
  induction gs generalizing rows with
  | nil => simp [groupRows, eq_comm]
  | cons g rest ih =>
    simp only [groupRows, Option.bind_eq_some_iff, Option.map_eq_some_iff, groupAmount_eq_some, ih,
      List.forall_mem_cons, List.map_cons]
    constructor
    · rintro ⟨_, ⟨fit, rfl⟩, _, ⟨fits, rfl⟩, rfl⟩
      exact ⟨⟨fit, fits⟩, rfl⟩
    · rintro ⟨⟨fit, fits⟩, rfl⟩
      exact ⟨_, ⟨fit, rfl⟩, _, ⟨fits, rfl⟩, rfl⟩

/-- Token counts are counts. -/
structure StoredEntry.Counts (e : StoredEntry) : Prop where
  input : 0 ≤ e.input
  output : 0 ≤ e.output
  cacheRead : 0 ≤ e.cacheRead
  cacheWrite : 0 ≤ e.cacheWrite
  reasoning : 0 ≤ e.reasoning

theorem StoredEntry.Counts.tokens_nonneg {e : StoredEntry} (counts : e.Counts) : 0 ≤ e.tokens := by
  obtain ⟨input, output, cacheRead, cacheWrite, reasoning⟩ := counts
  simp only [StoredEntry.tokens, StoredEntry.amount, StoredEntry.amountOf]
  omega

/-- An entry without tokens counts only with its cost and its messages. -/
theorem StoredEntry.Counts.empty {e : StoredEntry} (counts : e.Counts) (none_ : e.tokens = 0) :
    e.amount = ⟨0, 0, 0, 0, e.cost, e.messageCount⟩ := by
  obtain ⟨input, output, cacheRead, cacheWrite, reasoning⟩ := counts
  simp only [StoredEntry.tokens, StoredEntry.amount, StoredEntry.amountOf] at none_ ⊢
  ext <;> simp only
  · exact none_
  · omega
  · omega
  · omega

theorem total_tokens (p : StoredEntry → Bool) (entries : List StoredEntry) :
    (total StoredEntry.amount p entries).tokens = total StoredEntry.tokens p entries := by
  induction entries with
  | nil => rfl
  | cons e rest ih =>
    rw [total_cons, total_cons, Amount.tokens_add, ih]
    cases p e <;> rfl

/-- The group of the entry has tokens. -/
def counted (entries : List StoredEntry) (e : StoredEntry) : Bool :=
  entries.any fun e' => decide (e'.groupKey = e.groupKey ∧ e'.tokens ≠ 0)

/-- Entries without tokens whose group has tokens. -/
def hidden (entries : List StoredEntry) (k : Str × Str) : List StoredEntry :=
  entries.filter fun e => decide (e.key = k ∧ e.tokens = 0) && counted entries e

theorem groupTotal_tokens (counts : ∀ e ∈ entries, e.Counts) (e : StoredEntry) :
    (groupTotal entries e.groupKey).tokens ≠ 0 ↔ counted entries e = true := by
  rw [groupTotal, total_tokens, counted, List.any_eq_true]
  constructor
  · intro some_
    by_contra none_
    refine some_ ?_
    have each : ∀ x ∈ (entries.filter fun e' => decide (e'.groupKey = e.groupKey)).map
        StoredEntry.tokens, x = 0 := by
      intro x hx
      obtain ⟨e', mem, rfl⟩ := List.mem_map.mp hx
      obtain ⟨mem, same⟩ := List.mem_filter.mp mem
      by_contra tokens
      exact none_ ⟨e', mem, decide_eq_true ⟨of_decide_eq_true same, tokens⟩⟩
    exact List.sum_eq_zero each
  · rintro ⟨e', mem, holds⟩
    obtain ⟨same, tokens⟩ := of_decide_eq_true holds
    have there : e'.tokens ∈ (entries.filter fun x => decide (x.groupKey = e.groupKey)).map
        StoredEntry.tokens :=
      List.mem_map_of_mem (List.mem_filter.mpr ⟨mem, decide_eq_true same⟩)
    have least := List.single_le_sum (fun x hx => by
      obtain ⟨y, hy, rfl⟩ := List.mem_map.mp hx
      exact (counts y (List.mem_of_mem_filter hy)).tokens_nonneg) _ there
    have positive := (counts e' mem).tokens_nonneg
    rw [total]
    omega

/-- The model row of a group is under the key of its entries. -/
theorem groupRow_key (e : StoredEntry) :
    (orUnknown (groupRow entries e.groupKey).source, orUnknown (groupRow entries e.groupKey).name) =
      e.key := by
  have model : orUnknown e.model = e.model := if_neg e.model_ne
  have name : e.name ≠ [] := by
    rw [StoredEntry.name, fullModelName]
    split
    · exact e.model_ne
    · rename_i provider
      simp [provider]
  simp only [groupRow, StoredEntry.groupKey, StoredEntry.key]
  rw [model, orUnknown, orUnknown, if_neg e.source_ne, if_neg e.source_ne]
  exact congrArg _ (if_neg name)

/-- The rows of `aggregate_entries`, group by group. -/
def modelRows (entries : List StoredEntry) : List ModelRow :=
  ((entries.map StoredEntry.groupKey).dedup.map (groupRow entries)).filter fun row =>
    decide (row.amount.tokens ≠ 0)

theorem rowLines_modelRows_total (counts : ∀ e ∈ entries, e.Counts) (k : Str × Str) :
    total Prod.snd (fun line => decide (line.1 = k)) (rowLines (modelRows entries)) =
      total StoredEntry.amount (fun e => counted entries e && decide (e.key = k)) entries := by
  rw [rowLines, modelRows, List.filter_filter, total_map_rows, total_filter, total_map_rows]
  have groups := @groups_total _ _ _ _ _ StoredEntry.groupKey StoredEntry.amount entries fun g => (decide ((groupRow entries g).amount.tokens ≠ 0) &&
      decide ((groupRow entries g).amount.tokens ≠ 0)) &&
      decide ((orUnknown (groupRow entries g).source, orUnknown (groupRow entries g).name) = k)
  refine groups.trans (total_congr fun e mem => ?_)
  rw [groupRow_key, Bool.and_self]
  refine congrArg (· && _) ?_
  rw [← Bool.decide_coe (counted entries e)]
  exact decide_eq_decide.mpr (groupTotal_tokens counts e)

theorem rowLines_modelRows_keys (counts : ∀ e ∈ entries, e.Counts) {k : Str × Str} :
    k ∈ (rowLines (modelRows entries)).map Prod.fst ↔ ∃ e ∈ entries, e.key = k ∧ e.tokens ≠ 0 := by
  simp only [rowLines, modelRows, List.filter_filter, List.map_map, List.mem_map, List.mem_filter,
    List.mem_dedup, Bool.and_self, decide_eq_true_eq, Function.comp]
  constructor
  · rintro ⟨_, ⟨⟨_, ⟨e, mem, rfl⟩, rfl⟩, tokens⟩, rfl⟩
    obtain ⟨e', there, same⟩ := List.any_eq_true.mp ((groupTotal_tokens counts e).mp tokens)
    obtain ⟨same, some_⟩ := of_decide_eq_true same
    refine ⟨e', there, ?_, some_⟩
    rw [← same]
    exact (groupRow_key e').symm
  · rintro ⟨e, mem, rfl, some_⟩
    refine ⟨_, ⟨⟨_, ⟨e, mem, rfl⟩, rfl⟩, (groupTotal_tokens counts e).mpr ?_⟩, groupRow_key e⟩
    exact List.any_eq_true.mpr ⟨e, mem, decide_eq_true ⟨rfl, some_⟩⟩

theorem entryLines_total (priced : ∀ e ∈ entries, e.tokens ≠ 0 → 0 < e.cost) (k : Str × Str) :
    total Prod.snd (fun line => decide (line.1 = k)) (entryLines getCost entries) =
      total StoredEntry.amount (fun e => decide (e.tokens ≠ 0) && decide (e.key = k)) entries := by
  rw [entryLines, total_map_rows, total_filter]
  refine congrArg List.sum (List.map_congr_left fun e mem => ?_)
  obtain ⟨mem, holds⟩ := List.mem_filter.mp mem
  have some_ := of_decide_eq_true (Bool.and_eq_true_iff.mp holds).1
  simp only [entryAmount, if_pos (priced e mem some_)]
  rfl

theorem entryLines_keys {k : Str × Str} :
    k ∈ (entryLines getCost entries).map Prod.fst ↔ ∃ e ∈ entries, e.key = k ∧ e.tokens ≠ 0 := by
  simp only [entryLines, List.map_map, List.mem_map, List.mem_filter, decide_eq_true_eq,
    Function.comp]
  constructor
  · rintro ⟨e, ⟨mem, some_⟩, own⟩
    exact ⟨e, mem, own, some_⟩
  · rintro ⟨e, mem, own, some_⟩
    exact ⟨e, ⟨mem, some_⟩, own⟩

/-- The groups of a key, with and without the entries that have no tokens. -/
theorem counted_split (k : Str × Str) :
    total StoredEntry.amount (fun e => counted entries e && decide (e.key = k)) entries =
      ((hidden entries k).map StoredEntry.amount).sum +
        total StoredEntry.amount (fun e => decide (e.tokens ≠ 0) && decide (e.key = k)) entries := by
  rw [← total_split _ (fun e => decide (e.tokens = 0))]
  refine congrArg₂ _ ?_ ?_
  · refine (total_congr fun e _ => ?_).trans rfl
    by_cases own : e.key = k <;> by_cases empty : e.tokens = 0 <;> simp [own, empty]
  · refine total_congr fun e mem => ?_
    by_cases empty : e.tokens = 0
    · simp [empty]
    · have here : counted entries e = true :=
        List.any_eq_true.mpr ⟨e, mem, decide_eq_true ⟨rfl, empty⟩⟩
      simp [empty, here]

theorem hidden_sum (counts : ∀ e ∈ entries, e.Counts) (k : Str × Str) :
    ((hidden entries k).map StoredEntry.amount).sum =
      ⟨0, 0, 0, 0, ((hidden entries k).map (·.cost)).sum,
        ((hidden entries k).map (·.messageCount)).sum⟩ := by
  have each : ∀ e ∈ hidden entries k, e.Counts ∧ e.tokens = 0 := by
    intro e he
    obtain ⟨mem, holds⟩ := List.mem_filter.mp he
    exact ⟨counts e mem, (of_decide_eq_true (Bool.and_eq_true_iff.mp holds).1).2⟩
  generalize hidden entries k = rows at each
  induction rows with
  | nil => rfl
  | cons e rest ih =>
    obtain ⟨here, later⟩ := List.forall_mem_cons.mp each
    rw [List.map_cons, List.sum_cons, ih later, here.1.empty here.2]
    ext <;> simp

/-- No entry without tokens adds a cost or messages to its group. -/
def NothingHidden (entries : List StoredEntry) : Prop :=
  ∀ k, ((hidden entries k).map (·.cost)).sum = 0 ∧
    ((hidden entries k).map (·.messageCount)).sum = 0

theorem sameTotals_iff_hidden (counts : ∀ e ∈ entries, e.Counts)
    (priced : ∀ e ∈ entries, e.tokens ≠ 0 → 0 < e.cost) {rows : List ModelRow}
    {queried : List StoredEntry} (sortedRows : rows.Perm (modelRows entries))
    (sorted : queried.Perm entries) :
    SameTotals (mergeParsedUsage [rows]) (parseEntriesJson getCost queried) ↔
      NothingHidden entries := by
  rw [mergeParsedUsage_eq, parseEntriesJson_eq, sameTotals_iff]
  have lines : (rowLines rows).Perm (rowLines (modelRows entries)) := (sortedRows.filter _).map _
  have lines' : (entryLines getCost queried).Perm (entryLines getCost entries) :=
    (sorted.filter _).map _
  have merged : ∀ k, (usageOf (rowLines rows)).allModels.get k =
      if ∃ e ∈ entries, e.key = k ∧ e.tokens ≠ 0 then
        some (((hidden entries k).map StoredEntry.amount).sum +
          total StoredEntry.amount (fun e => decide (e.tokens ≠ 0) && decide (e.key = k)) entries)
      else none := by
    intro k
    rw [usageOf_get, total_perm lines, rowLines_modelRows_total counts, counted_split]
    exact if_congr (((lines.map _).mem_iff).trans (rowLines_modelRows_keys counts)) rfl rfl
  have parsed : ∀ k, (usageOf (entryLines getCost queried)).allModels.get k =
      if ∃ e ∈ entries, e.key = k ∧ e.tokens ≠ 0 then
        some (total StoredEntry.amount (fun e => decide (e.tokens ≠ 0) && decide (e.key = k)) entries)
      else none := by
    intro k
    rw [usageOf_get, total_perm lines', entryLines_total priced]
    exact if_congr (((lines'.map _).mem_iff).trans entryLines_keys) rfl rfl
  refine forall_congr' fun k => ?_
  rw [merged, parsed, hidden_sum counts]
  by_cases present : ∃ e ∈ entries, e.key = k ∧ e.tokens ≠ 0
  · rw [if_pos present, if_pos present, Option.some.injEq]
    constructor
    · intro same
      have cost := congrArg Amount.cost same
      have messages := congrArg Amount.messages same
      simp only [Amount.cost_add, Amount.messages_add] at cost messages
      exact ⟨add_eq_right.mp cost, add_eq_right.mp messages⟩
    · rintro ⟨cost, messages⟩
      rw [cost, messages]
      exact zero_add _
  · rw [if_neg present, if_neg present]
    have nothing : hidden entries k = [] := by
      refine List.filter_eq_nil_iff.mpr fun e mem holds => present ?_
      obtain ⟨own, there⟩ := Bool.and_eq_true_iff.mp holds
      obtain ⟨e', mem', same⟩ := List.any_eq_true.mp there
      obtain ⟨group, some_⟩ := of_decide_eq_true same
      refine ⟨e', mem', ?_, some_⟩
      rw [← (of_decide_eq_true own).1, ← @groupRow_key entries e', group, groupRow_key]
    rw [nothing]
    exact ⟨fun _ => ⟨rfl, rfl⟩, fun _ => rfl⟩

end Reports

/-- The SQL report exists and has the totals of the Python report exactly if every sum of a group
has 64 bits and no entry without tokens adds to a group that has tokens. -/
theorem sql_totals_iff (getCost : Pricing) (store : List StoredEntry) (r : Range)
    (counts : ∀ e ∈ store, e.Counts) (priced : ∀ e ∈ store, e.tokens ≠ 0 → 0 < e.cost) :
    (∃ report, aggregateEntries store r = some report ∧
      SameTotals (mergeParsedUsage [report.allModels])
        (parseEntriesJson getCost (queryEntries store r))) ↔
      (∀ g ∈ (store.filter r.holds).map StoredEntry.groupKey,
        SumsFit ((store.filter r.holds).filter fun e => decide (e.groupKey = g))) ∧
      NothingHidden (store.filter r.holds) := by
  have countsIn : ∀ e ∈ store.filter r.holds, e.Counts := fun e mem =>
    counts e (List.mem_of_mem_filter mem)
  have pricedIn : ∀ e ∈ store.filter r.holds, e.tokens ≠ 0 → 0 < e.cost := fun e mem =>
    priced e (List.mem_of_mem_filter mem)
  have sorted : (queryEntries store r).Perm (store.filter r.holds) := List.perm_insertionSort _ _
  simp only [aggregateEntries, Option.map_eq_some_iff, groupRows_eq_some, List.mem_dedup]
  constructor
  · rintro ⟨report, ⟨rows, ⟨fit, rfl⟩, rfl⟩, same⟩
    exact ⟨fit, (sameTotals_iff_hidden countsIn pricedIn (List.perm_insertionSort _ _) sorted).mp
      same⟩
  · rintro ⟨fit, nothing⟩
    exact ⟨_, ⟨_, ⟨fit, rfl⟩, rfl⟩,
      (sameTotals_iff_hidden countsIn pricedIn (List.perm_insertionSort _ _) sorted).mpr nothing⟩

/-- A session of Hermes with these output tokens and this cost. -/
def hermes (output : ℤ) (cost : ℚ) : StoredEntry where
  source := text "hermes"
  model := text "m"
  provider := []
  timestamp := 1
  input := 0
  output := output
  cacheRead := 0
  cacheWrite := 0
  reasoning := 0
  cost := cost
  messageCount := 1
  source_ne := by decide
  model_ne := by decide
  messageCount_ne := by decide

theorem summable_of_forall {xs : List ℤ} (each : ∀ before ∈ xs.inits, Fits before.sum) :
    Summable xs := fun before pre => each before ((List.mem_inits before xs).mpr pre)

theorem sql_totals_iff_two_sessions : ∃ report,
    aggregateEntries [hermes 5 1, hermes 7 2] ⟨[], none, none⟩ = some report ∧
      SameTotals (mergeParsedUsage [report.allModels])
        (parseEntriesJson (fun _ _ _ _ _ => 0)
          (queryEntries [hermes 5 1, hermes 7 2] ⟨[], none, none⟩)) := by
  have two : ∀ e ∈ [hermes 5 1, hermes 7 2], e = hermes 5 1 ∨ e = hermes 7 2 := by simp
  refine (sql_totals_iff (fun _ _ _ _ _ => 0) [hermes 5 1, hermes 7 2] ⟨[], none, none⟩
    (fun e mem => ?_) fun e mem _ => ?_).mpr ⟨fun g mem => ?_, fun k => ?_⟩
  · obtain rfl | rfl := two e mem <;> constructor <;> decide
  · obtain rfl | rfl := two e mem <;> decide +kernel
  · have own : g = (text "hermes", [], text "m") := by
      obtain ⟨e, there, rfl⟩ := List.mem_map.mp mem
      obtain rfl | rfl := two e (List.mem_of_mem_filter there) <;> rfl
    subst own
    constructor <;> exact summable_of_forall (by decide +kernel)
  · have nothing : hidden ([hermes 5 1, hermes 7 2].filter
        (Range.holds ⟨[], none, none⟩)) k = [] := by
      refine List.filter_eq_nil_iff.mpr fun e mem holds => ?_
      have empty := (of_decide_eq_true (Bool.and_eq_true_iff.mp holds).1).2
      obtain rfl | rfl := two e (List.mem_of_mem_filter mem) <;> revert empty <;> decide
    rw [nothing]
    exact ⟨rfl, rfl⟩

/-- A session with a recorded cost and no tokens, beside one with tokens. -/
theorem cost_only_session_differs :
    ((aggregateEntries [hermes 5 1, hermes 0 2] ⟨[], none, none⟩).map fun report =>
        (mergeParsedUsage [report.allModels]).total) = some ⟨5, 0, 5, 0, 3, 2⟩ ∧
      (parseEntriesJson (fun _ _ _ _ _ => 0)
        (queryEntries [hermes 5 1, hermes 0 2] ⟨[], none, none⟩)).total = ⟨5, 0, 5, 0, 1, 1⟩ := by
  decide +kernel

end Aggregation
