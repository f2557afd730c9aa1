import LivingBalancer.Lib.Runs
import LivingBalancer.Tokdash.CopilotRecords

/-!
# Replacing the rows of one source

`UsageEntryStore.sync_source` on the rows of one source, which `idx_usage_entries_source_key`
keeps unique by entry key, and when it can store what `CopilotCLIParser` reports. A statement
that raises leaves the store as it was: nothing has been committed.
-/

namespace Copilot

open PyJson JsonlUsage UsageStore

variable {F Cost : Type}

/-- A row of `usage_entries`; the message count is 1 and the raw text encodes the entry. -/
structure Row (Cost : Type) where
  entryKey : Str
  entry : Entry Cost
  deriving DecidableEq

/-- What the store holds of one source. -/
structure Source (Sig Cost : Type) where
  signature : Option Sig
  rows : List (Row Cost)
  deriving DecidableEq

/-- What a parameter of an `INSERT` raises, and the unique index. -/
inductive InsertError where
  | overflow
  | encoding
  | constraint
  deriving DecidableEq

inductive Synced (Sig Cost : Type) where
  | parserRaised
  | raised (error : InsertError)
  | done (wrote : Bool) (source : Source Sig Cost)
  deriving DecidableEq

namespace Entry

/-- `_entry_key`. -/
def key (rules : Builtins F Cost) (entry : Entry Cost) : Str :=
  if entry.entryId = [] then
    text "hash:" ++ rules.digest ⟨entry.source, entry.model, entry.provider, entry.timestamp,
      entry.input, entry.output, entry.cacheRead, entry.cacheWrite, entry.reasoning,
      rules.round10 entry.cost⟩
  else entry.entryId

/-- `_entry_for_storage`. -/
def forStorage (rules : Builtins F Cost) (entry : Entry Cost) : Option (Row Cost) :=
  if entry.timestamp ≤ 0 then none else some ⟨entry.key rules, entry⟩

def ints (entry : Entry Cost) : List ℤ :=
  [entry.timestamp, entry.input, entry.output, entry.cacheRead, entry.cacheWrite, entry.reasoning]

end Entry

def Row.texts (row : Row Cost) : List Str :=
  [row.entry.source, row.entryKey, row.entry.model, row.entry.provider]

/-- `INSERT INTO usage_entries` of one row. -/
def insert (rows : List (Row Cost)) (row : Row Cost) : Except InsertError (List (Row Cost)) :=
  if ¬ ∀ t ∈ row.texts, Encodes t then .error .encoding
  else if ¬ ∀ n ∈ row.entry.ints, Fits n then .error .overflow
  else if row.entryKey ≠ [] ∧ row.entryKey ∈ rows.map Row.entryKey then .error .constraint
  else .ok (rows ++ [row])

def insertMany : List (Row Cost) → List (Row Cost) → Except InsertError (List (Row Cost))
  | rows, [] => .ok rows
  | rows, row :: rest =>
    match insert rows row with
    | .error e => .error e
    | .ok more => insertMany more rest

/-- The rows that `executemany` is given. -/
def rowsOf (rules : Builtins F Cost) (out : List (Entry Cost)) : List (Row Cost) :=
  out.filterMap (Entry.forStorage rules)

/-- `sync_source`, with `parsed` for what `parse_entries` gives. -/
def syncSource {Sig : Type} [DecidableEq Sig] (rules : Builtins F Cost) (durable : Bool)
    (signature : Sig) (parsed : Option (List (Entry Cost))) (s : Source Sig Cost) :
    Synced Sig Cost :=
  if s.signature = some signature then .done false s
  else
    match parsed with
    | none => .parserRaised
    | some out =>
      let entries := rowsOf rules out
      if durable && entries.isEmpty && !s.rows.isEmpty then .done false s
      else
        match insertMany [] entries with
        | .error e => .raised e
        | .ok rows => .done true ⟨some signature, rows⟩

/-! ## The rows that are inserted -/

section Insert

variable {rows more : List (Row Cost)} {row : Row Cost}

/-- What the parameters of an `INSERT` allow. -/
structure Binds (row : Row Cost) : Prop where
  encodes : ∀ t ∈ row.texts, Encodes t
  fits : ∀ n ∈ row.entry.ints, Fits n

instance : DecidablePred fun row : Row Cost => Binds row := fun row =>
  decidable_of_iff ((∀ t ∈ row.texts, Encodes t) ∧ ∀ n ∈ row.entry.ints, Fits n)
    ⟨fun h => ⟨h.1, h.2⟩, fun h => ⟨h.encodes, h.fits⟩⟩

theorem insert_eq_ok : insert rows row = .ok more ↔
    Binds row ∧ (row.entryKey = [] ∨ row.entryKey ∉ rows.map Row.entryKey) ∧
      more = rows ++ [row] := by
  unfold insert
  by_cases encodes : ∀ t ∈ row.texts, Encodes t
  · rw [if_neg (not_not.mpr encodes)]
    by_cases fits : ∀ n ∈ row.entry.ints, Fits n
    · rw [if_neg (not_not.mpr fits)]
      by_cases taken : row.entryKey ≠ [] ∧ row.entryKey ∈ rows.map Row.entryKey
      · rw [if_pos taken]
        constructor
        · intro h
          cases h
        · rintro ⟨_, empty | fresh, _⟩
          · exact absurd empty taken.1
          · exact absurd taken.2 fresh
      · rw [if_neg taken, Except.ok.injEq]
        constructor
        · rintro rfl
          exact ⟨⟨encodes, fits⟩, or_iff_not_imp_left.mpr fun h => (not_and.mp taken) h, rfl⟩
        · exact fun h => h.2.2.symm
    · rw [if_pos fits]
      constructor
      · intro h
        cases h
      · exact fun h => absurd h.1.fits fits
  · rw [if_pos encodes]
    constructor
    · intro h
      cases h
    · exact fun h => absurd h.1.encodes encodes

/-- A batch goes in whole, or one of its rows cannot: its parameters, or a key that is taken. -/
theorem insertMany_eq_ok {batch : List (Row Cost)} (keyed : ∀ row ∈ batch, row.entryKey ≠ []) :
    insertMany rows batch = .ok more ↔
      (∀ row ∈ batch, Binds row ∧ row.entryKey ∉ rows.map Row.entryKey) ∧
        (batch.map Row.entryKey).Nodup ∧ more = rows ++ batch := by
  induction batch generalizing rows with
  | nil => simp [insertMany, eq_comm]
  | cons row rest ih =>
    have key : row.entryKey ≠ [] := keyed row List.mem_cons_self
    have keyedRest : ∀ row ∈ rest, row.entryKey ≠ [] := fun r hr =>
      keyed r (List.mem_cons_of_mem row hr)
    rw [insertMany]
    cases first : insert rows row with
    | error e =>
      constructor
      · intro h
        cases h
      · rintro ⟨each, _, _⟩
        have own := each row List.mem_cons_self
        have stored := insert_eq_ok.mpr ⟨own.1, .inr own.2, rfl⟩
        rw [first] at stored
        cases stored
    | ok between =>
      obtain ⟨binds, fresh, rfl⟩ := insert_eq_ok.mp first
      have unused : row.entryKey ∉ rows.map Row.entryKey := fresh.resolve_left key
      simp only [ih keyedRest, List.map_append, List.map_cons, List.map_nil, List.mem_append,
        List.mem_singleton, List.forall_mem_cons, List.nodup_cons, List.append_assoc,
        List.singleton_append]
      constructor
      · rintro ⟨each, distinct, rfl⟩
        refine ⟨⟨⟨binds, unused⟩, fun r hr => ⟨(each r hr).1, ?_⟩⟩, ⟨?_, distinct⟩, rfl⟩
        · exact fun old => (each r hr).2 (.inl old)
        · intro again
          obtain ⟨r, hr, same⟩ := List.mem_map.mp again
          exact (each r hr).2 (.inr same)
      · rintro ⟨⟨_, each⟩, ⟨apart, distinct⟩, rfl⟩
        refine ⟨fun r hr => ⟨(each r hr).1, ?_⟩, distinct, rfl⟩
        rintro (old | same)
        · exact (each r hr).2 old
        · exact apart (List.mem_map.mpr ⟨r, hr, same⟩)

end Insert

/-! ## What the parser keeps apart -/

/-- No id in common. -/
def Origin.Apart : Origin F → Origin F → Prop
  | .otel _ trace response, .otel _ trace' response' =>
    (trace' ≠ [] → trace ≠ trace') ∧ (response' ≠ [] → response ≠ response')
  | _, _ => True

/-- Two records in the order of the passes: only chat spans may share an id. -/
def Origin.Separate (a b : Origin F) : Prop :=
  (∃ t r t' r', a = .otel .chatSpan t r ∧ b = .otel .chatSpan t' r') ∨ a.Apart b

/-- The entry id of a span or log is its response id, or else its trace id. -/
def Reported.Identified (r : Reported F Cost) : Prop :=
  ∀ b trace response, r.origin = .otel b trace response →
    r.entry.entryId = if response = [] then trace else response

/-- The ids of what was reported are seen. -/
def Seen.Tracks (seen : Seen) (out : List (Reported F Cost)) : Prop :=
  ∀ r ∈ out, ∃ b trace response, r.origin = .otel b trace response ∧
    (trace ≠ [] → trace ∈ seen.traces) ∧ (response ≠ [] → response ∈ seen.responses)

section Passes

variable {rules : Builtins F Cost} {b : Bucket} {seen after : Seen}
  {out prior : List (Reported F Cost)}

theorem Seen.Tracks.mono (tracks : seen.Tracks prior)
    (traces : ∀ t ∈ seen.traces, t ∈ after.traces)
    (responses : ∀ r ∈ seen.responses, r ∈ after.responses) : after.Tracks prior := by
  intro r hr
  obtain ⟨b, trace, response, origin, traced, responded⟩ := tracks r hr
  exact ⟨b, trace, response, origin, fun h => traces _ (traced h),
    fun h => responses _ (responded h)⟩

theorem Seen.mem_add_traces {trace response t : Str} :
    t ∈ (seen.add trace response).traces ↔ t ∈ seen.traces ∨ t = trace ∧ trace ≠ [] := by
  by_cases none_ : trace = []
  · simp [Seen.add, none_]
  · simp [Seen.add, none_, or_comm]

theorem Seen.mem_add_responses {trace response t : Str} :
    t ∈ (seen.add trace response).responses ↔
      t ∈ seen.responses ∨ t = response ∧ response ≠ [] := by
  by_cases none_ : response = []
  · simp [Seen.add, none_]
  · simp [Seen.add, none_, or_comm]

theorem Seen.Tracks.add (tracks : seen.Tracks prior) {r : Reported F Cost} {trace response : Str}
    (origin : r.origin = .otel b trace response) :
    (seen.add trace response).Tracks (prior ++ [r]) := by
  intro x hx
  rcases List.mem_append.mp hx with old | new
  · exact (tracks.mono (fun t ht => Seen.mem_add_traces.mpr (.inl ht))
      fun t ht => Seen.mem_add_responses.mpr (.inl ht)) x old
  · rw [List.mem_singleton.mp new]
    exact ⟨b, trace, response, origin, fun h => Seen.mem_add_traces.mpr (.inr ⟨rfl, h⟩),
      fun h => Seen.mem_add_responses.mpr (.inr ⟨rfl, h⟩)⟩

theorem Seen.Tracks.apart (tracks : seen.Tracks prior) {trace response : Str}
    (uncovered : seen.covers trace response = false) :
    ∀ r ∈ prior, r.origin.Apart (.otel b trace response) := by
  intro r hr
  obtain ⟨b', trace', response', origin, traced, responded⟩ := tracks r hr
  simp only [Seen.covers, Bool.or_eq_false_iff, Bool.and_eq_false_iff, bne_eq_false_iff_eq,
    List.contains_eq_mem, decide_eq_false_iff_not] at uncovered
  rw [origin]
  constructor
  · rintro named rfl
    exact (uncovered.1.resolve_left named) (traced named)
  · rintro named rfl
    exact (uncovered.2.resolve_left named) (responded named)

/-- What one look at a record can do. -/
theorem look_cases {record : OtelRecord F} {result : Option (Reported F Cost)}
    (looked : rules.look b seen record = some (after, result)) :
    (result = none ∧ after = seen) ∨
    ∃ r trace response, result = some r ∧ r.origin = .otel b trace response ∧ r.Identified ∧
      after = seen.add trace response ∧ (b ≠ .chatSpan → seen.covers trace response = false) := by
  unfold Builtins.look at looked
  simp only at looked
  split at looked
  · cases looked
    exact .inl ⟨rfl, rfl⟩
  · rename_i open_
    obtain ⟨emitted, made, looked⟩ := Option.map_eq_some_iff.mp looked
    cases emitted with
    | none =>
      cases looked
      exact .inl ⟨rfl, rfl⟩
    | some entry =>
      cases looked
      refine .inr ⟨_, _, _, rfl, rfl, ?_, rfl, fun other => ?_⟩
      · rintro _ _ _ ⟨⟩
        simp only [Builtins.emit, Option.bind_eq_bind, Option.bind_eq_some_iff] at made
        obtain ⟨tokens, _, made⟩ := made
        split at made
        · cases made
        · obtain ⟨cost, _, made⟩ := Option.bind_eq_some_iff.mp made
          cases made
          rfl
      · exact Bool.eq_false_iff.mpr fun covered => open_ ⟨other, covered⟩

theorem pass_cons {record : OtelRecord F} {rest : List (OtelRecord F)}
    (passed : rules.pass b seen (record :: rest) = some (after, out)) :
    ∃ between result more, rules.look b seen record = some (between, result) ∧
      rules.pass b between rest = some (after, more) ∧ out = result.toList ++ more := by
  simp only [Builtins.pass, Option.bind_eq_some_iff, Option.map_eq_some_iff, Prod.mk.injEq] at passed
  obtain ⟨⟨between, result⟩, looked, ⟨_, more⟩, passedRest, rfl, rfl⟩ := passed
  exact ⟨between, result, more, looked, passedRest, rfl⟩

theorem passes_cons {records : List (OtelRecord F)} {rest : List Bucket}
    (passed : rules.passes records seen (b :: rest) = some (after, out)) :
    ∃ between first more,
      rules.pass b seen (records.filter fun r => rules.bucket r.items == some b) =
        some (between, first) ∧
      rules.passes records between rest = some (after, more) ∧ out = first ++ more := by
  simp only [Builtins.passes, Option.bind_eq_some_iff, Option.map_eq_some_iff,
    Prod.mk.injEq] at passed
  obtain ⟨⟨between, first⟩, passedFirst, ⟨_, more⟩, passedRest, rfl, rfl⟩ := passed
  exact ⟨between, first, more, passedFirst, passedRest, rfl⟩

/-- A pass after the first reports nothing that shares an id with what was reported. -/
theorem pass_apart (later : b ≠ .chatSpan) {records : List (OtelRecord F)}
    (passed : rules.pass b seen records = some (after, out)) (tracks : seen.Tracks prior)
    (apart : prior.Pairwise fun x y => x.origin.Separate y.origin) :
    after.Tracks (prior ++ out) ∧
      (prior ++ out).Pairwise fun x y => x.origin.Separate y.origin := by
  induction records generalizing seen prior out with
  | nil =>
    cases passed
    rw [List.append_nil]
    exact ⟨tracks, apart⟩
  | cons record rest ih =>
    obtain ⟨between, result, more, looked, passedRest, rfl⟩ := pass_cons passed
    rcases look_cases looked with ⟨rfl, rfl⟩ | ⟨r, trace, response, rfl, origin, _, rfl, open_⟩
    · exact ih passedRest tracks apart
    · have grown : (prior ++ [r]).Pairwise fun x y => x.origin.Separate y.origin := by
        refine List.pairwise_append.mpr ⟨apart, List.pairwise_singleton _ _, ?_⟩
        intro x hx y hy
        rw [List.mem_singleton.mp hy, origin]
        exact .inr (tracks.apart (open_ later) x hx)
      have whole := ih passedRest (tracks.add origin) grown
      rw [List.append_assoc] at whole
      exact whole

/-- The first pass reports chat spans. -/
theorem pass_spans {records : List (OtelRecord F)}
    (passed : rules.pass .chatSpan seen records = some (after, out)) (tracks : seen.Tracks prior) :
    after.Tracks (prior ++ out) ∧ ∀ r ∈ out, ∃ trace response,
      r.origin = .otel .chatSpan trace response := by
  induction records generalizing seen prior out with
  | nil =>
    cases passed
    rw [List.append_nil]
    exact ⟨tracks, fun r hr => absurd hr List.not_mem_nil⟩
  | cons record rest ih =>
    obtain ⟨between, result, more, looked, passedRest, rfl⟩ := pass_cons passed
    rcases look_cases looked with ⟨rfl, rfl⟩ | ⟨r, trace, response, rfl, origin, _, rfl, _⟩
    · exact ih passedRest tracks
    · obtain ⟨tracked, spans⟩ := ih passedRest (tracks.add origin)
      rw [List.append_assoc] at tracked
      refine ⟨tracked, fun x hx => ?_⟩
      rcases List.mem_cons.mp hx with rfl | hx
      · exact ⟨trace, response, origin⟩
      · exact spans x hx

theorem passes_apart {records : List (OtelRecord F)} {buckets : List Bucket}
    (later : ∀ b ∈ buckets, b ≠ .chatSpan)
    (passed : rules.passes records seen buckets = some (after, out)) (tracks : seen.Tracks prior)
    (apart : prior.Pairwise fun x y => x.origin.Separate y.origin) :
    (prior ++ out).Pairwise fun x y => x.origin.Separate y.origin := by
  induction buckets generalizing seen prior out with
  | nil =>
    cases passed
    rw [List.append_nil]
    exact apart
  | cons b rest ih =>
    obtain ⟨between, first, more, passedFirst, passedRest, rfl⟩ := passes_cons passed
    obtain ⟨tracked, grown⟩ := pass_apart (later b List.mem_cons_self) passedFirst tracks apart
    have whole := ih (fun b hb => later b (List.mem_cons_of_mem _ hb)) passedRest tracked grown
    rw [List.append_assoc] at whole
    exact whole

theorem parseOtelFiles_apart {records : List (OtelRecord F)}
    (parsed : rules.parseOtelFiles records = some out) :
    out.Pairwise fun x y => x.origin.Separate y.origin := by
  obtain ⟨⟨_, _⟩, passed, rfl⟩ := Option.map_eq_some_iff.mp parsed
  obtain ⟨between, spans, more, passedSpans, passedRest, rfl⟩ := passes_cons passed
  have nothing : (⟨[], []⟩ : Seen).Tracks ([] : List (Reported F Cost)) :=
    fun r hr => absurd hr List.not_mem_nil
  obtain ⟨tracked, chat⟩ := pass_spans passedSpans nothing
  refine passes_apart (by decide) passedRest tracked (List.pairwise_of_forall_mem_list ?_)
  intro x hx y hy
  obtain ⟨t, r, hx⟩ := chat x hx
  obtain ⟨t', r', hy⟩ := chat y hy
  exact .inl ⟨t, r, t', r', hx, hy⟩

end Passes


/-! ## When two entries have one key -/

/-- Two reported entries, in this order, that cannot both be stored. Spans and logs with ids: two
chat spans with one entry id, or a response id that is the trace id of a record without a
response id. Otherwise, and where an event is one of the two: the same key. -/
def Clash (rules : Builtins F Cost) (a b : Reported F Cost) : Prop :=
  match a.origin, b.origin with
  | .otel bucket trace response, .otel bucket' trace' response' =>
    if a.entry.entryId = [] ∨ b.entry.entryId = [] then a.entry.key rules = b.entry.key rules
    else (bucket = .chatSpan ∧ bucket' = .chatSpan ∧ a.entry.entryId = b.entry.entryId) ∨
      (response = [] ∧ trace = response') ∨ (response' = [] ∧ trace' = response)
  | _, _ => a.entry.key rules = b.entry.key rules

section Clashes

variable {rules : Builtins F Cost} {a b : Reported F Cost}

theorem Entry.key_of_id {entry : Entry Cost} (id : entry.entryId ≠ []) :
    entry.key rules = entry.entryId := if_neg id

theorem clash_iff_key (ida : a.Identified) (idb : b.Identified)
    (separate : a.origin.Separate b.origin) :
    Clash rules a b ↔ a.entry.key rules = b.entry.key rules := by
  unfold Clash
  cases origina : a.origin with
  | event dedupKey => rfl
  | otel bucket trace response =>
    cases originb : b.origin with
    | event dedupKey => rfl
    | otel bucket' trace' response' =>
      simp only
      split
      · rfl
      · rename_i named
        obtain ⟨nameda, namedb⟩ := not_or.mp named
        rw [Entry.key_of_id nameda, Entry.key_of_id namedb]
        rw [ida _ _ _ origina] at nameda ⊢
        rw [idb _ _ _ originb] at namedb ⊢
        rw [origina, originb] at separate
        constructor
        · rintro (⟨_, _, same⟩ | ⟨none_, crossed⟩ | ⟨none_, crossed⟩)
          · exact same
          · rw [if_pos none_] at nameda ⊢
            rw [if_neg (crossed ▸ nameda)]
            exact crossed
          · rw [if_pos none_] at namedb ⊢
            rw [if_neg (crossed ▸ namedb)]
            exact crossed.symm
        · intro same
          rcases separate with ⟨_, _, _, _, spana, spanb⟩ | ⟨traces, responses⟩
          · cases spana
            cases spanb
            exact .inl ⟨rfl, rfl, same⟩
          · by_cases nonea : response = []
            · by_cases noneb : response' = []
              · rw [if_pos noneb] at namedb
                rw [if_pos nonea, if_pos noneb] at same
                exact absurd same (traces namedb)
              · rw [if_pos nonea, if_neg noneb] at same
                exact .inr (.inl ⟨nonea, same⟩)
            · by_cases noneb : response' = []
              · rw [if_neg nonea, if_pos noneb] at same
                exact .inr (.inr ⟨noneb, same.symm⟩)
              · rw [if_neg nonea, if_neg noneb] at same
                exact absurd same (responses noneb)

end Clashes

section Reports

variable {rules : Builtins F Cost} {b : Bucket} {seen after : Seen} {out : List (Reported F Cost)}

theorem pass_mem {records : List (OtelRecord F)}
    (passed : rules.pass b seen records = some (after, out)) {r : Reported F Cost} (hr : r ∈ out) :
    r.Identified := by
  induction records generalizing seen out with
  | nil =>
    cases passed
    exact absurd hr List.not_mem_nil
  | cons record rest ih =>
    obtain ⟨between, result, more, looked, passedRest, rfl⟩ := pass_cons passed
    rcases List.mem_append.mp hr with here | hr
    · rcases look_cases looked with ⟨rfl, _⟩ | ⟨r', _, _, rfl, _, identified, _⟩
      · exact absurd here List.not_mem_nil
      · rw [List.mem_singleton.mp here]
        exact identified
    · exact ih passedRest hr

theorem passes_mem {records : List (OtelRecord F)} {buckets : List Bucket}
    (passed : rules.passes records seen buckets = some (after, out)) {r : Reported F Cost}
    (hr : r ∈ out) : r.Identified := by
  induction buckets generalizing seen out with
  | nil =>
    cases passed
    exact absurd hr List.not_mem_nil
  | cons b rest ih =>
    obtain ⟨between, first, more, passedFirst, passedRest, rfl⟩ := passes_cons passed
    rcases List.mem_append.mp hr with here | hr
    · exact pass_mem passedFirst here
    · exact ih passedRest hr

variable [DecidableEq F] {otelSeen : List Str} {mtimeMs : ℤ}

/-- What an event reports says so. -/
def Reported.OfEvent (r : Reported F Cost) : Prop := ∃ dedupKey, r.origin = .event dedupKey

theorem event_reported {seen : List (SetKey F)} {object : Record F} {r : Reported F Cost}
    (hr : (rules.event otelSeen mtimeMs seen object).reported = some r) : r.OfEvent := by
  have counted : ∀ data dedupKey,
      (rules.countEvent mtimeMs seen object data dedupKey).reported = some r → r.OfEvent := by
    intro data dedupKey hr
    simp only [Builtins.countEvent] at hr
    split at hr
    · cases hr
    · split at hr
      · cases hr
      · split at hr
        · cases hr
        · cases hr
          exact ⟨dedupKey, rfl⟩
  simp only [Builtins.event] at hr
  split at hr
  · split at hr
    · cases hr
    · cases hr
    · split at hr
      · cases hr
      · cases hr
      · exact counted _ _ hr
  · cases hr

theorem eventFile_reported {seen : List (SetKey F)} {objects : List (Record F)}
    {r : Reported F Cost} (hr : r ∈ (rules.eventFile otelSeen mtimeMs seen objects).2) :
    r.OfEvent := by
  induction objects generalizing seen with
  | nil => exact absurd hr List.not_mem_nil
  | cons object rest ih =>
    simp only [Builtins.eventFile] at hr
    split at hr
    · exact event_reported (Option.mem_toList.mp hr)
    · rcases List.mem_append.mp hr with here | hr
      · exact event_reported (Option.mem_toList.mp here)
      · exact ih hr

theorem eventFiles_reported {seen : List (SetKey F)} {files : List (EventFile F)}
    {r : Reported F Cost} (hr : r ∈ rules.eventFiles otelSeen seen files) : r.OfEvent := by
  induction files generalizing seen with
  | nil => exact absurd hr List.not_mem_nil
  | cons file rest ih =>
    rcases List.mem_append.mp hr with here | hr
    · exact eventFile_reported here
    · exact ih hr

omit [DecidableEq F] in
theorem Origin.separate_event {a : Origin F} (dedupKey : JsonValue F) :
    a.Separate (.event dedupKey) := by
  right
  cases a <;> trivial

omit [DecidableEq F] in
theorem Reported.OfEvent.identified {r : Reported F Cost} (event : r.OfEvent) : r.Identified := by
  obtain ⟨dedupKey, origin⟩ := event
  intro b trace response other
  rw [origin] at other
  cases other

/-- In what the parser reports, a clash is a common key. -/
theorem reported_clash {logs : Logs F} (parsed : rules.reported logs = some out) :
    out.Pairwise fun a b => Clash rules a b ↔ a.entry.key rules = b.entry.key rules := by
  obtain ⟨spans, parsedSpans, rfl⟩ := Option.map_eq_some_iff.mp parsed
  have identified : ∀ r ∈ spans ++ rules.eventFiles (rules.otelSeenKeys logs.otel) [] logs.events,
      r.Identified := by
    intro r hr
    rcases List.mem_append.mp hr with hr | hr
    · obtain ⟨⟨_, _⟩, passed, rfl⟩ := Option.map_eq_some_iff.mp parsedSpans
      exact passes_mem passed hr
    · exact (eventFiles_reported hr).identified
  have separate : (spans ++ rules.eventFiles (rules.otelSeenKeys logs.otel) [] logs.events).Pairwise
      fun a b => a.origin.Separate b.origin := by
    have before : ∀ a : Reported F Cost, ∀ b ∈ rules.eventFiles (rules.otelSeenKeys logs.otel) []
        logs.events, a.origin.Separate b.origin := by
      intro a b hb
      obtain ⟨dedupKey, origin⟩ := eventFiles_reported hb
      rw [origin]
      exact Origin.separate_event dedupKey
    exact List.pairwise_append.mpr ⟨parseOtelFiles_apart parsedSpans,
      List.pairwise_of_forall_mem_list fun a _ b hb => before a b hb, fun a _ b hb => before a b hb⟩
  exact separate.imp_of_mem fun ha hb apart =>
    clash_iff_key (identified _ ha) (identified _ hb) apart

end Reports

/-! ## Syncs in a row -/

/-- The entries with a positive timestamp. -/
def dated (out : List (Entry Cost)) : List (Entry Cost) := out.filter fun e => decide (0 < e.timestamp)

/-- Everything reported with a positive timestamp can be stored beside the rest. -/
structure Storable (rules : Builtins F Cost) (out : List (Reported F Cost)) : Prop where
  binds : ∀ r ∈ out, 0 < r.entry.timestamp → Binds ⟨r.entry.key rules, r.entry⟩
  apart : (out.filter fun r => decide (0 < r.entry.timestamp)).Pairwise fun a b => ¬ Clash rules a b

section Rows

variable {rules : Builtins F Cost}

theorem rowsOf_eq (out : List (Entry Cost)) :
    rowsOf rules out = (dated out).map fun e => ⟨e.key rules, e⟩ := by
  induction out with
  | nil => rfl
  | cons e rest ih =>
    by_cases old : e.timestamp ≤ 0
    · have skipped : e.forStorage rules = none := if_pos old
      rw [rowsOf, List.filterMap_cons_none skipped, dated,
        List.filter_cons_of_neg (by simpa using old)]
      exact ih
    · have kept : e.forStorage rules = some ⟨e.key rules, e⟩ := if_neg old
      rw [rowsOf, List.filterMap_cons_some kept, dated,
        List.filter_cons_of_pos (by simpa using old), List.map_cons]
      exact congrArg _ ih

theorem rowsOf_entries (out : List (Entry Cost)) :
    (rowsOf rules out).map Row.entry = dated out := by
  rw [rowsOf_eq, List.map_map]
  exact List.map_id _

theorem rowsOf_keyed (out : List (Entry Cost)) : ∀ row ∈ rowsOf rules out, row.entryKey ≠ [] := by
  intro row hrow
  rw [rowsOf_eq] at hrow
  obtain ⟨e, _, rfl⟩ := List.mem_map.mp hrow
  simp only [Entry.key]
  split
  · simp [text]
  · assumption

theorem insertMany_rowsOf {out : List (Entry Cost)} {rows : List (Row Cost)} :
    insertMany [] (rowsOf rules out) = .ok rows ↔
      (∀ row ∈ rowsOf rules out, Binds row) ∧ ((rowsOf rules out).map Row.entryKey).Nodup ∧
        rows = rowsOf rules out := by
  rw [insertMany_eq_ok (rowsOf_keyed out)]
  simp

/-- The batch of what is reported goes in exactly when nothing reported clashes. -/
theorem storable_iff [DecidableEq F] {logs : Logs F} {out : List (Reported F Cost)}
    (parsed : rules.reported logs = some out) :
    Storable rules out ↔ (∀ row ∈ rowsOf rules (out.map Reported.entry), Binds row) ∧
      ((rowsOf rules (out.map Reported.entry)).map Row.entryKey).Nodup := by
  have kept : dated (out.map Reported.entry) =
      (out.filter fun r => decide (0 < r.entry.timestamp)).map Reported.entry := List.filter_map
  have keys : (rowsOf rules (out.map Reported.entry)).map Row.entryKey =
      (out.filter fun r => decide (0 < r.entry.timestamp)).map fun r => r.entry.key rules := by
    rw [rowsOf_eq, kept, List.map_map, List.map_map]
    rfl
  have clash := (reported_clash parsed).filter fun r => decide (0 < r.entry.timestamp)
  constructor
  · intro storable
    constructor
    · intro row hrow
      rw [rowsOf_eq, kept, List.map_map] at hrow
      obtain ⟨r, hr, rfl⟩ := List.mem_map.mp hrow
      obtain ⟨hr, later⟩ := List.mem_filter.mp hr
      exact storable.binds r hr (of_decide_eq_true later)
    · rw [keys, List.nodup_iff_pairwise_ne, List.pairwise_map]
      exact (storable.apart.and clash).imp fun h => h.2.not.mp h.1
  · rintro ⟨binds, distinct⟩
    constructor
    · intro r hr later
      refine binds _ ?_
      rw [rowsOf_eq, kept, List.map_map]
      exact List.mem_map.mpr ⟨r, List.mem_filter.mpr ⟨hr, decide_eq_true later⟩, rfl⟩
    · rw [keys, List.nodup_iff_pairwise_ne, List.pairwise_map] at distinct
      exact (distinct.and clash).imp fun h => h.2.not.mpr h.1

end Rows

section Syncs

variable [DecidableEq F] {Sig : Type} [DecidableEq Sig]

/-- A sync in durable mode or not, at the logs of that moment; one that raises changes nothing. -/
def syncStep (rules : Builtins F Cost) (signature : Logs F → Sig) (s : Source Sig Cost)
    (a : Bool × Logs F) : Option (Source Sig Cost) :=
  match syncSource rules a.1 (signature a.2) (rules.parseAll a.2) s with
  | .done _ after => some after
  | .raised _ => some s
  | .parserRaised => some s

/-- The rows under a signature are those of logs that have it. -/
def Source.Current (rules : Builtins F Cost) (signature : Logs F → Sig) (s : Source Sig Cost) :
    Prop :=
  ∀ sig, s.signature = some sig → ∃ logs out, signature logs = sig ∧
    rules.reported logs = some out ∧ insertMany [] (rowsOf rules (out.map Reported.entry)) = .ok s.rows

variable {rules : Builtins F Cost} {signature : Logs F → Sig} {s : Source Sig Cost}

/-- What a sync that does not raise does. -/
theorem syncSource_done {durable : Bool} {logs : Logs F} {wrote : Bool}
    {after : Source Sig Cost}
    (done : syncSource rules durable (signature logs) (rules.parseAll logs) s = .done wrote after) :
    (s.signature = some (signature logs) ∧ after = s) ∨
    ∃ out, rules.reported logs = some out ∧
      ((durable = true ∧ rowsOf rules (out.map Reported.entry) = [] ∧ after = s) ∨
        ∃ rows, insertMany [] (rowsOf rules (out.map Reported.entry)) = .ok rows ∧
          after = ⟨some (signature logs), rows⟩) := by
  unfold syncSource at done
  split at done
  · rename_i current
    cases done
    exact .inl ⟨current, rfl⟩
  · split at done
    · cases done
    · rename_i out whole
      obtain ⟨reported, parsed, rfl⟩ := Option.map_eq_some_iff.mp whole
      simp only at done
      split at done
      · rename_i keeps
        simp only [Bool.and_eq_true, List.isEmpty_iff] at keeps
        cases done
        exact .inr ⟨reported, parsed, .inl ⟨keeps.1.1, keeps.1.2, rfl⟩⟩
      · split at done
        · cases done
        · rename_i rows inserted
          cases done
          exact .inr ⟨reported, parsed, .inr ⟨rows, inserted, rfl⟩⟩

theorem Source.Current.step {a : Bool × Logs F} {after : Source Sig Cost}
    (current : s.Current rules signature) (stepped : syncStep rules signature s a = some after) :
    after.Current rules signature := by
  unfold syncStep at stepped
  split at stepped
  · rename_i wrote next done
    cases stepped
    rcases syncSource_done done with ⟨_, rfl⟩ | ⟨out, parsed, ⟨_, _, rfl⟩ | ⟨rows, inserted, rfl⟩⟩
    · exact current
    · exact current
    · rintro sig ⟨⟩
      exact ⟨a.2, out, rfl, parsed, inserted⟩
  · cases stepped
    exact current
  · cases stepped
    exact current

/-- In every run of syncs whose signature identifies what the logs report, a sync stores the
entries with a positive timestamp exactly when everything reported is storable. -/
theorem sync_source_stores_iff
    (identifies : ∀ l m, signature l = signature m → rules.reported l = rules.reported m)
    (reach : Runs.Reachable (syncStep rules signature) Runs.Any (· = ⟨none, []⟩) s)
    (durable : Bool) {logs : Logs F} {out : List (Reported F Cost)}
    (parsed : rules.reported logs = some out) :
    (∃ wrote after, syncSource rules durable (signature logs) (rules.parseAll logs) s =
        .done wrote after ∧
      (after.rows.map Row.entry = dated (out.map Reported.entry) ∨
        durable = true ∧ dated (out.map Reported.entry) = [] ∧ after.rows = s.rows)) ↔
      Storable rules out := by
  have current : s.Current rules signature :=
    reach.invariant (fun s₀ start => by
      rw [start]
      rintro sig ⟨⟩) fun _ _ _ current _ stepped => current.step stepped
  rw [storable_iff parsed]
  constructor
  · rintro ⟨wrote, after, done, stored⟩
    rcases syncSource_done done with ⟨known, _⟩ | ⟨out', parsed', nothing | ⟨rows, inserted, _⟩⟩
    · obtain ⟨earlier, out', same, parsed', inserted⟩ := current _ known
      cases (identifies _ _ same ▸ parsed').symm.trans parsed
      obtain ⟨binds, distinct, _⟩ := insertMany_rowsOf.mp inserted
      exact ⟨binds, distinct⟩
    · cases parsed.symm.trans parsed'
      rw [nothing.2.1]
      exact ⟨fun row hrow => absurd hrow List.not_mem_nil, List.nodup_nil⟩
    · cases parsed.symm.trans parsed'
      obtain ⟨binds, distinct, _⟩ := insertMany_rowsOf.mp inserted
      exact ⟨binds, distinct⟩
  · rintro ⟨binds, distinct⟩
    have inserted := insertMany_rowsOf.mpr ⟨binds, distinct, rfl⟩
    have all : rules.parseAll logs = some (out.map Reported.entry) := by
      rw [Builtins.parseAll, parsed]
      rfl
    by_cases known : s.signature = some (signature logs)
    · refine ⟨false, s, if_pos known, .inl ?_⟩
      obtain ⟨earlier, out', same, parsed', stored⟩ := current _ known
      cases (identifies _ _ same ▸ parsed').symm.trans parsed
      rw [(insertMany_rowsOf.mp stored).2.2, rowsOf_entries]
    · by_cases keeps : (durable && (rowsOf rules (out.map Reported.entry)).isEmpty &&
          !s.rows.isEmpty) = true
      · refine ⟨false, s, ?_, .inr ?_⟩
        · rw [all, syncSource, if_neg known]
          exact if_pos keeps
        · simp only [Bool.and_eq_true, List.isEmpty_iff] at keeps
          refine ⟨keeps.1.1, ?_, rfl⟩
          rw [← rowsOf_entries, keeps.1.2]
          rfl
      · refine ⟨true, ⟨some (signature logs), rowsOf rules (out.map Reported.entry)⟩, ?_,
          .inl (rowsOf_entries _)⟩
        rw [all, syncSource, if_neg known]
        simp only
        rw [if_neg keeps, inserted]

end Syncs

/-- Whole numbers only, and no prices. -/
def wholeNumbers : Builtins Empty Unit where
  fmt := wholeSeconds.fmt
  isZero := fun x => x.elim
  floatKey _ := .null
  repr _ := []
  toInt _ := 0
  fromTimestamp _ := .invalid
  fromIsoFormat _ := none
  getCost _ _ _ _ _ := some ()
  yielded _ := []
  int
    | .int n => some n
    | _ => none
  float _ := none
  atLeast _ _ := false
  positive _ := false
  floorDiv _ _ := none
  times _ _ := none
  lower t := t
  decimal := isDigit
  round10 cost := cost
  digest _ := []

/-- A chat span without a response id. -/
def chatSpan (trace : String) (endTime : ℤ) : OtelRecord Empty where
  items := [(text "name", .str (text "chat gpt-5")), (text "traceId", .str (text trace)),
    (text "endTime", .list [.int endTime, .int 0]),
    (text "attributes", .dict [(text "gen_ai.operation.name", .str (text "chat")),
      (text "gen_ai.response.model", .str (text "gpt-5")),
      (text "gen_ai.usage.output_tokens", .int 7)])]
  mtimeMs := 0

/-- Two calls of two traces. -/
def twoTraces : Logs Empty := ⟨[chatSpan "t" 1, chatSpan "u" 2], []⟩

theorem sync_source_stores_two_traces : ∃ wrote after,
    @syncSource Empty Unit (Logs Empty) (Classical.decEq _) wholeNumbers false twoTraces
        (wholeNumbers.parseAll twoTraces) ⟨none, []⟩ = .done wrote after ∧
      after.rows.map (fun row => row.entry.timestamp) = [1000, 2000] := by
  have given : (wholeNumbers.reported twoTraces).isSome = true := by decide +kernel
  have parsed : wholeNumbers.reported twoTraces =
      some ((wholeNumbers.reported twoTraces).getD []) := by
    obtain ⟨out, same⟩ := Option.isSome_iff_exists.mp given
    rw [same]
    rfl
  have times : ((wholeNumbers.reported twoTraces).getD []).map (fun r => r.entry.timestamp) =
      [1000, 2000] := by decide +kernel
  have storable := (storable_iff parsed).mpr ⟨by decide +kernel, by decide +kernel⟩
  obtain ⟨wrote, after, done, stored | ⟨durable, _⟩⟩ :=
    (@sync_source_stores_iff _ _ _ _ (Classical.decEq _) wholeNumbers id ⟨none, []⟩
      (fun l m same => congrArg _ same) ⟨_, rfl, .refl _⟩ false _ _ parsed).mpr storable
  · refine ⟨wrote, after, done, ?_⟩
    have kept : dated (((wholeNumbers.reported twoTraces).getD []).map Reported.entry) =
        ((wholeNumbers.reported twoTraces).getD []).map Reported.entry := by
      decide +kernel
    rw [kept] at stored
    have same := congrArg (List.map Entry.timestamp) stored
    rw [List.map_map, List.map_map] at same
    exact same.trans times
  · cases durable

/-- Two calls of one trace: both spans are reported, under the trace id. -/
theorem spans_of_one_trace_raise :
    (wholeNumbers.parseAll ⟨[chatSpan "t" 1, chatSpan "t" 2], []⟩).map
        (fun out => out.map Entry.timestamp) = some [1000, 2000] ∧
      syncSource wholeNumbers false ()
        (wholeNumbers.parseAll ⟨[chatSpan "t" 1, chatSpan "t" 2], []⟩) ⟨none, []⟩ =
          .raised .constraint := by
  decide +kernel

end Copilot
