import LivingBalancer.Tokdash.JsonlParsers

/-!
# The records of the Copilot client

`CopilotCLIParser._parse_otel_files` and the `events.jsonl` part of `_parse_all`, from the
records on: a line that is no JSON object is skipped before. Spans and logs are read in four
passes; all but the first skip a record whose trace or response was reported before. A response
that any span or log names suppresses the events that name it.
-/

namespace Copilot

open PyJson JsonlUsage JsonlUsage.Rules

variable {F Cost : Type}

abbrev Record (F : Type) := List (Str × JsonValue F)

/-- The built-in operations; `none` is an exception. `floorDiv x n` is `int(x // n)`,
`times x n` is `int(x * n)` and `digest` is the SHA-1 of the sorted JSON text. -/
structure Builtins (F Cost : Type) extends Rules F Cost where
  int : JsonValue F → Option ℤ
  float : JsonValue F → Option (PyFloat F)
  atLeast : PyFloat F → ℤ → Bool
  positive : PyFloat F → Bool
  floorDiv : PyFloat F → ℤ → Option ℤ
  times : PyFloat F → ℤ → Option ℤ
  lower : Str → Str
  decimal : ℕ → Bool
  round10 : Cost → Cost
  digest : Basis Cost → Str

/-- The attributes of a span or log that is read, with `int(file_mtime * 1000)`. -/
structure OtelRecord (F : Type) where
  items : Record F
  mtimeMs : ℤ

/-- One `events.jsonl`. -/
structure EventFile (F : Type) where
  objects : List (Record F)
  mtimeMs : ℤ

structure Logs (F : Type) where
  otel : List (OtelRecord F)
  events : List (EventFile F)

inductive Bucket where
  | chatSpan
  | inferenceLog
  | agentTurnLog
  | agentSummarySpan
  deriving DecidableEq

/-- An entry of the parser. -/
structure Entry (Cost : Type) where
  source : Str
  model : Str
  provider : Str
  input : ℤ
  output : ℤ
  cacheRead : ℤ
  cacheWrite : ℤ
  reasoning : ℤ
  cost : Cost
  timestamp : ℤ
  entryId : Str
  deriving DecidableEq

/-- What an entry was made of: a span or log with its ids, or an event with its message id or
request id. -/
inductive Origin (F : Type) where
  | otel (bucket : Bucket) (trace response : Str)
  | event (dedupKey : JsonValue F)

structure Reported (F Cost : Type) where
  origin : Origin F
  entry : Entry Cost

namespace Builtins

variable (rules : Builtins F Cost)

/-- `v or ""` as a text. -/
def strOr (v : JsonValue F) : Str := if rules.truthy v then rules.str v else []

/-- `int(v or 0)`. -/
def intOr (v : JsonValue F) : Option ℤ := if rules.truthy v then rules.int v else some 0

/-- `BaseParser._i`. -/
def i (v : JsonValue F) : ℤ := (rules.intOr v).getD 0

def firstNonzero : List (JsonValue F) → Option ℤ
  | [] => some 0
  | v :: rest => (rules.intOr v).bind fun n => if n ≠ 0 then some n else firstNonzero rest

end Builtins

def attrs (record : Record F) : Record F :=
  match getD record "attributes" .null with
  | .dict items => items
  | _ => []

def spanFields : List Str :=
  ["spanId", "traceId", "startTime", "endTime", "duration", "kind"].map text

namespace Builtins

variable (rules : Builtins F Cost)

def isSpan (record : Record F) : Bool :=
  isStr "span" (getD record "type" .null) ||
    (rules.truthy (getD record "name" .null) && spanFields.any fun key =>
      (record.map Prod.fst).contains key)

/-- The bucket of a record, if any. -/
def bucket (record : Record F) : Option Bucket :=
  let opName := getD (attrs record) "gen_ai.operation.name" (.str [])
  let recName := rules.strOr (getD record "name" .null)
  let eventName := getD (attrs record) "event.name" (.str [])
  let body := rules.strOr (getD record "body" .null)
  if rules.isSpan record && (isStr "chat" opName || (text "chat ").isPrefixOf recName) then
    some .chatSpan
  else if !rules.isSpan record && (isStr "gen_ai.client.inference.operation.details" eventName ||
      (text "GenAI inference:").isPrefixOf body) then
    some .inferenceLog
  else if !rules.isSpan record && (isStr "copilot_chat.agent.turn" eventName ||
      (text "copilot_chat.agent.turn").isPrefixOf body) then
    some .agentTurnLog
  else if rules.isSpan record && (isStr "invoke_agent" opName ||
      (text "invoke_agent ").isPrefixOf recName) then
    some .agentSummarySpan
  else none

/-- `_infer_provider`. -/
def inferProvider (model : Str) : Str :=
  let m := rules.lower model
  if (text "claude").isPrefixOf m then text "anthropic"
  else if (text "gemini").isPrefixOf m then text "google"
  else if (text "gpt").isPrefixOf m ||
      (match m with
        | first :: second :: _ => first == code 'o' && rules.decimal second
        | _ => false) || decide (text "chatgpt" <:+: m) then text "openai"
  else text "copilot"

/-- The two-element form of a time. -/
def pairMillis (record : Record F) (key : String) : Option ℤ :=
  match getD record key .null with
  | .list [seconds, nanos] =>
    (rules.int seconds).bind fun s => (rules.int nanos).map fun n => s * 1000 + n / 1000000
  | _ => none

/-- The scalar form of a time, scaled by its magnitude. -/
def scalarMillis (record : Record F) (key : String) : Option ℤ :=
  (rules.float (getD record key .null)).bind fun x =>
    if rules.atLeast x (10 ^ 17) then rules.floorDiv x 1000000
    else if rules.atLeast x (10 ^ 14) then rules.floorDiv x 1000
    else if rules.atLeast x (10 ^ 11) then rules.int (.float x)
    else if rules.positive x then rules.times x 1000
    else none

/-- `_parse_otel_timestamp`. -/
def parseOtelTimestamp (record : Record F) (mtimeMs : ℤ) : ℤ :=
  let pairs := ["endTime", "startTime", "hrTime", "_hrTime"].findSome? (rules.pairMillis record)
  let scalars := ["time", "timestamp", "observedTimestamp"].findSome? (rules.scalarMillis record)
  let unixNano := (rules.int (getD record "timeUnixNano" .null)).map (· / 1000000)
  (((pairs.or scalars).or unixNano).getD mtimeMs)

structure Tokens where
  input : ℤ
  output : ℤ
  cacheRead : ℤ
  cacheWrite : ℤ
  reasoning : ℤ

/-- `_parse_otel_tokens`. -/
def parseOtelTokens (attrs : Record F) : Option Tokens := do
  let rawInput := rules.i (getD attrs "gen_ai.usage.input_tokens" .null)
  let cacheRead := rules.i (getD attrs "gen_ai.usage.cache_read.input_tokens" .null)
  let cacheWrite ← rules.firstNonzero
    [getD attrs "gen_ai.usage.cache_write.input_tokens" .null,
      getD attrs "gen_ai.usage.cache_creation.input_tokens" .null]
  let reasoning ← rules.firstNonzero
    [getD attrs "gen_ai.usage.reasoning.output_tokens" .null,
      getD attrs "gen_ai.usage.reasoning_tokens" .null]
  let output := rules.i (getD attrs "gen_ai.usage.output_tokens" .null)
  let input := max 0 (rawInput - cacheRead)
  let total ← rules.firstNonzero
    [getD attrs "gen_ai.usage.total_tokens" .null,
      getD attrs "gen_ai.usage.total.token_count" .null]
  let fallback := input == 0 && output == 0 && cacheRead == 0 && cacheWrite == 0 &&
    decide (0 < total)
  some ⟨input, if fallback then total else output, cacheRead, cacheWrite, reasoning⟩

/-- `_get_model`, or else the first attribute whose name has `model` in it. -/
def modelOf (attrs : Record F) : Str :=
  let response := getD attrs "gen_ai.response.model" .null
  let named := rules.strOr
    (if rules.truthy response then response else getD attrs "gen_ai.request.model" .null)
  if named = [] then
    match attrs.find? fun item => decide (text "model" <:+: item.1) && rules.truthy item.2 with
    | some item => rules.str item.2
    | none => []
  else named

def traceId (record : Record F) : Str := rules.strOr (getD record "traceId" .null)

def responseId (record : Record F) : Str :=
  rules.strOr (getD (attrs record) "gen_ai.response.id" .null)

/-- `_emit`; an entry without tokens is none. -/
def emit (record : OtelRecord F) : Option (Option (Entry Cost)) := do
  let tokens ← rules.parseOtelTokens (attrs record.items)
  if tokens.input = 0 ∧ tokens.output = 0 ∧ tokens.cacheRead = 0 ∧ tokens.cacheWrite = 0 ∧
      tokens.reasoning = 0 then some none
  else
    let model := rules.modelOf (attrs record.items)
    let cost ← rules.getCost (.str model) tokens.input tokens.output tokens.cacheRead
      tokens.cacheWrite
    let trace := rules.traceId record.items
    let response := rules.responseId record.items
    some (some
      { source := text "copilot_cli"
        model := if model = [] then text "unknown" else model
        provider := rules.inferProvider model
        input := tokens.input
        output := tokens.output
        cacheRead := tokens.cacheRead
        cacheWrite := tokens.cacheWrite
        reasoning := tokens.reasoning
        cost := cost
        timestamp := rules.parseOtelTimestamp record.items record.mtimeMs
        entryId := if response = [] then trace else response })

end Builtins

/-! ## The four passes -/

/-- `seen_trace_ids` and `seen_response_ids`. -/
structure Seen where
  traces : List Str
  responses : List Str

def Seen.covers (seen : Seen) (trace response : Str) : Bool :=
  (trace != [] && seen.traces.contains trace) ||
    (response != [] && seen.responses.contains response)

def Seen.add (seen : Seen) (trace response : Str) : Seen where
  traces := if trace = [] then seen.traces else trace :: seen.traces
  responses := if response = [] then seen.responses else response :: seen.responses

namespace Builtins

variable (rules : Builtins F Cost)

/-- One record of a pass. -/
def look (b : Bucket) (seen : Seen) (record : OtelRecord F) :
    Option (Seen × Option (Reported F Cost)) :=
  let trace := rules.traceId record.items
  let response := rules.responseId record.items
  if b ≠ .chatSpan ∧ seen.covers trace response = true then some (seen, none)
  else (rules.emit record).map fun
    | none => (seen, none)
    | some entry => (seen.add trace response, some ⟨.otel b trace response, entry⟩)

def pass (b : Bucket) : Seen → List (OtelRecord F) → Option (Seen × List (Reported F Cost))
  | seen, [] => some (seen, [])
  | seen, record :: rest =>
    (rules.look b seen record).bind fun first =>
      (pass b first.1 rest).map fun later => (later.1, first.2.toList ++ later.2)

/-- The passes over the records of some buckets, one after the other. -/
def passes (records : List (OtelRecord F)) :
    Seen → List Bucket → Option (Seen × List (Reported F Cost))
  | seen, [] => some (seen, [])
  | seen, b :: rest =>
    (rules.pass b seen (records.filter fun r => rules.bucket r.items == some b)).bind fun first =>
      (passes records first.1 rest).map fun later => (later.1, first.2 ++ later.2)

/-- `_parse_otel_files`. -/
def parseOtelFiles (records : List (OtelRecord F)) : Option (List (Reported F Cost)) :=
  (rules.passes records ⟨[], []⟩
    [.chatSpan, .inferenceLog, .agentTurnLog, .agentSummarySpan]).map Prod.snd

/-- `_otel_seen_keys`. -/
def otelSeenKeys (records : List (OtelRecord F)) : List Str :=
  ((records.filter fun r => (rules.bucket r.items).isSome).map fun r =>
    rules.responseId r.items).filter (· ≠ [])

/-! ## The events -/

/-- What one line of an `events.jsonl` does; after `stops` the file is not read on. -/
structure EventStep (F Cost : Type) where
  seen : List (SetKey F)
  reported : Option (Reported F Cost)
  stops : Bool

/-- `v or ""`. -/
def orEmpty (v : JsonValue F) : JsonValue F := if rules.truthy v then v else .str []

/-- `v in otel_seen`; `none` for a value that is not hashable. -/
def inOtelSeen [DecidableEq F] (otelSeen : List Str) (v : JsonValue F) : Option Bool :=
  (rules.hashed v).map fun key => (otelSeen.map SetKey.str).contains key

def eventTimestamp (mtimeMs : ℤ) (object : Record F) : ℤ :=
  let raw := getD object "timestamp" .null
  let iso := (rules.str raw).flatMap fun c => if c = code 'Z' then text "+00:00" else [c]
  if rules.truthy raw then (rules.fromIsoFormat iso).getD mtimeMs else mtimeMs

/-- The entry of an event; `none` is an exception. -/
def eventEntry (mtimeMs : ℤ) (object data : Record F) (dedupKey : JsonValue F) :
    Option (Entry Cost) :=
  let output := rules.i (getD data "outputTokens" .null)
  let named := getD data "model" .null
  let model := if rules.truthy named then rules.str named else text "unknown"
  (rules.getCost (.str model) 0 output 0 0).map fun cost =>
    { source := text "copilot_cli"
      model := model
      provider := rules.inferProvider model
      input := 0
      output := output
      cacheRead := 0
      cacheWrite := 0
      reasoning := 0
      cost := cost
      timestamp := rules.eventTimestamp mtimeMs object
      entryId := if rules.truthy dedupKey then text "copilot_event:" ++ rules.str dedupKey
        else [] }

/-- An event that the spans and logs do not suppress. -/
def countEvent [DecidableEq F] (mtimeMs : ℤ) (seen : List (SetKey F)) (object data : Record F)
    (dedupKey : JsonValue F) : EventStep F Cost :=
  if rules.truthy dedupKey && ((rules.hashed dedupKey).any fun key => seen.contains key) then
    ⟨seen, none, false⟩
  else
    let marked := if rules.truthy dedupKey then (rules.hashed dedupKey).toList ++ seen else seen
    if rules.i (getD data "outputTokens" .null) = 0 then ⟨marked, none, false⟩
    else
      match rules.eventEntry mtimeMs object data dedupKey with
      | none => ⟨marked, none, true⟩
      | some entry => ⟨marked, some ⟨.event dedupKey, entry⟩, false⟩

def event [DecidableEq F] (otelSeen : List Str) (mtimeMs : ℤ) (seen : List (SetKey F))
    (object : Record F) : EventStep F Cost :=
  if isStr "assistant.message" (getD object "type" .null) then
    let data := match getD object "data" .null with
      | .dict items => items
      | _ => []
    let msgId := rules.orEmpty (getD data "messageId" .null)
    let requestId := rules.orEmpty (getD data "requestId" .null)
    match rules.inOtelSeen otelSeen msgId with
    | none => ⟨seen, none, true⟩
    | some true => ⟨seen, none, false⟩
    | some false =>
      match rules.inOtelSeen otelSeen requestId with
      | none => ⟨seen, none, true⟩
      | some true => ⟨seen, none, false⟩
      | some false =>
        rules.countEvent mtimeMs seen object data
          (if rules.truthy msgId then msgId else requestId)
  else ⟨seen, none, false⟩

def eventFile [DecidableEq F] (otelSeen : List Str) (mtimeMs : ℤ) :
    List (SetKey F) → List (Record F) → List (SetKey F) × List (Reported F Cost)
  | seen, [] => (seen, [])
  | seen, object :: rest =>
    let first := rules.event otelSeen mtimeMs seen object
    if first.stops then (first.seen, first.reported.toList)
    else
      let later := eventFile otelSeen mtimeMs first.seen rest
      (later.1, first.reported.toList ++ later.2)

def eventFiles [DecidableEq F] (otelSeen : List Str) :
    List (SetKey F) → List (EventFile F) → List (Reported F Cost)
  | _, [] => []
  | seen, file :: rest =>
    let first := rules.eventFile otelSeen file.mtimeMs seen file.objects
    first.2 ++ eventFiles otelSeen first.1 rest

/-- What `_parse_all` reports. -/
def reported [DecidableEq F] (logs : Logs F) : Option (List (Reported F Cost)) :=
  (rules.parseOtelFiles logs.otel).map fun spans =>
    spans ++ rules.eventFiles (rules.otelSeenKeys logs.otel) [] logs.events

/-- `_parse_all`; `none` is an exception. -/
def parseAll [DecidableEq F] (logs : Logs F) : Option (List (Entry Cost)) :=
  (rules.reported logs).map fun out => out.map Reported.entry

end Builtins

end Copilot
