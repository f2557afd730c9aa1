import LivingBalancer.Tokdash.JsonlParsers
import LivingBalancer.Tokdash.SessionRows

/-!
# The sources that are synced file by file

The rows of the session files of Claude, Pi Agent, Codex, Gemini and Kimi, as their parsers'
`_parse_all` reads them. The store agrees with `collect()` where the rows of the files agree;
it does not where two sessions of Pi Agent share a message id.
-/

namespace Sessions

open PyJson JsonlUsage JsonlUsage.Rules UsageStore

variable {F Cost : Type}

/-- More of the built-in operations; `none` is an exception and `digest` is the SHA-1 of the
sorted JSON text. -/
structure SessionRules (F Cost : Type) extends Rules F Cost where
  lower : Str → Str
  float : JsonValue F → Option (PyFloat F)
  positive : PyFloat F → Bool
  cost : PyFloat F → Cost
  round10 : Cost → Cost
  digest : Basis Cost → Str

/-- What the parsers see of a message: its id, for Pi Agent with that of its session. -/
inductive MessageId (F : Type) where
  | plain (id : SetKey F)
  | scoped (session : Str) (id : SetKey F)
  deriving DecidableEq

abbrev UsageRow (F Cost : Type) := Row (MessageId F) (UsageEntry F Cost)

/-- `v if isinstance(v, dict) else {}`. -/
def dictOr : JsonValue F → List (Str × JsonValue F)
  | .dict items => items
  | _ => []

def isNull : JsonValue F → Bool
  | .null => true
  | _ => false

/-! ## Lines -/

/-- The boundaries of `str.splitlines` beside CR and LF. -/
def isBoundary (c : ℕ) : Bool := [0x0b, 0x0c, 0x1c, 0x1d, 0x1e, 0x85, 0x2028, 0x2029].contains c

/-- `read_text().splitlines()`. -/
def splitlines (t : Str) : List Str :=
  let lines := (Sse.sseLines t).flatMap fun line => line.splitOnP isBoundary
  if lines.getLast? = some [] then lines.dropLast else lines

namespace SessionRules

variable (rules : SessionRules F Cost)

def orElse (v w : JsonValue F) : JsonValue F := if rules.truthy v then v else w

/-- `int(datetime.fromisoformat(str(v).replace("Z", "+00:00")).timestamp() * 1000)`. -/
def isoMillis (v : JsonValue F) : Option ℤ :=
  rules.fromIsoFormat ((rules.str v).flatMap fun c => if c = code 'Z' then text "+00:00" else [c])

/-- `_infer_provider` of Codex, and of Claude without a fallback. -/
def inferProvider (model fallback : Str) : Str :=
  let m := rules.lower model
  if (text "claude").isPrefixOf m then text "anthropic"
  else if decide (text "gemini" <:+: m) then text "google"
  else if (text "gpt").isPrefixOf m || decide (text "codex" <:+: m) then text "openai"
  else fallback

/-- An entry under its `_entry_key`. -/
def keyedEntry (entryId : Str) (e : UsageEntry F Cost) : Str × UsageEntry F Cost :=
  if entryId = [] then
    (text "hash:" ++ rules.digest ⟨e.source, e.model, e.provider, e.timestamp, e.input, e.output,
      e.cacheRead, e.cacheWrite, e.reasoning, rules.round10 e.cost⟩, e)
  else (entryId, e)

/-! ## Claude -/

def claudeEntry (msg usage : List (Str × JsonValue F)) (timestamp : ℤ) :
    Option (UsageEntry F Cost) :=
  let input := rules.toInt (getD usage "input_tokens" (getD usage "input" .null))
  let output := rules.toInt (getD usage "output_tokens" (getD usage "output" .null))
  let cacheRead :=
    rules.toInt (getD usage "cache_read_input_tokens" (getD usage "cache_read_tokens" .null))
  let cacheWrite :=
    rules.toInt (getD usage "cache_creation_input_tokens" (getD usage "cache_write_tokens" .null))
  let model := rules.str (rules.orElse (getD msg "model" .null) (.str (text "unknown")))
  (rules.getCost (.str model) input output cacheRead cacheWrite).map fun cost =>
    { source := text "claude"
      model := model
      provider := rules.inferProvider model []
      input := input
      output := output
      cacheRead := cacheRead
      cacheWrite := cacheWrite
      reasoning := 0
      cost := cost
      timestamp := timestamp
      messageCount := 1
      messageId := none }

/-- The tokens whose sum is 0 in a row that is skipped. -/
def claudeTokens (usage : List (Str × JsonValue F)) : ℤ :=
  rules.toInt (getD usage "input_tokens" (getD usage "input" .null)) +
    rules.toInt (getD usage "output_tokens" (getD usage "output" .null)) +
    rules.toInt (getD usage "cache_read_input_tokens" (getD usage "cache_read_tokens" .null)) +
    rules.toInt (getD usage "cache_creation_input_tokens" (getD usage "cache_write_tokens" .null))

def claudeMessage (obj : List (Str × JsonValue F)) : Option (UsageRow F Cost) :=
  let msg := dictOr (getD obj "message" .null)
  let role := getD msg "role" .null
  let topLevel := isNull role && isStr "assistant" (getD obj "type" .null)
  let usage := dictOr (getD msg "usage" .null)
  let tsRaw := getD obj "timestamp" .null
  if (!isStr "assistant" role && !topLevel) || usage.isEmpty || !rules.truthy tsRaw then none
  else
    (rules.isoMillis tsRaw).bind fun timestamp =>
      if rules.claudeTokens usage = 0 then none
      else
        let msgId := rules.str (rules.orElse (getD msg "id" .null)
          (rules.orElse (getD obj "uuid" .null) (.str [])))
        let id := MessageId.plain (.str msgId)
        let entryId := if msgId = [] then [] else text "claude:" ++ msgId
        match rules.claudeEntry msg usage timestamp with
        -- A role-bearing row is skipped before its price is read if its id was seen.
        | none => some (if msgId = [] || topLevel then .stop else .raises id false)
        | some entry =>
          let keyed := rules.keyedEntry entryId entry
          some (if msgId = [] then .usage none (some keyed)
            else if topLevel then .snapshot id keyed else .usage (some id) (some keyed))

def claudeRow (line : Str) : Option (UsageRow F Cost) :=
  match loads rules.fmt line with
  | none => none
  | some (.dict obj) => rules.claudeMessage obj
  | some _ => some .stop

def claudeRows (content : List UInt8) : List (UsageRow F Cost) :=
  match Utf8.decode content with
  | none => []
  | some t => (splitlines (t.map code)).filterMap rules.claudeRow

/-! ## Pi Agent -/

structure PiState (F : Type) where
  session : Str
  model : JsonValue F
  provider : JsonValue F

def piInferProvider (model : Str) : Str :=
  let m := rules.lower model
  let known := rules.inferProvider model []
  if known ≠ [] then known
  else if decide (text "minimax" <:+: m) || (text "m2.").isPrefixOf m ||
    (text "m1.").isPrefixOf m then text "minimax"
  else []

structure PiTokens where
  input : ℤ
  output : ℤ
  cacheRead : ℤ
  cacheWrite : ℤ

def piTokens (usage : List (Str × JsonValue F)) : PiTokens :=
  let input := rules.toInt (getD usage "input" .null)
  let output := rules.toInt (getD usage "output" .null)
  let cacheRead := rules.toInt (getD usage "cacheRead" .null)
  let cacheWrite := rules.toInt (getD usage "cacheWrite" .null)
  let total := rules.toInt (getD usage "totalTokens" .null)
  let none_ := input == 0 && output == 0 && cacheRead == 0 && cacheWrite == 0
  ⟨input, if none_ && decide (0 < total) then total else output, cacheRead, cacheWrite⟩

/-- The recorded cost if it is positive, else the price of the tokens. -/
def piCost (usage : List (Str × JsonValue F)) (model : Str) (tokens : PiTokens) : Option Cost :=
  let total := getD (dictOr (getD usage "cost" .null)) "total" .null
  let price := rules.getCost (.str model) tokens.input tokens.output tokens.cacheRead
    tokens.cacheWrite
  if rules.truthy total then
    (rules.float total).bind fun x => if rules.positive x then some (rules.cost x) else price
  else price

def piEntry (s : PiState F) (msg usage : List (Str × JsonValue F)) (timestamp : ℤ)
    (tokens : PiTokens) : Option (UsageEntry F Cost) :=
  let model := rules.str (rules.orElse (getD msg "model" .null)
    (rules.orElse s.model (.str (text "unknown"))))
  let provider := rules.str (rules.orElse (getD msg "provider" .null)
    (rules.orElse s.provider (.str (rules.piInferProvider model))))
  (rules.piCost usage model tokens).map fun cost =>
    { source := text "pi_agent"
      model := model
      provider := provider
      input := tokens.input
      output := tokens.output
      cacheRead := tokens.cacheRead
      cacheWrite := tokens.cacheWrite
      reasoning := 0
      cost := cost
      timestamp := timestamp
      messageCount := 1
      messageId := none }

/-- What a message of Pi Agent gives after its id. -/
def piUsage (s : PiState F) (obj msg usage : List (Str × JsonValue F)) (id : Option (MessageId F)) :
    UsageRow F Cost :=
  let entryId := getD obj "id" .null
  let tsRaw := getD obj "timestamp" .null
  let tokens := rules.piTokens usage
  if !rules.truthy tsRaw then .usage id none
  else
    match rules.isoMillis tsRaw with
    | none => .usage id none
    | some timestamp =>
      if tokens.input = 0 ∧ tokens.output = 0 ∧ tokens.cacheRead = 0 ∧ tokens.cacheWrite = 0 then
        .usage id none
      else
        match rules.piEntry s msg usage timestamp tokens, id with
        | none, none => .stop
        | none, some i => .raises i true
        | some entry, _ => .usage id (some (rules.keyedEntry
            (if rules.truthy entryId then text "pi_agent:" ++ rules.str entryId else []) entry))

def piMessage (s : PiState F) (obj : List (Str × JsonValue F)) : Option (UsageRow F Cost) :=
  let msg := dictOr (getD obj "message" .null)
  let usage := dictOr (getD msg "usage" .null)
  let entryId := getD obj "id" .null
  if !isStr "assistant" (getD msg "role" .null) || usage.isEmpty then none
  else if rules.truthy entryId then
    match rules.hashed entryId with
    | none => some .stop
    | some key => some (rules.piUsage s obj msg usage (some (.scoped s.session key)))
  else some (rules.piUsage s obj msg usage none)

def piLine (s : PiState F) (obj : List (Str × JsonValue F)) :
    PiState F × Option (UsageRow F Cost) :=
  let type := getD obj "type" .null
  if isStr "session" type then
    let id := getD obj "id" .null
    ({ s with session := if rules.truthy id then rules.str id else s.session }, none)
  else if isStr "model_change" type then
    ({ s with provider := rules.orElse (getD obj "provider" .null) s.provider
              model := rules.orElse (getD obj "modelId" .null) s.model }, none)
  else if isStr "message" type then (s, rules.piMessage s obj)
  else (s, none)

def piRows (s : PiState F) : List Str → List (UsageRow F Cost)
  | [] => []
  | line :: rest =>
    if Sse.strip line = [] then piRows s rest
    else
      match loads rules.fmt (Sse.strip line) with
      | none => piRows s rest
      | some (.dict obj) => (rules.piLine s obj).2.toList ++ piRows (rules.piLine s obj).1 rest
      | some _ => [.stop]

/-! ## Codex -/

structure CodexState where
  model : Str
  provider : Str
  ownSession : Option Str
  currentSession : Option Str
  subagentParent : Option Str
  isSubagentFile : Bool

/-- `msg.get("payload") or {}`; `none` is no dict, and has no `get`. -/
def payload (msg : List (Str × JsonValue F)) : Option (List (Str × JsonValue F)) :=
  let p := getD msg "payload" .null
  match p with
  | .dict items => some items
  | _ => if rules.truthy p then none else some []

def sessionMeta (s : CodexState) (p : List (Str × JsonValue F)) : CodexState :=
  let sid := getD p "id" .null
  let named := rules.str sid
  let spawn := getD (dictOr (getD (dictOr (getD p "source" .null)) "subagent" .null))
    "thread_spawn" .null
  let parent := getD (dictOr spawn) "parent_thread_id" .null
  let spawned := match spawn with
    | .dict _ => true
    | _ => false
  let known :=
    if rules.truthy sid then
      if s.ownSession.isNone then
        { s with
          ownSession := some named
          currentSession := some named
          isSubagentFile := s.isSubagentFile || spawned
          subagentParent :=
            if spawned then if rules.truthy parent then some (rules.str parent) else none
            else s.subagentParent }
      else { s with currentSession := some named }
    else s
  let modelProvider := getD p "model_provider" .null
  if rules.truthy modelProvider then { known with provider := rules.str modelProvider } else known

/-- The state after the first part of a line. -/
def codexContext (s : CodexState) (type : JsonValue F) (p : List (Str × JsonValue F)) :
    CodexState :=
  let model := getD p "model" .null
  if isStr "turn_context" type then
    if rules.truthy model then
      { s with model := rules.str model
               provider := rules.inferProvider (rules.str model) s.provider }
    else s
  else if isStr "session_meta" type then rules.sessionMeta s p
  else s

def isReplay (s : CodexState) : Bool :=
  s.isSubagentFile && s.ownSession.isSome && s.currentSession.isSome &&
    match s.subagentParent with
    | some parent => decide (s.currentSession = some parent)
    | none => decide (s.currentSession ≠ s.ownSession)

/-- A token count that is no replay. -/
def codexUsage (path : Str) (lineNo : ℕ) (s : CodexState) (msg p : List (Str × JsonValue F)) :
    Option (UsageRow F Cost) :=
  let tsRaw := getD msg "timestamp" .null
  let usage := dictOr (getD (dictOr (getD p "info" .null)) "last_token_usage" .null)
  if !rules.truthy tsRaw then none
  else
    (rules.isoMillis tsRaw).bind fun timestamp =>
      let cacheRead := rules.toInt (getD usage "cached_input_tokens" .null)
      let input := rules.toInt (getD usage "input_tokens" .null) - cacheRead
      let output := rules.toInt (getD usage "output_tokens" .null)
      let reasoning := rules.toInt (getD usage "reasoning_output_tokens" .null)
      if usage.isEmpty || (input == 0 && output == 0 && cacheRead == 0 && reasoning == 0) then none
      else
        match rules.getCost (.str s.model) input output cacheRead 0 with
        | none => some .stop
        | some cost => some (.usage none (some (path ++ text ":" ++ natText lineNo,
            { source := text "codex"
              model := s.model
              provider := s.provider
              input := input
              output := output
              cacheRead := cacheRead
              cacheWrite := 0
              reasoning := reasoning
              cost := cost
              timestamp := timestamp
              messageCount := 1
              messageId := none })))

/-- One line; `none` is an exception. -/
def codexLine (path : Str) (lineNo : ℕ) (s : CodexState) (msg : List (Str × JsonValue F)) :
    Option (CodexState × Option (UsageRow F Cost)) :=
  let type := getD msg "type" .null
  match rules.payload msg with
  | none =>
    if isStr "turn_context" type || isStr "session_meta" type || isStr "event_msg" type then none
    else some (s, none)
  | some p =>
    let after := rules.codexContext s type p
    if isStr "event_msg" type && isStr "token_count" (getD p "type" .null) && !isReplay after then
      some (after, rules.codexUsage path lineNo after msg p)
    else some (after, none)

def codexRows (path : Str) : ℕ → CodexState → List Str → List (UsageRow F Cost)
  | _, _, [] => []
  | n, s, line :: rest =>
    match loads rules.fmt line with
    | none => codexRows path (n + 1) s rest
    | some (.dict msg) =>
      match rules.codexLine path n s msg with
      | none => [.stop]
      | some (after, row) => row.toList ++ codexRows path (n + 1) after rest
    | some _ => [.stop]

/-! ## Gemini and Kimi -/

def ofReading : Reading (SetKey F) (UsageEntry F Cost) → UsageRow F Cost
  | .stop => .stop
  | .usage id .raises => .raises (.plain id) true
  | .usage id (.gives entry) => .usage (some (.plain id)) entry

def geminiMessage (message : JsonValue F) : Option (Reading (SetKey F) (UsageEntry F Cost)) :=
  match message with
  | .dict msg =>
    if isStr "gemini" (getD msg "type" .null) then
      match getD msg "tokens" .null with
      | .dict tokens =>
        let msgId := getD msg "id" .null
        (rules.hashed msgId).map fun id => .usage id (.gives (rules.geminiOutcome msg tokens msgId))
      | _ => none
    else none
  | _ => none

/-- A line of a JSONL file is read as a message of a JSON file. -/
theorem geminiRead_eq (line : Str) :
    rules.geminiRead line = (loads rules.fmt line).bind rules.geminiMessage := by
  unfold Rules.geminiRead
  cases loads rules.fmt line with
  | none => rfl
  | some v => cases v <;> rfl

/-- The messages of a JSON file. -/
def geminiMessages (content : List UInt8) : List (JsonValue F) :=
  match (Utf8.decode content).bind fun t => loads rules.fmt (t.map code) with
  | some (.dict data) =>
    match getD data "messages" .null with
    | .list messages => messages
    | _ => []
  | _ => []

/-- The readings of a JSONL file. -/
def jsonlReadings (source : AppendSource) (content : List UInt8) :
    List (Reading (SetKey F) (UsageEntry F Cost)) :=
  let parser := source.parser rules.toRules
  match Utf8.decode content with
  | some t => parser.readings (JsonlParser.lines t)
  | none => parser.readings (parser.broken content)

end SessionRules

inductive Source where
  | claude
  | piAgent
  | codex
  | gemini
  | kimi
  deriving DecidableEq

/-- Only Claude sorts what it returns. -/
def Source.sorts : Source → Bool
  | .claude => true
  | _ => false

/-- The rows of a file of the source. -/
def Source.rows (rules : SessionRules F Cost) (source : Source) (path : Str)
    (content : List UInt8) : List (UsageRow F Cost) :=
  match source with
  | .claude => rules.claudeRows content
  | .piAgent =>
    let lines := match Utf8.decode content with
      | some t => JsonlParser.lines t
      | none => rules.yielded content
    rules.piRows ⟨[], .str [], .str []⟩ lines
  | .codex =>
    match Utf8.decode content with
    | some t => rules.codexRows path 1
        ⟨text "gpt-5.3-codex", text "openai", none, none, none, false⟩ (splitlines (t.map code))
    | none => []
  | .gemini =>
    if (text ".jsonl").isSuffixOf path then
      (rules.jsonlReadings .gemini content).map SessionRules.ofReading
    else ((rules.geminiMessages content).filterMap rules.geminiMessage).map SessionRules.ofReading
  | .kimi => (rules.jsonlReadings .kimi content).map SessionRules.ofReading

/-- Model, provider, time and token counts. -/
def shown (e : UsageEntry F Cost) : (Str × Str × ℤ) × ℤ × ℤ × ℤ × ℤ × ℤ :=
  ((e.model, e.provider, e.timestamp), e.input, e.output, e.cacheRead, e.cacheWrite, e.reasoning)

/-- The parameters of the statements for a file and its entries raise no exception. -/
def bindable (path : Str) (entries : List (Str × UsageEntry F Cost)) : Bool :=
  decide (Encodes path) && entries.all fun (key, e) =>
    decide ((∀ t ∈ [e.source, key, e.model, e.provider], Encodes t) ∧
      ∀ n ∈ [e.timestamp, e.input, e.output, e.cacheRead, e.cacheWrite, e.reasoning,
        e.messageCount], Fits n)

section Store

variable [DecidableEq F] {Config : Type} [DecidableEq Config] (rules : SessionRules F Cost)
  (source : Source) (content : Str → List UInt8)

/-- The rows of the files as they are. -/
def fileRows (file : FileSig Str) : List (UsageRow F Cost) :=
  source.rows rules file.path (content file.path)

/-- `collect()`. -/
def collectSource (files : List (FileSig Str)) : List (UsageEntry F Cost) :=
  (collect UsageEntry.timestamp source.sorts (files.map (fileRows rules source content))).map
    Prod.snd

/-- `sync_files` into an empty store, then `query_entries`. -/
def storeSource (config : Config) (durable : Bool) (files : List (FileSig Str)) :
    Option (List (UsageEntry F Cost)) :=
  storedEntries UsageEntry.timestamp source.sorts bindable (fileRows rules source content) config
    durable files

/-- What the store needs of the files. -/
structure StoreAgrees (files : List (FileSig Str)) : Prop where
  bound : ∀ file ∈ files, bindable file.path
    (parseFile UsageEntry.timestamp source.sorts (fileRows rules source content file)) = true
  rows : Agrees UsageEntry.timestamp shown (files.map (fileRows rules source content))

end Store

/-! ## Sessions that share a message id -/

/-- Whole minutes as times, and no prices. -/
def wholeMinutes : SessionRules Empty Unit where
  fmt := wholeSeconds.fmt
  isZero := fun x => x.elim
  floatKey _ := .null
  repr _ := []
  toInt
    | .int n => n
    | _ => 0
  fromTimestamp _ := .invalid
  fromIsoFormat t := some (60000 * t.length)
  getCost _ _ _ _ _ := some ()
  yielded _ := []
  lower t := t
  float _ := none
  positive _ := false
  cost _ := ()
  round10 cost := cost
  digest _ := []

/-- A session with one message, whose id is `a1`. -/
def piFile (session : Char) : List UInt8 :=
  Utf8.encode ("\x7b\"type\":\"session\",\"id\":\"".toList ++ session :: "\"\x7d\n".toList ++
    "\x7b\"type\":\"message\",\"id\":\"a1\",\"timestamp\":\"t\",\"message\":".toList ++
    "\x7b\"role\":\"assistant\",\"usage\":\x7b\"output\":7\x7d\x7d\x7d\n".toList)

/-- The file of each session is named after it. -/
def piContent (path : Str) : List UInt8 :=
  if path = text "s" then piFile 's' else piFile 'u'

/-- Two times, and no prices. -/
def resumedRules : SessionRules Empty Unit :=
  { wholeMinutes with
    fromIsoFormat := fun t =>
      if t = text "2026-03-01T10:00:00+00:00" then some 1772359200000
      else if t = text "2026-03-01T10:05:00+00:00" then some 1772359500000
      else none
    digest := fun _ => text "27d7b2b6af79e8c93ba7a28fa0a63d77c4399159" }

/-- The line of a message, from its id on. -/
def messageLine (head output : String) : List Char :=
  "\x7b\"type\":\"message\",".toList ++ head.toList ++
    ",\"message\":\x7b\"role\":\"assistant\",\"usage\":\x7b\"output\":".toList ++
    output.toList ++ "\x7d\x7d\x7d\n".toList

/-- A session with a message without an id, and the file in which it is resumed: that repeats the
first message and adds one. -/
def resumedContent (path : Str) : List UInt8 :=
  let session := "\x7b\"type\":\"session\",\"id\":\"s\"\x7d\n".toList
  let first := messageLine "\"id\":\"a1\",\"timestamp\":\"2026-03-01T10:00:00Z\"" "7"
  Utf8.encode (session ++ first ++
    if path = text "log" then messageLine "\"timestamp\":\"2026-03-01T10:05:00Z\"" "5"
    else messageLine "\"id\":\"a2\",\"timestamp\":\"2026-03-01T10:05:00Z\"" "3")

end Sessions
