import LivingBalancer.Chat.ToolCallDeltas
import LivingBalancer.Proxy.SseEvents

/-!
# Streamed and collected chat completions

`core/openai/chat_responses.py`: `stream_chat_chunks` answers each upstream event with chunks
at once, `collect_chat_completion` reads the events to the end. The clock and Python's
`float(text)` are parameters, and the fields of the response models take every text.
-/

namespace Chat

open PyJson
open ToolCallDedupe (Obj Obj.get asStr asObj)

/-! ## Usage and errors -/

structure ResponseUsageDetails where
  cachedTokens : Option ℤ
  reasoningTokens : Option ℤ
  deriving DecidableEq

structure ResponseUsage where
  inputTokens : Option ℤ
  outputTokens : Option ℤ
  totalTokens : Option ℤ
  inputTokensDetails : Option ResponseUsageDetails
  outputTokensDetails : Option ResponseUsageDetails
  deriving DecidableEq

/-- `ChatCompletionUsage`; a details object has one field, which is set. -/
structure ChatCompletionUsage where
  promptTokens : Option ℤ
  completionTokens : Option ℤ
  totalTokens : Option ℤ
  cachedTokens : Option ℤ
  reasoningTokens : Option ℤ
  deriving DecidableEq

structure OpenAIError (F : Type) where
  message : Option Str := none
  type : Option Str := none
  code : Option Str := none
  param : Option Str := none
  planType : Option Str := none
  resetsAt : Option (JsonValue F) := none
  resetsInSeconds : Option (JsonValue F) := none

section Payloads

variable {F : Type}

/-- A field `StrictInt | None`; `none` is a validation error. -/
def strictInt : JsonValue F → Option (Option ℤ)
  | .null => some none
  | .int n => some (some n)
  | _ => none

def usageDetails : JsonValue F → Option (Option ResponseUsageDetails)
  | .null => some none
  | .dict details => do
    let cachedTokens ← strictInt (Obj.get details "cached_tokens")
    let reasoningTokens ← strictInt (Obj.get details "reasoning_tokens")
    return some ⟨cachedTokens, reasoningTokens⟩
  | _ => none

/-- `_parse_usage`. -/
def parseUsage (value : JsonValue F) : Option ResponseUsage := do
  let usage ← asObj value
  let inputTokens ← strictInt (usage.get "input_tokens")
  let outputTokens ← strictInt (usage.get "output_tokens")
  let totalTokens ← strictInt (usage.get "total_tokens")
  let inputTokensDetails ← usageDetails (usage.get "input_tokens_details")
  let outputTokensDetails ← usageDetails (usage.get "output_tokens_details")
  return ⟨inputTokens, outputTokens, totalTokens, inputTokensDetails, outputTokensDetails⟩

/-- `_map_usage`. -/
def mapUsage (usage : Option ResponseUsage) : Option ChatCompletionUsage :=
  usage.bind fun usage =>
    if usage.inputTokens.isNone && usage.outputTokens.isNone && usage.totalTokens.isNone then none
    else some
      { promptTokens := usage.inputTokens
        completionTokens := usage.outputTokens
        totalTokens := usage.totalTokens
        cachedTokens := usage.inputTokensDetails.bind (·.cachedTokens)
        reasoningTokens := usage.outputTokensDetails.bind (·.reasoningTokens) }

/-- `_finish_reason_from_incomplete`. -/
def finishReasonFromIncomplete (response : JsonValue F) : Str :=
  match asStr (getIn (asObj (getIn (asObj response) "incomplete_details")) "reason") with
  | some reason =>
    if reason = text "max_output_tokens" ∨ reason = text "max_tokens" then text "length"
    else if reason = text "content_filter" then text "content_filter"
    else text "stop"
  | none => text "stop"

/-- `_coerce_number`; a `bool` is an `int`. -/
def coerceNumber (floatOfText : Str → Option (PyFloat F)) : JsonValue F → Option (JsonValue F)
  | .int n => some (.int n)
  | .bool b => some (.bool b)
  | .float x => some (.float x)
  | .str t => (floatOfText (Sse.strip t)).map .float
  | _ => none

/-- A number of the normalized payload as `StrictInt | StrictFloat`, which is no `bool`. -/
def strictNumber : Option (JsonValue F) → Option (Option (JsonValue F))
  | some (.bool _) => none
  | number => some number

def defaultErrorEnvelope : OpenAIError F where
  message := some (text "Upstream error")
  type := some (text "server_error")
  code := some (text "upstream_error")

/-- `_error_envelope_from_payload` with `_normalize_error_payload`. -/
def errorEnvelopeFromPayload (floatOfText : Str → Option (PyFloat F)) (payload : Obj F) :
    OpenAIError F :=
  let texts := ["message", "type", "code", "param", "plan_type"].map fun key =>
    asStr (payload.get key)
  let numbers := ["resets_at", "resets_in_seconds"].map fun key =>
    coerceNumber floatOfText (payload.get key)
  if texts.all Option.isNone && numbers.all Option.isNone then defaultErrorEnvelope
  else
    let validated : Option (OpenAIError F) := do
      let resetsAt ← strictNumber (coerceNumber floatOfText (payload.get "resets_at"))
      let resetsInSeconds ← strictNumber (coerceNumber floatOfText (payload.get "resets_in_seconds"))
      return ⟨asStr (payload.get "message"), asStr (payload.get "type"), asStr (payload.get "code"),
        asStr (payload.get "param"), asStr (payload.get "plan_type"), resetsAt, resetsInSeconds⟩
    validated.getD defaultErrorEnvelope

/-- The error object of a `response.failed` or `error` event. -/
def errorObject (payload : Obj F) : Option (Obj F) :=
  if asStr (payload.get "type") = some (text "response.failed") then
    asObj (getIn (asObj (payload.get "response")) "error")
  else asObj (payload.get "error")

end Payloads

/-! ## Chunks -/

structure ChatToolCallDelta where
  index : ℕ
  id : Option Str
  type : Str
  function : Option ToolCallFunction
  deriving DecidableEq

def ToolCallDelta.toChunkCall (delta : ToolCallDelta) : ChatToolCallDelta where
  index := delta.index
  id := delta.callId
  type := orElse delta.toolType (text "function")
  function := buildToolCallFunction delta.name delta.arguments

structure ChatChunkDelta where
  role : Option Str := none
  content : Option Str := none
  refusal : Option Str := none
  toolCalls : Option (List ChatToolCallDelta) := none
  deriving DecidableEq

structure ChatChunkChoice where
  index : ℕ
  delta : ChatChunkDelta
  finishReason : Option Str
  deriving DecidableEq

structure ChatCompletionChunk where
  created : ℤ
  model : Str
  choices : List ChatChunkChoice
  usage : Option ChatCompletionUsage := none
  deriving DecidableEq

/-- What the stream yields: a chunk, an error payload or the end marker. -/
inductive Output (F : Type) where
  | chunk (chunk : ChatCompletionChunk)
  | error (error : Obj F)
  | done

section Text

variable {F : Type}

def member (key : String) (value : Option (JsonValue F)) : Obj F :=
  value.toList.map fun v => (text key, v)

def dumpFunction (function : ToolCallFunction) : JsonValue F :=
  .dict (member "name" (function.name.map .str) ++ member "arguments" (function.arguments.map .str))

def dumpToolCall (call : ChatToolCallDelta) : JsonValue F :=
  .dict ([(text "index", .int call.index)] ++ member "id" (call.id.map .str)
    ++ [(text "type", .str call.type)] ++ member "function" (call.function.map dumpFunction))

def dumpDelta (delta : ChatChunkDelta) : JsonValue F :=
  .dict (member "role" (delta.role.map .str) ++ member "content" (delta.content.map .str)
    ++ member "refusal" (delta.refusal.map .str)
    ++ member "tool_calls" (delta.toolCalls.map fun calls => .list (calls.map dumpToolCall)))

def dumpChoice (choice : ChatChunkChoice) : JsonValue F :=
  .dict ([(text "index", .int choice.index), (text "delta", dumpDelta choice.delta)]
    ++ member "finish_reason" (choice.finishReason.map .str))

def dumpUsage (usage : ChatCompletionUsage) : JsonValue F :=
  .dict (member "prompt_tokens" (usage.promptTokens.map .int)
    ++ member "completion_tokens" (usage.completionTokens.map .int)
    ++ member "total_tokens" (usage.totalTokens.map .int)
    ++ member "prompt_tokens_details"
      (usage.cachedTokens.map fun n => .dict [(text "cached_tokens", .int n)])
    ++ member "completion_tokens_details"
      (usage.reasoningTokens.map fun n => .dict [(text "reasoning_tokens", .int n)]))

/-- `_dump_chunk` before it is written: `exclude_none`, and a null usage where it is asked for. -/
def dumpChunk (chunk : ChatCompletionChunk) (includeUsage : Bool) : Obj F :=
  [(text "id", .str (text "chatcmpl_temp")), (text "object", .str (text "chat.completion.chunk")),
    (text "created", .int chunk.created), (text "model", .str chunk.model),
    (text "choices", .list (chunk.choices.map dumpChoice))]
  ++ member "usage" (match chunk.usage with
    | some usage => some (dumpUsage usage)
    | none => if includeUsage then some .null else none)

/-- The text that is yielded. -/
def Output.text (fmt : FloatText F) (includeUsage : Bool) : Output F → Str
  | .chunk c => Sse.formatSseData fmt (dumpChunk c includeUsage)
  | .error e => Sse.formatSseData fmt [(PyJson.text "error", .dict e)]
  | .done => PyJson.text "data: [DONE]\n\n"

end Text

/-! ## The stream -/

/-- The arguments of a completion, and what it takes from the clock and from Python. -/
structure ChatConfig (F : Type) where
  fmt : FloatText F
  floatOfText : Str → Option (PyFloat F)
  model : Str
  created : ℤ
  includeUsage : Bool

/-- `_ChatChunkState`. -/
structure ChatChunkState where
  toolIndex : ToolCallIndex
  toolCalls : List ToolCallState
  sawToolCall : Bool
  sentRole : Bool

def ChatChunkState.start : ChatChunkState := ⟨.start, [], false, false⟩

section Stream

variable {F : Type} (cfg : ChatConfig F)

/-- `_parse_data`, without the payloads that are false. -/
def parseData (line : Str) : Option (Obj F) :=
  (Sse.parseSseDataJson cfg.fmt line).filter fun payload => !payload.isEmpty

def eventType (payload : Obj F) : Option Str := asStr (payload.get "type")

def isErrorEvent (payload : Obj F) : Bool :=
  decide (eventType payload = some (text "response.failed") ∨ eventType payload = some (text "error"))

def isCompletionEvent (payload : Obj F) : Bool :=
  decide (eventType payload = some (text "response.completed") ∨
    eventType payload = some (text "response.incomplete"))

/-- A chunk with one choice, which sends the role if nothing has sent it yet. -/
def yieldDelta (delta : ChatChunkDelta) (st : ChatChunkState) : Output F × ChatChunkState :=
  let role := if st.sentRole then none else some (text "assistant")
  (.chunk { created := cfg.created, model := cfg.model, choices := [⟨0, { delta with role }, none⟩] },
    { st with sentRole := st.sentRole || role.isSome })

def textChunks (payload : Obj F) (st : ChatChunkState) : List (Output F) × ChatChunkState :=
  let deltaText := asStr (payload.get "delta")
  if eventType payload = some (text "response.refusal.delta") then
    let (chunk, st) := yieldDelta cfg { refusal := deltaText } st
    ([chunk], st)
  else if eventType payload = some (text "response.output_text.delta") then
    let (chunk, st) := yieldDelta cfg { content := deltaText } st
    ([chunk], st)
  else ([], st)

/-- The chunk for a slot, if its call has anything to send. -/
def sendCall (i : ℕ) (st : ChatChunkState) : List (Output F) × ChatChunkState :=
  match st.toolCalls[i]? with
  | none => ([], st)
  | some call =>
    match call.buildStreamDelta with
    | (none, _) => ([], st)
    | (some delta, call) =>
      let st := { st with toolCalls := st.toolCalls.set i call, sawToolCall := true }
      let (chunk, st) := yieldDelta cfg { toolCalls := some [delta.toChunkCall] } st
      ([chunk], st)

def toolChunks (payload : Obj F) (st : ChatChunkState) : List (Output F) × ChatChunkState :=
  match toolCallDeltaFromPayload payload st.toolIndex with
  | (none, toolIndex) => ([], { st with toolIndex })
  | (some delta, toolIndex) =>
    sendCall cfg delta.index
      { st with toolIndex, toolCalls := mergeToolCallDelta st.toolCalls delta }

/-- The loop over the slots when the response is complete. -/
def flushCalls : List ℕ → ChatChunkState → List (Output F) × ChatChunkState
  | [], st => ([], st)
  | i :: rest, st =>
    let (chunks, st) := sendCall cfg i st
    let (more, st) := flushCalls rest st
    (chunks ++ more, st)

/-- The finish reason of the stream. -/
def streamFinishReason (payload : Obj F) (sawToolCall : Bool) : Str :=
  if sawToolCall then text "tool_calls"
  else if eventType payload = some (text "response.incomplete") then
    finishReasonFromIncomplete (payload.get "response")
  else text "stop"

/-- The chunk with the finish reason and, if it is asked for, the one with the usage. -/
def finishChunks (payload : Obj F) (st : ChatChunkState) : List (Output F) :=
  let usage := if cfg.includeUsage then
    (asObj (payload.get "response")).bind fun response =>
      mapUsage (parseUsage (response.get "usage")) else none
  let finishReason := streamFinishReason payload st.sawToolCall
  [.chunk { created := cfg.created, model := cfg.model, choices := [⟨0, {}, some finishReason⟩] }]
  ++ (if cfg.includeUsage then
      [.chunk { created := cfg.created, model := cfg.model, choices := [], usage }] else [])

/-- What one event yields, and whether the generator returns on it. -/
def eventChunks (payload : Obj F) (st : ChatChunkState) :
    List (Output F) × ChatChunkState × Bool :=
  let (texts, st) := textChunks cfg payload st
  let (calls, st) := toolChunks cfg payload st
  match if isErrorEvent payload then errorObject payload else none with
  | some error => (texts ++ calls ++ [.error error, .done], st, true)
  | none =>
    if isCompletionEvent payload then
      let (flushed, st) := flushCalls cfg (List.range st.toolCalls.length) st
      (texts ++ calls ++ flushed ++ finishChunks cfg payload st ++ [.done], st, true)
    else (texts ++ calls, st, false)

/-- `iter_chat_chunks`. -/
def iterChatChunks : List Str → ChatChunkState → List (Output F) × ChatChunkState
  | [], st => ([], st)
  | line :: rest, st =>
    match parseData cfg line with
    | none => iterChatChunks rest st
    | some payload =>
      match eventChunks cfg payload st with
      | (chunks, st, true) => (chunks, st)
      | (chunks, st, false) =>
        let (more, st) := iterChatChunks rest st
        (chunks ++ more, st)

/-- The inner loop of `stream_chat_chunks`, which breaks behind the end marker. -/
def forwardChunks : List (Output F) → List (Output F) × Bool
  | [] => ([], false)
  | chunk :: rest =>
    if Sse.strip (chunk.text cfg.fmt cfg.includeUsage) = text "data: [DONE]" then ([chunk], true)
    else
      let (more, terminalChunkSent) := forwardChunks rest
      (chunk :: more, terminalChunkSent)

def streamFrom : List Str → Bool → ChatChunkState → List (Output F)
  | [], _, _ => []
  | _ :: rest, true, st => streamFrom rest true st
  | line :: rest, false, st =>
    let (chunks, st) := iterChatChunks cfg [line] st
    let (sent, terminalChunkSent) := forwardChunks cfg chunks
    sent ++ streamFrom rest terminalChunkSent st

/-- `stream_chat_chunks`. -/
def streamChatChunks (stream : List Str) : List (Output F) := streamFrom cfg stream false .start

end Stream

/-! ## The collected completion -/

structure ChatCompletionMessage where
  content : Option Str
  refusal : Option Str
  toolCalls : Option (List MessageToolCall)
  deriving DecidableEq

/-- `ChatCompletion`; it has one choice. -/
structure ChatCompletion where
  id : Str
  created : ℤ
  model : Str
  message : ChatCompletionMessage
  finishReason : Str
  usage : Option ChatCompletionUsage
  deriving DecidableEq

inductive ChatCompletionResult (F : Type) where
  | completion (completion : ChatCompletion)
  | error (error : OpenAIError F)

/-- The local variables of `collect_chat_completion`. -/
structure Collecting where
  contentParts : List Str
  refusalParts : List Str
  responseId : Option Str
  usage : Option ResponseUsage
  incompleteReason : Option Str
  toolIndex : ToolCallIndex
  toolCalls : List ToolCallState

def Collecting.start : Collecting := ⟨[], [], none, none, none, .start, []⟩

section Collect

variable {F : Type} (cfg : ChatConfig F)

/-- The assignments on a completed or incomplete response. -/
def collectResponse (payload : Obj F) (c : Collecting) : Collecting :=
  match asObj (payload.get "response") with
  | none => c
  | some response =>
    { c with
      responseId := (asStr (response.get "id")).or c.responseId
      usage := parseUsage (response.get "usage")
      incompleteReason :=
        if eventType payload = some (text "response.incomplete") then
          some (finishReasonFromIncomplete (.dict response))
        else c.incompleteReason }

/-- The text and the tool call of an event. -/
def collectParts (payload : Obj F) (c : Collecting) : Collecting :=
  let delta := (asStr (payload.get "delta")).toList
  let (toolDelta, toolIndex) := toolCallDeltaFromPayload payload c.toolIndex
  { c with
    contentParts := c.contentParts ++
      if eventType payload = some (text "response.output_text.delta") then delta else []
    refusalParts := c.refusalParts ++
      if eventType payload = some (text "response.refusal.delta") then delta else []
    toolIndex
    toolCalls := match toolDelta with
      | some delta => mergeToolCallDelta c.toolCalls delta
      | none => c.toolCalls }

/-- The completion when the stream has ended. -/
def finishCollecting (c : Collecting) : ChatCompletion :=
  let content := c.contentParts.flatten
  let refusal := c.refusalParts.flatten
  let toolCalls := compactToolCalls c.toolCalls
  { id := orElse c.responseId (text "chatcmpl_temp")
    created := cfg.created
    model := cfg.model
    message :=
      { content := if (toolCalls ≠ [] ∨ refusal ≠ []) ∧ content = [] then none else some content
        refusal := if refusal = [] then none else some refusal
        toolCalls := if toolCalls = [] then none else some toolCalls }
    finishReason :=
      if toolCalls ≠ [] then text "tool_calls" else orElse c.incompleteReason (text "stop")
    usage := mapUsage c.usage }

def collectFrom : List Str → Collecting → ChatCompletionResult F
  | [], c => .completion (finishCollecting cfg c)
  | line :: rest, c =>
    match parseData cfg line with
    | none => collectFrom rest c
    | some payload =>
      let c := collectParts payload c
      if isErrorEvent payload then
        .error (match errorObject payload with
          | some error => errorEnvelopeFromPayload cfg.floatOfText error
          | none => defaultErrorEnvelope)
      else if isCompletionEvent payload then collectFrom rest (collectResponse payload c)
      else collectFrom rest c

/-- `collect_chat_completion`. -/
def collectChatCompletion (stream : List Str) : ChatCompletionResult F :=
  collectFrom cfg stream .start

end Collect

end Chat
