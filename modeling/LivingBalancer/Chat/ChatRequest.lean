import LivingBalancer.Chat.MessageCoercion
import LivingBalancer.Requests.ResponsesRequest

/-!
# A chat completions request and its mapping

`core/openai/chat_requests.py`: the fields and the checks of `ChatCompletionsRequest`, and
`to_responses_request`, which ends in the validation of a responses request. Pydantic's reading
of numbers and `str.lower` are parameters. Pydantic reports every error of a body, the model the
first.
-/

namespace ChatMapping

open PyJson Requests
open ToolCallDedupe (Obj Obj.get Obj.set asStr asObj asList)

structure ChatPydantic (F : Type) extends Pydantic F where
  isZero : F → Bool
  lower : Str → Str
  int : JsonValue F → Option ℤ
  /-- A field of type `float`, as it is dumped. -/
  number : JsonValue F → Option (JsonValue F)

variable {F : Type}

def valueError {α : Type} (message : String) : Except RequestError α := .error (.value (text message))

/-! ## Messages -/

/-- `_part_type`. -/
def partType (part : Obj F) : Option Str :=
  (shownStr (part.get "type")).or
    (if (asStr (part.get "text")).isSome then some (text "text") else none)

/-- A part for which `_reject_file_id` raises. -/
def namesFileId : JsonValue F → Bool
  | .dict part =>
    (asObj (Obj.get part "file")).any fun file => (shownStr (file.get "file_id")).isSome
  | _ => false

/-- The types of the keys that `OpenAIMessage` declares. -/
def typedMessage (message : Obj F) : Bool :=
  (["role", "refusal", "tool_call_id", "toolCallId", "call_id"].all fun key =>
    (Dict.lookup (text key) message).all fun v => (asStr v).isSome) &&
      (Dict.lookup (text "tool_calls") message).all fun v => (asList v).isSome

/-- One entry of `messages`, and `_reject_file_id` for it. -/
def readMessage (value : JsonValue F) : Except RequestError (Obj F) :=
  match asObj value with
  | none => .error (.field "messages")
  | some message =>
    if !typedMessage message then .error (.field "messages")
    else if (contentParts (message.get "content")).any namesFileId then
      valueError "file_id is not supported"
    else .ok message

def readMessageList : List (JsonValue F) → Except RequestError (List (Obj F))
  | [] => .ok []
  | value :: rest => do
    let message ← readMessage value
    let rest ← readMessageList rest
    return message :: rest

def readMessages : JsonValue F → Except RequestError (List (Obj F))
  | .list values => readMessageList values
  | _ => .error (.field "messages")

/-- A part in `_validate_user_content`. -/
def validateUserPart : JsonValue F → Except RequestError Unit
  | .str _ => .ok ()
  | .dict part =>
    match partType part with
    | none => valueError "Unsupported user content part type: None"
    | some type =>
      if among textContentPartTypes type then
        if (asStr (Obj.get part "text")).isSome then .ok ()
        else valueError "Text content parts must include a string 'text'."
      else if type = text "image_url" then
        if (asObj (Obj.get part "image_url")).any fun image => (asStr (image.get "url")).isSome then
          .ok ()
        else valueError "Image content parts must include image_url.url."
      else if type = text "input_audio" then valueError "Audio input is not supported."
      else if type = text "file" then
        if (asObj (Obj.get part "file")).isSome then .ok ()
        else valueError "File content parts must include file metadata."
      else .error (.value (text "Unsupported user content part type: " ++ type))
  | _ => valueError "User message content parts must be objects."

def validateUserParts : List (JsonValue F) → Except RequestError Unit
  | [] => .ok ()
  | part :: rest => do
    validateUserPart part
    validateUserParts rest

/-- `_validate_user_content`. -/
def validateUserContent : JsonValue F → Except RequestError Unit
  | .null | .str _ => .ok ()
  | content => validateUserParts (contentParts content)

/-- An entry in `_validate_assistant_tool_calls`. -/
def validateToolCall (index : ℕ) (toolCall : JsonValue F) : Except RequestError Unit :=
  let raise (complaint : String) : Except RequestError Unit :=
    .error (.value (text "assistant tool_calls[" ++ natText index ++ text complaint))
  match asObj toolCall with
  | none => raise "] must be an object."
  | some toolCall =>
    if (shownStr (toolCall.get "id")).isNone then raise "] must include a non-empty 'id'."
    else
      match asObj (toolCall.get "function") with
      | none => raise "] must include a 'function' object."
      | some function =>
        if (shownStr (function.get "name")).isNone then
          raise "].function must include a non-empty 'name'."
        else .ok ()

def validateToolCalls (index : ℕ) : List (JsonValue F) → Except RequestError Unit
  | [] => .ok ()
  | toolCall :: rest => do
    validateToolCall index toolCall
    validateToolCalls (index + 1) rest

/-- `_validate_assistant_tool_calls`. -/
def validateAssistantToolCalls (message : Obj F) : Except RequestError Unit :=
  match message.get "tool_calls" with
  | .null => .ok ()
  | .list toolCalls => validateToolCalls 0 toolCalls
  | _ => valueError "assistant message 'tool_calls' must be an array."

/-- `_validate_tool_message`. -/
def validateToolMessage (message : Obj F) : Except RequestError Unit :=
  if (resolvedCallId message).isSome then .ok ()
  else valueError "tool messages must include 'tool_call_id'."

/-- A message in `_validate_messages`. -/
def validateMessage (message : Obj F) : Except RequestError Unit :=
  match asStr (message.get "role") with
  | none => valueError "Each message must include a string 'role'."
  | some role =>
    if !among supportedMessageRoles role then
      .error (.value (text "Unsupported message role: " ++ role))
    else if among instructionRoles role then
      ensureTextOnlyContent .value (message.get "content") role
    else if role = text "user" then validateUserContent (message.get "content")
    else if role = text "assistant" then validateAssistantToolCalls message
    else validateToolMessage message

def validateMessageList : List (Obj F) → Except RequestError Unit
  | [] => .ok ()
  | message :: rest => do
    validateMessage message
    validateMessageList rest

/-! ## The request -/

structure ChatStreamOptions where
  includeUsage : Option Bool
  includeObfuscation : Option Bool

/-- The fields of a chat request; `settings` are those that are read on their own and sent on as
they are, or left out by the mapping. -/
structure ChatCompletionsRequest (F : Type) where
  model : Str
  messages : Option (List (Obj F))
  input : Option (JsonValue F)
  instructions : Option Str
  tools : List (JsonValue F)
  toolChoice : Option (JsonValue F)
  settings : Obj F
  responseFormat : Option (JsonValue F)
  streamOptions : Option ChatStreamOptions
  extra : Obj F

def isStop : JsonValue F → Bool
  | .str _ => true
  | .list stops => stops.all fun stop => (asStr stop).isSome
  | _ => false

def readChatToolChoice : JsonValue F → Except RequestError (JsonValue F)
  | .str t => .ok (.str t)
  | .dict choice => .ok (.dict choice)
  | _ => .error (.field "tool_choice")

def readChatTools : JsonValue F → Except RequestError (List (JsonValue F))
  | .list tools => .ok tools
  | _ => .error (.field "tools")

/-- A field `JsonValue | None`, without a null. -/
def jsonField (data : Obj F) (name : String) : Option (JsonValue F) :=
  (Dict.lookup (text name) data).filter fun value => !isNone value

section Reading

variable (py : ChatPydantic F)

/-- The settings with the reading of each. -/
def settingReaders : List (String × (JsonValue F → Option (JsonValue F))) :=
  let bool (v : JsonValue F) := (py.bool v).map JsonValue.bool
  let int (v : JsonValue F) := (py.int v).map JsonValue.int
  [("parallel_tool_calls", bool), ("stream", bool), ("temperature", py.number),
    ("top_p", py.number), ("stop", fun v => if isStop v then some v else none),
    ("n", fun v => ((py.int v).filter (· = 1)).map JsonValue.int),
    ("presence_penalty", py.number), ("frequency_penalty", py.number), ("logprobs", bool),
    ("top_logprobs", int), ("seed", int), ("service_tier", fun v => (asStr v).map JsonValue.str),
    ("max_tokens", int), ("max_completion_tokens", int), ("store", bool)]

def readSettings (data : Obj F) :
    List (String × (JsonValue F → Option (JsonValue F))) → Except RequestError (Obj F)
  | [] => .ok []
  | (name, read) :: rest => do
    let value ← optionalField data name (readWith name read)
    let others ← readSettings data rest
    return (value.toList.map fun v => (text name, v)) ++ others

def readStreamOptions : JsonValue F → Except RequestError ChatStreamOptions
  | .dict options => do
    let includeUsage ← optionalField options "include_usage" (readWith "stream_options" py.bool)
    let includeObfuscation ←
      optionalField options "include_obfuscation" (readWith "stream_options" py.bool)
    return { includeUsage, includeObfuscation }
  | _ => .error (.field "stream_options")

def chatFieldNames : List String :=
  ["model", "messages", "input", "instructions", "tools", "tool_choice", "response_format",
    "stream_options"] ++ (settingReaders py).map Prod.fst

/-- `_validate_messages`. -/
def validateMessages (messages : Option (List (Obj F))) (input : Option (JsonValue F)) :
    Except RequestError Unit :=
  if messages.getD [] = [] then
    if input.isSome then .ok () else valueError "Provide either 'messages' or 'input'."
  else validateMessageList (messages.getD [])

/-- `ChatCompletionsRequest.model_validate`. -/
def validateChat (body : JsonValue F) : Except RequestError (ChatCompletionsRequest F) :=
  match body with
  | .dict data => do
    let model ← requiredField data "model" readModel
    let messages ← optionalField data "messages" readMessages
    let input := jsonField data "input"
    let instructions ← optionalField data "instructions" (readStr "instructions")
    let tools ← defaultField data "tools" [] readChatTools
    let toolChoice ← optionalField data "tool_choice" readChatToolChoice
    let settings ← readSettings data (settingReaders py)
    let responseFormat := jsonField data "response_format"
    let streamOptions ← optionalField data "stream_options" (readStreamOptions py)
    validateMessages messages input
    let responsesShapedPayload := decide (messages.getD [] = []) && input.isSome
    let tools ← validateToolTypes responsesShapedPayload tools
    return {
      model, messages, input, instructions, tools, toolChoice, settings, responseFormat
      streamOptions
      extra := data.filter fun p => !among (chatFieldNames py) p.1 }
  | _ => .error (.field "")

end Reading

/-! ## Tools -/

section Tools

variable (isZero : F → Bool)

/-- `tool_type or "function"`. -/
def typeOrFunction (type : JsonValue F) : JsonValue F :=
  if truthy isZero type then type else .str (text "function")

/-- A tool with a function in `_normalize_chat_tools`. -/
def flattenFunctionTool (tool function : Obj F) (name : Str) : JsonValue F :=
  let strict : Obj F := match function.get "strict" with
    | .bool strict => [(text "strict", .bool strict)]
    | _ => []
  .dict ([(text "type", typeOrFunction isZero (tool.get "type")), (text "name", .str name),
    (text "description", function.get "description"),
    (text "parameters", function.get "parameters")] ++ strict)

/-- A tool in `_normalize_chat_tools`; it may be dropped. -/
def normalizeChatTool (tool : JsonValue F) : Option (JsonValue F) := do
  let tool ← asObj tool
  match asObj (tool.get "function") with
  | some function => (shownStr (function.get "name")).map (flattenFunctionTool isZero tool function)
  | none =>
    if ((asStr (tool.get "type")).map normalizeToolType) = some (text "web_search") then
      some (.dict (normalizeTyped tool))
    else (shownStr (tool.get "name")).map fun _ => .dict tool

/-- `_normalize_chat_tools`. -/
def normalizeChatTools (tools : List (JsonValue F)) : List (JsonValue F) :=
  tools.filterMap (normalizeChatTool isZero)

/-- `_normalize_tool_choice`. -/
def normalizeChatToolChoice : JsonValue F → JsonValue F
  | .dict choice =>
    let choice : Obj F := if oneOf ["web_search_preview"] (Obj.get choice "type") then
      Obj.set choice "type" (.str (text "web_search")) else choice
    match (asObj (choice.get "function")).bind fun function => shownStr (function.get "name") with
    | some name =>
      .dict [(text "type", typeOrFunction isZero (choice.get "type")), (text "name", .str name)]
    | none => .dict choice
  | choice => choice

end Tools

/-! ## Reasoning -/

section Reasoning

variable (lower : Str → Str)

def effort (level : Str) : Obj F := [(text "effort", .str level)]

/-- `{"effort": "medium"}` of what is enabled. -/
def enabledEffort (enabled : Bool) : Option (Obj F) :=
  if enabled then some (effort (text "medium")) else none

/-- The stripped text of a value, if it is not blank. -/
def strippedStr (value : JsonValue F) : Option Str :=
  ((asStr value).map Sse.strip).filter fun t => decide (t ≠ [])

/-- What an object says about thinking: `none` where the next alias is tried. -/
def thinkingObject (thinking : Obj F) : Option (Option (Obj F)) :=
  let normalized : Obj F :=
    ((strippedStr (thinking.get "effort")).toList.map fun t => (text "effort", .str (lower t))) ++
      (strippedStr (thinking.get "summary")).toList.map fun t => (text "summary", .str t)
  if normalized ≠ [] then some (some normalized)
  else
    let type := (asStr (thinking.get "type")).map fun t => lower (Sse.strip t)
    if type = some (text "enabled") then some (enabledEffort true)
    else if type = some (text "disabled") then some none
    else match thinking.get "enabled" with
      | .bool enabled => some (enabledEffort enabled)
      | _ => none

/-- What a text says about thinking. -/
def thinkingText (t : Str) : Option (Option (Obj F)) :=
  let normalized := lower (Sse.strip t)
  if among ["low", "medium", "high", "xhigh", "max", "ultra"] normalized then
    some (some (effort normalized))
  else if among ["enabled", "true", "on"] normalized then some (enabledEffort true)
  else if among ["disabled", "false", "off"] normalized then some none
  else none

/-- `_normalize_thinking_alias`. -/
def normalizeThinkingAlias (thinking enableThinking : JsonValue F) : Option (Obj F) :=
  let said : Option (Option (Obj F)) := match thinking with
    | .bool thinking => some (enabledEffort thinking)
    | .str t => thinkingText lower t
    | .dict thinking => thinkingObject lower thinking
    | _ => none
  match said, enableThinking with
  | some said, _ => said
  | none, .bool enabled => enabledEffort enabled
  | none, _ => none

/-- `d.setdefault(k, v)` for a value that is there. -/
def setMissing (d : Obj F) (k : String) (v : Option (JsonValue F)) : Obj F :=
  if (Dict.lookup (text k) d).isSome then d else (v.map (d.set k)).getD d

def popKeys (d : Obj F) (keys : List String) : Obj F := d.filter fun p => !among keys p.1

/-- `normalize_reasoning_aliases`. -/
def normalizeReasoningAliases (payload : Obj F) : Obj F :=
  let rest := popKeys payload ["reasoningEffort", "reasoningSummary", "thinking", "enable_thinking"]
  let textOf (v : JsonValue F) : Option (JsonValue F) := (asStr v).map .str
  let reasoning := (asObj (rest.get "reasoning")).getD []
  let reasoning := setMissing reasoning "effort" (textOf (payload.get "reasoningEffort"))
  let reasoning := setMissing reasoning "summary" (textOf (payload.get "reasoningSummary"))
  let provider := (normalizeThinkingAlias lower (payload.get "thinking")
    (payload.get "enable_thinking")).getD []
  let reasoning := setMissing reasoning "effort" (Dict.lookup (text "effort") provider)
  let reasoning := setMissing reasoning "summary" (Dict.lookup (text "summary") provider)
  if reasoning = [] then rest else rest.set "reasoning" (.dict reasoning)

end Reasoning
/-! ## Response format -/

/-- `_is_json_object_response_format`. -/
def isJsonObjectResponseFormat : JsonValue F → Bool
  | .dict responseFormat => oneOf ["json_object"] (Obj.get responseFormat "type")
  | responseFormat => oneOf ["json_object"] responseFormat

/-- The pattern of `ChatResponseFormatJsonSchema.name`. -/
def isSchemaName (name : Str) : Bool :=
  decide (1 ≤ name.length ∧ name.length ≤ 64) && name.all fun c =>
    (code '0' ≤ c && c ≤ code '9') || (code 'A' ≤ c && c ≤ code 'Z')
      || (code 'a' ≤ c && c ≤ code 'z') || c == code '_' || c == code '-'

structure ChatResponseFormatJsonSchema (F : Type) where
  name : Option Str
  schema : Option (JsonValue F)
  strict : Option Bool

structure ChatResponseFormat (F : Type) where
  type : Str
  jsonSchema : Option (ChatResponseFormatJsonSchema F)

section Mapping

variable (py : ChatPydantic F)

def readJsonSchema : JsonValue F → Except RequestError (ChatResponseFormatJsonSchema F)
  | .dict data => do
    let name ← optionalField data "name" fun value => do
      let name ← readStr "name" value
      if isSchemaName name then .ok name else .error (.field "name")
    -- The alias `schema` is read before the name of the field.
    let schema := if (Dict.lookup (text "schema") data).isSome then jsonField data "schema"
      else jsonField data "schema_"
    let strict ← optionalField data "strict" (readWith "strict" py.bool)
    return { name, schema, strict }
  | _ => .error (.field "json_schema")

/-- `ChatResponseFormat.model_validate` with `_validate_schema`. -/
def readResponseFormat (data : Obj F) : Except RequestError (ChatResponseFormat F) := do
  let type ← requiredField data "type" (readStr "type")
  if type = [] then .error (.field "type")
  let jsonSchema ← optionalField data "json_schema" (readJsonSchema py)
  if type = text "json_schema" ∧ jsonSchema.isNone then
    valueError "'response_format.json_schema' is required when type is 'json_schema'."
  return { type, jsonSchema }

def unsupportedFormat {α : Type} (type : Str) : Except RequestError α :=
  .error (.value (text "Unsupported response_format.type: " ++ type))

/-- `_text_format_from_type`, as it is dumped. -/
def textFormatFromType (formatType : Str) : Except RequestError (Obj F) :=
  if among ["json_object", "text"] formatType then .ok [(text "type", .str formatType)]
  else if formatType = text "json_schema" then
    valueError "'response_format' must include 'json_schema' when type is 'json_schema'."
  else unsupportedFormat formatType

/-- `_text_format_from_parsed`, as it is dumped. -/
def textFormatFromParsed (parsed : ChatResponseFormat F) : Except RequestError (Obj F) :=
  if parsed.type = text "json_schema" then
    match parsed.jsonSchema with
    | none => valueError "'response_format.json_schema' is required when type is 'json_schema'."
    | some jsonSchema => .ok (dumpFields [("type", some (.str parsed.type)),
        ("strict", jsonSchema.strict.map .bool), ("schema", jsonSchema.schema),
        ("name", jsonSchema.name.map .str)])
  else if among ["json_object", "text"] parsed.type then .ok [(text "type", .str parsed.type)]
  else unsupportedFormat parsed.type

/-- `_response_format_to_text_format`. -/
def responseFormatToTextFormat : JsonValue F → Except RequestError (Obj F)
  | .str formatType => textFormatFromType formatType
  | .dict responseFormat => do
    let parsed ← readResponseFormat py responseFormat
    textFormatFromParsed parsed
  | _ => valueError "'response_format' must be a string or object."

/-- `_parse_text_controls`, as it is dumped. -/
def parseTextControls (controls : JsonValue F) : Except RequestError (Obj F) :=
  match controls with
  | .null => .ok []
  | .dict data => readWith "text" py.text (.dict data)
  | _ => valueError "'text' must be an object when using 'response_format'."

/-- The format stands between the verbosity and the extra fields. -/
def withFormat (controls format : Obj F) : Obj F :=
  (controls.filter fun p => decide (p.1 = text "verbosity")) ++
    (text "format", .dict format) :: controls.filter fun p => decide (p.1 ≠ text "verbosity")

/-- `_apply_response_format`. -/
def applyResponseFormat (data : Obj F) (responseFormat : JsonValue F) :
    Except RequestError (Obj F) := do
  let textControls ← parseTextControls py (data.get "text")
  if (Dict.lookup (text "format") textControls).isSome then
    valueError "Provide either 'response_format' or 'text.format', not both."
  let format ← responseFormatToTextFormat py responseFormat
  return data.set "text" (.dict (withFormat textControls format))

/-! ## Oversized images -/

/-- `_is_oversized_data_url`. -/
def isOversizedDataUrl (url : Str) : Bool :=
  let header := url.takeWhile (· ≠ code ',')
  let data := url.drop (header.length + 1)
  (text "data:").isPrefixOf url && decide (code ',' ∈ url)
    && decide (text ";base64" <:+: header)
    && decide (8 * 1024 * 1024 < (data.length * 3 / 4 : ℕ) - (data.count (code '=') : ℤ))

/-- A part that `_drop_oversized_images` drops. -/
def oversizedImage : JsonValue F → Bool
  | .dict part =>
    decide (partType part = some (text "image_url")) &&
      ((asObj (Obj.get part "image_url")).bind fun image => asStr (image.get "url")).any
        isOversizedDataUrl
  | _ => false

/-- `_drop_oversized_images`. -/
def dropOversizedImages : JsonValue F → JsonValue F
  | .null => .null
  | .str t => .str t
  | .list parts => .list (parts.filter fun part => !oversizedImage part)
  | content => if oversizedImage content then .str [] else content

/-- A message in `_sanitize_user_messages`. -/
def sanitizeUserMessage (message : Obj F) : Obj F :=
  if oneOf ["user"] (message.get "role") then
    if isNone (dropOversizedImages (message.get "content")) then message
    else message.set "content" (dropOversizedImages (message.get "content"))
  else message

/-! ## The mapping -/

/-- The members of a dump with `exclude_none=True`. -/
def excludeNone (d : Obj F) : Obj F :=
  d.filter fun p => !isNone ((Dict.lookup p.1 d).getD .null)

/-- The settings that `to_responses_request` takes out of the dump. -/
def droppedSettings : List String := ["store", "n", "max_tokens", "max_completion_tokens"]

/-- The dump of a chat request without the members that `to_responses_request` takes out first. -/
def dumpedData (chat : ChatCompletionsRequest F) : Obj F :=
  dumpFields [("model", some (.str chat.model)), ("input", chat.input),
    ("instructions", chat.instructions.map .str)] ++
    popKeys chat.settings droppedSettings ++ excludeNone chat.extra

/-- The reasoning effort and the aliases of the reasoning. -/
def withReasoning (lower : Str → Str) (data : Obj F) : Obj F :=
  let rest := popKeys data ["reasoning_effort"]
  normalizeReasoningAliases lower
    (setMissing rest "reasoning" ((Dict.lookup (text "reasoning_effort") data).map fun level =>
      .dict [(text "effort", level)]))

def withResponseFormat (data : Obj F) : Option (JsonValue F) → Except RequestError (Obj F)
  | some responseFormat => applyResponseFormat py data responseFormat
  | none => .ok data

/-- The data of the responses request, but for what comes of the messages. -/
def responsesData (chat : ChatCompletionsRequest F) : Except RequestError (Obj F) := do
  let data ← withResponseFormat py (withReasoning py.lower (dumpedData chat)) chat.responseFormat
  return ((chat.streamOptions.bind ChatStreamOptions.includeObfuscation).map fun obfuscation =>
    data.set "stream_options" (.dict [(text "include_obfuscation", .bool obfuscation)])).getD data

def setToolChoice (data : Obj F) (toolChoice : Option (JsonValue F)) : Obj F :=
  (toolChoice.map (data.set "tool_choice")).getD data

/-- The data of a payload that has the shape of a responses request already. -/
def responsesShapedData (chat : ChatCompletionsRequest F) (data : Obj F) : Obj F :=
  let data := if (asStr (data.get "instructions")).isSome then data
    else data.set "instructions" (.str [])
  setToolChoice (data.set "tools" (.list chat.tools)) chat.toolChoice

def preservesInstructionRoles (chat : ChatCompletionsRequest F) : Bool :=
  chat.responseFormat.any isJsonObjectResponseFormat

/-- The data with the messages as instructions and input. -/
def conversationData (chat : ChatCompletionsRequest F) (messages : List (Obj F)) (data : Obj F) :
    Except ChatError (Obj F) := do
  let (instructions, inputItems) ← coerceMessages py.isZero (preservesInstructionRoles chat)
    ((asStr (data.get "instructions")).getD [])
    (messages.map fun message => .dict (sanitizeUserMessage (excludeNone message)))
  let data := (popKeys data ["instructions", "input"]).set "instructions" (.str instructions)
  let data := (data.set "input" (.list inputItems)).set "tools"
    (.list (normalizeChatTools py.isZero chat.tools))
  return setToolChoice data (chat.toolChoice.map (normalizeChatToolChoice py.isZero))

/-- The data of the responses request. -/
def mappedData (chat : ChatCompletionsRequest F) (data : Obj F) : Except ChatError (Obj F) :=
  match chat.messages with
  | none => .ok (responsesShapedData chat data)
  | some messages =>
    if messages = [] ∧ (Dict.lookup (text "input") data).isSome then
      .ok (responsesShapedData chat data)
    else conversationData py chat messages data

/-- `ChatCompletionsRequest.to_responses_request`. -/
def toResponsesRequest (chat : ChatCompletionsRequest F) : Except ChatError (ResponsesRequest F) := do
  let data ← (responsesData py chat).mapError .request
  let data ← mappedData py chat data
  (validate py.toPydantic (.dict data)).mapError .request

end Mapping
end ChatMapping
