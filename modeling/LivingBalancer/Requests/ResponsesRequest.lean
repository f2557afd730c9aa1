import LivingBalancer.Requests.InputItems

/-!
# A responses request, its validation and its dumps

`ResponsesRequest` with its field validators, the plain `model_dump(mode="json",
exclude_none=True)` and `model_dump_for_forwarding`, which leaves out `tools` when the client
has not sent them. Pydantic's reading of Booleans and of the two nested models is a parameter
that reads back what it dumps. Pydantic reports every error of a body, the model the first.
-/

namespace Requests

open PyJson
open ToolCallDedupe (Obj Obj.get Obj.set asStr asObj asList)

/-- Python and pydantic; a nested model is given by its dump. -/
structure Pydantic (F : Type) extends Python F where
  bool : JsonValue F → Option Bool
  reasoning : JsonValue F → Option (Obj F)
  text : JsonValue F → Option (Obj F)
  bool_dump : ∀ b, bool (.bool b) = some b
  reasoning_dump : ∀ v d, reasoning v = some d → reasoning (.dict d) = some d
  text_dump : ∀ v d, text v = some d → text (.dict d) = some d

variable {F : Type}

/-! ## Field validators -/

def responsesIncludeAllowlist : List String :=
  ["code_interpreter_call.outputs", "computer_call_output.output.image_url",
    "file_search_call.results", "message.input_image.image_url", "message.output_text.logprobs",
    "reasoning.encrypted_content", "web_search_call.action.sources"]

def unsupportedToolTypes : List String :=
  ["file_search", "code_interpreter", "computer_use", "computer_use_preview",
    "image_generation"]

/-- `normalize_tool_type` with `_TOOL_TYPE_ALIASES`. -/
def normalizeToolType (toolType : Str) : Str :=
  if toolType = text "web_search_preview" then text "web_search" else toolType

/-- An object with the alias of its type replaced. -/
def normalizeTyped (d : Obj F) : Obj F :=
  match asStr (d.get "type") with
  | some toolType =>
    if normalizeToolType toolType = toolType then d
    else d.set "type" (.str (normalizeToolType toolType))
  | none => d

/-- `normalize_tool_choice`. -/
def normalizeToolChoice : JsonValue F → JsonValue F
  | .dict choice => .dict (normalizeTyped choice)
  | choice => choice

/-- A tool in `validate_tool_types`. -/
def validateToolType (allowBuiltinTools : Bool) : JsonValue F → Except RequestError (JsonValue F)
  | .dict tool =>
    match asStr ((normalizeTyped tool).get "type") with
    | some toolType =>
      if !allowBuiltinTools && among unsupportedToolTypes toolType then
        .error (.value (text "Unsupported tool type: " ++ toolType))
      else .ok (.dict (normalizeTyped tool))
    | none => .ok (.dict (normalizeTyped tool))
  | tool => .ok tool

/-- `validate_tool_types`. -/
def validateToolTypes (allowBuiltinTools : Bool) :
    List (JsonValue F) → Except RequestError (List (JsonValue F))
  | [] => .ok []
  | tool :: rest => do
    let tool ← validateToolType allowBuiltinTools tool
    let rest ← validateToolTypes allowBuiltinTools rest
    return tool :: rest

def readStr (name : String) (value : JsonValue F) : Except RequestError Str :=
  match asStr value with
  | some t => .ok t
  | none => .error (.field name)

/-- `model: str = Field(min_length=1)`. -/
def readModel (value : JsonValue F) : Except RequestError Str := do
  let model ← readStr "model" value
  if model = [] then .error (.field "model") else .ok model

/-- `_validate_input_type`. -/
def readInput (py : Python F) : JsonValue F → Except RequestError (List (JsonValue F))
  | .str t => sanitizeInputItems py (normalizeInputText t)
  | .list items => sanitizeInputItems py items
  | _ => .error (.value (text "input must be a string or array"))

def readTools : JsonValue F → Except RequestError (List (JsonValue F))
  | .list tools => validateToolTypes true tools
  | _ => .error (.field "tools")

def readToolChoice : JsonValue F → Except RequestError (JsonValue F)
  | .str t => .ok (normalizeToolChoice (.str t))
  | .dict choice => .ok (normalizeToolChoice (.dict choice))
  | _ => .error (.field "tool_choice")

/-- A field that pydantic reads on its own. -/
def readWith {α : Type} (name : String) (read : JsonValue F → Option α) (value : JsonValue F) :
    Except RequestError α :=
  match read value with
  | some x => .ok x
  | none => .error (.field name)

/-- `_ensure_store_false`. -/
def readStore (bool : JsonValue F → Option Bool) (value : JsonValue F) : Except RequestError Bool :=
  (readWith "store" bool value).map fun _ => false

/-- `_validate_include`. -/
def validateInclude : List Str → Except RequestError (List Str)
  | [] => .ok []
  | entry :: rest =>
    if among responsesIncludeAllowlist entry then (validateInclude rest).map (entry :: ·)
    else .error (.value (text "Unsupported include value: " ++ entry))

def readStrs (name : String) : List (JsonValue F) → Except RequestError (List Str)
  | [] => .ok []
  | v :: rest => do
    let t ← readStr name v
    let rest ← readStrs name rest
    return t :: rest

def readInclude : JsonValue F → Except RequestError (List Str)
  | .list entries => do
    let entries ← readStrs "include" entries
    validateInclude entries
  | _ => .error (.field "include")

def asciiLower (c : ℕ) : ℕ := if code 'A' ≤ c ∧ c ≤ code 'Z' then c + 32 else c

/-- `_normalize_service_tier_alias_value`. No character outside ASCII has one of the letters of
`fast` as its lower case, so the ASCII lower case suffices. -/
def normalizeServiceTierAliasValue (t : Str) : Str :=
  if (Sse.strip t).map asciiLower = text "fast" then text "priority" else t

def readServiceTier (value : JsonValue F) : Except RequestError Str :=
  (readStr "service_tier" value).map normalizeServiceTierAliasValue

/-- `_normalize_previous_response_id`. -/
def normalizePreviousResponseId (t : Str) : Option Str :=
  if Sse.strip t = [] then none else some (Sse.strip t)

/-- `_validate_truncation`. -/
def readTruncation (value : JsonValue F) : Except RequestError Str := do
  let truncation ← readStr "truncation" value
  if truncation = text "auto" ∨ truncation = text "disabled" then .ok truncation
  else .error (.value (text "truncation must be 'auto' or 'disabled'"))

/-! ## Fields -/

def requiredField {α : Type} (data : Obj F) (name : String)
    (read : JsonValue F → Except RequestError α) : Except RequestError α :=
  match Dict.lookup (text name) data with
  | some value => read value
  | none => .error (.field name)

def defaultField {α : Type} (data : Obj F) (name : String) (default : α)
    (read : JsonValue F → Except RequestError α) : Except RequestError α :=
  match Dict.lookup (text name) data with
  | some value => read value
  | none => .ok default

/-- A field `T | None = None`. -/
def optionalField {α : Type} (data : Obj F) (name : String)
    (read : JsonValue F → Except RequestError α) : Except RequestError (Option α) :=
  match Dict.lookup (text name) data with
  | some .null => .ok none
  | some value => (read value).map some
  | none => .ok none

structure ResponsesRequest (F : Type) where
  model : Str
  instructions : Str
  input : List (JsonValue F)
  tools : List (JsonValue F)
  /-- `"tools" in model_fields_set` -/
  toolsSent : Bool
  toolChoice : Option (JsonValue F)
  parallelToolCalls : Option Bool
  reasoning : Option (Obj F)
  store : Bool
  stream : Option Bool
  include_ : List Str
  serviceTier : Option Str
  conversation : Option Str
  previousResponseId : Option Str
  truncation : Option Str
  promptCacheKey : Option Str
  text : Option (Obj F)
  extra : Obj F

def fieldNames : List String :=
  ["model", "instructions", "input", "tools", "tool_choice", "parallel_tool_calls", "reasoning",
    "store", "stream", "include", "service_tier", "conversation", "previous_response_id",
    "truncation", "prompt_cache_key", "text"]

/-- `_validate_conversation`: both are texts that are not empty. -/
def conversationConflict (conversation previousResponseId : Option Str) : Bool :=
  conversation.any (· ≠ []) && previousResponseId.any (· ≠ [])

section Validation

variable (py : Pydantic F)

/-- The fields of an object behind the validator that hoists instructions. -/
def validateFields (data : Obj F) : Except RequestError (ResponsesRequest F) := do
  let model ← requiredField data "model" readModel
  let instructions ← requiredField data "instructions" (readStr "instructions")
  let input ← requiredField data "input" (readInput py.toPython)
  let tools ← defaultField data "tools" [] readTools
  let toolChoice ← optionalField data "tool_choice" readToolChoice
  let parallelToolCalls ← optionalField data "parallel_tool_calls"
    (readWith "parallel_tool_calls" py.bool)
  let reasoning ← optionalField data "reasoning" (readWith "reasoning" py.reasoning)
  let store ← defaultField data "store" false (readStore py.bool)
  let stream ← optionalField data "stream" (readWith "stream" py.bool)
  let include_ ← defaultField data "include" [] readInclude
  let serviceTier ← optionalField data "service_tier" readServiceTier
  let conversation ← optionalField data "conversation" (readStr "conversation")
  let previousResponseId ← optionalField data "previous_response_id" (readStr "previous_response_id")
  let truncation ← optionalField data "truncation" readTruncation
  let promptCacheKey ← optionalField data "prompt_cache_key" (readStr "prompt_cache_key")
  let controls ← optionalField data "text" (readWith "text" py.text)
  let previousResponseId := previousResponseId.bind normalizePreviousResponseId
  if conversationConflict conversation previousResponseId then
    throw (.value (PyJson.text "Provide either 'conversation' or 'previous_response_id', not both."))
  return {
    model, instructions, input, tools
    toolsSent := (Dict.lookup (PyJson.text "tools") data).isSome
    toolChoice, parallelToolCalls, reasoning, store, stream, include_, serviceTier, conversation
    previousResponseId, truncation, promptCacheKey
    text := controls
    extra := data.filter fun p => !among fieldNames p.1 }

/-- `ResponsesRequest.model_validate`. -/
def validate (body : JsonValue F) : Except RequestError (ResponsesRequest F) :=
  match body with
  | .dict data => validateFields py (normalizeResponsesInputInstructions data)
  | _ => .error (.field "")

end Validation

/-! ## Dumps -/

/-- The fields that are not `None`, under their names. -/
def dumpFields (fields : List (String × Option (JsonValue F))) : Obj F :=
  fields.filterMap fun p => p.2.map fun v => (text p.1, v)

namespace ResponsesRequest

def fields (r : ResponsesRequest F) : List (String × Option (JsonValue F)) :=
  [("model", some (.str r.model)), ("instructions", some (.str r.instructions)),
    ("input", some (.list r.input)), ("tools", some (.list r.tools)),
    ("tool_choice", r.toolChoice), ("parallel_tool_calls", r.parallelToolCalls.map .bool),
    ("reasoning", r.reasoning.map .dict), ("store", some (.bool r.store)),
    ("stream", r.stream.map .bool), ("include", some (.list (r.include_.map .str))),
    ("service_tier", r.serviceTier.map .str), ("conversation", r.conversation.map .str),
    ("previous_response_id", r.previousResponseId.map .str),
    ("truncation", r.truncation.map .str), ("prompt_cache_key", r.promptCacheKey.map .str),
    ("text", r.text.map .dict)]

/-- `model_dump(mode="json", exclude_none=True)`. -/
def modelDump (r : ResponsesRequest F) : Obj F :=
  dumpFields r.fields ++ r.extra.filter fun p => !isNone p.2

def modelDumpForForwarding (r : ResponsesRequest F) : Obj F :=
  if r.toolsSent then r.modelDump else r.modelDump.filter fun p => decide (p.1 ≠ PyJson.text "tools")

end ResponsesRequest

end Requests
