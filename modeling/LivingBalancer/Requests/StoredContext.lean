import LivingBalancer.Lib.JsonAscii
import LivingBalancer.Requests.InputItems

/-!
# Stored context of a conversation

What both transports compute of an input: its fingerprint, whether it extends the input of the
last completed turn, the leading items that repeat the previous response, and the outputs of
tool calls that an interrupted turn left open. A value that is no text is in no set of texts.
-/

namespace Continuity

open PyJson
open ToolCallDedupe (Obj Obj.get Obj.set asStr asObj asList)
open Requests (oneOf among shownStr)

variable {F : Type}

/-- What is taken from outside: the floats, `sha256(text.encode()).hexdigest()`, and the input
that a retained request text holds of an input (`None` where the text stays too large). -/
structure Host (F : Type) where
  fmt : FloatText F
  sha256 : Str → Str
  retained : JsonValue F → Option (JsonValue F)

structure Payload (F : Type) where
  previousResponseId : Option Str
  input : JsonValue F

/-- `ResponsesRequest._validate_input_type`: a text becomes one user message. -/
def normalizeInputText (t : Str) : JsonValue F :=
  .list [.dict [(text "role", .str (text "user")),
    (text "content", .list [.dict [(text "type", .str (text "input_text")),
      (text "text", .str t)]])]]

def Host.fingerprintInputItems (host : Host F) (items : List (JsonValue F)) : Str :=
  host.sha256 (dumpsAscii host.fmt (JsonValue.list items).sortKeys)

def Host.inputPrefixMatchesStoredContext (host : Host F) (input : JsonValue F) (storedCount : ℕ)
    (storedFingerprint : Option Str) : Bool :=
  match storedFingerprint, asList input with
  | some stored, some items =>
    decide (0 < storedCount) && decide (storedCount < items.length) &&
      decide (host.fingerprintInputItems (items.take storedCount) = stored)
  | _, _ => false

/-- `_http_bridge_payload_looks_like_full_resend`. -/
def Host.looksLikeFullResend (host : Host F) : JsonValue F → Bool
  | .str t => decide (4096 ≤ t.length)
  | .list [] => false
  | .list [item] => decide (4096 ≤ (dumpsAscii host.fmt item).length)
  | .list (_ :: _ :: _) => true
  | _ => false

/-! ## Items of the previous response -/

/-- `_http_bridge_input_item_type`, `_websocket_input_item_type`. -/
def itemType (item : JsonValue F) : Option Str := (asObj item).bind fun d => asStr (d.get "type")

def toolCallOutputTypes : List String :=
  ["function_call_output", "custom_tool_call_output", "apply_patch_call_output"]

def isToolCallOutput (item : JsonValue F) : Bool := (itemType item).any (among toolCallOutputTypes)

def outputItemTypes : List String :=
  ["reasoning", "function_call", "custom_tool_call", "apply_patch_call"]

def isAssistant (item : JsonValue F) : Bool :=
  (asObj item).any fun d => oneOf ["assistant"] (d.get "role")

def hasHttpBridgeResponseOutputMarker (item : JsonValue F) : Bool :=
  (asObj item).any fun d =>
    (asStr (d.get "id")).any (fun t => decide (Sse.strip t ≠ [])) ||
      oneOf ["completed", "in_progress"] (d.get "status")

def isHttpBridgePreviousResponseOutputItem (item : JsonValue F) : Bool :=
  if (itemType item).any (among outputItemTypes) then hasHttpBridgeResponseOutputMarker item
  else (itemType item).any (among ["message"]) && isAssistant item &&
    hasHttpBridgeResponseOutputMarker item

def isWebsocketPreviousResponseOutputItem (item : JsonValue F) : Bool :=
  if (itemType item).isNone && isAssistant item then true
  else if (itemType item).any (among outputItemTypes) then true
  else (itemType item).any (among ["message"]) && isAssistant item

/-- `_trim_http_bridge_previous_response_input_items` and its websocket twin, which differ in
the items that they take for output of the previous response. -/
def trimPreviousResponseInputItems (isOutputItem : JsonValue F → Bool)
    (items : List (JsonValue F)) : List (JsonValue F) :=
  let leading := items.takeWhile fun item => !isToolCallOutput item
  if leading.length = items.length then items
  else if leading.all isOutputItem then items.drop leading.length
  else items

/-- The payload sent on with a previous response, and where leading items were dropped the
count and the fingerprint of the input that it came with. -/
def Host.trimPrevious (host : Host F) (isOutputItem : JsonValue F → Bool) (payload : Payload F) :
    Payload F × Option (ℕ × Str) :=
  match payload.previousResponseId, asList payload.input with
  | some _, some items =>
    if (trimPreviousResponseInputItems isOutputItem items).length = items.length then
      (payload, none)
    else
      ({ payload with input := .list (trimPreviousResponseInputItems isOutputItem items) },
        some (items.length, host.fingerprintInputItems items))
  | _, _ => (payload, none)

/-! ## Interrupted tool calls -/

/-- The call ids of a response that wait for an output, with the types of the calls. -/
abbrev PendingToolCalls := List (Str × Str)

def functionCallOutputCallIds (items : List (JsonValue F)) : List Str :=
  items.filterMap fun item =>
    if isToolCallOutput item then (asObj item).bind fun d => shownStr (d.get "call_id") else none

def missingFunctionCallOutputs (items : List (JsonValue F)) (pending : PendingToolCalls) :
    PendingToolCalls :=
  pending.filter fun call => !(functionCallOutputCallIds items).contains call.1

def interruptedOutputText : String :=
  "Tool call was not executed because the previous turn was interrupted before tool output was " ++
    "available."

def outputItemTypeOf (callType : Str) : Str :=
  if callType = text "custom_tool_call" then text "custom_tool_call_output"
  else if callType = text "apply_patch_call" then text "apply_patch_call_output"
  else text "function_call_output"

def syntheticInterruptedFunctionCallOutput (call : Str × Str) : JsonValue F :=
  let outputType := outputItemTypeOf call.2
  let item : Obj F := [(text "type", .str outputType), (text "call_id", .str call.1),
    (text "output", .str (text interruptedOutputText))]
  if outputType = text "apply_patch_call_output" then
    .dict (item.set "status" (.str (text "failed")))
  else .dict item

/-- The input with an output put in front for each call that waits for one, if any does. -/
def interruptedToolOutputsInput (lastResponseId : Option Str) (pending : PendingToolCalls)
    (payload : Payload F) : Option (JsonValue F) :=
  match payload.previousResponseId, asList payload.input with
  | some anchor, some items =>
    let missing := missingFunctionCallOutputs items pending
    if lastResponseId = some anchor ∧ missing ≠ [] then
      some (.list (missing.map syntheticInterruptedFunctionCallOutput ++ items))
    else none
  | _, _ => none

/-! ## Fresh replays -/

def toolCallTypes : List String := ["function_call", "custom_tool_call", "apply_patch_call"]

/-- `_WEBSOCKET_TOOL_CALL_ITEM_TYPES_BY_OUTPUT_TYPE`. -/
def callTypeOfOutput (outputType : Str) : Option Str :=
  if outputType = text "function_call_output" then some (text "function_call")
  else if outputType = text "custom_tool_call_output" then some (text "custom_tool_call")
  else if outputType = text "apply_patch_call_output" then some (text "apply_patch_call")
  else none

/-- Every tool output comes behind a call of its type and its id; `seen` holds the calls. -/
def selfContainedFrom (seen : List (Str × Str)) : List (JsonValue F) → Bool
  | [] => true
  | item :: rest =>
    let callId := (asObj item).bind fun d => shownStr (d.get "call_id")
    match itemType item with
    | none => selfContainedFrom seen rest
    | some type =>
      if among toolCallTypes type then
        selfContainedFrom ((callId.map fun id => (type, id)).toList ++ seen) rest
      else
        match callTypeOfOutput type with
        | none => selfContainedFrom seen rest
        | some callType =>
          match callId with
          | none => false
          | some id => seen.contains (callType, id) && selfContainedFrom seen rest

/-- `_websocket_input_items_are_self_contained_fresh_replay`. -/
def inputItemsAreSelfContainedFreshReplay (items : List (JsonValue F)) : Bool :=
  selfContainedFrom [] items

end Continuity
