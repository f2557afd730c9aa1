import Mathlib.Data.List.Infix
import LivingBalancer.Lib.Dict
import LivingBalancer.Proxy.ToolCallDedupe

/-!
# Tool-call deltas of chat completions

`core/openai/chat_responses.py`: what an upstream event says about a tool call, the slot the
call has in `tool_calls[]`, and the state accumulated for each slot. Both the stream and the
collected completion read their events through this.
-/

namespace Chat

open PyJson
open ToolCallDedupe (Obj Obj.get asStr asObj)

variable {F : Type}

/-! ## Slots -/

/-- `ToolCallIndex`. -/
structure ToolCallIndex where
  indexes : Dict Str ℕ
  nextIndex : ℕ
  outputIndexMap : Dict ℤ ℕ

def ToolCallIndex.start : ToolCallIndex := ⟨Dict.empty, 0, Dict.empty⟩

/-- `_tool_call_key`; an empty text is false. -/
def toolCallKey (callId name : Option Str) : Option Str :=
  match callId with
  | some (c :: rest) => some (text "id:" ++ c :: rest)
  | _ =>
    match name with
    | some (c :: rest) => some (text "name:" ++ c :: rest)
    | _ => none

namespace ToolCallIndex

/-- `indexes.setdefault(key, idx)` without its result. -/
def route (ix : ToolCallIndex) (key : Str) (index : ℕ) : ToolCallIndex :=
  { ix with indexes := ix.indexes.setdefault key index }

def registerOutputIndex (ix : ToolCallIndex) (outputIndex : ℤ) (index : ℕ) : ToolCallIndex :=
  { ix with outputIndexMap := ix.outputIndexMap.setdefault outputIndex index }

def registerAlias (ix : ToolCallIndex) (aliasId : Str) (index : ℕ) : ToolCallIndex :=
  ix.route (text "id:" ++ aliasId) index

def indexForOutputIndex (ix : ToolCallIndex) (outputIndex : Option ℤ) (callId name : Option Str) :
    ℕ × ToolCallIndex :=
  let key := toolCallKey callId name
  match outputIndex.bind ix.outputIndexMap.get with
  | some idx => (idx, match key with
    | some key => ix.route key idx
    | none => ix)
  | none =>
    match key with
    | none =>
      match outputIndex with
      | some outputIndex =>
        let idx := ix.nextIndex
        (idx, { ix.registerOutputIndex outputIndex idx with nextIndex := max ix.nextIndex (idx + 1) })
      | none => (0, ix)
    | some key =>
      let (idx, ix) := match ix.indexes.get key with
        | some idx => (idx, ix)
        | none => (ix.nextIndex, { ix.route key ix.nextIndex with nextIndex := ix.nextIndex + 1 })
      (idx, match outputIndex with
        | some outputIndex => ix.registerOutputIndex outputIndex idx
        | none => ix)

end ToolCallIndex

/-! ## Fields of an event -/

def Obj.has (d : Obj F) (k : String) : Bool := (Dict.lookup (text k) d).isSome

/-- The value, if it is an `int`; a `bool` is one. -/
def asInt : JsonValue F → Option ℤ
  | .int n => some n
  | .bool b => some (if b then 1 else 0)
  | _ => none

/-- `_first_str`: the first text that is not empty. -/
def firstStr (values : List (JsonValue F)) : Option Str :=
  values.findSome? fun value => (asStr value).filter fun t => decide (t ≠ [])

def mentions (words : List String) (value : JsonValue F) : Bool :=
  (asStr value).any fun t => words.any fun word => decide (text word <:+: t)

/-- The item, if it looks like a tool call. -/
def toolCallItem (payload : Obj F) : Option (Obj F) :=
  (asObj (payload.get "item")).filter fun item =>
    mentions ["tool", "function"] (item.get "type")
      || ["call_id", "tool_call_id", "arguments", "function", "name"].any fun key => Obj.has item key

/-- `_is_tool_call_event`. -/
def isToolCallEvent (payload : Obj F) : Bool :=
  mentions ["tool_call", "function_call"] (payload.get "type")
    || (toolCallItem payload).isSome
    || ["call_id", "tool_call_id"].any (fun key => Obj.has payload key)
    || (Obj.has payload "arguments" && (Obj.has payload "name" || Obj.has payload "function"))

/-- `_select_tool_call_candidate`. -/
def selectToolCallCandidate (payload : Obj F) : Obj F := (toolCallItem payload).getD payload

inductive ArgumentsMode where
  | append
  | replace
  deriving DecidableEq

/-- `_tool_call_arguments_mode`. -/
def toolCallArgumentsMode (payload : Obj F) : ArgumentsMode :=
  match asStr (payload.get "type") with
  | some eventType => if text ".delta" <:+ eventType then .append else .replace
  | none => .replace

structure ToolCallFields where
  callId : Option Str
  name : Option Str
  arguments : Option Str
  toolType : Option Str
  deriving DecidableEq

/-- A member of an object that may be missing. -/
def getIn (d : Option (Obj F)) (k : String) : JsonValue F := (d.map fun d => d.get k).getD .null

/-- `_extract_tool_call_fields`. -/
def extractToolCallFields (payload : Obj F) : Option ToolCallFields :=
  let candidate := selectToolCallCandidate payload
  let delta := candidate.get "delta"
  let deltaMap := asObj delta
  let callId := (firstStr [candidate.get "call_id", candidate.get "tool_call_id", candidate.get "id"]).or
    (firstStr [getIn deltaMap "id", getIn deltaMap "call_id", getIn deltaMap "tool_call_id"])
  let name := (firstStr [candidate.get "name", candidate.get "tool_name"]).or
    ((firstStr [getIn deltaMap "name"]).or
      ((firstStr [getIn (asObj (candidate.get "function")) "name"]).or
        (firstStr [getIn (asObj (getIn deltaMap "function")) "name"])))
  let arguments := (asStr (candidate.get "arguments")).or
    ((asStr delta).or
      ((asStr (getIn deltaMap "arguments")).or
        (asStr (getIn (asObj (getIn deltaMap "function")) "arguments"))))
  let toolType := (firstStr [candidate.get "tool_type", candidate.get "type"]).filter fun t =>
    !decide (text "response." <+: t)
  let toolType := toolType.map fun t =>
    if t = text "tool_call" ∨ t = text "function_call" then text "function" else t
  if callId.isNone && name.isNone && arguments.isNone then none
  else some ⟨callId, name, arguments, toolType⟩

structure ToolCallDelta where
  index : ℕ
  callId : Option Str
  name : Option Str
  arguments : Option Str
  toolType : Option Str
  argumentsMode : ArgumentsMode := .append
  deriving DecidableEq

/-- `_register_item_id_alias`. -/
def registerItemIdAlias (payload : Obj F) (index : ℕ) (ix : ToolCallIndex) : ToolCallIndex :=
  match asObj (payload.get "item") with
  | none => ix
  | some item =>
    let ix := match asStr (item.get "id") with
      | some (c :: rest) =>
        if asStr (item.get "call_id") = some (c :: rest) then ix
        else ix.registerAlias (c :: rest) index
      | _ => ix
    match asInt (payload.get "output_index") with
    | some outputIndex => ix.registerOutputIndex outputIndex index
    | none => ix

/-- `_tool_call_delta_from_payload`, with the index it leaves. -/
def toolCallDeltaFromPayload (payload : Obj F) (ix : ToolCallIndex) :
    Option ToolCallDelta × ToolCallIndex :=
  if isToolCallEvent payload then
    match extractToolCallFields payload with
    | none => (none, ix)
    | some fields =>
      let outputIndex := asInt (payload.get "output_index")
      let routingId := fields.callId.or
        (firstStr [payload.get "item_id", getIn (asObj (payload.get "item")) "id"])
      let (index, ix) := ix.indexForOutputIndex outputIndex routingId fields.name
      (some ⟨index, fields.callId, fields.name, fields.arguments, fields.toolType,
        toolCallArgumentsMode payload⟩, registerItemIdAlias payload index ix)
  else (none, ix)

/-! ## The state of a slot -/

/-- `ChatToolCallFunction`. -/
structure ToolCallFunction where
  name : Option Str
  arguments : Option Str
  deriving DecidableEq

/-- `ChatMessageToolCall`. -/
structure MessageToolCall where
  id : Option Str
  type : Str
  function : Option ToolCallFunction
  deriving DecidableEq

structure ToolCallState where
  index : ℕ
  callId : Option Str := none
  name : Option Str := none
  arguments : Str := []
  toolType : Str := text "function"
  emittedCallId : Option Str := none
  emittedName : Option Str := none
  emittedArguments : Str := []
  emittedToolType : Option Str := none
  deriving DecidableEq

/-- `value or other`, for texts. -/
def orElse (value : Option Str) (other : Str) : Str :=
  match value with
  | some (c :: rest) => c :: rest
  | _ => other

/-- `if value: target = value`. -/
def overwrite (target value : Option Str) : Option Str :=
  match value with
  | some (c :: rest) => some (c :: rest)
  | _ => target

/-- `_build_tool_call_function`. -/
def buildToolCallFunction (name arguments : Option Str) : Option ToolCallFunction :=
  if name.isNone && arguments.isNone then none else some ⟨name, arguments⟩

/-- `_pending_stream_value`. -/
def pendingStreamValue (emitted current : Option Str) : Option Str :=
  current.filter fun value => decide (emitted ≠ some value)

/-- `_pending_stream_arguments`. -/
def pendingStreamArguments (emitted current : Str) : Option Str :=
  if current = [] ∨ current = emitted then none
  else if emitted = [] then some current
  else if emitted <+: current then
    let suffix := current.drop emitted.length
    if suffix = [] then none else some suffix
  else none

namespace ToolCallState

def applyDelta (call : ToolCallState) (delta : ToolCallDelta) : ToolCallState :=
  { call with
    callId := overwrite call.callId delta.callId
    name := overwrite call.name delta.name
    arguments := match delta.arguments with
      | none => call.arguments
      | some arguments =>
        match delta.argumentsMode with
        | .replace => arguments
        | .append => call.arguments ++ arguments
    toolType := orElse delta.toolType call.toolType }

/-- The delta to send, with the state that has sent it. -/
def buildStreamDelta (call : ToolCallState) : Option ToolCallDelta × ToolCallState :=
  let callId := pendingStreamValue call.emittedCallId call.callId
  let name := pendingStreamValue call.emittedName call.name
  let arguments := pendingStreamArguments call.emittedArguments call.arguments
  let toolType := orElse (some call.toolType) (text "function")
  if callId.isNone && name.isNone && arguments.isNone && decide (call.emittedToolType = some toolType)
  then (none, call)
  else
    (some { index := call.index, callId, name, arguments, toolType := some toolType },
      { call with
        emittedCallId := if callId.isSome then call.callId else call.emittedCallId
        emittedName := if name.isSome then call.name else call.emittedName
        emittedArguments := if arguments.isSome then call.arguments else call.emittedArguments
        emittedToolType := some toolType })

def toMessageToolCall (call : ToolCallState) : Option MessageToolCall :=
  let function := buildToolCallFunction call.name
    (if call.arguments = [] then none else some call.arguments)
  if call.callId.isNone && function.isNone then none
  else some ⟨call.callId, orElse (some call.toolType) (text "function"), function⟩

end ToolCallState

/-- The loop that fills `tool_calls` up to a slot. -/
def padToolCalls (calls : List ToolCallState) (index : ℕ) : List ToolCallState :=
  calls ++ (List.range' calls.length (index + 1 - calls.length)).map fun i => { index := i }

/-- `_merge_tool_call_delta`; the state that it returns is the one at the slot of the delta. -/
def mergeToolCallDelta (calls : List ToolCallState) (delta : ToolCallDelta) : List ToolCallState :=
  (padToolCalls calls delta.index).modify delta.index fun call => call.applyDelta delta

/-- `_compact_tool_calls`. -/
def compactToolCalls (calls : List ToolCallState) : List MessageToolCall :=
  calls.filterMap ToolCallState.toMessageToolCall

end Chat
