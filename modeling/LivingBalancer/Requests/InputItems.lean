import Mathlib.Data.List.Basic
import LivingBalancer.Proxy.SseEvents
import LivingBalancer.Proxy.ToolCallDedupe

/-!
# Input items of a responses request

`core/openai/requests.py`: before validation the instruction messages among the input items are
hoisted into `instructions`, unless the input carries a Lite tool bundle; the validator of
`input` then drops interleaved reasoning, gives assistant content its output parts and turns
tool messages into function call outputs.
-/

namespace Requests

open PyJson
open ToolCallDedupe (Obj Obj.get Obj.set asStr asObj)

variable {F : Type}

/-- What a validation raises: pydantic's own check of a field, or a `ValueError`. -/
inductive RequestError where
  | field (name : String)
  | value (message : Str)
  deriving DecidableEq

/-- What is taken from Python: the floats, and `==` on values. -/
structure Python (F : Type) where
  fmt : FloatText F
  eq : JsonValue F → JsonValue F → Bool
  eq_none : eq .null .null = true

def isNone : JsonValue F → Bool
  | .null => true
  | _ => false

def among (words : List String) (t : Str) : Bool := words.any fun word => decide (t = text word)

def oneOf (words : List String) (value : JsonValue F) : Bool := (asStr value).any (among words)

/-- A text that is not empty. -/
def shownStr (value : JsonValue F) : Option Str := (asStr value).filter fun t => decide (t ≠ [])

/-! ## Instructions -/

def instructionRoles : List String := ["system", "developer"]

/-- `_is_preserved_non_message_directive`. -/
def isPreservedNonMessageDirective (item : Obj F) : Bool :=
  oneOf instructionRoles (item.get "role")
    && !isNone (item.get "type") && !oneOf ["message"] (item.get "type")

/-- `_is_responses_lite_input`. -/
def isResponsesLiteInput (items : List (JsonValue F)) : Bool :=
  items.any fun item => (asObj item).any fun item => oneOf ["additional_tools"] (item.get "type")

/-- `_responses_instruction_content_text`. -/
def responsesInstructionContentText : JsonValue F → Option Str
  | .str t => some t
  | .dict content => asStr (Obj.get content "text")
  | _ => none

def newline : Str := [code '\n']

/-- `_split_responses_instruction_item_content`. -/
def splitResponsesInstructionItemContent (item : Obj F) : Str × Option (JsonValue F) :=
  match item.get "content" with
  | .null => ([], none)
  | .str t => (t, none)
  | .list parts =>
    let instructionParts := (parts.filterMap responsesInstructionContentText).filter (· ≠ [])
    let preservedParts := parts.filter fun part => (responsesInstructionContentText part).isNone
    (newline.intercalate instructionParts,
      if preservedParts.isEmpty then none else some (.list preservedParts))
  | content =>
    match responsesInstructionContentText content with
    | some t => (t, none)
    | none => ([], some content)

/-- A system or developer message, which is hoisted. -/
def isInstructionMessage (item : Obj F) : Bool :=
  oneOf instructionRoles (item.get "role") && !isPreservedNonMessageDirective item

/-- `_merge_responses_instructions`. -/
def mergeResponsesInstructions (existing : Str) (extraParts : List Str) : Str :=
  let extra := newline.intercalate (extraParts.filter (· ≠ []))
  if extra = [] then existing
  else if existing = [] then extra
  else existing ++ newline ++ extra

/-- An item that is hoisted: its instruction text, and what is kept as a user message. -/
def hoistItem (item : Obj F) : Option Str × Option (JsonValue F) :=
  let (instructionText, preservedContent) := splitResponsesInstructionItemContent item
  (if instructionText = [] then none else some instructionText,
    preservedContent.map fun content =>
      .dict ((item.set "role" (.str (text "user"))).set "content" content))

/-- The loop over the input items: the instruction parts, the items, and whether anything changed. -/
def hoistItems : List (JsonValue F) → List Str × List (JsonValue F) × Bool
  | [] => ([], [], false)
  | item :: rest =>
    let (parts, items, changed) := hoistItems rest
    match asObj item with
    | none => (parts, item :: items, changed)
    | some mapping =>
      if isPreservedNonMessageDirective mapping then (parts, item :: items, true)
      else if isInstructionMessage mapping then
        let (part, preserved) := hoistItem mapping
        (part.toList ++ parts, preserved.toList ++ items, true)
      else (parts, item :: items, changed)

/-- `_normalize_responses_input_instructions` on an object. -/
def normalizeResponsesInputInstructions (data : Obj F) : Obj F :=
  match Dict.lookup (text "input") data with
  | some (.list input) =>
    if isResponsesLiteInput input then data
    else
      let (parts, items, changed) := hoistItems input
      if changed then
        let existing := (asStr (data.get "instructions")).getD []
        (data.set "instructions" (.str (mergeResponsesInstructions existing parts))).set "input"
          (.list items)
      else data
  | _ => data

/-! ## Interleaved reasoning -/

def interleavedReasoningKeys : List String :=
  ["reasoning_content", "reasoning_details", "tool_calls", "function_call"]

def interleavedReasoningPartTypes : List String :=
  ["reasoning", "reasoning_content", "reasoning_details"]

/-- `_sanitize_interleaved_reasoning_content_part`; a null part is dropped like one of reasoning. -/
def sanitizeInterleavedReasoningContentPart : JsonValue F → Option (JsonValue F)
  | .null => none
  | .dict part =>
    if oneOf interleavedReasoningPartTypes (Obj.get part "type") then none
    else some (.dict (part.filter fun p => !among interleavedReasoningKeys p.1))
  | part => some part

/-- `_sanitize_interleaved_reasoning_content`. -/
def sanitizeInterleavedReasoningContent : JsonValue F → Option (JsonValue F)
  | .list parts => some (.list (parts.filterMap sanitizeInterleavedReasoningContentPart))
  | .dict content => sanitizeInterleavedReasoningContentPart (.dict content)
  | .null => none
  | content => some content

/-- One member of an item. -/
def sanitizeMember (p : Str × JsonValue F) : Option (Str × JsonValue F) :=
  if among interleavedReasoningKeys p.1 then none
  else if p.1 = text "content" then (sanitizeInterleavedReasoningContent p.2).map fun v => (p.1, v)
  else some p

/-- `_sanitize_interleaved_reasoning_input_item`. -/
def sanitizeInterleavedReasoningInputItem : JsonValue F → Option (JsonValue F)
  | .dict item => some (.dict (item.filterMap sanitizeMember))
  | .null => none
  | item => some item

/-! ## Roles -/

def assistantTextPartTypes : List String := ["text", "input_text", "output_text"]

def toolTextPartTypes : List String := ["text", "input_text", "output_text", "refusal"]

/-- `_extract_text_content_part`. -/
def extractTextContentPart (allowedTypes : List String) (part : Obj F) : Option Str :=
  match asStr (part.get "text") with
  | some t =>
    if oneOf allowedTypes (part.get "type") || isNone (part.get "type") then some t
    else if oneOf ["refusal"] (part.get "type") then asStr (part.get "refusal") else none
  | none => if oneOf ["refusal"] (part.get "type") then asStr (part.get "refusal") else none

def outputText (t : Str) : JsonValue F :=
  .dict [(text "type", .str (text "output_text")), (text "text", .str t)]

/-- `_normalize_assistant_content_part`. -/
def normalizeAssistantContentPart : JsonValue F → JsonValue F
  | .str t => outputText t
  | .dict part =>
    match extractTextContentPart assistantTextPartTypes part with
    | some t => outputText t
    | none => .dict part
  | part => part

/-- `_normalize_assistant_content`. -/
def normalizeAssistantContent : JsonValue F → JsonValue F
  | .str t => .list [outputText t]
  | .list parts => .list (parts.map normalizeAssistantContentPart)
  | .dict content => .list [normalizeAssistantContentPart (.dict content)]
  | content => content

/-- `str(content)` of a number or a Boolean. -/
def pyStr (fmt : FloatText F) : JsonValue F → Str
  | .bool true => text "True"
  | .bool false => text "False"
  | .int n => intText n
  | .float .nan => text "nan"
  | .float (.infinity false) => text "inf"
  | .float (.infinity true) => text "-inf"
  | .float (.finite x) => fmt.repr x
  | _ => []

/-- A part of a tool message's content. -/
def toolTextPart : JsonValue F → Option Str
  | .str t => some t
  | .dict part => extractTextContentPart toolTextPartTypes part
  | _ => none

/-- `_normalize_tool_output_value`. -/
def normalizeToolOutputValue (fmt : FloatText F) : JsonValue F → Str
  | .null => []
  | .str t => t
  | .list content =>
    let parts := content.filterMap toolTextPart
    if parts.isEmpty then (JsonValue.list content).compact fmt else parts.flatten
  | .dict content =>
    (extractTextContentPart toolTextPartTypes content).getD ((JsonValue.dict content).compact fmt)
  | content => pyStr fmt content

section Items

variable (py : Python F)

/-- `_normalize_assistant_input_item`. -/
def normalizeAssistantInputItem (item : Obj F) : JsonValue F :=
  let normalizedContent := normalizeAssistantContent (item.get "content")
  if py.eq normalizedContent (item.get "content") then .dict item
  else .dict (item.set "content" normalizedContent)

/-- `_normalize_tool_input_item`. -/
def normalizeToolInputItem (item : Obj F) : Except RequestError (JsonValue F) :=
  let callId := (shownStr (item.get "tool_call_id")).or
    ((shownStr (item.get "toolCallId")).or (shownStr (item.get "call_id")))
  let outputValue := if isNone (item.get "output") then item.get "content" else item.get "output"
  match callId with
  | none => .error (.value (text "tool input items must include 'tool_call_id'"))
  | some callId =>
    .ok (.dict [(text "type", .str (text "function_call_output")), (text "call_id", .str callId),
      (text "output", .str (normalizeToolOutputValue py.fmt outputValue))])

/-- `_normalize_role_input_item`. -/
def normalizeRoleInputItem : JsonValue F → Except RequestError (JsonValue F)
  | .dict item =>
    if oneOf ["assistant"] (Obj.get item "role") then .ok (normalizeAssistantInputItem py item)
    else if oneOf ["tool"] (Obj.get item "role") then normalizeToolInputItem py item
    else .ok (.dict item)
  | item => .ok item

/-- One item; it may be dropped. -/
def sanitizeInputItem (item : JsonValue F) : Except RequestError (Option (JsonValue F)) :=
  if (asObj item).any isPreservedNonMessageDirective then .ok (some item)
  else
    match sanitizeInterleavedReasoningInputItem item with
    | none => .ok none
    | some sanitized => (normalizeRoleInputItem py sanitized).map some

/-- `_sanitize_input_items`. -/
def sanitizeInputItems : List (JsonValue F) → Except RequestError (List (JsonValue F))
  | [] => .ok []
  | item :: rest => do
    let sanitized ← sanitizeInputItem py item
    let sanitizedRest ← sanitizeInputItems rest
    return sanitized.toList ++ sanitizedRest

end Items

/-- `_normalize_input_text`. -/
def normalizeInputText (t : Str) : List (JsonValue F) :=
  [.dict [(text "role", .str (text "user")),
    (text "content", .list [.dict [(text "type", .str (text "input_text")), (text "text", .str t)]])]]

end Requests
