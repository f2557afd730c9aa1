import LivingBalancer.Requests.InputItems

/-!
# Chat messages as input items

`core/openai/message_coercion.py`: the texts of system and developer messages are merged into the
instructions, or the messages are kept among the input items; every other message becomes input
items with the part types of the Responses API.
-/

namespace ChatMapping

open PyJson Requests
open ToolCallDedupe (Obj Obj.get Obj.set asStr asObj asList)

variable {F : Type}

/-- What a chat request raises on its way to a responses request. -/
inductive ChatError where
  | request (e : RequestError)
  /-- `ClientPayloadError` with the parameter `messages`. -/
  | payload (message : Str)
  /-- `TypeError`: a `list` or `dict` is looked up in a set. -/
  | unhashable
  deriving DecidableEq

def supportedMessageRoles : List String := ["system", "developer", "user", "assistant", "tool"]

def textContentPartTypes : List String := ["text", "input_text", "output_text"]

/-- `_content_parts`. -/
def contentParts : JsonValue F → List (JsonValue F)
  | .list parts => parts
  | content => [content]

/-- The text of a part that is a `str` or has a `text`. -/
def plainText : JsonValue F → Option Str
  | .str t => some t
  | .dict part => asStr (Obj.get part "text")
  | _ => none

/-! ## Instructions -/

/-- `_merge_instructions`. -/
def mergeInstructions (existing : Str) (extraParts : List Str) : Str :=
  mergeResponsesInstructions existing extraParts

/-- `_content_to_text`. -/
def contentToText : JsonValue F → Option Str
  | .str t => some t
  | .list parts => some (newline.intercalate ((parts.filterMap plainText).filter (· ≠ [])))
  | .dict content => asStr (Obj.get content "text")
  | _ => none

def textOnlyPart : JsonValue F → Bool
  | .str _ => true
  | .dict part =>
    (isNone (Obj.get part "type") || oneOf textContentPartTypes (Obj.get part "type"))
      && (asStr (Obj.get part "text")).isSome
  | _ => false

def textOnly : JsonValue F → Bool
  | .null | .str _ => true
  | .list parts => parts.all textOnlyPart
  | content => textOnlyPart content

/-- `_ensure_text_only_content`; the two modules that have it raise different errors. -/
def ensureTextOnlyContent {ε : Type} (raise : Str → ε) (content : JsonValue F) (role : Str) :
    Except ε Unit :=
  if textOnly content then .ok ()
  else .error (raise (role ++ text " messages must be text-only."))

/-! ## Content parts -/

def textContentPart (type : String) (t : Str) : JsonValue F :=
  .dict [(text "type", .str (text type)), (text "text", .str t)]

/-- `_text_type_for_role`. -/
def textTypeForRole (role : Str) : String :=
  if role = text "assistant" then "output_text" else "input_text"

/-- An `image_url` part as an `input_image`, if it has a URL. -/
def imageUrlToInputImage : JsonValue F → Option (JsonValue F)
  | .dict image =>
    (asStr (Obj.get image "url")).map fun url =>
      .dict ([(text "type", .str (text "input_image")), (text "image_url", .str url)] ++
        (asStr (Obj.get image "detail")).toList.map fun detail => (text "detail", .str detail))
  | .str url => some (.dict [(text "type", .str (text "input_image")), (text "image_url", .str url)])
  | _ => none

/-- `_audio_mime_type`. -/
def audioMimeType (audioFormat : Str) : Str :=
  if audioFormat = text "wav" then text "audio/wav"
  else if audioFormat = text "mp3" then text "audio/mpeg"
  else text "audio/" ++ audioFormat

def dataUrl (mimeType data : Str) : Str := text "data:" ++ mimeType ++ text ";base64," ++ data

/-- `_audio_input_to_data_url`. -/
def audioInputToDataUrl (inputAudio : JsonValue F) : Option Str := do
  let inputAudio ← asObj inputAudio
  let data ← asStr (inputAudio.get "data")
  let audioFormat ← asStr (inputAudio.get "format")
  return dataUrl (audioMimeType audioFormat) data

def inputFile (members : List (String × Str)) : JsonValue F :=
  .dict ((text "type", .str (text "input_file")) :: members.map fun p => (text p.1, .str p.2))

/-- `_file_part_to_input_file`. -/
def filePartToInputFile (fileInfo : JsonValue F) : JsonValue F :=
  match asObj fileInfo with
  | none => inputFile []
  | some fileInfo =>
    match shownStr (fileInfo.get "file_id"), shownStr (fileInfo.get "file_url") with
    | some fileId, _ => inputFile [("file_id", fileId)]
    | none, some fileUrl => inputFile [("file_url", fileUrl)]
    | none, none =>
      match (asStr (fileInfo.get "file_data")).or (asStr (fileInfo.get "data")) with
      | none => inputFile []
      | some fileData =>
        let mimeType := ((shownStr (fileInfo.get "mime_type")).or
          (shownStr (fileInfo.get "content_type"))).getD (text "application/octet-stream")
        inputFile [("file_url", dataUrl mimeType fileData)]

/-- `value in _TEXT_CONTENT_PART_TYPES`, which hashes the value first. -/
def inTextContentPartTypes : JsonValue F → Except ChatError Bool
  | .list _ | .dict _ => .error .unhashable
  | value => .ok (oneOf textContentPartTypes value)

section Content

-- `isZero x` is `x == 0.0` of a float.
variable (isZero : F → Bool)

/-- `bool(value)`. -/
def truthy : JsonValue F → Bool
  | .null => false
  | .bool b => b
  | .int n => n != 0
  | .float (.finite x) => !isZero x
  | .float _ => true
  | .str t => !t.isEmpty
  | .list items => !items.isEmpty
  | .dict items => !items.isEmpty

/-- `part.get("type") or ("text" if "text" in part else None)`. -/
def contentPartType (part : Obj F) : JsonValue F :=
  if truthy isZero (part.get "type") then part.get "type"
  else if (Dict.lookup (text "text") part).isSome then .str (text "text") else .null

/-- `_normalize_content_part`. -/
def normalizeContentPart (role : Str) (part : Obj F) : Except ChatError (JsonValue F) := do
  let partType := contentPartType isZero part
  if ← inTextContentPartTypes partType then
    return ((asStr (part.get "text")).map (textContentPart (textTypeForRole role))).getD (.dict part)
  else if role = text "assistant" then return .dict part
  else if oneOf ["image_url"] partType then
    return (imageUrlToInputImage (part.get "image_url")).getD (.dict part)
  else if oneOf ["input_image"] partType then return .dict part
  else if oneOf ["input_audio"] partType then
    return ((audioInputToDataUrl (part.get "input_audio")).map fun url =>
      inputFile [("file_url", url)]).getD (.dict part)
  else if oneOf ["file"] partType then return filePartToInputFile (part.get "file")
  else return .dict part

/-- One part of a content; a value that is neither a text nor an object stays. -/
def normalizePart (role : Str) : JsonValue F → Except ChatError (JsonValue F)
  | .str t => .ok (textContentPart (textTypeForRole role) t)
  | .dict part => normalizeContentPart isZero role part
  | part => .ok part

def normalizeAllParts (role : Str) : List (JsonValue F) → Except ChatError (List (JsonValue F))
  | [] => .ok []
  | part :: rest => do
    let part ← normalizePart isZero role part
    let rest ← normalizeAllParts role rest
    return part :: rest

/-- `_normalize_content_parts`. -/
def normalizeContentParts (role : Str) : JsonValue F → Except ChatError (JsonValue F)
  | .null => .ok .null
  | .str t => .ok (.list [textContentPart (textTypeForRole role) t])
  | .list parts => (normalizeAllParts isZero role parts).map .list
  | content => normalizePart isZero role content

/-! ## Messages -/

/-- `_get_assistant_refusal`. -/
def getAssistantRefusal (message : Obj F) : Option Str := shownStr (message.get "refusal")

def refusalContentPart (refusal : Str) : JsonValue F :=
  .dict [(text "type", .str (text "refusal")), (text "refusal", .str refusal)]

/-- `_to_content_list`. -/
def toContentList : JsonValue F → List (JsonValue F)
  | .list parts => parts
  | .null | .str [] => []
  | normalized => [normalized]

/-- The item of a message has its role and its content and nothing else. -/
def messageItem (role content : JsonValue F) : Obj F :=
  [(text "role", role), (text "content", content)]

/-- `_normalize_message_content`. -/
def normalizeMessageContent (message : Obj F) : Except ChatError (Obj F) := do
  let role := message.get "role"
  let content := message.get "content"
  let roleStr := (asStr role).getD (text "user")
  let refusal := if roleStr = text "assistant" then getAssistantRefusal message else none
  if isNone content && refusal.isNone then
    return if (Dict.lookup (text "content") message).isSome then messageItem role content
      else [(text "role", role)]
  let normalized ←
    if isNone content then pure (.list []) else normalizeContentParts isZero roleStr content
  return messageItem role (match refusal with
    | some refusal => .list (toContentList normalized ++ [refusalContentPart refusal])
    | none => normalized)

def functionCallInputItem (callId name arguments : Str) : JsonValue F :=
  .dict [(text "type", .str (text "function_call")), (text "call_id", .str callId),
    (text "name", .str name), (text "arguments", .str arguments)]

/-- One entry of `tool_calls` in `_decompose_assistant_tool_calls`. -/
def decomposeToolCall (toolCall : JsonValue F) : Except ChatError (JsonValue F) :=
  match asObj toolCall with
  | none => .error (.payload (text "tool_calls entries must be objects."))
  | some toolCall =>
    match shownStr (toolCall.get "id"), asObj (toolCall.get "function") with
    | none, _ => .error (.payload (text "tool_calls[].id is required."))
    | some _, none => .error (.payload (text "tool_calls[].function is required."))
    | some callId, some function =>
      match shownStr (function.get "name"), asStr (function.get "arguments") with
      | none, _ => .error (.payload (text "tool_calls[].function.name is required."))
      | some _, none =>
        .error (.payload (text "tool_calls[].function.arguments must be a string."))
      | some name, some arguments => .ok (functionCallInputItem callId name arguments)

def decomposeToolCalls : List (JsonValue F) → Except ChatError (List (JsonValue F))
  | [] => .ok []
  | toolCall :: rest => do
    let item ← decomposeToolCall toolCall
    let items ← decomposeToolCalls rest
    return item :: items

/-- The message item before the calls, unless nothing is said. -/
def decomposeSaid (message : Obj F) : Except ChatError (List (JsonValue F)) :=
  let content := message.get "content"
  let refusal := getAssistantRefusal message
  if isNone content && refusal.isNone then .ok []
  else (normalizeContentParts isZero (text "assistant") content).map fun normalized =>
    [.dict (messageItem (.str (text "assistant"))
      (.list (toContentList normalized ++ refusal.toList.map refusalContentPart)))]

/-- `_decompose_assistant_tool_calls`. -/
def decomposeAssistantToolCalls (message : Obj F) : Except ChatError (List (JsonValue F)) := do
  let said ← decomposeSaid isZero message
  let calls ← decomposeToolCalls ((asList (message.get "tool_calls")).getD [])
  return said ++ calls

/-- The call id of a tool message: the first of its three names with a text. -/
def resolvedCallId (message : Obj F) : Option Str :=
  (shownStr (message.get "tool_call_id")).or
    ((shownStr (message.get "toolCallId")).or (shownStr (message.get "call_id")))

/-- `_concat_text_parts`. -/
def concatTextParts (content : List (JsonValue F)) : Str := (content.filterMap plainText).flatten

def functionCallOutputInputItem (callId output : Str) : JsonValue F :=
  .dict [(text "type", .str (text "function_call_output")), (text "call_id", .str callId),
    (text "output", .str output)]

/-- `_convert_tool_message`. -/
def convertToolMessage (message : Obj F) : Except ChatError (JsonValue F) :=
  match resolvedCallId message with
  | none => .error (.payload (text "tool messages must include 'tool_call_id'."))
  | some callId =>
    match message.get "content" with
    | .str t => .ok (functionCallOutputInputItem callId t)
    | .list content =>
      if concatTextParts content = [] ∧ content ≠ [] then
        .error (.payload (text "tool message content array contains no valid text parts."))
      else .ok (functionCallOutputInputItem callId (concatTextParts content))
    | .null => .error (.payload (text "tool message content is required."))
    | _ => .error (.payload (text "tool message content must be a string or array."))

variable (preserveInstructionRoles : Bool)

/-- One message in `coerce_messages`: its instruction part and its input items. -/
def coerceMessage (message : Obj F) : Except ChatError (Option Str × List (JsonValue F)) :=
  match asStr (message.get "role") with
  | none => .error (.payload (text "Each message must include a string 'role'."))
  | some role =>
    if !among supportedMessageRoles role then
      .error (.payload (text "Unsupported message role: " ++ role))
    else if among instructionRoles role then do
      ensureTextOnlyContent .payload (message.get "content") role
      if preserveInstructionRoles then
        let item ← normalizeMessageContent isZero message
        return (none, [.dict item])
      else return ((contentToText (message.get "content")).filter (· ≠ []), [])
    else if role = text "tool" then (convertToolMessage message).map fun item => (none, [item])
    else if role = text "assistant" ∧ ((asList (message.get "tool_calls")).getD []) ≠ [] then
      (decomposeAssistantToolCalls isZero message).map fun items => (none, items)
    else (normalizeMessageContent isZero message).map fun item => (none, [.dict item])

def coerceAll : List (JsonValue F) → Except ChatError (List Str × List (JsonValue F))
  | [] => .ok ([], [])
  | message :: rest => do
    match asObj message with
    | none => .error (.payload (text "Each message must be an object."))
    | some message =>
      let (part, items) ← coerceMessage isZero preserveInstructionRoles message
      let (parts, others) ← coerceAll rest
      return (part.toList ++ parts, items ++ others)

/-- `coerce_messages`. -/
def coerceMessages (existingInstructions : Str) (messages : List (JsonValue F)) :
    Except ChatError (Str × List (JsonValue F)) := do
  let (instructionParts, inputMessages) ← coerceAll isZero preserveInstructionRoles messages
  return (mergeInstructions existingInstructions instructionParts, inputMessages)

end Content

end ChatMapping
