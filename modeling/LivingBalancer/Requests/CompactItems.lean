import Mathlib.Data.Finset.Basic
import Mathlib.Data.Finset.Sort
import LivingBalancer.Lib.JsonAscii
import LivingBalancer.Requests.InputItems

/-!
# Compact requests: items, anchors and estimates

What the trim of a compact request reads of the input items: the state anchors, the ids of tool
calls and outputs, the estimate of a value on the wire, and the markers for what is left out.
-/

namespace CompactTrim

open PyJson Requests
open ToolCallDedupe (Obj Obj.get asStr asObj)

variable {F : Type}

inductive CompactError where
  /-- A `list` or `dict` is looked up in a set. -/
  | unhashable
  /-- `ClientPayloadError` with the code `responses_compact_input_too_large`. -/
  | tooLarge (message : Str)
  deriving DecidableEq

def maxCompactUpstreamEstimatedTokens : ℕ := 100000

def compactUpstreamHeadEstimatedTokens : ℕ := 12000

def estimatedCharsPerToken : ℕ := 4

/-! ## The wire text -/

section Wire

variable (fmt : FloatText F)

mutual
/-- `json.dumps(value, ensure_ascii=True)`: a blank behind each comma and colon. -/
def wireText : JsonValue F → Str
  | .null => text "null"
  | .bool true => text "true"
  | .bool false => text "false"
  | .int n => intText n
  | .float x => floatText fmt x
  | .str t => quoteAscii t
  | .list [] => text "[]"
  | .list (x :: xs) => code '[' :: (wireText x ++ wireElements xs)
  | .dict [] => text "\x7b\x7d"
  | .dict ((k, v) :: rest) =>
    code '\x7b' :: (quoteAscii k ++ text ": " ++ (wireText v ++ wireMembers rest))
def wireElements : List (JsonValue F) → Str
  | [] => text "]"
  | x :: xs => text ", " ++ (wireText x ++ wireElements xs)
def wireMembers : List (Str × JsonValue F) → Str
  | [] => text "\x7d"
  | (k, v) :: rest => text ", " ++ (quoteAscii k ++ text ": " ++ (wireText v ++ wireMembers rest))
end

def tokensOfChars (n : ℕ) : ℕ := max 1 ((n + estimatedCharsPerToken - 1) / estimatedCharsPerToken)

/-- `_estimated_json_tokens`. -/
def estimatedJsonTokens (value : JsonValue F) : ℕ :=
  tokensOfChars (wireText fmt value.sortKeys).length

/-- `_estimated_json_array_item_tokens`. -/
def estimatedJsonArrayItemTokens (value : JsonValue F) : ℕ :=
  tokensOfChars ((wireText fmt value.sortKeys).length + 2)

end Wire

/-- `_compact_trim_marker`. -/
def compactTrimMarker (omittedItems omittedTokens : ℕ) : JsonValue F :=
  .dict [(text "type", .str (text "message")), (text "role", .str (text "user")),
    (text "content", .list [.dict [(text "type", .str (text "input_text")), (text "text", .str
      (text "[compact trim] Omitted " ++ natText omittedItems ++ text " input items (~" ++
        natText omittedTokens ++ text " estimated tokens) before forwarding this oversized compact " ++
        text "request upstream. The initial context, most recent context, and compact state " ++
        text "anchors were preserved."))]])]

/-! ## State anchors -/

def compactStateToolNames : List String := ["create_goal", "get_goal", "update_goal", "update_plan"]

def compactToolCallItemTypes : List String := ["function_call", "custom_tool_call", "apply_patch_call"]

def compactToolCallOutputItemTypes : List String :=
  ["function_call_output", "custom_tool_call_output", "apply_patch_call_output"]

def hashable : JsonValue F → Bool
  | .list _ | .dict _ => false
  | _ => true

/-- `value in {…}`, which hashes the value first. -/
def inSet (member : JsonValue F → Bool) (value : JsonValue F) : Except CompactError Bool :=
  if hashable value then .ok (member value) else .error .unhashable

/-- `_compact_item_texts`. -/
def compactItemTexts (item : Obj F) : List Str :=
  let parts : List (JsonValue F) := match item.get "content" with
    | .str t => [.str t]
    | .dict content => [.dict content]
    | .list parts => parts
    | _ => []
  parts.filterMap fun part => match part with
    | .str t => some t
    | .dict d => asStr (Obj.get d "text")
    | _ => none

/-- The tool or the texts of an item, read without its role. -/
def namesState (item : Obj F) : Bool :=
  (oneOf ["function_call"] (item.get "type") &&
    (oneOf compactStateToolNames (item.get "name") ||
      (asObj (item.get "function")).any fun function =>
        oneOf compactStateToolNames (function.get "name"))) ||
    (compactItemTexts item).any fun t =>
      (text "<codex_internal_context source=\"goal\">").isPrefixOf (t.dropWhile Sse.isWhitespace) ||
        (text "<collaboration_mode># Plan Mode").isPrefixOf (t.dropWhile Sse.isWhitespace)

def messageType (value : JsonValue F) : Bool := isNone value || oneOf ["message"] value

/-- `_compact_item_is_state_anchor`. -/
def compactItemIsStateAnchor (item : Obj F) : Except CompactError Bool :=
  if oneOf ["additional_tools"] (item.get "type") then .ok true
  else do
    let message ← inSet messageType (item.get "type")
    let instruction ← if message then inSet (oneOf instructionRoles) (item.get "role") else pure false
    pure (instruction || namesState item)

/-- `_compact_state_anchor_indices`, from an index on. -/
def compactStateAnchorIndices : ℕ → List (JsonValue F) → Except CompactError (Finset ℕ)
  | _, [] => .ok ∅
  | i, item :: rest =>
    match asObj item with
    | none => compactStateAnchorIndices (i + 1) rest
    | some item => do
      let developer := (rest.head?.bind asObj).any fun next =>
        oneOf ["developer"] (next.get "role") && messageType (next.get "type")
      let bundle : Finset ℕ :=
        if oneOf ["additional_tools"] (item.get "type") then
          if developer then {i, i + 1} else {i}
        else ∅
      let anchor ← compactItemIsStateAnchor item
      let later ← compactStateAnchorIndices (i + 1) rest
      pure (bundle ∪ (if isPreservedNonMessageDirective item || anchor then {i} else ∅) ∪ later)

/-! ## Calls and outputs -/

def toolId (types : List String) (item : JsonValue F) : Option Str :=
  (asObj item).bind fun item =>
    if oneOf types (item.get "type") then shownStr (item.get "call_id") else none

/-- The id of a tool call. -/
def callId (item : JsonValue F) : Option Str := toolId compactToolCallItemTypes item

/-- The id of a tool output. -/
def outputId (item : JsonValue F) : Option Str := toolId compactToolCallOutputItemTypes item

/-- `setdefault(call_id, []).append(index)` for the items with an id. -/
def indicesById (idOf : JsonValue F → Option Str) (input : List (JsonValue F)) :
    Dict Str (List ℕ) :=
  input.zipIdx.foldl (fun d p => match idOf p.1 with
    | some id => d.modify id [] (· ++ [p.2])
    | none => d) .empty

/-! ## Markers -/

/-- `_compact_trimmed_input_with_markers` from an index on, with the omitted items and tokens. -/
def withMarkersFrom (counts : List ℕ) (selected : Finset ℕ) :
    ℕ → ℕ → ℕ → List (JsonValue F) → List (JsonValue F)
  | _, omittedItems, omittedTokens, [] =>
    if omittedItems = 0 then [] else [compactTrimMarker omittedItems omittedTokens]
  | i, omittedItems, omittedTokens, item :: rest =>
    if i ∈ selected then
      (if omittedItems = 0 then [] else [compactTrimMarker omittedItems omittedTokens]) ++
        item :: withMarkersFrom counts selected (i + 1) 0 0 rest
    else withMarkersFrom counts selected (i + 1) (omittedItems + 1) (omittedTokens + counts.getD i 0) rest

def trimmedInputWithMarkers (input : List (JsonValue F)) (counts : List ℕ) (selected : Finset ℕ) :
    List (JsonValue F) :=
  withMarkersFrom counts selected 0 0 0 input

end CompactTrim
