import LivingBalancer.Lib.GreedyMatching
import LivingBalancer.Lib.JsonLimits
import LivingBalancer.Proxy.ToolCallDedupe

/-!
# Dedupe of replayed tool calls

`dedupe_replayed_side_effect_input_items` of `proxy/tool_call_dedupe.py`. A first pass keys the
side-effect calls and lists the outputs by call id; the second one removes a call whose key is
known in the segment, turns its output into an assistant message, and does the same to the
first call when that has no output. `none` stands for an exception: the `TypeError` of a
membership test `x in {..}` of a list or a dict, and the `ValueError` of an integer with too
many digits in a text that is loaded or in a value that is written.
-/

namespace ToolCallDedupe

open PyJson

variable {F : Type}

/-! ## Items -/

/-- A value that `x in {..}` cannot take. -/
def unhashable : JsonValue F → Bool
  | .list _ | .dict _ => true
  | _ => false

/-- `value in {..}` for a set of texts and possibly `None`. -/
def memberOf (names : List Str) (orNone : Bool) (value : JsonValue F) : Option Bool :=
  if unhashable value then none
  else some (match value with
    | .str t => decide (t ∈ names)
    | .null => orNone
    | _ => false)

def segmentRoles : List Str := ["developer", "system", "user"].map text

def toolCallTypes : List Str :=
  ["function_call", "custom_tool_call"].map text ++ sideEffectToolCallItemTypes

def toolOutputTypes : List Str :=
  ["function_call_output", "custom_tool_call_output", "apply_patch_call_output"].map text

def replayedInputSegmentBoundary (item : Obj F) : Option Bool := do
  let known ← memberOf segmentRoles false (item.get "role")
  if known then memberOf [text "message"] true (item.get "type") else some false

def replayedToolCallSegmentBoundary (item : Obj F) : Option Bool :=
  memberOf toolCallTypes false (item.get "type")

/-- A call id that is a text and not empty. -/
def callIdOf (item : Obj F) : Option Str :=
  match asStr (item.get "call_id") with
  | some callId => if callId = [] then none else some callId
  | none => none

def replayedToolOutputCallId (item : Obj F) : Option (Option Str) := do
  let known ← memberOf toolOutputTypes false (item.get "type")
  some (if known then callIdOf item else none)

def assistantMessage (content : Str) : JsonValue F :=
  .dict [(text "type", .str (text "message")), (text "role", .str (text "assistant")),
    (text "content", .list [.dict
      [(text "type", .str (text "output_text")), (text "text", .str content)]])]

section Keys

variable (fmt : FloatText F)

/-- `ReplayedSideEffectToolCallKey`. -/
structure ReplayedKey where
  itemType : Str
  itemNamespace : Option Str
  name : Option Str
  callId : Option Str
  argumentKey : Str
  deriving DecidableEq

def historySideEffectToolCallNames : List Str :=
  parallelToolCallName :: historyDirectSideEffectToolCallNames ++
    historyDirectSideEffectToolCallNames.map (functionsPrefix ++ ·)

/-- The item name and the arguments key of a side-effect call, by its type. -/
def replayedCallParts (item : Obj F) (itemType : Str) : Option (Option Str × Str) :=
  let itemName := asStr (item.get "name")
  let known := itemName.any fun name => decide (name ∈ historySideEffectToolCallNames)
  if itemType = text "function_call" then
    match asStr (item.get "arguments") with
    | none => none
    | some argumentValue =>
      if known && toolCallHasSideEffectArguments fmt itemName argumentValue then
        some (itemName, canonicalSideEffectArgumentKey fmt itemName argumentValue)
      else none
  else if itemType = text "custom_tool_call" then
    if known then
      (asStr (item.get "input")).map fun argumentValue =>
        (itemName, canonicalSideEffectArgumentKey fmt itemName argumentValue)
    else none
  else if itemType ∈ sideEffectToolCallItemTypes then
    some (some itemType, canonicalJsonKey fmt (item.get "operation"))
  else none

def replayedSideEffectToolCallKey (item : Obj F) : Option ReplayedKey :=
  match asStr (item.get "type") with
  | none => none
  | some itemType =>
    (replayedCallParts fmt item itemType).map fun parts =>
      let itemNamespace := asStr (item.get "namespace")
      ⟨itemType, itemNamespace, parts.1, if itemNamespace.isSome then callIdOf item else none,
        parts.2⟩

/-- The arguments text that the key of a call loads. -/
def loadedArgument (item : Obj F) : Option Str :=
  if (asStr (item.get "name")).any fun name => decide (name ∈ historySideEffectToolCallNames) then
    if asStr (item.get "type") = some (text "function_call") then asStr (item.get "arguments")
    else if asStr (item.get "type") = some (text "custom_tool_call") then asStr (item.get "input")
    else none
  else none

/-- `replayed_side_effect_tool_call_key` raises the `ValueError`: for the arguments text, or for
the operation that it writes. What it writes of loaded arguments is never refused. -/
def keyRefused (item : Obj F) : Bool :=
  (loadedArgument item).any (loadsRefused fmt) ||
    (asStr (item.get "type")).any fun itemType =>
      decide (itemType ∈ sideEffectToolCallItemTypes) && !(item.get "operation").writable

theorem jsonObjectFromArgument_writable {argumentValue : Str} {argument : Obj F}
    (h : jsonObjectFromArgument fmt argumentValue = some argument)
    (fine : loadsRefused fmt argumentValue = false) : (JsonValue.dict argument).writable = true := by
  obtain ⟨v, read, dict⟩ := Option.bind_eq_some_iff.mp h
  exact asObj_eq_some dict ▸ loads_writable read fine

/-- `canonical_json_key` of an output raises the `ValueError`. -/
def outputRefused (item : Obj F) : Bool :=
  (asStr (item.get "output")).isNone && !(item.get "output").writable

def replayedToolOutputText (item : Obj F) : Str :=
  match asStr (item.get "output") with
  | some output => output
  | none => canonicalJsonKey fmt (item.get "output")

def replayedToolOutputAsAssistantMessage (item : Obj F) : JsonValue F :=
  assistantMessage (replayedToolOutputText fmt item)

end Keys

def replayedToolCallWithoutOutputAsAssistantMessage (item : Obj F) : JsonValue F :=
  let name := match asStr (item.get "name") with
    | some name => if name = [] then text "tool" else name
    | none => text "tool"
  assistantMessage
    (text "Omitted replayed side-effect tool call without matching output: " ++ name ++ text ".")

/-- `_replayed_side_effect_key_has_stable_identity`. -/
def ReplayedKey.stable (key : ReplayedKey) : Bool := key.itemNamespace.isSome && key.callId.isSome

/-! ## The first pass -/

/-- What the first pass notes of an item: `call_keys`, `call_ids` and the entry of
`output_indices_by_call_id`, each at the item's index. -/
structure Scanned (F : Type) where
  item : JsonValue F
  key : Option ReplayedKey
  callId : Option Str
  outputCallId : Option Str

def scanItem (fmt : FloatText F) (item : JsonValue F) : Option (Scanned F) :=
  match asObj item with
  | none => some ⟨item, none, none, none⟩
  | some d =>
    if keyRefused fmt d then none
    else
      match replayedSideEffectToolCallKey fmt d with
      | some key => some ⟨item, some key, callIdOf d, none⟩
      | none =>
        (replayedToolOutputCallId d).map fun outputCallId => ⟨item, none, none, outputCallId⟩

/-- `output_indices_by_call_id.get(call_id, [])`. -/
def outputIndices (scanned : List (Scanned F)) (callId : Str) : List ℕ :=
  (List.range scanned.length).filter fun i =>
    decide ((scanned[i]?).bind Scanned.outputCallId = some callId)

/-! ## The second pass -/

structure Pass (F : Type) where
  kept : ℕ → Bool
  rewritten : ℕ → Option (JsonValue F)
  firstCallIdByKey : ReplayedKey → Option (Option Str)
  firstCallIndexByKey : ReplayedKey → Option ℕ
  outputIndexByCallIndex : ℕ → Option ℕ
  nextOutputCursorByCallId : Str → ℕ
  lastSideEffectKey : Option ReplayedKey
  removedCount : ℕ

def Pass.initial : Pass F where
  kept := fun _ => true
  rewritten := fun _ => none
  firstCallIdByKey := fun _ => none
  firstCallIndexByKey := fun _ => none
  outputIndexByCallIndex := fun _ => none
  nextOutputCursorByCallId := fun _ => 0
  lastSideEffectKey := none
  removedCount := 0

/-- A user, developer or system message begins a new segment. -/
def Pass.newSegment (s : Pass F) : Pass F :=
  { s with
    firstCallIdByKey := fun _ => none
    firstCallIndexByKey := fun _ => none
    lastSideEffectKey := none }

/-- `_clear_legacy_replayed_side_effect_keys`. -/
def Pass.clearLegacy (s : Pass F) : Pass F :=
  { s with
    firstCallIdByKey := fun key => if key.stable then s.firstCallIdByKey key else none
    firstCallIndexByKey := fun key => if key.stable then s.firstCallIndexByKey key else none }

/-- An output that belongs to the last side-effect call. -/
def Pass.answersLast (s : Pass F) (outputCallId : Option Str) : Bool :=
  match s.lastSideEffectKey, outputCallId with
  | some key, some callId => decide ((s.firstCallIdByKey key).bind id = some callId)
  | _, _ => false

/-- An item that is no side-effect call. -/
def Pass.other (s : Pass F) (item : JsonValue F) : Option (Pass F) := do
  let outputCallId ← (asObj item).elim (some none) replayedToolOutputCallId
  if s.answersLast outputCallId then some s
  else
    let toolCall ← (asObj item).elim (some false) replayedToolCallSegmentBoundary
    if toolCall then some s.clearLegacy
    else if outputCallId.isSome then some s.clearLegacy
    else some s

/-- `replayed_tool_output_index_for_call` of a call, and what it leaves. -/
def Pass.takeOutput (s : Pass F) (outputs : Str → List ℕ) (index : ℕ) (callId : Option Str) :
    Pass F :=
  match callId with
  | none => { s with
      outputIndexByCallIndex := fun i => if i = index then none else s.outputIndexByCallIndex i }
  | some c =>
    let next := GreedyMatching.answer (outputs c) (s.nextOutputCursorByCallId c) index
    { s with
      outputIndexByCallIndex := fun i =>
        if i = index then next.1 else s.outputIndexByCallIndex i
      nextOutputCursorByCallId := fun x => if x = c then next.2 else s.nextOutputCursorByCallId x }

def Pass.rewrite (s : Pass F) (index : ℕ) (item : JsonValue F) : Pass F :=
  { s with rewritten := fun i => if i = index then some item else s.rewritten i }

/-- The first call of a key becomes a message when it has no output. -/
def Pass.rewriteFirst (s : Pass F) (items : List (JsonValue F)) (key : ReplayedKey) : Pass F :=
  match s.firstCallIndexByKey key with
  | none => s
  | some first =>
    match s.outputIndexByCallIndex first, (items[first]?).bind asObj with
    | none, some d => s.rewrite first (replayedToolCallWithoutOutputAsAssistantMessage d)
    | _, _ => s

/-- The output of a removed call becomes a message. -/
def Pass.rewriteOutput (s : Pass F) (fmt : FloatText F) (items : List (JsonValue F))
    (index : ℕ) : Option (Pass F) :=
  match s.outputIndexByCallIndex index with
  | none => some s
  | some output =>
    match (items[output]?).bind asObj with
    | some d =>
      if outputRefused d then none
      else some (s.rewrite output (replayedToolOutputAsAssistantMessage fmt d))
    | none => some s

def Pass.removeCall (s : Pass F) (index : ℕ) : Pass F :=
  { s with
    removedCount := s.removedCount + 1
    kept := fun i => if i = index then false else s.kept i }

/-- A side-effect call. -/
def Pass.call (s : Pass F) (fmt : FloatText F) (items : List (JsonValue F))
    (outputs : Str → List ℕ) (index : ℕ) (key : ReplayedKey) (callId : Option Str) :
    Option (Pass F) :=
  let s := if s.lastSideEffectKey.any fun last => decide (key ≠ last) then s.clearLegacy else s
  let s := { s with lastSideEffectKey := some key }
  let s := s.takeOutput outputs index callId
  if (s.firstCallIdByKey key).isNone then
    some { s with
      firstCallIdByKey := fun k => if k = key then some callId else s.firstCallIdByKey k
      firstCallIndexByKey := fun k => if k = key then some index else s.firstCallIndexByKey k }
  else ((s.rewriteFirst items key).removeCall index).rewriteOutput fmt items index

def Pass.step (fmt : FloatText F) (items : List (JsonValue F)) (outputs : Str → List ℕ)
    (s : Pass F) (index : ℕ) (e : Scanned F) : Option (Pass F) := do
  let boundary ← (asObj e.item).elim (some false) replayedInputSegmentBoundary
  let s := if boundary then s.newSegment else s
  match e.key with
  | none => s.other e.item
  | some key => s.call fmt items outputs index key e.callId

/-- The loop over the first items. -/
def Pass.steps (fmt : FloatText F) (items : List (JsonValue F)) (scanned : List (Scanned F)) :
    ℕ → Option (Pass F)
  | 0 => some Pass.initial
  | n + 1 =>
    match Pass.steps fmt items scanned n, scanned[n]? with
    | some s, some e => s.step fmt items (outputIndices scanned) n e
    | some s, none => some s
    | none, _ => none

/-! ## The result -/

/-- The calls that `sanitize_missing_outputs` turns into messages. -/
def Pass.missing (s : Pass F) (scanned : List (Scanned F)) (index : ℕ) : Option (Obj F) :=
  match scanned[index]? with
  | none => none
  | some e =>
    if e.key.isSome && s.kept index && (s.rewritten index).isNone &&
        (s.outputIndexByCallIndex index).isNone then
      asObj e.item
    else none

def Pass.sanitize (s : Pass F) (scanned : List (Scanned F)) : Pass F :=
  { s with
    rewritten := fun i => match s.missing scanned i with
      | some d => some (replayedToolCallWithoutOutputAsAssistantMessage d)
      | none => s.rewritten i }

/-- What stands for the item at an index. -/
def Pass.outcome (s : Pass F) (items : List (JsonValue F)) (index : ℕ) : Option (JsonValue F) :=
  if s.kept index then (s.rewritten index).orElse fun _ => items[index]? else none

def dedupeReplayedSideEffectInputItems (fmt : FloatText F) (items : List (JsonValue F))
    (sanitizeMissingOutputs : Bool) : Option (List (JsonValue F) × ℕ) := do
  let scanned ← items.mapM (scanItem fmt)
  if scanned.all fun e => e.key.isNone then some (items, 0)
  else
    let s ← Pass.steps fmt items scanned items.length
    let rewrites := if sanitizeMissingOutputs then
      (List.range items.length).countP fun i => (s.missing scanned i).isSome else 0
    let final := if sanitizeMissingOutputs then s.sanitize scanned else s
    if s.removedCount = 0 ∧ rewrites = 0 then some (items, 0)
    else some ((List.range items.length).filterMap (final.outcome items), s.removedCount + rewrites)

end ToolCallDedupe
