import LivingBalancer.Lib.JsonText
import LivingBalancer.Lib.Runs

/-!
# Tool-call dedupe of the downstream events

`proxy/tool_call_dedupe.py`, on the path of a downstream event: nested duplicates are taken
out of a parallel wrapper by `rewrite_parallel_tool_call_payload`, and then
`mark_duplicate_tool_call_downstream_event` decides whether the event is sent on.
`d.get(k)` is `null` for a key that `d` lacks, as Python's `None` is both.

An arguments text with an integer of more than 4300 digits makes `json.loads` raise out of
these functions. An event with one is not in the runs here: it is neither sent nor suppressed.
-/

namespace ToolCallDedupe

open PyJson

/-! ## Names -/

def toolCallDedupeCacheLimit : ℕ := 1024

def parallelToolCallName : Str := text "multi_tool_use.parallel"

def functionsPrefix : Str := text "functions."

def historyDirectSideEffectToolCallNames : List Str :=
  ["apply_patch", "close_agent", "create_goal", "exec_command", "request_user_input",
    "resume_agent", "send_input", "spawn_agent", "update_goal", "update_plan", "wait_agent",
    "write_stdin"].map text

def codeModeDownstreamSideEffectToolCallNames : List Str := ["collaboration", "exec"].map text

def downstreamDirectSideEffectToolCallNames : List Str :=
  historyDirectSideEffectToolCallNames ++ codeModeDownstreamSideEffectToolCallNames

def downstreamSideEffectToolCallNames : List Str :=
  parallelToolCallName :: downstreamDirectSideEffectToolCallNames ++
    downstreamDirectSideEffectToolCallNames.map (functionsPrefix ++ ·)

def sideEffectToolCallItemTypes : List Str := [text "apply_patch_call"]

def parallelToolUseDedupeRecipientNames : List Str :=
  historyDirectSideEffectToolCallNames.map (functionsPrefix ++ ·) ++ [parallelToolCallName]

def sideEffectVolatileArgKeys : List Str :=
  ["max_output_tokens", "timeout_ms", "yield_time_ms"].map text

/-- `normalize_tool_call_name` of a name. -/
def normalizeToolCallName (name : Str) : Str :=
  if functionsPrefix <+: name then name.drop functionsPrefix.length else name

/-! ## Values -/

section Values

variable {F : Type}

/-- A Python dict of a payload. -/
abbrev Obj (F : Type) := List (Str × JsonValue F)

/-- `d.get(k)`. -/
def Obj.get (d : Obj F) (k : String) : JsonValue F := (Dict.lookup (text k) d).getD .null

/-- `d[k] = v`. -/
def Obj.set (d : Obj F) (k : String) (v : JsonValue F) : Obj F := Dict.assign (text k) v d

/-- The value, if it is a `str`. -/
def asStr : JsonValue F → Option Str
  | .str t => some t
  | _ => none

/-- The value, if it is a `dict`. -/
def asObj : JsonValue F → Option (Obj F)
  | .dict d => some d
  | _ => none

theorem asObj_eq_some {v : JsonValue F} {d : Obj F} (h : asObj v = some d) : v = .dict d := by
  cases v <;> cases h
  rfl

/-- The value, if it is a `list`. -/
def asList : JsonValue F → Option (List (JsonValue F))
  | .list xs => some xs
  | _ => none

/-- `target.__class__.__name__`. -/
def className : JsonValue F → Str
  | .null => text "NoneType"
  | .bool _ => text "bool"
  | .int _ => text "int"
  | .float _ => text "float"
  | .str _ => text "str"
  | .list _ => text "list"
  | .dict _ => text "dict"

/-- A name that may be `None`. -/
def nameValue : Option Str → JsonValue F
  | some name => .str name
  | none => .null

end Values

/-! ## Keys -/

section Keys

variable {F : Type} (fmt : FloatText F)

/-- The object of an arguments text that `json.loads` does not refuse. -/
def jsonObjectFromArgument (argumentValue : Str) : Option (Obj F) :=
  (loads fmt argumentValue).bind asObj

def canonicalJsonKey (value : JsonValue F) : Str := dumps fmt value

def canonicalParametersKey (recipientName : Str) (parameters : Obj F) : Str :=
  canonicalJsonKey fmt (.dict
    [(text "recipient_name", .str recipientName),
      (text "parameters",
        .dict (parameters.filter fun p => decide (p.1 ∉ sideEffectVolatileArgKeys)))])

/-- The sort key of a target: its class, then its text. -/
def targetLe (a b : JsonValue F) : Prop :=
  className a < className b ∨
    className a = className b ∧ canonicalJsonKey fmt a ≤ canonicalJsonKey fmt b

instance : DecidableRel (targetLe fmt) :=
  fun _ _ => inferInstanceAs (Decidable (_ ∨ _))

def canonicalWaitAgentTargets : JsonValue F → JsonValue F
  | .list targets => .list (targets.insertionSort (targetLe fmt))
  | targets => targets

/-- The parameters of `write_stdin` that the downstream keys have. -/
def writeStdinParameters (parameters : Obj F) : Obj F :=
  [(text "session_id", parameters.get "session_id"), (text "chars", parameters.get "chars"),
    (text "yield_time_ms", parameters.get "yield_time_ms"),
    (text "max_output_tokens", parameters.get "max_output_tokens")]

def canonicalParallelToolUseKey (toolUse : Obj F) : Str :=
  match asStr (toolUse.get "recipient_name") with
  | none => dumps fmt (.dict toolUse)
  | some recipientName =>
    let normalized := normalizeToolCallName recipientName
    match asObj (toolUse.get "parameters") with
    | none => dumps fmt (.dict toolUse)
    | some parameters =>
      if normalized = text "write_stdin" then
        canonicalParametersKey fmt normalized (writeStdinParameters parameters)
      else if normalized = text "wait_agent" then
        dumps fmt (.dict
          [(text "recipient_name", .str normalized),
            (text "targets", canonicalWaitAgentTargets fmt (parameters.get "targets"))])
      else if normalized = text "exec_command" then
        canonicalParametersKey fmt normalized parameters
      else dumps fmt (.dict toolUse)

/-- A tool use of a wrapper, in the key of the whole wrapper. -/
def canonicalToolUse (toolUse : JsonValue F) : JsonValue F :=
  match asObj toolUse with
  | some d =>
    match jsonObjectFromArgument fmt (canonicalParallelToolUseKey fmt d) with
    -- `canonical_tool_use or tool_use`: an empty dict is false
    | some [] | none => toolUse
    | some canonical => .dict canonical
  | none => toolUse

def canonicalSideEffectArgumentKey (itemName : Option Str) (argumentValue : Str) : Str :=
  match jsonObjectFromArgument fmt argumentValue with
  | none => argumentValue
  | some argument =>
    let normalized := itemName.map normalizeToolCallName
    if normalized = some (text "write_stdin") then
      canonicalJsonKey fmt (.dict
        [(text "name", nameValue normalized), (text "session_id", argument.get "session_id"),
          (text "chars", argument.get "chars"),
          (text "yield_time_ms", argument.get "yield_time_ms")])
    else if normalized = some (text "wait_agent") then
      canonicalJsonKey fmt (.dict
        [(text "name", nameValue normalized),
          (text "targets", canonicalWaitAgentTargets fmt (argument.get "targets"))])
    else if normalized = some (text "exec_command") then
      canonicalParametersKey fmt (text "exec_command") argument
    else if itemName ≠ some parallelToolCallName then
      -- `normalized_item_name or item_name`: an empty name is false
      let name := if normalized = some [] then itemName else normalized
      canonicalJsonKey fmt (.dict
        [(text "name", nameValue name), (text "parameters", .dict argument)])
    else
      match asList (argument.get "tool_uses") with
      | none => canonicalJsonKey fmt (.dict argument)
      | some toolUses =>
        canonicalJsonKey fmt
          (.dict (argument.set "tool_uses" (.list (toolUses.map (canonicalToolUse fmt)))))

def canonicalDownstreamSideEffectArgumentKey (itemName : Option Str) (argumentValue : Str) : Str :=
  match jsonObjectFromArgument fmt argumentValue with
  | none => argumentValue
  | some argument =>
    let normalized := itemName.map normalizeToolCallName
    if normalized = some (text "write_stdin") then
      canonicalParametersKey fmt (text "write_stdin") (writeStdinParameters argument)
    else if normalized = some (text "exec_command") then
      canonicalParametersKey fmt (text "exec_command") argument
    else canonicalSideEffectArgumentKey fmt itemName argumentValue

/-- The recipient of a tool use that is deduplicated, with the tool use. -/
def dedupeRecipient (toolUse : JsonValue F) : Option (Str × Obj F) :=
  match asObj toolUse with
  | some d =>
    match asStr (d.get "recipient_name") with
    | some name => if name ∈ parallelToolUseDedupeRecipientNames then some (name, d) else none
    | none => none
  | none => none

/-- The tool uses of a wrapper's argument. -/
def toolUsesOf (argumentValue : Str) : Option (Obj F × List (JsonValue F)) :=
  match jsonObjectFromArgument fmt argumentValue with
  | some argument => (asList (argument.get "tool_uses")).map fun toolUses => (argument, toolUses)
  | none => none

def toolCallHasSideEffectArguments (itemName : Option Str) (argumentValue : Str) : Bool :=
  if itemName ≠ some parallelToolCallName then
    itemName.any fun name => decide (name ∈ downstreamSideEffectToolCallNames)
  else
    (toolUsesOf fmt argumentValue).any fun p => p.2.any fun toolUse =>
      (dedupeRecipient toolUse).isSome

end Keys

/-! ## The seen map -/

/-- `ToolCallDedupeKey`. -/
structure ToolCallDedupeKey where
  responseId : Str
  itemType : Str
  itemNamespace : Option Str
  name : Option Str
  callId : Option Str
  argumentKey : Str
  deriving DecidableEq

abbrev SeenKeys := Dict ToolCallDedupeKey Unit

/-- `_clear_legacy_downstream_tool_call_keys`. -/
def clearLegacyKeys (seen : SeenKeys) : SeenKeys :=
  seen.filter fun item => item.1.itemNamespace.isSome && item.1.callId.isSome

def dropOldest {α : Type*} (limit : ℕ) : List α → List α
  | [] => []
  | item :: rest => if limit < (item :: rest).length then dropOldest limit rest else item :: rest

theorem dropOldest_sublist {α : Type*} (limit : ℕ) (items : List α) :
    (dropOldest limit items).Sublist items := by
  induction items with
  | nil => exact .refl _
  | cons item rest ih =>
    rw [dropOldest]
    split_ifs
    · exact ih.cons item
    · exact .refl _

/-- The loop that pops the oldest keys over the limit. -/
def evict (seen : SeenKeys) : SeenKeys where
  items := dropOldest toolCallDedupeCacheLimit seen.items
  nodup := seen.nodup.sublist ((dropOldest_sublist _ _).map Prod.fst)

/-! ## Downstream events -/

section Downstream

variable {F : Type} (fmt : FloatText F)

/-- The loop of `dedupe_parallel_tool_uses_argument`: what is kept, and the number removed. -/
def dedupeToolUses : List Str → List (JsonValue F) → List (JsonValue F) × ℕ
  | _, [] => ([], 0)
  | seen, toolUse :: rest =>
    match dedupeRecipient toolUse with
    | some (_, d) =>
      let key := canonicalParallelToolUseKey fmt d
      if key ∈ seen then
        let (kept, removed) := dedupeToolUses seen rest
        (kept, removed + 1)
      else
        let (kept, removed) := dedupeToolUses (key :: seen) rest
        (toolUse :: kept, removed)
    | none =>
      let (kept, removed) := dedupeToolUses seen rest
      (toolUse :: kept, removed)

/-- The text, whether it changed, and the number of tool uses removed. -/
def dedupeParallelToolUsesArgument (argumentValue : Str) : Str × Bool × ℕ :=
  match toolUsesOf fmt argumentValue with
  | none => (argumentValue, false, 0)
  | some (argument, toolUses) =>
    let (deduped, removed) := dedupeToolUses fmt [] toolUses
    if removed = 0 then (argumentValue, false, 0)
    else (dumps fmt (.dict (argument.set "tool_uses" (.list deduped))), true, removed)

/-- The item of a `response.output_item.done` event. -/
def doneItem (payload : Option (Obj F)) : Option (Obj F × Obj F) :=
  match payload with
  | some payload =>
    if asStr (payload.get "type") = some (text "response.output_item.done") then
      (asObj (payload.get "item")).map fun item => (payload, item)
    else none
  | none => none

/-- The payload, whether it changed, and the number of tool uses removed. -/
def rewriteParallelToolCallPayload (payload : Option (Obj F)) : Option (Obj F) × Bool × ℕ :=
  match doneItem payload with
  | some (record, item) =>
    if asStr (item.get "type") = some (text "function_call") ∧
        asStr (item.get "name") = some parallelToolCallName then
      match asStr (item.get "arguments") with
      | some argumentValue =>
        match dedupeParallelToolUsesArgument fmt argumentValue with
        | (rewritten, true, removed) =>
          (some (record.set "item" (.dict (item.set "arguments" (.str rewritten)))), true, removed)
        | (_, false, _) => (payload, false, 0)
      | none => (payload, false, 0)
    else (payload, false, 0)
  | none => (payload, false, 0)

/-- What the function does: whether the event is a duplicate, the payload with its item as it
is left, and the seen map. -/
structure Marking (F : Type) where
  duplicate : Bool
  payload : Option (Obj F)
  seen : SeenKeys

/-- What is sent of the event; `none` when it is suppressed. -/
def Marking.sent (marking : Marking F) : Option (Option (Obj F)) :=
  if marking.duplicate then none else some marking.payload

/-- The second loop of `_mark_duplicate_parallel_tool_call_downstream_event`; the keys that its
first loop collects are not read. -/
def keepToolUses (responseId : Str) :
    SeenKeys → List (JsonValue F) → SeenKeys × List (JsonValue F) × ℕ
  | seen, [] => (seen, [], 0)
  | seen, toolUse :: rest =>
    match dedupeRecipient toolUse with
    | some (name, d) =>
      let key : ToolCallDedupeKey :=
        { responseId := responseId
          itemType := text "parallel_tool_use"
          itemNamespace := none
          name := some name
          callId := none
          argumentKey := canonicalParallelToolUseKey fmt d }
      if (seen.get key).isSome then
        let (seen, kept, removed) := keepToolUses responseId seen rest
        (seen, kept, removed + 1)
      else
        let (seen, kept, removed) := keepToolUses responseId (seen.set key ()) rest
        (seen, toolUse :: kept, removed)
    | none =>
      let (seen, kept, removed) := keepToolUses responseId seen rest
      (seen, toolUse :: kept, removed)

/-- `_mark_duplicate_parallel_tool_call_downstream_event`. -/
def markDuplicateParallelToolCall (payload item : Obj F) (argumentValue : Str) (seen : SeenKeys)
    (responseId : Option Str) (scopeByResponseId : Bool) : Marking F :=
  match toolUsesOf fmt argumentValue with
  | none => ⟨false, some payload, seen⟩
  | some (argument, toolUses) =>
    let dedupeResponseId := if scopeByResponseId then responseId else none
    let (seen, kept, removed) := keepToolUses fmt (dedupeResponseId.getD []) seen toolUses
    let seen := evict seen
    if removed = 0 then ⟨false, some payload, seen⟩
    else if kept = [] then ⟨true, some payload, seen⟩
    else
      let rewritten := dumps fmt (.dict (argument.set "tool_uses" (.list kept)))
      ⟨false, some (payload.set "item" (.dict (item.set "arguments" (.str rewritten)))), seen⟩

/-- The argument of a call item; any other item has none. -/
def argumentValueOf (item : Obj F) : Option (Str × JsonValue F) :=
  match asStr (item.get "type") with
  | some itemType =>
    if itemType = text "function_call" then some (itemType, item.get "arguments")
    else if itemType = text "custom_tool_call" then some (itemType, item.get "input")
    else if itemType = text "apply_patch_call" then
      match asObj (item.get "operation") with
      | some operation => some (itemType, .str (dumps fmt (.dict operation)))
      | none => some (itemType, item.get "operation")
    else none
  | none => none

def isSideEffectToolCall (itemType : Str) (itemName : Option Str) (argumentValue : Str) : Bool :=
  decide (itemType ∈ sideEffectToolCallItemTypes) ||
    itemName.any (fun name => decide (name ∈ downstreamSideEffectToolCallNames)) &&
      toolCallHasSideEffectArguments fmt itemName argumentValue

/-- `identity_scoped_call`: a code-mode call, or one with a namespace. -/
def identityScopedCall (itemNamespace itemName : Option Str) : Bool :=
  itemName.any (fun name => decide (name ∈ codeModeDownstreamSideEffectToolCallNames)) ||
    itemNamespace.isSome

/-- The key that a call has in every response, and whether it has one. -/
def crossResponseKey (key : ToolCallDedupeKey) : ToolCallDedupeKey × Bool :=
  if identityScopedCall key.itemNamespace key.name then
    ({ key with responseId := [] }, key.callId.isSome)
  else ({ key with responseId := [], callId := none }, true)

/-- The end of `mark_duplicate_tool_call_downstream_event`, for a side-effect call that is no
wrapper: whether it is a duplicate, and the seen map. -/
def markSideEffectCall (seen : SeenKeys) (key : ToolCallDedupeKey) (scopeByResponseId : Bool) :
    Bool × SeenKeys :=
  if (seen.get key).isSome then (true, seen)
  else
    let sameResponseKey := { key with callId := none }
    let (crossKey, hasCrossResponseIdentity) := crossResponseKey key
    if !scopeByResponseId && hasCrossResponseIdentity && (seen.get crossKey).isSome &&
        (identityScopedCall key.itemNamespace key.name ||
          (seen.get sameResponseKey).isNone) then
      (true, seen)
    else
      let seen := (seen.set key ()).set sameResponseKey ()
      let seen :=
        if !scopeByResponseId && hasCrossResponseIdentity then seen.set crossKey () else seen
      (false, evict seen)

def markDuplicateToolCallDownstreamEvent (payload : Option (Obj F)) (seen : SeenKeys)
    (responseId : Option Str) (scopeByResponseId : Bool) : Marking F :=
  match doneItem payload with
  | none => ⟨false, payload, seen⟩
  | some (record, item) =>
    match argumentValueOf fmt item with
    | none => ⟨false, payload, clearLegacyKeys seen⟩
    | some (itemType, argument) =>
      match asStr argument with
      | none => ⟨false, payload, seen⟩
      | some argumentValue =>
        let itemName := asStr (item.get "name")
        let itemNamespace := asStr (item.get "namespace")
        let callId := asStr (item.get "call_id")
        if isSideEffectToolCall fmt itemType itemName argumentValue then
          if itemName = some parallelToolCallName then
            markDuplicateParallelToolCall fmt record item argumentValue seen responseId
              scopeByResponseId
          else
            let itemName := itemName.map normalizeToolCallName
            let argumentKey := canonicalDownstreamSideEffectArgumentKey fmt itemName argumentValue
            let key : ToolCallDedupeKey :=
              ⟨responseId.getD [], itemType, itemNamespace, itemName, callId, argumentKey⟩
            let (duplicate, seen) := markSideEffectCall seen key scopeByResponseId
            ⟨duplicate, payload, seen⟩
        else ⟨false, payload, clearLegacyKeys seen⟩

/-! ## Runs -/

/-- An event from upstream, with what its caller passes on. -/
structure DownstreamEvent (F : Type) where
  payload : Option (Obj F)
  responseId : Option Str
  scopeByResponseId : Bool

/-- What came of an event. -/
structure Delivery (F : Type) where
  received : Option (Obj F)
  sent : Option (Option (Obj F))

/-- The rewrite and the marking, as the proxy calls them on every event. -/
def dedupeEvent (seen : SeenKeys) (e : DownstreamEvent F) : Marking F :=
  markDuplicateToolCallDownstreamEvent fmt (rewriteParallelToolCallPayload fmt e.payload).1 seen
    e.responseId e.scopeByResponseId

def dedupeStep (seen : SeenKeys) (e : DownstreamEvent F) : Option SeenKeys :=
  some (dedupeEvent fmt seen e).seen

def deliver (seen : SeenKeys) (e : DownstreamEvent F) (_ : SeenKeys) (log : List (Delivery F)) :
    List (Delivery F) :=
  ⟨e.payload, (dedupeEvent fmt seen e).sent⟩ :: log

end Downstream

/-- The start of a request: no key and no event. -/
def Fresh {F : Type} (x : SeenKeys × List (Delivery F)) : Prop := x = (Dict.empty, [])

end ToolCallDedupe
