import LivingBalancer.Chat.StreamProtocol

/-!
# The stream folded by its client

A client concatenates texts and takes the last id, name and type for each slot. What a slot has
emitted is then what the client holds for it, and after each event it is also what the slot holds,
as long as whole arguments extend the text before them.
-/

namespace Chat

open PyJson
open ToolCallDedupe (Obj Obj.get asStr asObj)

variable {F : Type} {cfg : ChatConfig F}

/-! ## The client -/

structure ClientCall where
  id : Option Str := none
  name : Option Str := none
  type : Option Str := none
  arguments : Str := []
  deriving DecidableEq

def ClientCall.blank : ClientCall := {}

structure ClientMessage where
  content : Str
  refusal : Str
  calls : List ClientCall
  usage : Option ChatCompletionUsage
  deriving DecidableEq

def ClientMessage.start : ClientMessage := ⟨[], [], [], none⟩

/-- The call of a slot, blank behind the end of the list. -/
def clientAt (calls : List ClientCall) (i : ℕ) : ClientCall := (calls[i]?).getD .blank

def ClientCall.add (call : ClientCall) (delta : ChatToolCallDelta) : ClientCall where
  id := delta.id.or call.id
  name := (delta.function.bind (·.name)).or call.name
  type := some delta.type
  arguments := call.arguments ++ (delta.function.bind (·.arguments)).getD []

def addCall (calls : List ClientCall) (delta : ChatToolCallDelta) : List ClientCall :=
  (calls ++ List.replicate (delta.index + 1 - calls.length) ClientCall.blank).modify delta.index fun call =>
    call.add delta

def ClientMessage.addDelta (m : ClientMessage) (delta : ChatChunkDelta) : ClientMessage :=
  { m with
    content := m.content ++ delta.content.getD []
    refusal := m.refusal ++ delta.refusal.getD []
    calls := (delta.toolCalls.getD []).foldl addCall m.calls }

/-- One chunk; the error payload and the end marker carry no message. -/
def ClientMessage.read (m : ClientMessage) : Output F → ClientMessage
  | .chunk c => c.choices.foldl (fun m choice => m.addDelta choice.delta)
      { m with usage := c.usage.or m.usage }
  | _ => m

def foldClient (out : List (Output F)) : ClientMessage := out.foldl ClientMessage.read .start

/-- A tool call of a message, in the parts that are compared. -/
structure CallView where
  id : Option Str
  name : Option Str
  type : Option Str
  arguments : Str
  deriving DecidableEq

/-- The call, unless it is empty. -/
def ClientCall.view (call : ClientCall) : Option CallView :=
  if call.id = none ∧ call.name = none ∧ call.arguments = [] then none
  else some ⟨call.id, call.name, call.type, call.arguments⟩

def MessageToolCall.view (call : MessageToolCall) : CallView where
  id := call.id
  name := call.function.bind (·.name)
  type := some call.type
  arguments := (call.function.bind (·.arguments)).getD []

theorem clientAt_addCall (calls : List ClientCall) (delta : ChatToolCallDelta) (i : ℕ) :
    clientAt (addCall calls delta) i
      = if i = delta.index then (clientAt calls i).add delta else clientAt calls i := by
  have padded : clientAt (calls ++ List.replicate (delta.index + 1 - calls.length) ClientCall.blank) i
      = clientAt calls i := by
    rw [clientAt, clientAt]
    by_cases old : i < calls.length
    · rw [List.getElem?_append_left old]
    · have past : calls.length ≤ i := by omega
      rw [List.getElem?_append_right past, List.getElem?_eq_none past, List.getElem?_replicate]
      split_ifs <;> rfl
  rw [← padded, clientAt, clientAt, addCall]
  by_cases same : i = delta.index
  · subst same
    have inside : delta.index
        < (calls ++ List.replicate (delta.index + 1 - calls.length) ClientCall.blank).length := by
      simp only [List.length_append, List.length_replicate]
      omega
    rw [List.getElem?_modify_eq, if_pos rfl, List.getElem?_eq_getElem inside]
    rfl
  · rw [List.getElem?_modify_ne _ _ (Ne.symm same), if_neg same]

/-! ## One slot -/

/-- The client holds what the slot has emitted. -/
structure Mirrors (call : ToolCallState) (client : ClientCall) : Prop where
  id : client.id = call.emittedCallId
  name : client.name = call.emittedName
  type : client.type = call.emittedToolType
  arguments : client.arguments = call.emittedArguments

/-- What the slot has emitted can be extended to what it holds. -/
structure Ready (call : ToolCallState) : Prop where
  callId : call.callId = none → call.emittedCallId = none
  name : call.name = none → call.emittedName = none
  arguments : call.emittedArguments <+: call.arguments
  toolType : call.toolType ≠ []

/-- The slot has emitted what it holds; its type may be missing from a blank one. -/
structure Emitted (call : ToolCallState) : Prop where
  callId : call.emittedCallId = call.callId
  name : call.emittedName = call.name
  arguments : call.emittedArguments = call.arguments
  toolType : call.emittedToolType = some call.toolType ∨ ¬ Filled call
  shown : call.toolType ≠ []

/-- Equal in what is held. -/
structure SameCall (a b : ToolCallState) : Prop where
  callId : a.callId = b.callId
  name : a.name = b.name
  arguments : a.arguments = b.arguments
  toolType : a.toolType = b.toolType

theorem Emitted.ready {call : ToolCallState} (emitted : Emitted call) : Ready call where
  callId none_ := emitted.callId.trans none_
  name none_ := emitted.name.trans none_
  arguments := by
    rw [emitted.arguments]
  toolType := emitted.shown

theorem orElse_of_ne_nil {t : Str} (shown : t ≠ []) (other : Str) : orElse (some t) other = t := by
  cases t with
  | nil => exact absurd rfl shown
  | cons c rest => rfl

theorem pendingStreamValue_or {emitted current : Option Str}
    (kept : current = none → emitted = none) :
    (pendingStreamValue emitted current).or emitted = current ∧
      (if (pendingStreamValue emitted current).isSome then current else emitted) = current := by
  cases current with
  | none => simp [pendingStreamValue, kept rfl]
  | some value =>
    by_cases same : emitted = some value
    · rw [pendingStreamValue, Option.filter_some, same]
      simp
    · rw [pendingStreamValue, Option.filter_some]
      simp [same]

theorem pendingStreamArguments_append {emitted current : Str} (extends_ : emitted <+: current) :
    emitted ++ (pendingStreamArguments emitted current).getD [] = current ∧
      (if (pendingStreamArguments emitted current).isSome then current else emitted) = current := by
  obtain ⟨suffix, rfl⟩ := extends_
  rw [pendingStreamArguments]
  cases emitted with
  | nil => cases suffix <;> simp
  | cons c rest => cases suffix <;> simp

theorem buildToolCallFunction_parts (name arguments : Option Str) :
    (buildToolCallFunction name arguments).bind (·.name) = name ∧
      (buildToolCallFunction name arguments).bind (·.arguments) = arguments := by
  cases name <;> cases arguments <;> exact ⟨rfl, rfl⟩

/-- Building the delta of a slot: it emits what it holds, and the client follows. -/
theorem buildStreamDelta_mirrors {call : ToolCallState} {client : ClientCall} (ready : Ready call)
    (mirrors : Mirrors call client) {delta : Option ToolCallDelta} {call' : ToolCallState}
    (built : call.buildStreamDelta = (delta, call')) :
    SameCall call' call ∧ call'.index = call.index ∧ Emitted call' ∧
      match delta with
      | none => call' = call
      | some delta => delta.index = call.index ∧ Mirrors call' (client.add delta.toChunkCall) := by
  obtain ⟨idOr, idIf⟩ := pendingStreamValue_or ready.callId
  obtain ⟨nameOr, nameIf⟩ := pendingStreamValue_or ready.name
  obtain ⟨argumentsAppend, argumentsIf⟩ := pendingStreamArguments_append ready.arguments
  have type := orElse_of_ne_nil ready.toolType (text "function")
  rw [ToolCallState.buildStreamDelta] at built
  rw [type] at built
  split at built
  · rename_i nothing
    cases built
    simp only [Bool.and_eq_true, Option.isNone_iff_eq_none, decide_eq_true_eq] at nothing
    obtain ⟨⟨⟨id, name⟩, arguments⟩, emitted⟩ := nothing
    rw [id] at idIf
    rw [name] at nameIf
    rw [arguments] at argumentsIf
    exact ⟨⟨rfl, rfl, rfl, rfl⟩, rfl, ⟨idIf, nameIf, argumentsIf, .inl emitted, ready.toolType⟩, rfl⟩
  · cases built
    refine ⟨⟨rfl, rfl, rfl, rfl⟩, rfl, ⟨idIf, nameIf, argumentsIf, .inl rfl, ready.toolType⟩, rfl, ?_⟩
    obtain ⟨functionName, functionArguments⟩ := buildToolCallFunction_parts
      (pendingStreamValue call.emittedName call.name)
      (pendingStreamArguments call.emittedArguments call.arguments)
    refine ⟨?_, ?_, ?_, ?_⟩
    · dsimp only [ClientCall.add, ToolCallDelta.toChunkCall]
      rw [mirrors.id, idOr, idIf]
    · dsimp only [ClientCall.add, ToolCallDelta.toChunkCall]
      rw [functionName, mirrors.name, nameOr, nameIf]
    · dsimp only [ClientCall.add, ToolCallDelta.toChunkCall]
      rw [orElse_of_ne_nil ready.toolType]
    · dsimp only [ClientCall.add, ToolCallDelta.toChunkCall]
      rw [functionArguments, mirrors.arguments, argumentsAppend, argumentsIf]

/-- A delta whose whole arguments extend those of its slot can be emitted. -/
theorem applyDelta_ready {call : ToolCallState} (emitted : Emitted call) (delta : ToolCallDelta)
    (extends_ : delta.argumentsMode = .replace → ∀ a ∈ delta.arguments, call.arguments <+: a) :
    Ready (call.applyDelta delta) where
  callId none_ := by
    rw [ToolCallState.applyDelta] at none_ ⊢
    dsimp only at none_ ⊢
    rw [emitted.callId]
    rw [overwrite.eq_def] at none_
    split at none_
    · cases none_
    · exact none_
  name none_ := by
    rw [ToolCallState.applyDelta] at none_ ⊢
    dsimp only at none_ ⊢
    rw [emitted.name]
    rw [overwrite.eq_def] at none_
    split at none_
    · cases none_
    · exact none_
  arguments := by
    rw [ToolCallState.applyDelta]
    dsimp only
    rw [emitted.arguments]
    cases given : delta.arguments with
    | none => exact List.prefix_refl _
    | some a =>
      cases mode : delta.argumentsMode with
      | append => exact List.prefix_append _ _
      | replace => exact extends_ mode a given
  toolType := by
    rw [ToolCallState.applyDelta]
    dsimp only
    rw [orElse.eq_def]
    split
    · simp
    · exact emitted.shown

theorem applyDelta_mirrors {call : ToolCallState} {client : ClientCall}
    (mirrors : Mirrors call client) (delta : ToolCallDelta) :
    Mirrors (call.applyDelta delta) client := ⟨mirrors.id, mirrors.name, mirrors.type, mirrors.arguments⟩

theorem SameCall.applyDelta {a b : ToolCallState} (same : SameCall a b) (delta : ToolCallDelta) :
    SameCall (a.applyDelta delta) (b.applyDelta delta) := by
  obtain ⟨id, name, arguments, type⟩ := same
  refine ⟨?_, ?_, ?_, ?_⟩
  · simp only [ToolCallState.applyDelta, id]
  · simp only [ToolCallState.applyDelta, name]
  · simp only [ToolCallState.applyDelta, arguments]
  · simp only [ToolCallState.applyDelta, type]

theorem SameCall.trans {a b c : ToolCallState} (ab : SameCall a b) (bc : SameCall b c) :
    SameCall a c :=
  ⟨ab.callId.trans bc.callId, ab.name.trans bc.name, ab.arguments.trans bc.arguments,
    ab.toolType.trans bc.toolType⟩

theorem emitted_blank (i : ℕ) : Emitted { index := i } := by
  refine ⟨rfl, rfl, rfl, .inr (by simp [Filled]), ?_⟩
  show text "function" ≠ []
  decide

/-- What is written into the message for a slot, in the parts that are compared. -/
theorem toMessageToolCall_view {call : ToolCallState} (shown : call.toolType ≠ []) :
    call.toMessageToolCall.map MessageToolCall.view
      = if call.callId = none ∧ call.name = none ∧ call.arguments = [] then none
        else some ⟨call.callId, call.name, some call.toolType, call.arguments⟩ := by
  rw [ToolCallState.toMessageToolCall, orElse_of_ne_nil shown]
  obtain ⟨index, callId, name, arguments, toolType, _, _, _, _⟩ := call
  cases callId <;> cases name <;> cases arguments <;>
    simp [buildToolCallFunction, MessageToolCall.view]

/-- A slot that has been emitted is seen by the client as it is written into the message. -/
theorem Emitted.view_eq {call call' : ToolCallState} {client : ClientCall} (emitted : Emitted call)
    (mirrors : Mirrors call client) (same : SameCall call call') :
    client.view = call'.toMessageToolCall.map MessageToolCall.view := by
  have id : client.id = call'.callId := mirrors.id.trans (emitted.callId.trans same.callId)
  have name : client.name = call'.name := mirrors.name.trans (emitted.name.trans same.name)
  have arguments : client.arguments = call'.arguments :=
    mirrors.arguments.trans (emitted.arguments.trans same.arguments)
  rw [toMessageToolCall_view (same.toolType ▸ emitted.shown), ClientCall.view, id, name, arguments]
  split_ifs with empty
  · rfl
  · have type : client.type = some call'.toolType := by
      rw [mirrors.type, ← same.toolType]
      refine emitted.toolType.resolve_right fun unfilled => empty ?_
      rw [Filled, same.callId, same.name, same.arguments] at unfilled
      tauto
    rw [type]

/-! ## All slots -/

/-- The stream and what its client holds, beside what is collected. -/
structure Tracks (st : ChatChunkState) (m : ClientMessage) (c : Collecting) : Prop where
  toolIndex : st.toolIndex = c.toolIndex
  content : m.content = c.contentParts.flatten
  refusal : m.refusal = c.refusalParts.flatten
  usage : m.usage = none
  index : ∀ i, (callAt st.toolCalls i).index = i
  mirrors : ∀ i, Mirrors (callAt st.toolCalls i) (clientAt m.calls i)
  same : ∀ i, SameCall (callAt st.toolCalls i) (callAt c.toolCalls i)

/-- Every slot has been emitted. -/
def Settled (calls : List ToolCallState) : Prop := ∀ i, Emitted (callAt calls i)

theorem read_yieldDelta (cfg : ChatConfig F) (delta : ChatChunkDelta) (st : ChatChunkState)
    (m : ClientMessage) : m.read (yieldDelta cfg delta st).1 = m.addDelta delta := rfl

theorem addDelta_toolCall (m : ClientMessage) (call : ChatToolCallDelta) :
    m.addDelta { toolCalls := some [call] } = { m with calls := addCall m.calls call } := by
  simp [ClientMessage.addDelta]

/-- Sending a slot that is ready emits it. -/
theorem sendCall_tracks (cfg : ChatConfig F) {i : ℕ} {st : ChatChunkState} {m : ClientMessage}
    {c : Collecting} (tracks : Tracks st m c) (ready : Ready (callAt st.toolCalls i))
    (others : ∀ j, j ≠ i → Emitted (callAt st.toolCalls j)) :
    Tracks (sendCall cfg i st).2 ((sendCall cfg i st).1.foldl ClientMessage.read m) c ∧
      Settled (sendCall cfg i st).2.toolCalls := by
  cases found : st.toolCalls[i]? with
  | none =>
    have same : sendCall cfg i st = ([], st) := by rw [sendCall, found]
    rw [same]
    refine ⟨tracks, fun j => ?_⟩
    by_cases own : j = i
    · rw [own, callAt, found]
      exact emitted_blank i
    · exact others j own
  | some call =>
    have here : callAt st.toolCalls i = call := by rw [callAt, found, Option.getD_some]
    have inside : i < st.toolCalls.length := (List.getElem?_eq_some_iff.mp found).1
    have index := tracks.index i
    have mirrors := tracks.mirrors i
    rw [here] at ready index mirrors
    rcases built : call.buildStreamDelta with ⟨delta | delta, call'⟩
    · obtain ⟨-, -, emitted, unchanged⟩ := buildStreamDelta_mirrors ready mirrors built
      rw [unchanged] at emitted
      have same : sendCall cfg i st = ([], st) := by
        rw [sendCall, found]
        simp only [built]
      rw [same]
      refine ⟨tracks, fun j => ?_⟩
      by_cases own : j = i
      · rw [own, here]
        exact emitted
      · exact others j own
    · obtain ⟨held, index', emitted, slot, followed⟩ := buildStreamDelta_mirrors ready mirrors built
      have sent : sendCall cfg i st
          = ([(yieldDelta cfg { toolCalls := some [delta.toChunkCall] } st).1],
            { (yieldDelta cfg { toolCalls := some [delta.toChunkCall] } st).2 with
              toolCalls := st.toolCalls.set i call', sawToolCall := true }) := by
        rw [sendCall, found]
        simp only [built]
        rfl
      rw [sent, List.foldl_cons, List.foldl_nil, read_yieldDelta, addDelta_toolCall]
      have slots := callAt_set inside call'
      have clients : ∀ j, clientAt (addCall m.calls delta.toChunkCall) j
          = if j = i then (clientAt m.calls i).add delta.toChunkCall else clientAt m.calls j := by
        intro j
        rw [clientAt_addCall, show delta.toChunkCall.index = i from slot.trans index]
        split_ifs with own
        · rw [own]
        · rfl
      refine ⟨⟨tracks.toolIndex, tracks.content, tracks.refusal, tracks.usage, fun j => ?_,
        fun j => ?_, fun j => ?_⟩, fun j => ?_⟩
      · dsimp only
        rw [slots j]
        split_ifs with own
        · rw [own, index', index]
        · exact tracks.index j
      · dsimp only
        rw [slots j, clients j]
        split_ifs with own
        · exact followed
        · exact tracks.mirrors j
      · dsimp only
        rw [slots j]
        split_ifs with own
        · rw [own]
          exact held.trans (here ▸ tracks.same i)
        · exact tracks.same j
      · dsimp only
        rw [slots j]
        split_ifs with own
        · exact emitted
        · exact others j own

theorem flushCalls_tracks (cfg : ChatConfig F) (slots : List ℕ) {st : ChatChunkState}
    {m : ClientMessage} {c : Collecting} (tracks : Tracks st m c) (settled : Settled st.toolCalls) :
    Tracks (flushCalls cfg slots st).2 ((flushCalls cfg slots st).1.foldl ClientMessage.read m) c ∧
      Settled (flushCalls cfg slots st).2.toolCalls := by
  induction slots generalizing st m with
  | nil => exact ⟨tracks, settled⟩
  | cons i rest ih =>
    obtain ⟨tracks', settled'⟩ :=
      sendCall_tracks cfg tracks (settled i).ready fun j _ => settled j
    obtain ⟨tracks'', settled''⟩ := ih tracks' settled'
    rw [flushCalls]
    dsimp only
    rw [List.foldl_append]
    exact ⟨tracks'', settled''⟩

/-! ## One event -/

/-- Whole arguments that the event gives for a call extend what is collected for it. -/
def ExtendsCall (c : Collecting) (payload : Obj F) : Prop :=
  ∀ delta ∈ (toolCallDeltaFromPayload payload c.toolIndex).1, delta.argumentsMode = .replace →
    ∀ arguments ∈ delta.arguments, (callAt c.toolCalls delta.index).arguments <+: arguments

/-- The texts of an event, without its tool call. -/
def collectText (payload : Obj F) (c : Collecting) : Collecting :=
  { collectParts payload c with toolIndex := c.toolIndex, toolCalls := c.toolCalls }

theorem textChunks_tracks (cfg : ChatConfig F) (payload : Obj F) {st : ChatChunkState}
    {m : ClientMessage} {c : Collecting} (tracks : Tracks st m c) :
    Tracks (textChunks cfg payload st).2
      ((textChunks cfg payload st).1.foldl ClientMessage.read m) (collectText payload c) := by
  obtain ⟨index, calls, -⟩ := textChunks_state cfg payload st
  have texts : ((textChunks cfg payload st).1.foldl ClientMessage.read m).content
        = (collectText payload c).contentParts.flatten ∧
      ((textChunks cfg payload st).1.foldl ClientMessage.read m).refusal
        = (collectText payload c).refusalParts.flatten ∧
      ((textChunks cfg payload st).1.foldl ClientMessage.read m).usage = none ∧
      ((textChunks cfg payload st).1.foldl ClientMessage.read m).calls = m.calls := by
    have flat : ∀ t : Option Str, t.toList.flatten = t.getD [] := by
      rintro (_ | t) <;> simp
    simp only [textChunks, collectText, collectParts]
    have distinct : text "response.output_text.delta" ≠ text "response.refusal.delta" := by decide
    by_cases refusal : eventType payload = some (text "response.refusal.delta")
    · simp [refusal, distinct.symm, read_yieldDelta, ClientMessage.addDelta, tracks.content,
        tracks.refusal, tracks.usage, flat]
    · by_cases content : eventType payload = some (text "response.output_text.delta")
      · simp [content, distinct, read_yieldDelta, ClientMessage.addDelta, tracks.content,
          tracks.refusal, tracks.usage, flat]
      · simp [refusal, content, tracks.content, tracks.refusal, tracks.usage]
  obtain ⟨content, refusal, usage, clients⟩ := texts
  refine ⟨index.trans tracks.toolIndex, content, refusal, usage, ?_, ?_, ?_⟩
  · rw [calls]
    exact tracks.index
  · rw [calls, clients]
    exact tracks.mirrors
  · rw [calls]
    exact tracks.same

theorem toolChunks_tracks (cfg : ChatConfig F) (payload : Obj F) {st : ChatChunkState}
    {m : ClientMessage} {c : Collecting} (tracks : Tracks st m (collectText payload c))
    (settled : Settled st.toolCalls) (extends_ : ExtendsCall c payload) :
    Tracks (toolChunks cfg payload st).2
        ((toolChunks cfg payload st).1.foldl ClientMessage.read m) (collectParts payload c) ∧
      Settled (toolChunks cfg payload st).2.toolCalls := by
  obtain ⟨toolIndex, content, refusal, usage, index, mirrors, same⟩ := tracks
  replace toolIndex : st.toolIndex = c.toolIndex := toolIndex
  replace same : ∀ i, SameCall (callAt st.toolCalls i) (callAt c.toolCalls i) := same
  obtain ⟨index', calls'⟩ := collectParts_calls payload c
  rw [ExtendsCall] at extends_
  rw [toolChunks, toolIndex]
  rcases read : toolCallDeltaFromPayload payload c.toolIndex with ⟨delta | delta, ix⟩
  · rw [read] at index' calls'
    refine ⟨⟨index'.symm, content, refusal, usage, index, mirrors, ?_⟩, settled⟩
    rw [calls']
    exact same
  · rw [read] at index' calls' extends_
    replace calls' : (collectParts payload c).toolCalls = mergeToolCallDelta c.toolCalls delta :=
      calls'
    have slots := callAt_merge st.toolCalls delta
    have merged : Tracks { st with toolIndex := ix, toolCalls := mergeToolCallDelta st.toolCalls delta }
        m (collectParts payload c) := by
      refine ⟨index'.symm, content, refusal, usage, fun i => ?_, fun i => ?_, fun i => ?_⟩
      · dsimp only
        rw [slots i]
        split_ifs
        · exact index i
        · exact index i
      · dsimp only
        rw [slots i]
        split_ifs
        · exact applyDelta_mirrors (mirrors i) delta
        · exact mirrors i
      · dsimp only
        rw [calls', slots i, callAt_merge]
        split_ifs
        · exact (same i).applyDelta delta
        · exact same i
    refine sendCall_tracks cfg merged ?_ fun j other => ?_
    · dsimp only
      rw [slots, if_pos rfl]
      refine applyDelta_ready (settled _) delta fun mode a given => ?_
      rw [(same delta.index).arguments]
      exact extends_ delta rfl mode a given
    · dsimp only
      rw [slots, if_neg other]
      exact settled j

/-- One event: the client follows what is collected, and the event is over if it is no response
that completes. -/
theorem eventChunks_tracks (cfg : ChatConfig F) {payload : Obj F} {st : ChatChunkState}
    {m : ClientMessage} {c : Collecting} (tracks : Tracks st m c) (settled : Settled st.toolCalls)
    (extends_ : ExtendsCall c payload) (noError : isErrorEvent payload = false) :
    ∃ out st', Tracks st' (out.foldl ClientMessage.read m) (collectParts payload c) ∧
      Settled st'.toolCalls ∧ Output.done ∉ out ∧
      eventChunks cfg payload st
        = (out ++ if isCompletionEvent payload then finishChunks cfg payload st' ++ [.done] else [],
          st', isCompletionEvent payload) := by
  have texts := textChunks_tracks cfg payload tracks
  have settled' : Settled (textChunks cfg payload st).2.toolCalls := by
    rw [(textChunks_state cfg payload st).2.1]
    exact settled
  obtain ⟨calls, settled''⟩ := toolChunks_tracks cfg payload texts settled' extends_
  have undoneTexts := (textChunks_deltas cfg payload st).no_done
  have undoneCalls := (toolChunks_deltas cfg payload (textChunks cfg payload st).2).no_done
  rw [← List.foldl_append] at calls
  cases completion : isCompletionEvent payload with
  | false =>
    refine ⟨_, _, calls, settled'', by simp [undoneTexts, undoneCalls], ?_⟩
    rw [eventChunks, noError, completion]
    simp
  | true =>
    obtain ⟨flushed, settledFlush⟩ := flushCalls_tracks cfg
      (List.range (toolChunks cfg payload (textChunks cfg payload st).2).2.toolCalls.length)
      calls settled''
    have undoneFlush := (flushCalls_deltas cfg
      (List.range (toolChunks cfg payload (textChunks cfg payload st).2).2.toolCalls.length)
      (toolChunks cfg payload (textChunks cfg payload st).2).2).no_done
    rw [← List.foldl_append] at flushed
    refine ⟨_, _, flushed, settledFlush, by simp [undoneTexts, undoneCalls, undoneFlush], ?_⟩
    rw [eventChunks, noError, completion]
    simp

/-! ## Whole streams -/

/-- Whole arguments extend what is collected before them, all along. -/
def SnapshotsExtend (payloads : List (Obj F)) (c : Collecting) : Prop :=
  ∀ front payload back, payloads = front ++ payload :: back →
    ExtendsCall (collectAll front c) payload

theorem SnapshotsExtend.head {payload : Obj F} {rest : List (Obj F)} {c : Collecting}
    (snapshots : SnapshotsExtend (payload :: rest) c) : ExtendsCall c payload :=
  snapshots [] payload rest rfl

theorem SnapshotsExtend.tail {payload : Obj F} {rest : List (Obj F)} {c : Collecting}
    (snapshots : SnapshotsExtend (payload :: rest) c) :
    SnapshotsExtend rest (collectParts payload c) := by
  rintro front p back rfl
  exact snapshots (payload :: front) p back rfl

/-- Events that are not terminal: the client follows what is collected. -/
theorem streamFrom_tracks {lines : List Str}
    (open_ : ∀ payload ∈ events cfg lines, isTerminal payload = false) {st : ChatChunkState}
    {m : ClientMessage} {c : Collecting} (tracks : Tracks st m c) (settled : Settled st.toolCalls)
    (later : List (Obj F)) (snapshots : SnapshotsExtend (events cfg lines ++ later) c) :
    ∃ out st', Tracks st' (out.foldl ClientMessage.read m) (collectAll (events cfg lines) c) ∧
      Settled st'.toolCalls ∧ SnapshotsExtend later (collectAll (events cfg lines) c) ∧
      ∀ rest, streamFrom cfg (lines ++ rest) false st = out ++ streamFrom cfg rest false st' := by
  induction lines generalizing st m c with
  | nil => exact ⟨[], st, tracks, settled, snapshots, fun _ => rfl⟩
  | cons line lines ih =>
    cases parses : parseData cfg line with
    | none =>
      have same : events cfg (line :: lines) = events cfg lines := List.filterMap_cons_none parses
      rw [same] at open_ snapshots ⊢
      obtain ⟨out, st', tracks', settled', snapshots', streams⟩ :=
        ih open_ tracks settled snapshots
      refine ⟨out, st', tracks', settled', snapshots', fun rest => ?_⟩
      rw [List.cons_append, streamFrom_silent parses, streams]
    | some payload =>
      have same : events cfg (line :: lines) = payload :: events cfg lines :=
        List.filterMap_cons_some parses
      rw [same] at open_ snapshots ⊢
      have here := open_ payload List.mem_cons_self
      rw [isTerminal, Bool.or_eq_false_iff] at here
      obtain ⟨front, st₁, tracks₁, settled₁, undone, yields⟩ :=
        eventChunks_tracks cfg tracks settled snapshots.head here.1
      rw [here.2, if_neg (by simp), List.append_nil] at yields
      obtain ⟨out, st', tracks', settled', snapshots', streams⟩ :=
        ih (fun p mem => open_ p (List.mem_cons_of_mem _ mem)) tracks₁ settled₁ snapshots.tail
      rw [← List.foldl_append] at tracks'
      refine ⟨front ++ out, st', tracks', settled', snapshots', fun rest => ?_⟩
      rw [List.cons_append, streamFrom_goesOn parses yields undone, streams, List.append_assoc]

/-- What the client holds, beside the completion: a null text reads as an empty one, and the usage
is in the stream only if it is asked for. -/
structure Carries (m : ClientMessage) (completion : ChatCompletion) (includeUsage : Bool) : Prop where
  content : m.content = completion.message.content.getD []
  refusal : m.refusal = completion.message.refusal.getD []
  calls : m.calls.filterMap ClientCall.view
    = (completion.message.toolCalls.getD []).map MessageToolCall.view
  usage : m.usage = if includeUsage then completion.usage else none

theorem tracks_start : Tracks .start .start .start :=
  ⟨rfl, rfl, rfl, rfl, fun _ => rfl, fun _ => ⟨rfl, rfl, rfl, rfl⟩, fun _ => ⟨rfl, rfl, rfl, rfl⟩⟩

theorem Tracks.calls_eq {st : ChatChunkState} {m : ClientMessage} {c : Collecting}
    (tracks : Tracks st m c) (settled : Settled st.toolCalls) :
    m.calls.filterMap ClientCall.view = (compactToolCalls c.toolCalls).map MessageToolCall.view := by
  rw [compactToolCalls, List.map_filterMap]
  rw [filterMap_range ClientCall.view m.calls (clientAt m.calls)
      (fun i inside => by rw [clientAt, List.getElem?_eq_getElem inside]; rfl)
      (le_max_left m.calls.length c.toolCalls.length)
      (fun i past => by rw [clientAt, List.getElem?_eq_none past]; rfl),
    filterMap_range _ c.toolCalls (callAt c.toolCalls)
      (fun i inside => by rw [callAt, List.getElem?_eq_getElem inside]; rfl)
      (le_max_right m.calls.length c.toolCalls.length)
      (fun i past => by rw [callAt, List.getElem?_eq_none past]; rfl)]
  refine List.filterMap_congr fun i _ => ?_
  exact (settled i).view_eq (tracks.mirrors i) (tracks.same i)

/-- The chunks behind the last delta change the usage alone. -/
theorem finishChunks_read (cfg : ChatConfig F) (payload : Obj F) (st : ChatChunkState)
    {m : ClientMessage} (unset : m.usage = none) :
    (finishChunks cfg payload st ++ [Output.done]).foldl ClientMessage.read m
      = { m with usage := if cfg.includeUsage then
            (asObj (payload.get "response")).bind fun response =>
              mapUsage (parseUsage (response.get "usage")) else none } := by
  rw [finishChunks]
  cases cfg.includeUsage with
  | false => simp [ClientMessage.read, ClientMessage.addDelta, ← unset]
  | true => simp [ClientMessage.read, ClientMessage.addDelta, unset]

theorem collectResponse_usage (payload : Obj F) {c : Collecting} (unset : c.usage = none) :
    mapUsage (collectResponse payload c).usage
      = (asObj (payload.get "response")).bind fun response =>
          mapUsage (parseUsage (response.get "usage")) := by
  rw [collectResponse]
  cases asObj (payload.get "response") with
  | none =>
    dsimp only
    rw [unset]
    rfl
  | some response => rfl

theorem collectResponse_parts (payload : Obj F) (c : Collecting) :
    (collectResponse payload c).contentParts = c.contentParts ∧
      (collectResponse payload c).refusalParts = c.refusalParts ∧
      (collectResponse payload c).toolCalls = c.toolCalls := by
  rw [collectResponse]
  split <;> exact ⟨rfl, rfl, rfl⟩

/-- The message of a completion, with its texts read as a client reads them. -/
theorem finishCollecting_message (cfg : ChatConfig F) (c : Collecting) :
    (finishCollecting cfg c).message.content.getD [] = c.contentParts.flatten ∧
      (finishCollecting cfg c).message.refusal.getD [] = c.refusalParts.flatten ∧
      (finishCollecting cfg c).message.toolCalls.getD [] = compactToolCalls c.toolCalls := by
  simp only [finishCollecting]
  refine ⟨?_, ?_, ?_⟩
  · split_ifs with empty
    · exact empty.2.symm
    · rfl
  · split_ifs with empty
    · exact empty.symm
    · rfl
  · split_ifs with empty
    · exact empty.symm
    · rfl

/-- On events that end with their only terminal one, a completed or incomplete response, a client
folds the stream to the message that is collected, and to its usage if it asks for it. -/
theorem stream_folds_to_completion (cfg : ChatConfig F) {before after : List Str} {line : Str}
    {payload : Obj F} (open_ : ∀ p ∈ events cfg before, isTerminal p = false)
    (parses : parseData cfg line = some payload) (completes : isCompletionEvent payload = true)
    (last : events cfg after = [])
    (snapshots : SnapshotsExtend (events cfg before ++ [payload]) .start) :
    ∃ completion, collectChatCompletion cfg (before ++ line :: after) = .completion completion ∧
      Carries (foldClient (streamChatChunks cfg (before ++ line :: after))) completion
        cfg.includeUsage := by
  have noError := completion_no_error completes
  obtain ⟨front, st, tracks, settled, snapshots', streams⟩ :=
    streamFrom_tracks open_ tracks_start (fun i => emitted_blank i) [payload] snapshots
  obtain ⟨out, st', tracks', settled', undone, yields⟩ :=
    eventChunks_tracks cfg tracks settled snapshots'.head noError
  rw [completes, if_pos rfl] at yields
  have body : Output.done ∉ out ++ finishChunks cfg payload st' := by
    obtain ⟨body, ending, silent⟩ := endChunks_done cfg payload st'
    rw [endChunks, noError, if_neg (by simp)] at ending
    rw [List.append_cancel_right ending]
    simp [undone, silent]
  rw [← List.append_assoc] at yields
  have sent : streamChatChunks cfg (before ++ line :: after)
      = front ++ (out ++ (finishChunks cfg payload st' ++ [.done])) := by
    rw [streamChatChunks, streams, streamFrom_finishes parses yields body after, List.append_assoc]
  have collected : collectChatCompletion cfg (before ++ line :: after)
      = .completion (collectedAt cfg before payload) := by
    rw [collectChatCompletion, collectFrom_open open_, collectFrom, parses]
    dsimp only
    rw [noError, completes, if_neg (by simp), if_pos rfl]
    have open_after : ∀ p ∈ events cfg after, isTerminal p = false := by
      rw [last]
      simp
    have silent := collectFrom_open open_after []
    rw [List.append_nil, last] at silent
    rw [silent, collectFrom, collectedAt, collectAll_append]
    rfl
  refine ⟨_, collected, ?_⟩
  rw [← List.foldl_append] at tracks'
  obtain ⟨contentParts, refusalParts, toolCalls⟩ := collectResponse_parts payload
    (collectAll (events cfg before ++ [payload]) .start)
  obtain ⟨content, refusal, calls⟩ := finishCollecting_message cfg
    (collectResponse payload (collectAll (events cfg before ++ [payload]) .start))
  have held : collectAll (events cfg before ++ [payload]) .start
      = collectParts payload (collectAll (events cfg before) .start) := by
    rw [collectAll_append]
    rfl
  rw [sent, foldClient, ← List.append_assoc, List.foldl_append, finishChunks_read cfg payload st'
    tracks'.usage]
  refine ⟨?_, ?_, ?_, ?_⟩
  · rw [collectedAt, content, contentParts, held]
    exact tracks'.content
  · rw [collectedAt, refusal, refusalParts, held]
    exact tracks'.refusal
  · rw [collectedAt, calls, toolCalls, held]
    exact tracks'.calls_eq settled'
  · rw [← collectResponse_usage payload (collectAll_response (events cfg before ++ [payload]) .start).1]
    rfl

theorem snapshotsExtend_cons {payload : Obj F} {rest : List (Obj F)} {c : Collecting} :
    SnapshotsExtend (payload :: rest) c ↔
      ExtendsCall c payload ∧ SnapshotsExtend rest (collectParts payload c) := by
  refine ⟨fun snapshots => ⟨snapshots.head, snapshots.tail⟩, fun ⟨first, later⟩ => ?_⟩
  intro front p back split
  cases front with
  | nil =>
    cases split
    exact first
  | cons q front =>
    cases split
    exact later front p back rfl

instance (c : Collecting) (payload : Obj F) : Decidable (ExtendsCall c payload) :=
  inferInstanceAs (Decidable (∀ delta ∈ (toolCallDeltaFromPayload payload c.toolIndex).1,
    delta.argumentsMode = .replace → ∀ arguments ∈ delta.arguments,
      (callAt c.toolCalls delta.index).arguments <+: arguments))

instance decidableSnapshotsExtend : (payloads : List (Obj F)) → (c : Collecting) →
    Decidable (SnapshotsExtend payloads c)
  | [], _ => .isTrue fun front _ _ split => by cases front <;> cases split
  | payload :: rest, c =>
    have := decidableSnapshotsExtend rest (collectParts payload c)
    decidable_of_iff' _ snapshotsExtend_cons

/-- Behind the first character of its arguments, the call's arguments as a whole. -/
def snapshotLines : List Str :=
  textAndCall ++ [eventLine [(text "type", .str (text "response.function_call_arguments.done")),
    (text "call_id", .str (text "c")), (text "arguments", .str (text "[]"))]]

theorem stream_folds_to_completion_snapshot :
    ∃ completion, collectChatCompletion plainConfig
        (snapshotLines ++ eventLine (typed "response.completed") :: []) = .completion completion ∧
      Carries (foldClient (streamChatChunks plainConfig
        (snapshotLines ++ eventLine (typed "response.completed") :: []))) completion true := by
  have parses : parseData plainConfig (eventLine (typed "response.completed"))
      = some (typed "response.completed") := by
    rw [parseData]
    exact congrArg (Option.filter _) (Sse.formatSseData_round_trip
      (Sse.loads_typed (t := text "response.completed") (by decide +kernel))).1
  have open_ : (events plainConfig snapshotLines).all (fun p => !isTerminal p) = true := by
    decide +kernel
  simp only [List.all_eq_true, Bool.not_eq_true'] at open_
  exact stream_folds_to_completion plainConfig open_ parses (by decide +kernel) rfl
    (by decide +kernel)

def ChatCompletionResult.usage : ChatCompletionResult F → Option ChatCompletionUsage
  | .completion c => c.usage
  | .error _ => none

def usageResponse : Obj {t : Str // isFloatLiteral t = true} :=
  [(text "type", .str (text "response.completed")),
    (text "response", .dict [(text "usage", .dict [(text "input_tokens", .int 1)])])]

/-- The stream that is not asked for usage has none, unlike the collected completion. -/
theorem stream_folds_without_usage :
    (foldClient (streamChatChunks { plainConfig with includeUsage := false }
        [eventLine usageResponse])).usage = none ∧
      (collectChatCompletion { plainConfig with includeUsage := false }
        [eventLine usageResponse]).usage = some ⟨some 1, none, none, none, none⟩ := by
  exact ⟨by decide +kernel, by decide +kernel⟩

end Chat
