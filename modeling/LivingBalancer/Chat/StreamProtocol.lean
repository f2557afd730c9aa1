import LivingBalancer.Chat.ToolCallSlots

/-!
# The protocol of the chat stream

Chunks with a delta come first, the role in the first of them. The event that ends the stream
is a completed or incomplete response, or an error with an error object: only these yield the
end marker. The collected completion also ends on an error without one.
-/

namespace Chat

open PyJson
open ToolCallDedupe (Obj Obj.get asStr asObj)

variable {F : Type} {cfg : ChatConfig F}

/-! ## Outputs -/

/-- Chunks with one choice that is not finished, the role in the first chunk unless it was
sent before. -/
inductive Deltas : Bool → List (Output F) → Bool → Prop where
  | nil (sent : Bool) : Deltas sent [] sent
  | cons {sent sent' : Bool} {rest : List (Output F)} {created : ℤ} {model : Str}
      {delta : ChatChunkDelta} (role : delta.role = if sent then none else some (text "assistant"))
      (tail : Deltas true rest sent') :
      Deltas sent (.chunk ⟨created, model, [⟨0, delta, none⟩], none⟩ :: rest) sent'

theorem Deltas.append {a b c : Bool} {x y : List (Output F)} (front : Deltas a x b)
    (back : Deltas b y c) : Deltas a (x ++ y) c := by
  induction front with
  | nil => exact back
  | cons role _ ih => exact .cons role (ih back)

theorem yieldDelta_deltas (cfg : ChatConfig F) (delta : ChatChunkDelta) (st : ChatChunkState) :
    Deltas st.sentRole [(yieldDelta cfg delta st).1] (yieldDelta cfg delta st).2.sentRole := by
  have sent : (yieldDelta cfg delta st).2.sentRole = true := by
    simp only [yieldDelta]
    cases st.sentRole <;> rfl
  rw [sent]
  exact .cons rfl (.nil true)

/-- The text of an output is the end marker's for the end marker alone. -/
theorem strip_text_iff (fmt : FloatText F) (includeUsage : Bool) (o : Output F) :
    Sse.strip (o.text fmt includeUsage) = text "data: [DONE]" ↔ o = .done := by
  have braced : ∀ payload : Obj F, Sse.strip (Sse.formatSseData fmt payload) ≠ text "data: [DONE]" := by
    intro payload same
    have head := dumpsAscii_head fmt payload
    have inside : code '\x7b' ∈ Sse.formatSseData fmt payload :=
      List.mem_append_left _ (List.mem_append_right _ (List.mem_of_head? head))
    have kept := Sse.mem_strip inside (by decide)
    rw [same] at kept
    exact absurd kept (by decide)
  have marker : Sse.strip (text "data: [DONE]\n\n") = text "data: [DONE]" := by decide
  cases o with
  | chunk c => exact iff_of_false (braced _) (by simp)
  | error e => exact iff_of_false (braced _) (by simp)
  | done => exact iff_of_true marker rfl

theorem Deltas.no_done {a b : Bool} {out : List (Output F)} (deltas : Deltas a out b) :
    Output.done ∉ out := by
  induction deltas with
  | nil => simp
  | cons _ _ ih => simpa using ih

theorem forwardChunks_open {chunks : List (Output F)} (undone : Output.done ∉ chunks) :
    forwardChunks cfg chunks = (chunks, false) := by
  induction chunks with
  | nil => rfl
  | cons o rest ih =>
    rw [List.mem_cons, not_or] at undone
    rw [forwardChunks, if_neg (by rw [strip_text_iff]; exact Ne.symm undone.1), ih undone.2]

theorem forwardChunks_done {chunks : List (Output F)} (undone : Output.done ∉ chunks) :
    forwardChunks cfg (chunks ++ [.done]) = (chunks ++ [.done], true) := by
  induction chunks with
  | nil => rw [List.nil_append, forwardChunks, if_pos ((strip_text_iff _ _ _).mpr rfl)]
  | cons o rest ih =>
    rw [List.mem_cons, not_or] at undone
    rw [List.cons_append, forwardChunks, if_neg (by rw [strip_text_iff]; exact Ne.symm undone.1),
      ih undone.2]

/-! ## One event -/

/-- The state behind some deltas: it has sent a tool call exactly if there was one. -/
structure Seen (st : ChatChunkState) (deltas : List ToolCallDelta) (ix : ToolCallIndex) : Prop where
  toolIndex : st.toolIndex = ix
  saw : st.sawToolCall = true ↔ deltas ≠ []
  none_yet : deltas = [] → st.toolCalls = []

theorem textChunks_deltas (cfg : ChatConfig F) (payload : Obj F) (st : ChatChunkState) :
    Deltas st.sentRole (textChunks cfg payload st).1 (textChunks cfg payload st).2.sentRole := by
  simp only [textChunks]
  split_ifs
  · exact yieldDelta_deltas cfg _ st
  · exact yieldDelta_deltas cfg _ st
  · exact .nil _

theorem textChunks_state (cfg : ChatConfig F) (payload : Obj F) (st : ChatChunkState) :
    (textChunks cfg payload st).2.toolIndex = st.toolIndex ∧
      (textChunks cfg payload st).2.toolCalls = st.toolCalls ∧
      (textChunks cfg payload st).2.sawToolCall = st.sawToolCall := by
  simp only [textChunks]
  split_ifs <;> exact ⟨rfl, rfl, rfl⟩

/-- Sending the call of a slot: nothing, or one chunk with its pending parts. -/
theorem sendCall_cases (cfg : ChatConfig F) (i : ℕ) (st : ChatChunkState) :
    sendCall cfg i st = ([], st) ∨
      ∃ call delta call', st.toolCalls[i]? = some call ∧
        call.buildStreamDelta = (some delta, call') ∧
        sendCall cfg i st
          = ([(yieldDelta cfg { toolCalls := some [delta.toChunkCall] } st).1],
            { (yieldDelta cfg { toolCalls := some [delta.toChunkCall] } st).2 with
              toolCalls := st.toolCalls.set i call', sawToolCall := true }) := by
  rw [sendCall]
  split
  · exact .inl rfl
  · rename_i call found
    split
    · exact .inl rfl
    · rename_i delta call' built
      exact .inr ⟨call, delta, call', found, built, rfl⟩

theorem sendCall_deltas (cfg : ChatConfig F) (i : ℕ) (st : ChatChunkState) :
    Deltas st.sentRole (sendCall cfg i st).1 (sendCall cfg i st).2.sentRole := by
  rcases sendCall_cases cfg i st with same | ⟨call, delta, call', _, _, same⟩
  · rw [same]
    exact .nil _
  · rw [same]
    exact yieldDelta_deltas cfg _ st

theorem sendCall_state (cfg : ChatConfig F) (i : ℕ) (st : ChatChunkState) :
    (sendCall cfg i st).2.toolIndex = st.toolIndex ∧
      (st.sawToolCall = true → (sendCall cfg i st).2.sawToolCall = true) := by
  rcases sendCall_cases cfg i st with same | ⟨call, delta, call', _, _, same⟩
  · rw [same]
    exact ⟨rfl, id⟩
  · rw [same]
    exact ⟨rfl, fun _ => rfl⟩

/-- A call that has sent nothing has its type to send. -/
theorem sendCall_first (cfg : ChatConfig F) {i : ℕ} {st : ChatChunkState} {call : ToolCallState}
    (found : st.toolCalls[i]? = some call) (unsent : call.emittedToolType = none) :
    (sendCall cfg i st).2.sawToolCall = true := by
  rcases sendCall_cases cfg i st with same | ⟨_, _, _, _, _, same⟩
  · rw [sendCall, found] at same
    simp [ToolCallState.buildStreamDelta, unsent] at same
  · rw [same]

theorem flushCalls_deltas (cfg : ChatConfig F) (slots : List ℕ) (st : ChatChunkState) :
    Deltas st.sentRole (flushCalls cfg slots st).1 (flushCalls cfg slots st).2.sentRole := by
  induction slots generalizing st with
  | nil => exact .nil _
  | cons i rest ih => exact (sendCall_deltas cfg i st).append (ih _)

theorem flushCalls_state (cfg : ChatConfig F) (slots : List ℕ) (st : ChatChunkState) :
    (flushCalls cfg slots st).2.toolIndex = st.toolIndex ∧
      (st.sawToolCall = true → (flushCalls cfg slots st).2.sawToolCall = true) := by
  induction slots generalizing st with
  | nil => exact ⟨rfl, id⟩
  | cons i rest ih =>
    obtain ⟨index, kept⟩ := sendCall_state cfg i st
    obtain ⟨index', kept'⟩ := ih (sendCall cfg i st).2
    exact ⟨index'.trans index, fun saw => kept' (kept saw)⟩

theorem flushCalls_seen (cfg : ChatConfig F) {st : ChatChunkState} {deltas : List ToolCallDelta}
    {ix : ToolCallIndex} (seen : Seen st deltas ix) :
    Seen (flushCalls cfg (List.range st.toolCalls.length) st).2 deltas ix := by
  by_cases first : deltas = []
  · rw [seen.none_yet first]
    exact seen
  · obtain ⟨index, kept⟩ := flushCalls_state cfg (List.range st.toolCalls.length) st
    exact ⟨index.trans seen.toolIndex, iff_of_true (kept (seen.saw.mpr first)) first,
      fun empty => absurd empty first⟩

theorem toolChunks_deltas (cfg : ChatConfig F) (payload : Obj F) (st : ChatChunkState) :
    Deltas st.sentRole (toolChunks cfg payload st).1 (toolChunks cfg payload st).2.sentRole := by
  rw [toolChunks]
  split
  · exact .nil _
  · rename_i delta toolIndex _
    exact sendCall_deltas cfg delta.index
      { st with toolIndex, toolCalls := mergeToolCallDelta st.toolCalls delta }

theorem toolChunks_seen (cfg : ChatConfig F) (payload : Obj F) {st : ChatChunkState}
    {deltas : List ToolCallDelta} {ix : ToolCallIndex} (seen : Seen st deltas ix) :
    Seen (toolChunks cfg payload st).2 (deltas ++ (toolCallDeltaFromPayload payload ix).1.toList)
      (toolCallDeltaFromPayload payload ix).2 := by
  obtain ⟨toolIndex, saw, none_yet⟩ := seen
  rw [toolChunks, toolIndex]
  rcases read : toolCallDeltaFromPayload payload ix with ⟨delta | delta, ix'⟩
  · simpa using ⟨rfl, saw, none_yet⟩
  · simp only [Option.toList_some]
    obtain ⟨index, kept⟩ := sendCall_state cfg delta.index
      { st with toolIndex := ix', toolCalls := mergeToolCallDelta st.toolCalls delta }
    refine ⟨index, iff_of_true ?_ (by simp), fun empty => absurd empty (by simp)⟩
    by_cases first : deltas = []
    · -- The call is the first of the stream, so its slot was blank.
      rw [none_yet first]
      have inside : delta.index < (mergeToolCallDelta [] delta).length := by
        rw [mergeToolCallDelta, List.length_modify]
        exact padToolCalls_length [] delta.index
      have found := List.getElem?_eq_getElem inside
      have merged := callAt_merge [] delta delta.index
      rw [callAt, found, if_pos rfl] at merged
      refine sendCall_first cfg found ?_
      rw [show (mergeToolCallDelta [] delta)[delta.index] = _ from merged]
      rfl
    · exact kept (saw.mpr first)

/-- The events that end the stream. -/
def ends (payload : Obj F) : Bool :=
  (isErrorEvent payload && (errorObject payload).isSome) || isCompletionEvent payload

/-- What an event that ends the stream yields behind the deltas. -/
def endChunks (cfg : ChatConfig F) (payload : Obj F) (st : ChatChunkState) : List (Output F) :=
  match if isErrorEvent payload then errorObject payload else none with
  | some error => [.error error, .done]
  | none => finishChunks cfg payload st ++ [.done]

/-- One event: deltas, and an ending if it is one that ends the stream. -/
theorem eventChunks_spec (cfg : ChatConfig F) (payload : Obj F) {st : ChatChunkState}
    {deltas : List ToolCallDelta} {ix : ToolCallIndex} (seen : Seen st deltas ix) :
    ∃ out st', Deltas st.sentRole out st'.sentRole ∧
      Seen st' (deltas ++ (toolCallDeltaFromPayload payload ix).1.toList)
        (toolCallDeltaFromPayload payload ix).2 ∧
      eventChunks cfg payload st
        = (out ++ if ends payload then endChunks cfg payload st' else [], st', ends payload) := by
  have texts := textChunks_deltas cfg payload st
  have calls := toolChunks_deltas cfg payload (textChunks cfg payload st).2
  obtain ⟨same, sameCalls, sameSaw⟩ := textChunks_state cfg payload st
  have seen' : Seen (textChunks cfg payload st).2 deltas ix :=
    ⟨same.trans seen.toolIndex, sameSaw ▸ seen.saw, sameCalls ▸ seen.none_yet⟩
  have after := toolChunks_seen cfg payload seen'
  have flushed := flushCalls_seen cfg after
  have flushes := flushCalls_deltas cfg
    (List.range (toolChunks cfg payload (textChunks cfg payload st).2).2.toolCalls.length)
    (toolChunks cfg payload (textChunks cfg payload st).2).2
  rw [eventChunks]
  generalize textChunks cfg payload st = a at *
  obtain ⟨textOut, st₁⟩ := a
  dsimp only at *
  generalize toolChunks cfg payload st₁ = b at *
  obtain ⟨callOut, st₂⟩ := b
  dsimp only at *
  cases error : (if isErrorEvent payload then errorObject payload else none) with
  | some e =>
    have ended : ends payload = true := by
      split_ifs at error with event
      simp [ends, event, error]
    refine ⟨textOut ++ callOut, st₂, texts.append calls, after, ?_⟩
    rw [if_pos ended, endChunks, error, ended]
  | none =>
    cases completion : isCompletionEvent payload with
    | true =>
      have ended : ends payload = true := by rw [ends, completion, Bool.or_true]
      generalize flushCalls cfg _ st₂ = c at *
      obtain ⟨flushOut, st₃⟩ := c
      refine ⟨textOut ++ callOut ++ flushOut, st₃, (texts.append calls).append flushes, flushed, ?_⟩
      rw [if_pos ended, endChunks, error, ended]
      simp
    | false =>
      have unended : ends payload = false := by
        rw [ends, completion, Bool.or_false]
        split_ifs at error with event
        · rw [event, error]
          rfl
        · rw [Bool.not_eq_true] at event
          rw [event, Bool.false_and]
      refine ⟨textOut ++ callOut, st₂, texts.append calls, after, ?_⟩
      rw [unended]
      simp

/-! ## Whole streams -/

/-- The events of a stream. -/
def events (cfg : ChatConfig F) (lines : List Str) : List (Obj F) := lines.filterMap (parseData cfg)

theorem streamFrom_sent (lines : List Str) (st : ChatChunkState) :
    streamFrom cfg lines true st = [] := by
  induction lines with
  | nil => rfl
  | cons line rest ih => exact ih

theorem endChunks_done (cfg : ChatConfig F) (payload : Obj F) (st : ChatChunkState) :
    ∃ body, endChunks cfg payload st = body ++ [.done] ∧ Output.done ∉ body := by
  rw [endChunks]
  split
  · exact ⟨[_], rfl, by simp⟩
  · refine ⟨_, rfl, ?_⟩
    simp only [finishChunks]
    split_ifs <;> simp

theorem streamFrom_silent {line : Str} (silent : parseData cfg line = none) (rest : List Str)
    (st : ChatChunkState) : streamFrom cfg (line :: rest) false st = streamFrom cfg rest false st := by
  rw [streamFrom]
  simp [iterChatChunks, silent, forwardChunks]

theorem streamFrom_goesOn {line : Str} {payload : Obj F} {chunks : List (Output F)}
    {st st' : ChatChunkState} (parses : parseData cfg line = some payload)
    (yields : eventChunks cfg payload st = (chunks, st', false)) (undone : Output.done ∉ chunks)
    (rest : List Str) :
    streamFrom cfg (line :: rest) false st = chunks ++ streamFrom cfg rest false st' := by
  have iterated : iterChatChunks cfg [line] st = (chunks, st') := by
    rw [iterChatChunks, parses]
    simp [yields, iterChatChunks]
  rw [streamFrom, iterated]
  dsimp only
  rw [forwardChunks_open undone]

theorem streamFrom_finishes {line : Str} {payload : Obj F} {body : List (Output F)}
    {st st' : ChatChunkState} (parses : parseData cfg line = some payload)
    (yields : eventChunks cfg payload st = (body ++ [.done], st', true))
    (undone : Output.done ∉ body) (rest : List Str) :
    streamFrom cfg (line :: rest) false st = body ++ [.done] := by
  have iterated : iterChatChunks cfg [line] st = (body ++ [.done], st') := by
    rw [iterChatChunks, parses]
    simp only [yields]
  rw [streamFrom, iterated]
  dsimp only
  rw [forwardChunks_done undone]
  dsimp only
  rw [streamFrom_sent, List.append_nil]

theorem streamFrom_event {line : Str} {payload : Obj F} (parses : parseData cfg line = some payload)
    {st : ChatChunkState} {deltas : List ToolCallDelta} {ix : ToolCallIndex}
    (seen : Seen st deltas ix) :
    ∃ out st', Deltas st.sentRole out st'.sentRole ∧
      Seen st' (deltas ++ (toolCallDeltaFromPayload payload ix).1.toList)
        (toolCallDeltaFromPayload payload ix).2 ∧
      ∀ rest, streamFrom cfg (line :: rest) false st
        = out ++ if ends payload then endChunks cfg payload st'
          else streamFrom cfg rest false st' := by
  obtain ⟨out, st', chunks, after, yields⟩ := eventChunks_spec cfg payload seen
  refine ⟨out, st', chunks, after, fun rest => ?_⟩
  have undone := chunks.no_done
  cases ended : ends payload with
  | true =>
    obtain ⟨body, ending, silent⟩ := endChunks_done cfg payload st'
    rw [ended, if_pos rfl, ending, ← List.append_assoc] at yields
    rw [streamFrom_finishes parses yields (by simp [undone, silent]), if_pos rfl, ending,
      List.append_assoc]
  | false =>
    rw [ended, if_neg (by simp), List.append_nil] at yields
    rw [streamFrom_goesOn parses yields undone, if_neg (by simp)]

/-- Events that do not end the stream yield deltas. -/
theorem streamFrom_open {lines : List Str} (unended : ∀ payload ∈ events cfg lines, ends payload = false)
    {st : ChatChunkState} {deltas : List ToolCallDelta} {ix : ToolCallIndex}
    (seen : Seen st deltas ix) :
    ∃ out st', Deltas st.sentRole out st'.sentRole ∧
      Seen st' (deltas ++ toolDeltas (events cfg lines) ix) (indexAfter (events cfg lines) ix) ∧
      ∀ rest, streamFrom cfg (lines ++ rest) false st = out ++ streamFrom cfg rest false st' := by
  induction lines generalizing st deltas ix with
  | nil => exact ⟨[], st, .nil _, by simpa [events, toolDeltas, indexAfter] using seen, fun _ => rfl⟩
  | cons line lines ih =>
    cases parses : parseData cfg line with
    | none =>
      have same : events cfg (line :: lines) = events cfg lines := List.filterMap_cons_none parses
      rw [same] at unended ⊢
      obtain ⟨out, st', chunks, after, streams⟩ := ih unended seen
      refine ⟨out, st', chunks, after, fun rest => ?_⟩
      rw [List.cons_append, streamFrom_silent parses, streams]
    | some payload =>
      have same : events cfg (line :: lines) = payload :: events cfg lines :=
        List.filterMap_cons_some parses
      rw [same] at unended ⊢
      have here := unended payload List.mem_cons_self
      obtain ⟨front, st₁, chunks₁, seen₁, streams₁⟩ := streamFrom_event parses seen
      obtain ⟨out, st', chunks, after, streams⟩ :=
        ih (fun p mem => unended p (List.mem_cons_of_mem _ mem)) seen₁
      refine ⟨front ++ out, st', chunks₁.append chunks, ?_, fun rest => ?_⟩
      · rw [toolDeltas, ← List.append_assoc]
        exact after
      · rw [List.cons_append, streams₁, here, if_neg (by simp), streams, List.append_assoc]

theorem seen_start : Seen .start [] .start := ⟨rfl, iff_of_false (by decide) (by simp), fun _ => rfl⟩

/-- A stream up to the event that ends it: deltas, and its ending. -/
theorem streamChatChunks_ended {before : List Str} (after : List Str) {line : Str} {payload : Obj F}
    (unended : ∀ p ∈ events cfg before, ends p = false)
    (parses : parseData cfg line = some payload) (ended : ends payload = true) :
    ∃ out sent st', Deltas false out sent ∧
      Seen st' (toolDeltas (events cfg (before ++ [line])) .start)
        (indexAfter (events cfg (before ++ [line])) .start) ∧
      streamChatChunks cfg (before ++ line :: after) = out ++ endChunks cfg payload st' := by
  obtain ⟨front, st₁, chunks₁, seen₁, streams₁⟩ := streamFrom_open unended seen_start
  obtain ⟨out, st', chunks, seen, streams⟩ := streamFrom_event parses seen₁
  refine ⟨front ++ out, _, st', chunks₁.append chunks, ?_, ?_⟩
  · have last : events cfg [line] = [payload] := by simp [events, parses]
    have all : events cfg (before ++ [line]) = events cfg before ++ [payload] := by
      rw [← last]
      exact List.filterMap_append ..
    rw [all, toolDeltas_append, indexAfter_append]
    rw [toolDeltas, toolDeltas, List.append_nil]
    exact seen
  · rw [streamChatChunks, streams₁, streams, ended, if_pos rfl, List.append_assoc]

theorem streamChatChunks_open (lines : List Str) (unended : ∀ p ∈ events cfg lines, ends p = false) :
    ∃ sent, Deltas false (streamChatChunks cfg lines) sent := by
  obtain ⟨out, st', chunks, -, streams⟩ := streamFrom_open unended seen_start
  have whole := streams []
  rw [List.append_nil, streamFrom, List.append_nil] at whole
  rw [streamChatChunks, whole]
  exact ⟨_, chunks⟩

/-! ## The collected result -/

/-- What is collected from events none of which is terminal. -/
def collectAll (payloads : List (Obj F)) (c : Collecting) : Collecting :=
  payloads.foldl (fun c payload => collectParts payload c) c

theorem collectAll_append (front back : List (Obj F)) (c : Collecting) :
    collectAll (front ++ back) c = collectAll back (collectAll front c) :=
  List.foldl_append

/-- `completed`, `incomplete`, `failed` or `error`. -/
def isTerminal (payload : Obj F) : Bool := isErrorEvent payload || isCompletionEvent payload

theorem collectParts_calls (payload : Obj F) (c : Collecting) :
    (collectParts payload c).toolIndex = (toolCallDeltaFromPayload payload c.toolIndex).2 ∧
      (collectParts payload c).toolCalls =
        (toolCallDeltaFromPayload payload c.toolIndex).1.toList.foldl mergeToolCallDelta
          c.toolCalls := by
  rw [collectParts]
  rcases toolCallDeltaFromPayload payload c.toolIndex with ⟨delta | delta, ix⟩
  · exact ⟨rfl, rfl⟩
  · exact ⟨rfl, rfl⟩

theorem collectAll_calls (payloads : List (Obj F)) (c : Collecting) :
    (collectAll payloads c).toolIndex = indexAfter payloads c.toolIndex ∧
      (collectAll payloads c).toolCalls =
        (toolDeltas payloads c.toolIndex).foldl mergeToolCallDelta c.toolCalls := by
  induction payloads generalizing c with
  | nil => exact ⟨rfl, rfl⟩
  | cons payload rest ih =>
    obtain ⟨index, calls⟩ := collectParts_calls payload c
    obtain ⟨index', calls'⟩ := ih (collectParts payload c)
    refine ⟨?_, ?_⟩
    · exact index'.trans (by rw [index]; rfl)
    · rw [toolDeltas, List.foldl_append, ← calls, ← index]
      exact calls'

theorem collectAll_response (payloads : List (Obj F)) (c : Collecting) :
    (collectAll payloads c).usage = c.usage ∧
      (collectAll payloads c).incompleteReason = c.incompleteReason := by
  induction payloads generalizing c with
  | nil => exact ⟨rfl, rfl⟩
  | cons payload rest ih => exact ih (collectParts payload c)

theorem collectFrom_open {lines : List Str}
    (open_ : ∀ payload ∈ events cfg lines, isTerminal payload = false) (rest : List Str)
    (c : Collecting) :
    collectFrom cfg (lines ++ rest) c = collectFrom cfg rest (collectAll (events cfg lines) c) := by
  induction lines generalizing c with
  | nil => rfl
  | cons line lines ih =>
    rw [List.cons_append, collectFrom]
    cases parses : parseData cfg line with
    | none =>
      have same : events cfg (line :: lines) = events cfg lines := List.filterMap_cons_none parses
      rw [same] at open_ ⊢
      exact ih open_ c
    | some payload =>
      have same : events cfg (line :: lines) = payload :: events cfg lines :=
        List.filterMap_cons_some parses
      rw [same] at open_ ⊢
      have here := open_ payload List.mem_cons_self
      rw [isTerminal, Bool.or_eq_false_iff] at here
      dsimp only
      rw [here.1, here.2, if_neg (by simp), if_neg (by simp)]
      exact ih (fun p mem => open_ p (List.mem_cons_of_mem _ mem)) (collectParts payload c)

/-- The completion that is collected up to a completed or incomplete response. -/
def collectedAt (cfg : ChatConfig F) (before : List Str) (payload : Obj F) : ChatCompletion :=
  finishCollecting cfg
    (collectResponse payload (collectAll (events cfg before ++ [payload]) .start))

theorem collectChatCompletion_completion {before : List Str} {line : Str} {payload : Obj F}
    (open_ : ∀ p ∈ events cfg before, isTerminal p = false)
    (parses : parseData cfg line = some payload) (completion : isCompletionEvent payload = true)
    (noError : isErrorEvent payload = false) :
    collectChatCompletion cfg (before ++ [line]) = .completion (collectedAt cfg before payload) := by
  rw [collectChatCompletion, collectFrom_open open_, collectFrom, parses]
  dsimp only
  rw [noError, completion, if_neg (by simp), if_pos rfl, collectFrom, collectedAt, collectAll_append]
  rfl

theorem collectChatCompletion_error {before : List Str} (after : List Str) {line : Str} {payload : Obj F}
    (open_ : ∀ p ∈ events cfg before, isTerminal p = false)
    (parses : parseData cfg line = some payload) (error : isErrorEvent payload = true) :
    ∃ e, collectChatCompletion cfg (before ++ line :: after) = .error e := by
  rw [collectChatCompletion, collectFrom_open open_, collectFrom, parses]
  dsimp only
  rw [error, if_pos rfl]
  exact ⟨_, rfl⟩

/-! ## The protocol -/

/-- How a completion ends: with an error or with a finish reason. -/
inductive Outcome where
  | error
  | finish (reason : Str)
  deriving DecidableEq

def ChatCompletionResult.outcome : ChatCompletionResult F → Outcome
  | .completion c => .finish c.finishReason
  | .error _ => .error

namespace Output

def isDone : Output F → Bool
  | .done => true
  | _ => false

def isError : Output F → Bool
  | .error _ => true
  | _ => false

def finishReasons : Output F → List Str
  | .chunk c => c.choices.filterMap (·.finishReason)
  | _ => []

def roles : Output F → List Str
  | .chunk c => c.choices.filterMap (·.delta.role)
  | _ => []

/-- A chunk with a choice that is not finished. -/
def isDelta : Output F → Bool
  | .chunk c => c.choices.any (·.finishReason.isNone)
  | _ => false

end Output

/-- The end marker once and last, behind one error or one finish reason, and the role in the
first delta alone. -/
structure FollowsProtocol (out : List (Output F)) (outcome : Outcome) : Prop where
  done_once : out.countP Output.isDone = 1
  done_last : out.getLast? = some .done
  ending : (out.countP Output.isError = 1 ∧ out.flatMap Output.finishReasons = [] ∧
      outcome = .error) ∨
    (out.countP Output.isError = 0 ∧
      ∃ reason, out.flatMap Output.finishReasons = [reason] ∧ outcome = .finish reason)
  role_first : ∀ first rest, out.filter Output.isDelta = first :: rest →
    first.roles = [text "assistant"] ∧ ∀ o ∈ rest, o.roles = []
  role_elsewhere : ∀ o ∈ out, o.isDelta = false → o.roles = []

/-- What deltas count as. -/
structure OnlyDeltas (sent : Bool) (out : List (Output F)) : Prop where
  done : out.countP Output.isDone = 0
  error : out.countP Output.isError = 0
  finish : out.flatMap Output.finishReasons = []
  delta : ∀ o ∈ out, o.isDelta = true
  later : sent = true → ∀ o ∈ out, o.roles = []
  first : sent = false → ∀ first rest, out = first :: rest →
    first.roles = [text "assistant"] ∧ ∀ o ∈ rest, o.roles = []

theorem Deltas.only {a b : Bool} {out : List (Output F)} (deltas : Deltas a out b) :
    OnlyDeltas a out := by
  induction deltas with
  | nil sent => exact ⟨rfl, rfl, rfl, by simp, by simp, by simp⟩
  | @cons sent sent' rest created model delta role tail ih =>
    refine ⟨by simpa [Output.isDone] using ih.done, by simpa [Output.isError] using ih.error,
      by simpa [Output.finishReasons] using ih.finish, ?_, ?_, ?_⟩
    · intro o mem
      rcases List.mem_cons.mp mem with rfl | mem
      · rfl
      · exact ih.delta o mem
    · rintro rfl o mem
      rcases List.mem_cons.mp mem with rfl | mem
      · simp [Output.roles, role]
      · exact ih.later rfl o mem
    · rintro rfl first others same
      obtain ⟨rfl, rfl⟩ := List.cons.inj same
      exact ⟨by simp [Output.roles, role], ih.later rfl⟩

def endOutcome (payload : Obj F) (st : ChatChunkState) : Outcome :=
  match if isErrorEvent payload then errorObject payload else none with
  | some _ => .error
  | none => .finish (streamFinishReason payload st.sawToolCall)

/-- What an ending counts as. -/
structure EndsWith (ending : List (Output F)) (outcome : Outcome) : Prop where
  done : ending.countP Output.isDone = 1
  last : ending.getLast? = some .done
  outcome : (ending.countP Output.isError = 1 ∧ ending.flatMap Output.finishReasons = [] ∧
      outcome = .error) ∨
    (ending.countP Output.isError = 0 ∧
      ∃ reason, ending.flatMap Output.finishReasons = [reason] ∧ outcome = .finish reason)
  delta : ∀ o ∈ ending, o.isDelta = false
  roles : ∀ o ∈ ending, o.roles = []

theorem endChunks_endsWith (cfg : ChatConfig F) (payload : Obj F) (st : ChatChunkState) :
    EndsWith (endChunks cfg payload st) (endOutcome payload st) := by
  rw [endChunks, endOutcome]
  split
  · refine ⟨rfl, rfl, .inl ⟨rfl, rfl, rfl⟩, ?_, ?_⟩
    · simp [Output.isDelta]
    · simp [Output.roles]
  · simp only [finishChunks]
    split_ifs
    · refine ⟨rfl, rfl, .inr ⟨rfl, _, rfl, rfl⟩, ?_, ?_⟩
      · simp [Output.isDelta]
      · simp [Output.roles]
    · refine ⟨rfl, rfl, .inr ⟨rfl, _, rfl, rfl⟩, ?_, ?_⟩
      · simp [Output.isDelta]
      · simp [Output.roles]

theorem followsProtocol_iff {out ending : List (Output F)} {sent : Bool} {outcome outcome' : Outcome}
    (deltas : Deltas false out sent) (ends : EndsWith ending outcome) :
    FollowsProtocol (out ++ ending) outcome' ↔ outcome' = outcome := by
  obtain ⟨done, error, finish, delta, -, first⟩ := deltas.only
  have errors : (out ++ ending).countP Output.isError = ending.countP Output.isError := by
    rw [List.countP_append, error, Nat.zero_add]
  have reasons : (out ++ ending).flatMap Output.finishReasons = ending.flatMap Output.finishReasons := by
    rw [List.flatMap_append, finish, List.nil_append]
  constructor
  · intro follows
    have ending' := follows.ending
    rw [errors, reasons] at ending'
    rcases ends.outcome with ⟨one, none_, rfl⟩ | ⟨zero, reason, only, rfl⟩
    · rcases ending' with ⟨-, -, same⟩ | ⟨zero, -⟩
      · exact same
      · rw [one] at zero
        cases zero
    · rcases ending' with ⟨one, -⟩ | ⟨-, reason', only', same⟩
      · rw [zero] at one
        cases one
      · rw [only] at only'
        rw [same, List.singleton_inj.mp only']
  · rintro rfl
    have filtered : (out ++ ending).filter Output.isDelta = out := by
      rw [List.filter_append, List.filter_eq_self.mpr delta,
        List.filter_eq_nil_iff.mpr fun o mem => by simp [ends.delta o mem], List.append_nil]
    refine ⟨?_, ?_, ?_, ?_, ?_⟩
    · rw [List.countP_append, done, ends.done]
    · rw [List.getLast?_append, ends.last]
      rfl
    · rw [errors, reasons]
      exact ends.outcome
    · rw [filtered]
      exact first rfl
    · intro o mem other
      rcases List.mem_append.mp mem with mem | mem
      · rw [delta o mem] at other
        cases other
      · exact ends.roles o mem

/-! ## When the stream follows the collected result -/

/-- No tool-call delta, or one that leaves something. -/
def LeavesCall (deltas : List ToolCallDelta) : Prop :=
  deltas = [] ∨ ∃ before delta later, deltas = before ++ delta :: later ∧ Leaves delta later

/-- On the first terminal event: a response without calls or with one that is not empty, or an
error, and then the first event that can end the stream is an error. -/
def Meets (cfg : ChatConfig F) (before after : List Str) (payload : Obj F) : Prop :=
  if isErrorEvent payload then
    ∃ e, (payload :: events cfg after).find? ends = some e ∧ isErrorEvent e = true
  else LeavesCall (toolDeltas (events cfg before ++ [payload]) .start)

theorem finishReasonFromIncomplete_mem (response : JsonValue F) :
    finishReasonFromIncomplete response ∈ ["length", "content_filter", "stop"].map text := by
  rw [finishReasonFromIncomplete]
  split
  · split_ifs <;> simp
  · simp

theorem streamFinishReason_ne (payload : Obj F) :
    streamFinishReason payload false ≠ text "tool_calls" := by
  rw [streamFinishReason, if_neg (by simp)]
  split_ifs
  · intro same
    have mem := finishReasonFromIncomplete_mem (payload.get "response")
    rw [same] at mem
    exact absurd mem (by decide)
  · decide

theorem orElse_incomplete (response : JsonValue F) (other : Str) :
    orElse (some (finishReasonFromIncomplete response)) other
      = finishReasonFromIncomplete response := by
  have mem := finishReasonFromIncomplete_mem response
  cases reason : finishReasonFromIncomplete response with
  | nil =>
    rw [reason] at mem
    exact absurd mem (by decide)
  | cons c rest => rfl

/-- Without calls both ends read the same finish reason. -/
theorem collectResponse_reason (payload : Obj F) {c : Collecting} (unset : c.incompleteReason = none) :
    orElse (collectResponse payload c).incompleteReason (text "stop")
      = streamFinishReason payload false := by
  rw [streamFinishReason, if_neg (by simp), collectResponse]
  cases response : asObj (payload.get "response") with
  | none =>
    dsimp only
    rw [unset]
    split_ifs
    · rw [finishReasonFromIncomplete, response]
      rfl
    · rfl
  | some d =>
    dsimp only
    split_ifs
    · rw [orElse_incomplete, ToolCallDedupe.asObj_eq_some response]
    · rw [unset]
      rfl

theorem collectedAt_toolCalls (cfg : ChatConfig F) (before : List Str) (payload : Obj F) :
    (collectResponse payload (collectAll (events cfg before ++ [payload]) .start)).toolCalls
      = callsOf (toolDeltas (events cfg before ++ [payload]) .start) := by
  have calls := (collectAll_calls (events cfg before ++ [payload]) .start).2
  rw [collectResponse]
  split
  · exact calls
  · exact calls

theorem collectedAt_finishReason (cfg : ChatConfig F) (before : List Str) (payload : Obj F) :
    (collectedAt cfg before payload).finishReason
      = if compactToolCalls (callsOf (toolDeltas (events cfg before ++ [payload]) .start)) ≠ []
        then text "tool_calls" else streamFinishReason payload false := by
  have unset := (collectAll_response (events cfg before ++ [payload]) .start).2
  rw [← collectedAt_toolCalls, ← collectResponse_reason payload unset]
  rfl

theorem reasons_agree_iff {deltas : List ToolCallDelta} (stated : ∀ delta ∈ deltas, Stated delta)
    (payload : Obj F) {saw : Bool} (seen : saw = true ↔ deltas ≠ []) :
    (if compactToolCalls (callsOf deltas) ≠ [] then text "tool_calls"
        else streamFinishReason payload false) = streamFinishReason payload saw ↔
      LeavesCall deltas := by
  have filled : compactToolCalls (callsOf deltas) ≠ [] ↔
      ∃ before delta later, deltas = before ++ delta :: later ∧ Leaves delta later :=
    (compactToolCalls_ne_nil_iff _).trans (filled_iff stated)
  cases saw with
  | false =>
    have empty : deltas = [] := by
      by_contra some_
      exact absurd (seen.mpr some_) (by simp)
    rw [empty]
    exact iff_of_true rfl (.inl rfl)
  | true =>
    have some_ := seen.mp rfl
    rw [LeavesCall, ← filled, show streamFinishReason payload true = text "tool_calls" from rfl]
    by_cases kept : compactToolCalls (callsOf deltas) ≠ []
    · rw [if_pos kept]
      exact iff_of_true rfl (.inr kept)
    · rw [if_neg kept]
      exact iff_of_false (streamFinishReason_ne payload) (by simp [some_, not_not.mp kept])

/-- The completed or incomplete response is no error. -/
theorem completion_no_error {payload : Obj F} (completion : isCompletionEvent payload = true) :
    isErrorEvent payload = false := by
  rw [isCompletionEvent, decide_eq_true_eq] at completion
  rw [isErrorEvent, decide_eq_false_iff_not]
  rcases completion with same | same
  · rw [same]
    decide
  · rw [same]
    decide

theorem unended_of_open {payloads : List (Obj F)}
    (open_ : ∀ p ∈ payloads, isTerminal p = false) : ∀ p ∈ payloads, ends p = false := by
  intro p mem
  have here := open_ p mem
  rw [isTerminal, Bool.or_eq_false_iff] at here
  rw [ends, here.1, here.2]
  rfl

/-- The first event that ends the stream, in its line. -/
theorem events_find {lines : List Str} {e : Obj F} (found : (events cfg lines).find? ends = some e) :
    ∃ before line after, lines = before ++ line :: after ∧
      (∀ p ∈ events cfg before, ends p = false) ∧ parseData cfg line = some e ∧ ends e = true := by
  induction lines with
  | nil => cases found
  | cons line lines ih =>
    cases parses : parseData cfg line with
    | none =>
      rw [events, List.filterMap_cons_none parses] at found
      obtain ⟨before, line', after, rfl, unended, parses', ended⟩ := ih found
      refine ⟨line :: before, line', after, rfl, ?_, parses', ended⟩
      rw [events, List.filterMap_cons_none parses]
      exact unended
    | some payload =>
      rw [events, List.filterMap_cons_some parses, List.find?_cons] at found
      split at found
      · rename_i ended
        cases found
        exact ⟨[], line, lines, rfl, by simp [events], parses, ended⟩
      · rename_i unended_here
        obtain ⟨before, line', after, rfl, unended, parses', ended⟩ := ih found
        refine ⟨line :: before, line', after, rfl, ?_, parses', ended⟩
        rw [events, List.filterMap_cons_some parses]
        intro p mem
        rcases List.mem_cons.mp mem with rfl | mem
        · simpa using unended_here
        · exact unended p mem

theorem endOutcome_error_iff {e : Obj F} (ended : ends e = true) (st : ChatChunkState) :
    Outcome.error = endOutcome e st ↔ isErrorEvent e = true := by
  rw [endOutcome]
  cases error : isErrorEvent e with
  | true =>
    have completion : isCompletionEvent e = false := by
      by_contra completion
      rw [Bool.not_eq_false] at completion
      rw [completion_no_error completion] at error
      cases error
    rw [ends, error, completion, Bool.true_and, Bool.or_false] at ended
    obtain ⟨d, object⟩ := Option.isSome_iff_exists.mp ended
    rw [if_pos rfl, object]
    exact iff_of_true rfl rfl
  | false =>
    rw [if_neg (by simp)]
    simp

/-- With an error collected, the stream has to end on an error. -/
theorem stream_error_iff (cfg : ChatConfig F) (lines : List Str) :
    FollowsProtocol (streamChatChunks cfg lines) .error ↔
      ∃ e, (events cfg lines).find? ends = some e ∧ isErrorEvent e = true := by
  cases found : (events cfg lines).find? ends with
  | none =>
    obtain ⟨sent, deltas⟩ := streamChatChunks_open lines fun p mem => by
      simpa using List.find?_eq_none.mp found p mem
    refine iff_of_false (fun follows => ?_) (by simp)
    have done := follows.done_once
    rw [deltas.only.done] at done
    cases done
  | some e =>
    obtain ⟨before, line, after, rfl, unended, parses, ended⟩ := events_find found
    obtain ⟨out, sent, st, deltas, -, streams⟩ :=
      streamChatChunks_ended after unended parses ended
    rw [streams, followsProtocol_iff deltas (endChunks_endsWith cfg e st),
      endOutcome_error_iff ended]
    simp

/-- The stream follows the protocol, with the outcome that is collected up to the first
terminal event, exactly if the events meet the condition there. -/
theorem stream_protocol_iff (cfg : ChatConfig F) {before after : List Str} {line : Str}
    {payload : Obj F} (open_ : ∀ p ∈ events cfg before, isTerminal p = false)
    (parses : parseData cfg line = some payload) (terminal : isTerminal payload = true) :
    FollowsProtocol (streamChatChunks cfg (before ++ line :: after))
        (collectChatCompletion cfg (before ++ [line])).outcome ↔
      Meets cfg before after payload := by
  have unended := unended_of_open open_
  cases error : isErrorEvent payload with
  | true =>
    obtain ⟨e, collected⟩ := collectChatCompletion_error [] open_ parses error
    have rest : events cfg (before ++ line :: after)
        = events cfg before ++ payload :: events cfg after := by
      rw [events, List.filterMap_append, List.filterMap_cons_some parses]
      rfl
    have skipped : (events cfg before).find? ends = none := by
      rw [List.find?_eq_none]
      intro p mem
      simp [unended p mem]
    rw [collected, Meets, if_pos error, ChatCompletionResult.outcome, stream_error_iff, rest,
      List.find?_append, skipped, Option.none_or]
  | false =>
    have completion : isCompletionEvent payload = true := by
      rw [isTerminal, error, Bool.false_or] at terminal
      exact terminal
    have ended : ends payload = true := by rw [ends, completion, Bool.or_true]
    obtain ⟨out, sent, st, deltas, seen, streams⟩ :=
      streamChatChunks_ended after unended parses ended
    have outcome : endOutcome payload st = .finish (streamFinishReason payload st.sawToolCall) := by
      rw [endOutcome, error, if_neg (by simp)]
    have last : events cfg (before ++ [line]) = events cfg before ++ [payload] := by
      rw [show [payload] = events cfg [line] by simp [events, parses]]
      exact List.filterMap_append ..
    rw [last] at seen
    rw [collectChatCompletion_completion open_ parses completion error, streams,
      followsProtocol_iff deltas (endChunks_endsWith cfg payload st), outcome, Meets,
      if_neg (by simp [error]), ← reasons_agree_iff (stated_of_events _ _) payload seen.saw,
      ChatCompletionResult.outcome, Outcome.finish.injEq, collectedAt_finishReason]

def plainConfig : ChatConfig {t : Str // isFloatLiteral t = true} where
  fmt := literalFloats
  floatOfText _ := none
  model := text "gpt"
  created := 0
  includeUsage := true

def typed (t : String) : Obj {t : Str // isFloatLiteral t = true} := [(text "type", .str (text t))]

def eventLine (payload : Obj {t : Str // isFloatLiteral t = true}) : Str :=
  Sse.formatSseData literalFloats payload

/-- A call whose only delta is an empty text. -/
def emptyCall : Obj {t : Str // isFloatLiteral t = true} :=
  [(text "type", .str (text "response.function_call_arguments.delta")), (text "delta", .str [])]

/-- A text, and the first character of a call's arguments. -/
def textAndCall : List Str :=
  [eventLine [(text "type", .str (text "response.output_text.delta")),
      (text "delta", .str (text "hi"))],
    eventLine [(text "type", .str (text "response.function_call_arguments.delta")),
      (text "call_id", .str (text "c")), (text "name", .str (text "f")),
      (text "delta", .str (text "["))]]

theorem stream_protocol_tool_call :
    FollowsProtocol
      (streamChatChunks plainConfig (textAndCall ++ eventLine (typed "response.completed") :: []))
      (collectChatCompletion plainConfig
        (textAndCall ++ [eventLine (typed "response.completed")])).outcome := by
  have parses : parseData plainConfig (eventLine (typed "response.completed"))
      = some (typed "response.completed") := by
    rw [parseData]
    exact congrArg (Option.filter _) (Sse.formatSseData_round_trip
      (Sse.loads_typed (t := text "response.completed") (by decide +kernel))).1
  have open_ : (events plainConfig textAndCall).all (fun p => !isTerminal p) = true := by
    decide +kernel
  simp only [List.all_eq_true, Bool.not_eq_true'] at open_
  refine (stream_protocol_iff plainConfig open_ parses (by decide +kernel)).mpr ?_
  rw [Meets, if_neg (by decide +kernel)]
  refine .inr ⟨[], ⟨0, some (text "c"), some (text "f"), some (text "["), none, .append⟩, [],
    by decide +kernel, .inl (by decide)⟩

/-- A failed response without an error yields nothing, and a call of an empty text makes the
stream finish with tool calls that are not collected. -/
theorem stream_protocol_breaks :
    streamChatChunks plainConfig [eventLine (typed "response.failed")] = [] ∧
    ¬ FollowsProtocol (streamChatChunks plainConfig [eventLine (typed "response.failed")])
      (collectChatCompletion plainConfig [eventLine (typed "response.failed")]).outcome ∧
    ¬ FollowsProtocol
      (streamChatChunks plainConfig [eventLine emptyCall, eventLine (typed "response.completed")])
      (collectChatCompletion plainConfig
        [eventLine emptyCall, eventLine (typed "response.completed")]).outcome := by
  refine ⟨List.isEmpty_iff.mp (by decide +kernel), fun follows => ?_, fun follows => ?_⟩
  · exact absurd follows.done_once (by decide +kernel)
  · have reasons : (streamChatChunks plainConfig
        [eventLine emptyCall, eventLine (typed "response.completed")]).flatMap
          Output.finishReasons = [text "tool_calls"] := by decide +kernel
    have collected : (collectChatCompletion plainConfig
        [eventLine emptyCall, eventLine (typed "response.completed")]).outcome
          = .finish (text "stop") := by decide +kernel
    have ending := follows.ending
    rw [reasons, collected] at ending
    rcases ending with ⟨-, none_, -⟩ | ⟨-, reason, same, named⟩
    · cases none_
    · obtain rfl := List.singleton_inj.mp same
      exact absurd (Outcome.finish.inj named) (by decide)

end Chat
