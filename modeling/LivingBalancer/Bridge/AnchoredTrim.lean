import LivingBalancer.Lib.Runs
import LivingBalancer.Requests.StoredContext

/-!
# Anchored requests

How a turn is prepared on a bridge session and on a direct websocket: the anchor that the proxy
injects, the stored items that it cuts off, the tool outputs that it puts in front, and what the
request state keeps of the input for the turns after it. `cut` is the list that the cut was made
in and its length; `clientInput` is kept for the proofs, no code reads it.
-/

namespace Continuity

open PyJson
open ToolCallDedupe (asList)

variable {F : Type}

/-! ## State -/

/-- What a `_HTTPBridgeSession` and a `_WebSocketContinuityState` both keep of the last completed
turn. -/
structure Continuity where
  lastCompletedResponseId : Option Str := none
  lastCompletedInputCount : ℕ := 0
  lastCompletedInputPrefixFingerprint : Option Str := none
  lastPendingToolCalls : PendingToolCalls := []

/-- What the durable row of a session keeps of it. -/
structure DurableRow where
  latestResponseId : Option Str
  latestInputItemCount : Option ℕ
  latestInputFullFingerprint : Option Str

structure RequestState (F : Type) where
  clientInput : JsonValue F
  previousResponseId : Option Str
  inputItemCount : ℕ
  inputFullFingerprint : Option Str
  proxyInjectedPreviousResponseId : Bool := false
  freshUpstreamInput : Option (JsonValue F) := none
  freshUpstreamRequestIsRetrySafe : Bool := false
  isPrewarm : Bool := false

/-- The input that a request is given as its own context. -/
def RequestState.record (request : RequestState F) (stored : ℕ × Str) : RequestState F :=
  { request with inputItemCount := stored.1, inputFullFingerprint := some stored.2 }

/-- A request as it goes upstream: what it is anchored on, and the list that its leading items
were cut off from, with their number. -/
structure Sent (F : Type) where
  previousResponseId : Option Str
  input : List (JsonValue F)
  cut : ℕ

structure Prepared (F : Type) where
  request : RequestState F
  sent : Option (Sent F)

/-- `_prepare_response_bridge_request_state`. The copies of replayed tool calls that it takes out
of the text it sends do not count: the count and the fingerprint are those of the list before. -/
def Host.prepareRequestState (host : Host F) (clientInput : JsonValue F) (isPrewarm : Bool)
    (payload : Payload F) : RequestState F where
  clientInput := clientInput
  previousResponseId := payload.previousResponseId
  inputItemCount := ((asList payload.input).getD []).length
  inputFullFingerprint :=
    ((asList payload.input).filter fun items => !items.isEmpty).map host.fingerprintInputItems
  isPrewarm := isPrewarm

/-- `_refresh_websocket_request_input_fingerprint_from_text`. -/
def Host.refreshInputFingerprint (host : Host F) (request : RequestState F) (input : JsonValue F) :
    RequestState F :=
  { request with
    inputItemCount := ((asList input).getD []).length
    inputFullFingerprint := (asList input).map host.fingerprintInputItems }

/-- The fresh replay of `_prepare_websocket_request_state_for_visible_output_replay`, and of its
siblings for an account switch and for a refused token. -/
def Host.replayFresh (host : Host F) (request : RequestState F) : Option (RequestState F) :=
  match request.freshUpstreamRequestIsRetrySafe, request.freshUpstreamInput with
  | true, some input =>
    some (host.refreshInputFingerprint
      { request with
        previousResponseId := none
        proxyInjectedPreviousResponseId := false
        freshUpstreamRequestIsRetrySafe := false } input)
  | _, _ => none

/-- The fresh replay after a previous response that upstream does not find and after a send that
failed: what the request keeps of its input stays. -/
def RequestState.resendFresh (request : RequestState F) : Option (RequestState F) :=
  if request.freshUpstreamRequestIsRetrySafe && request.freshUpstreamInput.isSome then
    some { request with previousResponseId := none, proxyInjectedPreviousResponseId := false }
  else none

/-! ## Bridge sessions -/

/-- How a request reaches a session: `reattach` says that there is neither a live local session
nor an owner to forward to and that the key is a hard one, `ownerForwardFailed` that the request
is prepared again after its owner could not be reached. -/
structure Arrival where
  isPrewarm : Bool
  codexSession : Bool
  reattach : Bool
  ownerForwardFailed : Bool
  lookup : Option DurableRow

/-- The response id of the durable row, where it is injected. -/
def Host.durableAnchor (host : Host F) (payload : Payload F) (arrival : Arrival) : Option Str :=
  arrival.lookup.bind fun row =>
    if arrival.reattach && payload.previousResponseId.isNone &&
        (!host.looksLikeFullResend payload.input ||
          host.inputPrefixMatchesStoredContext payload.input (row.latestInputItemCount.getD 0)
            row.latestInputFullFingerprint) then
      row.latestResponseId
    else none

def Host.durablePayload (host : Host F) (payload : Payload F) (arrival : Arrival) : Payload F :=
  match host.durableAnchor payload arrival with
  | some anchor => { payload with previousResponseId := some anchor }
  | none => payload

/-- The session once the count and the fingerprint of the durable row stand in it, as they do
where the durable anchor was injected into a full resend. -/
def Host.restoreFromDurable (host : Host F) (payload : Payload F) (arrival : Arrival)
    (session : Continuity) : Continuity :=
  match host.durableAnchor payload arrival, arrival.lookup with
  | some anchor, some row =>
    if host.looksLikeFullResend payload.input then
      match row.latestInputItemCount, row.latestInputFullFingerprint with
      | some count, some fingerprint =>
        { lastCompletedResponseId := some anchor
          lastCompletedInputCount := count
          lastCompletedInputPrefixFingerprint := some fingerprint
          lastPendingToolCalls :=
            if session.lastCompletedResponseId = some anchor then session.lastPendingToolCalls
            else [] }
      | _, _ => session
    else session
  | _, _ => session

def Host.extendsStored (host : Host F) (session : Continuity) (input : JsonValue F) : Bool :=
  host.inputPrefixMatchesStoredContext input session.lastCompletedInputCount
    session.lastCompletedInputPrefixFingerprint

/-- The session's own anchor, where it is injected. -/
def Host.sessionAnchor (host : Host F) (arrival : Arrival) (session : Continuity)
    (payload : Payload F) : Option Str :=
  if arrival.codexSession && payload.previousResponseId.isNone &&
      host.extendsStored session payload.input then
    session.lastCompletedResponseId
  else none

def Host.anchorOnSession (host : Host F) (arrival : Arrival) (session : Continuity)
    (payload : Payload F) : Payload F :=
  { payload with
    previousResponseId := payload.previousResponseId <|> host.sessionAnchor arrival session payload }

/-- The trim asks the same of the input as the injection of the session's anchor. -/
def Host.trims (host : Host F) (session : Continuity) (payload : Payload F) : Bool :=
  payload.previousResponseId.isSome && host.extendsStored session payload.input

def inputItems (payload : Payload F) : List (JsonValue F) := (asList payload.input).getD []

def Host.trimStoredContext (host : Host F) (session : Continuity) (payload : Payload F) :
    Payload F :=
  if host.trims session payload then
    { payload with input := .list ((inputItems payload).drop session.lastCompletedInputCount) }
  else payload

/-- The interrupted outputs come in front of what is sent. -/
def completeInterrupted (session : Continuity) (payload : Payload F) : Payload F :=
  { payload with
    input := (interruptedToolOutputsInput session.lastCompletedResponseId
      session.lastPendingToolCalls payload).getD payload.input }

/-- What a request keeps of its input: the list that was cut, or the one that it lost the items
of the previous response from, or what is sent. -/
def Host.recordInput (host : Host F) (session : Continuity) (payload : Payload F)
    (recorded : Option (ℕ × Str)) (request : RequestState F) : RequestState F :=
  if host.trims session payload then
    request.record ((inputItems payload).length, host.fingerprintInputItems (inputItems payload))
  else (recorded.map request.record).getD request

def Host.sentOf (host : Host F) (session : Continuity) (payload : Payload F) : Option (Sent F) :=
  if host.trims session payload then
    some ⟨payload.previousResponseId, inputItems payload, session.lastCompletedInputCount⟩
  else none

/-- The part of `_stream_via_http_bridge` behind the choice of the session. The payload has
the durable anchor and has lost the items of the previous response; `recorded` is what it lost
them from. -/
def Host.prepareOnSession (host : Host F) (clientInput : JsonValue F) (arrival : Arrival)
    (session : Continuity) (durable : Bool) (payload : Payload F) (recorded : Option (ℕ × Str)) :
    Prepared F :=
  let anchored := host.anchorOnSession arrival session payload
  let injected := durable || (host.sessionAnchor arrival session payload).isSome
  { request := { host.recordInput session anchored recorded
        (host.prepareRequestState clientInput arrival.isPrewarm
          (completeInterrupted session (host.trimStoredContext session anchored))) with
      proxyInjectedPreviousResponseId := injected
      freshUpstreamInput := if injected then host.retained clientInput else none
      freshUpstreamRequestIsRetrySafe := injected && host.trims session anchored }
    sent := host.sentOf session anchored }

/-- `_stream_via_http_bridge` up to the submission, with the session as it is left. -/
def Host.prepareHttp (host : Host F) (arrival : Arrival) (session : Continuity)
    (payload : Payload F) : Continuity × Prepared F :=
  let trimmed := host.trimPrevious isHttpBridgePreviousResponseOutputItem
    (host.durablePayload payload arrival)
  if arrival.ownerForwardFailed then
    (session,
      { request := host.prepareRequestState payload.input arrival.isPrewarm
          (completeInterrupted session trimmed.1)
        sent := none })
  else
    let restored := host.restoreFromDurable payload arrival session
    (restored, host.prepareOnSession payload.input arrival restored
      (host.durableAnchor payload arrival).isSome trimmed.1 trimmed.2)

/-- The end of `_prewarm_http_bridge_session`: the warmup request has the input of the request
that it goes before, and keeps nothing of it. -/
def prewarmRequest (payload : Payload F) : RequestState F where
  clientInput := payload.input
  previousResponseId := none
  inputItemCount := 0
  inputFullFingerprint := none

/-- The bookkeeping of `_process_http_bridge_upstream_text` for a completed turn. -/
def recordHttpCompletion (session : Continuity) (request : RequestState F)
    (responseId : Option Str) (pending : PendingToolCalls) : Continuity :=
  let session := match responseId with
    | some responseId =>
      { session with
        lastCompletedResponseId := some responseId
        lastPendingToolCalls := pending }
    | none => session
  if 0 < request.inputItemCount then
    { session with
      lastCompletedInputCount := request.inputItemCount
      lastCompletedInputPrefixFingerprint := request.inputFullFingerprint }
  else session

/-- `register_owned_alias` as the completion calls it. -/
def registeredRow (request : RequestState F) (responseId : Str) : DurableRow where
  latestResponseId := some responseId
  latestInputItemCount := if 0 < request.inputItemCount then some request.inputItemCount else none
  latestInputFullFingerprint :=
    if 0 < request.inputItemCount then request.inputFullFingerprint else none

/-! ## Websockets -/

/-- `_websocket_continuity_anchor_for_payload`. -/
def Host.websocketContinuityAnchor (host : Host F) (codexSessionAffinity : Bool)
    (state : Continuity) (payload : Payload F) : Option Str :=
  if codexSessionAffinity && payload.previousResponseId.isNone &&
      host.extendsStored state payload.input then
    state.lastCompletedResponseId
  else none

/-- `_websocket_client_previous_response_full_resend_is_retry_safe`. -/
def Host.clientFullResendIsRetrySafe (host : Host F) (state : Continuity) (payload : Payload F) :
    Bool :=
  match payload.previousResponseId, asList payload.input with
  | some anchor, some items =>
    decide (1 < items.length) && inputItemsAreSelfContainedFreshReplay items &&
      (if state.lastCompletedResponseId = some anchor ∧ (0 < state.lastCompletedInputCount ∨
          state.lastCompletedInputPrefixFingerprint.isSome) then
        host.extendsStored state payload.input
      else true)
  | _, _ => false

def cutAtAnchor (state : Continuity) (payload : Payload F) : Option Str → Payload F
  | some anchor =>
    ⟨some anchor, .list ((inputItems payload).drop state.lastCompletedInputCount)⟩
  | none => payload

/-- An input that lost items of the previous response is kept as it came, also where the
session's anchor cut it. -/
def Host.recordWebsocketInput (host : Host F) (trimmed : Payload F × Option (ℕ × Str))
    (anchor : Option Str) (request : RequestState F) : RequestState F :=
  match trimmed.2, anchor with
  | some stored, _ => request.record stored
  | none, some _ =>
    request.record ((inputItems trimmed.1).length,
      host.fingerprintInputItems (inputItems trimmed.1))
  | none, none => request

/-- A request without an anchor is its own fresh text. -/
def Host.websocketFreshInput (host : Host F) (state : Continuity) (payload : Payload F)
    (anchor : Option Str) : Option (JsonValue F) :=
  if anchor.isSome then
    if inputItemsAreSelfContainedFreshReplay (inputItems payload) then host.retained payload.input
    else none
  else if payload.previousResponseId.isNone || host.clientFullResendIsRetrySafe state payload then
    host.retained payload.input
  else none

/-- `_prepare_websocket_response_create_request`, as far as the input goes. -/
def Host.prepareWebsocket (host : Host F) (isPrewarm codexSessionAffinity : Bool)
    (state : Continuity) (payload : Payload F) : Prepared F :=
  let trimmed := host.trimPrevious isWebsocketPreviousResponseOutputItem payload
  let anchor := host.websocketContinuityAnchor codexSessionAffinity state trimmed.1
  let fresh := host.websocketFreshInput state payload anchor
  { request := { host.recordWebsocketInput trimmed anchor
        (host.prepareRequestState payload.input isPrewarm
          (completeInterrupted state (cutAtAnchor state trimmed.1 anchor))) with
      proxyInjectedPreviousResponseId := anchor.isSome
      freshUpstreamInput := fresh
      freshUpstreamRequestIsRetrySafe := fresh.isSome }
    sent := anchor.map fun anchor =>
      ⟨some anchor, inputItems trimmed.1, state.lastCompletedInputCount⟩ }

/-- `_record_websocket_continuity_completion`. -/
def recordWebsocketCompletion (request : RequestState F) (responseId : Option Str)
    (pending : PendingToolCalls) : Continuity :=
  match responseId with
  | none => {}
  | some responseId =>
    if 0 < request.inputItemCount ∧ request.inputFullFingerprint.isSome then
      { lastCompletedResponseId := some responseId
        lastCompletedInputCount := request.inputItemCount
        lastCompletedInputPrefixFingerprint := request.inputFullFingerprint
        lastPendingToolCalls := pending }
    else { lastCompletedResponseId := some responseId, lastPendingToolCalls := pending }

end Continuity
