import LivingBalancer.Bridge.AnchoredTrim

/-!
# Runs of anchored turns

The turns of one bridge session, or of one websocket continuity state. `rows` holds every value
that the durable row of the session may have: those registered here, those of turns that another
session of the conversation completed, and rows without a pair.
-/

namespace Continuity

open PyJson
open ToolCallDedupe (asList)

variable {F : Type}

inductive Transport where
  | httpBridge
  | websocket
  deriving DecidableEq

/-- A completed turn: its response, and the input that the client gave it. -/
structure Turn (F : Type) where
  responseId : Str
  clientInput : JsonValue F

structure World (F : Type) where
  state : Continuity := {}
  rows : List DurableRow := []
  turns : List (Turn F) := []
  pending : List (RequestState F) := []
  sent : List (Sent F) := []

inductive Event (F : Type) where
  | send (payload : Payload F) (arrival : Arrival)
  | prewarm (payload : Payload F)
  | replay (index : ℕ)
  | resend (index : ℕ)
  | complete (index : ℕ) (responseId : Option Str) (outputTokens : Option ℕ)
      (calls : PendingToolCalls)
  | fail (index : ℕ)
  | elsewhere (input : JsonValue F) (responseId : Str)

/-- `ResponsesRequest` has no text as its input. -/
def Payload.validated (payload : Payload F) : Payload F :=
  match payload.input with
  | .str t => { payload with input := normalizeInputText t }
  | _ => payload

def World.knows (w : World F) (row : DurableRow) : Bool :=
  row.latestInputItemCount.isNone || row.latestInputFullFingerprint.isNone ||
    w.rows.any fun known =>
      decide (known.latestResponseId = row.latestResponseId) &&
        decide (known.latestInputItemCount = row.latestInputItemCount) &&
        decide (known.latestInputFullFingerprint = row.latestInputFullFingerprint)

def World.submit (w : World F) (state : Continuity) (prepared : Prepared F) : World F :=
  { w with
    state := state
    pending := w.pending ++ [prepared.request]
    sent := w.sent ++ prepared.sent.toList }

/-- `response.completed` for a request; an empty prewarm leaves no trace. -/
def World.complete (w : World F) (transport : Transport) (request : RequestState F)
    (responseId : Option Str) (outputTokens : Option ℕ) (calls : PendingToolCalls) : World F :=
  let turns := (responseId.map fun id => ⟨id, request.clientInput⟩).toList ++ w.turns
  if request.isPrewarm && decide (outputTokens = some 0) then { w with turns := turns }
  else match transport with
    | .httpBridge =>
      { w with
        turns := turns
        state := recordHttpCompletion w.state request responseId calls
        rows := (responseId.map (registeredRow request)).toList ++ w.rows }
    | .websocket =>
      { w with turns := turns, state := recordWebsocketCompletion request responseId calls }

def Host.step (host : Host F) (transport : Transport) (w : World F) : Event F → Option (World F)
  | .send payload arrival =>
    match transport with
    | .httpBridge =>
      if arrival.lookup.all w.knows then
        let (session, prepared) := host.prepareHttp arrival w.state payload.validated
        some (w.submit session prepared)
      else none
    | .websocket =>
      some (w.submit w.state
        (host.prepareWebsocket arrival.isPrewarm arrival.codexSession w.state payload.validated))
  | .prewarm payload =>
    match transport with
    | .httpBridge => some { w with pending := w.pending ++ [prewarmRequest payload.validated] }
    | .websocket => none
  | .replay index =>
    (w.pending[index]?.bind host.replayFresh).map fun request =>
      { w with pending := w.pending.set index request }
  | .resend index =>
    (w.pending[index]?.bind RequestState.resendFresh).map fun request =>
      { w with pending := w.pending.set index request }
  | .complete index responseId outputTokens calls =>
    w.pending[index]?.map fun request =>
      { w with pending := w.pending.eraseIdx index }.complete transport request responseId
        outputTokens calls
  | .fail index => w.pending[index]?.map fun _ => { w with pending := w.pending.eraseIdx index }
  | .elsewhere input responseId =>
    some { w with
      turns := ⟨responseId, input⟩ :: w.turns
      rows := registeredRow (host.prepareRequestState input false ⟨none, input⟩) responseId ::
        w.rows }

def World.Fresh (w : World F) : Prop := w = {}

/-! ## What a step has to meet -/

/-- The request, as the trim sees it: where its input extends the stored one, it is anchored on
the turn that the stored one belongs to, and it has lost no items before. Where it does not, the
input that is kept of it is the client's: no interrupted outputs are counted in. -/
structure Faithful (host : Host F) (state : Continuity) (payload : Payload F)
    (recorded : Option (ℕ × Str)) : Prop where
  anchored : host.extendsStored state payload.input = true →
    payload.previousResponseId.isSome = true →
    payload.previousResponseId = state.lastCompletedResponseId ∧ recorded = none
  kept : host.extendsStored state payload.input = false → recorded = none →
    interruptedToolOutputsInput state.lastCompletedResponseId state.lastPendingToolCalls payload
      = none

def Host.CleanHttp (host : Host F) (arrival : Arrival) (session : Continuity)
    (payload : Payload F) : Prop :=
  let trimmed := host.trimPrevious isHttpBridgePreviousResponseOutputItem
    (host.durablePayload payload arrival)
  if arrival.ownerForwardFailed then
    trimmed.2 = none ∧ interruptedToolOutputsInput session.lastCompletedResponseId
      session.lastPendingToolCalls trimmed.1 = none
  else Faithful host (host.restoreFromDurable payload arrival session) trimmed.1 trimmed.2

/-- A websocket request of a client with an anchor of its own is not cut. -/
def Host.CleanWebsocket (host : Host F) (state : Continuity) (payload : Payload F) : Prop :=
  let trimmed := host.trimPrevious isWebsocketPreviousResponseOutputItem payload
  trimmed.2 = none → interruptedToolOutputsInput state.lastCompletedResponseId
    state.lastPendingToolCalls trimmed.1 = none

/-- A turn on the bridge writes the id and the pair together, or there is no id or no pair of
another turn that it could leave behind. -/
def PairsUp (session : Continuity) (request : RequestState F) (responseId : Option Str) : Prop :=
  match responseId with
  | some _ => 0 < request.inputItemCount ∨ session.lastCompletedInputCount = 0
  | none => request.inputItemCount = 0 ∨ session.lastCompletedResponseId = none

def Host.Clean (host : Host F) (transport : Transport) (w : World F) : Event F → Prop
  | .send payload arrival =>
    match transport with
    | .httpBridge => host.CleanHttp arrival w.state payload.validated
    | .websocket => host.CleanWebsocket w.state payload.validated
  | .replay index => ∀ request, w.pending[index]? = some request →
      ∀ input, request.freshUpstreamInput = some input → input = request.clientInput
  | .complete index responseId outputTokens _ =>
    transport = .httpBridge → ∀ request, w.pending[index]? = some request →
      (request.isPrewarm && decide (outputTokens = some 0)) = false →
      PairsUp w.state request responseId
  | _ => True

/-! ## The invariant -/

def Host.StoredAs (host : Host F) (input : JsonValue F) (count : ℕ) (fingerprint : Option Str) :
    Prop :=
  ∃ items, asList input = some items ∧ items.length = count ∧
    fingerprint = some (host.fingerprintInputItems items)

/-- One of the turns has the response and completed with an input of that count and
fingerprint. -/
def Host.HeldBy (host : Host F) (turns : List (Turn F)) (anchor : Str) (count : ℕ)
    (fingerprint : Option Str) : Prop :=
  ∃ t ∈ turns, t.responseId = anchor ∧ host.StoredAs t.clientInput count fingerprint

def Host.Paired (host : Host F) (turns : List (Turn F)) (state : Continuity) : Prop :=
  ∀ anchor, state.lastCompletedResponseId = some anchor → 0 < state.lastCompletedInputCount →
    host.HeldBy turns anchor state.lastCompletedInputCount
      state.lastCompletedInputPrefixFingerprint

def Host.RowHeld (host : Host F) (turns : List (Turn F)) (row : DurableRow) : Prop :=
  ∀ anchor count fingerprint, row.latestResponseId = some anchor →
    row.latestInputItemCount = some count → row.latestInputFullFingerprint = some fingerprint →
    host.HeldBy turns anchor count (some fingerprint)

/-- What the request keeps of its input, if it keeps anything, is the client's. -/
def Host.Kept (host : Host F) (request : RequestState F) : Prop :=
  0 < request.inputItemCount →
    host.StoredAs request.clientInput request.inputItemCount request.inputFullFingerprint

def Host.CutHeld (host : Host F) (turns : List (Turn F)) (s : Sent F) : Prop :=
  ∃ anchor, s.previousResponseId = some anchor ∧
    host.HeldBy turns anchor s.cut (some (host.fingerprintInputItems (s.input.take s.cut)))

structure Host.Sound (host : Host F) (w : World F) : Prop where
  kept : ∀ request ∈ w.pending, host.Kept request
  paired : host.Paired w.turns w.state
  rows : ∀ row ∈ w.rows, host.RowHeld w.turns row
  sent : ∀ s ∈ w.sent, host.CutHeld w.turns s

variable {host : Host F}

theorem Host.HeldBy.mono {turns more : List (Turn F)} (sub : turns ⊆ more) {anchor : Str}
    {count : ℕ} {fingerprint : Option Str} (h : host.HeldBy turns anchor count fingerprint) :
    host.HeldBy more anchor count fingerprint := by
  obtain ⟨t, ht, rest⟩ := h
  exact ⟨t, sub ht, rest⟩

theorem Host.Paired.mono {turns more : List (Turn F)} (sub : turns ⊆ more) {state : Continuity}
    (h : host.Paired turns state) : host.Paired more state :=
  fun anchor last some => (h anchor last some).mono sub

theorem Host.RowHeld.mono {turns more : List (Turn F)} (sub : turns ⊆ more) {row : DurableRow}
    (h : host.RowHeld turns row) : host.RowHeld more row :=
  fun anchor count fingerprint id items print => (h anchor count fingerprint id items print).mono sub

theorem Host.CutHeld.mono {turns more : List (Turn F)} (sub : turns ⊆ more) {s : Sent F}
    (h : host.CutHeld turns s) : host.CutHeld more s := by
  obtain ⟨anchor, id, held⟩ := h
  exact ⟨anchor, id, held.mono sub⟩

/-! ## What each operation keeps -/

theorem Host.extendsStored_eq_true {state : Continuity} {input : JsonValue F}
    (h : host.extendsStored state input = true) :
    ∃ items, asList input = some items ∧ 0 < state.lastCompletedInputCount ∧
      state.lastCompletedInputPrefixFingerprint =
        some (host.fingerprintInputItems (items.take state.lastCompletedInputCount)) := by
  unfold Host.extendsStored Host.inputPrefixMatchesStoredContext at h
  split at h
  · rename_i stored items print list
    simp only [Bool.and_eq_true, decide_eq_true_eq] at h
    obtain ⟨⟨positive, -⟩, same⟩ := h
    exact ⟨items, list, positive, by rw [print, same]⟩
  · exact absurd h Bool.false_ne_true

theorem Host.trimPrevious_none {isOutputItem : JsonValue F → Bool} {payload : Payload F}
    (h : (host.trimPrevious isOutputItem payload).2 = none) :
    (host.trimPrevious isOutputItem payload).1 = payload := by
  unfold Host.trimPrevious at h ⊢
  split
  · rename_i items anchor list
    simp only [anchor, list] at h
    split
    · rfl
    · rename_i shorter
      rw [if_neg shorter] at h
      exact absurd h (Option.some_ne_none _)
  · rfl

theorem Host.trimPrevious_some {isOutputItem : JsonValue F → Bool} {payload : Payload F}
    {stored : ℕ × Str} (h : (host.trimPrevious isOutputItem payload).2 = some stored) :
    host.StoredAs payload.input stored.1 (some stored.2) := by
  unfold Host.trimPrevious at h
  split at h
  · rename_i items anchor list
    split at h
    · cases h
    · cases h
      exact ⟨items, list, rfl, rfl⟩
  · cases h

theorem Host.trimPrevious_previousResponseId (isOutputItem : JsonValue F → Bool)
    (payload : Payload F) :
    (host.trimPrevious isOutputItem payload).1.previousResponseId = payload.previousResponseId := by
  unfold Host.trimPrevious
  split
  · split <;> rfl
  · rfl

theorem Host.trimPrevious_unanchored {isOutputItem : JsonValue F → Bool} {payload : Payload F}
    (h : payload.previousResponseId = none) :
    (host.trimPrevious isOutputItem payload).2 = none := by
  unfold Host.trimPrevious
  rw [h]

theorem Host.durablePayload_input (payload : Payload F) (arrival : Arrival) :
    (host.durablePayload payload arrival).input = payload.input := by
  unfold Host.durablePayload
  split <;> rfl

/-- A request that keeps the list that it was prepared from keeps the client's, if that list is
the client's. -/
theorem Host.prepareRequestState_kept (clientInput : JsonValue F) (isPrewarm : Bool)
    (payload : Payload F) (same : payload.input = clientInput) :
    host.Kept (host.prepareRequestState clientInput isPrewarm payload) := by
  intro positive
  subst same
  simp only [Host.prepareRequestState] at positive ⊢
  cases list : asList payload.input with
  | none =>
    rw [list] at positive
    exact absurd positive (lt_irrefl 0)
  | some items =>
    rw [list] at positive
    have some_item : items ≠ [] := List.ne_nil_of_length_pos positive
    refine ⟨items, list, rfl, ?_⟩
    simp [Option.filter, some_item]

theorem Host.record_kept {request : RequestState F} {stored : ℕ × Str}
    (h : host.StoredAs request.clientInput stored.1 (some stored.2)) :
    host.Kept (request.record stored) :=
  fun _ => h

theorem Host.interrupted_unanchored {last : Option Str} {pending : PendingToolCalls}
    {payload : Payload F} (h : payload.previousResponseId = none) :
    interruptedToolOutputsInput last pending payload = none := by
  unfold interruptedToolOutputsInput
  rw [h]

theorem completeInterrupted_eq_self {session : Continuity} {payload : Payload F}
    (h : interruptedToolOutputsInput session.lastCompletedResponseId session.lastPendingToolCalls
      payload = none) : completeInterrupted session payload = payload := by
  rw [completeInterrupted, h]
  rfl

section OnSession

variable {arrival : Arrival} {session : Continuity} {payload : Payload F}
  {recorded : Option (ℕ × Str)}

theorem Host.anchorOnSession_of_not_extends
    (h : host.extendsStored session payload.input = false) :
    host.anchorOnSession arrival session payload = payload := by
  have no_anchor : host.sessionAnchor arrival session payload = none := by
    simp [Host.sessionAnchor, h]
  cases payload
  simp [Host.anchorOnSession, no_anchor]

/-- Where the input is not cut, nothing is put in front of it. -/
theorem Host.uncut_eq_self (faithful : Faithful host session payload recorded)
    (none_lost : recorded = none)
    (uncut : host.trims session (host.anchorOnSession arrival session payload) = false) :
    completeInterrupted session
        (host.trimStoredContext session (host.anchorOnSession arrival session payload)) =
      host.anchorOnSession arrival session payload := by
  rw [Host.trimStoredContext, if_neg (Bool.eq_false_iff.mp uncut)]
  apply completeInterrupted_eq_self
  rw [Host.trims, Bool.and_eq_false_iff] at uncut
  rcases uncut with unanchored | apart
  · exact Host.interrupted_unanchored (Option.isNone_iff_eq_none.mp (by simpa using unanchored))
  · have apart : host.extendsStored session payload.input = false := apart
    rw [Host.anchorOnSession_of_not_extends apart]
    exact faithful.kept apart none_lost

theorem Host.none_lost_of_trims (faithful : Faithful host session payload recorded)
    (unanchored : payload.previousResponseId = none → recorded = none)
    (trims : host.trims session (host.anchorOnSession arrival session payload) = true) :
    recorded = none := by
  rw [Host.trims, Bool.and_eq_true] at trims
  by_cases anchored : payload.previousResponseId.isSome = true
  · exact (faithful.anchored trims.2 anchored).2
  · exact unanchored (Option.not_isSome_iff_eq_none.mp anchored)

theorem Host.prepareOnSession_kept {clientInput : JsonValue F} {durable : Bool}
    (same : recorded = none → payload.input = clientInput)
    (whole : ∀ stored, recorded = some stored → host.StoredAs clientInput stored.1 (some stored.2))
    (unanchored : payload.previousResponseId = none → recorded = none)
    (faithful : Faithful host session payload recorded) :
    host.Kept
      (host.prepareOnSession clientInput arrival session durable payload recorded).request := by
  show host.Kept (host.recordInput session (host.anchorOnSession arrival session payload) recorded
    (host.prepareRequestState clientInput arrival.isPrewarm (completeInterrupted session
      (host.trimStoredContext session (host.anchorOnSession arrival session payload)))))
  unfold Host.recordInput
  split
  · rename_i trims
    have client := same (Host.none_lost_of_trims faithful unanchored trims)
    rw [Host.trims, Bool.and_eq_true] at trims
    obtain ⟨items, list, -, -⟩ := Host.extendsStored_eq_true trims.2
    have list : asList payload.input = some items := list
    apply Host.record_kept
    refine ⟨items, client ▸ list, ?_, ?_⟩ <;>
      simp [inputItems, Host.anchorOnSession, list]
  · rename_i uncut
    cases recorded with
    | some stored => exact Host.record_kept (whole stored rfl)
    | none =>
      rw [Host.uncut_eq_self faithful rfl (Bool.eq_false_iff.mpr uncut)]
      exact Host.prepareRequestState_kept _ _ _ (same rfl)

/-- What is cut off is held by the turn that the session is at. -/
theorem Host.sentOf_held {turns : List (Turn F)} (paired : host.Paired turns session)
    (faithful : Faithful host session payload recorded) {s : Sent F}
    (h : host.sentOf session (host.anchorOnSession arrival session payload) = some s) :
    host.CutHeld turns s := by
  unfold Host.sentOf at h
  split at h
  swap
  · cases h
  rename_i trims
  cases h
  rw [Host.trims, Bool.and_eq_true] at trims
  obtain ⟨anchored, extends_⟩ := trims
  obtain ⟨items, list, positive, print⟩ := Host.extendsStored_eq_true extends_
  have at_last : (host.anchorOnSession arrival session payload).previousResponseId =
      session.lastCompletedResponseId := by
    by_cases own : payload.previousResponseId.isSome = true
    · obtain ⟨anchor, id⟩ := Option.isSome_iff_exists.mp own
      rw [← (faithful.anchored extends_ own).1]
      simp [Host.anchorOnSession, id]
    · have none_own := Option.not_isSome_iff_eq_none.mp own
      have injected : host.sessionAnchor arrival session payload =
          session.lastCompletedResponseId := by
        have anchored : (host.sessionAnchor arrival session payload).isSome = true := by
          simpa [Host.anchorOnSession, none_own] using anchored
        unfold Host.sessionAnchor at anchored ⊢
        split
        · rfl
        · rename_i off
          rw [if_neg off] at anchored
          cases anchored
      simp [Host.anchorOnSession, none_own, injected]
  obtain ⟨anchor, id⟩ := Option.isSome_iff_exists.mp anchored
  refine ⟨anchor, id, ?_⟩
  have held := paired anchor (at_last ▸ id) positive
  rw [print] at held
  simpa [inputItems, list] using held

end OnSession

/-! ## What each step keeps -/

theorem World.knows_held {w : World F} (rows : ∀ row ∈ w.rows, host.RowHeld w.turns row)
    {row : DurableRow} (known : w.knows row = true) : host.RowHeld w.turns row := by
  intro anchor count fingerprint id items print
  simp only [World.knows, items, print, Option.isNone_some, Bool.false_or, List.any_eq_true,
    Bool.and_eq_true, decide_eq_true_eq] at known
  obtain ⟨stored, member, ⟨sameId, sameItems⟩, samePrint⟩ := known
  exact rows stored member anchor count fingerprint (sameId.trans id) sameItems samePrint

/-- The durable row brings its own response id with its pair. -/
theorem Host.restoreFromDurable_paired {turns : List (Turn F)} {arrival : Arrival}
    {session : Continuity} (payload : Payload F)
    (held : ∀ row, arrival.lookup = some row → host.RowHeld turns row)
    (paired : host.Paired turns session) :
    host.Paired turns (host.restoreFromDurable payload arrival session) := by
  unfold Host.restoreFromDurable
  split
  swap
  · exact paired
  rename_i anchor row injected lookup
  split
  swap
  · exact paired
  split
  swap
  · exact paired
  rename_i count fingerprint items print
  have id : row.latestResponseId = some anchor := by
    unfold Host.durableAnchor at injected
    rw [lookup, Option.bind_some] at injected
    split at injected
    · exact injected
    · cases injected
  intro last same _
  cases same
  exact held row lookup anchor count fingerprint id items print

theorem Host.prepareHttp_kept {arrival : Arrival} {session : Continuity} {payload : Payload F}
    (clean : host.CleanHttp arrival session payload) :
    host.Kept (host.prepareHttp arrival session payload).2.request := by
  have whole : ∀ stored, (host.trimPrevious isHttpBridgePreviousResponseOutputItem
      (host.durablePayload payload arrival)).2 = some stored →
      host.StoredAs payload.input stored.1 (some stored.2) := fun stored h => by
    have := Host.trimPrevious_some h
    rwa [Host.durablePayload_input] at this
  have same : (host.trimPrevious isHttpBridgePreviousResponseOutputItem
      (host.durablePayload payload arrival)).2 = none →
      (host.trimPrevious isHttpBridgePreviousResponseOutputItem
        (host.durablePayload payload arrival)).1.input = payload.input := fun h => by
    rw [Host.trimPrevious_none h, Host.durablePayload_input]
  have unanchored : (host.trimPrevious isHttpBridgePreviousResponseOutputItem
      (host.durablePayload payload arrival)).1.previousResponseId = none →
      (host.trimPrevious isHttpBridgePreviousResponseOutputItem
        (host.durablePayload payload arrival)).2 = none := fun h => by
    rw [Host.trimPrevious_previousResponseId] at h
    exact Host.trimPrevious_unanchored h
  unfold Host.CleanHttp at clean
  unfold Host.prepareHttp
  by_cases failed : arrival.ownerForwardFailed = true
  · simp only [failed, if_true] at clean ⊢
    rw [completeInterrupted_eq_self clean.2]
    exact Host.prepareRequestState_kept _ _ _ (same clean.1)
  · simp only [failed] at clean ⊢
    exact Host.prepareOnSession_kept same whole unanchored clean

theorem Host.prepareHttp_sent {turns : List (Turn F)} {arrival : Arrival} {session : Continuity}
    {payload : Payload F} (held : ∀ row, arrival.lookup = some row → host.RowHeld turns row)
    (paired : host.Paired turns session) (clean : host.CleanHttp arrival session payload) :
    host.Paired turns (host.prepareHttp arrival session payload).1 ∧
      ∀ s, (host.prepareHttp arrival session payload).2.sent = some s → host.CutHeld turns s := by
  unfold Host.CleanHttp at clean
  unfold Host.prepareHttp
  by_cases failed : arrival.ownerForwardFailed = true
  · simp only [failed, if_true]
    exact ⟨paired, fun s h => by cases h⟩
  · simp only [failed] at clean ⊢
    have restored := Host.restoreFromDurable_paired payload held paired
    exact ⟨restored, fun s h => Host.sentOf_held restored clean h⟩

theorem Host.prepareWebsocket_kept {isPrewarm affinity : Bool} {state : Continuity}
    {payload : Payload F} (clean : host.CleanWebsocket state payload) :
    host.Kept (host.prepareWebsocket isPrewarm affinity state payload).request := by
  show host.Kept (host.recordWebsocketInput _ _ _)
  unfold Host.recordWebsocketInput
  split
  · rename_i stored lost
    exact Host.record_kept (Host.trimPrevious_some lost)
  · rename_i anchor none_lost injected
    have whole := Host.trimPrevious_none none_lost
    unfold Host.websocketContinuityAnchor at injected
    split at injected
    swap
    · cases injected
    rename_i conditions
    rw [Bool.and_eq_true] at conditions
    obtain ⟨items, list, -, -⟩ := Host.extendsStored_eq_true conditions.2
    rw [whole] at list
    apply Host.record_kept
    refine ⟨items, list, ?_, ?_⟩ <;> simp [whole, inputItems, list]
  · rename_i none_lost not_injected
    rw [not_injected, cutAtAnchor, completeInterrupted_eq_self (clean none_lost)]
    apply Host.prepareRequestState_kept
    rw [Host.trimPrevious_none none_lost]

theorem Host.prepareWebsocket_sent {turns : List (Turn F)} {isPrewarm affinity : Bool}
    {state : Continuity} {payload : Payload F} (paired : host.Paired turns state) {s : Sent F}
    (h : (host.prepareWebsocket isPrewarm affinity state payload).sent = some s) :
    host.CutHeld turns s := by
  obtain ⟨anchor, injected, rfl⟩ := Option.map_eq_some_iff.mp h
  unfold Host.websocketContinuityAnchor at injected
  split at injected
  swap
  · cases injected
  rename_i conditions
  rw [Bool.and_eq_true] at conditions
  obtain ⟨items, list, positive, print⟩ := Host.extendsStored_eq_true conditions.2
  refine ⟨anchor, rfl, ?_⟩
  have held := paired anchor injected positive
  rw [print] at held
  simpa [inputItems, list] using held

theorem Host.replayFresh_kept {request replayed : RequestState F}
    (whole : ∀ input, request.freshUpstreamInput = some input → input = request.clientInput)
    (h : host.replayFresh request = some replayed) : host.Kept replayed := by
  unfold Host.replayFresh at h
  split at h
  swap
  · cases h
  rename_i input _ fresh
  cases h
  intro positive
  have client := whole input fresh
  simp only [Host.refreshInputFingerprint] at positive ⊢
  cases list : asList input with
  | none =>
    rw [list] at positive
    exact absurd positive (lt_irrefl 0)
  | some items => exact ⟨items, client ▸ list, rfl, rfl⟩

theorem RequestState.resendFresh_kept {request resent : RequestState F} (kept : host.Kept request)
    (h : request.resendFresh = some resent) : host.Kept resent := by
  unfold RequestState.resendFresh at h
  split at h
  · cases h
    exact kept
  · cases h

/-- The turns once a request has completed. -/
def completedTurns (turns : List (Turn F)) (request : RequestState F) (responseId : Option Str) :
    List (Turn F) :=
  (responseId.map fun id => ⟨id, request.clientInput⟩).toList ++ turns

theorem Host.heldBy_completed {turns : List (Turn F)} {request : RequestState F} {id : Str}
    {count : ℕ} {fingerprint : Option Str}
    (h : host.StoredAs request.clientInput count fingerprint) :
    host.HeldBy (completedTurns turns request (some id)) id count fingerprint :=
  ⟨⟨id, request.clientInput⟩, List.mem_cons_self, rfl, h⟩

theorem Host.recordHttpCompletion_paired {turns : List (Turn F)} {session : Continuity}
    {request : RequestState F} {responseId : Option Str} {calls : PendingToolCalls}
    (paired : host.Paired turns session) (kept : host.Kept request)
    (pairs : PairsUp session request responseId) :
    host.Paired (completedTurns turns request responseId)
      (recordHttpCompletion session request responseId calls) := by
  intro anchor last positive
  cases responseId with
  | some id =>
    by_cases own : 0 < request.inputItemCount
    · simp only [recordHttpCompletion, if_pos own] at last ⊢
      cases last
      exact Host.heldBy_completed (kept own)
    · have empty := pairs.resolve_left own
      simp only [recordHttpCompletion, if_neg own, empty] at positive
      exact absurd positive (lt_irrefl 0)
  | none =>
    by_cases own : 0 < request.inputItemCount
    · have fresh := pairs.resolve_left (Nat.pos_iff_ne_zero.mp own)
      simp only [recordHttpCompletion, if_pos own, fresh] at last
      cases last
    · simp only [recordHttpCompletion, if_neg own] at last positive ⊢
      exact paired anchor last positive

theorem Host.recordWebsocketCompletion_paired (turns : List (Turn F)) {request : RequestState F}
    {responseId : Option Str} {calls : PendingToolCalls} (kept : host.Kept request) :
    host.Paired (completedTurns turns request responseId)
      (recordWebsocketCompletion request responseId calls) := by
  intro anchor last positive
  cases responseId with
  | none => cases last
  | some id =>
    unfold recordWebsocketCompletion at last positive ⊢
    by_cases own : 0 < request.inputItemCount ∧ request.inputFullFingerprint.isSome
    · simp only [if_pos own] at last ⊢
      cases last
      exact Host.heldBy_completed (kept own.1)
    · simp only [if_neg own] at positive
      exact absurd positive (lt_irrefl 0)

theorem Host.registeredRow_held (turns : List (Turn F)) {request : RequestState F} {id : Str}
    (kept : host.Kept request) :
    host.RowHeld (completedTurns turns request (some id)) (registeredRow request id) := by
  intro anchor count fingerprint same items print
  cases same
  simp only [registeredRow] at items print
  by_cases own : 0 < request.inputItemCount
  · rw [if_pos own] at items print
    cases items
    rw [← print]
    exact Host.heldBy_completed (kept own)
  · rw [if_neg own] at items
    cases items

theorem Host.complete_sound {w : World F} {transport : Transport} {request : RequestState F}
    {responseId : Option Str} {outputTokens : Option ℕ} {calls : PendingToolCalls}
    (sound : host.Sound w) (kept : host.Kept request)
    (pairs : transport = .httpBridge →
      (request.isPrewarm && decide (outputTokens = some 0)) = false →
      PairsUp w.state request responseId) :
    host.Sound (w.complete transport request responseId outputTokens calls) := by
  have sub : w.turns ⊆ completedTurns w.turns request responseId := List.subset_append_right _ _
  have rows := fun row h => (sound.rows row h).mono sub
  have sent := fun s h => (sound.sent s h).mono sub
  unfold World.complete
  split
  · exact ⟨sound.kept, sound.paired.mono sub, rows, sent⟩
  rename_i recorded
  cases transport with
  | websocket =>
    exact ⟨sound.kept, Host.recordWebsocketCompletion_paired w.turns kept, rows, sent⟩
  | httpBridge =>
    refine ⟨sound.kept, Host.recordHttpCompletion_paired sound.paired kept
      (pairs rfl (Bool.eq_false_iff.mpr recorded)), fun row h => ?_, sent⟩
    rcases List.mem_append.mp h with new | old
    · cases responseId with
      | none => cases new
      | some id =>
        rw [List.mem_singleton.mp new]
        exact Host.registeredRow_held w.turns kept
    · exact rows row old

theorem Host.submit_sound {w : World F} {state : Continuity} {prepared : Prepared F}
    (sound : host.Sound w) (kept : host.Kept prepared.request) (paired : host.Paired w.turns state)
    (held : ∀ s, prepared.sent = some s → host.CutHeld w.turns s) :
    host.Sound (w.submit state prepared) where
  kept := fun request h => by
    rcases List.mem_append.mp h with old | new
    · exact sound.kept request old
    · rw [List.mem_singleton.mp new]
      exact kept
  paired := paired
  rows := sound.rows
  sent := fun s h => by
    rcases List.mem_append.mp h with old | new
    · exact sound.sent s old
    · exact held s (Option.mem_toList.mp new)

theorem Host.Sound.step {transport : Transport} {w w' : World F} {event : Event F}
    (sound : host.Sound w) (clean : host.Clean transport w event)
    (hstep : host.step transport w event = some w') : host.Sound w' := by
  cases event with
  | send payload arrival =>
    cases transport with
    | httpBridge =>
      simp only [Host.step] at hstep
      split at hstep
      swap
      · cases hstep
      rename_i known
      cases hstep
      have held : ∀ row, arrival.lookup = some row → host.RowHeld w.turns row := fun row h =>
        World.knows_held sound.rows (by simpa [h] using known)
      obtain ⟨paired, cut⟩ := Host.prepareHttp_sent held sound.paired clean
      exact Host.submit_sound sound (Host.prepareHttp_kept clean) paired cut
    | websocket =>
      cases hstep
      exact Host.submit_sound sound (Host.prepareWebsocket_kept clean) sound.paired
        fun s h => Host.prepareWebsocket_sent sound.paired h
  | prewarm payload =>
    cases transport with
    | websocket => cases hstep
    | httpBridge =>
      cases hstep
      refine ⟨fun request h => ?_, sound.paired, sound.rows, sound.sent⟩
      rcases List.mem_append.mp h with old | new
      · exact sound.kept request old
      · rw [List.mem_singleton.mp new]
        exact fun positive => absurd positive (lt_irrefl 0)
  | replay index =>
    obtain ⟨replayed, found, rfl⟩ := Option.map_eq_some_iff.mp hstep
    obtain ⟨request, pending, fresh⟩ := Option.bind_eq_some_iff.mp found
    refine ⟨fun other h => ?_, sound.paired, sound.rows, sound.sent⟩
    rcases List.mem_or_eq_of_mem_set h with old | rfl
    · exact sound.kept other old
    · exact Host.replayFresh_kept (clean request pending) fresh
  | resend index =>
    obtain ⟨resent, found, rfl⟩ := Option.map_eq_some_iff.mp hstep
    obtain ⟨request, pending, fresh⟩ := Option.bind_eq_some_iff.mp found
    refine ⟨fun other h => ?_, sound.paired, sound.rows, sound.sent⟩
    rcases List.mem_or_eq_of_mem_set h with old | rfl
    · exact sound.kept other old
    · exact RequestState.resendFresh_kept (sound.kept request (List.mem_of_getElem? pending)) fresh
  | complete index responseId outputTokens calls =>
    obtain ⟨request, pending, rfl⟩ := Option.map_eq_some_iff.mp hstep
    have rest : host.Sound { w with pending := w.pending.eraseIdx index } :=
      ⟨fun other h => sound.kept other (List.mem_of_mem_eraseIdx h), sound.paired, sound.rows,
        sound.sent⟩
    exact Host.complete_sound rest (sound.kept request (List.mem_of_getElem? pending))
      fun http recorded => clean http request pending recorded
  | fail index =>
    obtain ⟨request, pending, rfl⟩ := Option.map_eq_some_iff.mp hstep
    exact ⟨fun other h => sound.kept other (List.mem_of_mem_eraseIdx h), sound.paired, sound.rows,
      sound.sent⟩
  | elsewhere input responseId =>
    cases hstep
    have kept : host.Kept (host.prepareRequestState input false ⟨none, input⟩) :=
      Host.prepareRequestState_kept input false ⟨none, input⟩ rfl
    have sub : w.turns ⊆ ⟨responseId, input⟩ :: w.turns := List.subset_cons_self _ _
    refine ⟨sound.kept, sound.paired.mono sub, fun row h => ?_,
      fun s h => (sound.sent s h).mono sub⟩
    rcases List.mem_cons.mp h with rfl | old
    · exact Host.registeredRow_held w.turns kept
    · exact (sound.rows row old).mono sub

theorem Host.sound_fresh {w : World F} (h : w.Fresh) : host.Sound w := by
  subst h
  refine ⟨fun _ h => ?_, fun _ h => ?_, fun _ h => ?_, fun _ h => ?_⟩ <;> cases h

/-- In every run of clean steps the pair belongs to the turn whose response is the anchor, and
what a request leaves out is the input of the turn that it is anchored on. -/
theorem cut_items_are_stored (host : Host F) (transport : Transport) {w : World F}
    (run : Runs.Reachable (host.step transport) (host.Clean transport) World.Fresh w) :
    host.Paired w.turns w.state ∧ ∀ s ∈ w.sent, ∃ t ∈ w.turns, ∃ items,
      s.previousResponseId = some t.responseId ∧ asList t.clientInput = some items ∧
      items.length = s.cut ∧
      host.fingerprintInputItems items = host.fingerprintInputItems (s.input.take s.cut) := by
  have sound : host.Sound w := run.invariant (fun _ => Host.sound_fresh)
    fun _ _ _ sound clean hstep => sound.step clean hstep
  refine ⟨sound.paired, fun s sent => ?_⟩
  obtain ⟨anchor, id, t, turn, rfl, items, list, length, print⟩ := sound.sent s sent
  exact ⟨t, turn, items, id, list, length, (Option.some.inj print).symm⟩

section Examples

def plainHost : Host {t : Str // isFloatLiteral t = true} where
  fmt := literalFloats
  sha256 := id
  retained := some

def userMessage (t : String) : JsonValue {t : Str // isFloatLiteral t = true} :=
  .dict [(text "role", .str (text "user")), (text "content", .str (text t))]

def codexArrival : Arrival where
  isPrewarm := false
  codexSession := true
  reattach := false
  ownerForwardFailed := false
  lookup := none

/-- The second turn is a full resend of the first. -/
def resendEvents : List (Event {t : Str // isFloatLiteral t = true}) :=
  [.send ⟨none, .list [userMessage "a"]⟩ codexArrival,
    .complete 0 (some (text "r1")) none [],
    .send ⟨none, .list [userMessage "a", userMessage "b"]⟩ codexArrival]

def runOf (events : List (Event {t : Str // isFloatLiteral t = true})) :
    World {t : Str // isFloatLiteral t = true} :=
  (Runs.replay (plainHost.step .httpBridge) {} events).getD {}

/-- The second turn of `resendEvents` is cut, and by an item that the first one has. -/
theorem cut_items_are_stored_resend :
    (runOf resendEvents).sent.map Sent.cut = [1] ∧
      ∀ s ∈ (runOf resendEvents).sent, ∃ t ∈ (runOf resendEvents).turns, ∃ items,
        s.previousResponseId = some t.responseId ∧ asList t.clientInput = some items ∧
        items.length = s.cut ∧
        plainHost.fingerprintInputItems items =
          plainHost.fingerprintInputItems (s.input.take s.cut) := by
  have first : Runs.Reachable (plainHost.step .httpBridge) (plainHost.Clean .httpBridge)
      World.Fresh (runOf (resendEvents.take 1)) := by
    refine ⟨{}, rfl, .tail (.send ⟨none, .list [userMessage "a"]⟩ codexArrival) (.refl _)
      ⟨fun h _ => ?_, fun _ _ => rfl⟩ rfl⟩
    exact absurd h (by decide +kernel)
  have second : Runs.Reachable (plainHost.step .httpBridge) (plainHost.Clean .httpBridge)
      World.Fresh (runOf (resendEvents.take 2)) := by
    refine first.tail (a := .complete 0 (some (text "r1")) none [])
      (fun _ request pending _ => ?_) rfl
    cases pending
    exact Or.inl (by decide +kernel)
  have third : Runs.Reachable (plainHost.step .httpBridge) (plainHost.Clean .httpBridge)
      World.Fresh (runOf resendEvents) :=
    second.tail (a := .send ⟨none, .list [userMessage "a", userMessage "b"]⟩ codexArrival)
      ⟨fun _ own => absurd own Bool.false_ne_true, fun _ _ => rfl⟩ rfl
  exact ⟨by decide +kernel, (cut_items_are_stored plainHost .httpBridge third).2⟩

/-- The third turn goes back to the response of the first and repeats the item of the second. -/
def branchEvents : List (Event {t : Str // isFloatLiteral t = true}) :=
  [.send ⟨none, .list [userMessage "a", userMessage "b"]⟩ codexArrival,
    .complete 0 (some (text "r1")) none [],
    .send ⟨some (text "r1"), .list [userMessage "c"]⟩ codexArrival,
    .complete 0 (some (text "r2")) none [],
    .send ⟨some (text "r1"), .list [userMessage "c", userMessage "d"]⟩ codexArrival]

theorem cut_at_another_turn :
    Runs.Reachable (plainHost.step .httpBridge) Runs.Any World.Fresh (runOf branchEvents) ∧
      ∃ s ∈ (runOf branchEvents).sent, ∀ t ∈ (runOf branchEvents).turns,
        s.previousResponseId = some t.responseId → ∀ items, asList t.clientInput = some items →
          items.length ≠ s.cut := by
  refine ⟨Runs.reachable_of_replay branchEvents rfl (fun _ _ _ => trivial)
    (Runs.replay_eq_getD (by decide +kernel) {}), ?_⟩
  have check : ((runOf branchEvents).sent.any fun s => (runOf branchEvents).turns.all fun t =>
      decide (s.previousResponseId = some t.responseId →
        ((asList t.clientInput).map List.length) ≠ some s.cut)) = true := by
    decide +kernel
  obtain ⟨s, sent, apart⟩ := List.any_eq_true.mp check
  refine ⟨s, sent, fun t turn same items list length => ?_⟩
  refine of_decide_eq_true (List.all_eq_true.mp apart t turn) same ?_
  rw [list, Option.map_some, length]

end Examples

end Continuity
