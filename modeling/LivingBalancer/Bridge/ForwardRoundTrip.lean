import LivingBalancer.Bridge.ForwardAuth

/-!
# An owner forward read back

The headers built for the owner, read by the owner with the posted body. Client
headers under the reserved names are dropped before the context is written, so the
reading depends on the context alone. A reservation travels as three texts: its
`has_applicable_limits` is not among them, and the receiver strips texts that were
signed as they are.
-/

namespace BridgeForward

open PyText

variable {Fields Tool : Type}

/-! ## What the receiver finds -/

/-- A context an honest instance forwards, with its client's headers. -/
structure Forwardable (headers : HeaderMap) (c : ForwardContext) : Prop where
  origin : Trimmed c.originInstance
  target : Trimmed c.targetInstance
  turnState : ∀ t ∈ c.downstreamTurnState, Trimmed t
  kind : ∀ t ∈ c.originalAffinityKind, Trimmed t
  key : ∀ t ∈ c.originalAffinityKey, Trimmed t
  clientIp : ∀ t ∈ c.clientIp, Trimmed t
  affinity : c.originalAffinityKind.isSome = c.originalAffinityKey.isSome
  noTurnState : c.downstreamTurnState = none → headers.get turnStateHeader = none

theorem relayed_turnState {headers : HeaderMap} (absent : headers.get turnStateHeader = none) :
    (relayedHeaders headers).get turnStateHeader = none := by
  rw [relayedHeaders, get_setSome, if_neg (by decide), Dict.get_filter, filterInboundHeaders,
    Dict.get_filter, absent]
  rfl

theorem truthy_of_trimmed {value : Option Text} (h : ∀ t ∈ value, Trimmed t) :
    truthy value = value.isSome := by
  cases value with
  | none => rfl
  | some t => simp [truthy, (h t rfl).1]

/-- A condition on presence that writes exactly the present text. -/
theorem ite_isSome_getD (value other : Option Text) (absent : value = none → other = none) :
    (if value.isSome then some (value.getD []) else other) = value := by
  cases value with
  | none => simp [absent]
  | some t => rfl

theorem builtHeaders_reads (hashing : Hashing Fields Tool) {headers : HeaderMap}
    (p : ResponsesRequest Fields Tool) {c : ForwardContext} (honest : Forwardable headers c) :
    Reads c (buildOwnerForwardHeaders hashing headers p c) := by
  -- A reserved name has no value before the context is written.
  have relayed : ∀ {name : String}, nameStartsWith "x-codex-bridge-" name.toLower = true →
      name ≠ "authorization" → (relayedHeaders headers).get name = none := relayed_reserved headers
  have pair : (truthy c.originalAffinityKind && truthy c.originalAffinityKey)
      = c.originalAffinityKind.isSome := by
    rw [truthy_of_trimmed honest.kind, truthy_of_trimmed honest.key, ← honest.affinity,
      Bool.and_self]
  simp only [buildOwnerForwardHeaders, pair, truthy_of_trimmed honest.clientIp,
    truthy_of_trimmed honest.turnState]
  generalize bridgeForwardToolsBoundSignature hashing p c c.version = tag
  generalize bridgeForwardSignature hashing p c true c.version = ipTag
  generalize bridgeForwardSignature hashing p c false c.version = plainTag
  constructor
  all_goals
    simp +decide only [Dict.get_set, get_setIf, get_setSome, and_true, and_false, if_true, if_false]
  case version => rw [relayed (by decide +kernel) (by decide), Option.or_none]
  case unanchored => rw [relayed (by decide +kernel) (by decide)]
  case kind =>
    rw [relayed (by decide +kernel) (by decide)]
    exact ite_isSome_getD _ none fun _ => rfl
  case key =>
    rw [relayed (by decide +kernel) (by decide), honest.affinity]
    exact ite_isSome_getD _ none fun _ => rfl
  case clientIp =>
    rw [relayed (by decide +kernel) (by decide)]
    exact ite_isSome_getD _ none fun _ => rfl
  case turnState =>
    exact ite_isSome_getD _ _ fun absent => relayed_turnState (honest.noTurnState absent)
  case reservationId => rw [relayed (by decide +kernel) (by decide), Option.or_none]
  case reservationKeyId => rw [relayed (by decide +kernel) (by decide), Option.or_none]
  case reservationModel => rw [relayed (by decide +kernel) (by decide), Option.or_none]

theorem builtHeaders_toolsBound (hashing : Hashing Fields Tool) (headers : HeaderMap)
    (p : ResponsesRequest Fields Tool) (c : ForwardContext) :
    (buildOwnerForwardHeaders hashing headers p c).get signatureV2Header
      = some (bridgeForwardToolsBoundSignature hashing p c c.version) := by
  simp [buildOwnerForwardHeaders]

/-! ## The round trip -/

/-- Trimmed reservations are enough for an honest forward to be accepted as it was sent, but for the
limits. -/
theorem parse_built (hashing : Hashing Fields Tool) {headers : HeaderMap}
    (p : ResponsesRequest Fields Tool) {c : ForwardContext} (honest : Forwardable headers c)
    (trimmed : ∀ r ∈ c.reservation, Trimmed r.reservationId ∧ Trimmed r.keyId ∧ Trimmed r.model) :
    parseForwardedRequest hashing (buildOwnerForwardHeaders hashing headers p c) p
      c.targetInstance = .ok { c.received with signatureVersion := c.version } := by
  have readable : ReadableFields c.targetInstance c.received := by
    refine ⟨honest.origin, rfl, honest.target, honest.turnState, honest.kind, honest.key,
      honest.clientIp, ?_, ?_⟩
    all_goals
      intro r hr
      obtain ⟨sent, hsent, rfl⟩ := Option.map_eq_some_iff.mp hr
    · exact trimmed sent hsent
    · rfl
  exact (builtHeaders_reads hashing p honest).parse_toolsBound readable
    (builtHeaders_toolsBound hashing headers p c)

/-- The owner accepts the forward and reads the context that was sent. The version of the
signature follows from that context. -/
def RoundTrips (hashing : Hashing Fields Tool) (headers : HeaderMap)
    (p : ResponsesRequest Fields Tool) (c : ForwardContext) : Prop :=
  ∃ c', parseForwardedRequest hashing (buildOwnerForwardHeaders hashing headers p c) p
      c.targetInstance = .ok c' ∧
    { c' with signatureVersion := none } = { c with signatureVersion := none } ∧
    c'.signatureVersion = c.version

/-- What of a reservation survives the headers. -/
structure Reservation.Forwards (r : Reservation) : Prop where
  reservationId : Stripped r.reservationId
  keyId : Stripped r.keyId
  model : Stripped r.model
  limits : r.hasApplicableLimits = true

/-- A reservation that was parsed is one that survives the headers. -/
theorem parse_reservation {hashing : Hashing Fields Tool} {h : HeaderMap}
    {p : ResponsesRequest Fields Tool} {current : Text} {c : ForwardContext}
    (ok : parseForwardedRequest hashing h p current = .ok c) {r : Reservation}
    (hr : r ∈ c.reservation) : r.Forwards := by
  obtain ⟨readable, -, -⟩ := parse_ok ok
  obtain ⟨hid, hkey, hmodel⟩ := readable.reservation r hr
  exact ⟨hid.2, hkey.2, hmodel.2, readable.limits r hr⟩

/-- An honest forward is read back exactly when its reservation is trimmed and limited. -/
theorem owner_forward_round_trip_iff (hashing : Hashing Fields Tool) (headers : HeaderMap)
    (p : ResponsesRequest Fields Tool) (c : ForwardContext) (honest : Forwardable headers c)
    (written : ∀ r ∈ c.reservation, r.reservationId ≠ [] ∧ r.keyId ≠ [] ∧ r.model ≠ []) :
    RoundTrips hashing headers p c ↔ ∀ r ∈ c.reservation, r.Forwards := by
  constructor
  · intro ⟨c', ok, same, _⟩ r hr
    have hreservation : c'.reservation = c.reservation := congrArg (·.reservation) same
    exact parse_reservation ok (hreservation ▸ hr)
  · intro forwards
    have trimmed : ∀ r ∈ c.reservation,
        Trimmed r.reservationId ∧ Trimmed r.keyId ∧ Trimmed r.model := by
      intro r hr
      obtain ⟨hid, hkey, hmodel⟩ := written r hr
      have fine := forwards r hr
      exact ⟨⟨hid, fine.reservationId⟩, ⟨hkey, fine.keyId⟩, ⟨hmodel, fine.model⟩⟩
    have parsed := parse_built hashing p honest trimmed
    rw [received_eq_of_limits fun r hr => (forwards r hr).limits] at parsed
    exact ⟨_, parsed, rfl, rfl⟩

def reservedContext (model : String) (limits : Bool) : ForwardContext where
  originInstance := "origin".toList
  targetInstance := "owner".toList
  codexSessionAffinity := true
  downstreamTurnState := none
  clientIp := some "203.0.113.42".toList
  reservation := some ⟨"res_123".toList, "key_123".toList, model.toList, limits⟩

theorem reservedContext_forwardable (model : String) (limits : Bool) :
    Forwardable Dict.empty (reservedContext model limits) := by
  have origin : Trimmed "origin".toList := ⟨by decide, by decide⟩
  have owner : Trimmed "owner".toList := ⟨by decide, by decide⟩
  refine ⟨origin, owner, ?_, ?_, ?_, ?_, rfl, fun _ => rfl⟩
  case refine_4 =>
    rintro t ⟨⟩
    exact ⟨by decide, by decide⟩
  all_goals rintro t ⟨⟩

theorem owner_forward_round_trip_trimmed :
    RoundTrips blockHashing Dict.empty ⟨(), [], false, fun _ => rfl⟩
      (reservedContext "gpt-5.4" true) := by
  refine (owner_forward_round_trip_iff blockHashing Dict.empty _ _
    (reservedContext_forwardable _ _) ?_).mpr ?_
  · rintro r ⟨⟩
    exact ⟨by decide, by decide, by decide⟩
  · rintro r ⟨⟩
    exact ⟨by decide, by decide, by decide, rfl⟩

/-- A model with a space behind it makes the owner refuse, and a reservation without limits
comes back with them. -/
theorem owner_forward_breaks :
    parseForwardedRequest blockHashing
        (buildOwnerForwardHeaders blockHashing Dict.empty ⟨(), [], false, fun _ => rfl⟩
          (reservedContext "gpt-5.4 " true))
        ⟨(), [], false, fun _ => rfl⟩ "owner".toList = .error invalidSignature ∧
      ¬ RoundTrips blockHashing Dict.empty ⟨(), [], false, fun _ => rfl⟩
        (reservedContext "gpt-5.4 " true) ∧
      ¬ RoundTrips blockHashing Dict.empty ⟨(), [], false, fun _ => rfl⟩
        (reservedContext "gpt-5.4" false) := by
  refine ⟨by decide +kernel, ?_, ?_⟩
  · rintro ⟨c', ok, same, -⟩
    have hreservation := congrArg (·.reservation) same
    exact absurd (parse_reservation ok hreservation).model (by decide)
  · rintro ⟨c', ok, same, -⟩
    have hreservation := congrArg (·.reservation) same
    exact absurd (parse_reservation ok hreservation).limits (by decide)

end BridgeForward
