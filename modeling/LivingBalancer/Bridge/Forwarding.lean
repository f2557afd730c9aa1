import LivingBalancer.Lib.Dict
import LivingBalancer.Lib.PyText

/-!
# Owner-forward headers between bridge instances

`http_bridge_forwarding.py`: the context one instance signs into request headers
for the owner of a session, and the owner's reading of those headers. Three
signature formats exist side by side: the delimiter-joined legacy text with and
without the client IP, the structured version 2, and the structured text bound
to the posted body.

HMAC-SHA256 and SHA-256 are parameters, collected in `Hashing` with the laws of
perfect hashes. A header map has its names in the spelling it is asked for; the
fields of a `ResponsesRequest` other than `tools` are not looked into.
-/

namespace BridgeForward

open PyText

/-! ## Request bodies -/

/-- `ResponsesRequest`: `toolsSet` is membership of `tools` in `model_fields_set`. -/
structure ResponsesRequest (Fields Tool : Type) where
  fields : Fields
  tools : List Tool
  toolsSet : Bool
  unsetDefault : toolsSet = false → tools = []

/-- A JSON dump of a request; `tools` may be left out. -/
structure Dump (Fields Tool : Type) where
  fields : Fields
  tools : Option (List Tool)
  deriving DecidableEq

variable {Fields Tool : Type}

/-- `model_dump(mode="json", exclude_none=True)`. -/
def ResponsesRequest.modelDump (p : ResponsesRequest Fields Tool) : Dump Fields Tool :=
  ⟨p.fields, some p.tools⟩

/-- `model_dump_for_forwarding`. -/
def ResponsesRequest.modelDumpForForwarding (p : ResponsesRequest Fields Tool) :
    Dump Fields Tool :=
  if p.toolsSet then p.modelDump else { p.modelDump with tools := none }

/-! ## Hashes -/

def isHexDigit (c : Char) : Bool :=
  (48 ≤ c.toNat && c.toNat ≤ 57) || (97 ≤ c.toNat && c.toNat ≤ 102)

/-- A nonempty text of lower-case hexadecimal digits, as `hexdigest` returns it. -/
structure HexText (t : Text) : Prop where
  ne_nil : t ≠ []
  digits : ∀ c ∈ t, isHexDigit c = true

/-- The keyed hash and the body hash, without collisions. -/
structure Hashing (Fields Tool : Type) where
  signBridgePayload : Text → Text
  bodyDigest : Dump Fields Tool → Text
  sign_injective : Function.Injective signBridgePayload
  digest_injective : Function.Injective bodyDigest
  sign_hex : ∀ t, HexText (signBridgePayload t)
  digest_hex : ∀ d, HexText (bodyDigest d)

/-! ## Contexts and signing -/

/-- `ApiKeyUsageReservationData`. -/
structure Reservation where
  reservationId : Text
  keyId : Text
  model : Text
  hasApplicableLimits : Bool := true
  deriving DecidableEq, Repr

/-- `HTTPBridgeForwardContext`. -/
structure ForwardContext where
  originInstance : Text
  targetInstance : Text
  codexSessionAffinity : Bool
  downstreamTurnState : Option Text
  originalRequestUnanchored : Bool := false
  originalAffinityKind : Option Text := none
  originalAffinityKey : Option Text := none
  clientIp : Option Text := none
  reservation : Option Reservation := none
  signatureVersion : Option Text := none
  deriving DecidableEq, Repr

def version2 : Text := ['2']

def flag (b : Bool) : Text := if b then ['1'] else ['0']

def reservationFields (r : Option Reservation) : List Text :=
  match r with
  | none => [[], [], []]
  | some r => [r.reservationId, r.keyId, r.model]

/-- The fields joined by the legacy signature. -/
def legacyFields (c : ForwardContext) (digest : Text) (includeClientIp : Bool) : List Text :=
  [c.originInstance, c.targetInstance, flag c.codexSessionAffinity,
    c.downstreamTurnState.getD [], c.originalAffinityKind.getD [], c.originalAffinityKey.getD []]
  ++ (if includeClientIp then [c.clientIp.getD []] else [])
  ++ reservationFields c.reservation ++ [digest]

def legacyText (c : ForwardContext) (digest : Text) (includeClientIp : Bool) : Text :=
  List.intercalate ['|'] (legacyFields c digest includeClientIp)

def optionalJson : Option Text → Json
  | none => .null
  | some t => .str t

def reservationJson : Option Reservation → Json
  | none => .null
  | some r => .obj (.ofList [("id".toList, .str r.reservationId), ("key_id".toList, .str r.keyId),
      ("model".toList, .str r.model)])

def structuredMembers (c : ForwardContext) (digest : Text) (includeClientIp : Bool)
    (version : Option Text) (protocol : Text) : List (Text × Json) :=
  [("body_digest".toList, .str digest),
    ("client_ip".toList, if includeClientIp then optionalJson c.clientIp else .null),
    ("client_ip_present".toList, .bool c.clientIp.isSome),
    ("codex_session_affinity".toList, .bool c.codexSessionAffinity),
    ("downstream_turn_state".toList, optionalJson c.downstreamTurnState),
    ("include_client_ip".toList, .bool includeClientIp),
    ("origin_instance".toList, .str c.originInstance),
    ("original_affinity_key".toList, optionalJson c.originalAffinityKey),
    ("original_affinity_kind".toList, optionalJson c.originalAffinityKind),
    ("original_request_unanchored".toList, .bool c.originalRequestUnanchored),
    ("protocol".toList, .str protocol),
    ("reservation".toList, reservationJson c.reservation),
    ("signature_version".toList, optionalJson version),
    ("target_instance".toList, .str c.targetInstance)]

/-- `_structured_bridge_signing_payload`; the members stand in key order. -/
def structuredBridgeSigningPayload (c : ForwardContext) (digest : Text) (includeClientIp : Bool)
    (version : Option Text) (protocol : Text) : Text :=
  (Json.obj (.ofList (structuredMembers c digest includeClientIp version protocol))).dumps

def forwardProtocol : Text := "codex-lb-http-bridge-forward".toList

def toolsBoundProtocol : Text := "codex-lb-http-bridge-forward-tools-bound".toList

/-- What `_bridge_forward_signature` signs. -/
def primaryText (hashing : Hashing Fields Tool) (p : ResponsesRequest Fields Tool)
    (c : ForwardContext) (includeClientIp : Bool) (version : Option Text) : Text :=
  let digest := hashing.bodyDigest p.modelDump
  match version with
  | none => legacyText c digest includeClientIp
  | some v => structuredBridgeSigningPayload c digest includeClientIp (some v) forwardProtocol

/-- What `_bridge_forward_tools_bound_signature` signs. -/
def toolsBoundText (hashing : Hashing Fields Tool) (p : ResponsesRequest Fields Tool)
    (c : ForwardContext) (version : Option Text) : Text :=
  structuredBridgeSigningPayload c (hashing.bodyDigest p.modelDumpForForwarding) true version
    toolsBoundProtocol

def bridgeForwardSignature (hashing : Hashing Fields Tool) (p : ResponsesRequest Fields Tool)
    (c : ForwardContext) (includeClientIp : Bool) (version : Option Text) : Text :=
  hashing.signBridgePayload (primaryText hashing p c includeClientIp version)

def bridgeForwardToolsBoundSignature (hashing : Hashing Fields Tool)
    (p : ResponsesRequest Fields Tool) (c : ForwardContext) (version : Option Text) : Text :=
  hashing.signBridgePayload (toolsBoundText hashing p c version)

/-! ## Building the headers -/

abbrev HeaderMap := Dict String Text

def forwardedHeader : String := "x-codex-bridge-forwarded"
def originInstanceHeader : String := "x-codex-bridge-origin-instance"
def targetInstanceHeader : String := "x-codex-bridge-target-instance"
def codexAffinityHeader : String := "x-codex-bridge-codex-session-affinity"
def reservationIdHeader : String := "x-codex-bridge-reservation-id"
def reservationKeyIdHeader : String := "x-codex-bridge-reservation-key-id"
def reservationModelHeader : String := "x-codex-bridge-reservation-model"
def affinityKindHeader : String := "x-codex-bridge-affinity-kind"
def affinityKeyHeader : String := "x-codex-bridge-affinity-key"
def originalUnanchoredHeader : String := "x-codex-bridge-original-unanchored"
def signatureVersionHeader : String := "x-codex-bridge-signature-version"
def clientIpHeader : String := "x-codex-bridge-client-ip"
def clientIpSignatureHeader : String := "x-codex-bridge-client-ip-signature"
def signatureHeader : String := "x-codex-bridge-signature"
def signatureV2Header : String := "x-codex-bridge-signature-v2"
def turnStateHeader : String := "x-codex-turn-state"

def ignoreInboundHeaders : List String :=
  ["authorization", "chatgpt-account-id", "content-length", "host", "forwarded", "x-real-ip",
    "x-codex-installation-id", "true-client-ip"]

def internalOpenaiUpstreamHeaders : List String := ["x-openai-internal-codex-responses-lite"]

def bridgeUnsafeHeaderNames : List String :=
  ["accept", "accept-encoding", "connection", "content-type", "cookie", "keep-alive", "te",
    "trailer", "transfer-encoding", "upgrade"]

def nameStartsWith (start name : String) : Bool := start.toList.isPrefixOf name.toList

/-- `_should_drop_inbound_header`. -/
def shouldDropInboundHeader (name : String) : Bool :=
  let normalized := name.toLower
  ignoreInboundHeaders.contains normalized || internalOpenaiUpstreamHeaders.contains normalized
    || nameStartsWith "x-forwarded-" normalized || nameStartsWith "cf-" normalized

def filterInboundHeaders (headers : HeaderMap) : HeaderMap :=
  headers.filter fun item => !shouldDropInboundHeader item.1

/-- The first value whose name is `name` up to case. -/
def firstNamed (headers : HeaderMap) (name : String) : Option Text :=
  (headers.items.find? fun item => item.1.toLower == name).map Prod.snd

/-- The header names listed by the inbound `Connection` header. -/
def connectionNamed (headers : HeaderMap) : List Text :=
  ((((firstNamed headers "connection").getD []).splitOn ',').filter fun token =>
    strip token != []).map fun token => (strip token).map Char.toLower

def setIf (headers : HeaderMap) (b : Bool) (name : String) (value : Text) : HeaderMap :=
  if b then headers.set name value else headers

def setSome (headers : HeaderMap) (name : String) (value : Option Text) : HeaderMap :=
  match value with
  | none => headers
  | some value => headers.set name value

/-- Python truth of an optional text. -/
def truthy (value : Option Text) : Bool := value.getD [] != []

def ForwardContext.version (c : ForwardContext) : Option Text :=
  if c.originalRequestUnanchored then some version2 else none

/-- The client headers that stay on the forwarded request. -/
def relayedHeaders (headers : HeaderMap) : HeaderMap :=
  setSome
    ((filterInboundHeaders headers).filter fun item =>
      !(bridgeUnsafeHeaderNames.contains item.1.toLower
        || (connectionNamed headers).contains item.1.toLower.toList)
      && !nameStartsWith "x-codex-bridge-" item.1.toLower)
    "authorization" (firstNamed headers "authorization")

/-- `build_owner_forward_headers`. -/
def buildOwnerForwardHeaders (hashing : Hashing Fields Tool) (headers : HeaderMap)
    (p : ResponsesRequest Fields Tool) (c : ForwardContext) : HeaderMap :=
  let version := c.version
  let h := relayedHeaders headers
  let h := h.set forwardedHeader ['1']
  let h := h.set originInstanceHeader c.originInstance
  let h := h.set targetInstanceHeader c.targetInstance
  let h := h.set codexAffinityHeader (flag c.codexSessionAffinity)
  let h := setSome h signatureVersionHeader version
  let h := setIf h version.isSome originalUnanchoredHeader ['1']
  let affinity := truthy c.originalAffinityKind && truthy c.originalAffinityKey
  let h := setIf h affinity affinityKindHeader (c.originalAffinityKind.getD [])
  let h := setIf h affinity affinityKeyHeader (c.originalAffinityKey.getD [])
  let h := setIf h (truthy c.clientIp) clientIpHeader (c.clientIp.getD [])
  let h := setIf h (truthy c.clientIp) clientIpSignatureHeader
    (bridgeForwardSignature hashing p c true version)
  let h := setIf h (truthy c.downstreamTurnState) turnStateHeader (c.downstreamTurnState.getD [])
  let h := setSome h reservationIdHeader (c.reservation.map (·.reservationId))
  let h := setSome h reservationKeyIdHeader (c.reservation.map (·.keyId))
  let h := setSome h reservationModelHeader (c.reservation.map (·.model))
  let h := h.set signatureHeader (bridgeForwardSignature hashing p c false version)
  h.set signatureV2Header (bridgeForwardToolsBoundSignature hashing p c version)

/-! ## Reading the headers -/

structure ProxyResponseError where
  statusCode : Nat
  code : String
  message : String
  errorType : String
  deriving DecidableEq, Repr

/-- An error response, or the `TypeError` of `compare_digest` on a non-ASCII header. -/
inductive ForwardFailure where
  | response (error : ProxyResponseError)
  | typeError
  deriving DecidableEq, Repr

def markerRequired : ForwardFailure :=
  .response ⟨400, "bridge_forward_invalid", "Internal bridge forward marker is required",
    "invalid_request_error"⟩

def nonTargetInstance : ForwardFailure :=
  .response ⟨503, "bridge_owner_forward_failed",
    "Internal bridge forward reached a non-target instance", "server_error"⟩

/-- `_invalid_bridge_forward_signature_error`. -/
def invalidSignature : ForwardFailure :=
  .response ⟨400, "bridge_forward_invalid", "Internal bridge forward signature is invalid",
    "invalid_request_error"⟩

def nonempty (t : Text) : Option Text := if t = [] then none else some t

/-- `_optional_header`. -/
def optionalHeader (value : Option Text) : Option Text := value.bind fun t => nonempty (strip t)

/-- `_bool_header`. -/
def boolHeader (value : Option Text) : Bool :=
  match value with
  | none => false
  | some t =>
    ["1".toList, "true".toList, "yes".toList, "on".toList].contains ((strip t).map Char.toLower)

/-- `_reservation_from_headers`: the field without a header keeps its default. -/
def reservationFromHeaders (headers : HeaderMap) : Option Reservation := do
  let reservationId ← optionalHeader (headers.get reservationIdHeader)
  let keyId ← optionalHeader (headers.get reservationKeyIdHeader)
  let model ← optionalHeader (headers.get reservationModelHeader)
  return { reservationId, keyId, model }

/-- `_legacy_signature_context_has_ambiguous_delimiter`. -/
def ambiguousDelimiter (c : ForwardContext) : Bool :=
  let values := [c.originInstance, c.targetInstance]
    ++ [c.downstreamTurnState, c.originalAffinityKind, c.originalAffinityKey,
      c.clientIp].filterMap id
    ++ match c.reservation with
      | none => []
      | some r => [r.reservationId, r.keyId, r.model]
  values.any fun value => value.contains '|'

/-- The unanchored flag of a known signature version; `none` for a malformed pair. -/
def readUnanchored (version value : Option Text) : Option Bool :=
  if version = some version2 then
    if value = some ['0'] ∨ value = some ['1'] then some (decide (value = some ['1'])) else none
  else if version = none then some false
  else none

def readContext (headers : HeaderMap) (target : Text) (version : Option Text)
    (unanchored : Bool) : ForwardContext where
  originInstance :=
    (nonempty (strip ((headers.get originInstanceHeader).getD []))).getD "unknown".toList
  targetInstance := target
  codexSessionAffinity := boolHeader (headers.get codexAffinityHeader)
  downstreamTurnState := optionalHeader (headers.get turnStateHeader)
  originalRequestUnanchored := unanchored
  originalAffinityKind := optionalHeader (headers.get affinityKindHeader)
  originalAffinityKey := optionalHeader (headers.get affinityKeyHeader)
  clientIp := optionalHeader (headers.get clientIpHeader)
  reservation := reservationFromHeaders headers
  signatureVersion := version

/-- A present header compared by `hmac.compare_digest`. -/
def tagMatches (given : Option Text) (expected : Text) : Except ForwardFailure Bool :=
  match given with
  | none => .ok false
  | some t => if t.all fun c => c.toNat < 128 then .ok (t == expected) else .error .typeError

/-- The primary signature, with the client IP or without it. -/
def primarySignatureValid (hashing : Hashing Fields Tool) (headers : HeaderMap)
    (p : ResponsesRequest Fields Tool) (c : ForwardContext) : Except ForwardFailure Bool := do
  let signature := optionalHeader (headers.get signatureHeader)
  let expected := bridgeForwardSignature hashing p c true c.signatureVersion
  let primary ← tagMatches signature expected
  let withoutClientIp ← tagMatches signature
    (bridgeForwardSignature hashing p c false c.signatureVersion)
  let clientIpSigned ← tagMatches (optionalHeader (headers.get clientIpSignatureHeader)) expected
  return primary || (withoutClientIp && (c.clientIp.isNone || clientIpSigned))

/-- The signature checks on a context that was read. -/
def authenticate (hashing : Hashing Fields Tool) (headers : HeaderMap)
    (p : ResponsesRequest Fields Tool) (c : ForwardContext) :
    Except ForwardFailure ForwardContext := do
  let toolsBound ← tagMatches (optionalHeader (headers.get signatureV2Header))
    (bridgeForwardToolsBoundSignature hashing p c c.signatureVersion)
  if toolsBound then .ok c
  else if c.signatureVersion.isNone && ambiguousDelimiter c then .error invalidSignature
  else
    let valid ← primarySignatureValid hashing headers p c
    if valid then .ok c else .error invalidSignature

/-- `parse_forwarded_request`. -/
def parseForwardedRequest (hashing : Hashing Fields Tool) (headers : HeaderMap)
    (p : ResponsesRequest Fields Tool) (current : Text) : Except ForwardFailure ForwardContext :=
  if headers.get forwardedHeader ≠ some ['1'] then .error markerRequired
  else
    let target := strip ((headers.get targetInstanceHeader).getD [])
    if target = [] ∨ target ≠ current then .error nonTargetInstance
    else
      let version := optionalHeader (headers.get signatureVersionHeader)
      match readUnanchored version (optionalHeader (headers.get originalUnanchoredHeader)) with
      | none => .error invalidSignature
      | some unanchored =>
        authenticate hashing headers p (readContext headers target version unanchored)

end BridgeForward
