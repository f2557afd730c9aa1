import LivingBalancer.Bridge.Forwarding

/-!
# What an accepted owner forward authenticates

Headers are chosen by an adversary who holds every tag of the honest calls made
so far and can make no other tag. The structured texts determine their context up
to `has_applicable_limits`, which no format signs and the receiver sets, and
neither structured text is ever a legacy text. A legacy text determines its
pieces between delimiters only: the receiver refuses delimiters in the context it
reads, not in the one that was signed.
-/

namespace BridgeForward

open PyText

variable {Fields Tool : Type}

/-! ## Honest calls and their tags -/

/-- A call of `build_owner_forward_headers`. -/
structure ForwardCall (Fields Tool : Type) where
  inbound : HeaderMap
  payload : ResponsesRequest Fields Tool
  context : ForwardContext

/-- The signature headers as the receiver reads them. -/
def presentedTags (h : HeaderMap) : List Text :=
  [clientIpSignatureHeader, signatureHeader, signatureV2Header].filterMap fun name =>
    optionalHeader (h.get name)

def ForwardCall.tags (hashing : Hashing Fields Tool) (k : ForwardCall Fields Tool) : List Text :=
  presentedTags (buildOwnerForwardHeaders hashing k.inbound k.payload k.context)

/-- The texts signed by a call. -/
def ForwardCall.signed (hashing : Hashing Fields Tool) (k : ForwardCall Fields Tool) :
    List Text :=
  (if truthy k.context.clientIp
    then [primaryText hashing k.payload k.context true k.context.version] else [])
  ++ [primaryText hashing k.payload k.context false k.context.version,
    toolsBoundText hashing k.payload k.context k.context.version]

theorem get_setIf (h : HeaderMap) (b : Bool) (name name' : String) (value : Text) :
    (setIf h b name value).get name' = if b ∧ name' = name then some value else h.get name' := by
  cases b with
  | false => simp [setIf]
  | true => simp [setIf, Dict.get_set]

theorem get_setSome (h : HeaderMap) (name name' : String) (value : Option Text) :
    (setSome h name value).get name' = if name' = name then value.or (h.get name) else h.get name' := by
  cases value with
  | none =>
    simp only [setSome, Option.none_or]
    split_ifs with same
    · rw [same]
    · rfl
  | some v => simp [setSome, Dict.get_set]

@[simp] theorem optionalHeader_none : optionalHeader none = none := rfl

theorem hex_not_space {c : Char} (h : isHexDigit c = true) : isSpace c = false := by
  simp only [isHexDigit, Bool.or_eq_true, Bool.and_eq_true, decide_eq_true_eq] at h
  simp only [isSpace, Bool.or_eq_false_iff, Bool.and_eq_false_iff, decide_eq_false_iff_not,
    beq_eq_false_iff_ne]
  omega

theorem HexText.not_mem {t : Text} (h : HexText t) {c : Char} (hc : isHexDigit c = false) :
    c ∉ t := by
  intro hmem
  rw [h.digits c hmem] at hc
  cases hc

theorem HexText.optionalHeader_eq {t : Text} (h : HexText t) : optionalHeader (some t) = some t := by
  have stripped : strip t = t := stripped_of_no_space fun c hc => hex_not_space (h.digits c hc)
  simp [optionalHeader, stripped, nonempty, h.ne_nil]

theorem HexText.ascii {t : Text} (h : HexText t) : (t.all fun c => c.toNat < 128) = true := by
  rw [List.all_eq_true]
  intro c hc
  have hd := h.digits c hc
  simp only [isHexDigit, Bool.or_eq_true, Bool.and_eq_true, decide_eq_true_eq] at hd ⊢
  omega

/-- Client headers reserved for the forward contract are never relayed. -/
theorem relayed_reserved (h : HeaderMap) {name : String}
    (reserved : nameStartsWith "x-codex-bridge-" name.toLower = true)
    (notAuthorization : name ≠ "authorization") : (relayedHeaders h).get name = none := by
  rw [relayedHeaders, get_setSome, if_neg notAuthorization, Dict.get_filter]
  simp [reserved]

/-- The tags of a call are the signatures of the texts it signs. -/
theorem ForwardCall.tags_eq (hashing : Hashing Fields Tool) (k : ForwardCall Fields Tool) :
    k.tags hashing = (k.signed hashing).map hashing.signBridgePayload := by
  have hrelay : (relayedHeaders k.inbound).get clientIpSignatureHeader = none :=
    relayed_reserved _ (by decide +kernel) (by decide)
  have hip : (buildOwnerForwardHeaders hashing k.inbound k.payload k.context).get
      clientIpSignatureHeader = if truthy k.context.clientIp
        then some (bridgeForwardSignature hashing k.payload k.context true k.context.version)
        else none := by
    rw [← hrelay]
    simp [buildOwnerForwardHeaders, Dict.get_set, get_setIf, get_setSome, forwardedHeader,
      originInstanceHeader, targetInstanceHeader, codexAffinityHeader, reservationIdHeader,
      reservationKeyIdHeader, reservationModelHeader, affinityKindHeader, affinityKeyHeader,
      originalUnanchoredHeader, signatureVersionHeader, clientIpHeader, clientIpSignatureHeader,
      signatureHeader, signatureV2Header, turnStateHeader]
  have hsig : (buildOwnerForwardHeaders hashing k.inbound k.payload k.context).get
      signatureHeader
        = some (bridgeForwardSignature hashing k.payload k.context false k.context.version) := by
    simp [buildOwnerForwardHeaders, Dict.get_set, signatureHeader, signatureV2Header]
  have hv2 : (buildOwnerForwardHeaders hashing k.inbound k.payload k.context).get
      signatureV2Header
        = some (bridgeForwardToolsBoundSignature hashing k.payload k.context
          k.context.version) := by
    simp [buildOwnerForwardHeaders]
  have hex := fun t => (hashing.sign_hex t).optionalHeader_eq
  simp only [ForwardCall.tags, presentedTags, ForwardCall.signed]
  cases hb : truthy k.context.clientIp with
  | false =>
    simp [hip, hsig, hv2, hb, bridgeForwardSignature, bridgeForwardToolsBoundSignature, hex]
  | true =>
    simp [hip, hsig, hv2, hb, bridgeForwardSignature, bridgeForwardToolsBoundSignature, hex]

theorem ForwardCall.sign_mem_tags {hashing : Hashing Fields Tool} {k : ForwardCall Fields Tool}
    {x : Text} : hashing.signBridgePayload x ∈ k.tags hashing ↔ x ∈ k.signed hashing := by
  rw [k.tags_eq, List.mem_map_of_injective hashing.sign_injective]

/-! ## The signed texts -/

/-- Equal in every field a forward has to bind, the client IP apart. -/
structure Agrees (read signed : ForwardContext) : Prop where
  origin : read.originInstance = signed.originInstance
  target : read.targetInstance = signed.targetInstance
  affinity : read.codexSessionAffinity = signed.codexSessionAffinity
  turnState : read.downstreamTurnState = signed.downstreamTurnState
  kind : read.originalAffinityKind = signed.originalAffinityKind
  key : read.originalAffinityKey = signed.originalAffinityKey
  unanchored : read.originalRequestUnanchored = signed.originalRequestUnanchored
  reservation : read.reservation = signed.reservation

theorem optionalJson_injective : Function.Injective optionalJson := by
  intro a b h
  cases a with
  | none =>
    cases b with
    | none => rfl
    | some u => cases h
  | some t =>
    cases b with
    | none => cases h
    | some u => rw [Json.str.inj h]

/-- A reservation as the receiver constructs it. -/
def Reservation.received (r : Reservation) : Reservation := { r with hasApplicableLimits := true }

/-- A context as the receiver constructs it. -/
def ForwardContext.received (c : ForwardContext) : ForwardContext :=
  { c with reservation := c.reservation.map Reservation.received }

theorem reservationJson_eq {a b : Option Reservation} (h : reservationJson a = reservationJson b) :
    a.map Reservation.received = b.map Reservation.received := by
  cases a with
  | none =>
    cases b with
    | none => rfl
    | some u => cases h
  | some t =>
    cases b with
    | none => cases h
    | some u =>
      have hitems := Members.ofList_injective (Json.obj.inj h)
      simp only [List.cons.injEq, Prod.mk.injEq, true_and, Json.str.injEq, and_true] at hitems
      obtain ⟨hid, hkey, hmodel⟩ := hitems
      simp only [Option.map_some, Reservation.received, hid, hkey, hmodel]

theorem reservationJson_received (r : Option Reservation) :
    reservationJson (r.map Reservation.received) = reservationJson r := by
  cases r <;> rfl

/-- A structured text determines everything written into it. -/
structure SameStructured (c c' : ForwardContext) (d d' : Text) (b b' : Bool)
    (v v' : Option Text) (protocol protocol' : Text) : Prop where
  agrees : Agrees c.received c'.received
  digest : d = d'
  includeClientIp : b = b'
  version : v = v'
  protocol : protocol = protocol'
  clientIpPresent : c.clientIp.isSome = c'.clientIp.isSome
  clientIp : b = true → c.clientIp = c'.clientIp

theorem structured_injective {c c' : ForwardContext} {d d' : Text} {b b' : Bool}
    {v v' : Option Text} {protocol protocol' : Text}
    (h : structuredBridgeSigningPayload c d b v protocol
      = structuredBridgeSigningPayload c' d' b' v' protocol') :
    SameStructured c c' d d' b b' v v' protocol protocol' := by
  have hitems := Members.ofList_injective (Json.obj.inj (dumps_injective h))
  simp only [structuredMembers, List.cons.injEq, Prod.mk.injEq, true_and, Json.str.injEq,
    Json.bool.injEq, and_true, optionalJson_injective.eq_iff] at hitems
  obtain ⟨hdigest, hip, hpresent, haffinity, hturn, hinclude, horigin, hkey, hkind, hunanchored,
    hprotocol, hreservation, hversion, htarget⟩ := hitems
  refine ⟨⟨horigin, htarget, haffinity, hturn, hkind, hkey, hunanchored,
    reservationJson_eq hreservation⟩, hdigest, hinclude, hversion, hprotocol, hpresent, ?_⟩
  intro hb
  rw [← hinclude, hb] at hip
  exact optionalJson_injective hip

theorem Agrees.trans {a b c : ForwardContext} (ab : Agrees a b) (bc : Agrees b c) : Agrees a c where
  origin := ab.origin.trans bc.origin
  target := ab.target.trans bc.target
  affinity := ab.affinity.trans bc.affinity
  turnState := ab.turnState.trans bc.turnState
  kind := ab.kind.trans bc.kind
  key := ab.key.trans bc.key
  unanchored := ab.unanchored.trans bc.unanchored
  reservation := ab.reservation.trans bc.reservation

theorem Agrees.received {c c' : ForwardContext} (agrees : Agrees c c') :
    Agrees c.received c'.received :=
  { agrees with reservation := congrArg (Option.map Reservation.received) agrees.reservation }

theorem reservationFields_received (r : Option Reservation) :
    reservationFields (r.map Reservation.received) = reservationFields r := by
  cases r <;> rfl

theorem reservation_signed {a b : Option Reservation}
    (same : a.map Reservation.received = b.map Reservation.received) :
    reservationJson a = reservationJson b ∧ reservationFields a = reservationFields b := by
  rw [← reservationJson_received a, ← reservationFields_received a, same,
    reservationJson_received, reservationFields_received]
  exact ⟨rfl, rfl⟩

/-- Calls that differ in the limits of their reservations sign the same texts. -/
theorem ForwardCall.signed_congr {hashing : Hashing Fields Tool} {k k' : ForwardCall Fields Tool}
    (body : k.payload.modelDumpForForwarding = k'.payload.modelDumpForForwarding)
    (plain : k.payload.modelDump = k'.payload.modelDump)
    (agrees : Agrees k.context.received k'.context.received)
    (ip : k.context.clientIp = k'.context.clientIp) : k.signed hashing = k'.signed hashing := by
  obtain ⟨json, fields⟩ := reservation_signed agrees.reservation
  have origin : k.context.originInstance = k'.context.originInstance := agrees.origin
  have target : k.context.targetInstance = k'.context.targetInstance := agrees.target
  have affinity : k.context.codexSessionAffinity = k'.context.codexSessionAffinity :=
    agrees.affinity
  have turnState : k.context.downstreamTurnState = k'.context.downstreamTurnState :=
    agrees.turnState
  have kind : k.context.originalAffinityKind = k'.context.originalAffinityKind := agrees.kind
  have key : k.context.originalAffinityKey = k'.context.originalAffinityKey := agrees.key
  have unanchored : k.context.originalRequestUnanchored = k'.context.originalRequestUnanchored :=
    agrees.unanchored
  simp only [ForwardCall.signed, primaryText, toolsBoundText, ForwardContext.version, legacyText,
    legacyFields, structuredBridgeSigningPayload, structuredMembers, body, plain, ip, json, fields,
    origin, target, affinity, turnState, kind, key, unanchored]

theorem legacyFields_ne_nil (c : ForwardContext) (d : Text) (b : Bool) :
    legacyFields c d b ≠ [] := by
  simp [legacyFields]

theorem getLast_join {fields : List Text} {last : Text} (h : last ≠ []) :
    (List.intercalate ['|'] (fields ++ [last])).getLast? = last.getLast? := by
  induction fields with
  | nil => simp
  | cons f rest ih =>
    rw [List.cons_append, List.intercalate_cons_of_ne_nil (by simp)]
    have hlast : (List.intercalate ['|'] (rest ++ [last])).getLast? ≠ none := by
      rw [ih]
      simpa using h
    obtain ⟨x, hx⟩ := Option.ne_none_iff_exists'.mp hlast
    rw [List.getLast?_append, hx, ← ih, hx]
    rfl

/-- A legacy text ends in a digit of the body digest, a structured one in a brace. -/
theorem legacy_ne_structured (c c' : ForwardContext) {d : Text} (hd : HexText d) (d' : Text)
    (b b' : Bool) (v : Option Text) (protocol : Text) :
    legacyText c d b ≠ structuredBridgeSigningPayload c' d' b' v protocol := by
  intro h
  have hend := congrArg List.getLast? h
  rw [structuredBridgeSigningPayload, obj_getLast] at hend
  rw [legacyText, legacyFields, getLast_join hd.ne_nil] at hend
  exact hd.not_mem (by decide) (List.mem_of_getLast? hend)

/-- The pieces of a legacy text between its delimiters. -/
def legacyPieces (c : ForwardContext) (d : Text) (b : Bool) : List Text :=
  (legacyFields c d b).flatMap (List.splitOn '|')

theorem legacyText_eq_iff {c c' : ForwardContext} {d d' : Text} {b b' : Bool} :
    legacyText c d b = legacyText c' d' b' ↔ legacyPieces c d b = legacyPieces c' d' b' := by
  have split : ∀ c d b, (legacyText c d b).splitOn '|' = legacyPieces c d b := fun c d b =>
    splitOn_join '|' (legacyFields_ne_nil c d b)
  have joined : ∀ c d b, List.intercalate ['|'] (legacyPieces c d b) = legacyText c d b := by
    intro c d b
    rw [← split]
    exact List.intercalate_splitOn '|'
  constructor
  · intro h
    rw [← split, ← split, h]
  · intro h
    rw [← joined, h, joined]

/-- The digest is the last piece, whatever the other fields hold. -/
theorem legacyPieces_digest {c c' : ForwardContext} {d d' : Text} {b b' : Bool} (hd : HexText d)
    (hd' : HexText d') (h : legacyPieces c d b = legacyPieces c' d' b') : d = d' := by
  have last : ∀ (c : ForwardContext) (d : Text) (b : Bool), HexText d →
      (legacyPieces c d b).getLast? = some d := by
    intro c d b hd
    rw [legacyPieces, legacyFields, List.flatMap_append, List.flatMap_singleton,
      List.splitOn_eq_singleton (hd.not_mem (by decide))]
    simp
  have hlast := congrArg List.getLast? h
  rw [last c d b hd, last c' d' b' hd'] at hlast
  exact Option.some.inj hlast

/-! ## What the receiver accepts -/

def Trimmed (t : Text) : Prop := t ≠ [] ∧ Stripped t

/-- The fields of a context the receiver can read from some headers. -/
structure ReadableFields (current : Text) (c : ForwardContext) : Prop where
  origin : Trimmed c.originInstance
  target : c.targetInstance = current
  current : Trimmed current
  turnState : ∀ t ∈ c.downstreamTurnState, Trimmed t
  kind : ∀ t ∈ c.originalAffinityKind, Trimmed t
  key : ∀ t ∈ c.originalAffinityKey, Trimmed t
  clientIp : ∀ t ∈ c.clientIp, Trimmed t
  reservation : ∀ r ∈ c.reservation,
    Trimmed r.reservationId ∧ Trimmed r.keyId ∧ Trimmed r.model
  limits : ∀ r ∈ c.reservation, r.hasApplicableLimits = true

/-- A context the receiver can read from some headers of the legacy version. -/
structure Readable (current : Text) (c : ForwardContext) : Prop
    extends ReadableFields current c where
  anchored : c.originalRequestUnanchored = false
  version : c.signatureVersion = none

theorem received_eq_of_limits {c : ForwardContext}
    (limits : ∀ r ∈ c.reservation, r.hasApplicableLimits = true) : c.received = c := by
  obtain ⟨origin, target, affinity, turnState, unanchored, kind, key, ip, reservation, version⟩ := c
  cases reservation with
  | none => rfl
  | some r =>
    obtain ⟨id, key, model, flag⟩ := r
    obtain rfl : flag = true := limits _ rfl
    rfl

theorem ReadableFields.received_eq {current : Text} {c : ForwardContext}
    (readable : ReadableFields current c) : c.received = c :=
  received_eq_of_limits readable.limits

theorem ReadableFields.congr {current : Text} {c c' : ForwardContext}
    (readable : ReadableFields current c) (agrees : Agrees c c') (ip : c.clientIp = c'.clientIp) :
    ReadableFields current c' where
  origin := agrees.origin ▸ readable.origin
  target := agrees.target ▸ readable.target
  current := readable.current
  turnState := agrees.turnState ▸ readable.turnState
  kind := agrees.kind ▸ readable.kind
  key := agrees.key ▸ readable.key
  clientIp := ip ▸ readable.clientIp
  reservation := agrees.reservation ▸ readable.reservation
  limits := agrees.reservation ▸ readable.limits

theorem optionalHeader_trimmed {value : Option Text} {t : Text}
    (h : t ∈ optionalHeader value) : Trimmed t := by
  cases value with
  | none => cases h
  | some u =>
    simp only [optionalHeader, Option.bind_some, nonempty, Option.mem_def] at h
    split_ifs at h with empty
    cases h
    exact ⟨empty, strip_stripped u⟩

theorem nonempty_strip_trimmed (u : Text) :
    Trimmed ((nonempty (strip u)).getD "unknown".toList) := by
  simp only [nonempty]
  split_ifs with empty
  · exact ⟨by decide, by decide⟩
  · exact ⟨empty, strip_stripped u⟩

theorem reservation_read {h : HeaderMap} {r : Reservation} (hr : r ∈ reservationFromHeaders h) :
    (Trimmed r.reservationId ∧ Trimmed r.keyId ∧ Trimmed r.model) ∧
      r.hasApplicableLimits = true := by
  simp only [reservationFromHeaders, Option.mem_def, Option.bind_eq_bind, Option.bind_eq_some_iff,
    Option.pure_def, Option.some.injEq] at hr
  obtain ⟨i, hi, k, hk, m, hm, rfl⟩ := hr
  exact ⟨⟨optionalHeader_trimmed hi, optionalHeader_trimmed hk, optionalHeader_trimmed hm⟩, rfl⟩

theorem tagMatches_true {given : Option Text} {expected : Text}
    (h : tagMatches given expected = .ok true) : given = some expected := by
  cases given with
  | none => cases h
  | some t =>
    simp only [tagMatches] at h
    split_ifs at h
    have same : (t == expected) = true := Except.ok.inj h
    rw [beq_iff_eq.mp same]

/-- The text whose tag lets a context through. -/
inductive Verified (hashing : Hashing Fields Tool) (p : ResponsesRequest Fields Tool)
    (c : ForwardContext) : Text → Prop where
  | toolsBound : Verified hashing p c (toolsBoundText hashing p c c.signatureVersion)
  | primary (b : Bool) (withoutIp : b = false → c.clientIp = none)
      (unambiguous : c.signatureVersion = none → ambiguousDelimiter c = false) :
      Verified hashing p c (primaryText hashing p c b c.signatureVersion)

theorem mem_presentedTags {h : HeaderMap} {t : Text} :
    t ∈ presentedTags h ↔ optionalHeader (h.get clientIpSignatureHeader) = some t ∨
      optionalHeader (h.get signatureHeader) = some t ∨
      optionalHeader (h.get signatureV2Header) = some t := by
  simp [presentedTags]

theorem bind_ok {ε α β : Type} {x : Except ε α} {f : α → Except ε β} {b : β} :
    (x >>= f) = .ok b ↔ ∃ a, x = .ok a ∧ f a = .ok b := by
  cases x with
  | error e => simp [bind, Except.bind]
  | ok a => simp [bind, Except.bind]

theorem primarySignatureValid_true {hashing : Hashing Fields Tool} {h : HeaderMap}
    {p : ResponsesRequest Fields Tool} {c : ForwardContext}
    (valid : primarySignatureValid hashing h p c = .ok true) :
    ∃ b, (b = false → c.clientIp = none) ∧
      hashing.signBridgePayload (primaryText hashing p c b c.signatureVersion)
        ∈ presentedTags h := by
  simp only [primarySignatureValid, bind_ok] at valid
  obtain ⟨primary, hprimary, withoutIp, hwithout, ipSigned, hsigned, hor⟩ := valid
  have hor : (primary || (withoutIp && (c.clientIp.isNone || ipSigned))) = true :=
    Except.ok.inj hor
  rw [Bool.or_eq_true, Bool.and_eq_true, Bool.or_eq_true, Option.isNone_iff_eq_none] at hor
  rcases hor with rfl | ⟨rfl, hnone | rfl⟩
  · exact ⟨true, by simp, mem_presentedTags.mpr (.inr (.inl (tagMatches_true hprimary)))⟩
  · exact ⟨false, fun _ => hnone, mem_presentedTags.mpr (.inr (.inl (tagMatches_true hwithout)))⟩
  · exact ⟨true, by simp, mem_presentedTags.mpr (.inl (tagMatches_true hsigned))⟩

/-- Success of the signature checks, in terms of the tags presented. -/
theorem authenticate_ok {hashing : Hashing Fields Tool} {h : HeaderMap}
    {p : ResponsesRequest Fields Tool} {c c' : ForwardContext}
    (ok : authenticate hashing h p c = .ok c') :
    c' = c ∧ ∃ x, Verified hashing p c x ∧ hashing.signBridgePayload x ∈ presentedTags h := by
  simp only [authenticate, bind_ok] at ok
  obtain ⟨toolsBound, htools, ok⟩ := ok
  split_ifs at ok with hbound hambiguous
  · cases ok
    rw [hbound] at htools
    exact ⟨rfl, _, .toolsBound, mem_presentedTags.mpr (.inr (.inr (tagMatches_true htools)))⟩
  · obtain ⟨valid, hvalid, ok⟩ := bind_ok.mp ok
    split_ifs at ok with hv
    cases ok
    rw [hv] at hvalid
    obtain ⟨b, withoutIp, htag⟩ := primarySignatureValid_true hvalid
    refine ⟨rfl, _, .primary b withoutIp ?_, htag⟩
    intro hversion
    simpa [hversion] using hambiguous

theorem readUnanchored_some {version value : Option Text} {unanchored : Bool}
    (h : readUnanchored version value = some unanchored) :
    version = some version2 ∨ (version = none ∧ unanchored = false) := by
  simp only [readUnanchored] at h
  split_ifs at h with two _ absent
  · exact .inl two
  · exact .inr ⟨absent, (Option.some.inj h).symm⟩

/-- What a successful parse says about the context, its version and the tags. -/
structure Accepted (hashing : Hashing Fields Tool) (h : HeaderMap)
    (p : ResponsesRequest Fields Tool) (current : Text) (c : ForwardContext) : Prop where
  readable : ReadableFields current c
  version : c.signatureVersion = some version2 ∨ Readable current c
  verified : ∃ x, Verified hashing p c x ∧ hashing.signBridgePayload x ∈ presentedTags h

theorem parse_ok {hashing : Hashing Fields Tool} {h : HeaderMap}
    {p : ResponsesRequest Fields Tool} {current : Text} {c : ForwardContext}
    (ok : parseForwardedRequest hashing h p current = .ok c) : Accepted hashing h p current c := by
  rw [parseForwardedRequest] at ok
  split_ifs at ok with hmarker
  dsimp only at ok
  split_ifs at ok with htarget
  rw [not_or, not_not] at htarget
  obtain ⟨hne, hcurrent⟩ := htarget
  split at ok
  · cases ok
  · rename_i unanchored hunanchored
    obtain ⟨rfl, hverified⟩ := authenticate_ok ok
    have readable : ReadableFields current (readContext h (strip ((h.get targetInstanceHeader).getD
        [])) (optionalHeader (h.get signatureVersionHeader)) unanchored) := by
      refine ⟨nonempty_strip_trimmed _, hcurrent, ?_, fun t => optionalHeader_trimmed,
        fun t => optionalHeader_trimmed, fun t => optionalHeader_trimmed,
        fun t => optionalHeader_trimmed, fun r hr => (reservation_read hr).1,
        fun r hr => (reservation_read hr).2⟩
      rw [← hcurrent]
      exact ⟨hne, strip_stripped _⟩
    refine ⟨readable, ?_, hverified⟩
    rcases readUnanchored_some hunanchored with two | ⟨absent, hanchored⟩
    · exact .inl two
    · exact .inr ⟨readable, hanchored, absent⟩

/-! ## Binding of forwards -/

/-- Every tag presented was made by an honest call. -/
def Unforged (hashing : Hashing Fields Tool) (history : List (ForwardCall Fields Tool))
    (h : HeaderMap) : Prop :=
  ∀ x, hashing.signBridgePayload x ∈ presentedTags h →
    ∃ k ∈ history, hashing.signBridgePayload x ∈ k.tags hashing

/-- Whatever is accepted on `current` is the context and body of an honest call. -/
def Bound (hashing : Hashing Fields Tool) (history : List (ForwardCall Fields Tool))
    (current : Text) : Prop :=
  ∀ (h : HeaderMap) (p : ResponsesRequest Fields Tool) (c : ForwardContext),
    Unforged hashing history h → parseForwardedRequest hashing h p current = .ok c →
    ∃ k ∈ history, (∃ t ∈ k.tags hashing, t ∈ presentedTags h) ∧ Agrees c k.context ∧
      hashing.bodyDigest p.modelDump = hashing.bodyDigest k.payload.modelDump ∧
      (c.signatureVersion = some version2 → c.clientIp = k.context.clientIp)

/-- An anchored call signs a legacy text without client IP, and one with it if there is one. -/
def ForwardCall.SignsLegacy (k : ForwardCall Fields Tool) (b : Bool) : Prop :=
  k.context.originalRequestUnanchored = false ∧ (b = true → truthy k.context.clientIp = true)

def ForwardCall.pieces (hashing : Hashing Fields Tool) (k : ForwardCall Fields Tool) (b : Bool) :
    List Text :=
  legacyPieces k.context (hashing.bodyDigest k.payload.modelDump) b

/-- The pieces of the call's legacy fields, taken as fields, are those of `c`. -/
def Repacks (hashing : Hashing Fields Tool) (k : ForwardCall Fields Tool) (b : Bool)
    (c : ForwardContext) : Prop :=
  ∃ b', (b' = false → c.clientIp = none) ∧
    legacyFields c (hashing.bodyDigest k.payload.modelDump) b' = k.pieces hashing b

/-- The pieces of an honest call's legacy fields make up no readable context but that of an
honest call with the same pieces. -/
def BoundariesFixed (hashing : Hashing Fields Tool) (history : List (ForwardCall Fields Tool))
    (current : Text) : Prop :=
  ∀ k ∈ history, ∀ b, k.SignsLegacy b → ∀ c, Readable current c → Repacks hashing k b c →
    ∃ k' ∈ history, ∃ b', k'.SignsLegacy b' ∧ k'.pieces hashing b' = k.pieces hashing b ∧
      Agrees c k'.context

/-- Where the receiver can read the context of an honest call, an honest call with the same body sent
what is read. -/
def LimitsKept (history : List (ForwardCall Fields Tool)) (current : Text) : Prop :=
  ∀ k ∈ history, ReadableFields current k.context.received →
    ∃ k' ∈ history, k'.payload.modelDumpForForwarding = k.payload.modelDumpForForwarding ∧
      k'.context.clientIp = k.context.clientIp ∧ Agrees k.context.received k'.context

theorem ambiguousDelimiter_false_iff {c : ForwardContext} {d : Text} {b : Bool}
    (withoutIp : b = false → c.clientIp = none) (hd : '|' ∉ d) :
    ambiguousDelimiter c = false ↔ ∀ f ∈ legacyFields c d b, '|' ∉ f := by
  obtain ⟨origin, target, affinity, turnState, unanchored, kind, key, ip, reservation, version⟩ := c
  have hflag : '|' ∉ flag affinity := by cases affinity <;> decide
  cases b with
  | false =>
    obtain rfl : ip = none := withoutIp rfl
    cases turnState <;> cases kind <;> cases key <;> cases reservation <;>
      simp [ambiguousDelimiter, legacyFields, reservationFields, hflag, hd]
  | true =>
    cases turnState <;> cases kind <;> cases key <;> cases ip <;> cases reservation <;>
      simp [ambiguousDelimiter, legacyFields, reservationFields, hflag, hd]

theorem legacyPieces_of_unambiguous {c : ForwardContext} {d : Text} {b : Bool}
    (h : ∀ f ∈ legacyFields c d b, '|' ∉ f) : legacyPieces c d b = legacyFields c d b := by
  simp only [legacyPieces]
  generalize legacyFields c d b = fields at h
  induction fields with
  | nil => rfl
  | cons f rest ih =>
    rw [List.flatMap_cons, List.splitOn_eq_singleton (h f List.mem_cons_self),
      ih fun g hg => h g (List.mem_cons_of_mem _ hg)]
    rfl

theorem ForwardCall.mem_signed {hashing : Hashing Fields Tool} {k : ForwardCall Fields Tool}
    {x : Text} : x ∈ k.signed hashing ↔
      (∃ b, (b = true → truthy k.context.clientIp = true) ∧
        x = primaryText hashing k.payload k.context b k.context.version) ∨
      x = toolsBoundText hashing k.payload k.context k.context.version := by
  cases hip : truthy k.context.clientIp with
  | false => simp [ForwardCall.signed, hip]
  | true => simp [ForwardCall.signed, hip, or_assoc, or_left_comm]

theorem version_none_iff {c : ForwardContext} :
    c.version = none ↔ c.originalRequestUnanchored = false := by
  cases hu : c.originalRequestUnanchored <;> simp [ForwardContext.version, hu]

theorem ForwardCall.legacy_mem_signed (hashing : Hashing Fields Tool)
    {k : ForwardCall Fields Tool} {b : Bool} (h : k.SignsLegacy b) :
    legacyText k.context (hashing.bodyDigest k.payload.modelDump) b ∈ k.signed hashing := by
  refine mem_signed.mpr (.inl ⟨b, h.2, ?_⟩)
  rw [version_none_iff.mpr h.1]
  rfl

/-- Only legacy signing makes a legacy text. -/
theorem ForwardCall.signed_legacy {hashing : Hashing Fields Tool} {k : ForwardCall Fields Tool}
    {c : ForwardContext} {d : Text} {b : Bool} (hd : HexText d)
    (h : legacyText c d b ∈ k.signed hashing) :
    ∃ b', k.SignsLegacy b' ∧ legacyPieces c d b = k.pieces hashing b' := by
  rcases mem_signed.mp h with ⟨b', hip, hx⟩ | hx
  · cases hv : k.context.version with
    | none =>
      rw [hv] at hx
      exact ⟨b', ⟨version_none_iff.mp hv, hip⟩, legacyText_eq_iff.mp hx⟩
    | some v =>
      rw [hv] at hx
      exact absurd hx (legacy_ne_structured _ _ hd _ _ _ _ _)
  · exact absurd hx (legacy_ne_structured _ _ hd _ _ _ _ _)

/-- Only the structured primary signature makes its text. -/
theorem ForwardCall.signed_structured {hashing : Hashing Fields Tool}
    {k : ForwardCall Fields Tool} {c : ForwardContext} {d v : Text} {b : Bool}
    (h : structuredBridgeSigningPayload c d b (some v) forwardProtocol ∈ k.signed hashing) :
    Agrees c.received k.context.received ∧ d = hashing.bodyDigest k.payload.modelDump ∧
      c.clientIp.isSome = k.context.clientIp.isSome ∧
      (b = true → c.clientIp = k.context.clientIp) := by
  rcases mem_signed.mp h with ⟨b', _, hx⟩ | hx
  · cases hv : k.context.version with
    | none =>
      rw [hv] at hx
      exact absurd hx.symm (legacy_ne_structured _ _ (hashing.digest_hex _) _ _ _ _ _)
    | some w =>
      rw [hv] at hx
      have same := structured_injective hx
      exact ⟨same.agrees, same.digest, same.clientIpPresent, same.clientIp⟩
  · exact absurd (structured_injective hx).protocol (by decide)

theorem modelDump_of_forwarding {p q : ResponsesRequest Fields Tool}
    (h : p.modelDumpForForwarding = q.modelDumpForForwarding) : p.modelDump = q.modelDump := by
  obtain ⟨fields, tools, set, unset⟩ := p
  obtain ⟨fields', tools', set', unset'⟩ := q
  cases set <;> cases set' <;>
    simp_all [ResponsesRequest.modelDumpForForwarding, ResponsesRequest.modelDump]

/-- Only the tools-bound signature makes its text. -/
theorem ForwardCall.signed_toolsBound {hashing : Hashing Fields Tool}
    {k : ForwardCall Fields Tool} {p : ResponsesRequest Fields Tool} {c : ForwardContext}
    {v : Option Text} (h : toolsBoundText hashing p c v ∈ k.signed hashing) :
    Agrees c.received k.context.received ∧
      p.modelDumpForForwarding = k.payload.modelDumpForForwarding ∧
      c.clientIp = k.context.clientIp := by
  rcases mem_signed.mp h with ⟨b', _, hx⟩ | hx
  · cases hv : k.context.version with
    | none =>
      rw [hv] at hx
      exact absurd hx.symm (legacy_ne_structured _ _ (hashing.digest_hex _) _ _ _ _ _)
    | some w =>
      rw [hv] at hx
      exact absurd (structured_injective hx).protocol (by decide)
  · have same := structured_injective hx
    exact ⟨same.agrees, hashing.digest_injective same.digest, same.clientIp rfl⟩

/-- A context that is read as a call sent it, but for the limits, is the context of a call that
signed the same texts. -/
theorem LimitsKept.sent {history : List (ForwardCall Fields Tool)} {current : Text}
    (kept : LimitsKept history current) (hashing : Hashing Fields Tool)
    {k : ForwardCall Fields Tool} (hk : k ∈ history) {c : ForwardContext}
    (readable : ReadableFields current c) (agrees : Agrees c.received k.context.received)
    (ip : c.clientIp = k.context.clientIp) :
    ∃ k' ∈ history, k'.signed hashing = k.signed hashing ∧ Agrees c k'.context ∧
      k'.payload.modelDump = k.payload.modelDump ∧ c.clientIp = k'.context.clientIp := by
  rw [readable.received_eq] at agrees
  obtain ⟨k', hk', body, ip', sent⟩ := kept k hk (readable.congr agrees ip)
  have plain := modelDump_of_forwarding body
  have same : Agrees k'.context.received k.context.received := by
    have received := sent.received
    have idem : k.context.received.received = k.context.received :=
      (readable.congr agrees ip).received_eq
    rw [idem] at received
    exact ⟨received.origin.symm, received.target.symm, received.affinity.symm,
      received.turnState.symm, received.kind.symm, received.key.symm, received.unanchored.symm,
      received.reservation.symm⟩
  exact ⟨k', hk', ForwardCall.signed_congr body plain same ip', agrees.trans sent, plain,
    ip.trans ip'.symm⟩

/-- Fixed boundaries and kept limits are enough: a case for each text that can let a context
through. -/
theorem bound_of_fixed {hashing : Hashing Fields Tool} {history : List (ForwardCall Fields Tool)}
    {current : Text} (fixed : BoundariesFixed hashing history current)
    (kept : LimitsKept history current) : Bound hashing history current := by
  intro h p c unforged ok
  obtain ⟨fields, hversion, x, hx, htag⟩ := parse_ok ok
  obtain ⟨k, hk, hkTag⟩ := unforged x htag
  have hsigned := ForwardCall.sign_mem_tags.mp hkTag
  cases hx with
  | toolsBound =>
    obtain ⟨agrees, hdump, hip⟩ := ForwardCall.signed_toolsBound hsigned
    obtain ⟨k', hk', signed, sent, plain, hip'⟩ := kept.sent hashing hk fields agrees hip
    rw [← signed] at hsigned
    exact ⟨k', hk', ⟨_, ForwardCall.sign_mem_tags.mpr hsigned, htag⟩, sent,
      by rw [plain, modelDump_of_forwarding hdump], fun _ => hip'⟩
  | primary b withoutIp unambiguous =>
    rcases hversion with two | readable
    · rw [two] at hsigned htag
      obtain ⟨agrees, hdigest, hpresent, hip⟩ := ForwardCall.signed_structured hsigned
      have hip : c.clientIp = k.context.clientIp := by
        cases b with
        | true => exact hip rfl
        | false =>
          -- The text without client IP still says whether there was one.
          rw [withoutIp rfl] at hpresent ⊢
          exact (Option.isNone_iff_eq_none.mp (by simpa using hpresent.symm)).symm
      obtain ⟨k', hk', signed, sent, plain, hip'⟩ := kept.sent hashing hk fields agrees hip
      rw [← signed] at hsigned
      exact ⟨k', hk', ⟨_, ForwardCall.sign_mem_tags.mpr hsigned, htag⟩, sent,
        by rw [plain, hdigest], fun _ => hip'⟩
    · rw [readable.version] at hsigned htag
      have hex := hashing.digest_hex p.modelDump
      obtain ⟨b', hsigns, hpieces⟩ := ForwardCall.signed_legacy hex hsigned
      have hdigest := legacyPieces_digest hex (hashing.digest_hex _) hpieces
      have plain := (ambiguousDelimiter_false_iff withoutIp (hex.not_mem (by decide))).mp
        (unambiguous readable.version)
      have repacked : Repacks hashing k b' c := by
        refine ⟨b, withoutIp, ?_⟩
        rw [← hdigest, ← legacyPieces_of_unambiguous plain]
        exact hpieces
      obtain ⟨k', hk', b'', hsigns', hpieces', agrees⟩ :=
        fixed k hk b' hsigns c readable repacked
      have htext : legacyText k'.context (hashing.bodyDigest k'.payload.modelDump) b''
          = legacyText c (hashing.bodyDigest p.modelDump) b :=
        legacyText_eq_iff.mpr (hpieces'.trans hpieces.symm)
      have hdigest' := legacyPieces_digest (hashing.digest_hex _) (hashing.digest_hex _) hpieces'
      have hmem := ForwardCall.sign_mem_tags.mpr (ForwardCall.legacy_mem_signed hashing hsigns')
      rw [htext] at hmem
      refine ⟨k', hk', ⟨_, hmem, htag⟩, agrees, hdigest.trans hdigest'.symm, ?_⟩
      intro two
      rw [readable.version] at two
      cases two

/-! ## Headers under one tag -/

/-- Headers that present the fields of a context under one of the two tags. -/
def presentedHeaders (c : ForwardContext) (signature signatureV2 : Option Text) : HeaderMap :=
  let h : HeaderMap := Dict.empty.set forwardedHeader ['1']
  let h := h.set originInstanceHeader c.originInstance
  let h := h.set targetInstanceHeader c.targetInstance
  let h := h.set codexAffinityHeader (flag c.codexSessionAffinity)
  let h := setSome h signatureVersionHeader c.version
  let h := setIf h c.version.isSome originalUnanchoredHeader ['1']
  let h := setSome h affinityKindHeader c.originalAffinityKind
  let h := setSome h affinityKeyHeader c.originalAffinityKey
  let h := setSome h clientIpHeader c.clientIp
  let h := setSome h turnStateHeader c.downstreamTurnState
  let h := setSome h reservationIdHeader (c.reservation.map (·.reservationId))
  let h := setSome h reservationKeyIdHeader (c.reservation.map (·.keyId))
  let h := setSome h reservationModelHeader (c.reservation.map (·.model))
  let h := setSome h signatureHeader signature
  setSome h signatureV2Header signatureV2

/-- What headers that stand for a context hold under each name that it is read from. -/
structure Reads (c : ForwardContext) (h : HeaderMap) : Prop where
  marker : h.get forwardedHeader = some ['1']
  origin : h.get originInstanceHeader = some c.originInstance
  target : h.get targetInstanceHeader = some c.targetInstance
  affinity : h.get codexAffinityHeader = some (flag c.codexSessionAffinity)
  version : h.get signatureVersionHeader = c.version
  unanchored : h.get originalUnanchoredHeader = if c.version.isSome then some ['1'] else none
  kind : h.get affinityKindHeader = c.originalAffinityKind
  key : h.get affinityKeyHeader = c.originalAffinityKey
  clientIp : h.get clientIpHeader = c.clientIp
  turnState : h.get turnStateHeader = c.downstreamTurnState
  reservationId : h.get reservationIdHeader = c.reservation.map (·.reservationId)
  reservationKeyId : h.get reservationKeyIdHeader = c.reservation.map (·.keyId)
  reservationModel : h.get reservationModelHeader = c.reservation.map (·.model)

/-- The tags that presented headers hold. -/
structure Tags (signature signatureV2 : Option Text) (h : HeaderMap) : Prop where
  signature : h.get signatureHeader = signature
  signatureV2 : h.get signatureV2Header = signatureV2
  clientIpSignature : h.get clientIpSignatureHeader = none

theorem presentedHeaders_reads (c : ForwardContext) (signature signatureV2 : Option Text) :
    Reads c (presentedHeaders c signature signatureV2) := by
  simp only [presentedHeaders]
  constructor
  all_goals simp +decide [Dict.get_set, get_setIf, get_setSome]

theorem presentedHeaders_tags (c : ForwardContext) (signature signatureV2 : Option Text) :
    Tags signature signatureV2 (presentedHeaders c signature signatureV2) := by
  simp only [presentedHeaders]
  constructor
  all_goals simp +decide [Dict.get_set, get_setIf, get_setSome]

theorem Trimmed.optionalHeader_eq {t : Text} (h : Trimmed t) :
    optionalHeader (some t) = some t := by
  have stripped : strip t = t := h.2
  simp [optionalHeader, nonempty, stripped, h.1]

theorem optionalHeader_self {value : Option Text} (h : ∀ t ∈ value, Trimmed t) :
    optionalHeader value = value := by
  cases value with
  | none => rfl
  | some t => exact (h t rfl).optionalHeader_eq

theorem boolHeader_flag (b : Bool) : boolHeader (some (flag b)) = b := by
  cases b <;> decide

theorem Reads.reservation {c : ForwardContext} {h : HeaderMap} (reads : Reads c h)
    (trimmed : ∀ r ∈ c.reservation, Trimmed r.reservationId ∧ Trimmed r.keyId ∧ Trimmed r.model) :
    reservationFromHeaders h = c.reservation.map Reservation.received := by
  simp only [reservationFromHeaders]
  rw [reads.reservationId, reads.reservationKeyId, reads.reservationModel]
  cases hr : c.reservation with
  | none => rfl
  | some r =>
    obtain ⟨hid, hkey, hmodel⟩ := trimmed r hr
    simp [hid.optionalHeader_eq, hkey.optionalHeader_eq, hmodel.optionalHeader_eq,
      Reservation.received]

/-- The context that is read from headers which stand for it. -/
theorem Reads.context {current : Text} {c : ForwardContext} {h : HeaderMap} (reads : Reads c h)
    (readable : ReadableFields current c.received) :
    readContext h current c.version c.originalRequestUnanchored
      = { c.received with signatureVersion := c.version } := by
  have origin : Trimmed c.originInstance := readable.origin
  have stripped : strip c.originInstance = c.originInstance := origin.2
  have turnState : ∀ t ∈ c.downstreamTurnState, Trimmed t := readable.turnState
  have kind : ∀ t ∈ c.originalAffinityKind, Trimmed t := readable.kind
  have key : ∀ t ∈ c.originalAffinityKey, Trimmed t := readable.key
  have clientIp : ∀ t ∈ c.clientIp, Trimmed t := readable.clientIp
  have target : c.targetInstance = current := readable.target
  have trimmed : ∀ r ∈ c.reservation,
      Trimmed r.reservationId ∧ Trimmed r.keyId ∧ Trimmed r.model := fun r hr =>
    readable.reservation r.received (Option.mem_map_of_mem _ hr)
  simp only [readContext]
  rw [reads.origin, reads.affinity, reads.turnState, reads.kind, reads.key, reads.clientIp,
    reads.reservation trimmed, boolHeader_flag, optionalHeader_self turnState,
    optionalHeader_self kind, optionalHeader_self key, optionalHeader_self clientIp,
    Option.getD_some, stripped, nonempty, if_neg origin.1, ← target]
  rfl

/-- The version pair that is written is one the receiver takes for the flag it stands for. -/
theorem Reads.unanchored_read {c : ForwardContext} {h : HeaderMap} (reads : Reads c h) :
    optionalHeader (h.get signatureVersionHeader) = c.version ∧
      readUnanchored c.version (optionalHeader (h.get originalUnanchoredHeader))
        = some c.originalRequestUnanchored := by
  rw [reads.version, reads.unanchored, ForwardContext.version]
  cases c.originalRequestUnanchored with
  | false => exact ⟨rfl, rfl⟩
  | true => exact ⟨by decide, by decide⟩

theorem tagMatches_hex {t expected : Text} (h : HexText t) :
    tagMatches (some t) expected = .ok (t == expected) := by
  simp only [tagMatches, h.ascii, if_true]

/-- Only the signature checks are left of headers that stand for a readable context. -/
theorem Reads.parse {hashing : Hashing Fields Tool} {p : ResponsesRequest Fields Tool}
    {current : Text} {c : ForwardContext} {h : HeaderMap} (reads : Reads c h)
    (readable : ReadableFields current c.received) :
    parseForwardedRequest hashing h p current
      = authenticate hashing h p { c.received with signatureVersion := c.version } := by
  obtain ⟨hversion, hunanchored⟩ := reads.unanchored_read
  have hcurrent : strip current = current := readable.current.2
  have target : c.targetInstance = current := readable.target
  rw [parseForwardedRequest, reads.marker, if_neg (by simp)]
  dsimp only
  rw [reads.target, Option.getD_some, target, hcurrent, if_neg (by simp [readable.current.1]),
    hversion, hunanchored]
  exact congrArg (authenticate hashing h p) (reads.context readable)

/-- The tools-bound tag of a call is enough for its context to be read, but for the limits. -/
theorem Reads.parse_toolsBound {hashing : Hashing Fields Tool} {p : ResponsesRequest Fields Tool}
    {current : Text} {c : ForwardContext} {h : HeaderMap} (reads : Reads c h)
    (readable : ReadableFields current c.received)
    (tag : h.get signatureV2Header = some (bridgeForwardToolsBoundSignature hashing p c c.version)) :
    parseForwardedRequest hashing h p current
      = .ok { c.received with signatureVersion := c.version } := by
  have hex : HexText (bridgeForwardToolsBoundSignature hashing p c c.version) :=
    hashing.sign_hex _
  -- The texts take the version as an argument and leave out the one in the context.
  have same : bridgeForwardToolsBoundSignature hashing p
      { c.received with signatureVersion := c.version } c.version
        = bridgeForwardToolsBoundSignature hashing p c c.version := by
    simp only [bridgeForwardToolsBoundSignature, toolsBoundText, structuredBridgeSigningPayload,
      structuredMembers, ForwardContext.received, reservationJson_received]
  rw [reads.parse readable, authenticate]
  dsimp only
  rw [tag, same, hex.optionalHeader_eq, tagMatches_hex hex]
  simp [bind, Except.bind]

/-- Headers pass under the tag of a legacy text that joins to the same pieces. -/
theorem parse_repacked {hashing : Hashing Fields Tool} {p : ResponsesRequest Fields Tool}
    {current : Text} {c : ForwardContext} (readable : Readable current c) {b : Bool}
    (withoutIp : b = false → c.clientIp = none) (plain : ambiguousDelimiter c = false)
    {h : HeaderMap} (reads : Reads c h)
    (tags : Tags (some (hashing.signBridgePayload (primaryText hashing p c b none))) none h) :
    parseForwardedRequest hashing h p current = .ok c := by
  have hex := hashing.sign_hex (primaryText hashing p c b none)
  have hvalid : primarySignatureValid hashing h p c = .ok true := by
    simp only [primarySignatureValid]
    rw [tags.signature, tags.clientIpSignature, hex.optionalHeader_eq, tagMatches_hex hex,
      tagMatches_hex hex, readable.version]
    cases b with
    | true => simp [bind, Except.bind, pure, Except.pure, bridgeForwardSignature, tagMatches]
    | false =>
      simp [bind, Except.bind, pure, Except.pure, bridgeForwardSignature, tagMatches,
        withoutIp rfl]
  have hauth : authenticate hashing h p c = .ok c := by
    simp only [authenticate]
    rw [tags.signatureV2, hvalid, plain]
    simp [bind, Except.bind, tagMatches]
  have hversion : c.version = c.signatureVersion :=
    (version_none_iff.mpr readable.anchored).trans readable.version.symm
  have hreceived := readable.toReadableFields.received_eq
  rw [reads.parse (hreceived.symm ▸ readable.toReadableFields), hreceived, hversion]
  exact hauth

theorem mem_tags {signature signatureV2 : Option Text} {h : HeaderMap}
    (tags : Tags signature signatureV2 h) {t : Text} :
    t ∈ presentedTags h ↔ optionalHeader signature = some t ∨ optionalHeader signatureV2 = some t := by
  rw [mem_presentedTags, tags.clientIpSignature, tags.signature, tags.signatureV2,
    optionalHeader_none]
  simp

theorem boundariesFixed_of_bound {hashing : Hashing Fields Tool}
    {history : List (ForwardCall Fields Tool)} {current : Text}
    (bound : Bound hashing history current) : BoundariesFixed hashing history current := by
  intro k hk b hsigns c readable ⟨b', withoutIp, hfields⟩
  have hex := hashing.digest_hex k.payload.modelDump
  have plain : ∀ f ∈ legacyFields c (hashing.bodyDigest k.payload.modelDump) b', '|' ∉ f := by
    intro f hf
    rw [hfields] at hf
    obtain ⟨field, _, hpiece⟩ := List.mem_flatMap.mp hf
    exact not_mem_piece '|' hpiece
  have htext : primaryText hashing k.payload c b' none
      = legacyText k.context (hashing.bodyDigest k.payload.modelDump) b :=
    legacyText_eq_iff.mpr ((legacyPieces_of_unambiguous plain).trans hfields)
  have reads := presentedHeaders_reads c
    (some (hashing.signBridgePayload (primaryText hashing k.payload c b' none))) none
  have tags := presentedHeaders_tags c
    (some (hashing.signBridgePayload (primaryText hashing k.payload c b' none))) none
  generalize presentedHeaders c _ none = h at reads tags
  have honest : ∀ x, hashing.signBridgePayload x ∈ presentedTags h →
      x = primaryText hashing k.payload c b' none := by
    intro x hx
    rw [mem_tags tags, (hashing.sign_hex _).optionalHeader_eq] at hx
    simpa [hashing.sign_injective.eq_iff, eq_comm] using hx
  have unforged : Unforged hashing history h := by
    intro x hx
    refine ⟨k, hk, ForwardCall.sign_mem_tags.mpr ?_⟩
    rw [honest x hx, htext]
    exact ForwardCall.legacy_mem_signed hashing hsigns
  have accepted := parse_repacked readable withoutIp
    ((ambiguousDelimiter_false_iff withoutIp (hex.not_mem (by decide))).mpr plain) reads tags
  obtain ⟨k', hk', ⟨t, htags, htag⟩, agrees, -, -⟩ := bound h k.payload c unforged accepted
  rw [k'.tags_eq] at htags
  obtain ⟨x, hx, rfl⟩ := List.mem_map.mp htags
  rw [honest x htag, htext] at hx
  obtain ⟨b'', hsigns', hpieces⟩ := ForwardCall.signed_legacy hex hx
  exact ⟨k', hk', b'', hsigns', hpieces.symm, agrees⟩

theorem limitsKept_of_bound {hashing : Hashing Fields Tool}
    {history : List (ForwardCall Fields Tool)} {current : Text}
    (bound : Bound hashing history current) : LimitsKept history current := by
  intro k hk readable
  have reads := presentedHeaders_reads k.context none
    (some (bridgeForwardToolsBoundSignature hashing k.payload k.context k.context.version))
  have tags := presentedHeaders_tags k.context none
    (some (bridgeForwardToolsBoundSignature hashing k.payload k.context k.context.version))
  generalize presentedHeaders k.context none _ = h at reads tags
  have honest : ∀ x, hashing.signBridgePayload x ∈ presentedTags h →
      x = toolsBoundText hashing k.payload k.context k.context.version := by
    intro x hx
    rw [mem_tags tags, bridgeForwardToolsBoundSignature,
      (hashing.sign_hex _).optionalHeader_eq] at hx
    simpa [hashing.sign_injective.eq_iff, eq_comm] using hx
  have unforged : Unforged hashing history h := by
    intro x hx
    refine ⟨k, hk, ForwardCall.sign_mem_tags.mpr ?_⟩
    rw [honest x hx]
    exact ForwardCall.mem_signed.mpr (.inr rfl)
  have accepted := reads.parse_toolsBound readable tags.signatureV2
  obtain ⟨k', hk', ⟨t, htags, htag⟩, agrees, -, -⟩ := bound h k.payload _ unforged accepted
  rw [k'.tags_eq] at htags
  obtain ⟨x, hx, rfl⟩ := List.mem_map.mp htags
  rw [honest x htag] at hx
  obtain ⟨-, body, ip⟩ := ForwardCall.signed_toolsBound hx
  exact ⟨k', hk', body.symm, ip.symm, agrees.origin, agrees.target, agrees.affinity,
    agrees.turnState, agrees.kind, agrees.key, agrees.unanchored, agrees.reservation⟩

/-- Forwards are bound exactly when no legacy text of an honest call can be cut differently and no
reservation without limits can be read as one that was not sent with them. -/
theorem forwards_bound_iff (hashing : Hashing Fields Tool)
    (history : List (ForwardCall Fields Tool)) (current : Text) :
    Bound hashing history current ↔
      BoundariesFixed hashing history current ∧ LimitsKept history current :=
  ⟨fun bound => ⟨boundariesFixed_of_bound bound, limitsKept_of_bound bound⟩,
    fun ⟨fixed, kept⟩ => bound_of_fixed fixed kept⟩

/-! ## A repacked forward -/

theorem isHexDigit_digitChar : ∀ n < 16, isHexDigit (Nat.digitChar n) = true := by decide

theorem hexCode_hex {c d : Char} (h : d ∈ hexCode c) : isHexDigit d = true := by
  have digit : ∀ m, isHexDigit (Nat.digitChar (m % 16)) = true := fun m =>
    isHexDigit_digitChar _ (Nat.mod_lt _ (by decide))
  simp only [hexCode, hex4, List.cons_append, List.nil_append, List.mem_cons,
    List.not_mem_nil, or_false] at h
  rcases h with rfl | rfl | rfl | rfl | rfl | rfl | rfl | rfl
  all_goals exact digit _

/-- Collision-free hashes over hexadecimal digits. -/
def blockHashing : Hashing Unit Unit where
  signBridgePayload t := 'a' :: t.flatMap hexCode
  bodyDigest d := match d.tools with
    | none => ['0']
    | some tools => '1' :: List.replicate tools.length '0'
  sign_injective := by
    intro t u h
    exact hexCode_selfDelimiting.flatMap_injective (by simp [hexCode, hex4]) (List.cons.inj h).2
  digest_injective := by
    rintro ⟨⟨⟩, tools⟩ ⟨⟨⟩, tools'⟩ h
    cases tools with
    | none =>
      cases tools' with
      | none => rfl
      | some ts' => simp at h
    | some ts =>
      cases tools' with
      | none => simp at h
      | some ts' =>
        have hlen : ts.length = ts'.length := by simpa using h
        obtain rfl : ts = ts' := List.ext_getElem hlen (by simp)
        rfl
  sign_hex := by
    intro t
    refine ⟨by simp, ?_⟩
    intro c hc
    rcases List.mem_cons.mp hc with rfl | hc
    · decide
    · obtain ⟨d, _, hd⟩ := List.mem_flatMap.mp hc
      exact hexCode_hex hd
  digest_hex := by
    rintro ⟨⟨⟩, tools⟩
    cases tools with
    | none =>
      refine ⟨by simp, ?_⟩
      intro c hc
      obtain rfl := List.mem_singleton.mp hc
      decide
    | some ts =>
      refine ⟨by simp, ?_⟩
      intro c hc
      rcases List.mem_cons.mp hc with rfl | hc
      · decide
      · rw [List.eq_of_mem_replicate hc]
        decide

def anchoredContext (affinityKey : String) (clientIp : Option Text) : ForwardContext where
  originInstance := "origin".toList
  targetInstance := "owner".toList
  codexSessionAffinity := true
  downstreamTurnState := none
  originalAffinityKind := some "session_header".toList
  originalAffinityKey := some affinityKey.toList
  clientIp := clientIp

/-- An anchored call without client IP whose affinity key holds one delimiter. -/
def delimitedCall : ForwardCall Unit Unit where
  inbound := Dict.empty
  payload := ⟨(), [], false, fun _ => rfl⟩
  context := anchoredContext "a|b" none

/-- The text signed without client IP verifies as one with it, under another affinity key. -/
theorem delimited_key_repacked : ¬ Bound blockHashing [delimitedCall] "owner".toList := by
  intro bound
  have readable : Readable "owner".toList (anchoredContext "a" (some "b".toList)) := by
    refine ⟨⟨⟨by decide, by decide⟩, rfl, ⟨by decide, by decide⟩, nofun, ?_, ?_, ?_, nofun, nofun⟩,
      rfl, rfl⟩
    all_goals
      rintro t ⟨⟩
      exact ⟨by decide, by decide⟩
  have repacked : Repacks blockHashing delimitedCall false
      (anchoredContext "a" (some "b".toList)) := ⟨true, nofun, by decide +kernel⟩
  obtain ⟨k, hk, -, -, -, agrees⟩ := boundariesFixed_of_bound bound delimitedCall
    List.mem_cons_self false ⟨rfl, nofun⟩ _ readable repacked
  obtain rfl := List.mem_singleton.mp hk
  exact absurd agrees.key (by decide)

end BridgeForward
