import LivingBalancer.Lib.IpAddress

/-!
# The client address behind trusted proxies

Two functions read it from the forwarding headers of a connection: the firewall's, which
takes the socket address when the chain is malformed, and that of the request locality,
which then takes none. On a chain of addresses both walk from the socket to the left and
stop at the first hop that is no trusted proxy.
-/

namespace ForwardedFor

open PyText

/-- The headers of a connection: `headers.get` of a lower-case name. -/
abbrev Headers := String → Option Text

section Chain

variable (networks : List IpNetwork)

def isTrustedProxySource (host : Text) : Bool :=
  match ipAddress host with
  | some sourceIp => networks.any fun network => network.contains sourceIp
  | none => false

def isValidIp (value : Text) : Bool := (ipAddress value).isSome

def hops (forwardedFor : Text) : List Text := (forwardedFor.splitOn ',').map strip

/-- The loop over the chain, given from the socket's end to the left. -/
def walk (resolved : Text) : List Text → Text
  | [] => resolved
  | [_] => resolved
  | currentProxy :: previousHop :: rest =>
    if isTrustedProxySource networks currentProxy then walk previousHop (previousHop :: rest)
    else currentProxy

/-- `_resolve_client_ip_from_xff_chain`; a malformed chain resolves to nothing. -/
def resolveClientIpFromXffChain (socketIp forwardedFor : Text) : Option Text :=
  if (hops forwardedFor).any fun entry => !isValidIp entry then none
  else some (walk networks socketIp (hops forwardedFor ++ [socketIp]).reverse)

end Chain

/-! ## The firewall -/

/-- `resolve_connection_client_ip` of the firewall middleware. -/
def firewallClientIp (headers : Headers) (socketIp : Option Text) (trustProxyHeaders : Bool)
    (trustedProxyNetworks : List IpNetwork) : Option Text :=
  match socketIp with
  | none => none
  | some socket =>
    if trustProxyHeaders ∧ socket ≠ [] ∧ isTrustedProxySource trustedProxyNetworks socket then
      match headers "x-forwarded-for" with
      | some (c :: rest) =>
        match resolveClientIpFromXffChain trustedProxyNetworks socket (c :: rest) with
        | some resolved => some resolved
        | none => some socket
      | _ => some socket
    else some socket

def normalizeIpAddress (value : Text) : Option Text :=
  if strip value = [] then none else (ipAddress (strip value)).map IpAddress.str

/-- `FirewallService.is_ip_allowed`: an empty list allows everyone. -/
def isIpAllowed (allowlist : List Text) (ip : Option Text) : Bool :=
  if allowlist = [] then true
  else
    match ip.bind normalizeIpAddress with
    | some normalized => allowlist.contains normalized
    | none => false

/-! ## The request locality -/

def unquote (candidate : Text) : Text := (candidate.dropWhile (· = '"')).rdropWhile (· = '"')

/-- The first `for=` of the header decides. -/
def resolveForwardedHeaderIp (forwarded : Text) : Option Text :=
  let items := ((forwarded.splitOn ',').flatMap (List.splitOn ';')).map strip
  match items.find? fun item => (item.take 4).map Char.toLower = "for=".toList with
  | none => none
  | some item =>
    let quoted := unquote (strip (item.drop 4))
    let candidate :=
      if quoted.head? = some '[' ∧ quoted.getLast? = some ']' then quoted.tail.dropLast else quoted
    if candidate.head? = some '_' then none
    else if isValidIp candidate then some candidate else none

/-- `resolve_connection_client_ip` of the request locality. -/
def localityClientIp (headers : Headers) (socketIp : Option Text) (trustProxyHeaders : Bool)
    (trustedProxyNetworks : List IpNetwork) : Option Text :=
  match socketIp with
  | none => none
  | some socket =>
    if trustProxyHeaders ∧ socket ≠ [] ∧ isTrustedProxySource trustedProxyNetworks socket then
      match headers "x-forwarded-for" with
      | some (c :: rest) => resolveClientIpFromXffChain trustedProxyNetworks socket (c :: rest)
      | _ =>
        match ["x-real-ip", "true-client-ip", "cf-connecting-ip"].findSome? fun name =>
            (headers name).filter (· ≠ []) with
        | some forwardedIp =>
          if isValidIp (strip forwardedIp) then some (strip forwardedIp) else none
        | none =>
          match headers "forwarded" with
          | some (c :: rest) => resolveForwardedHeaderIp (c :: rest)
          | _ => none
    else some socket

/-! ## The chain -/

variable {networks : List IpNetwork}

/-- The walk stops at the first hop that is no trusted proxy, or at the last hop. -/
theorem walk_eq (host : Text) (chain : List Text) :
    walk networks host (host :: chain) =
      ((host :: chain).find? fun hop => !isTrustedProxySource networks hop).getD
        ((host :: chain).getLast (List.cons_ne_nil host chain)) := by
  induction chain generalizing host with
  | nil =>
    cases trusted : isTrustedProxySource networks host <;> simp [walk, trusted]
  | cons previous rest ih =>
    rw [walk]
    cases trusted : isTrustedProxySource networks host with
    | true => simp [ih, trusted]
    | false => simp [trusted]

/-- The right-most address that is outside the trusted networks. -/
def rightmostUntrusted (networks : List IpNetwork) (addresses : List Text) : Option Text :=
  addresses.reverse.find? fun hop => !isTrustedProxySource networks hop

theorem rightmostUntrusted_append {addresses : List Text} {client : Text}
    (h : rightmostUntrusted networks addresses = some client) (before : List Text) :
    rightmostUntrusted networks (before ++ addresses) = some client := by
  rw [rightmostUntrusted, List.reverse_append, List.find?_append]
  rw [rightmostUntrusted] at h
  rw [h]
  rfl

theorem exists_rightmostUntrusted {addresses : List Text}
    (outside : ∃ a ∈ addresses, isTrustedProxySource networks a = false) :
    ∃ client ∈ addresses, rightmostUntrusted networks addresses = some client ∧
      isTrustedProxySource networks client = false := by
  obtain ⟨a, mem, untrusted⟩ := outside
  have found : (rightmostUntrusted networks addresses).isSome := by
    rw [rightmostUntrusted, List.find?_isSome]
    exact ⟨a, List.mem_reverse.mpr mem, by rw [untrusted]; rfl⟩
  obtain ⟨client, same⟩ := Option.isSome_iff_exists.mp found
  refine ⟨client, List.mem_reverse.mp (List.mem_of_find?_eq_some same), same, ?_⟩
  have stopped := List.find?_some same
  simpa using stopped

/-- Whether an entry is no address. -/
def Malformed (entries : List Text) : Prop := ∃ entry ∈ entries, isValidIp entry = false

theorem resolveClientIpFromXffChain_malformed {socketIp forwardedFor : Text}
    (h : Malformed (hops forwardedFor)) :
    resolveClientIpFromXffChain networks socketIp forwardedFor = none := by
  obtain ⟨entry, mem, invalid⟩ := h
  rw [resolveClientIpFromXffChain, if_pos]
  exact List.any_eq_true.mpr ⟨entry, mem, by rw [invalid]; rfl⟩

theorem resolveClientIpFromXffChain_valid {socketIp forwardedFor client : Text}
    (valid : ¬ Malformed (hops forwardedFor))
    (socket : isTrustedProxySource networks socketIp = true)
    (h : rightmostUntrusted networks (hops forwardedFor) = some client) :
    resolveClientIpFromXffChain networks socketIp forwardedFor = some client := by
  rw [resolveClientIpFromXffChain, if_neg, List.reverse_append]
  · rw [List.reverse_singleton, List.singleton_append, walk_eq]
    rw [rightmostUntrusted] at h
    simp [socket, h]
  · intro invalid
    obtain ⟨entry, mem, malformed⟩ := List.any_eq_true.mp invalid
    exact valid ⟨entry, mem, by simpa using malformed⟩

/-! ## Behind an attacker's header -/

/-- The header that a client sends, if it sends one, with what the proxies append to it. -/
def forwardedFor (sent : Option Text) (appended : Text) : Text :=
  match sent with
  | some p => p ++ ',' :: appended
  | none => appended

def sentHops (sent : Option Text) : List Text :=
  match sent with
  | some p => hops p
  | none => []

theorem hops_forwardedFor (sent : Option Text) (appended : Text) :
    hops (forwardedFor sent appended) = sentHops sent ++ hops appended := by
  cases sent with
  | none => rfl
  | some p => rw [forwardedFor, sentHops, hops, List.splitOn_append_cons_self, List.map_append]; rfl

/-- The locality takes the right-most untrusted address that the proxies appended, or none
when an entry of the client's is no address. The firewall takes the former too, and the
socket address in place of none. -/
theorem clientIp_forwardedFor {headers : Headers} {socketIp : Text} {sent : Option Text}
    {appended : Text} (socket : isTrustedProxySource networks socketIp = true)
    (given : headers "x-forwarded-for" = some (forwardedFor sent appended))
    (valid : ∀ a ∈ hops appended, isValidIp a = true)
    (outside : ∃ a ∈ hops appended, isTrustedProxySource networks a = false) :
    ∃ client ∈ hops appended, rightmostUntrusted networks (hops appended) = some client ∧
      isTrustedProxySource networks client = false ∧
      (Malformed (sentHops sent) →
        localityClientIp headers (some socketIp) true networks = none ∧
        firewallClientIp headers (some socketIp) true networks = some socketIp) ∧
      (¬ Malformed (sentHops sent) →
        localityClientIp headers (some socketIp) true networks = some client ∧
        firewallClientIp headers (some socketIp) true networks = some client) := by
  obtain ⟨client, mem, rightmost, untrusted⟩ := exists_rightmostUntrusted outside
  refine ⟨client, mem, rightmost, untrusted, ?_⟩
  have named : socketIp ≠ [] := by
    rintro rfl
    rw [isTrustedProxySource, ipAddress_nil] at socket
    cases socket
  have filled : ∃ c rest, forwardedFor sent appended = c :: rest := by
    apply List.exists_cons_of_ne_nil
    intro empty
    have last : client ∈ hops (forwardedFor sent appended) := by
      rw [hops_forwardedFor]
      exact List.mem_append_right _ mem
    rw [empty] at last
    rw [List.mem_singleton.mp last] at mem
    exact absurd (valid [] mem) (by decide)
  obtain ⟨c, rest, same⟩ := filled
  have locality : localityClientIp headers (some socketIp) true networks =
      resolveClientIpFromXffChain networks socketIp (forwardedFor sent appended) := by
    simp only [localityClientIp, named, socket, given, same, ne_eq, not_false_eq_true, and_self,
      if_true]
  have firewall : firewallClientIp headers (some socketIp) true networks =
      some ((resolveClientIpFromXffChain networks socketIp (forwardedFor sent appended)).getD
        socketIp) := by
    simp only [firewallClientIp, named, socket, given, same, ne_eq, not_false_eq_true, and_self,
      if_true]
    cases resolveClientIpFromXffChain networks socketIp (c :: rest) <;> rfl
  have entries := hops_forwardedFor sent appended
  constructor
  · rintro ⟨entry, among, invalid⟩
    have unresolved : resolveClientIpFromXffChain networks socketIp (forwardedFor sent appended) =
        none := by
      apply resolveClientIpFromXffChain_malformed
      rw [entries]
      exact ⟨entry, List.mem_append_left _ among, invalid⟩
    rw [locality, firewall, unresolved]
    exact ⟨rfl, rfl⟩
  · intro wellFormed
    have resolved : resolveClientIpFromXffChain networks socketIp (forwardedFor sent appended) =
        some client := by
      apply resolveClientIpFromXffChain_valid _ socket
      · rw [entries]
        exact rightmostUntrusted_append rightmost _
      · rw [entries]
        rintro ⟨entry, among, invalid⟩
        rcases List.mem_append.mp among with before | after
        · exact wellFormed ⟨entry, before, invalid⟩
        · rw [valid entry after] at invalid
          cases invalid
    rw [locality, firewall, resolved]
    exact ⟨rfl, rfl⟩

/-- Two proxies of the network 10.0.0.0/8 behind a client that sends an address of its own. -/
theorem clientIp_forwardedFor_two :
    ∃ client ∈ hops " 203.0.113.9, 10.0.0.2".toList,
      rightmostUntrusted [.v4 0x0a000000 0xff000000] (hops " 203.0.113.9, 10.0.0.2".toList) =
        some client ∧
      isTrustedProxySource [.v4 0x0a000000 0xff000000] client = false ∧
      (Malformed (sentHops (some "10.0.0.7".toList)) →
        localityClientIp (fun _ => some (forwardedFor (some "10.0.0.7".toList)
          " 203.0.113.9, 10.0.0.2".toList)) (some "10.0.0.1".toList) true
            [.v4 0x0a000000 0xff000000] = none ∧
        firewallClientIp (fun _ => some (forwardedFor (some "10.0.0.7".toList)
          " 203.0.113.9, 10.0.0.2".toList)) (some "10.0.0.1".toList) true
            [.v4 0x0a000000 0xff000000] = some "10.0.0.1".toList) ∧
      (¬ Malformed (sentHops (some "10.0.0.7".toList)) →
        localityClientIp (fun _ => some (forwardedFor (some "10.0.0.7".toList)
          " 203.0.113.9, 10.0.0.2".toList)) (some "10.0.0.1".toList) true
            [.v4 0x0a000000 0xff000000] = some client ∧
        firewallClientIp (fun _ => some (forwardedFor (some "10.0.0.7".toList)
          " 203.0.113.9, 10.0.0.2".toList)) (some "10.0.0.1".toList) true
            [.v4 0x0a000000 0xff000000] = some client) :=
  clientIp_forwardedFor (by decide +kernel) rfl (by decide +kernel) (by decide +kernel)

/-- An entry that is no address makes the firewall take the socket's own proxy for the client:
an allowlist with the proxy lets a client through that it does not hold. -/
theorem firewallClientIp_malformed :
    isTrustedProxySource [.v4 0x0a000000 0xff000000] "10.0.0.1".toList = true ∧
    (∀ a ∈ hops " 203.0.113.9".toList, isValidIp a = true ∧
      isTrustedProxySource [.v4 0x0a000000 0xff000000] a = false) ∧
    firewallClientIp (fun _ => some (forwardedFor (some "x".toList) " 203.0.113.9".toList))
      (some "10.0.0.1".toList) true [.v4 0x0a000000 0xff000000] = some "10.0.0.1".toList ∧
    isIpAllowed ["10.0.0.1".toList] (some "10.0.0.1".toList) = true ∧
    isIpAllowed ["10.0.0.1".toList] (some "203.0.113.9".toList) = false := by
  decide +kernel

end ForwardedFor
