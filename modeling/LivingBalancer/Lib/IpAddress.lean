import Mathlib.Algebra.Group.Nat.Defs
import LivingBalancer.Lib.PyText

/-!
# Internet addresses as Python reads them

`ipAddress` is `ipaddress.ip_address` on a text and `IpAddress.str` its `str`. A network is
kept by its masked address and its mask, and holds the addresses of its version under it.
-/

namespace PyText

inductive IpAddress where
  | v4 (ip : BitVec 32)
  | v6 (ip : BitVec 128) (scopeId : Option Text)
  deriving DecidableEq

inductive IpNetwork where
  | v4 (networkAddress netmask : BitVec 32)
  | v6 (networkAddress netmask : BitVec 128)
  deriving DecidableEq

/-- `_BaseNetwork.__contains__` on an address. -/
def IpNetwork.contains : IpNetwork → IpAddress → Bool
  | .v4 networkAddress netmask, .v4 ip => ip &&& netmask == networkAddress
  | .v6 networkAddress netmask, .v6 ip _ => ip &&& netmask == networkAddress
  | _, _ => false

/-! ## Reading -/

def isDecimal (c : Char) : Bool := '0' ≤ c ∧ c ≤ '9'

def isHex (c : Char) : Bool := isDecimal c || ('a' ≤ c ∧ c ≤ 'f') || ('A' ≤ c ∧ c ≤ 'F')

def hexDigitValue (c : Char) : ℕ :=
  if isDecimal c then c.toNat - '0'.toNat
  else if 'a' ≤ c then c.toNat - 'a'.toNat + 10
  else c.toNat - 'A'.toNat + 10

def intOfDigits (base : ℕ) (digits : Text) : ℕ :=
  digits.foldl (fun n c => base * n + hexDigitValue c) 0

/-- `_parse_octet`: at most three digits, no leading zero, at most 255. -/
def parseOctet (octet : Text) : Option ℕ :=
  if octet = [] ∨ ¬ octet.all isDecimal ∨ 3 < octet.length then none
  else if octet ≠ ['0'] ∧ octet.head? = some '0' then none
  else if 255 < intOfDigits 10 octet then none
  else some (intOfDigits 10 octet)

/-- `IPv4Address` of a text. -/
def ipv4Address (s : Text) : Option (BitVec 32) :=
  if '/' ∈ s then none
  else
    match (s.splitOn '.').mapM parseOctet with
    | some [a, b, c, d] => some (BitVec.ofNat 32 (((a * 256 + b) * 256 + c) * 256 + d))
    | _ => none

/-- `_parse_hextet`. -/
def parseHextet (hextet : Text) : Option ℕ :=
  if hextet = [] ∨ ¬ hextet.all isHex ∨ 4 < hextet.length then none
  else some (intOfDigits 16 hextet)

/-- `'%x' % n`. -/
def hexText (n : ℕ) : Text := Nat.toDigits 16 n

/-- The parts between colons, a dotted last one as two of them. -/
def ipv6Parts (s : Text) : Option (List Text) :=
  let parts := s.splitOn ':'
  if parts.length < 3 then none
  else
    match parts.getLast? with
    | some last =>
      if '.' ∈ last then
        (ipv4Address last).map fun ip =>
          parts.dropLast ++ [hexText (ip.toNat / 0x10000), hexText (ip.toNat % 0x10000)]
      else some parts
    | none => none

/-- The positions of `::`: the empty parts that are neither the first nor the last. -/
def skipIndices (parts : List Text) : List ℕ :=
  (List.range parts.length).filter fun i => 0 < i ∧ i + 1 < parts.length ∧ parts[i]? = some []

def ipv6Hextets (parts : List Text) : Option (List ℕ) :=
  if 9 < parts.length then none
  else
    match skipIndices parts with
    | [] => if parts.length = 8 then parts.mapM parseHextet else none
    | [i] =>
      let hi := if parts.head? = some [] then (parts.take i).tail else parts.take i
      let lo := if parts.getLast? = some [] then (parts.drop (i + 1)).dropLast
        else parts.drop (i + 1)
      -- A colon at either end has to be one of the two of `::`.
      if parts.head? = some [] ∧ hi ≠ [] then none
      else if parts.getLast? = some [] ∧ lo ≠ [] then none
      else if 8 ≤ hi.length + lo.length then none
      else (hi ++ List.replicate (8 - (hi.length + lo.length)) ['0'] ++ lo).mapM parseHextet
    | _ => none

/-- `_split_scope_id`. -/
def splitScopeId (s : Text) : Option (Text × Option Text) :=
  if '%' ∉ s then some (s, none)
  else
    let scopeId := (s.dropWhile (· ≠ '%')).tail
    if scopeId = [] ∨ '%' ∈ scopeId then none
    else some (s.takeWhile (· ≠ '%'), some scopeId)

/-- `IPv6Address` of a text. -/
def ipv6Address (s : Text) : Option (BitVec 128 × Option Text) :=
  if '/' ∈ s then none
  else do
    let (address, scopeId) ← splitScopeId s
    let parts ← ipv6Parts address
    let hextets ← ipv6Hextets parts
    return (BitVec.ofNat 128 (hextets.foldl (fun n h => 0x10000 * n + h) 0), scopeId)

def ipAddress (s : Text) : Option IpAddress :=
  match ipv4Address s with
  | some ip => some (.v4 ip)
  | none => (ipv6Address s).map fun p => .v6 p.1 p.2

/-! ## Writing -/

def ipv4Str (ip : BitVec 32) : Text :=
  ['.'].intercalate ([ip.toNat / 0x1000000, ip.toNat / 0x10000 % 256, ip.toNat / 0x100 % 256,
    ip.toNat % 256].map fun octet => Nat.toDigits 10 octet)

/-- Where the first of the longest runs of zero hextets starts, and its length. -/
def longestZeros (hextets : List ℕ) : ℕ × ℕ :=
  (List.range hextets.length).foldl (fun best i =>
    let run := ((hextets.drop i).takeWhile (· = 0)).length
    if best.2 < run then (i, run) else best) (0, 0)

/-- `_string_from_ip_int`, with `_compress_hextets`. -/
def ipv6StrOfInt (n : ℕ) : Text :=
  let hextets := (List.range 8).map fun i => n / 0x10000 ^ (7 - i) % 0x10000
  let best := longestZeros hextets
  let texts := hextets.map hexText
  [':'].intercalate
    (if 1 < best.2 then
      (if best.1 = 0 then [[]] else []) ++ texts.take best.1 ++ [[]] ++
        texts.drop (best.1 + best.2) ++ (if best.1 + best.2 = 8 then [[]] else [])
    else texts)

/-- An address that maps one of version 4 ends in its dotted text. -/
def ipv6Str (ip : BitVec 128) (scopeId : Option Text) : Text :=
  (if ip.toNat / 0x100000000 = 0xffff then
      ipv6StrOfInt 0xffff ++ ':' :: ipv4Str (BitVec.ofNat 32 ip.toNat)
    else ipv6StrOfInt ip.toNat) ++
  (match scopeId with
    | some scope => '%' :: scope
    | none => [])

def IpAddress.str : IpAddress → Text
  | .v4 ip => ipv4Str ip
  | .v6 ip scopeId => ipv6Str ip scopeId

theorem ipAddress_nil : ipAddress [] = none := by decide

example : (ipAddress "FE80::1:0%eth0".toList).map IpAddress.str = some "fe80::1:0%eth0".toList := by
  decide +kernel
example : ipAddress "010.0.0.1".toList = none := by decide +kernel

end PyText
