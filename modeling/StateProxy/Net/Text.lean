import StateProxy.Net
import StateProxy.ProofKit.Numeral

/-! The texts of network addresses: how the standard library reads and displays them.  A reader takes
what it reads from the front of a text and returns the rest of it. -/

namespace StateProxy.Net

open ProofKit

/-- `read_number`, for a type with `bound` values. -/
def readNumber (radix : Nat) (maxDigits : Option Nat) (allowZeroPrefix : Bool) (bound : Nat)
    (text : List Char) : Option (Nat × List Char) :=
  let (digits, rest) := readDigits (toDigit radix) text
  if digits = [] then none
  else if maxDigits.any (· < digits.length) then none
  else if !allowZeroPrefix && text.head? = some '0' && 1 < digits.length then none
  else if ofDigits radix digits < bound then some (ofDigits radix digits, rest)
  else none

/-- `read_given_char`. -/
def readGivenChar (target : Char) : List Char → Option (List Char)
  | [] => none
  | c :: text => if c = target then some text else none

/-- `read_separator`: the separator stands before every item but the first. -/
def readSeparator {α : Type} (separator : Char) (index : Nat)
    (inner : List Char → Option (α × List Char)) (text : List Char) : Option (α × List Char) :=
  if 0 < index then (readGivenChar separator text).bind inner else inner text

def readOctet (index : Nat) (text : List Char) : Option (UInt8 × List Char) :=
  (readSeparator '.' index (readNumber 10 (some 3) false 256) text).map fun (n, rest) =>
    (UInt8.ofNat n, rest)

/-- `read_ipv4_addr`. -/
def readIpv4Addr (text : List Char) : Option (Ipv4Addr × List Char) := do
  let (a, text) ← readOctet 0 text
  let (b, text) ← readOctet 1 text
  let (c, text) ← readOctet 2 text
  let (d, text) ← readOctet 3 text
  some (⟨a, b, c, d⟩, text)

/-- The segment of two octets. -/
def segment (high low : UInt8) : UInt16 :=
  UInt16.ofNat (high.toNat * 256 + low.toNat)

/-- The loop of `read_groups`, at the group with the given index: the groups that are read, whether
the last two of them are an IPv4 address, and the rest of the text. -/
def readGroups : Nat → Nat → List Char → List UInt16 × Bool × List Char
  | 0, _, text => ([], false, text)
  | remaining + 1, index, text =>
    match if 0 < remaining then readSeparator ':' index readIpv4Addr text else none with
    | some (ip, rest) => ([segment ip.a ip.b, segment ip.c ip.d], true, rest)
    | none =>
      match readSeparator ':' index (readNumber 16 (some 4) true 65536) text with
      | none => ([], false, text)
      | some (group, rest) =>
        let (groups, ipv4, rest) := readGroups remaining (index + 1) rest
        (UInt16.ofNat group :: groups, ipv4, rest)

def Ipv6Addr.ofSegments (s : List UInt16) : Ipv6Addr :=
  ⟨s.getD 0 0, s.getD 1 0, s.getD 2 0, s.getD 3 0, s.getD 4 0, s.getD 5 0, s.getD 6 0, s.getD 7 0⟩

/-- `read_ipv6_addr`. -/
def readIpv6Addr (text : List Char) : Option (Ipv6Addr × List Char) :=
  let (head, headIpv4, rest) := readGroups 8 0 text
  if head.length = 8 then some (.ofSegments head, rest)
  else if headIpv4 then none
  else do
    let rest ← readGivenChar ':' rest
    let rest ← readGivenChar ':' rest
    let (tail, _, rest) := readGroups (8 - (head.length + 1)) 0 rest
    let zeros := List.replicate (8 - head.length - tail.length) 0
    some (.ofSegments (head ++ zeros ++ tail), rest)

/-- `read_ip_addr`. -/
def readIpAddr (text : List Char) : Option (IpAddr × List Char) :=
  match readIpv4Addr text with
  | some (ip, rest) => some (.v4 ip, rest)
  | none => (readIpv6Addr text).map fun (ip, rest) => (.v6 ip, rest)

/-- A reader that has to read the whole text. -/
def parseWith {α : Type} (inner : List Char → Option (α × List Char)) (text : String) : Option α :=
  match inner text.toList with
  | some (value, []) => some value
  | _ => none

/-- `str::parse`, for an IP address. -/
def parseIpAddr (text : String) : Option IpAddr :=
  parseWith readIpAddr text

example : parseIpAddr "10.0.0.1" = some (.v4 ⟨10, 0, 0, 1⟩) := by decide

example : parseIpAddr "fe80::1:10.0.0.1" = some (.v6 ⟨0xfe80, 0, 0, 0, 0, 1, 0x0a00, 1⟩) := by decide

example : parseIpAddr "10.0.0.01" = none := by decide

/-- `read_port`. -/
def readPort (text : List Char) : Option (UInt16 × List Char) := do
  let text ← readGivenChar ':' text
  let (port, text) ← readNumber 10 none true 65536 text
  some (UInt16.ofNat port, text)

/-- `read_scope_id`. -/
def readScopeId (text : List Char) : Option (UInt32 × List Char) := do
  let text ← readGivenChar '%' text
  let (scopeId, text) ← readNumber 10 none true 4294967296 text
  some (UInt32.ofNat scopeId, text)

/-- `read_socket_addr_v4`. -/
def readSocketAddrV4 (text : List Char) : Option (SocketAddr × List Char) := do
  let (ip, text) ← readIpv4Addr text
  let (port, text) ← readPort text
  some (.v4 ip port, text)

/-- `read_socket_addr_v6`. -/
def readSocketAddrV6 (text : List Char) : Option (SocketAddr × List Char) := do
  let text ← readGivenChar '[' text
  let (ip, text) ← readIpv6Addr text
  let (scopeId, text) := (readScopeId text).getD (0, text)
  let text ← readGivenChar ']' text
  let (port, text) ← readPort text
  some (.v6 ip port 0 scopeId, text)

/-- `read_socket_addr`. -/
def readSocketAddr (text : List Char) : Option (SocketAddr × List Char) :=
  (readSocketAddrV4 text).or (readSocketAddrV6 text)

/-- `str::parse`, for a socket address. -/
def parseSocketAddr (text : String) : Option SocketAddr :=
  parseWith readSocketAddr text

/-! ### How addresses are displayed -/

def Ipv4Addr.display (ip : Ipv4Addr) : List Char :=
  numeral 10 ip.a.toNat ++ '.' :: (numeral 10 ip.b.toNat ++ '.' :: (numeral 10 ip.c.toNat ++
    '.' :: numeral 10 ip.d.toNat))

def Ipv6Addr.segments (ip : Ipv6Addr) : List UInt16 :=
  [ip.s0, ip.s1, ip.s2, ip.s3, ip.s4, ip.s5, ip.s6, ip.s7]

/-- `to_ipv4_mapped`. -/
def Ipv6Addr.toIpv4Mapped (ip : Ipv6Addr) : Option Ipv4Addr :=
  if ip.s0 = 0 ∧ ip.s1 = 0 ∧ ip.s2 = 0 ∧ ip.s3 = 0 ∧ ip.s4 = 0 ∧ ip.s5 = 0xffff then
    some ⟨(ip.s6 >>> 8).toUInt8, ip.s6.toUInt8, (ip.s7 >>> 8).toUInt8, ip.s7.toUInt8⟩
  else none

structure Span where
  start : Nat
  len : Nat
deriving DecidableEq

/-- The loop that finds the longest run of zero segments, at the segment with the given index. -/
def findZeroes (index : Nat) (current longest : Span) : List UInt16 → Span
  | [] => longest
  | segment :: segments =>
    if segment = 0 then
      let current : Span := ⟨if current.len = 0 then index else current.start, current.len + 1⟩
      findZeroes (index + 1) current (if longest.len < current.len then current else longest) segments
    else findZeroes (index + 1) ⟨0, 0⟩ longest segments

/-- `fmt_subslice`. -/
def displayChunk : List UInt16 → List Char
  | [] => []
  | first :: tail =>
    numeral 16 first.toNat ++ tail.flatMap fun segment => ':' :: numeral 16 segment.toNat

def Ipv6Addr.display (ip : Ipv6Addr) : List Char :=
  match ip.toIpv4Mapped with
  | some ipv4 => ':' :: ':' :: (numeral 16 0xffff ++ ':' :: ipv4.display)
  | none =>
    let zeroes := findZeroes 0 ⟨0, 0⟩ ⟨0, 0⟩ ip.segments
    if 1 < zeroes.len then
      displayChunk (ip.segments.take zeroes.start) ++
        ':' :: ':' :: displayChunk (ip.segments.drop (zeroes.start + zeroes.len))
    else displayChunk ip.segments

/-- `Display`, for a socket address.  The flow information of an IPv6 address is not in the text. -/
def SocketAddr.display : SocketAddr → List Char
  | .v4 ip port => ip.display ++ ':' :: numeral 10 port.toNat
  | .v6 ip port _ scopeId =>
    '[' :: (ip.display ++ ((if scopeId = 0 then [] else '%' :: numeral 10 scopeId.toNat) ++
      ']' :: ':' :: numeral 10 port.toNat))

example : (SocketAddr.v6 ⟨0xfe80, 0, 0, 0, 0, 0, 0, 1⟩ 80 0 2).display = "[fe80::1%2]:80".toList := by
  decide

end StateProxy.Net
