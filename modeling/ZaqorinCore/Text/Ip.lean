import ZaqorinCore.Text.Bytes

/-!
# IP addresses of Python

`ipaddress.ip_address` on texts, and membership in a network. The scope of an IPv6 address is
checked and dropped: no membership test looks at it.
-/

namespace ZaqorinCore.Text

inductive Ip
  | v4 (ip : BitVec 32)
  | v6 (ip : BitVec 128)
  deriving DecidableEq

/-! ## Parsing -/

/-- The number that the digits stand for. -/
def digitsValue (base : Nat) (s : Str) : Nat :=
  s.foldl (fun n c => base * n +
    if c.isDigit then c.toNat - 48 else if c.isLower then c.toNat - 87 else c.toNat - 55) 0

/-- `_parse_octet`. -/
def parseOctet (s : Str) : Option Nat :=
  if s = [] ∨ ¬ s.all Char.isDigit ∨ 3 < s.length then none
  else if s ≠ ['0'] ∧ s.head? = some '0' then none
  else if 255 < digitsValue 10 s then none
  else some (digitsValue 10 s)

/-- `IPv4Address(s)`. -/
def ipv4Address (s : Str) : Option (BitVec 32) :=
  if '/' ∈ s then none
  else match s.splitOn '.' with
    | [a, b, c, d] => do
      let a ← parseOctet a
      let b ← parseOctet b
      let c ← parseOctet c
      let d ← parseOctet d
      some (BitVec.ofNat 32 (((a * 256 + b) * 256 + c) * 256 + d))
    | _ => none

def isHexDigit (c : Char) : Bool :=
  c.isDigit || ('a' ≤ c && c ≤ 'f') || ('A' ≤ c && c ≤ 'F')

/-- `_parse_hextet`. -/
def parseHextet (s : Str) : Option Nat :=
  if s = [] ∨ ¬ s.all isHexDigit ∨ 4 < s.length then none else some (digitsValue 16 s)

/-- The groups one after the other. -/
def hextets (parts : List Str) : Option (List Nat) := parts.mapM parseHextet

/-- The suffix in dotted form, as two groups. -/
def expandSuffix (parts : List Str) : Option (List Str) :=
  match parts.getLast? with
  | none => some parts
  | some last =>
    if '.' ∈ last then
      (ipv4Address last).map fun (ip : BitVec 32) =>
        parts.dropLast ++
          [Nat.toDigits 16 (ip >>> 16).toNat, Nat.toDigits 16 (ip &&& 0xFFFF#32).toNat]
    else some parts

/-- The indices of empty groups that are not at an end. -/
def skipIndices (parts : List Str) : List Nat :=
  (List.range' 1 (parts.length - 2)).filter fun i => parts[i]? == some []

/-- How many groups stand before and after the skipped ones. -/
def hextetCounts (parts : List Str) : Option (Nat × Nat) :=
  let leading := parts.head? == some []
  let trailing := parts.getLast? == some []
  match skipIndices parts with
  | [] => if parts.length ≠ 8 ∨ leading ∨ trailing then none else some (8, 0)
  | [i] =>
    let hi := if leading then i - 1 else i
    let lo := if trailing then parts.length - i - 2 else parts.length - i - 1
    if (leading ∧ hi ≠ 0) ∨ (trailing ∧ lo ≠ 0) ∨ 8 ≤ hi + lo then none else some (hi, lo)
  | _ => none

/-- `IPv6Address._ip_int_from_string`. -/
def ipv6Int (s : Str) : Option (BitVec 128) := do
  let parts := s.splitOn ':'
  if s = [] ∨ parts.length < 3 then none
  else
    let parts ← expandSuffix parts
    if 9 < parts.length then none
    else
      let (hi, lo) ← hextetCounts parts
      let high ← hextets (parts.take hi)
      let low ← hextets (parts.drop (parts.length - lo))
      let join := fun n (h : Nat) => 65536 * n + h
      some (BitVec.ofNat 128 (low.foldl join (high.foldl join 0 * 65536 ^ (8 - (hi + lo)))))

/-- `IPv6Address(s)`. -/
def ipv6Address (s : Str) : Option (BitVec 128) :=
  let scope := (s.dropWhile (· != '%')).drop 1
  if '/' ∈ s then none
  else if '%' ∈ s ∧ (scope = [] ∨ '%' ∈ scope) then none
  else ipv6Int (s.takeWhile (· != '%'))

/-- `ipaddress.ip_address(s)`. -/
def ipAddress (s : Str) : Option Ip :=
  ((ipv4Address s).map Ip.v4).or ((ipv6Address s).map Ip.v6)

example : ipAddress "192.168.0.1".toList = some (.v4 0xC0A80001#32) := by decide +kernel

example : ipAddress "::ffff:127.0.0.1".toList = some (.v6 0xFFFF7F000001#128) := by decide +kernel

example : ipAddress "fe80::1%eth0".toList = some (.v6 (0xFE80#128 <<< 112 ||| 1#128)) := by
  decide +kernel

/-! ## Networks -/

/-- `ip_network` of an address and the length of its mask. -/
structure Network where
  address : Ip
  length : Nat

/-- The mask with the given number of leading ones. -/
def netmask (width length : Nat) : BitVec width := BitVec.allOnes width <<< (width - length)

/-- `ip in net`. -/
def Network.contains (net : Network) : Ip → Bool
  | .v4 ip => match net.address with
    | .v4 address => ip &&& netmask 32 net.length == address
    | .v6 _ => false
  | .v6 ip => match net.address with
    | .v4 _ => false
    | .v6 address => ip &&& netmask 128 net.length == address

/-- The IPv4 address that an IPv4-mapped address (`::ffff:a.b.c.d`) stands for. -/
def Ip.mapped : Ip → Option Ip
  | .v4 _ => none
  | .v6 ip => if ip >>> 32 = 0xFFFF#128 then some (.v4 (ip.setWidth 32)) else none

end ZaqorinCore.Text
