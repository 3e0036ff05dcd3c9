import ZaqorinCore.Base.Layout
import ZaqorinCore.Text.Bytes

/-!
# The decoder of wire events

`pkg/decode`: `parse` reads the 58-byte header and the payload behind it, by the offsets of the
source. `encode` writes a packet in the format that the package comment documents. The header has
room for an IPv4 pair and an IPv6 pair of addresses; the bytes that a packet does not define (the
pair it does not use, the padding) are arbitrary. `parse_encode_iff` says which packets come back.
-/

namespace ZaqorinCore.Agent.Decode

open ZaqorinCore.Base ZaqorinCore.Text

def l3IPv4 : UInt8 := 4
def l3IPv6 : UInt8 := 6

def l4ICMP : UInt8 := 1
def l4TCP : UInt8 := 6
def l4UDP : UInt8 := 17
def l4ICMPv6 : UInt8 := 58

def wireSize : Nat := 58

inductive Fault
  | shortWire
  | unsupportedL3
  | unsupportedL4
  deriving DecidableEq, Repr

def Fault.text : Fault → String
  | shortWire => "decode: wire shorter than 58 bytes"
  | unsupportedL3 => "decode: unsupported L3 protocol"
  | unsupportedL4 => "decode: unsupported L4 protocol"

/-- A decoded event; the addresses are arrays of 16 bytes. -/
structure L4Event where
  srcIP : Bytes := List.replicate 16 0
  dstIP : Bytes := List.replicate 16 0
  srcPort : UInt16 := 0
  dstPort : UInt16 := 0
  l3Proto : UInt8 := 0
  l4Proto : UInt8 := 0
  tcpFlags : UInt8 := 0
  payloadLen : UInt16 := 0
  timestampNS : UInt64 := 0
  payload : Bytes := []
  deriving DecidableEq, Repr

def tcpFlagFIN : UInt8 := 0x01

def L4Event.isFIN (ev : L4Event) : Bool := ev.l4Proto == l4TCP && ev.tcpFlags &&& tcpFlagFIN != 0

/-! ## Parsing -/

/-- `b[lo:hi]` -/
def slice (b : Bytes) (lo hi : Nat) : Bytes := (b.drop lo).take (hi - lo)

/-- `copy(dst[at:], src)` -/
def copyAt (dst : Bytes) (start : Nat) (src : Bytes) : Bytes :=
  dst.take start ++ src.take (dst.length - start) ++ dst.drop (start + src.length)

/-- The address in the first four bytes and, for IPv6, eight bytes of the long form behind it. -/
def readIP (l3Proto : UInt8) (short long : Bytes) : Bytes :=
  let ip := copyAt (List.replicate 16 0) 0 short
  if l3Proto = l3IPv6 then copyAt ip 4 long else ip

def parse (wire : Bytes) : Except Fault L4Event :=
  if wire.length < wireSize then .error .shortWire
  else
    let l3Proto := wire.getD 44 0
    let l4Proto := wire.getD 45 0
    let payloadLen := UInt16.ofNat (beNat (slice wire 48 50))
    if l3Proto ≠ l3IPv4 ∧ l3Proto ≠ l3IPv6 then .error .unsupportedL3
    else if l4Proto ≠ l4TCP ∧ l4Proto ≠ l4UDP ∧ l4Proto ≠ l4ICMP ∧ l4Proto ≠ l4ICMPv6 then
      .error .unsupportedL4
    else
      let plen := min payloadLen.toNat (wire.length - wireSize)
      .ok
        { srcIP := readIP l3Proto (slice wire 0 4) (slice wire 8 16)
          dstIP := readIP l3Proto (slice wire 4 8) (slice wire 24 32)
          srcPort := UInt16.ofNat (beNat (slice wire 40 42))
          dstPort := UInt16.ofNat (beNat (slice wire 42 44))
          l3Proto := l3Proto
          l4Proto := l4Proto
          tcpFlags := wire.getD 46 0
          payloadLen := payloadLen
          timestampNS := UInt64.ofNat (beNat (slice wire 50 58))
          payload := slice wire wireSize (wireSize + plen) }

/-! ## The documented format -/

inductive L4
  | tcp
  | udp
  | icmp
  | icmpv6
  deriving DecidableEq, Repr

def L4.code : L4 → UInt8
  | tcp => l4TCP
  | udp => l4UDP
  | icmp => l4ICMP
  | icmpv6 => l4ICMPv6

/-- Source and destination, of one family. -/
inductive Addresses
  | v4 (src dst : List.Vector UInt8 4)
  | v6 (src dst : List.Vector UInt8 16)

/-- What the kernel side reports. -/
structure Packet where
  addresses : Addresses
  srcPort : UInt16
  dstPort : UInt16
  l4 : L4
  tcpFlags : UInt8
  timestampNS : UInt64
  payload : Bytes
  payload_le : payload.length ≤ 65535

/-- The bytes of a wire event that its packet does not define. -/
structure Undefined where
  srcV4 : List.Vector UInt8 4
  dstV4 : List.Vector UInt8 4
  srcV6 : List.Vector UInt8 16
  dstV6 : List.Vector UInt8 16
  pad : UInt8
  trailing : Bytes

def Addresses.l3 : Addresses → UInt8
  | v4 _ _ => l3IPv4
  | v6 _ _ => l3IPv6

/-- The four address fields. -/
def Addresses.fields (u : Undefined) : Addresses → Bytes
  | v4 src dst => src.toList ++ dst.toList ++ u.srcV6.toList ++ u.dstV6.toList
  | v6 src dst => u.srcV4.toList ++ u.dstV4.toList ++ src.toList ++ dst.toList

/-- A packet in the wire format. -/
def encode (u : Undefined) (p : Packet) : Bytes :=
  p.addresses.fields u ++ beBytes 2 p.srcPort.toNat ++ beBytes 2 p.dstPort.toNat ++
    [p.addresses.l3, p.l4.code, p.tcpFlags, u.pad] ++ beBytes 2 p.payload.length ++
    beBytes 8 p.timestampNS.toNat ++ p.payload ++ u.trailing

/-- An address as an `L4Event` holds it. -/
def Addresses.decoded : Addresses → Bytes × Bytes
  | v4 src dst => (src.toList ++ List.replicate 12 0, dst.toList ++ List.replicate 12 0)
  | v6 src dst => (src.toList, dst.toList)

/-- The event with exactly the fields of the packet. -/
def Packet.event (p : Packet) : L4Event where
  srcIP := p.addresses.decoded.1
  dstIP := p.addresses.decoded.2
  srcPort := p.srcPort
  dstPort := p.dstPort
  l3Proto := p.addresses.l3
  l4Proto := p.l4.code
  tcpFlags := p.tcpFlags
  payloadLen := UInt16.ofNat p.payload.length
  timestampNS := p.timestampNS
  payload := p.payload

/-! ## Reading the fields back -/

theorem slice_append {pre mid post : Bytes} {lo hi : Nat} (hlo : pre.length = lo)
    (hhi : mid.length = hi - lo) : slice (pre ++ (mid ++ post)) lo hi = mid := by
  rw [slice, List.drop_left' hlo, List.take_left' hhi]

theorem getD_append {pre post : Bytes} {b : UInt8} {i : Nat} (hi : pre.length = i) :
    (pre ++ b :: post).getD i 0 = b := by
  subst hi
  simp [List.getD_eq_getElem?_getD]

theorem toUInt16_beBytes (n : UInt16) : UInt16.ofNat (beNat (beBytes 2 n.toNat)) = n := by
  have hlt : n.toNat < 256 ^ 2 := n.toNat_lt
  rw [beNat_beBytes, Nat.mod_eq_of_lt hlt, UInt16.ofNat_toNat]

theorem toUInt64_beBytes (n : UInt64) : UInt64.ofNat (beNat (beBytes 8 n.toNat)) = n := by
  have hlt : n.toNat < 256 ^ 8 := n.toNat_lt
  rw [beNat_beBytes, Nat.mod_eq_of_lt hlt, UInt64.ofNat_toNat]

theorem length_fields (u : Undefined) (a : Addresses) : (a.fields u).length = 40 := by
  cases a <;> simp [Addresses.fields]

/-- The short and the long form of the two addresses, as the parser slices them. -/
def Addresses.sliced (u : Undefined) : Addresses → (Bytes × Bytes) × Bytes × Bytes
  | v4 src dst => ((src.toList, u.srcV6.toList.take 8), dst.toList, u.dstV6.toList.take 8)
  | v6 src dst => ((u.srcV4.toList, src.toList.take 8), u.dstV4.toList, dst.toList.take 8)

theorem slice_of_append {front rest : Bytes} {lo hi : Nat} (hhi : hi ≤ front.length) :
    slice (front ++ rest) lo hi = slice front lo hi := by
  unfold slice
  by_cases hlo : lo ≤ front.length
  · rw [List.drop_append_of_le_length hlo, List.take_append_of_le_length]
    rw [List.length_drop]
    omega
  · have hzero : hi - lo = 0 := by omega
    simp [hzero]

theorem take_toList {n k : Nat} (v : List.Vector UInt8 n) (h : n ≤ k) :
    v.toList.take k = v.toList :=
  List.take_of_length_le (by rw [v.toList_length]; exact h)

theorem drop_toList {n k : Nat} (v : List.Vector UInt8 n) (h : n ≤ k) : v.toList.drop k = [] :=
  List.drop_eq_nil_of_le (by rw [v.toList_length]; exact h)

theorem slices_fields (u : Undefined) (a : Addresses) :
    slice (a.fields u) 0 4 = (a.sliced u).1.1 ∧ slice (a.fields u) 8 16 = (a.sliced u).1.2 ∧
      slice (a.fields u) 4 8 = (a.sliced u).2.1 ∧ slice (a.fields u) 24 32 = (a.sliced u).2.2 := by
  cases a with
  | v4 src dst =>
    simp [Addresses.fields, Addresses.sliced, slice, List.drop_append, List.take_append,
      drop_toList]
  | v6 src dst =>
    simp [Addresses.fields, Addresses.sliced, slice, List.drop_append, List.take_append,
      drop_toList]

/-- The event that the parser makes of a packet: every field but the addresses is right. -/
theorem parse_encode (u : Undefined) (p : Packet) :
    parse (encode u p) = .ok { p.event with
      srcIP := readIP p.addresses.l3 (p.addresses.sliced u).1.1 (p.addresses.sliced u).1.2
      dstIP := readIP p.addresses.l3 (p.addresses.sliced u).2.1 (p.addresses.sliced u).2.2 } := by
  obtain ⟨addresses, srcPort, dstPort, l4, flags, timestamp, payload, hpayload⟩ := p
  have hfields := length_fields u addresses
  have h2 : ∀ n, (beBytes 2 n).length = 2 := beBytes_length 2
  have h8 : ∀ n, (beBytes 8 n).length = 8 := beBytes_length 8
  generalize hwire : encode u ⟨addresses, srcPort, dstPort, l4, flags, timestamp, payload,
    hpayload⟩ = wire
  simp only [encode, List.append_assoc] at hwire
  have hlen : wire.length = 58 + payload.length + u.trailing.length := by
    rw [← hwire]
    simp only [List.length_append, hfields, h2, h8, List.length_cons, List.length_nil]
    omega
  -- each field is the part of the wire between its offsets
  have haddr : ∀ lo hi, hi ≤ 40 → slice wire lo hi = slice (addresses.fields u) lo hi := by
    intro lo hi hle
    rw [← hwire]
    exact slice_of_append (by omega)
  have hsrc : slice wire 40 42 = beBytes 2 srcPort.toNat := by
    rw [← hwire]
    exact slice_append hfields (h2 _)
  have hdst : slice wire 42 44 = beBytes 2 dstPort.toNat := by
    rw [← hwire, ← List.append_assoc]
    exact slice_append (by simp [hfields, h2]) (h2 _)
  let front := addresses.fields u ++ beBytes 2 srcPort.toNat ++ beBytes 2 dstPort.toNat
  let back := beBytes 2 payload.length ++ (beBytes 8 timestamp.toNat ++ (payload ++ u.trailing))
  have hfront : front.length = 44 := by simp [front, hfields, h2]
  have hsplit : wire = front ++ [addresses.l3, l4.code, flags, u.pad] ++ back := by
    rw [← hwire]
    simp [front, back]
  have hl3 : wire.getD 44 0 = addresses.l3 := by
    rw [hsplit, List.append_assoc]
    exact getD_append hfront
  have hl4 : wire.getD 45 0 = l4.code := by
    have hat : wire = (front ++ [addresses.l3]) ++ l4.code :: ([flags, u.pad] ++ back) := by
      simp [hsplit]
    rw [hat]
    exact getD_append (by simp [hfront])
  have hflags : wire.getD 46 0 = flags := by
    have hat : wire = (front ++ [addresses.l3, l4.code]) ++ flags :: ([u.pad] ++ back) := by
      simp [hsplit]
    rw [hat]
    exact getD_append (by simp [hfront])
  have hplen : slice wire 48 50 = beBytes 2 payload.length := by
    rw [hsplit]
    exact slice_append (by simp [hfront]) (h2 _)
  have htime : slice wire 50 58 = beBytes 8 timestamp.toNat := by
    rw [hsplit, ← List.append_assoc]
    exact slice_append (by simp [hfront, h2]) (h8 _)
  have hbody : slice wire wireSize (wireSize + payload.length) = payload := by
    rw [hsplit, ← List.append_assoc, ← List.append_assoc]
    refine slice_append ?_ ?_
    · simp [hfront, h2, h8, wireSize]
    · omega
  obtain ⟨h₁, h₂, h₃, h₄⟩ := slices_fields u addresses
  have hcount : beNat (beBytes 2 payload.length) = payload.length := by
    rw [beNat_beBytes]
    exact Nat.mod_eq_of_lt (by omega)
  have hmin : min (UInt16.ofNat payload.length).toNat (wire.length - wireSize) =
      payload.length := by
    rw [UInt16.toNat_ofNat', Nat.mod_eq_of_lt (by omega), hlen, wireSize]
    omega
  have hshort : ¬ wire.length < wireSize := by
    rw [hlen, wireSize]
    omega
  have hknown3 : ¬ (addresses.l3 ≠ l3IPv4 ∧ addresses.l3 ≠ l3IPv6) := by
    cases addresses <;> simp [Addresses.l3]
  have hknown4 : ¬ (l4.code ≠ l4TCP ∧ l4.code ≠ l4UDP ∧ l4.code ≠ l4ICMP ∧ l4.code ≠ l4ICMPv6) := by
    cases l4 <;> simp [L4.code]
  unfold parse
  rw [if_neg hshort]
  simp only [hl3, hl4, hflags, hplen, htime, hsrc, hdst, hcount, hmin, hbody,
    haddr 0 4 (by omega), haddr 8 16 (by omega), haddr 4 8 (by omega), haddr 24 32 (by omega),
    h₁, h₂, h₃, h₄, if_neg hknown3, if_neg hknown4, toUInt16_beBytes, toUInt64_beBytes]
  rfl

/-! ## Which packets come back -/

/-- The only long address that survives: the short field three times, then zeros. -/
def Tripled (short : List.Vector UInt8 4) (long : List.Vector UInt8 16) : Prop :=
  long.toList = short.toList ++ short.toList ++ short.toList ++ List.replicate 4 0

/-- The packet is IPv4, or its addresses are made of what stands in the unused IPv4 fields. -/
def Packet.Survives (u : Undefined) (p : Packet) : Prop :=
  match p.addresses with
  | .v4 _ _ => True
  | .v6 src dst => Tripled u.srcV4 src ∧ Tripled u.dstV4 dst

theorem readIP_v4 (short : List.Vector UInt8 4) (long : Bytes) :
    readIP l3IPv4 short.toList long = short.toList ++ List.replicate 12 0 := by
  have hne : l3IPv4 ≠ l3IPv6 := by decide
  simp [readIP, copyAt, hne]

/-- Of a long address the first eight bytes are read, four places too far. -/
theorem readIP_v6 (short : List.Vector UInt8 4) (long : List.Vector UInt8 16) :
    readIP l3IPv6 short.toList (long.toList.take 8) =
      short.toList ++ long.toList.take 8 ++ List.replicate 4 0 := by
  have height : (long.toList.take 8).take 12 = long.toList.take 8 := by
    rw [List.take_take]
    rfl
  simp [readIP, copyAt, List.drop_append, take_toList short, drop_toList short, height]

theorem readIP_v6_eq_iff (short : List.Vector UInt8 4) (long : List.Vector UInt8 16) :
    readIP l3IPv6 short.toList (long.toList.take 8) = long.toList ↔ Tripled short long := by
  rw [readIP_v6, Tripled]
  constructor
  · intro h
    -- the first four bytes are the short field, and so are the next eight
    have hfour : long.toList.take 4 = short.toList := by
      rw [← h]
      simp
    have height : long.toList.take 8 = short.toList ++ long.toList.take 4 := by
      have htake := congrArg (List.take 8) h
      simpa [List.take_append, List.take_take, take_toList short] using htake.symm
    rw [height, hfour] at h
    rw [← h]
    simp
  · intro h
    have height : long.toList.take 8 = short.toList ++ short.toList := by
      rw [h]
      simp [List.take_append]
    rw [height, h]
    simp

/-- Parsing gives back the packet exactly when it is IPv4, or IPv6 with addresses that repeat the
bytes of the unused fields. -/
theorem parse_encode_iff (u : Undefined) (p : Packet) :
    parse (encode u p) = .ok p.event ↔ p.Survives u := by
  rw [parse_encode, Except.ok.injEq]
  obtain ⟨addresses, srcPort, dstPort, l4, flags, timestamp, payload, hpayload⟩ := p
  cases addresses with
  | v4 src dst =>
    simp [Packet.event, Packet.Survives, Addresses.l3, Addresses.sliced, Addresses.decoded,
      readIP_v4]
  | v6 src dst =>
    simp [Packet.event, Packet.Survives, Addresses.l3, Addresses.sliced, Addresses.decoded,
      readIP_v6_eq_iff]

/-- A SYN from `2001:db8::1` to `2001:db8::2`. -/
def synIPv6 : Packet where
  addresses := .v6 ⟨[0x20, 0x01, 0x0D, 0xB8, 0, 0, 0, 0, 0, 0, 0, 0, 0, 0, 0, 1], rfl⟩
    ⟨[0x20, 0x01, 0x0D, 0xB8, 0, 0, 0, 0, 0, 0, 0, 0, 0, 0, 0, 2], rfl⟩
  srcPort := 1234
  dstPort := 80
  l4 := .tcp
  tcpFlags := 0x02
  timestampNS := 1000
  payload := []
  payload_le := by decide

/-- Zeros wherever the packet defines nothing. -/
def zeroed : Undefined where
  srcV4 := List.Vector.replicate 4 0
  dstV4 := List.Vector.replicate 4 0
  srcV6 := List.Vector.replicate 16 0
  dstV6 := List.Vector.replicate 16 0
  pad := 0
  trailing := []

/-- The first four bytes of an IPv6 address come out as zeros. -/
theorem parse_corrupts_ipv6 : parse (encode zeroed synIPv6) ≠ .ok synIPv6.event := by
  intro h
  rw [parse_encode] at h
  have hip := congrArg L4Event.srcIP (Except.ok.inj h)
  exact absurd hip (by decide)

end ZaqorinCore.Agent.Decode
