import ZaqorinCore.Agent.Decode
import ZaqorinCore.Agent.Engine
import ZaqorinCore.Base.Probe
import ZaqorinCore.Text.Search

/-!
# The protocol state machine

`pkg/efsm`: each connection has a record in an open-addressed table, and `feed` advances the
record by one packet and emits engine events. `serve` is what happens to the record alone; `feed`
finds the record, serves the packet and writes the record back. The lock is held for the lookup
only, and the agent feeds packets one after the other.
-/

namespace ZaqorinCore.Agent.Efsm

open ZaqorinCore.Base ZaqorinCore.Text ZaqorinCore.Agent.Decode ZaqorinCore.Agent.Engine

/-- `ConnKey` -/
abbrev ConnKey := UInt32

inductive ConnState
  | init
  | httpRequest
  | httpHeaders
  | httpBody
  | wsFrame
  | closed
  deriving DecidableEq, Repr

structure ConnRecord where
  key : ConnKey := 0
  used : Bool := false
  state : ConnState := .init
  method : Bytes := List.replicate 8 0
  path : Bytes := List.replicate 128 0
  bodyLen : UInt32 := 0
  deriving DecidableEq, Repr

inductive Fault
  | malformedInput
  | unknownProtocol
  | tableFull
  deriving DecidableEq, Repr

def Fault.text : Fault → String
  | malformedInput => "efsm: malformed input"
  | unknownProtocol => "efsm: unknown L7 protocol"
  | tableFull => "efsm: connection table full"

/-- What a call shows: the events it emits, and the two values it returns. -/
structure Output where
  events : List Event
  count : Nat
  fault : Option Fault
  deriving DecidableEq, Repr

inductive Proto
  | unknown
  | http
  | ws
  deriving DecidableEq, Repr

/-- `classify`. Port 22 and DNS are unknown, like every other port. -/
def classify (ev : L4Event) : Proto :=
  if ev.dstPort = 80 ∨ ev.dstPort = 8080 ∨ ev.dstPort = 8000 then .http
  else if ev.dstPort = 443 then .ws
  else .unknown

/-! ## HTTP -/

def requestMethods : List Bytes :=
  [lit "GET ", lit "POST ", lit "PUT ", lit "DELETE ", lit "HEAD ", lit "OPTIONS ", lit "PATCH ",
    lit "CONNECT "]

def looksLikeHTTPRequestLine (b : Bytes) : Bool := requestMethods.any fun m => m.isPrefixOf b

def space : UInt8 := 32
def carriageReturn : UInt8 := 13

/-- The loop over the digits of a length, in the arithmetic of `uint32`; `none` at the first byte
that is no digit. -/
def readDigits : UInt32 → Bytes → Option UInt32
  | n, [] => some n
  | n, c :: rest =>
    if c < 48 ∨ 57 < c then none else readDigits (n * 10 + (c - 48).toUInt32) rest

/-- The bytes of the `Content-Length` value, up to the carriage return. -/
inductive LengthField
  | absent
  | cut
  | value (digits : Bytes)
  deriving DecidableEq, Repr

def lengthField (payload : Bytes) : LengthField :=
  match indexOf (lit "Content-Length: ") payload with
  | none => .absent
  | some i =>
    let after := payload.drop (i + 16)
    match indexByte carriageReturn after with
    | none => .cut
    | some stop => .value (after.take stop)

/-- The end of the header block moves the connection to its body. -/
def endHeaders (record : ConnRecord) (payload : Bytes) : ConnRecord :=
  if (indexOf (lit "\r\n\r\n") payload).isSome then { record with state := .httpBody } else record

/-- The case of `connHTTPHeaders`, with the events emitted before the fall-through. -/
def feedHeaders (record : ConnRecord) (payload : Bytes) (emitted : List Event) :
    ConnRecord × Output :=
  match lengthField payload with
  | .cut => (record, ⟨emitted, emitted.length, none⟩)
  | .absent => (endHeaders record payload, ⟨emitted, emitted.length, none⟩)
  | .value digits =>
    match readDigits 0 digits with
    | none => (record, ⟨emitted, emitted.length, some .malformedInput⟩)
    | some n =>
      (endHeaders { record with bodyLen := n, state := .httpBody } payload,
        ⟨emitted, emitted.length, none⟩)

/-- The case of `connInit` and `connHTTPRequest`. -/
def feedRequest (record : ConnRecord) (payload : Bytes) : ConnRecord × Output :=
  if ¬ looksLikeHTTPRequestLine payload then
    ({ record with state := .closed },
      ⟨[{ kind := eventHTTPRequest, subject := record.key,
          payload0 := UInt32.ofNat payload.length }], 1, none⟩)
  else
    match indexByte space payload with
    | none => (record, ⟨[], 0, some .malformedInput⟩)
    | some sp =>
      if 8 < sp then (record, ⟨[], 0, some .malformedInput⟩)
      else
        let record := { record with method := copyAt record.method 0 (payload.take sp) }
        let rest := payload.drop (sp + 1)
        match indexByte space rest with
        | none => (record, ⟨[], 0, some .malformedInput⟩)
        | some sp2 =>
          let pathLen := min sp2 128
          let record :=
            { record with path := copyAt record.path 0 (rest.take pathLen), state := .httpHeaders }
          feedHeaders record payload
            [{ kind := eventCanaryTouch, subject := record.key, payload0 := UInt32.ofNat sp,
               payload1 := UInt32.ofNat pathLen }]

def feedHTTP (record : ConnRecord) (ev : L4Event) : ConnRecord × Output :=
  if ev.payload = [] then (record, ⟨[], 0, none⟩)
  else
    match record.state with
    | .init => feedRequest record ev.payload
    | .httpRequest => feedRequest record ev.payload
    | .httpHeaders => feedHeaders record ev.payload []
    | .httpBody =>
      if ev.isFIN then
        ({ record with state := .closed },
          ⟨[{ kind := eventHTTPRequest, subject := record.key, payload0 := record.bodyLen }], 1,
            none⟩)
      else (record, ⟨[], 0, none⟩)
    | .wsFrame => (record, ⟨[], 0, none⟩)
    | .closed => (record, ⟨[], 0, none⟩)

/-! ## WebSocket -/

def feedWS (record : ConnRecord) (ev : L4Event) : ConnRecord × Output :=
  if ev.payload.length < 2 then (record, ⟨[], 0, none⟩)
  else
    let opcode := ev.payload.headD 0 &&& 0x0F
    ({ record with state := .wsFrame },
      ⟨[{ kind := eventWebSocketFrame, subject := record.key, payload0 := opcode.toUInt32,
          payload1 := UInt32.ofNat ev.payload.length }], 1, none⟩)

/-! ## The table -/

def tableSize : Nat := 1024

theorem tableSize_pos : 0 < tableSize := by decide

abbrev Table := Fin tableSize → ConnRecord

/-- The zero value of the table. -/
def emptyTable : Table := fun _ => {}

/-- The key that a slot is used for. -/
def taken (t : Table) (s : Fin tableSize) : Option ConnKey :=
  if (t s).used then some (t s).key else none

/-- The slot where the probing for a key stops. -/
@[irreducible]
def slotOf (t : Table) (key : ConnKey) : Option (Fin tableSize) :=
  locate (taken t) tableSize_pos (fun k => k.toNat % tableSize) key

/-- The record that `lookupOrCreate` returns for a slot. -/
def claimed (record : ConnRecord) (key : ConnKey) : ConnRecord :=
  if record.used then record else { record with key := key, used := true, state := .init }

/-- The packet goes to the record of its connection. -/
def carriesL7 (ev : L4Event) : Bool :=
  (ev.l4Proto == l4TCP || ev.l4Proto == l4UDP) && classify ev != .unknown

/-- The last switch of `Feed`. -/
def feedProto (record : ConnRecord) (ev : L4Event) : ConnRecord × Output :=
  match classify ev with
  | .http => feedHTTP record ev
  | .ws => feedWS record ev
  | .unknown => (record, ⟨[], 0, some .unknownProtocol⟩)

/-- The event for traffic of no known protocol. -/
def sawTraffic (conn : ConnKey) (ev : L4Event) : Event :=
  { kind := eventTCPSYN, subject := conn, payload0 := ev.timestampNS.toUInt32 }

/-- `Feed` -/
def feed (t : Table) (conn : ConnKey) (ev : L4Event) : Table × Output :=
  if ev.l4Proto ≠ l4TCP ∧ ev.l4Proto ≠ l4UDP then (t, ⟨[], 0, none⟩)
  else if classify ev = .unknown then (t, ⟨[sawTraffic conn ev], 1, none⟩)
  else
    match slotOf t conn with
    | none => (t, ⟨[], 0, some .tableFull⟩)
    | some s =>
      let (record, out) := feedProto (claimed (t s) conn) ev
      (Function.update t s record, out)

end ZaqorinCore.Agent.Efsm
