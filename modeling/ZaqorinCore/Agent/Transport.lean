import ZaqorinCore.Base.Run
import ZaqorinCore.Agent.Command

/-!
# The agent's connection

`Client` of `transport.go`: the `Run` loop with its connections, the read pump's
acknowledgements, the heartbeat, any number of concurrent `Send` calls and `Close`. A write
under `writeMu` is one action; so is each access to `c.conn` under `mu`. What the server sends
and which writes fail are part of the actions. A heartbeat is a WebSocket control frame, not a
frame of the protocol, so only its failure has an effect here; back-off delays are left out.

`writes` records the frames written on each connection, oldest first.
-/

namespace ZaqorinCore.Agent

open Text Base

namespace Transport

/-- The fields of `transport.Config` that decide what is written. -/
structure Config where
  serverURL : Bytes
  sharedSecret : Bytes

def isLoopbackWS (raw : Bytes) : Bool :=
  let raw := toLower raw
  (lit "ws://127.0.0.1:").isPrefixOf raw || (lit "ws://localhost:").isPrefixOf raw ||
    (lit "ws://[::1]:").isPrefixOf raw

/-- The text frames the agent writes. -/
inductive Frame
  | hello (nonce sig : Bytes)
  | event (id : Bytes)
  | ack (id status error : Bytes)
  | bye (reason : Bytes)
  deriving DecidableEq

/-- A decoded `challengeFrame`. -/
structure Challenge where
  type : Bytes
  nonce : Bytes
  v : Int

abbrev ConnId := Nat

/-- Where `Run` stands. -/
inductive Loop
  | top
  | dialed (c : ConnId)
  | authenticating (c : ConnId)
  | greeting (c : ConnId) (nonce sig : Bytes)
  | serving (c : ConnId)
  | parting (c : ConnId)
  | closing (c : ConnId) (canceled : Bool)
  | stopped
  deriving DecidableEq

/-- The read pump runs until its connection is closed. -/
def Loop.pumps : Loop → Bool
  | .serving _ | .parting _ | .closing _ true => true
  | _ => false

/-- Where the read pump stands: it has an acknowledgement to write or none. -/
inductive Pump
  | reading
  | acking (id status error : Bytes)
  deriving DecidableEq

/-- Where a `Send` call stands: past the check of `closed`, holding what `getConn` returned, or
done. -/
inductive SendPc
  | checked
  | holding (c : ConnId)
  | done
  deriving DecidableEq

structure Client where
  conn : Option ConnId
  closed : Bool
  /-- `Close` has set `closed` and has yet to take the connection -/
  taking : Bool
  loop : Loop
  pump : Pump
  sends : Nat → Option (Bytes × SendPc)
  /-- the connections dialed so far are the numbers below -/
  dialed : Nat
  isOpen : ConnId → Bool
  writes : ConnId → List Frame

inductive Act
  | dial (ok canceled : Bool)
  | publish
  | challenge (message : Option Challenge)
  | sendHello (ok : Bool)
  | command (id status error : Bytes)
  | sendAck (ok : Bool)
  | readError
  | cancel
  | sendBye (ok : Bool)
  | heartbeat (ok : Bool)
  | closeConn
  | send (i : Nat) (event : Bytes)
  | getConn (i : Nat)
  | write (i : Nat) (ok : Bool)
  | close
  | takeConn

namespace Client

def new : Client :=
  ⟨none, false, false, .top, .reading, fun _ => none, 0, fun _ => false, fun _ => []⟩

/-- `WriteJSON` of a frame; its callers here ask whether the connection is open. -/
def write (s : Client) (c : ConnId) (frame : Frame) : Client :=
  { s with writes := Function.update s.writes c (s.writes c ++ [frame]) }

/-- A write to what `getConn` returns: nothing without a connection. -/
def writeCurrent (s : Client) (frame : Frame) (ok : Bool) : Client :=
  match s.conn with
  | none => s
  | some c => if ok && s.isOpen c then s.write c frame else s

def shut (s : Client) (c : ConnId) : Client :=
  { s with isOpen := Function.update s.isOpen c false }

/-- `hex.EncodeToString` of the HMAC of the nonce. -/
def handshakeSig (cfg : Config) (nonce : Bytes) : Bytes :=
  utf8 (hexdigest (hmacSha256 cfg.sharedSecret nonce))

/-- The checks of `authenticate` on a challenge. -/
def challengeOk (challenge : Challenge) : Bool :=
  challenge.type == lit "challenge" && challenge.v == 2 && challenge.nonce.length == 64 &&
    (decodeString challenge.nonce).isSome

/-- `authenticate` up to `sendHello`. -/
def authenticate (cfg : Config) (s : Client) (c : ConnId) (message : Option Challenge) : Loop :=
  if trimSpace cfg.sharedSecret = [] then
    if isLoopbackWS cfg.serverURL then .greeting c [] [] else .closing c false
  else match s.conn, message with
    | some _, some challenge =>
      if challengeOk challenge then
        .greeting c challenge.nonce (handshakeSig cfg challenge.nonce)
      else .closing c false
    | _, _ => .closing c false

/-- `sendHello`, and what `connectAndServe` makes of its result. -/
def sendHello (s : Client) (c : ConnId) (nonce sig : Bytes) (ok : Bool) : Client :=
  match s.conn with
  | none => { s with loop := .closing c false }
  | some d =>
    if ok && s.isOpen d then { s.write d (.hello nonce sig) with loop := .serving c }
    else { s with loop := .closing c false }

/-! ## Steps -/

def step (cfg : Config) (s : Client) : Act → Option Client
  | .dial ok canceled =>
    match s.loop with
    | .top =>
      if s.closed then some { s with loop := .stopped }
      else if ok then some { s with
        loop := .dialed s.dialed
        dialed := s.dialed + 1
        isOpen := Function.update s.isOpen s.dialed true }
      else if canceled then some { s with loop := .stopped }
      else some s
    | _ => none
  | .publish =>
    match s.loop with
    | .dialed c => some { s with conn := some c, loop := .authenticating c }
    | _ => none
  | .challenge message =>
    match s.loop with
    | .authenticating c => some { s with loop := s.authenticate cfg c message }
    | _ => none
  | .sendHello ok =>
    match s.loop with
    | .greeting c nonce sig => some (s.sendHello c nonce sig ok)
    | _ => none
  | .command id status error =>
    match s.pump with
    | .reading =>
      if !s.loop.pumps then none
      -- `sendAck` refuses any other status
      else if status = lit "applied" ∨ status = lit "failed" then
        some { s with pump := .acking id status error }
      else some s
    | .acking _ _ _ => none
  | .sendAck ok =>
    match s.pump with
    | .acking id status error =>
      some { s.writeCurrent (.ack id status error) ok with pump := .reading }
    | .reading => none
  | .readError =>
    match s.loop, s.pump with
    | .serving c, .reading => some { s with loop := .closing c false }
    | _, _ => none
  | .cancel =>
    match s.loop with
    | .serving c => some { s with loop := .parting c }
    | _ => none
  | .sendBye ok =>
    match s.loop with
    | .parting c =>
      some { s.writeCurrent (.bye (lit "context_canceled")) ok with loop := .closing c true }
    | _ => none
  | .heartbeat ok =>
    match s.conn with
    | none => some s
    | some c => if ok then some s else some (s.shut c)
  | .closeConn =>
    match s.loop with
    | .closing c canceled =>
      some { s.shut c with
        conn := none
        loop := if canceled || s.closed then .stopped else .top }
    | _ => none
  | .send i event =>
    match s.sends i with
    | some _ => none
    | none => some { s with
        sends := Function.update s.sends i (some (event, if s.closed then .done else .checked)) }
  | .getConn i =>
    match s.sends i with
    | some (event, .checked) => some { s with
        sends := Function.update s.sends i (some (event,
          match s.conn with
          | none => .done
          | some c => .holding c)) }
    | _ => none
  | .write i ok =>
    match s.sends i with
    | some (event, .holding c) =>
      let s := if ok && s.isOpen c then s.write c (.event event) else s
      some { s with sends := Function.update s.sends i (some (event, .done)) }
    | _ => none
  | .close => if s.closed then some s else some { s with closed := true, taking := true }
  | .takeConn =>
    if s.taking then
      match s.conn with
      | none => some { s with taking := false }
      | some c => some { s.shut c with conn := none, taking := false }
    else none

/-- The steps, with their guards. -/
inductive Step (cfg : Config) (s : Client) : Act → Client → Prop
  | stop {ok canceled} (here : s.loop = .top)
      (why : s.closed = true ∨ (ok = false ∧ canceled = true)) :
      Step cfg s (.dial ok canceled) { s with loop := .stopped }
  | dial {canceled} (here : s.loop = .top) (live : s.closed = false) :
      Step cfg s (.dial true canceled) { s with
        loop := .dialed s.dialed
        dialed := s.dialed + 1
        isOpen := Function.update s.isOpen s.dialed true }
  | retry (here : s.loop = .top) (live : s.closed = false) : Step cfg s (.dial false false) s
  | publish {c} (here : s.loop = .dialed c) :
      Step cfg s .publish { s with conn := some c, loop := .authenticating c }
  | challenge {c message} (here : s.loop = .authenticating c) :
      Step cfg s (.challenge message) { s with loop := s.authenticate cfg c message }
  | sendHello {c nonce sig ok} (here : s.loop = .greeting c nonce sig) :
      Step cfg s (.sendHello ok) (s.sendHello c nonce sig ok)
  | command {id status error} (here : s.pump = .reading) (pumps : s.loop.pumps = true)
      (known : status = lit "applied" ∨ status = lit "failed") :
      Step cfg s (.command id status error) { s with pump := .acking id status error }
  | refuse {id status error} (here : s.pump = .reading) (pumps : s.loop.pumps = true)
      (unknown : ¬ (status = lit "applied" ∨ status = lit "failed")) :
      Step cfg s (.command id status error) s
  | sendAck {id status error ok} (here : s.pump = .acking id status error) :
      Step cfg s (.sendAck ok) { s.writeCurrent (.ack id status error) ok with pump := .reading }
  | readError {c} (here : s.loop = .serving c) (reading : s.pump = .reading) :
      Step cfg s .readError { s with loop := .closing c false }
  | cancel {c} (here : s.loop = .serving c) : Step cfg s .cancel { s with loop := .parting c }
  | sendBye {c ok} (here : s.loop = .parting c) : Step cfg s (.sendBye ok)
      { s.writeCurrent (.bye (lit "context_canceled")) ok with loop := .closing c true }
  | beat {ok} (quiet : s.conn = none ∨ ok = true) : Step cfg s (.heartbeat ok) s
  | lost {c} (published : s.conn = some c) : Step cfg s (.heartbeat false) (s.shut c)
  | closeConn {c canceled} (here : s.loop = .closing c canceled) :
      Step cfg s .closeConn { s.shut c with
        conn := none
        loop := if canceled || s.closed then .stopped else .top }
  | send {i event} (fresh : s.sends i = none) : Step cfg s (.send i event) { s with
      sends := Function.update s.sends i (some (event, if s.closed then .done else .checked)) }
  | unsent {i event} (here : s.sends i = some (event, .checked)) (lost : s.conn = none) :
      Step cfg s (.getConn i)
        { s with sends := Function.update s.sends i (some (event, .done)) }
  | getConn {i event c} (here : s.sends i = some (event, .checked)) (published : s.conn = some c) :
      Step cfg s (.getConn i)
        { s with sends := Function.update s.sends i (some (event, .holding c)) }
  | write {i ok event c} (here : s.sends i = some (event, .holding c))
      (up : (ok && s.isOpen c) = true) : Step cfg s (.write i ok)
        { s.write c (.event event) with
          sends := Function.update s.sends i (some (event, .done)) }
  | writeError {i ok event c} (here : s.sends i = some (event, .holding c))
      (down : ¬ (ok && s.isOpen c) = true) : Step cfg s (.write i ok)
        { s with sends := Function.update s.sends i (some (event, .done)) }
  | closed (before : s.closed = true) : Step cfg s .close s
  | close (before : s.closed = false) : Step cfg s .close { s with closed := true, taking := true }
  | takeNone (taking : s.taking = true) (lost : s.conn = none) :
      Step cfg s .takeConn { s with taking := false }
  | take {c} (taking : s.taking = true) (published : s.conn = some c) :
      Step cfg s .takeConn { s.shut c with conn := none, taking := false }

theorem step_cases {cfg : Config} {s t : Client} {a : Act} (h : step cfg s a = some t) :
    Step cfg s a t := by
  cases a with
  | dial ok canceled =>
    simp only [step] at h
    split at h
    · rename_i hl
      split at h
      · rename_i hclosed
        cases h
        exact .stop hl (Or.inl hclosed)
      · rename_i hlive
        rw [Bool.not_eq_true] at hlive
        cases ok with
        | true =>
          cases h
          exact .dial hl hlive
        | false =>
          cases canceled with
          | true =>
            cases h
            exact .stop hl (Or.inr ⟨rfl, rfl⟩)
          | false =>
            cases h
            exact .retry hl hlive
    · cases h
  | publish =>
    simp only [step] at h
    split at h
    · cases h
      exact .publish ‹_›
    · cases h
  | challenge message =>
    simp only [step] at h
    split at h
    · cases h
      exact .challenge ‹_›
    · cases h
  | sendHello ok =>
    simp only [step] at h
    split at h
    · cases h
      exact .sendHello ‹_›
    · cases h
  | command id status error =>
    simp only [step] at h
    split at h
    · rename_i hp
      split at h
      · cases h
      · rename_i hpumps
        have hpumps : s.loop.pumps = true := by simpa using hpumps
        split at h
        · cases h
          exact .command hp hpumps ‹_›
        · cases h
          exact .refuse hp hpumps ‹_›
    · cases h
  | sendAck ok =>
    simp only [step] at h
    split at h
    · cases h
      exact .sendAck ‹_›
    · cases h
  | readError =>
    simp only [step] at h
    split at h
    · cases h
      exact .readError ‹_› ‹_›
    · cases h
  | cancel =>
    simp only [step] at h
    split at h
    · cases h
      exact .cancel ‹_›
    · cases h
  | sendBye ok =>
    simp only [step] at h
    split at h
    · cases h
      exact .sendBye ‹_›
    · cases h
  | heartbeat ok =>
    simp only [step] at h
    split at h
    · rename_i hconn
      cases h
      exact .beat (Or.inl hconn)
    · rename_i c hconn
      cases ok with
      | true =>
        cases h
        exact .beat (Or.inr rfl)
      | false =>
        cases h
        exact .lost hconn
  | closeConn =>
    simp only [step] at h
    split at h
    · cases h
      exact .closeConn ‹_›
    · cases h
  | send i event =>
    simp only [step] at h
    split at h
    · cases h
    · cases h
      exact .send ‹_›
  | getConn i =>
    simp only [step] at h
    split at h
    · cases h
      split
      · exact .unsent ‹_› ‹_›
      · exact .getConn ‹_› ‹_›
    · cases h
  | write i ok =>
    simp only [step] at h
    split at h
    · cases h
      split
      · exact .write ‹_› ‹_›
      · exact .writeError ‹_› ‹_›
    · cases h
  | close =>
    simp only [step] at h
    split at h
    · cases h
      exact .closed ‹_›
    · rename_i hopen
      rw [Bool.not_eq_true] at hopen
      cases h
      exact .close hopen
  | takeConn =>
    simp only [step] at h
    split at h
    · split at h
      · cases h
        exact .takeNone ‹_› ‹_›
      · cases h
        exact .take ‹_› ‹_›
    · cases h

end Client

end Transport

end ZaqorinCore.Agent
