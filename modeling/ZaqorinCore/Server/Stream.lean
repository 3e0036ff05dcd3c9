import ZaqorinCore.Server.Wire
import ZaqorinCore.Server.Command

/-!
# The WebSocket handler

`ws_agent` of `stream.py`, cut at its `await`s: what it makes of the first frame
(`readHello`), of the host row (`authenticate`) and of each later frame (`readFrame`, then
`serveFrame` on the database). An exception that the handler does not catch on the spot ends
the connection with the code 1011. `len` of a `str` counts characters, and the text of a frame
that is only logged (a BYE's reason) is left out.
-/

namespace ZaqorinCore.Server

open Text

/-! ## Handshake -/

/-- `_compute_sig`. -/
def computeSig (secret nonce : Str) : Str := hexdigest (hmacSha256 (utf8 secret) (utf8 nonce))

def maxHelloBytes : Nat := 64 * 1024

/-- The handler after the first frame: it has closed, with what `agent_id` holds by then, or it
goes on to look the host up. -/
inductive HelloOutcome
  | closed (code : Nat) (agentId : Option Uuid)
  | greeted (agentId : Uuid) (sig : Str)

/-- `value != 2` in Python is false for the integer and for the float. -/
def isTwo : Option Json → Bool
  | some (.int n) => n == 2
  | some (.float repr) => repr == "2.0".toList
  | _ => false

/-- The checks of the first frame, in their order. -/
def readHello (lib : Library) (nonce raw : Str) : HelloOutcome :=
  if maxHelloBytes < raw.length then .closed 1009 none
  else match safeLoads lib raw with
    | .error .decode => .closed 1003 none
    | .error .value => .closed 1011 none
    | .ok (.obj first) =>
      if !fieldIs first "type" "hello" then .closed 1002 none
      else if !isTwo (field first "v") then .closed 1002 none
      else match helloFrame lib first with
        | none => .closed 1002 none
        | some hello =>
          match field first "nonce" with
          | some (.str echoed) =>
            if echoed = [] ∨ echoed ≠ nonce then .closed 1002 none
            -- from here on `agent_id` is set, before any signature was looked at
            else match field first "sig" with
              | some (.str sig) =>
                if sig = [] then .closed 1002 (some hello.agentId)
                else .greeted hello.agentId sig
              | _ => .closed 1002 (some hello.agentId)
          | _ => .closed 1002 none
    -- only a dict has `get`
    | .ok _ => .closed 1011 none

inductive AuthOutcome
  | refused (code : Nat)
  | accepted (hostId : Uuid)
  deriving DecidableEq

/-- Step 3 of the handler: the host lookup and the comparison of the signature. -/
def authenticate (db : Db) (nonce : Str) (agentId : Uuid) (sig : Str) : AuthOutcome :=
  match upsertOnHello db agentId with
  | .error _ => .refused 1011
  | .ok host =>
    match host.secret with
    | none => .refused 1008
    | some secret =>
      if secret = [] then .refused 1008
      else match compareDigest (computeSig secret nonce) sig with
        | .error _ => .refused 1011
        | .ok false => .refused 1008
        | .ok true => .accepted host.id

theorem authenticate_accepted {db : Db} {nonce : Str} {agentId hostId : Uuid} {sig : Str}
    (h : authenticate db nonce agentId sig = .accepted hostId) : hostId = agentId := by
  unfold authenticate upsertOnHello at h
  split at h
  · cases h
  · rename_i host hhost
    split at h
    · cases h
    · split at h
      · cases h
      · split at h
        · cases h
        · cases h
        · cases h
          split at hhost
          · rename_i host' hfind
            cases hhost
            exact (Base.Table.find_some hfind).2
          · cases hhost

/-! ## Frames after the handshake -/

/-- The limits of `Settings` that the handler applies. -/
structure StreamLimits where
  wsMaxMsgBytes : Nat
  wsMaxMsgPerMin : Nat

/-- `window_start` and `msg_in_window`; the clock counts nanoseconds. -/
structure Window where
  start : Int
  count : Nat
  deriving DecidableEq

/-- One more message at the clock reading `now`. -/
def Window.arrive (w : Window) (now : Int) : Window :=
  if 60 * 1000000000 ≤ now - w.start then ⟨now, 1⟩ else ⟨w.start, w.count + 1⟩

/-- What a frame asks for. -/
inductive FrameRead
  | close (code : Nat)
  | skip
  | event (event : Event)
  | ack (id : Uuid) (status : AckStatus)
  | bye

/-- The dispatch on `payload["type"]`. -/
def readPayload (lib : Library) (payload : List (Str × Json)) : FrameRead :=
  if fieldIs payload "type" "event" then
    match eventFrame lib payload with
    | none => .skip
    | some event => .event event
  else if fieldIs payload "type" "command_ack" then
    match commandAckFrame lib payload with
    | none => .skip
    | some ack => .ack ack.id ack.status
  else if fieldIs payload "type" "bye" then .bye
  else .skip

/-- The loop body up to the database. -/
def readFrame (lib : Library) (limits : StreamLimits) (w : Window) (now : Int) (raw : Str) :
    Window × FrameRead :=
  if limits.wsMaxMsgBytes < raw.length then (w, .close 1009)
  else
    let w := w.arrive now
    if limits.wsMaxMsgPerMin < w.count then (w, .close 1013)
    else match safeLoads lib raw with
      | .error .decode => (w, .skip)
      | .error .value => (w, .close 1011)
      | .ok (.obj payload) => (w, readPayload lib payload)
      | .ok _ => (w, .close 1011)

/-- Whether the loop goes on. -/
inductive Served
  | stay
  | leave (code : Option Nat)
  deriving DecidableEq

/-- `mark_applied` or `mark_failed`. -/
def markAcked (db : Db) (id : Uuid) (now : Int) : AckStatus → Db
  | .applied => (markApplied db id now).1
  | .failed => (markFailed db id now).1

/-- The status a row gets from an acknowledgement. -/
def AckStatus.status : AckStatus → Status
  | .applied => .applied
  | .failed => .failed

theorem markAcked_eq (db : Db) (id : Uuid) (now : Int) (status : AckStatus) :
    markAcked db id now status = setStatus db id .dispatched
      (fun a => { a with status := status.status, ackedAt := some now }) (fun _ => rfl) := by
  cases status with
  | applied => rfl
  | failed => rfl

/-- The loop body from the database on; `dbUp` is false when the database call raises. -/
def serveFrame (db : Db) (now : Int) (dbUp : Bool) : FrameRead → Db × Served
  | .close code => (db, .leave (some code))
  | .skip => (db, .stay)
  | .event event =>
    if !dbUp then (db, .leave (some 1011))
    else match persistEvent db event with
      | .ok db' => (db', .stay)
      | .error .duplicateEvent => (db, .stay)
      | .error _ => (db, .leave (some 1011))
  | .ack id status =>
    if !dbUp then (db, .leave (some 1011)) else (markAcked db id now status, .stay)
  | .bye => (db, .leave none)

theorem serveFrame_event_stored {db db' : Db} {event : Event} {now : Int}
    (h : persistEvent db event = .ok db') :
    serveFrame db now true (.event event) = (db', .stay) := by
  simp [serveFrame, h]

theorem serveFrame_event_refused {db : Db} {event : Event} {err : DbError} {now : Int}
    (h : persistEvent db event = .error err) :
    (serveFrame db now true (.event event)).1 = db := by
  cases err <;> simp [serveFrame, h]

/-- Only an acknowledgement touches actions. -/
theorem serveFrame_actions {db : Db} {now : Int} {dbUp : Bool} {read : FrameRead}
    (h : ∀ id status, read = .ack id status → dbUp = false) :
    (serveFrame db now dbUp read).1.actions = db.actions := by
  cases read with
  | close code => rfl
  | skip => rfl
  | bye => rfl
  | event event =>
    cases dbUp with
    | false => rfl
    | true =>
      cases hstore : persistEvent db event with
      | ok db' =>
        obtain ⟨hnew, -, rfl⟩ := persistEvent_ok hstore
        rw [serveFrame_event_stored hstore]
      | error err => rw [serveFrame_event_refused hstore]
  | ack id status =>
    rw [h id status rfl]
    rfl

theorem serveFrame_ack {db : Db} {id : Uuid} {status : AckStatus} {now : Int} :
    serveFrame db now true (.ack id status) = (markAcked db id now status, .stay) := rfl

end ZaqorinCore.Server
