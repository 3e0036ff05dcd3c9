import ZaqorinCore.Base.Run
import ZaqorinCore.Server.Stream

/-!
# The agent channel

The handlers of all WebSocket connections, the dispatcher task and the database they share,
as one transition system. Every action is what one task does between two of its `await`s, so a
list of actions is an interleaving; readings of clocks, the text of frames and the failures of
sends and of the database are part of the actions.

`History` records what has happened. No code reads it: it is what the properties are about.
-/

namespace ZaqorinCore.Server

open Text Base

abbrev ConnId := Nat

/-- Where a handler stands. -/
inductive Phase
  | challenged
  | greeted (agentId : Uuid) (sig : Str)
  | accepted (hostId : Uuid)
  | acknowledged (hostId : Uuid) (window : Window)
  | serving (hostId : Uuid) (window : Window)
  | closing
  | closed

/-- A connection; `agentId` is the handler's variable `agent_id`, and `passed` says whether its
signature has been accepted. -/
structure Conn where
  nonce : Str
  agentId : Option Uuid
  passed : Bool
  phase : Phase

/-- Where the dispatcher stands in `_tick`. -/
inductive Dispatch
  | idle
  | working (rows : List (Action × Option Host))
  | sending (action : Action) (host : Host) (ws : ConnId) (frame : CommandFrame)
      (rows : List (Action × Option Host))
  | failed (host : Host) (ws : ConnId) (rows : List (Action × Option Host))
  | sent (action : Action) (rows : List (Action × Option Host))

structure History where
  /-- the connection that registered last for a host -/
  lastRegistered : Uuid → Option ConnId
  /-- the connections on which a send has failed -/
  sendFailed : List ConnId
  /-- the actions whose frame has been written, with the connection it went to -/
  sent : List (Uuid × ConnId)
  /-- the acknowledgements that were applied to the database, oldest first -/
  acked : List (Uuid × AckStatus)
  /-- the events stored for a connection, with the host the connection authenticated as -/
  persisted : List (Uuid × Event)
  /-- the action rows a connection changed, with the host it authenticated as -/
  changed : List (Uuid × Action)

structure Channel where
  db : Db
  /-- `HostConnectionRegistry._conns` -/
  registry : Uuid → Option ConnId
  conns : ConnId → Option Conn
  dispatcher : Dispatch
  history : History

inductive Act
  | connect (c : ConnId) (nonce : Str)
  | hello (c : ConnId) (raw : Str)
  | authenticate (c : ConnId) (dbUp : Bool)
  | acknowledge (c : ConnId) (now : Int) (sendOk : Bool)
  | register (c : ConnId)
  | receive (c : ConnId) (raw : Str) (mono now : Int) (dbUp : Bool)
  | drop (c : ConnId)
  | finish (c : ConnId)
  | tick (order : List Action)
  | next (now : UtcTime)
  | sendOk
  | sendFail
  | unregisterFailed
  | mark (now : Int) (dbUp : Bool)
  | tickDone
  | writeAction (action : Action)
  | saveHost (host : Host)
  | ingest (event : Event)

/-- The settings and the library the channel runs with. -/
structure Config where
  lib : Library
  limits : StreamLimits
  dispatch : DispatchSettings

namespace Channel

def setConn (s : Channel) (c : ConnId) (conn : Conn) : Channel :=
  { s with conns := Function.update s.conns c (some conn) }

theorem setConn_self (s : Channel) (c : ConnId) (conn : Conn) :
    (s.setConn c conn).conns c = some conn := by
  simp [setConn]

theorem setConn_of_ne (s : Channel) {c d : ConnId} (h : d ≠ c) (conn : Conn) :
    (s.setConn c conn).conns d = s.conns d := by
  simp [setConn, h]

/-- Either the handler that moved or another one, which is as it was. -/
theorem setConn_cases {s : Channel} {c d : ConnId} {conn conn' : Conn}
    (h : (s.setConn c conn).conns d = some conn') :
    (d = c ∧ conn' = conn) ∨ (d ≠ c ∧ s.conns d = some conn') :=
  update_some_cases h

/-! ## Handlers -/

def hello (cfg : Config) (s : Channel) (c : ConnId) (conn : Conn) (raw : Str) : Channel :=
  match readHello cfg.lib conn.nonce raw with
  | .closed _ agentId => s.setConn c { conn with agentId, phase := .closing }
  | .greeted agentId sig =>
    s.setConn c { conn with agentId := some agentId, phase := .greeted agentId sig }

def authenticate (s : Channel) (c : ConnId) (conn : Conn) (agentId : Uuid) (sig : Str)
    (dbUp : Bool) : Channel :=
  if !dbUp then s.setConn c { conn with phase := .closing }
  else match Server.authenticate s.db conn.nonce agentId sig with
    | .refused _ => s.setConn c { conn with phase := .closing }
    | .accepted hostId => s.setConn c { conn with passed := true, phase := .accepted hostId }

/-- `registry.register(host.id, ws)`. -/
def register (s : Channel) (c : ConnId) (conn : Conn) (hostId : Uuid) (window : Window) :
    Channel :=
  { s.setConn c { conn with phase := .serving hostId window } with
    registry := Function.update s.registry hostId (some c)
    history := { s.history with
      lastRegistered := Function.update s.history.lastRegistered hostId (some c) } }

/-- `registry.unregister(host_id)`: by host, whatever connection is registered. -/
def unregister (s : Channel) (hostId : Uuid) : Channel :=
  { s with registry := Function.update s.registry hostId none }

/-- The event rows that are new in the second database. -/
def newEvents (db db' : Db) : List Event :=
  db'.events.rows.filter fun e => (db.events.find e.id).isNone

/-- The action rows whose status is another one in the second database. -/
def changedActions (db db' : Db) : List Action :=
  db'.actions.rows.filter fun a => (db.actions.find a.id).map Action.status != some a.status

/-- What a served frame adds to the history: the rows it left in the database, and an
acknowledgement of a command that was sent. -/
def record (s : Channel) (hostId : Uuid) (db' : Db) (dbUp : Bool) (read : FrameRead) : History :=
  { s.history with
    persisted := s.history.persisted ++ (newEvents s.db db').map fun e => (hostId, e)
    changed := s.history.changed ++ (changedActions s.db db').map fun a => (hostId, a)
    acked := match read with
      | .ack id status =>
        if dbUp && (s.history.sent.map Prod.fst).contains id then
          s.history.acked ++ [(id, status)]
        else s.history.acked
      | _ => s.history.acked }

def afterFrame (hostId : Uuid) (window : Window) : Served → Phase
  | .stay => .serving hostId window
  | .leave _ => .closing

def receive (cfg : Config) (s : Channel) (c : ConnId) (conn : Conn) (hostId : Uuid)
    (window : Window) (raw : Str) (mono now : Int) (dbUp : Bool) : Channel :=
  let read := readFrame cfg.lib cfg.limits window mono raw
  let served := serveFrame s.db now dbUp read.2
  { s.setConn c { conn with phase := afterFrame hostId read.1 served.2 } with
    db := served.1
    history := s.record hostId served.1 dbUp read.2 }

/-- The `finally` block. -/
def cleanUp (s : Channel) : Option Uuid → Channel
  | none => s
  | some agentId => s.unregister agentId

def finish (s : Channel) (c : ConnId) (conn : Conn) : Channel :=
  (s.cleanUp conn.agentId).setConn c { conn with phase := .closed }

/-! ## Dispatcher -/

/-- Whether `order` is an answer to the `SELECT` of `_tick` before its `LIMIT`: the pending rows,
oldest first, with rows of one age in any order. -/
def Selects (db : Db) (order : List Action) : Prop :=
  order.Perm (db.actions.rows.filter fun a => a.status == .pending) ∧
    order.Pairwise fun a b => a.createdAt ≤ b.createdAt

instance (db : Db) (order : List Action) : Decidable (Selects db order) :=
  inferInstanceAs (Decidable (_ ∧ _))

/-- The outer join with `hosts`, cut to 16 rows. -/
def selected (db : Db) (order : List Action) : List (Action × Option Host) :=
  (order.take 16).map fun a => (a, a.hostId.bind db.hosts.find)

/-- The loop body of `_tick` up to the send. -/
def dispatchRow (cfg : Config) (s : Channel) (now : UtcTime) (action : Action)
    (host : Option Host) (rows : List (Action × Option Host)) : Dispatch :=
  match host with
  | none => .working rows
  | some host =>
    if !host.autoBlock then .working rows
    else match s.registry host.id with
      | none => .working rows
      | some ws =>
        match buildCommandFrame cfg.dispatch action host now with
        | none => .working rows
        | some frame => .sending action host ws frame rows

/-- The turn of a row leaves the rows after it, and tries to send only for a host that has
`auto_block` on. -/
theorem dispatchRow_cases (cfg : Config) (s : Channel) (now : UtcTime) (action : Action)
    (host : Option Host) (rows : List (Action × Option Host)) :
    s.dispatchRow cfg now action host rows = .working rows ∨
      ∃ h ws frame, host = some h ∧ h.autoBlock = true ∧
        s.dispatchRow cfg now action host rows = .sending action h ws frame rows := by
  unfold dispatchRow
  split
  · exact .inl rfl
  · rename_i h
    split
    · exact .inl rfl
    · rename_i hauto
      split
      · exact .inl rfl
      · split
        · exact .inl rfl
        · exact .inr ⟨h, _, _, rfl, by simpa using hauto, rfl⟩

/-! ## Other writers -/

/-- `INSERT` or `UPDATE` of a host row by the provisioning and host endpoints. -/
def saveHost (db : Db) (host : Host) : Db :=
  match h : db.hosts.find host.id with
  | none => { db with hosts := db.hosts.insert host h }
  | some _ => { db with
      hosts := db.hosts.updateWhere (fun r => r.id == host.id)
        (fun r => { host with id := r.id }) fun _ => rfl }

/-- `write_action`. -/
def writeAction (db : Db) (action : Action) : Option Db :=
  if h : db.actions.find action.id = none then
    if action.status = .pending then some { db with actions := db.actions.insert action h }
    else none
  else none

theorem saveHost_actions (db : Db) (host : Host) : (saveHost db host).actions = db.actions := by
  unfold saveHost
  split
  · rfl
  · rfl

theorem writeAction_find {db db' : Db} {action : Action} (h : writeAction db action = some db')
    (id : Uuid) : db.actions.find action.id = none ∧ action.status = .pending ∧
      db'.actions.find id = if id = action.id then some action else db.actions.find id := by
  unfold writeAction at h
  split at h
  · rename_i hnew
    split at h
    · rename_i hpending
      cases h
      exact ⟨hnew, hpending, Table.find_insert _ _ hnew id⟩
    · cases h
  · cases h

/-! ## Steps -/

/-- The step of a handler that stands in a phase `p` accepts. -/
def fromPhase (s : Channel) (c : ConnId) (p : Conn → Phase → Option Channel) : Option Channel :=
  match s.conns c with
  | none => none
  | some conn => p conn conn.phase

def step (cfg : Config) (s : Channel) : Act → Option Channel
  | .connect c nonce =>
    match s.conns c with
    | none => some (s.setConn c ⟨nonce, none, false, .challenged⟩)
    | some _ => none
  | .hello c raw => s.fromPhase c fun
    | conn, .challenged => some (s.hello cfg c conn raw)
    | _, _ => none
  | .authenticate c dbUp => s.fromPhase c fun
    | conn, .greeted agentId sig => some (s.authenticate c conn agentId sig dbUp)
    | _, _ => none
  | .acknowledge c now sendOk => s.fromPhase c fun
    | conn, .accepted hostId => some (s.setConn c { conn with
        phase := if sendOk then .acknowledged hostId ⟨now, 0⟩ else .closing })
    | _, _ => none
  | .register c => s.fromPhase c fun
    | conn, .acknowledged hostId window => some (s.register c conn hostId window)
    | _, _ => none
  | .receive c raw mono now dbUp => s.fromPhase c fun
    | conn, .serving hostId window =>
      some (s.receive cfg c conn hostId window raw mono now dbUp)
    | _, _ => none
  | .drop c => s.fromPhase c fun
    | _, .closing | _, .closed => none
    | conn, _ => some (s.setConn c { conn with phase := .closing })
  | .finish c => s.fromPhase c fun
    | conn, .closing => some (s.finish c conn)
    | _, _ => none
  | .tick order =>
    match s.dispatcher with
    | .idle =>
      if Selects s.db order then some { s with dispatcher := .working (selected s.db order) }
      else none
    | _ => none
  | .next now =>
    match s.dispatcher with
    | .working ((action, host) :: rows) =>
      some { s with dispatcher := s.dispatchRow cfg now action host rows }
    | _ => none
  | .sendOk =>
    match s.dispatcher with
    | .sending action _ ws _ rows =>
      some { s with
        dispatcher := .sent action rows
        history := { s.history with sent := s.history.sent ++ [(action.id, ws)] } }
    | _ => none
  | .sendFail =>
    match s.dispatcher with
    | .sending _ host ws _ rows =>
      some { s with
        dispatcher := .failed host ws rows
        history := { s.history with sendFailed := ws :: s.history.sendFailed } }
    | _ => none
  | .unregisterFailed =>
    match s.dispatcher with
    | .failed host _ rows => some { s.unregister host.id with dispatcher := .working rows }
    | _ => none
  | .mark now dbUp =>
    match s.dispatcher with
    | .sent action rows =>
      -- a database error ends the tick
      if dbUp then
        some { s with db := (markDispatched s.db action.id now).1, dispatcher := .working rows }
      else some { s with dispatcher := .idle }
    | _ => none
  | .tickDone =>
    match s.dispatcher with
    | .working [] => some { s with dispatcher := .idle }
    | _ => none
  | .writeAction action => (writeAction s.db action).map fun db => { s with db }
  | .saveHost host => some { s with db := saveHost s.db host }
  | .ingest event =>
    match persistEvent s.db event with
    | .ok db => some { s with db }
    | .error _ => none

/-- The server has just started: no connection, an idle dispatcher and any database. -/
structure Start (s : Channel) : Prop where
  registry : ∀ h, s.registry h = none
  conns : ∀ c, s.conns c = none
  dispatcher : s.dispatcher = .idle
  history : s.history = ⟨fun _ => none, [], [], [], [], []⟩

/-- A server that starts on a database. -/
def initial (db : Db) : Channel :=
  ⟨db, fun _ => none, fun _ => none, .idle, ⟨fun _ => none, [], [], [], [], []⟩⟩

theorem start_initial (db : Db) : Start (initial db) :=
  ⟨fun _ => rfl, fun _ => rfl, rfl, rfl⟩

/-! ## What a step can do -/

/-- The steps, one constructor for each action with its guard. -/
inductive Step (cfg : Config) (s : Channel) : Act → Channel → Prop
  | connect {c nonce} (fresh : s.conns c = none) :
      Step cfg s (.connect c nonce) (s.setConn c ⟨nonce, none, false, .challenged⟩)
  | hello {c raw conn} (here : s.conns c = some conn) (phase : conn.phase = .challenged) :
      Step cfg s (.hello c raw) (s.hello cfg c conn raw)
  | authenticate {c dbUp conn agentId sig} (here : s.conns c = some conn)
      (phase : conn.phase = .greeted agentId sig) :
      Step cfg s (.authenticate c dbUp) (s.authenticate c conn agentId sig dbUp)
  | acknowledge {c now sendOk conn hostId} (here : s.conns c = some conn)
      (phase : conn.phase = .accepted hostId) :
      Step cfg s (.acknowledge c now sendOk) (s.setConn c { conn with
        phase := if sendOk then .acknowledged hostId ⟨now, 0⟩ else .closing })
  | register {c conn hostId window} (here : s.conns c = some conn)
      (phase : conn.phase = .acknowledged hostId window) :
      Step cfg s (.register c) (s.register c conn hostId window)
  | receive {c raw mono now dbUp conn hostId window} (here : s.conns c = some conn)
      (phase : conn.phase = .serving hostId window) :
      Step cfg s (.receive c raw mono now dbUp)
        (s.receive cfg c conn hostId window raw mono now dbUp)
  | drop {c conn} (here : s.conns c = some conn) (closing : conn.phase ≠ .closing)
      (closed : conn.phase ≠ .closed) :
      Step cfg s (.drop c) (s.setConn c { conn with phase := .closing })
  | finish {c conn} (here : s.conns c = some conn) (phase : conn.phase = .closing) :
      Step cfg s (.finish c) (s.finish c conn)
  | tick {order} (idle : s.dispatcher = .idle) (selects : Selects s.db order) :
      Step cfg s (.tick order) { s with dispatcher := .working (selected s.db order) }
  | next {now action host rows} (working : s.dispatcher = .working ((action, host) :: rows)) :
      Step cfg s (.next now) { s with dispatcher := s.dispatchRow cfg now action host rows }
  | sendOk {action host ws frame rows}
      (sending : s.dispatcher = .sending action host ws frame rows) :
      Step cfg s .sendOk { s with
        dispatcher := .sent action rows
        history := { s.history with sent := s.history.sent ++ [(action.id, ws)] } }
  | sendFail {action host ws frame rows}
      (sending : s.dispatcher = .sending action host ws frame rows) :
      Step cfg s .sendFail { s with
        dispatcher := .failed host ws rows
        history := { s.history with sendFailed := ws :: s.history.sendFailed } }
  | unregisterFailed {host ws rows} (failed : s.dispatcher = .failed host ws rows) :
      Step cfg s .unregisterFailed { s.unregister host.id with dispatcher := .working rows }
  | mark {now action rows} (sent : s.dispatcher = .sent action rows) :
      Step cfg s (.mark now true)
        { s with db := (markDispatched s.db action.id now).1, dispatcher := .working rows }
  | markFails {now action rows} (sent : s.dispatcher = .sent action rows) :
      Step cfg s (.mark now false) { s with dispatcher := .idle }
  | tickDone (working : s.dispatcher = .working []) :
      Step cfg s .tickDone { s with dispatcher := .idle }
  | writeAction {action db} (written : Channel.writeAction s.db action = some db) :
      Step cfg s (.writeAction action) { s with db }
  | saveHost {host} : Step cfg s (.saveHost host) { s with db := Channel.saveHost s.db host }
  | ingest {event db} (stored : persistEvent s.db event = .ok db) :
      Step cfg s (.ingest event) { s with db }

theorem fromPhase_some {s t : Channel} {c : ConnId} {p : Conn → Phase → Option Channel}
    (h : s.fromPhase c p = some t) :
    ∃ conn, s.conns c = some conn ∧ p conn conn.phase = some t := by
  unfold fromPhase at h
  split at h
  · cases h
  · rename_i conn hconn
    exact ⟨conn, hconn, h⟩

/-- Every step is one of these. -/
theorem step_cases {cfg : Config} {s t : Channel} {a : Act} (h : step cfg s a = some t) :
    Step cfg s a t := by
  cases a with
  | connect c nonce =>
    simp only [step] at h
    split at h
    · cases h
      exact .connect ‹_›
    · cases h
  | hello c raw =>
    simp only [step] at h
    obtain ⟨conn, hconn, h⟩ := fromPhase_some h
    split at h
    · cases h
      exact .hello hconn ‹_›
    · cases h
  | authenticate c dbUp =>
    simp only [step] at h
    obtain ⟨conn, hconn, h⟩ := fromPhase_some h
    split at h
    · cases h
      exact .authenticate hconn ‹_›
    · cases h
  | acknowledge c now sendOk =>
    simp only [step] at h
    obtain ⟨conn, hconn, h⟩ := fromPhase_some h
    split at h
    · cases h
      exact .acknowledge hconn ‹_›
    · cases h
  | register c =>
    simp only [step] at h
    obtain ⟨conn, hconn, h⟩ := fromPhase_some h
    split at h
    · cases h
      exact .register hconn ‹_›
    · cases h
  | receive c raw mono now dbUp =>
    simp only [step] at h
    obtain ⟨conn, hconn, h⟩ := fromPhase_some h
    split at h
    · cases h
      exact .receive hconn ‹_›
    · cases h
  | drop c =>
    simp only [step] at h
    obtain ⟨conn, hconn, h⟩ := fromPhase_some h
    split at h
    · cases h
    · cases h
    · rename_i hclosing hclosed
      cases h
      exact .drop hconn (fun h => hclosing h) (fun h => hclosed h)
  | finish c =>
    simp only [step] at h
    obtain ⟨conn, hconn, h⟩ := fromPhase_some h
    split at h
    · cases h
      exact .finish hconn ‹_›
    · cases h
  | tick order =>
    simp only [step] at h
    split at h
    · split at h
      · cases h
        exact .tick ‹_› ‹_›
      · cases h
    · cases h
  | next now =>
    simp only [step] at h
    split at h
    · cases h
      exact .next ‹_›
    · cases h
  | sendOk =>
    simp only [step] at h
    split at h
    · cases h
      exact .sendOk ‹_›
    · cases h
  | sendFail =>
    simp only [step] at h
    split at h
    · cases h
      exact .sendFail ‹_›
    · cases h
  | unregisterFailed =>
    simp only [step] at h
    split at h
    · cases h
      exact .unregisterFailed ‹_›
    · cases h
  | mark now dbUp =>
    simp only [step] at h
    split at h
    · split at h
      · rename_i hup
        cases h
        subst hup
        exact .mark ‹_›
      · rename_i hup
        cases h
        rw [Bool.not_eq_true] at hup
        subst hup
        exact .markFails ‹_›
    · cases h
  | tickDone =>
    simp only [step] at h
    split at h
    · cases h
      exact .tickDone ‹_›
    · cases h
  | writeAction action =>
    obtain ⟨db, hdb, rfl⟩ := Option.map_eq_some_iff.mp h
    exact .writeAction hdb
  | saveHost host =>
    cases h
    exact .saveHost
  | ingest event =>
    simp only [step] at h
    split at h
    · cases h
      exact .ingest ‹_›
    · cases h

/-- The steps that touch action rows or what connections did to the database: a served frame,
the dispatcher's mark and a new action. -/
theorem step_rows {cfg : Config} {s t : Channel} {a : Act} (h : step cfg s a = some t) :
    (t.db.actions = s.db.actions ∧ t.history.persisted = s.history.persisted ∧
        t.history.changed = s.history.changed ∧
        ∀ c raw mono now dbUp, a ≠ .receive c raw mono now dbUp) ∨
      (∃ c raw mono now dbUp conn hostId window, a = .receive c raw mono now dbUp ∧
        s.conns c = some conn ∧ conn.phase = .serving hostId window ∧
        t = s.receive cfg c conn hostId window raw mono now dbUp) ∨
      (∃ now action rows, a = .mark now true ∧ s.dispatcher = .sent action rows ∧
        t = { s with db := (markDispatched s.db action.id now).1, dispatcher := .working rows }) ∨
      ∃ action db, a = .writeAction action ∧ writeAction s.db action = some db ∧
        t = { s with db } := by
  cases step_cases h with
  | connect _ => exact Or.inl ⟨rfl, rfl, rfl, nofun⟩
  | hello _ _ =>
    unfold Channel.hello
    split
    · exact Or.inl ⟨rfl, rfl, rfl, nofun⟩
    · exact Or.inl ⟨rfl, rfl, rfl, nofun⟩
  | authenticate _ _ =>
    unfold Channel.authenticate
    split
    · exact Or.inl ⟨rfl, rfl, rfl, nofun⟩
    · split
      · exact Or.inl ⟨rfl, rfl, rfl, nofun⟩
      · exact Or.inl ⟨rfl, rfl, rfl, nofun⟩
  | acknowledge _ _ => exact Or.inl ⟨rfl, rfl, rfl, nofun⟩
  | register _ _ => exact Or.inl ⟨rfl, rfl, rfl, nofun⟩
  | receive here phase =>
    exact Or.inr (Or.inl ⟨_, _, _, _, _, _, _, _, rfl, here, phase, rfl⟩)
  | drop _ _ _ => exact Or.inl ⟨rfl, rfl, rfl, nofun⟩
  | finish _ _ =>
    unfold Channel.finish cleanUp
    split
    · exact Or.inl ⟨rfl, rfl, rfl, nofun⟩
    · exact Or.inl ⟨rfl, rfl, rfl, nofun⟩
  | tick _ _ => exact Or.inl ⟨rfl, rfl, rfl, nofun⟩
  | next _ => exact Or.inl ⟨rfl, rfl, rfl, nofun⟩
  | sendOk _ => exact Or.inl ⟨rfl, rfl, rfl, nofun⟩
  | sendFail _ => exact Or.inl ⟨rfl, rfl, rfl, nofun⟩
  | unregisterFailed _ => exact Or.inl ⟨rfl, rfl, rfl, nofun⟩
  | mark sent => exact Or.inr (Or.inr (Or.inl ⟨_, _, _, rfl, sent, rfl⟩))
  | markFails _ => exact Or.inl ⟨rfl, rfl, rfl, nofun⟩
  | tickDone _ => exact Or.inl ⟨rfl, rfl, rfl, nofun⟩
  | writeAction written => exact Or.inr (Or.inr (Or.inr ⟨_, _, rfl, written, rfl⟩))
  | saveHost =>
    exact Or.inl ⟨saveHost_actions _ _, rfl, rfl, nofun⟩
  | ingest stored =>
    obtain ⟨hnew, -, rfl⟩ := persistEvent_ok stored
    exact Or.inl ⟨rfl, rfl, rfl, nofun⟩

/-! ## A host that comes online -/

def onlineHost : Host := ⟨7#128, some "host-secret".toList, true⟩

theorem nodup_onlineHost : ([onlineHost].map Host.id).Nodup := by decide

def onlineDb : Db := ⟨⟨[onlineHost], nodup_onlineHost⟩, Table.empty, Table.empty⟩

def onlineNonce : Str := List.replicate 64 'a'

def onlineSig : Str := computeSig "host-secret".toList onlineNonce

def onlineHello : Str := helloText onlineHost.id onlineNonce onlineSig

/-- The handshake of the host's agent, on connection 1. -/
def onlineRun : List Act :=
  [.connect 1 onlineNonce, .hello 1 onlineHello, .authenticate 1 true, .acknowledge 1 0 true,
    .register 1]

/-- The default limits, with a library that knows this HELLO and the given texts. -/
def onlineConfig (texts : List (Str × Json)) (uuids : List Uuid) (times : List (Str × Int)) :
    Config where
  lib := .ofTable ((onlineHello, helloJson onlineHost.id onlineNonce onlineSig) :: texts)
    (onlineHost.id :: uuids) times
  limits := ⟨1024 * 1024, 100⟩
  dispatch := ⟨Mode.startup.name, false⟩

end Channel

end ZaqorinCore.Server
