import ZaqorinCore.Server.Isolation

/-!
# What the database keeps

Agents send an event again when they do not know whether it arrived, and several writers share
the rows of an action. `rows_explained` says what any interleaving of connections, dispatcher and
other writers makes of the two tables: an event row is written once and stays as it was written, an
action row lives through at most one dispatch and one acknowledgement, and every row is one the
database started with or one that an action of the run brought. `redelivery_absorbed` is the
consequence for a frame that arrives again, however much happened in between and whichever
connection it arrives on.
-/

namespace ZaqorinCore.Server

open Text Base

/-! ## The life of a row -/

/-- The row once the dispatcher has marked it. -/
def Action.dispatchedAt (row : Action) (now : Int) : Action :=
  { row with status := .dispatched, sentAt := some now }

/-- The row once its agent has acknowledged it. -/
def Action.ackedAs (row : Action) (status : AckStatus) (now : Int) : Action :=
  { row with status := status.status, ackedAt := some now }

/-- What one conditional `UPDATE` makes of a row that it selects. -/
inductive Updated (row : Action) : Action → Prop
  | dispatched (now : Int) (pending : row.status = .pending) : Updated row (row.dispatchedAt now)
  | acked (status : AckStatus) (now : Int) (dispatched : row.status = .dispatched) :
      Updated row (row.ackedAs status now)

/-- What is left of a row at a later time. -/
inductive Lived (row : Action) : Action → Prop
  | untouched : Lived row row
  | dispatched (now : Int) (pending : row.status = .pending) : Lived row (row.dispatchedAt now)
  | acked (status : AckStatus) (now : Int) (dispatched : row.status = .dispatched) :
      Lived row (row.ackedAs status now)
  | completed (sent : Int) (status : AckStatus) (now : Int) (pending : row.status = .pending) :
      Lived row ((row.dispatchedAt sent).ackedAs status now)

theorem Action.status_ackedAs (row : Action) (status : AckStatus) (now : Int) :
    (row.ackedAs status now).status ≠ .pending ∧ (row.ackedAs status now).status ≠ .dispatched := by
  cases status with
  | applied => exact ⟨by simp [ackedAs, AckStatus.status], by simp [ackedAs, AckStatus.status]⟩
  | failed => exact ⟨by simp [ackedAs, AckStatus.status], by simp [ackedAs, AckStatus.status]⟩

/-- No `UPDATE` selects a row that has been acknowledged. -/
theorem not_updated_ackedAs {row row' : Action} {status : AckStatus} {now : Int} :
    ¬ Updated (row.ackedAs status now) row' := by
  intro h
  obtain ⟨hpending, hdispatched⟩ := Action.status_ackedAs row status now
  cases h with
  | dispatched _ pending => exact hpending pending
  | acked _ _ dispatched => exact hdispatched dispatched

theorem Lived.update {row row' row'' : Action} (h : Lived row row') (hstep : Updated row' row'') :
    Lived row row'' := by
  cases h with
  | untouched =>
    cases hstep with
    | dispatched now pending => exact .dispatched now pending
    | acked status now dispatched => exact .acked status now dispatched
  | dispatched sent pending =>
    cases hstep with
    | dispatched _ again => cases again
    | acked status now _ => exact .completed sent status now pending
  | acked _ _ _ => exact absurd hstep not_updated_ackedAs
  | completed _ _ _ _ => exact absurd hstep not_updated_ackedAs

namespace Channel

/-! ## Where rows come from -/

/-- The action carries the event: another writer's, or a frame that reads as it while the
database answers. -/
def Brings (cfg : Config) (e : Event) : Act → Prop
  | .ingest event => event = e
  | .receive _ raw mono _ dbUp =>
    dbUp = true ∧ ∃ window, (readFrame cfg.lib cfg.limits window mono raw).2 = .event e
  | _ => False

/-- The event rows of the second database are those of the first and those that actions brought. -/
structure EventsExplained (cfg : Config) (as : List Act) (db db' : Db) : Prop where
  kept : ∀ id e, db.events.find id = some e → db'.events.find id = some e
  brought : ∀ id e, db'.events.find id = some e →
    db.events.find id = some e ∨ ∃ a ∈ as, Brings cfg e a

/-- The action rows of the second database are what is left of those of the first and of those
that `write_action` wrote. -/
structure ActionsExplained (as : List Act) (db db' : Db) : Prop where
  kept : ∀ id row, db.actions.find id = some row →
    ∃ row', db'.actions.find id = some row' ∧ Lived row row'
  written : ∀ id row', db'.actions.find id = some row' → ∃ row, Lived row row' ∧
    (db.actions.find id = some row ∨
      .writeAction row ∈ as ∧ row.id = id ∧ row.status = .pending)

/-! ## One step -/

theorem serveFrame_events (db : Db) (now : Int) (dbUp : Bool) (read : FrameRead) :
    (serveFrame db now dbUp read).1.events = db.events ∨
      ∃ event, ∃ hnew : db.events.find event.id = none, read = .event event ∧ dbUp = true ∧
        (serveFrame db now dbUp read).1.events = db.events.insert event hnew := by
  cases read with
  | close _ => exact .inl rfl
  | skip => exact .inl rfl
  | bye => exact .inl rfl
  | ack id status =>
    refine .inl ?_
    cases dbUp with
    | false => rfl
    | true =>
      rw [serveFrame_ack, markAcked_eq]
      rfl
  | event event =>
    cases dbUp with
    | false => exact .inl rfl
    | true =>
      cases hstore : persistEvent db event with
      | ok db' =>
        obtain ⟨hnew, -, rfl⟩ := persistEvent_ok hstore
        rw [serveFrame_event_stored hstore]
        exact .inr ⟨event, hnew, rfl, rfl, rfl⟩
      | error err =>
        rw [serveFrame_event_refused hstore]
        exact .inl rfl

theorem saveHost_events (db : Db) (host : Host) : (saveHost db host).events = db.events := by
  unfold saveHost
  split
  · rfl
  · rfl

/-- A step leaves the event table as it is or inserts an event that its action brings. -/
theorem step_events {cfg : Config} {s t : Channel} {a : Act} (h : step cfg s a = some t) :
    t.db.events = s.db.events ∨ ∃ event, ∃ hnew : s.db.events.find event.id = none,
      Brings cfg event a ∧ t.db.events = s.db.events.insert event hnew := by
  cases step_cases h with
  | @receive _ raw mono now dbUp _ _ window _ _ =>
    rcases serveFrame_events s.db now dbUp (readFrame cfg.lib cfg.limits window mono raw).2 with
      hsame | ⟨event, hnew, hread, hup, hinsert⟩
    · exact .inl hsame
    · exact .inr ⟨event, hnew, ⟨hup, window, hread⟩, hinsert⟩
  | ingest stored =>
    obtain ⟨hnew, -, rfl⟩ := persistEvent_ok stored
    exact .inr ⟨_, hnew, rfl, rfl⟩
  | saveHost => exact .inl (saveHost_events _ _)
  | hello _ _ =>
    unfold Channel.hello
    split
    · exact .inl rfl
    · exact .inl rfl
  | authenticate _ _ =>
    unfold Channel.authenticate
    split
    · exact .inl rfl
    · split
      · exact .inl rfl
      · exact .inl rfl
  | finish _ _ =>
    unfold Channel.finish cleanUp
    split
    · exact .inl rfl
    · exact .inl rfl
  | writeAction written =>
    unfold Channel.writeAction at written
    split at written
    · split at written
      · cases written
        exact .inl rfl
      · cases written
    · cases written
  | connect | acknowledge | register | drop | tick | next | sendOk | sendFail | unregisterFailed
  | mark | markFails | tickDone => exact .inl rfl

/-- Every row of the first table is found in the second as it was or updated once, and no other
row is. -/
def RowsUpdated (db db' : Db) : Prop :=
  ∀ id, ∃ f : Action → Action, db'.actions.find id = (db.actions.find id).map f ∧
    ∀ row, f row = row ∨ Updated row (f row)

theorem RowsUpdated.of_eq {db db' : Db} (h : db'.actions = db.actions) : RowsUpdated db db' := by
  intro id
  refine ⟨fun row => row, ?_, fun _ => .inl rfl⟩
  rw [h]
  simp

theorem RowsUpdated.setStatus {db : Db} {id : Uuid} {from_ : Status} {f : Action → Action}
    {hf : ∀ a, (f a).id = a.id} (hupdated : ∀ row, row.status = from_ → Updated row (f row)) :
    RowsUpdated db (setStatus db id from_ f hf) := by
  intro k
  refine ⟨_, find_setStatus db id from_ f hf k, ?_⟩
  intro row
  split
  · rename_i hcond
    exact .inr (hupdated row hcond.2)
  · exact .inl rfl

theorem RowsUpdated.serveFrame (db : Db) (now : Int) (dbUp : Bool) (read : FrameRead) :
    RowsUpdated db (serveFrame db now dbUp read).1 := by
  by_cases hack : ∃ id status, read = .ack id status ∧ dbUp = true
  · obtain ⟨id, status, rfl, rfl⟩ := hack
    rw [serveFrame_ack, markAcked_eq]
    exact .setStatus fun _ dispatched => .acked status now dispatched
  · refine .of_eq (serveFrame_actions fun id status hread => ?_)
    exact Bool.eq_false_iff.mpr fun hup => hack ⟨id, status, hread, hup⟩

/-- A step updates action rows or writes a new one. -/
theorem step_actions {cfg : Config} {s t : Channel} {a : Act} (h : step cfg s a = some t) :
    RowsUpdated s.db t.db ∨ ∃ action db, a = .writeAction action ∧
      writeAction s.db action = some db ∧ t.db = db := by
  rcases step_rows h with ⟨hactions, -⟩ | ⟨_, _, _, _, _, _, _, _, -, -, -, rfl⟩ |
    ⟨now, _, _, -, -, rfl⟩ | ⟨action, db, rfl, written, rfl⟩
  · exact .inl (.of_eq hactions)
  · exact .inl (.serveFrame _ _ _ _)
  · exact .inl (.setStatus fun _ pending => .dispatched now pending)
  · exact .inr ⟨action, db, rfl, written, rfl⟩

/-! ## Runs -/

variable {cfg : Config} {s t u : Channel} {as bs : List Act}

theorem EventsExplained.keep {db : Db} (h : EventsExplained cfg as db t.db) {a : Act}
    (ha : a ∈ as) (taken : step cfg t a = some u) : EventsExplained cfg as db u.db := by
  rcases step_events taken with hsame | ⟨event, hnew, hbrings, hinsert⟩
  · refine ⟨?_, ?_⟩
    · rw [hsame]
      exact h.kept
    · rw [hsame]
      exact h.brought
  · refine ⟨?_, ?_⟩
    · intro id e he
      have hfound := h.kept id e he
      rw [hinsert, Table.find_insert, if_neg, hfound]
      rintro rfl
      rw [hnew] at hfound
      cases hfound
    · intro id e he
      rw [hinsert, Table.find_insert] at he
      split at he
      · cases he
        exact .inr ⟨a, ha, hbrings⟩
      · exact h.brought id e he

theorem ActionsExplained.updated {db : Db} (h : ActionsExplained as db t.db)
    (hupdated : RowsUpdated t.db u.db) : ActionsExplained as db u.db := by
  have hlived : ∀ {row row' : Action} {f : Action → Action},
      (f row' = row' ∨ Updated row' (f row')) → Lived row row' → Lived row (f row') := by
    intro row row' f hf hlived
    rcases hf with hsame | hstep
    · rw [hsame]
      exact hlived
    · exact hlived.update hstep
  refine ⟨?_, ?_⟩
  · intro id row hrow
    obtain ⟨row', hrow', hlife⟩ := h.kept id row hrow
    obtain ⟨f, hfind, hf⟩ := hupdated id
    exact ⟨f row', by rw [hfind, hrow', Option.map_some], hlived (hf row') hlife⟩
  · intro id row'' hrow''
    obtain ⟨f, hfind, hf⟩ := hupdated id
    rw [hfind] at hrow''
    obtain ⟨row', hrow', rfl⟩ := Option.map_eq_some_iff.mp hrow''
    obtain ⟨row, hlife, hfrom⟩ := h.written id row' hrow'
    exact ⟨row, hlived (hf row') hlife, hfrom⟩

theorem ActionsExplained.writeAction {db db' : Db} (h : ActionsExplained as db t.db)
    {action : Action} (ha : .writeAction action ∈ as)
    (written : Channel.writeAction t.db action = some db') : ActionsExplained as db db' := by
  refine ⟨?_, ?_⟩
  · intro id row hrow
    obtain ⟨row', hrow', hlife⟩ := h.kept id row hrow
    obtain ⟨hnew, -, hfind⟩ := writeAction_find written id
    refine ⟨row', ?_, hlife⟩
    rw [hfind, if_neg, hrow']
    rintro rfl
    rw [hnew] at hrow'
    cases hrow'
  · intro id row' hrow'
    obtain ⟨-, hpending, hfind⟩ := writeAction_find written id
    rw [hfind] at hrow'
    split at hrow'
    · rename_i hid
      cases hrow'
      exact ⟨action, .untouched, .inr ⟨ha, hid.symm, hpending⟩⟩
    · exact h.written id row' hrow'

theorem ActionsExplained.keep {db : Db} (h : ActionsExplained as db t.db) {a : Act}
    (ha : a ∈ as) (taken : step cfg t a = some u) : ActionsExplained as db u.db := by
  rcases step_actions taken with hupdated | ⟨action, db', rfl, written, rfl⟩
  · exact h.updated hupdated
  · exact h.writeAction ha written

theorem EventsExplained.run (run : AnyRun (step cfg) s as t) :
    EventsExplained cfg as s.db t.db :=
  run.mem.invariant (I := fun t => EventsExplained cfg as s.db t.db)
    ⟨fun _ _ h => h, fun _ _ h => .inl h⟩ fun _ _ _ h ha taken => h.keep ha.2 taken

theorem ActionsExplained.run (run : AnyRun (step cfg) s as t) : ActionsExplained as s.db t.db :=
  run.mem.invariant (I := fun t => ActionsExplained as s.db t.db)
    ⟨fun _ row h => ⟨row, h, .untouched⟩, fun _ row h => ⟨row, .untouched, .inl h⟩⟩
    fun _ _ _ h ha taken => h.keep ha.2 taken

/-- **The tables after any run.** Event rows are written once, action rows live through at most
one dispatch and one acknowledgement, and nothing else is in either table than what was there and
what the run's actions brought. -/
theorem rows_explained (cfg : Config) (s t : Channel) (as : List Act)
    (run : AnyRun (step cfg) s as t) :
    EventsExplained cfg as s.db t.db ∧ ActionsExplained as s.db t.db :=
  ⟨.run run, .run run⟩

/-- The agent reports its event twice and acknowledges an action in between. -/
def twiceRun : List Act :=
  onlineRun ++ [.receive 1 (eventText onlineHost.id) 0 0 true, .receive 1 (ackText 11#128) 0 5 true,
    .receive 1 (eventText onlineHost.id) 0 0 true]

theorem explained_sample :
    ∃ t, AnyRun (step twoHostsConfig) (initial twoHostsDb) twiceRun t ∧
      t.db.events.rows.length = 1 ∧ (∃ row, t.db.actions.find 11#128 = some row ∧
        row.ackedAt = some 5) ∧
      EventsExplained twoHostsConfig twiceRun twoHostsDb t.db ∧
      ActionsExplained twiceRun twoHostsDb t.db := by
  have hcheck : (exec (step twoHostsConfig) (initial twoHostsDb) twiceRun).any
      (fun t => t.db.events.rows.length == 1 &&
        (t.db.actions.find 11#128).any fun row => row.ackedAt == some 5) = true := by
    decide +kernel
  obtain ⟨t, hrun, ht⟩ := run_of_check hcheck
  simp only [Bool.and_eq_true, beq_iff_eq, Option.any_eq_true] at ht
  obtain ⟨hone, row, hrow, hacked⟩ := ht
  exact ⟨t, hrun, hone, ⟨row, hrow, hacked⟩, rows_explained _ _ _ _ hrun⟩

/-! ## A frame that arrives again -/

theorem persistEvent_duplicate {db : Db} {e e' : Event} (h : db.events.find e.id = some e') :
    persistEvent db e = .error .duplicateEvent := by
  unfold persistEvent
  split
  · rfl
  · rename_i hnone
    rw [h] at hnone
    cases hnone

/-- The handler takes an event that is stored already for a duplicate and waits for the next
frame. -/
theorem receive_duplicate (c : ConnId) (conn : Conn) (hostId : Uuid) (now : Int) {window : Window}
    {raw : Str} {mono : Int} {e e' : Event}
    (read : (readFrame cfg.lib cfg.limits window mono raw).2 = .event e)
    (stored : s.db.events.find e.id = some e') :
    (s.receive cfg c conn hostId window raw mono now true).db = s.db ∧
      (s.receive cfg c conn hostId window raw mono now true).conns c = some { conn with
        phase := .serving hostId (readFrame cfg.lib cfg.limits window mono raw).1 } := by
  have hserved : serveFrame s.db now true (.event e) = (s.db, .stay) := by
    simp [serveFrame, persistEvent_duplicate stored]
  unfold Channel.receive
  dsimp only
  rw [read, hserved]
  exact ⟨rfl, setConn_self _ _ _⟩

theorem step_receive {c : ConnId} {conn : Conn} {hostId : Uuid} {window : Window} {raw : Str}
    {mono now : Int} {dbUp : Bool} (here : s.conns c = some conn)
    (phase : conn.phase = .serving hostId window) :
    step cfg s (.receive c raw mono now dbUp) =
      some (s.receive cfg c conn hostId window raw mono now dbUp) := by
  simp only [step, fromPhase, here, phase]

/-- **Redelivery.** Once an event is stored, a frame with an event of its id that arrives while the
database answers changes nothing in it, at any later time and on any connection, and the connection
goes on. -/
theorem redelivery_absorbed (cfg : Config) (s t u : Channel) (as : List Act) (e e' : Event)
    (c : ConnId) (conn : Conn) (hostId : Uuid) (window : Window) (raw : Str) (mono now : Int)
    (stored : s.db.events.find e.id = some e) (run : AnyRun (step cfg) s as t)
    (here : t.conns c = some conn) (phase : conn.phase = .serving hostId window)
    (read : (readFrame cfg.lib cfg.limits window mono raw).2 = .event e') (same : e'.id = e.id)
    (taken : step cfg t (.receive c raw mono now true) = some u) :
    u.db = t.db ∧ u.db.events.find e.id = some e ∧
      u.conns c = some { conn with
        phase := .serving hostId (readFrame cfg.lib cfg.limits window mono raw).1 } := by
  have hstill : t.db.events.find e.id = some e := (EventsExplained.run run).kept _ _ stored
  have hu : u = t.receive cfg c conn hostId window raw mono now true :=
    Option.some.inj (taken.symm.trans (step_receive here phase))
  obtain ⟨hdb, hconn⟩ :=
    receive_duplicate c conn hostId now read (by rw [same]; exact hstill)
  subst hu
  exact ⟨hdb, by rw [hdb]; exact hstill, hconn⟩

/-- The event that a frame carries. -/
def eventId : FrameRead → Option Uuid
  | .event event => some event.id
  | _ => none

/-- The agent's event is stored and its connection waits for a frame. -/
def reported (s : Channel) : Bool :=
  match s.conns 1 with
  | some conn =>
    match conn.phase with
    | .serving _ window => (s.db.events.find 13#128).isSome &&
      eventId (readFrame twoHostsConfig.lib twoHostsConfig.limits window 0
        (eventText onlineHost.id)).2 == some 13#128
    | _ => false
  | none => false

theorem eventId_eq_some {read : FrameRead} {id : Uuid} (h : eventId read = some id) :
    ∃ e, read = .event e ∧ e.id = id := by
  cases read with
  | event e => exact ⟨e, rfl, Option.some.inj h⟩
  | close | skip | ack | bye => cases h

theorem absorbed_sample :
    ∃ s u e, AnyRun (step twoHostsConfig) (initial twoHostsDb)
        (onlineRun ++ [.receive 1 (eventText onlineHost.id) 0 0 true]) s ∧
      step twoHostsConfig s (.receive 1 (eventText onlineHost.id) 0 9 true) = some u ∧
      u.db = s.db ∧ u.db.events.find 13#128 = some e := by
  have hcheck : (exec (step twoHostsConfig) (initial twoHostsDb)
      (onlineRun ++ [.receive 1 (eventText onlineHost.id) 0 0 true])).any reported = true := by
    decide +kernel
  obtain ⟨s, hrun, hs⟩ := run_of_check hcheck
  unfold reported at hs
  split at hs
  · rename_i conn here
    split at hs
    · rename_i hostId window phase
      rw [Bool.and_eq_true, beq_iff_eq, Option.isSome_iff_exists] at hs
      obtain ⟨⟨e, stored⟩, hread⟩ := hs
      obtain ⟨e', read, hid'⟩ := eventId_eq_some hread
      have hid : e.id = 13#128 := (Table.find_some stored).2
      have taken : step twoHostsConfig s (.receive 1 (eventText onlineHost.id) 0 9 true) = _ :=
        step_receive here phase
      obtain ⟨hdb, hstill, -⟩ := redelivery_absorbed twoHostsConfig s s _ [] e e' 1 conn hostId
        window _ 0 9 (by rw [hid]; exact stored) (.nil s) here phase read (hid'.trans hid.symm)
        taken
      exact ⟨s, _, e, hrun, taken, hdb, by rw [← hid]; exact hstill⟩
    · cases hs
  · cases hs

end Channel

end ZaqorinCore.Server
