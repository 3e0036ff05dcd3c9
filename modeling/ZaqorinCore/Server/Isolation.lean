import ZaqorinCore.Server.Channel

/-!
# One agent, one host

A connection authenticates as a host, but the frames it sends carry a host of their own (events)
or none at all (acknowledgements). `isolated_iff_own_frames` says when the rows a connection
leaves in the database are all of its own host: exactly when every frame that changes something
asks for that. `foreign_frames_change_other_host` is a run in which an agent stores an event for
another host and acknowledges another host's action.
-/

namespace ZaqorinCore.Server

open Text Base

namespace Channel

/-- Every event stored and every action changed for a connection is of the host it authenticated
as. -/
def Isolated (history : History) : Prop :=
  (∀ p ∈ history.persisted, p.2.hostId = p.1) ∧ ∀ p ∈ history.changed, p.2.hostId = some p.1

/-- What a frame must ask for on a connection of `hostId`: a new event names that host, and an
acknowledgement of a dispatched action names an action of it. -/
def OwnFrame (db : Db) (hostId : Uuid) (dbUp : Bool) : FrameRead → Prop
  | .event event => dbUp = true → db.events.find event.id = none →
      (db.hosts.find event.hostId).isSome = true → event.hostId = hostId
  | .ack id _ => dbUp = true → ∀ row, db.actions.find id = some row → row.status = .dispatched →
      row.hostId = some hostId
  | _ => True

/-- The frame that an action receives is one the connection may send. -/
def ReceivesOwn (cfg : Config) (s : Channel) : Act → Prop
  | .receive c raw mono _ dbUp => ∀ conn hostId window, s.conns c = some conn →
      conn.phase = .serving hostId window →
      OwnFrame s.db hostId dbUp (readFrame cfg.lib cfg.limits window mono raw).2
  | _ => True

/-! ## What a frame leaves in the database -/

theorem newEvents_of_eq {db db' : Db} (h : db'.events = db.events) : newEvents db db' = [] := by
  unfold newEvents
  rw [h, List.filter_eq_nil_iff]
  intro e he
  rw [Table.find_of_mem he]
  simp

theorem changedActions_of_eq {db db' : Db} (h : db'.actions = db.actions) :
    changedActions db db' = [] := by
  unfold changedActions
  rw [h, List.filter_eq_nil_iff]
  intro a ha
  rw [Table.find_of_mem ha]
  simp

theorem mem_newEvents_insert {db : Db} {event : Event} (hnew : db.events.find event.id = none)
    (e : Event) :
    e ∈ newEvents db { db with events := db.events.insert event hnew } ↔ e = event := by
  unfold newEvents Table.insert
  rw [List.mem_filter, List.mem_append, List.mem_singleton]
  constructor
  · rintro ⟨he | rfl, hfresh⟩
    · rw [Table.find_of_mem he] at hfresh
      cases hfresh
    · rfl
  · rintro rfl
    refine ⟨Or.inr rfl, ?_⟩
    rw [hnew]
    rfl

/-- A conditional `UPDATE` that leaves the status behind changes the row it selects and no
other. -/
theorem mem_changedActions_setStatus {db : Db} {id : Uuid} {from_ : Status} {f : Action → Action}
    {hf : ∀ a, (f a).id = a.id} (hstatus : ∀ a, (f a).status ≠ from_) (a : Action) :
    a ∈ changedActions db (setStatus db id from_ f hf) ↔
      ∃ row, db.actions.find id = some row ∧ row.status = from_ ∧ a = f row := by
  unfold changedActions
  rw [List.mem_filter]
  constructor
  · rintro ⟨hmem, hne⟩
    have hfind := Table.find_of_mem hmem
    rw [find_setStatus] at hfind
    obtain ⟨row, hrow, hval⟩ := Option.map_eq_some_iff.mp hfind
    split at hval
    · rename_i hcond
      obtain ⟨hid, hfrom⟩ := hcond
      subst hval
      refine ⟨row, ?_, hfrom, rfl⟩
      rw [← hid, ← hf row]
      exact hrow
    · subst hval
      rw [hrow] at hne
      simp at hne
  · rintro ⟨row, hrow, hfrom, rfl⟩
    obtain ⟨-, hid⟩ := Table.find_some hrow
    have hfound : (setStatus db id from_ f hf).actions.find (f row).id = some (f row) := by
      rw [find_setStatus, hf, hid, hrow]
      simp [hid, hfrom]
    refine ⟨(Table.find_some hfound).1, ?_⟩
    rw [hf, hid, hrow]
    simp [hfrom, (hstatus row).symm]

theorem changedActions_markAcked_own {db : Db} {id : Uuid} {now : Int} {status : AckStatus}
    {hostId : Uuid} :
    (∀ a ∈ changedActions db (markAcked db id now status), a.hostId = some hostId) ↔
      ∀ row, db.actions.find id = some row → row.status = .dispatched →
        row.hostId = some hostId := by
  have hstatus : ∀ a : Action,
      { a with status := status.status, ackedAt := some now }.status ≠ Status.dispatched := by
    intro a
    cases status with
    | applied => exact fun h => by cases h
    | failed => exact fun h => by cases h
  rw [markAcked_eq]
  constructor
  · intro h row hrow hst
    exact h { row with status := status.status, ackedAt := some now }
      ((mem_changedActions_setStatus hstatus _).mpr ⟨row, hrow, hst, rfl⟩)
  · intro h a ha
    obtain ⟨row, hrow, hst, rfl⟩ := (mem_changedActions_setStatus hstatus a).mp ha
    exact h row hrow hst

/-- The rows a frame leaves are of the host exactly when it is a frame the host may send. -/
theorem serveFrame_own_iff {db : Db} {hostId : Uuid} {now : Int} {dbUp : Bool} {read : FrameRead} :
    ((∀ e ∈ newEvents db (serveFrame db now dbUp read).1, e.hostId = hostId) ∧
        ∀ a ∈ changedActions db (serveFrame db now dbUp read).1, a.hostId = some hostId) ↔
      OwnFrame db hostId dbUp read := by
  have hnothing : (∀ e ∈ newEvents db db, e.hostId = hostId) ∧
      ∀ a ∈ changedActions db db, a.hostId = some hostId := by
    rw [newEvents_of_eq rfl, changedActions_of_eq rfl]
    simp
  cases read with
  | close code => exact iff_of_true hnothing trivial
  | skip => exact iff_of_true hnothing trivial
  | bye => exact iff_of_true hnothing trivial
  | event event =>
    cases dbUp with
    | false => exact iff_of_true hnothing (fun h => by cases h)
    | true =>
      cases hstore : persistEvent db event with
      | ok db' =>
        obtain ⟨hnew, hhost, rfl⟩ := persistEvent_ok hstore
        have hactions : changedActions db { db with events := db.events.insert event hnew } = [] :=
          changedActions_of_eq rfl
        rw [serveFrame_event_stored hstore, hactions]
        simp only [mem_newEvents_insert, forall_eq, List.not_mem_nil, false_implies,
          implies_true, and_true]
        exact ⟨fun h _ _ _ => h, fun h => h rfl hnew hhost⟩
      | error err =>
        rw [serveFrame_event_refused hstore]
        refine iff_of_true hnothing ?_
        intro _ hnew hhost
        rw [persistEvent_error hstore hnew] at hhost
        cases hhost
  | ack id status =>
    cases dbUp with
    | false => exact iff_of_true hnothing (fun h => by cases h)
    | true =>
      have hevents : newEvents db (markAcked db id now status) = [] :=
        newEvents_of_eq (by rw [markAcked_eq]; rfl)
      rw [serveFrame_ack, hevents, changedActions_markAcked_own]
      simp [OwnFrame]

/-! ## Runs -/

theorem isolated_record {s : Channel} {hostId : Uuid} {db' : Db} {dbUp : Bool} {read : FrameRead} :
    Isolated (s.record hostId db' dbUp read) ↔ Isolated s.history ∧
      (∀ e ∈ newEvents s.db db', e.hostId = hostId) ∧
        ∀ a ∈ changedActions s.db db', a.hostId = some hostId := by
  unfold Isolated record
  simp only [List.mem_append, List.mem_map, or_imp, forall_and, forall_exists_index, and_imp,
    forall_apply_eq_imp_iff₂]
  tauto

theorem isolated_step {cfg : Config} {s t : Channel} {a : Act} (h : step cfg s a = some t) :
    Isolated t.history ↔ Isolated s.history ∧ ReceivesOwn cfg s a := by
  have hsame : ∀ {t : Channel}, t.history.persisted = s.history.persisted →
      t.history.changed = s.history.changed → ReceivesOwn cfg s a →
      (Isolated t.history ↔ Isolated s.history ∧ ReceivesOwn cfg s a) := by
    intro t hp hc hown
    unfold Isolated
    rw [hp, hc]
    exact ⟨fun h => ⟨h, hown⟩, fun h => h.1⟩
  rcases step_rows h with ⟨-, hp, hc, hother⟩ |
    ⟨c, raw, mono, now, dbUp, conn, hostId, window, rfl, here, phase, rfl⟩ |
    ⟨_, _, _, rfl, -, rfl⟩ | ⟨_, _, rfl, -, rfl⟩
  · refine hsame hp hc ?_
    unfold ReceivesOwn
    split
    · exact absurd rfl (hother _ _ _ _ _)
    · trivial
  · rw [Channel.receive, isolated_record, serveFrame_own_iff]
    refine and_congr_right fun _ => ?_
    constructor
    · intro hown conn' hostId' window' here' phase'
      rw [here] at here'
      cases here'
      rw [phase] at phase'
      cases phase'
      exact hown
    · intro hown
      exact hown conn hostId window here phase
  · exact hsame rfl rfl trivial
  · exact hsame rfl rfl trivial

/-- **Host isolation.** In every run, the rows that connections left in the database are of
their own hosts exactly when every frame received asked for rows of the connection's host. -/
theorem isolated_iff_own_frames (cfg : Config) (s t : Channel) (as : List Act) (start : Start s)
    (run : AnyRun (step cfg) s as t) :
    Isolated t.history ↔ Run (step cfg) (ReceivesOwn cfg) s as t := by
  have hstart : Isolated s.history := by
    rw [start.history]
    exact ⟨by simp, by simp⟩
  exact Run.iff_of_step (I := fun _ => True) (P := fun s => Isolated s.history) trivial
    (fun _ _ _ _ _ => trivial) hstart (fun _ _ _ _ h => isolated_step h) run

/-! ## Frames about another host -/

def otherHost : Host := ⟨9#128, some "other-secret".toList, true⟩

/-- An action of the other host that its agent has yet to acknowledge. -/
def otherAction : Action :=
  ⟨11#128, some otherHost.id, Kind.blockIp.name, "203.0.113.7".toList, none, .dispatched, some 0,
    none, 0⟩

def twoHostsDb : Db :=
  ⟨⟨[onlineHost, otherHost], by decide⟩, Table.empty, ⟨[otherAction], by decide⟩⟩

def foreignTime : Str := "2026-01-02T03:04:05Z".toList

def eventText (hostId : Uuid) : Str :=
  objectText [("type", quoted "event".toList), ("event", objectText [
    ("schema", quoted "1".toList), ("id", quoted (uuidStr 13#128)),
    ("timestamp", quoted foreignTime), ("host_id", quoted (uuidStr hostId)),
    ("source", quoted "auth".toList), ("raw", quoted "login".toList)])]

def eventJson (hostId : Uuid) : Json :=
  .obj [("type".toList, .str "event".toList), ("event".toList, .obj [
    ("schema".toList, .str "1".toList), ("id".toList, .str (uuidStr 13#128)),
    ("timestamp".toList, .str foreignTime), ("host_id".toList, .str (uuidStr hostId)),
    ("source".toList, .str "auth".toList), ("raw".toList, .str "login".toList)])]

def twoHostsConfig : Config :=
  onlineConfig [(eventText onlineHost.id, eventJson onlineHost.id),
    (eventText otherHost.id, eventJson otherHost.id), (ackText 11#128, ackJson 11#128)]
    [otherHost.id, 11#128, 13#128] [(foreignTime, 0)]

/-- The agent of one host reports an event of its own. -/
theorem own_event_isolated :
    ∃ t, AnyRun (step twoHostsConfig) (initial twoHostsDb)
        (onlineRun ++ [.receive 1 (eventText onlineHost.id) 0 0 true]) t ∧
      t.history.persisted.length = 1 ∧
      Run (step twoHostsConfig) (ReceivesOwn twoHostsConfig) (initial twoHostsDb)
        (onlineRun ++ [.receive 1 (eventText onlineHost.id) 0 0 true]) t := by
  have hcheck : (exec (step twoHostsConfig) (initial twoHostsDb)
      (onlineRun ++ [.receive 1 (eventText onlineHost.id) 0 0 true])).any
      (fun t => t.history.persisted.length == 1 && t.history.changed.length == 0 &&
        t.history.persisted.all fun p => p.2.hostId == p.1) = true := by
    decide +kernel
  obtain ⟨t, hrun, ht⟩ := run_of_check hcheck
  simp only [Bool.and_eq_true, beq_iff_eq, List.length_eq_zero_iff, List.all_eq_true] at ht
  obtain ⟨⟨hone, hchanged⟩, howned⟩ := ht
  refine ⟨t, hrun, hone, ?_⟩
  refine (isolated_iff_own_frames _ _ _ _ (start_initial _) hrun).mp ⟨howned, ?_⟩
  rw [hchanged]
  simp

/-- The agent of one host stores an event for another host and acknowledges its action. -/
theorem foreign_frames_change_other_host :
    ∃ t, AnyRun (step twoHostsConfig) (initial twoHostsDb)
        (onlineRun ++ [.receive 1 (eventText otherHost.id) 0 0 true,
          .receive 1 (ackText 11#128) 0 0 true]) t ∧
      (∃ p ∈ t.history.persisted, p.1 = onlineHost.id ∧ p.2.hostId = otherHost.id) ∧
      (∃ p ∈ t.history.changed, p.1 = onlineHost.id ∧ p.2.hostId = some otherHost.id) ∧
      ¬ Isolated t.history := by
  have hcheck : (exec (step twoHostsConfig) (initial twoHostsDb)
      (onlineRun ++ [.receive 1 (eventText otherHost.id) 0 0 true,
        .receive 1 (ackText 11#128) 0 0 true])).any
      (fun t => (t.history.persisted.any fun p =>
          p.1 == onlineHost.id && p.2.hostId == otherHost.id) &&
        t.history.changed.any fun p =>
          p.1 == onlineHost.id && p.2.hostId == some otherHost.id) = true := by
    decide +kernel
  obtain ⟨t, hrun, ht⟩ := run_of_check hcheck
  simp only [Bool.and_eq_true, beq_iff_eq, List.any_eq_true] at ht
  obtain ⟨⟨p, hp, hfor, hhost⟩, hchanged⟩ := ht
  refine ⟨t, hrun, ⟨p, hp, hfor, hhost⟩, hchanged, ?_⟩
  rintro ⟨hpersisted, -⟩
  have := hpersisted p hp
  rw [hfor, hhost] at this
  revert this
  decide

end Channel

end ZaqorinCore.Server
