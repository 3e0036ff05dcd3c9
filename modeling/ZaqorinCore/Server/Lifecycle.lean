import ZaqorinCore.Server.Channel

/-!
# The life of an action

The dispatcher writes a command's frame first and marks its row `dispatched` afterwards; the
handler of the agent's connection marks the row `applied` or `failed`, but only a row that is
`dispatched`. Whatever the interleaving, a status only moves forward (`statuses_move`). That an
acknowledgement is not lost needs more: `ack_kept` proves it for the runs in which no
acknowledgement overtakes the dispatcher's mark, and `ack_overtakes_mark` is a run in which one
does and the action stays `dispatched` for good.
-/

namespace ZaqorinCore.Server

open Text Base

/-- The transitions of `action_service.py`. -/
inductive Moves : Status → Status → Prop
  | dispatch : Moves .pending .dispatched
  | apply : Moves .dispatched .applied
  | fail : Moves .dispatched .failed

def Dispatch.isIdle : Dispatch → Bool
  | .idle => true
  | _ => false

theorem Dispatch.isIdle_iff {d : Dispatch} : d.isIdle = true ↔ d = .idle := by
  cases d <;> simp [isIdle]

namespace Channel

/-- The status of every row has moved forward, if at all. -/
def Forward (db db' : Db) : Prop :=
  ∀ id row, db.actions.find id = some row → ∃ row', db'.actions.find id = some row' ∧
    Relation.ReflTransGen Moves row.status row'.status

/-- The first acknowledgement of a command that had been sent. -/
def firstAck (history : History) (id : Uuid) : Option AckStatus :=
  (history.acked.find? fun a => a.1 == id).map Prod.snd

/-- While no tick is under way, an acknowledged action has the acknowledged status. -/
def AckKept (s : Channel) : Prop :=
  s.dispatcher = .idle → ∀ id row status, s.db.actions.find id = some row →
    firstAck s.history id = some status → row.status = status.status

def sentIds (history : History) : List Uuid := history.sent.map Prod.fst

/-- An acknowledgement of a command that has been sent finds its row marked. -/
def AcksMarked (cfg : Config) (s : Channel) : Act → Prop
  | .receive c raw mono _ dbUp => ∀ conn hostId window id status row,
      s.conns c = some conn → conn.phase = .serving hostId window →
      (readFrame cfg.lib cfg.limits window mono raw).2 = .ack id status → dbUp = true →
      id ∈ sentIds s.history → s.db.actions.find id = some row → row.status ≠ .pending
  | _ => True

/-! ## Statuses move forward -/

theorem Forward.of_eq {db db' : Db} (h : db'.actions = db.actions) : Forward db db' := by
  intro id row hrow
  exact ⟨row, by rw [h]; exact hrow, .refl⟩

theorem Forward.trans {db₁ db₂ db₃ : Db} (h₁ : Forward db₁ db₂) (h₂ : Forward db₂ db₃) :
    Forward db₁ db₃ := by
  intro id row hrow
  obtain ⟨row₂, hrow₂, hmove₁⟩ := h₁ id row hrow
  obtain ⟨row₃, hrow₃, hmove₂⟩ := h₂ id row₂ hrow₂
  exact ⟨row₃, hrow₃, hmove₁.trans hmove₂⟩

theorem Forward.setStatus {db : Db} {id : Uuid} {from_ next : Status} {f : Action → Action}
    {hf : ∀ a, (f a).id = a.id} (hmove : Moves from_ next) (hnext : ∀ a, (f a).status = next) :
    Forward db (setStatus db id from_ f hf) := by
  intro k row hrow
  refine ⟨_, find_setStatus_of_find hrow, ?_⟩
  split
  · rename_i hcond
    rw [hnext, hcond.2]
    exact .single hmove
  · exact .refl

theorem Forward.markAcked (db : Db) (id : Uuid) (now : Int) (status : AckStatus) :
    Forward db (markAcked db id now status) := by
  rw [markAcked_eq]
  cases status with
  | applied => exact Forward.setStatus .apply fun _ => rfl
  | failed => exact Forward.setStatus .fail fun _ => rfl

theorem Forward.serveFrame (db : Db) (now : Int) (dbUp : Bool) (read : FrameRead) :
    Forward db (serveFrame db now dbUp read).1 := by
  by_cases hack : ∃ id status, read = .ack id status ∧ dbUp = true
  · obtain ⟨id, status, rfl, rfl⟩ := hack
    exact Forward.markAcked db id now status
  · refine Forward.of_eq (serveFrame_actions fun id status hread => ?_)
    exact Bool.eq_false_iff.mpr fun hup => hack ⟨id, status, hread, hup⟩

theorem Forward.step {cfg : Config} {s t : Channel} {a : Act} (h : step cfg s a = some t) :
    Forward s.db t.db := by
  rcases step_rows h with ⟨hactions, -⟩ | ⟨_, _, _, _, _, _, _, _, -, -, -, rfl⟩ |
    ⟨_, _, _, -, -, rfl⟩ | ⟨action, db, -, written, rfl⟩
  · exact Forward.of_eq hactions
  · exact Forward.serveFrame _ _ _ _
  · exact Forward.setStatus .dispatch fun _ => rfl
  · intro id row hrow
    obtain ⟨hnew, -, hfind⟩ := writeAction_find written id
    refine ⟨row, ?_, .refl⟩
    rw [hfind, if_neg, hrow]
    rintro rfl
    rw [hnew] at hrow
    cases hrow

/-- In every run, every status moves along pending, dispatched, and then applied or failed. -/
theorem statuses_move {cfg : Config} {s t : Channel} {as : List Act}
    (run : AnyRun (step cfg) s as t) : Forward s.db t.db :=
  run.invariant (I := fun t => Forward s.db t.db) (Forward.of_eq rfl)
    fun _ _ _ hforward _ taken => hforward.trans (Forward.step taken)

/-! ## Acknowledgements are kept -/

/-- The actions that the tick under way may still send or mark. -/
def held : Dispatch → List Uuid
  | .idle => []
  | .working rows => rows.map fun r => r.1.id
  | .sending action _ _ _ rows => action.id :: rows.map fun r => r.1.id
  | .failed _ _ rows => rows.map fun r => r.1.id
  | .sent action rows => action.id :: rows.map fun r => r.1.id

/-- What the row of a sent command says about its acknowledgements. -/
def AckSound (first : Option AckStatus) (status : Status) : Prop :=
  match first with
  | none => status = .pending ∨ status = .dispatched
  | some ack => status = ack.status

structure AckInv (s : Channel) : Prop where
  nodup : (held s.dispatcher).Nodup
  pending : ∀ id ∈ held s.dispatcher, ∃ row, s.db.actions.find id = some row ∧
    row.status = .pending
  written : ∀ action rows, s.dispatcher = .sent action rows → action.id ∈ sentIds s.history
  unsent : ∀ id, id ∉ sentIds s.history → firstAck s.history id = none
  sound : ∀ id ∈ sentIds s.history, ∃ row, s.db.actions.find id = some row ∧
    AckSound (firstAck s.history id) row.status

theorem AckInv.start {s : Channel} (h : Start s) : AckInv s where
  nodup := by
    rw [h.dispatcher]
    exact List.nodup_nil
  pending := by
    rw [h.dispatcher]
    simp [held]
  written := by
    intro action rows hd
    rw [h.dispatcher] at hd
    cases hd
  unsent := by
    intro id _
    rw [h.history]
    rfl
  sound := by
    rw [h.history]
    simp [sentIds]

theorem AckInv.kept {s : Channel} (hI : AckInv s) : AckKept s := by
  intro _ id row status hrow hack
  by_cases hsent : id ∈ sentIds s.history
  · obtain ⟨row', hrow', hsound⟩ := hI.sound id hsent
    rw [hrow] at hrow'
    cases hrow'
    rw [hack] at hsound
    exact hsound
  · rw [hI.unsent id hsent] at hack
    cases hack

/-- The invariant looks only at the rows, the dispatcher, and the sent and acknowledged
commands. -/
theorem AckInv.congr {s t : Channel} (hI : AckInv s) (hactions : t.db.actions = s.db.actions)
    (hdispatcher : t.dispatcher = s.dispatcher) (hsent : t.history.sent = s.history.sent)
    (hacked : t.history.acked = s.history.acked) : AckInv t := by
  obtain ⟨hnodup, hpending, hwritten, hunsent, hsound⟩ := hI
  refine ⟨?_, ?_, ?_, ?_, ?_⟩
  · rw [hdispatcher]
    exact hnodup
  · rw [hdispatcher, hactions]
    exact hpending
  · unfold sentIds
    rw [hdispatcher, hsent]
    exact hwritten
  · unfold sentIds firstAck
    rw [hsent, hacked]
    exact hunsent
  · unfold sentIds firstAck
    rw [hsent, hacked, hactions]
    exact hsound

/-- The dispatcher drops or keeps what it holds. -/
theorem AckInv.setDispatcher {s : Channel} (hI : AckInv s) {d : Dispatch}
    (hsub : List.Sublist (held d) (held s.dispatcher))
    (hsent : ∀ action rows, d ≠ .sent action rows) : AckInv { s with dispatcher := d } where
  nodup := hI.nodup.sublist hsub
  pending := fun id hid => hI.pending id (hsub.subset hid)
  written := fun action rows h => absurd h (hsent action rows)
  unsent := hI.unsent
  sound := hI.sound

theorem held_dispatchRow (cfg : Config) (s : Channel) (now : UtcTime) (action : Action)
    (host : Option Host) (rows : List (Action × Option Host)) :
    List.Sublist (held (s.dispatchRow cfg now action host rows))
        (held (.working ((action, host) :: rows))) ∧
      ∀ a rs, s.dispatchRow cfg now action host rows ≠ .sent a rs := by
  have hskip : List.Sublist (held (.working rows)) (held (.working ((action, host) :: rows))) :=
    List.sublist_cons_self _ _
  obtain h | ⟨_, _, _, -, -, h⟩ := dispatchRow_cases cfg s now action host rows
  · rw [h]
    exact ⟨hskip, fun _ _ hsent => by cases hsent⟩
  · rw [h]
    exact ⟨List.Sublist.refl _, fun _ _ hsent => by cases hsent⟩

theorem AckInv.tick {s : Channel} (hI : AckInv s) {order : List Action}
    (selects : Selects s.db order) :
    AckInv { s with dispatcher := .working (selected s.db order) } := by
  obtain ⟨hperm, -⟩ := selects
  have hheld : held (.working (selected s.db order)) = (order.take 16).map Action.id :=
    List.map_map
  have hmem : ∀ a ∈ order, a ∈ s.db.actions.rows ∧ a.status = .pending := by
    intro a ha
    simpa using List.mem_filter.mp (hperm.subset ha)
  refine ⟨?_, ?_, nofun, hI.unsent, hI.sound⟩
  · rw [hheld]
    have hrows : ((s.db.actions.rows.filter fun a => a.status == .pending).map Action.id).Nodup :=
      s.db.actions.nodup.sublist (List.filter_sublist.map _)
    have horder : (order.map Action.id).Nodup := (hperm.map _).nodup_iff.mpr hrows
    exact horder.sublist ((List.take_sublist 16 order).map _)
  · intro id hid
    rw [hheld] at hid
    obtain ⟨a, ha, rfl⟩ := List.mem_map.mp hid
    obtain ⟨hrow, hpending⟩ := hmem a (List.mem_of_mem_take ha)
    exact ⟨a, Table.find_of_mem hrow, hpending⟩

theorem AckInv.sendOk {s : Channel} (hI : AckInv s) {action : Action} {host : Host}
    {ws : ConnId} {frame : CommandFrame} {rows : List (Action × Option Host)}
    (sending : s.dispatcher = .sending action host ws frame rows) :
    AckInv { s with
      dispatcher := .sent action rows
      history := { s.history with sent := s.history.sent ++ [(action.id, ws)] } } := by
  have hheld : held (.sent action rows) = held s.dispatcher := by
    rw [sending]
    rfl
  have hids : ∀ id, id ∈ sentIds { s.history with sent := s.history.sent ++ [(action.id, ws)] } ↔
      id ∈ sentIds s.history ∨ id = action.id := by
    simp [sentIds]
  refine ⟨?_, ?_, ?_, ?_, ?_⟩
  · show (held (.sent action rows)).Nodup
    rw [hheld]
    exact hI.nodup
  · show ∀ id ∈ held (.sent action rows), _
    rw [hheld]
    exact hI.pending
  · intro a rs h
    cases h
    exact (hids _).mpr (Or.inr rfl)
  · intro id hid
    exact hI.unsent id fun h => hid ((hids id).mpr (Or.inl h))
  · intro id hid
    by_cases hold : id ∈ sentIds s.history
    · exact hI.sound id hold
    · -- the first time its frame is written, the row is pending and unacknowledged
      obtain hid | rfl := (hids id).mp hid
      · exact absurd hid hold
      · obtain ⟨row, hrow, hpending⟩ := hI.pending action.id (by
          rw [sending]
          exact List.mem_cons_self)
        refine ⟨row, hrow, ?_⟩
        show AckSound (firstAck s.history action.id) row.status
        rw [hI.unsent _ hold]
        exact Or.inl hpending

theorem AckInv.mark {s : Channel} (hI : AckInv s) {now : Int} {action : Action}
    {rows : List (Action × Option Host)} (sent : s.dispatcher = .sent action rows) :
    AckInv { s with
      db := (markDispatched s.db action.id now).1, dispatcher := .working rows } := by
  have hnodup := hI.nodup
  have hpending := hI.pending
  rw [sent] at hnodup hpending
  obtain ⟨hnot, hnodup⟩ := List.nodup_cons.mp hnodup
  refine ⟨hnodup, ?_, nofun, hI.unsent, ?_⟩
  · intro id hid
    obtain ⟨row, hrow, hst⟩ := hpending id (List.mem_cons_of_mem _ hid)
    have hne : id ≠ action.id := fun h => hnot (h ▸ hid)
    refine ⟨row, ?_, hst⟩
    rw [markDispatched, find_setStatus_of_find hrow, if_neg (fun h => hne h.1)]
  · intro id hid
    obtain ⟨row, hrow, hsound⟩ := hI.sound id hid
    refine ⟨_, find_setStatus_of_find hrow, ?_⟩
    show AckSound (firstAck s.history id) _
    split
    · rename_i hcond
      -- a pending row has not been acknowledged
      cases hack : firstAck s.history id with
      | none => exact Or.inr rfl
      | some ack =>
        rw [hack, hcond.2] at hsound
        cases ack with
        | applied => cases hsound
        | failed => cases hsound
    · exact hsound

theorem AckInv.writeAction {s : Channel} (hI : AckInv s) {action : Action} {db : Db}
    (written : Channel.writeAction s.db action = some db) : AckInv { s with db } := by
  have hkeep : ∀ id row, s.db.actions.find id = some row → db.actions.find id = some row := by
    intro id row hrow
    obtain ⟨hnew, -, hfind⟩ := writeAction_find written id
    rw [hfind, if_neg, hrow]
    rintro rfl
    rw [hnew] at hrow
    cases hrow
  refine ⟨hI.nodup, ?_, hI.written, hI.unsent, ?_⟩
  · intro id hid
    obtain ⟨row, hrow, hst⟩ := hI.pending id hid
    exact ⟨row, hkeep id row hrow, hst⟩
  · intro id hid
    obtain ⟨row, hrow, hsound⟩ := hI.sound id hid
    exact ⟨row, hkeep id row hrow, hsound⟩

/-! ### Served frames -/

theorem record_acked_of_quiet {s : Channel} {hostId : Uuid} {db' : Db} {dbUp : Bool}
    {read : FrameRead} (h : ∀ id status, read = .ack id status → dbUp = false) :
    (s.record hostId db' dbUp read).acked = s.history.acked := by
  cases read with
  | ack id status =>
    rw [h id status rfl]
    rfl
  | close code => rfl
  | skip => rfl
  | event event => rfl
  | bye => rfl

theorem record_acked_unsent {s : Channel} {hostId : Uuid} {db' : Db} {id : Uuid}
    {status : AckStatus} (h : id ∉ sentIds s.history) :
    (s.record hostId db' true (.ack id status)).acked = s.history.acked := by
  have hcontains : (s.history.sent.map Prod.fst).contains id = false := by
    simpa [sentIds] using h
  simp only [record, hcontains]
  rfl

theorem record_acked_sent {s : Channel} {hostId : Uuid} {db' : Db} {id : Uuid}
    {status : AckStatus} (h : id ∈ sentIds s.history) :
    (s.record hostId db' true (.ack id status)).acked = s.history.acked ++ [(id, status)] := by
  have hcontains : (s.history.sent.map Prod.fst).contains id = true := by
    rw [List.contains_iff_mem]
    exact h
  simp only [record, hcontains]
  rfl

theorem firstAck_append {history history' : History} {id : Uuid} {status : AckStatus}
    (h : history'.acked = history.acked ++ [(id, status)]) (k : Uuid) :
    firstAck history' k =
      (firstAck history k).or (if k = id then some status else none) := by
  unfold firstAck
  rw [h, List.find?_append, Option.map_or]
  congr 1
  by_cases hk : k = id
  · subst hk
    simp
  · rw [if_neg hk, List.find?_cons_of_neg (by simpa using Ne.symm hk)]
    rfl

theorem firstAck_congr {history history' : History} (h : history'.acked = history.acked)
    (k : Uuid) : firstAck history' k = firstAck history k := by
  unfold firstAck
  rw [h]

/-- The rows after an acknowledgement: the one it names, when it was dispatched, and the rest as
they were. -/
theorem find_markAcked {db : Db} {id k : Uuid} {now : Int} {status : AckStatus} {row : Action}
    (h : db.actions.find k = some row) :
    (markAcked db id now status).actions.find k =
      some (if k = id ∧ row.status = .dispatched then
        { row with status := status.status, ackedAt := some now } else row) := by
  rw [markAcked_eq]
  exact find_setStatus_of_find h

/-- An acknowledgement that finds its row marked. -/
theorem AckInv.ack {s t : Channel} (hI : AckInv s) (id : Uuid) (status : AckStatus) (now : Int)
    (hmarked : id ∈ sentIds s.history → ∀ row, s.db.actions.find id = some row →
      row.status ≠ .pending)
    (hactions : t.db.actions = (markAcked s.db id now status).actions)
    (hdispatcher : t.dispatcher = s.dispatcher) (hsent : t.history.sent = s.history.sent)
    (hacked : t.history.acked =
      if id ∈ sentIds s.history then s.history.acked ++ [(id, status)] else s.history.acked) :
    AckInv t := by
  have hids : sentIds t.history = sentIds s.history := by
    unfold sentIds
    rw [hsent]
  refine ⟨?_, ?_, ?_, ?_, ?_⟩
  · rw [hdispatcher]
    exact hI.nodup
  · intro k hk
    rw [hdispatcher] at hk
    obtain ⟨row, hrow, hpending⟩ := hI.pending k hk
    refine ⟨row, ?_, hpending⟩
    rw [hactions, find_markAcked hrow, if_neg]
    rintro ⟨-, hst⟩
    rw [hpending] at hst
    cases hst
  · rw [hdispatcher, hids]
    exact hI.written
  · intro k hk
    rw [hids] at hk
    split at hacked
    · rename_i hid
      have hne : k ≠ id := by
        rintro rfl
        exact hk hid
      rw [firstAck_append hacked, hI.unsent k hk, if_neg hne]
      rfl
    · rw [firstAck_congr hacked]
      exact hI.unsent k hk
  · intro k hk
    rw [hids] at hk
    obtain ⟨row, hrow, hsound⟩ := hI.sound k hk
    refine ⟨_, by rw [hactions, find_markAcked hrow], ?_⟩
    by_cases hkid : k = id
    · subst hkid
      rw [if_pos hk] at hacked
      rw [firstAck_append hacked, if_pos rfl]
      cases hfirst : firstAck s.history k with
      | none =>
        -- the first acknowledgement: the row is dispatched
        rw [hfirst] at hsound
        have hdispatched : row.status = .dispatched := by
          rcases hsound with hpending | hdispatched
          · exact absurd hpending (hmarked hk row hrow)
          · exact hdispatched
        rw [if_pos ⟨rfl, hdispatched⟩]
        rfl
      | some first =>
        rw [hfirst] at hsound
        rw [if_neg]
        · exact hsound
        · rintro ⟨-, hst⟩
          rw [hst] at hsound
          cases first with
          | applied => cases hsound
          | failed => cases hsound
    · rw [if_neg (fun h => hkid h.1)]
      have hfirst : firstAck t.history k = firstAck s.history k := by
        split at hacked
        · rw [firstAck_append hacked, if_neg hkid, Option.or_none]
        · exact firstAck_congr hacked k
      rw [hfirst]
      exact hsound

theorem AckInv.receive {cfg : Config} {s : Channel} (hI : AckInv s) {c : ConnId} {conn : Conn}
    {hostId : Uuid} {window : Window} {raw : Str} {mono now : Int} {dbUp : Bool}
    (here : s.conns c = some conn) (phase : conn.phase = .serving hostId window)
    (hok : AcksMarked cfg s (.receive c raw mono now dbUp)) :
    AckInv (s.receive cfg c conn hostId window raw mono now dbUp) := by
  have hok' := fun id status row => hok conn hostId window id status row here phase
  unfold Channel.receive
  generalize readFrame cfg.lib cfg.limits window mono raw = frame at hok' ⊢
  obtain ⟨window', read⟩ := frame
  dsimp only at hok' ⊢
  by_cases hack : ∃ id status, read = .ack id status ∧ dbUp = true
  · obtain ⟨id, status, rfl, rfl⟩ := hack
    refine hI.ack id status now ?_ rfl rfl rfl ?_
    · intro hid row hrow
      exact hok' id status row rfl rfl hid hrow
    · split
      · rename_i hid
        exact record_acked_sent hid
      · rename_i hid
        exact record_acked_unsent hid
  · have hquiet : ∀ id status, read = .ack id status → dbUp = false := by
      intro id status hread
      exact Bool.eq_false_iff.mpr fun hup => hack ⟨id, status, hread, hup⟩
    exact hI.congr (serveFrame_actions hquiet) rfl rfl (record_acked_of_quiet hquiet)

theorem AckInv.step {cfg : Config} {s t : Channel} {a : Act} (hI : AckInv s)
    (hok : AcksMarked cfg s a) (h : step cfg s a = some t) : AckInv t := by
  cases step_cases h with
  | connect _ => exact hI.congr rfl rfl rfl rfl
  | hello _ _ =>
    unfold Channel.hello
    split
    · exact hI.congr rfl rfl rfl rfl
    · exact hI.congr rfl rfl rfl rfl
  | authenticate _ _ =>
    unfold Channel.authenticate
    split
    · exact hI.congr rfl rfl rfl rfl
    · split
      · exact hI.congr rfl rfl rfl rfl
      · exact hI.congr rfl rfl rfl rfl
  | acknowledge _ _ => exact hI.congr rfl rfl rfl rfl
  | register _ _ => exact hI.congr rfl rfl rfl rfl
  | receive here phase => exact hI.receive here phase hok
  | drop _ _ _ => exact hI.congr rfl rfl rfl rfl
  | finish _ _ =>
    unfold Channel.finish cleanUp
    split
    · exact hI.congr rfl rfl rfl rfl
    · exact hI.congr rfl rfl rfl rfl
  | tick _ selects => exact hI.tick selects
  | next working =>
    obtain ⟨hsub, hsent⟩ := held_dispatchRow cfg s _ _ _ _
    rw [← working] at hsub
    exact hI.setDispatcher hsub hsent
  | sendOk sending => exact hI.sendOk sending
  | sendFail sending =>
    rename_i action host ws frame rows
    have h' := hI.setDispatcher (d := .failed host ws rows) (by
      rw [sending]
      exact List.sublist_cons_self _ _) nofun
    exact h'.congr rfl rfl rfl rfl
  | unregisterFailed failed =>
    have h' := hI.setDispatcher (d := .working _) (by rw [failed]; exact List.Sublist.refl _) nofun
    exact h'.congr rfl rfl rfl rfl
  | mark sent => exact hI.mark sent
  | markFails _ => exact hI.setDispatcher (List.nil_sublist _) nofun
  | tickDone _ => exact hI.setDispatcher (List.nil_sublist _) nofun
  | writeAction written => exact hI.writeAction written
  | saveHost => exact hI.congr (saveHost_actions _ _) rfl rfl rfl
  | ingest stored =>
    obtain ⟨hnew, -, rfl⟩ := persistEvent_ok stored
    exact hI.congr rfl rfl rfl rfl

/-- **Action life cycle.** In every run every status moves forward, and when no acknowledgement
of a sent command found its row still pending, every acknowledged action has the acknowledged
status once the tick is over. -/
theorem ack_kept (cfg : Config) :
    (∀ s t as, AnyRun (step cfg) s as t → Forward s.db t.db) ∧
      ∀ s t as, Start s → Run (step cfg) (AcksMarked cfg) s as t → AckKept t := by
  refine ⟨fun s t as run => statuses_move run, ?_⟩
  intro s t as start run
  have hI : AckInv t := run.invariant (AckInv.start start) fun _ _ _ hI hok h => hI.step hok h
  exact hI.kept

/-! ## An acknowledgement that overtakes the mark -/

def queuedAction : Action :=
  ⟨11#128, some onlineHost.id, Kind.blockIp.name, "203.0.113.7".toList, none, .pending, none,
    none, 0⟩

def queuedDb : Db :=
  ⟨⟨[onlineHost], nodup_onlineHost⟩, Table.empty, ⟨[queuedAction], by decide⟩⟩

def queuedConfig : Config := onlineConfig [(ackText 11#128, ackJson 11#128)] [11#128] []

/-- The tick has sent and marked the command before the agent acknowledges it. -/
def markedRun : List Act :=
  onlineRun ++ [.tick [queuedAction], .next .sample, .sendOk, .mark 1 true, .tickDone]

/-- The agent acknowledges the command while the dispatcher has yet to mark it. -/
def overtakenRun : List Act :=
  onlineRun ++ [.tick [queuedAction], .next .sample, .sendOk,
    .receive 1 (ackText 11#128) 0 1 true, .mark 2 true, .tickDone]

def actionStatus (s : Channel) (id : Uuid) : Option Status :=
  (s.db.actions.find id).map Action.status

theorem ack_kept_marked :
    ∃ t, AnyRun (step queuedConfig) (initial queuedDb)
        (markedRun ++ [.receive 1 (ackText 11#128) 0 2 true]) t ∧
      t.actionStatus 11#128 = some .applied ∧ AckKept t := by
  have hcheck : (exec (step queuedConfig) (initial queuedDb) markedRun).any
      (fun m => m.db.actions.rows.all (fun a => a.status != .pending) &&
        (step queuedConfig m (.receive 1 (ackText 11#128) 0 2 true)).any fun t =>
          t.actionStatus 11#128 == some .applied) = true := by
    decide +kernel
  obtain ⟨m, hm, hcheck⟩ := run_of_check hcheck
  rw [Bool.and_eq_true, List.all_eq_true] at hcheck
  obtain ⟨hmarked, hstep⟩ := hcheck
  obtain ⟨t, ht, happlied⟩ := (Option.any_eq_true _ _).mp hstep
  have hrun : Run (step queuedConfig) (AcksMarked queuedConfig) (initial queuedDb)
      (markedRun ++ [.receive 1 (ackText 11#128) 0 2 true]) t := by
    refine .snoc (hm.of_all (by simp [markedRun, onlineRun, AcksMarked])) ?_ ht
    intro conn hostId window id status row _ _ _ _ _ hrow hpending
    have := hmarked row (Table.find_some hrow).1
    rw [hpending] at this
    cases this
  exact ⟨t, hrun.any, beq_iff_eq.mp happlied,
    (ack_kept queuedConfig).2 _ _ _ (start_initial _) hrun⟩

/-- The acknowledgement is lost: the tick is over and the action is still dispatched. -/
theorem ack_overtakes_mark :
    ∃ t, AnyRun (step queuedConfig) (initial queuedDb) overtakenRun t ∧
      t.dispatcher = .idle ∧ firstAck t.history 11#128 = some .applied ∧
      t.actionStatus 11#128 = some .dispatched ∧ ¬ AckKept t := by
  have hcheck : (exec (step queuedConfig) (initial queuedDb) overtakenRun).any
      (fun t => t.dispatcher.isIdle && firstAck t.history 11#128 == some .applied &&
        t.actionStatus 11#128 == some .dispatched) = true := by
    decide +kernel
  obtain ⟨t, hrun, ht⟩ := run_of_check hcheck
  simp only [Bool.and_eq_true, beq_iff_eq] at ht
  obtain ⟨⟨hidle, hack⟩, hstatus⟩ := ht
  have hidle := Dispatch.isIdle_iff.mp hidle
  refine ⟨t, hrun, hidle, hack, hstatus, ?_⟩
  intro hkept
  obtain ⟨row, hrow, hdispatched⟩ := Option.map_eq_some_iff.mp hstatus
  have := hkept hidle 11#128 row .applied hrow hack
  rw [hdispatched] at this
  cases this

end Channel

end ZaqorinCore.Server
