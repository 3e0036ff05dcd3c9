import ZaqorinCore.Server.Channel

/-!
# Frames that the handler cannot use

After the handshake a frame that is not JSON, or that is of no known type, or whose body does not
validate, is logged and skipped. Two kinds of frames are not: a text that `safe_loads` refuses with
a plain `ValueError` (the nesting is deeper than 32, or the decoder raises one), and JSON that is
not an object, which has no `get`. Both end in the handler's last `except`, which closes the
connection. `frame_keeps_serving_iff` says that these are all.
-/

namespace ZaqorinCore.Server

open Text Base

/-- The frame is text that is not JSON, or an object, and nests no deeper than the decoder
allows. -/
structure Readable (lib : Library) (raw : Str) : Prop where
  depth : (checkDepth raw).isSome
  loads : lib.loads raw ≠ .error .value
  object : ∀ v, lib.loads raw = .ok v → ∃ fields, v = .obj fields

namespace Channel

/-- The loop of the connection's handler waits for the next frame of the host. -/
def Serves (s : Channel) (c : ConnId) (hostId : Uuid) : Prop :=
  ∃ conn window, s.conns c = some conn ∧ conn.phase = .serving hostId window

/-- A frame within the limits that is no BYE, and a database whose calls succeed: storing an
event fails at most with the duplicate that the handler expects. -/
structure Admissible (cfg : Config) (s : Channel) (window : Window) (raw : Str) (mono : Int)
    (dbUp : Bool) : Prop where
  size : raw.length ≤ cfg.limits.wsMaxMsgBytes
  rate : (window.arrive mono).count ≤ cfg.limits.wsMaxMsgPerMin
  notBye : (readFrame cfg.lib cfg.limits window mono raw).2 ≠ .bye
  dbUp : dbUp = true
  stores : ∀ event err, (readFrame cfg.lib cfg.limits window mono raw).2 = .event event →
    persistEvent s.db event = .error err → err = .duplicateEvent

/-! ## One frame -/

variable {cfg : Config} {s t : Channel} {c : ConnId} {conn : Conn} {hostId : Uuid}
  {window : Window} {raw : Str} {mono now : Int} {dbUp : Bool}

theorem readPayload_ne_close (lib : Library) (payload : List (Str × Json)) (code : Nat) :
    readPayload lib payload ≠ .close code := by
  unfold readPayload
  split
  · split
    · nofun
    · nofun
  · split
    · split
      · nofun
      · nofun
    · split
      · nofun
      · nofun

/-- Within the limits, the loop body closes the connection exactly on an unreadable frame. -/
theorem readFrame_closes_iff (size : raw.length ≤ cfg.limits.wsMaxMsgBytes)
    (rate : (window.arrive mono).count ≤ cfg.limits.wsMaxMsgPerMin) :
    (∃ code, (readFrame cfg.lib cfg.limits window mono raw).2 = .close code) ↔
      ¬ Readable cfg.lib raw := by
  unfold readFrame
  dsimp only
  rw [if_neg (by omega), if_neg (by omega)]
  unfold safeLoads
  cases hdepth : checkDepth raw with
  | none =>
    refine iff_of_true ⟨1011, rfl⟩ fun hread => ?_
    have := hread.depth
    rw [hdepth] at this
    cases this
  | some scan =>
    dsimp only
    cases hloads : cfg.lib.loads raw with
    | error err =>
      cases err with
      | decode =>
        refine iff_of_false nofun (not_not_intro ⟨by rw [hdepth]; rfl, ?_, ?_⟩)
        · rw [hloads]
          nofun
        · intro v hv
          rw [hloads] at hv
          cases hv
      | value => exact iff_of_true ⟨1011, rfl⟩ fun hread => hread.loads hloads
    | ok v =>
      have hread : Readable cfg.lib raw ↔ ∃ fields, v = .obj fields := by
        constructor
        · intro hread
          exact hread.object v hloads
        · intro hobject
          refine ⟨by rw [hdepth]; rfl, by rw [hloads]; nofun, ?_⟩
          intro v' hv'
          rw [hloads] at hv'
          cases hv'
          exact hobject
      rw [hread]
      cases v with
      | obj fields =>
        refine iff_of_false ?_ (not_not_intro ⟨fields, rfl⟩)
        rintro ⟨code, hcode⟩
        exact readPayload_ne_close _ _ _ hcode
      | _ => exact iff_of_true ⟨1011, rfl⟩ nofun

/-- The handler stays in its loop unless the frame closes the connection. -/
theorem serveFrame_stay_iff (now : Int) (h : Admissible cfg s window raw mono dbUp) :
    (serveFrame s.db now dbUp (readFrame cfg.lib cfg.limits window mono raw).2).2 = .stay ↔
      Readable cfg.lib raw := by
  rw [← not_iff_not, ← readFrame_closes_iff h.size h.rate, h.dbUp]
  have hbye := h.notBye
  have hstores := h.stores
  generalize (readFrame cfg.lib cfg.limits window mono raw).2 = read at hbye hstores
  cases read with
  | close code => exact iff_of_true nofun ⟨code, rfl⟩
  | skip => exact iff_of_false (not_not_intro rfl) nofun
  | bye => exact absurd rfl hbye
  | ack id status => exact iff_of_false (not_not_intro rfl) nofun
  | event event =>
    refine iff_of_false (not_not_intro ?_) nofun
    cases hstore : persistEvent s.db event with
    | ok db' => rw [serveFrame_event_stored hstore]
    | error err =>
      rw [hstores event err rfl hstore] at hstore
      simp [serveFrame, hstore]

theorem receive_serves_iff (h : Admissible cfg s window raw mono dbUp) :
    (s.receive cfg c conn hostId window raw mono now dbUp).Serves c hostId ↔
      Readable cfg.lib raw := by
  rw [← serveFrame_stay_iff now h]
  unfold Channel.receive Serves
  dsimp only
  rw [setConn_self]
  cases (serveFrame s.db now dbUp (readFrame cfg.lib cfg.limits window mono raw).2).2 with
  | stay => exact iff_of_true ⟨_, _, rfl, rfl⟩ rfl
  | leave code =>
    refine iff_of_false ?_ nofun
    rintro ⟨_, _, hconn, hphase⟩
    cases hconn
    cases hphase

/-! ## Runs -/

/-- Nobody drops the connection, and each of its frames is admissible and readable. -/
def Undisturbed (cfg : Config) (c : ConnId) (s : Channel) : Act → Prop
  | .drop d => d ≠ c
  | .receive d raw mono _ dbUp => d = c → Readable cfg.lib raw ∧
      ∀ conn hostId window, s.conns c = some conn → conn.phase = .serving hostId window →
        Admissible cfg s window raw mono dbUp
  | _ => True

/-- A handler that moves is not the one that serves, unless it serves itself. -/
theorem Serves.setConn (h : s.Serves c hostId) {d : ConnId} (hne : d ≠ c) (conn' : Conn) :
    (s.setConn d conn').Serves c hostId := by
  obtain ⟨conn, window, hconn, hphase⟩ := h
  exact ⟨conn, window, by rw [setConn_of_ne s hne.symm]; exact hconn, hphase⟩

theorem Serves.congr (h : s.Serves c hostId) (hconns : t.conns = s.conns) : t.Serves c hostId := by
  unfold Serves
  rw [hconns]
  exact h

/-- A connection in another phase is another connection. -/
theorem Serves.ne (h : s.Serves c hostId) {d : ConnId} (here : s.conns d = some conn)
    (hphase : ∀ hostId window, conn.phase ≠ .serving hostId window) : d ≠ c := by
  rintro rfl
  obtain ⟨conn', window, hconn, hserving⟩ := h
  rw [here] at hconn
  cases hconn
  exact hphase hostId window hserving

theorem Serves.step (h : s.Serves c hostId) {a : Act} (hok : Undisturbed cfg c s a)
    (taken : step cfg s a = some t) : t.Serves c hostId := by
  cases step_cases taken with
  | connect fresh =>
    refine h.setConn ?_ _
    rintro rfl
    obtain ⟨conn, window, hconn, -⟩ := h
    rw [fresh] at hconn
    cases hconn
  | hello here phase =>
    have hne := h.ne here fun _ _ => by rw [phase]; nofun
    unfold Channel.hello
    split
    · exact h.setConn hne _
    · exact h.setConn hne _
  | authenticate here phase =>
    have hne := h.ne here fun _ _ => by rw [phase]; nofun
    unfold Channel.authenticate
    split
    · exact h.setConn hne _
    · split
      · exact h.setConn hne _
      · exact h.setConn hne _
  | acknowledge here phase =>
    exact h.setConn (h.ne here fun _ _ => by rw [phase]; nofun) _
  | register here phase =>
    have hne := h.ne here fun _ _ => by rw [phase]; nofun
    exact (h.setConn hne _).congr rfl
  | @receive d raw mono now dbUp conn hostId' window here phase =>
    by_cases hd : d = c
    · subst hd
      obtain ⟨hread, hadm⟩ := hok rfl
      obtain ⟨conn', window', hconn, hserving⟩ := h
      rw [here] at hconn
      cases hconn
      rw [phase] at hserving
      cases hserving
      exact (receive_serves_iff (hadm conn hostId window here phase)).mpr hread
    · exact (h.setConn hd _).congr rfl
  | drop here closing closed => exact h.setConn hok _
  | @finish d conn here phase =>
    have hne := h.ne here fun _ _ => by rw [phase]; nofun
    refine Serves.setConn (h.congr ?_) hne _
    unfold cleanUp
    split
    · rfl
    · rfl
  | tick | next | sendOk | sendFail | unregisterFailed | mark | markFails | tickDone | writeAction
  | saveHost | ingest => exact h.congr rfl

/-- A frame within the limits keeps the handler in its loop, and the registry as it is, exactly
when it is readable; and a connection whose frames are all readable serves until it is
dropped. -/
theorem frame_keeps_serving_iff (cfg : Config) {s : Channel} {c : ConnId} {conn : Conn}
    {hostId : Uuid} {window : Window} (here : s.conns c = some conn)
    (phase : conn.phase = .serving hostId window) :
    (∀ raw mono now dbUp, Admissible cfg s window raw mono dbUp →
      ∃ t, step cfg s (.receive c raw mono now dbUp) = some t ∧
        (t.Serves c hostId ∧ t.registry hostId = s.registry hostId ↔ Readable cfg.lib raw)) ∧
      ∀ acts t, Run (step cfg) (Undisturbed cfg c) s acts t → t.Serves c hostId := by
  constructor
  · intro raw mono now dbUp hadm
    refine ⟨s.receive cfg c conn hostId window raw mono now dbUp, ?_, ?_⟩
    · simp only [step, fromPhase, here, phase]
    · rw [receive_serves_iff hadm]
      exact and_iff_left rfl
  · intro acts t hrun
    have hserves : s.Serves c hostId := ⟨conn, window, here, phase⟩
    exact hrun.invariant (I := fun m => m.Serves c hostId) hserves
      fun m a u hm hok taken => hm.step hok taken

/-! ## A number and an empty object -/

/-- The server that the agent of `onlineRun` connects to, with a decoder that knows two frames. -/
def bareConfig : Config :=
  onlineConfig [("\x7b\x7d".toList, .obj []), ("7".toList, .int 7)] [] []

/-- Where the handler stands after the handshake. -/
def servesOnline (s : Channel) : Bool :=
  match s.conns 1 with
  | some conn =>
    match conn.phase with
    | .serving hostId window => hostId == onlineHost.id && window == ⟨0, 0⟩
    | _ => false
  | none => false

theorem online_serves : ∃ s conn, AnyRun (step bareConfig) (initial onlineDb) onlineRun s ∧
    s.conns 1 = some conn ∧ conn.phase = .serving onlineHost.id ⟨0, 0⟩ := by
  have hcheck : (exec (step bareConfig) (initial onlineDb) onlineRun).any servesOnline = true := by
    decide +kernel
  obtain ⟨s, hrun, hs⟩ := run_of_check hcheck
  unfold servesOnline at hs
  split at hs
  · rename_i conn hconn
    split at hs
    · rename_i hostId window hphase
      simp only [Bool.and_eq_true, beq_iff_eq] at hs
      exact ⟨s, conn, hrun, hconn, by rw [hphase, hs.1, hs.2]⟩
    · cases hs
  · cases hs

/-- Neither frame is an event. -/
theorem admissible_bare (s : Channel) (raw : Str) (read : FrameRead)
    (hread : readFrame bareConfig.lib bareConfig.limits ⟨0, 0⟩ 0 raw = (⟨0, 1⟩, read))
    (hsize : raw.length ≤ 10) (hother : read = .skip ∨ read = .close 1011) :
    Admissible bareConfig s ⟨0, 0⟩ raw 0 true := by
  refine ⟨hsize.trans (by decide), by decide, ?_, rfl, ?_⟩
  · rw [hread]
    rcases hother with rfl | rfl
    · nofun
    · nofun
  · intro event err hevent
    rw [hread] at hevent
    rcases hother with rfl | rfl
    · cases hevent
    · cases hevent

theorem empty_object_keeps_serving :
    ∃ s t, AnyRun (step bareConfig) (initial onlineDb) onlineRun s ∧
      step bareConfig s (.receive 1 "\x7b\x7d".toList 0 0 true) = some t ∧
      t.Serves 1 onlineHost.id := by
  obtain ⟨s, conn, hrun, here, phase⟩ := online_serves
  have hadm := admissible_bare s "\x7b\x7d".toList .skip (by rfl) (by decide)
    (Or.inl rfl)
  obtain ⟨t, taken, hiff⟩ := (frame_keeps_serving_iff bareConfig here phase).1 _ 0 0 true hadm
  refine ⟨s, t, hrun, taken, (hiff.mpr ⟨by rfl, nofun, ?_⟩).1⟩
  intro v hv
  cases hv
  exact ⟨[], rfl⟩

/-- A frame with a number in it, within the limits, ends the connection. -/
theorem number_ends_connection :
    ∃ s t, AnyRun (step bareConfig) (initial onlineDb) onlineRun s ∧
      Admissible bareConfig s ⟨0, 0⟩ "7".toList 0 true ∧ s.Serves 1 onlineHost.id ∧
      step bareConfig s (.receive 1 "7".toList 0 0 true) = some t ∧
      ¬ t.Serves 1 onlineHost.id := by
  obtain ⟨s, conn, hrun, here, phase⟩ := online_serves
  have hadm := admissible_bare s "7".toList (.close 1011) (by rfl) (by decide)
    (Or.inr rfl)
  refine ⟨s, s.receive bareConfig 1 conn onlineHost.id ⟨0, 0⟩ "7".toList 0 0 true, hrun, hadm,
    ⟨conn, _, here, phase⟩, ?_, ?_⟩
  · simp only [step, fromPhase, here, phase]
  · rw [receive_serves_iff hadm]
    intro hread
    obtain ⟨fields, hfields⟩ := hread.object (.int 7) rfl
    cases hfields

end Channel

end ZaqorinCore.Server
