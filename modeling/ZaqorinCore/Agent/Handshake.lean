import ZaqorinCore.Agent.Transport

/-!
# HELLO comes first

`connectAndServe` publishes a connection to senders before it authenticates. `hello_first` says
what follows when no `Send` takes the connection in between: on every connection the first frame
is a HELLO that carries the HMAC of the challenge's nonce. `event_before_hello` is a run in which
a `Send` does, and an event is the first frame.
-/

namespace ZaqorinCore.Agent

open Text Base

namespace Transport

def Frame.isHello : Frame → Bool
  | .hello _ _ => true
  | _ => false

/-- A HELLO signed with the shared secret. -/
def Signed (cfg : Config) (frame : Frame) : Prop :=
  ∃ nonce, frame = .hello nonce (Client.handshakeSig cfg nonce)

namespace Client

/-- The first frame on every connection is a signed HELLO. -/
def HelloFirst (cfg : Config) (s : Client) : Prop :=
  ∀ c frame rest, s.writes c = frame :: rest → Signed cfg frame

/-- The HELLO has been written on a connection. -/
def Greeted (s : Client) (c : ConnId) : Prop := ∃ frame ∈ s.writes c, frame.isHello = true

/-- A `Send` takes the published connection only after its HELLO, and the agent has a secret to
sign it with. -/
def Orderly (cfg : Config) (s : Client) : Act → Prop
  | .getConn _ => ∀ c ∈ s.conn, s.Greeted c
  | .sendHello _ => trimSpace cfg.sharedSecret ≠ []
  | _ => True

instance (s : Client) (c : ConnId) : Decidable (s.Greeted c) :=
  inferInstanceAs (Decidable (∃ frame ∈ s.writes c, frame.isHello = true))

instance (cfg : Config) (s : Client) (a : Act) : Decidable (Orderly cfg s a) :=
  match a with
  | .getConn _ => inferInstanceAs (Decidable (∀ c ∈ s.conn, s.Greeted c))
  | .sendHello _ => inferInstanceAs (Decidable (trimSpace cfg.sharedSecret ≠ []))
  | .dial _ _ | .publish | .challenge _ | .command _ _ _ | .sendAck _ | .readError | .cancel
  | .sendBye _ | .heartbeat _ | .closeConn | .send _ _ | .write _ _ | .close | .takeConn =>
    .isTrue trivial

/-! ## The invariant -/

/-- The published connection is the loop's own, if any. -/
def Own (s : Client) (c : ConnId) : Prop := s.conn = none ∨ s.conn = some c

theorem Own.eq {s : Client} {c d : ConnId} (h : s.Own d) (hc : s.conn = some c) : d = c := by
  rcases h with h | h
  · rw [hc] at h
    cases h
  · rw [hc] at h
    cases h
    rfl

def LoopSound (cfg : Config) (s : Client) : Prop :=
  match s.loop with
  | .top | .stopped => s.conn = none
  | .dialed c => s.conn = none ∧ c < s.dialed ∧ s.writes c = []
  | .authenticating c => s.Own c ∧ c < s.dialed ∧ s.writes c = []
  | .greeting c nonce sig => s.Own c ∧ c < s.dialed ∧ s.writes c = [] ∧
      (trimSpace cfg.sharedSecret ≠ [] → sig = handshakeSig cfg nonce)
  | .serving c | .parting c | .closing c true => s.Own c ∧ s.writes c ≠ []
  | .closing c false => s.Own c

/-- The pump has an acknowledgement to write only on a connection that was served. -/
def PumpSound (s : Client) : Prop :=
  s.pump = .reading ∨ s.loop.pumps = true ∨ s.loop = .stopped

structure Inv (cfg : Config) (s : Client) : Prop where
  first : HelloFirst cfg s
  fresh : ∀ c, s.dialed ≤ c → s.writes c = []
  holding : ∀ i event c, s.sends i = some (event, .holding c) → s.writes c ≠ []
  loop : LoopSound cfg s
  pump : PumpSound s

theorem Inv.new (cfg : Config) : Inv cfg new :=
  ⟨nofun, fun _ _ => rfl, nofun, rfl, Or.inl rfl⟩

theorem writes_write_of_ne (s : Client) {c d : ConnId} (h : d ≠ c) (frame : Frame) :
    (s.write c frame).writes d = s.writes d := by
  simp [write, h]

theorem writes_write_self (s : Client) (c : ConnId) (frame : Frame) :
    (s.write c frame).writes c = s.writes c ++ [frame] := by
  simp [write]

/-- The first frame of a connection stays the first. -/
theorem writes_write_ne_nil {s : Client} {c d : ConnId} {frame : Frame} (h : s.writes d ≠ []) :
    (s.write c frame).writes d ≠ [] := by
  by_cases hd : d = c
  · subst hd
    rw [writes_write_self]
    simp
  · rw [writes_write_of_ne s hd]
    exact h

theorem HelloFirst.write {cfg : Config} {s : Client} (hF : HelloFirst cfg s) {c : ConnId}
    {frame : Frame} (h : s.writes c ≠ [] ∨ Signed cfg frame) :
    HelloFirst cfg (s.write c frame) := by
  intro d first rest hd
  by_cases hdc : d = c
  · subst hdc
    rw [writes_write_self] at hd
    cases hw : s.writes d with
    | nil =>
      rw [hw] at hd
      cases hd
      rcases h with h | h
      · exact absurd hw h
      · exact h
    | cons x l =>
      rw [hw] at hd
      cases hd
      exact hF d first l hw
  · rw [writes_write_of_ne s hdc] at hd
    exact hF d first rest hd

theorem loop_writeCurrent (s : Client) (frame : Frame) (ok : Bool) :
    (s.writeCurrent frame ok).loop = s.loop := by
  unfold Client.writeCurrent
  split
  · rfl
  · split <;> rfl

/-- What the loop relies on survives losing the connection and further frames on greeted ones. -/
theorem LoopSound.keep {cfg : Config} {s t : Client} (h : LoopSound cfg s)
    (hloop : t.loop = s.loop) (hconn : t.conn = s.conn ∨ t.conn = none)
    (hdialed : t.dialed = s.dialed) (hnil : ∀ c, s.writes c = [] → t.writes c = [])
    (hne : ∀ c, s.writes c ≠ [] → t.writes c ≠ []) : LoopSound cfg t := by
  have hnone : s.conn = none → t.conn = none := by
    intro hs
    rcases hconn with hc | hc
    · rw [hc, hs]
    · exact hc
  have hown : ∀ c, s.Own c → t.Own c := by
    intro c hs
    rcases hconn with hc | hc
    · rcases hs with hs | hs
      · exact Or.inl (hnone hs)
      · exact Or.inr (hc.trans hs)
    · exact Or.inl hc
  unfold LoopSound at h ⊢
  rw [hloop, hdialed]
  cases hl : s.loop with
  | top =>
    rw [hl] at h
    exact hnone h
  | stopped =>
    rw [hl] at h
    exact hnone h
  | dialed c =>
    rw [hl] at h
    exact ⟨hnone h.1, h.2.1, hnil c h.2.2⟩
  | authenticating c =>
    rw [hl] at h
    exact ⟨hown c h.1, h.2.1, hnil c h.2.2⟩
  | greeting c nonce sig =>
    rw [hl] at h
    exact ⟨hown c h.1, h.2.1, hnil c h.2.2.1, h.2.2.2⟩
  | serving c =>
    rw [hl] at h
    exact ⟨hown c h.1, hne c h.2⟩
  | parting c =>
    rw [hl] at h
    exact ⟨hown c h.1, hne c h.2⟩
  | closing c canceled =>
    rw [hl] at h
    cases canceled with
    | false => exact hown c h
    | true => exact ⟨hown c h.1, hne c h.2⟩

/-- A further frame on a connection whose HELLO is out. -/
theorem Inv.writeLater {cfg : Config} {s : Client} (hI : Inv cfg s) {c : ConnId} (frame : Frame)
    (h : s.writes c ≠ []) : Inv cfg (s.write c frame) := by
  have hkeep : ∀ d, s.writes d = [] → (s.write c frame).writes d = [] := by
    intro d hd
    have hdc : d ≠ c := by
      rintro rfl
      exact h hd
    rw [writes_write_of_ne s hdc]
    exact hd
  have hne : ∀ d, s.writes d ≠ [] → (s.write c frame).writes d ≠ [] :=
    fun d hd => writes_write_ne_nil hd
  exact ⟨hI.first.write (Or.inl h), fun d hd => hkeep d (hI.fresh d hd),
    fun i event d hd => hne d (hI.holding i event d hd),
    hI.loop.keep rfl (Or.inl rfl) rfl hkeep hne, hI.pump⟩

theorem Inv.writeCurrent {cfg : Config} {s : Client} (hI : Inv cfg s) (frame : Frame) (ok : Bool)
    (h : ∀ c, s.conn = some c → s.writes c ≠ []) : Inv cfg (s.writeCurrent frame ok) := by
  unfold Client.writeCurrent
  split
  · exact hI
  · rename_i c hc
    split
    · exact hI.writeLater frame (h c hc)
    · exact hI

/-- A connection the loop has served, or is about to leave, has its HELLO. -/
theorem Inv.served {cfg : Config} {s : Client} (hI : Inv cfg s)
    (h : s.loop.pumps = true ∨ s.loop = .stopped) (c : ConnId) (hc : s.conn = some c) :
    s.writes c ≠ [] := by
  have hloop := hI.loop
  unfold LoopSound at hloop
  rcases h with h | h
  · cases hl : s.loop with
    | serving d =>
      rw [hl] at hloop
      exact hloop.1.eq hc ▸ hloop.2
    | parting d =>
      rw [hl] at hloop
      exact hloop.1.eq hc ▸ hloop.2
    | closing d canceled =>
      rw [hl] at h hloop
      cases canceled with
      | true => exact hloop.1.eq hc ▸ hloop.2
      | false => cases h
    | _ =>
      rw [hl] at h
      cases h
  · rw [h, hc] at hloop
    cases hloop

/-! ## Steps -/

/-- While the loop has not served, the pump has nothing to acknowledge. -/
theorem Inv.reading {cfg : Config} {s : Client} (hI : Inv cfg s) {l : Loop} (hl : s.loop = l)
    (hpumps : l.pumps = false) (hstop : l ≠ .stopped) : s.pump = .reading := by
  subst hl
  rcases hI.pump with hp | hp | hp
  · exact hp
  · rw [hpumps] at hp
    cases hp
  · exact absurd hp hstop

/-- The loop moves; connections and frames stay. -/
theorem Inv.setLoop {cfg : Config} {s : Client} (hI : Inv cfg s) {loop : Loop}
    (hloop : LoopSound cfg { s with loop }) (hpump : PumpSound { s with loop }) :
    Inv cfg { s with loop } :=
  ⟨hI.first, hI.fresh, hI.holding, hloop, hpump⟩

theorem Inv.dial {cfg : Config} {s : Client} (hI : Inv cfg s) (hl : s.loop = .top) :
    Inv cfg { s with
      loop := .dialed s.dialed
      dialed := s.dialed + 1
      isOpen := Function.update s.isOpen s.dialed true } := by
  have hloop := hI.loop
  rw [LoopSound, hl] at hloop
  have hpump : s.pump = .reading := hI.reading hl rfl nofun
  refine ⟨hI.first, fun c hc => ?_, hI.holding,
    ⟨hloop, Nat.lt_succ_self _, hI.fresh _ (le_refl _)⟩, Or.inl hpump⟩
  simp only at hc
  exact hI.fresh c (by omega)

theorem Inv.publish {cfg : Config} {s : Client} (hI : Inv cfg s) {c : ConnId}
    (hl : s.loop = .dialed c) : Inv cfg { s with conn := some c, loop := .authenticating c } := by
  have hloop := hI.loop
  rw [LoopSound, hl] at hloop
  have hpump : s.pump = .reading := hI.reading hl rfl nofun
  exact ⟨hI.first, hI.fresh, hI.holding, ⟨Or.inr rfl, hloop.2⟩, Or.inl hpump⟩

theorem Inv.challenge {cfg : Config} {s : Client} (hI : Inv cfg s) {c : ConnId}
    (hl : s.loop = .authenticating c) (message : Option Challenge) :
    Inv cfg { s with loop := s.authenticate cfg c message } := by
  have hloop := hI.loop
  rw [LoopSound, hl] at hloop
  obtain ⟨hown, hlt, hnil⟩ := hloop
  have hpump : s.pump = .reading := hI.reading hl rfl nofun
  refine hI.setLoop ?_ (Or.inl hpump)
  unfold Client.authenticate
  split
  · rename_i hblank
    split
    · exact ⟨hown, hlt, hnil, fun h => absurd hblank h⟩
    · exact hown
  · split
    · split
      · exact ⟨hown, hlt, hnil, fun _ => rfl⟩
      · exact hown
    · exact hown

theorem Inv.sendHello {cfg : Config} {s : Client} (hI : Inv cfg s) {c : ConnId} {nonce sig : Bytes}
    (hl : s.loop = .greeting c nonce sig) (hsecret : trimSpace cfg.sharedSecret ≠ []) (ok : Bool) :
    Inv cfg (s.sendHello c nonce sig ok) := by
  have hloop := hI.loop
  rw [LoopSound, hl] at hloop
  obtain ⟨hown, hlt, hnil, hsig⟩ := hloop
  have hpump : s.pump = .reading := hI.reading hl rfl nofun
  have hclosing : Inv cfg { s with loop := .closing c false } := hI.setLoop hown (Or.inl hpump)
  unfold Client.sendHello
  split
  · exact hclosing
  · rename_i d hd
    have hdc : d = c := (hown.eq hd).symm
    subst hdc
    split
    · have hself : (s.write d (.hello nonce sig)).writes d ≠ [] := by
        rw [writes_write_self]
        simp
      refine ⟨hI.first.write (Or.inr ⟨nonce, by rw [hsig hsecret]⟩), fun e he => ?_,
        fun i event e he => writes_write_ne_nil (hI.holding i event e he), ⟨hown, hself⟩,
        Or.inl hpump⟩
      have hed : e ≠ d := by
        rintro rfl
        exact absurd hlt (Nat.not_lt.mpr he)
      exact (writes_write_of_ne s hed _).trans (hI.fresh e he)
    · exact hclosing

/-- Losing the connection costs no invariant. -/
theorem Inv.drop {cfg : Config} {s : Client} (hI : Inv cfg s) {t : Client}
    (hwrites : t.writes = s.writes) (hdialed : t.dialed = s.dialed) (hsends : t.sends = s.sends)
    (hloop : t.loop = s.loop) (hpump : t.pump = s.pump) (hconn : t.conn = s.conn ∨ t.conn = none) :
    Inv cfg t := by
  refine ⟨?_, ?_, ?_, ?_, ?_⟩
  · intro c frame rest h
    rw [hwrites] at h
    exact hI.first c frame rest h
  · intro c hc
    rw [hdialed] at hc
    rw [hwrites]
    exact hI.fresh c hc
  · intro i event c h
    rw [hsends] at h
    rw [hwrites]
    exact hI.holding i event c h
  · refine hI.loop.keep hloop hconn hdialed (fun c h => ?_) (fun c h => ?_)
    · rw [hwrites]
      exact h
    · rw [hwrites]
      exact h
  · unfold PumpSound
    rw [hpump, hloop]
    exact hI.pump

/-- A `Send` moves on; what it holds now has its HELLO. -/
theorem Inv.setSend {cfg : Config} {s : Client} (hI : Inv cfg s) (i : Nat) (event : Bytes)
    (pc : SendPc) (h : ∀ c, pc = .holding c → s.writes c ≠ []) :
    Inv cfg { s with sends := Function.update s.sends i (some (event, pc)) } := by
  refine ⟨hI.first, hI.fresh, ?_, hI.loop, hI.pump⟩
  intro j event' c hj
  rcases update_some_cases hj with ⟨-, heq⟩ | ⟨-, hj'⟩
  · cases heq
    exact h c rfl
  · exact hI.holding j event' c hj'

/-- The loop leaves its connection. -/
theorem Inv.leave {cfg : Config} {s : Client} (hI : Inv cfg s) {c : ConnId} {canceled : Bool}
    (hl : s.loop = .closing c canceled) :
    Inv cfg { s.shut c with
      conn := none
      loop := if canceled || s.closed then .stopped else .top } := by
  refine ⟨hI.first, hI.fresh, hI.holding, ?_, ?_⟩
  · by_cases hstop : (canceled || s.closed) = true
    · rw [if_pos hstop]
      rfl
    · rw [if_neg hstop]
      rfl
  · rcases hI.pump with hp | hp | hp
    · exact Or.inl hp
    · rw [hl] at hp
      cases canceled with
      | true => exact Or.inr (Or.inr rfl)
      | false => cases hp
    · rw [hl] at hp
      cases hp

/-- The pump writes its acknowledgement, or fails to. -/
theorem Inv.sendAck {cfg : Config} {s : Client} (hI : Inv cfg s) {id status error : Bytes}
    (hp : s.pump = .acking id status error) (ok : Bool) :
    Inv cfg { s.writeCurrent (.ack id status error) ok with pump := .reading } := by
  have hserved : s.loop.pumps = true ∨ s.loop = .stopped := by
    rcases hI.pump with hr | hr
    · rw [hp] at hr
      cases hr
    · exact hr
  have hw := hI.writeCurrent (.ack id status error) ok (hI.served hserved)
  exact ⟨hw.first, hw.fresh, hw.holding, hw.loop, Or.inl rfl⟩

theorem Inv.sendBye {cfg : Config} {s : Client} (hI : Inv cfg s) {c : ConnId}
    (hl : s.loop = .parting c) (ok : Bool) :
    Inv cfg { s.writeCurrent (.bye (lit "context_canceled")) ok with loop := .closing c true } := by
  have hw := hI.writeCurrent (.bye (lit "context_canceled")) ok
    (hI.served (Or.inl (by rw [hl]; rfl)))
  have hwl : (s.writeCurrent (.bye (lit "context_canceled")) ok).loop = .parting c :=
    (loop_writeCurrent s _ ok).trans hl
  have hparting := hw.loop
  rw [LoopSound, hwl] at hparting
  exact hw.setLoop hparting (Or.inr (Or.inl rfl))

/-- One action of an orderly run. -/
theorem Inv.keep {cfg : Config} {s t : Client} {a : Act} (hI : Inv cfg s)
    (horderly : Orderly cfg s a) (h : Step cfg s a t) : Inv cfg t := by
  have hloop := hI.loop
  unfold LoopSound at hloop
  cases h with
  | stop hl _ =>
    rw [hl] at hloop
    exact hI.setLoop hloop (Or.inl (hI.reading hl rfl nofun))
  | dial hl _ => exact hI.dial hl
  | retry _ _ => exact hI
  | publish hl => exact hI.publish hl
  | challenge hl => exact hI.challenge hl _
  | sendHello hl => exact hI.sendHello hl horderly _
  | command _ hpumps _ => exact ⟨hI.first, hI.fresh, hI.holding, hI.loop, Or.inr (Or.inl hpumps)⟩
  | refuse _ _ _ => exact hI
  | sendAck hp => exact hI.sendAck hp _
  | readError hl hp =>
    rw [hl] at hloop
    exact hI.setLoop hloop.1 (Or.inl hp)
  | cancel hl =>
    rw [hl] at hloop
    exact hI.setLoop hloop (Or.inr (Or.inl rfl))
  | sendBye hl => exact hI.sendBye hl _
  | beat _ => exact hI
  | lost _ => exact hI.drop rfl rfl rfl rfl rfl (Or.inl rfl)
  | closeConn hl => exact hI.leave hl
  | send _ =>
    refine hI.setSend _ _ _ fun c hc => ?_
    split at hc <;> cases hc
  | unsent _ _ => exact hI.setSend _ _ _ nofun
  | getConn _ hconn =>
    -- the only place where a `Send` gets hold of a connection
    refine hI.setSend _ _ _ fun c hc => ?_
    cases hc
    obtain ⟨frame, hmem, -⟩ := horderly _ hconn
    exact List.ne_nil_of_mem hmem
  | write hs _ => exact (hI.writeLater _ (hI.holding _ _ _ hs)).setSend _ _ _ nofun
  | writeError _ _ => exact hI.setSend _ _ _ nofun
  | closed _ => exact hI
  | close _ => exact hI.drop rfl rfl rfl rfl rfl (Or.inl rfl)
  | takeNone _ _ => exact hI.drop rfl rfl rfl rfl rfl (Or.inl rfl)
  | take _ _ => exact hI.drop rfl rfl rfl rfl rfl (Or.inr rfl)

/-- In every run in which no `Send` takes a connection before its HELLO is written, the first
frame on every connection is the signed HELLO. -/
theorem hello_first (cfg : Config) (s : Client) (as : List Act)
    (run : Run (Client.step cfg) (Orderly cfg) Client.new as s) : HelloFirst cfg s := by
  have hI : Inv cfg s :=
    run.invariant (Inv.new cfg) fun _ _ _ hI hok taken => hI.keep hok (step_cases taken)
  exact hI.first

/-- An agent with a secret, and the challenge it gets. -/
def sampleConfig : Config := ⟨lit "wss://server/ws/agent", lit "secret"⟩

def sampleChallenge : Challenge := ⟨lit "challenge", List.replicate 64 48, 2⟩

/-- Connect, authenticate, send one event, lose the connection, and connect again. -/
def reconnecting : List Act :=
  [.dial true false, .publish, .challenge (some sampleChallenge), .sendHello true,
    .send 0 (lit "e1"), .getConn 0, .write 0 true, .readError, .closeConn,
    .dial true false, .publish, .challenge (some sampleChallenge), .sendHello true]

theorem hello_first_reconnecting :
    ∃ s, Run (Client.step sampleConfig) (Orderly sampleConfig) Client.new reconnecting s ∧
      (s.writes 0).length = 2 ∧ (s.writes 1).length = 1 ∧ HelloFirst sampleConfig s := by
  have hcheck : (exec (fun s a => if Orderly sampleConfig s a then Client.step sampleConfig s a
      else none) Client.new reconnecting).any
      (fun s => (s.writes 0).length == 2 && (s.writes 1).length == 1) = true := by
    decide +kernel
  obtain ⟨s, run, hwrites⟩ := run_of_guarded_check hcheck
  simp only [Bool.and_eq_true, beq_iff_eq] at hwrites
  exact ⟨s, run, hwrites.1, hwrites.2, hello_first sampleConfig s reconnecting run⟩

/-- A `Send` right after `setConn` writes its event first. -/
theorem event_before_hello :
    ∃ s, AnyRun (Client.step sampleConfig) Client.new
        [.dial true false, .publish, .send 0 (lit "e1"), .getConn 0, .write 0 true] s ∧
      s.writes 0 = [.event (lit "e1")] ∧ ¬ HelloFirst sampleConfig s := by
  have hcheck : (exec (Client.step sampleConfig) Client.new
      [.dial true false, .publish, .send 0 (lit "e1"), .getConn 0, .write 0 true]).any
      (fun s => s.writes 0 == [.event (lit "e1")]) = true := by
    decide +kernel
  obtain ⟨s, run, hw⟩ := run_of_check hcheck
  have hw := beq_iff_eq.mp hw
  refine ⟨s, run, hw, fun hfirst => ?_⟩
  obtain ⟨nonce, hsigned⟩ := hfirst 0 _ _ hw
  cases hsigned

end Client

end Transport

end ZaqorinCore.Agent
