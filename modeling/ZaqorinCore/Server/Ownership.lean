import ZaqorinCore.Server.Channel

/-!
# Who owns a registry entry

The registry maps a host to the connection that serves it, but entries are removed by host.
`registry_owned` is what holds when every removal finds either nothing or the remover's own
connection: connections that have not authenticated leave the registry alone, and the connection
that registered last stays registered until it closes or a send on it fails.
`displaced_by_unauthenticated` is a run in which a forged HELLO removes the entry of a live
connection.
-/

namespace ZaqorinCore.Server

open Text Base

/-- The connection whose handler takes the action. -/
def Act.conn? : Act → Option ConnId
  | .connect c _ | .hello c _ | .authenticate c _ | .acknowledge c _ _ | .register c
  | .receive c _ _ _ _ | .drop c | .finish c => some c
  | _ => none

def Phase.serves : Phase → Bool
  | .serving _ _ => true
  | _ => false

namespace Channel

/-- The last connection to register for a host is the registered one, until it leaves the frame
loop or a send on it fails. -/
def Owned (s : Channel) : Prop :=
  ∀ h c conn, s.history.lastRegistered h = some c → s.conns c = some conn →
    conn.phase.serves = true → c ∉ s.history.sendFailed → s.registry h = some c

/-- The action is taken by a connection that has not passed the signature check. -/
def Unauthenticated (s : Channel) (a : Act) : Prop :=
  ∃ c, a.conn? = some c ∧ ∀ conn, s.conns c = some conn → conn.passed = false

/-- A removal finds no entry or the entry of the connection it is meant for. -/
def RemovesOwn (s : Channel) : Act → Prop
  | .finish c => ∀ conn h, s.conns c = some conn → conn.agentId = some h →
      s.registry h = none ∨ s.registry h = some c
  | .unregisterFailed => ∀ host ws rows, s.dispatcher = .failed host ws rows →
      s.registry host.id = none ∨ s.registry host.id = some ws
  | _ => True

/-! ## The invariant -/

/-- What the phase of a handler says about its connection. -/
def PhaseSound (conn : Conn) : Prop :=
  match conn.phase with
  | .challenged => conn.passed = false
  | .greeted agentId _ => conn.agentId = some agentId
  | .accepted h | .acknowledged h _ | .serving h _ => conn.agentId = some h ∧ conn.passed = true
  | .closing | .closed => True

structure OwnershipInv (s : Channel) : Prop where
  latest : ∀ h c, s.registry h = some c → s.history.lastRegistered h = some c
  known : ∀ h c, s.history.lastRegistered h = some c →
    ∃ conn, s.conns c = some conn ∧ conn.passed = true ∧ conn.agentId = some h
  sound : ∀ c conn, s.conns c = some conn → PhaseSound conn
  failed : ∀ host ws rows, s.dispatcher = .failed host ws rows → ws ∈ s.history.sendFailed
  owned : Owned s

theorem OwnershipInv.start {s : Channel} (h : Start s) : OwnershipInv s where
  latest := by
    intro host c hreg
    rw [h.registry] at hreg
    cases hreg
  known := by
    intro host c hlast
    rw [h.history] at hlast
    cases hlast
  sound := by
    intro c conn hconn
    rw [h.conns] at hconn
    cases hconn
  failed := by
    intro host ws rows hd
    rw [h.dispatcher] at hd
    cases hd
  owned := by
    intro host c conn hlast
    rw [h.history] at hlast
    cases hlast

/-- A step of one handler that leaves the registry alone. -/
theorem OwnershipInv.setConn {s : Channel} (hI : OwnershipInv s) {c : ConnId} {conn' : Conn}
    (hsound : PhaseSound conn')
    (hkeep : ∀ h, s.history.lastRegistered h = some c →
      conn'.passed = true ∧ conn'.agentId = some h)
    (hserves : conn'.phase.serves = true →
      ∃ conn, s.conns c = some conn ∧ conn.phase.serves = true) :
    OwnershipInv (s.setConn c conn') where
  latest := hI.latest
  known := by
    intro h d hlast
    by_cases hd : d = c
    · subst hd
      exact ⟨conn', setConn_self s d conn', hkeep h hlast⟩
    · obtain ⟨conn, hconn, hrest⟩ := hI.known h d hlast
      exact ⟨conn, (setConn_of_ne s hd conn').trans hconn, hrest⟩
  sound := by
    intro d conn hconn
    rcases setConn_cases hconn with ⟨-, rfl⟩ | ⟨-, hconn⟩
    · exact hsound
    · exact hI.sound d conn hconn
  failed := hI.failed
  owned := by
    intro h d conn hlast hconn hserve hfail
    rcases setConn_cases hconn with ⟨rfl, rfl⟩ | ⟨-, hconn⟩
    · obtain ⟨old, hold, hserve'⟩ := hserves hserve
      exact hI.owned h d old hlast hold hserve' hfail
    · exact hI.owned h d conn hlast hconn hserve hfail

/-- The same for a handler that keeps its agent and its authentication. -/
theorem OwnershipInv.setPhase {s : Channel} (hI : OwnershipInv s) {c : ConnId} {conn conn' : Conn}
    (here : s.conns c = some conn) (hsound : PhaseSound conn')
    (hid : conn'.agentId = conn.agentId) (hpassed : conn.passed = true → conn'.passed = true)
    (hserves : conn'.phase.serves = true → conn.phase.serves = true) :
    OwnershipInv (s.setConn c conn') := by
  refine hI.setConn hsound ?_ fun h => ⟨conn, here, hserves h⟩
  intro h hlast
  obtain ⟨old, hold, hp, ha⟩ := hI.known h c hlast
  rw [here] at hold
  cases hold
  exact ⟨hpassed hp, hid.trans ha⟩

theorem OwnershipInv.setDispatcher {s : Channel} (hI : OwnershipInv s) {d : Dispatch}
    (hd : ∀ host ws rows, d ≠ .failed host ws rows) :
    OwnershipInv { s with dispatcher := d } where
  latest := hI.latest
  known := hI.known
  sound := hI.sound
  failed := fun host ws rows h => absurd h (hd host ws rows)
  owned := hI.owned

/-- Removing an entry that is absent or the remover's own. -/
theorem OwnershipInv.unregister {s : Channel} (hI : OwnershipInv s) {h : Uuid} {c : ConnId}
    (hown : s.registry h = none ∨ s.registry h = some c)
    (hgone : c ∈ s.history.sendFailed ∨
      ∀ conn, s.conns c = some conn → conn.phase.serves = false) :
    OwnershipInv (s.unregister h) where
  latest := by
    intro host d hreg
    by_cases hh : host = h
    · subst hh
      simp [Channel.unregister] at hreg
    · exact hI.latest host d (by simpa [Channel.unregister, hh] using hreg)
  known := hI.known
  sound := hI.sound
  failed := hI.failed
  owned := by
    intro host d conn hlast hconn hserve hfail
    have hreg := hI.owned host d conn hlast hconn hserve hfail
    by_cases hh : host = h
    · subst hh
      rw [hreg] at hown
      rcases hown with hnone | hsome
      · cases hnone
      · cases hsome
        rcases hgone with hmem | hquiet
        · exact absurd hmem hfail
        · have hno := hquiet conn hconn
          rw [hserve] at hno
          cases hno
    · simpa [Channel.unregister, hh] using hreg

/-! ## Steps keep it -/

theorem OwnershipInv.connect {s : Channel} (hI : OwnershipInv s) {c : ConnId} {nonce : Str}
    (fresh : s.conns c = none) :
    OwnershipInv (s.setConn c ⟨nonce, none, false, .challenged⟩) := by
  refine hI.setConn rfl ?_ (fun h => by cases h)
  intro h hlast
  obtain ⟨old, hold, -⟩ := hI.known h c hlast
  rw [fresh] at hold
  cases hold

theorem OwnershipInv.hello {cfg : Config} {s : Channel} (hI : OwnershipInv s) {c : ConnId}
    {conn : Conn} {raw : Str} (here : s.conns c = some conn) (phase : conn.phase = .challenged) :
    OwnershipInv (s.hello cfg c conn raw) := by
  have hfresh : conn.passed = false := by
    have := hI.sound c conn here
    rwa [PhaseSound, phase] at this
  -- a connection that waits for its HELLO has not registered
  have hnone : ∀ h, s.history.lastRegistered h ≠ some c := by
    intro h hlast
    obtain ⟨old, hold, hp, -⟩ := hI.known h c hlast
    rw [here] at hold
    cases hold
    rw [hfresh] at hp
    cases hp
  unfold Channel.hello
  split
  · exact hI.setConn trivial (fun h hlast => absurd hlast (hnone h)) (fun h => by cases h)
  · exact hI.setConn rfl (fun h hlast => absurd hlast (hnone h)) (fun h => by cases h)

theorem OwnershipInv.authenticate {s : Channel} (hI : OwnershipInv s) {c : ConnId} {conn : Conn}
    {agentId : Uuid} {sig : Str} {dbUp : Bool} (here : s.conns c = some conn)
    (phase : conn.phase = .greeted agentId sig) :
    OwnershipInv (s.authenticate c conn agentId sig dbUp) := by
  have hid : conn.agentId = some agentId := by
    have := hI.sound c conn here
    rwa [PhaseSound, phase] at this
  unfold Channel.authenticate
  split
  · exact hI.setPhase here trivial rfl id (fun h => by cases h)
  · split
    · exact hI.setPhase here trivial rfl id (fun h => by cases h)
    · rename_i hostId hauth
      have hhost := authenticate_accepted hauth
      subst hhost
      exact hI.setPhase here ⟨hid, rfl⟩ rfl (fun _ => rfl) (fun h => by cases h)

theorem OwnershipInv.register {s : Channel} (hI : OwnershipInv s) {c : ConnId} {conn : Conn}
    {hostId : Uuid} {window : Window} (here : s.conns c = some conn)
    (phase : conn.phase = .acknowledged hostId window) :
    OwnershipInv (s.register c conn hostId window) := by
  obtain ⟨hid, hpassed⟩ : conn.agentId = some hostId ∧ conn.passed = true := by
    have := hI.sound c conn here
    rwa [PhaseSound, phase] at this
  -- the entries of other hosts belong to other connections
  have hother : ∀ h, h ≠ hostId → s.history.lastRegistered h ≠ some c := by
    intro h hh hlast
    obtain ⟨old, hold, -, ha⟩ := hI.known h c hlast
    rw [here] at hold
    cases hold
    rw [hid] at ha
    cases ha
    exact hh rfl
  refine ⟨?_, ?_, ?_, hI.failed, ?_⟩
  · intro h d hreg
    by_cases hh : h = hostId
    · subst hh
      simpa [Channel.register] using hreg
    · simpa [Channel.register, hh] using hI.latest h d (by simpa [Channel.register, hh] using hreg)
  · intro h d hlast
    by_cases hh : h = hostId
    · subst hh
      have hd : c = d := by simpa [Channel.register] using hlast
      subst hd
      exact ⟨_, setConn_self s c _, hpassed, hid⟩
    · have hlast' : s.history.lastRegistered h = some d := by
        simpa [Channel.register, hh] using hlast
      obtain ⟨old, hold, hrest⟩ := hI.known h d hlast'
      have hd : d ≠ c := fun hd => hother h hh (hd ▸ hlast')
      exact ⟨old, (setConn_of_ne s hd _).trans hold, hrest⟩
  · intro d old hold
    rcases setConn_cases hold with ⟨-, rfl⟩ | ⟨-, hold⟩
    · exact ⟨hid, hpassed⟩
    · exact hI.sound d old hold
  · intro h d old hlast hold hserve hfail
    by_cases hh : h = hostId
    · subst hh
      simpa [Channel.register] using hlast
    · have hlast' : s.history.lastRegistered h = some d := by
        simpa [Channel.register, hh] using hlast
      have hd : d ≠ c := fun hd => hother h hh (hd ▸ hlast')
      have hold' : s.conns d = some old := (setConn_of_ne s hd _).symm.trans hold
      simpa [Channel.register, hh] using hI.owned h d old hlast' hold' hserve hfail

theorem OwnershipInv.receive {cfg : Config} {s : Channel} (hI : OwnershipInv s) {c : ConnId}
    {conn : Conn} {hostId : Uuid} {window : Window} {raw : Str} {mono now : Int} {dbUp : Bool}
    (here : s.conns c = some conn) (phase : conn.phase = .serving hostId window) :
    OwnershipInv (s.receive cfg c conn hostId window raw mono now dbUp) := by
  have hserving : conn.agentId = some hostId ∧ conn.passed = true := by
    have := hI.sound c conn here
    rwa [PhaseSound, phase] at this
  have hkeep : ∀ w served,
      OwnershipInv (s.setConn c { conn with phase := afterFrame hostId w served }) := by
    intro w served
    refine hI.setPhase here ?_ rfl id (fun _ => by rw [phase]; rfl)
    cases served with
    | stay => exact hserving
    | leave code => trivial
  have h := hkeep (readFrame cfg.lib cfg.limits window mono raw).1
    (serveFrame s.db now dbUp (readFrame cfg.lib cfg.limits window mono raw).2).2
  exact ⟨h.latest, h.known, h.sound, h.failed, h.owned⟩

theorem OwnershipInv.finish {s : Channel} (hI : OwnershipInv s) {c : ConnId} {conn : Conn}
    (here : s.conns c = some conn) (phase : conn.phase = .closing)
    (hown : RemovesOwn s (.finish c)) : OwnershipInv (s.finish c conn) := by
  have hclean : OwnershipInv (s.cleanUp conn.agentId) ∧
      (s.cleanUp conn.agentId).conns c = some conn := by
    cases hid : conn.agentId with
    | none => exact ⟨hI, here⟩
    | some h =>
      refine ⟨hI.unregister (hown conn h here hid) (Or.inr ?_), here⟩
      intro conn' hconn'
      rw [here] at hconn'
      cases hconn'
      rw [phase]
      rfl
  exact hclean.1.setPhase hclean.2 trivial rfl id (fun h => by cases h)

theorem OwnershipInv.step {cfg : Config} {s t : Channel} {a : Act} (hI : OwnershipInv s)
    (hown : RemovesOwn s a) (h : step cfg s a = some t) : OwnershipInv t := by
  cases step_cases h with
  | connect fresh => exact hI.connect fresh
  | hello here phase => exact hI.hello here phase
  | authenticate here phase => exact hI.authenticate here phase
  | acknowledge here phase =>
    rename_i c now sendOk conn hostId
    have hsound := hI.sound c conn here
    rw [PhaseSound, phase] at hsound
    refine hI.setPhase here ?_ rfl id ?_
    · cases sendOk with
      | false => trivial
      | true => exact hsound
    · cases sendOk with
      | false => exact fun h => by cases h
      | true => exact fun h => by cases h
  | register here phase => exact hI.register here phase
  | receive here phase => exact hI.receive here phase
  | drop here _ _ => exact hI.setPhase here trivial rfl id (fun h => by cases h)
  | finish here phase => exact hI.finish here phase hown
  | tick _ _ => exact hI.setDispatcher (fun _ _ _ h => by cases h)
  | next _ =>
    refine hI.setDispatcher ?_
    intro host ws rows hd
    obtain hskip | ⟨_, _, _, -, -, hsend⟩ := dispatchRow_cases cfg s _ _ _ _
    · rw [hskip] at hd
      cases hd
    · rw [hsend] at hd
      cases hd
  | sendOk _ =>
    exact ⟨hI.latest, hI.known, hI.sound, fun _ _ _ h => (by cases h), hI.owned⟩
  | sendFail _ =>
    refine ⟨hI.latest, hI.known, hI.sound, ?_, ?_⟩
    · intro host ws rows hd
      cases hd
      exact List.mem_cons_self
    · intro h d conn hlast hconn hserve hfail
      exact hI.owned h d conn hlast hconn hserve (fun hm => hfail (List.mem_cons_of_mem _ hm))
  | unregisterFailed failed =>
    have hmem := hI.failed _ _ _ failed
    have h' := hI.unregister (hown _ _ _ failed) (Or.inl hmem)
    exact h'.setDispatcher (fun _ _ _ h => by cases h)
  | mark _ =>
    exact ⟨hI.latest, hI.known, hI.sound, fun _ _ _ h => (by cases h), hI.owned⟩
  | markFails _ => exact hI.setDispatcher (fun _ _ _ h => by cases h)
  | tickDone _ => exact hI.setDispatcher (fun _ _ _ h => by cases h)
  | writeAction _ => exact ⟨hI.latest, hI.known, hI.sound, hI.failed, hI.owned⟩
  | saveHost => exact ⟨hI.latest, hI.known, hI.sound, hI.failed, hI.owned⟩
  | ingest _ => exact ⟨hI.latest, hI.known, hI.sound, hI.failed, hI.owned⟩

/-- A removal by a handler that has not authenticated finds nothing when it finds its own. -/
theorem OwnershipInv.cleanUp_registry {s : Channel} (hI : OwnershipInv s) {c : ConnId}
    {conn : Conn} (here : s.conns c = some conn) (hpassed : conn.passed = false)
    (hown : RemovesOwn s (.finish c)) : (s.cleanUp conn.agentId).registry = s.registry := by
  cases hid : conn.agentId with
  | none => rfl
  | some h =>
    rcases hown conn h here hid with hnone | hsome
    · show Function.update s.registry h none = s.registry
      rw [← hnone]
      exact Function.update_eq_self h s.registry
    · obtain ⟨old, hold, hp, -⟩ := hI.known h c (hI.latest h c hsome)
      rw [here] at hold
      cases hold
      rw [hpassed] at hp
      cases hp

theorem OwnershipInv.unauthenticated {cfg : Config} {s t : Channel} {a : Act}
    (hI : OwnershipInv s) (hown : RemovesOwn s a) (h : Channel.step cfg s a = some t)
    (hauth : Unauthenticated s a) : t.registry = s.registry := by
  obtain ⟨c, hc, hpassed⟩ := hauth
  cases step_cases h with
  | connect _ => rfl
  | hello _ _ =>
    unfold Channel.hello
    split
    · rfl
    · rfl
  | authenticate _ _ =>
    unfold Channel.authenticate
    split
    · rfl
    · split
      · rfl
      · rfl
  | acknowledge _ _ => rfl
  | register here phase =>
    cases hc
    have hsound := hI.sound _ _ here
    rw [PhaseSound, phase] at hsound
    rw [hpassed _ here] at hsound
    cases hsound.2
  | receive _ _ => rfl
  | drop _ _ _ => rfl
  | finish here _ =>
    cases hc
    exact hI.cleanUp_registry here (hpassed _ here) hown
  | tick _ _ => cases hc
  | next _ => cases hc
  | sendOk _ => cases hc
  | sendFail _ => cases hc
  | unregisterFailed _ => cases hc
  | mark _ => cases hc
  | markFails _ => cases hc
  | tickDone _ => cases hc
  | writeAction _ => cases hc
  | saveHost => cases hc
  | ingest _ => cases hc

/-- **Registry ownership.** In every run in which a removal finds nothing or the entry of the
connection it is meant for, a connection that has not authenticated never changes the registry,
and the connection that registered last for a host is the registered one until it closes or a
send on it fails. -/
theorem registry_owned (cfg : Config) (s t : Channel) (as : List Act) (start : Start s)
    (run : Run (step cfg) RemovesOwn s as t) :
    Owned t ∧ ∀ a u, RemovesOwn t a → step cfg t a = some u → Unauthenticated t a →
      u.registry = t.registry := by
  have hI : OwnershipInv t := run.invariant (OwnershipInv.start start)
    fun _ _ _ hI hown h => hI.step hown h
  exact ⟨hI.owned, fun a u hown h hauth => hI.unauthenticated hown h hauth⟩

/-! ## A forged HELLO -/

def forgedNonce : Str := List.replicate 64 'b'

def forgedSig : Str := List.replicate 64 '0'

def forgedHello : Str := helloText onlineHost.id forgedNonce forgedSig

def forgedConfig : Config :=
  onlineConfig [(forgedHello, helloJson onlineHost.id forgedNonce forgedSig)] [] []

/-- The host's agent connects and registers; a second client claims the same host with a
signature that does not verify. -/
def forgedRun : List Act :=
  onlineRun ++ [.connect 2 forgedNonce, .hello 2 forgedHello, .authenticate 2 true]

def serves (s : Channel) (c : ConnId) : Bool :=
  (s.conns c).any fun conn => conn.phase.serves

theorem registry_owned_online :
    ∃ t, AnyRun (step forgedConfig) (initial onlineDb) forgedRun t ∧
      t.registry onlineHost.id = some 1 ∧ Owned t := by
  have hcheck : (exec (step forgedConfig) (initial onlineDb) forgedRun).any
      (fun t => t.registry onlineHost.id == some 1) = true := by
    decide +kernel
  obtain ⟨t, hrun, ht⟩ := run_of_check hcheck
  have hown : ∀ a ∈ forgedRun, ∀ m, RemovesOwn m a := by
    simp [forgedRun, onlineRun, RemovesOwn]
  exact ⟨t, hrun, beq_iff_eq.mp ht,
    (registry_owned _ _ _ _ (start_initial _) (hrun.of_all hown)).1⟩

/-- What the run leads to: the clean-up of the second client removes the entry of the first. -/
def displaced (s : Channel) : Bool :=
  s.registry onlineHost.id == some 1 && (s.conns 2).any (fun conn => !conn.passed) &&
    (step forgedConfig s (.finish 2)).any fun t =>
      t.registry onlineHost.id == none && t.serves 1 &&
        t.history.lastRegistered onlineHost.id == some 1 && t.history.sendFailed == []

/-- A client without the secret of a host removes the registry entry of its live connection. -/
theorem displaced_by_unauthenticated :
    Start (initial onlineDb) ∧
      ∃ s t, AnyRun (step forgedConfig) (initial onlineDb) forgedRun s ∧
        step forgedConfig s (.finish 2) = some t ∧ Unauthenticated s (.finish 2) ∧
        t.registry ≠ s.registry ∧ ¬ Owned t := by
  have hcheck : (exec (step forgedConfig) (initial onlineDb) forgedRun).any displaced = true := by
    decide +kernel
  obtain ⟨s, hrun, hs⟩ := run_of_check hcheck
  simp only [displaced, Bool.and_eq_true, beq_iff_eq] at hs
  obtain ⟨⟨hreg, hforged⟩, hfinish⟩ := hs
  obtain ⟨t, ht, hleft⟩ := (Option.any_eq_true _ _).mp hfinish
  simp only [Bool.and_eq_true, beq_iff_eq] at hleft
  obtain ⟨⟨⟨hgone, hserves⟩, hlast⟩, hfail⟩ := hleft
  obtain ⟨conn, hconn, hserve⟩ := (Option.any_eq_true _ _).mp hserves
  refine ⟨start_initial _, s, t, hrun, ht, ⟨2, rfl, ?_⟩, ?_, ?_⟩
  · intro other hother
    rw [hother] at hforged
    simpa using hforged
  · intro heq
    rw [heq, hreg] at hgone
    cases hgone
  · intro howned
    have := howned onlineHost.id 1 conn hlast hconn hserve (by simp [hfail])
    rw [hgone] at this
    cases this

end Channel

end ZaqorinCore.Server
