import ZaqorinCore.Server.Channel

/-!
# Progress of the dispatcher

One pass of `_tick`, whatever the other tasks do in between. A row that can be delivered should be
sent although others cannot: but `_tick` takes the sixteen oldest pending rows before it looks at
any of them, and it skips a host with `auto_block` off even for a kind that does not ask for it.
`tick_serves_iff` says that these are the only obstacles.
-/

namespace ZaqorinCore.Server

open Text Base

/-- The rows that are still to come. -/
def Dispatch.rows : Dispatch → List (Action × Option Host)
  | .idle => []
  | .working rows => rows
  | .sending _ _ _ _ rows => rows
  | .failed _ _ rows => rows
  | .sent _ rows => rows

/-- The row whose frame is being sent. -/
def Dispatch.trying : Dispatch → Option Action
  | .sending action _ _ _ _ => some action
  | _ => none

namespace Channel

/-! ## Rows that are due -/

/-- The host of a row exists, is connected and has a secret; the kind and the target are valid and
enabled in the deployment mode; and the host has opted in if the kind asks for it. -/
def deliverable (cfg : Config) (s : Channel) (a : Action) : Bool :=
  match a.hostId.bind s.db.hosts.find, kindOfName a.kind with
  | some host, some kind =>
    (s.registry host.id).isSome && host.secret.any (· != []) &&
      (validateTarget cfg.dispatch.allowDangerousTargets a.kind a.target).isOk &&
      (validateModeAction cfg.dispatch.deploymentMode a.kind).isOk &&
      (!kind.requiresHostOptIn || host.autoBlock)
  | _, _ => false

/-- The sixteen oldest rows that can be delivered. -/
def due (cfg : Config) (s : Channel) (order : List Action) : List Action :=
  (order.filter (deliverable cfg s)).take 16

theorem ok_of_isOk {ε : Type} {x : Except ε Unit} (h : x.isOk = true) : x = .ok () := by
  cases x with
  | error e => cases h
  | ok u => rfl

/-- A deliverable row has a connected host, and a frame whenever it is built. -/
theorem deliverable_spec {cfg : Config} {s : Channel} {a : Action}
    (h : deliverable cfg s a = true) :
    ∃ host, a.hostId.bind s.db.hosts.find = some host ∧ (s.registry host.id).isSome ∧
      ∀ now, ∃ frame, buildCommandFrame cfg.dispatch a host now = some frame := by
  unfold deliverable at h
  split at h
  · rename_i host kind hhost hkind
    simp only [Bool.and_eq_true, Bool.or_eq_true, Bool.not_eq_true'] at h
    obtain ⟨⟨⟨⟨hconnected, hsecret⟩, htarget⟩, hmode⟩, hoptIn⟩ := h
    refine ⟨host, hhost, hconnected, ?_⟩
    intro now
    obtain ⟨secret, hsome, hne⟩ := (Option.any_eq_true _ _).mp hsecret
    have hne : secret ≠ [] := by simpa using hne
    have hvalid : isValidKind a.kind = true := by
      rw [isValidKind, hkind]
      rfl
    have hallowed : (kind.requiresHostOptIn && !host.autoBlock) = false := by
      rcases hoptIn with hfree | hauto
      · rw [hfree, Bool.false_and]
      · rw [hauto, Bool.not_true, Bool.and_false]
    unfold buildCommandFrame
    simp only [hsome, if_neg hne, hvalid, ok_of_isOk htarget, ok_of_isOk hmode, hkind, hallowed]
    exact ⟨_, rfl⟩
  · cases h

/-! ## One tick -/

variable {cfg : Config} {s t u : Channel} {order : List Action} {a : Action} {acts : List Act}

/-- A run passes through a state. -/
def Passes (cfg : Config) (s : Channel) (acts : List Act) (u : Channel) : Prop :=
  ∃ before, before <+: acts ∧ AnyRun (step cfg) s before u

/-- A send of the row is tried. -/
def Attempted (cfg : Config) (s : Channel) (acts : List Act) (a : Action) : Prop :=
  ∃ u, Passes cfg s acts u ∧ u.dispatcher.trying = some a

/-- The host of the row stays connected. -/
def StaysConnected (cfg : Config) (s : Channel) (acts : List Act) (a : Action) : Prop :=
  ∀ u, Passes cfg s acts u → ∀ host, a.hostId.bind s.db.hosts.find = some host →
    (u.registry host.id).isSome

/-- The actions of all tasks from the `SELECT` of a tick to the end of its loop. -/
structure OneTick (cfg : Config) (s : Channel) (order : List Action) (acts : List Act) : Prop where
  run : ∃ t, AnyRun (step cfg) s (.tick order :: acts ++ [.tickDone]) t
  single : ∀ o, Act.tick o ∉ acts

/-- Every tick that comes to its end has tried to send the sixteen oldest deliverable rows, except
those whose host has left meanwhile. -/
def TickServes (cfg : Config) (s : Channel) (order : List Action) : Prop :=
  ∀ acts, OneTick cfg s order acts → ∀ a ∈ due cfg s order,
    StaysConnected cfg s (.tick order :: acts) a → Attempted cfg s (.tick order :: acts) a

/-- No older row that cannot be delivered takes the place of a deliverable one, and no host of a
deliverable row has `auto_block` off. -/
structure Unhindered (cfg : Config) (s : Channel) (order : List Action) : Prop where
  batch : ∀ a ∈ due cfg s order, a ∈ order.take 16
  autoBlock : ∀ a ∈ due cfg s order, ∀ host, a.hostId.bind s.db.hosts.find = some host →
    host.autoBlock = true

/-- What a step of any task means for the tick: nothing, its end, the turn of a row, or the rest of
a turn. -/
theorem step_dispatcher {act : Act} (h : step cfg s act = some t) (hact : ∀ o, act ≠ .tick o) :
    t.dispatcher = s.dispatcher ∨ t.dispatcher = .idle ∨
      (∃ now action host rows, s.dispatcher = .working ((action, host) :: rows) ∧
        t.dispatcher = s.dispatchRow cfg now action host rows) ∨
      (s.dispatcher ≠ .idle ∧ t.dispatcher.rows = s.dispatcher.rows ∧
        t.dispatcher.trying = none) := by
  cases step_cases h with
  | connect _ => exact .inl rfl
  | hello _ _ =>
    unfold Channel.hello
    split
    · exact .inl rfl
    · exact .inl rfl
  | authenticate _ _ =>
    unfold Channel.authenticate
    split
    · exact .inl rfl
    · split
      · exact .inl rfl
      · exact .inl rfl
  | acknowledge _ _ => exact .inl rfl
  | register _ _ => exact .inl rfl
  | receive _ _ => exact .inl rfl
  | drop _ _ _ => exact .inl rfl
  | finish _ _ =>
    unfold Channel.finish cleanUp
    split
    · exact .inl rfl
    · exact .inl rfl
  | tick _ _ => exact absurd rfl (hact _)
  | next working => exact .inr (.inr (.inl ⟨_, _, _, _, working, rfl⟩))
  | sendOk sending => exact .inr (.inr (.inr ⟨by simp [sending], by rw [sending]; rfl, rfl⟩))
  | sendFail sending => exact .inr (.inr (.inr ⟨by simp [sending], by rw [sending]; rfl, rfl⟩))
  | unregisterFailed failed => exact .inr (.inr (.inr ⟨by simp [failed], by rw [failed]; rfl, rfl⟩))
  | mark sent => exact .inr (.inr (.inr ⟨by simp [sent], by rw [sent]; rfl, rfl⟩))
  | markFails _ => exact .inr (.inl rfl)
  | tickDone _ => exact .inr (.inl rfl)
  | writeAction _ => exact .inl rfl
  | saveHost => exact .inl rfl
  | ingest _ => exact .inl rfl

theorem dispatchRow_sends {now : UtcTime} {action : Action} {host : Host}
    {rows : List (Action × Option Host)} (hauto : host.autoBlock = true)
    (hconnected : (s.registry host.id).isSome)
    (hframe : ∃ frame, buildCommandFrame cfg.dispatch action host now = some frame) :
    (s.dispatchRow cfg now action (some host) rows).trying = some action := by
  obtain ⟨ws, hws⟩ := Option.isSome_iff_exists.mp hconnected
  obtain ⟨frame, hframe⟩ := hframe
  simp only [dispatchRow, hauto, Bool.not_true, Bool.false_eq_true, if_false, hws, hframe]
  rfl

theorem rows_dispatchRow (now : UtcTime) (action : Action) (host : Option Host)
    (rows : List (Action × Option Host)) :
    (s.dispatchRow cfg now action host rows).rows = rows := by
  obtain h | ⟨_, _, _, -, -, h⟩ := dispatchRow_cases cfg s now action host rows
  · rw [h]
    rfl
  · rw [h]
    rfl

/-! ## What a tick sends -/

theorem Attempted.mono {more : List Act} (h : Attempted cfg s acts a) :
    Attempted cfg s (acts ++ more) a := by
  obtain ⟨u, ⟨before, hprefix, hrun⟩, htrying⟩ := h
  exact ⟨u, ⟨before, hprefix.trans (List.prefix_append _ _), hrun⟩, htrying⟩

/-- As long as its host is connected, a row of the tick with a host that has opted in is tried or
still to come. -/
theorem attempted_or_waiting {host : Host} (hauto : host.autoBlock = true)
    (hframe : ∀ now, ∃ frame, buildCommandFrame cfg.dispatch a host now = some frame)
    (hrow : (a, some host) ∈ s.dispatcher.rows) (hrun : AnyRun (step cfg) s acts t)
    (hsingle : ∀ o, Act.tick o ∉ acts)
    (hconnected : ∀ u, Passes cfg s acts u → (u.registry host.id).isSome) :
    t.dispatcher = .idle ∨ Attempted cfg s acts a ∨ (a, some host) ∈ t.dispatcher.rows := by
  induction hrun with
  | nil => exact .inr (.inr hrow)
  | @snoc t u acts act before _ taken ih =>
    have hall : AnyRun (step cfg) s (acts ++ [act]) u := .snoc before trivial taken
    have hact : ∀ o, act ≠ .tick o := by
      rintro o rfl
      exact hsingle o (by simp)
    have hhere : Passes cfg s (acts ++ [act]) t := ⟨acts, List.prefix_append _ _, before⟩
    have hlast : Passes cfg s (acts ++ [act]) u := ⟨acts ++ [act], List.prefix_rfl, hall⟩
    have hbefore := ih (fun o ho => hsingle o (List.mem_append_left _ ho))
      fun v ⟨b, hb, hv⟩ => hconnected v ⟨b, hb.trans (List.prefix_append _ _), hv⟩
    rcases hbefore with hidle | htried | hwaits
    · -- nothing but a tick leaves the idle state
      rcases step_dispatcher taken hact with h | h | ⟨_, _, _, _, h, -⟩ | ⟨h, -⟩
      · exact .inl (h.trans hidle)
      · exact .inl h
      · rw [hidle] at h
        cases h
      · exact absurd hidle h
    · exact .inr (.inl htried.mono)
    · rcases step_dispatcher taken hact with
        h | h | ⟨now, action, other, rows, h, hturn⟩ | ⟨-, h, -⟩
      · rw [h]
        exact .inr (.inr hwaits)
      · exact .inl h
      · rw [h] at hwaits
        rcases List.mem_cons.mp hwaits with heq | hlater
        · -- its own turn
          cases heq
          refine .inr (.inl ⟨u, hlast, ?_⟩)
          rw [hturn]
          exact dispatchRow_sends hauto (hconnected t hhere) (hframe now)
        · rw [hturn, rows_dispatchRow]
          exact .inr (.inr hlater)
      · rw [h]
        exact .inr (.inr hwaits)

/-- Only rows of the tick are tried, and only for hosts that have opted in. -/
theorem tried_of_tick {rows : List (Action × Option Host)} (hworking : s.dispatcher = .working rows)
    (hrun : AnyRun (step cfg) s acts t) (hsingle : ∀ o, Act.tick o ∉ acts) :
    (∀ r ∈ t.dispatcher.rows, r ∈ rows) ∧ ∀ a, t.dispatcher.trying = some a →
      ∃ host, (a, some host) ∈ rows ∧ host.autoBlock = true := by
  have hmem := hrun.mem
  refine hmem.invariant (I := fun t => (∀ r ∈ t.dispatcher.rows, r ∈ rows) ∧
    ∀ a, t.dispatcher.trying = some a → ∃ host, (a, some host) ∈ rows ∧ host.autoBlock = true) ?_ ?_
  · rw [hworking]
    exact ⟨fun r hr => hr, nofun⟩
  · rintro t act u ⟨hrows, htrying⟩ ⟨-, hact⟩ taken
    have hact : ∀ o, act ≠ .tick o := by
      rintro o rfl
      exact hsingle o hact
    rcases step_dispatcher taken hact with
      h | h | ⟨now, action, other, later, h, hturn⟩ | ⟨-, h, h'⟩
    · rw [h]
      exact ⟨hrows, htrying⟩
    · rw [h]
      exact ⟨fun _ hr => absurd hr List.not_mem_nil, nofun⟩
    · rw [h] at hrows
      refine ⟨?_, ?_⟩
      · rw [hturn, rows_dispatchRow]
        exact fun r hr => hrows r (List.mem_cons_of_mem _ hr)
      · intro a ha
        obtain hskip | ⟨host, ws, frame, rfl, hauto, hsend⟩ :=
          dispatchRow_cases cfg t now action other later
        · rw [hturn, hskip] at ha
          cases ha
        · rw [hturn, hsend] at ha
          cases ha
          exact ⟨host, hrows _ List.mem_cons_self, hauto⟩
    · rw [h, h']
      exact ⟨hrows, nofun⟩

/-! ## A quiet tick -/

/-- The steps of a tick in which every send and every mark succeeds. -/
def quiet : Act → Bool
  | .next _ => true
  | .sendOk => true
  | .mark _ dbUp => dbUp
  | _ => false

theorem registry_of_quiet {act : Act} (hquiet : quiet act = true) (h : step cfg s act = some t) :
    t.registry = s.registry := by
  cases step_cases h with
  | next _ => rfl
  | sendOk _ => rfl
  | mark _ => rfl
  | _ => cases hquiet

/-- The rows of a tick can be taken to the end by the dispatcher alone. -/
theorem quiet_tick (cfg : Config) (rows : List (Action × Option Host)) (s : Channel)
    (h : s.dispatcher = .working rows) :
    ∃ acts t, AnyRun (step cfg) s acts t ∧ t.dispatcher = .working [] ∧
      ∀ act ∈ acts, quiet act = true := by
  induction rows generalizing s with
  | nil => exact ⟨[], s, .nil s, h, by simp⟩
  | cons row rows ih =>
    obtain ⟨action, host⟩ := row
    have hnext : step cfg s (.next UtcTime.sample) =
        some { s with dispatcher := s.dispatchRow cfg UtcTime.sample action host rows } := by
      simp only [step, h]
    obtain hskip | ⟨host, ws, frame, rfl, -, hsend⟩ :=
      dispatchRow_cases cfg s UtcTime.sample action host rows
    · rw [hskip] at hnext
      obtain ⟨acts, t, hrun, ht, hquiet⟩ := ih { s with dispatcher := .working rows } rfl
      refine ⟨[.next UtcTime.sample] ++ acts, t, (Run.single trivial hnext).trans hrun, ht, ?_⟩
      intro act hact
      rcases List.mem_append.mp hact with hact | hact
      · rw [List.mem_singleton.mp hact]
        rfl
      · exact hquiet act hact
    · rw [hsend] at hnext
      -- the send succeeds, and so does the mark
      obtain ⟨s₂, hsent, hs₂⟩ : ∃ s₂, step cfg
          { s with dispatcher := .sending action host ws frame rows } .sendOk = some s₂ ∧
          s₂.dispatcher = .sent action rows := ⟨_, rfl, rfl⟩
      obtain ⟨s₃, hmark, hs₃⟩ : ∃ s₃, step cfg s₂ (.mark 0 true) = some s₃ ∧
          s₃.dispatcher = .working rows := by
        simp only [step, hs₂, if_true]
        exact ⟨_, rfl, rfl⟩
      obtain ⟨acts, t, hrun, ht, hquiet⟩ := ih s₃ hs₃
      have hthree : AnyRun (step cfg) s [.next UtcTime.sample, .sendOk, .mark 0 true] s₃ :=
        (Run.single trivial hnext).trans ((Run.single trivial hsent).trans
          (Run.single trivial hmark))
      refine ⟨[.next UtcTime.sample, .sendOk, .mark 0 true] ++ acts, t, hthree.trans hrun, ht, ?_⟩
      intro act hact
      rcases List.mem_append.mp hact with hact | hact
      · simp only [List.mem_cons, List.not_mem_nil, or_false] at hact
        rcases hact with rfl | rfl | rfl
        · rfl
        · rfl
        · rfl
      · exact hquiet act hact

/-! ## Progress -/

theorem prefix_tick {before : List Act} (h : before <+: .tick order :: acts) :
    before = [] ∨ ∃ rest, before = .tick order :: rest ∧ rest <+: acts :=
  List.prefix_cons_iff.mp h

/-- A row that is tried in a tick is one of its sixteen, for a host that has opted in. -/
theorem unhindered_of_attempted (hidle : s.dispatcher = .idle)
    (hsingle : ∀ o, Act.tick o ∉ acts) (h : Attempted cfg s (.tick order :: acts) a) :
    a ∈ order.take 16 ∧ ∀ host, a.hostId.bind s.db.hosts.find = some host →
      host.autoBlock = true := by
  obtain ⟨u, ⟨before, hprefix, hrun⟩, htrying⟩ := h
  rcases prefix_tick hprefix with rfl | ⟨rest, rfl, hrest⟩
  · rw [run_nil hrun, hidle] at htrying
    cases htrying
  · obtain ⟨m, _, hm, hrun⟩ := run_cons hrun
    have hworking : m.dispatcher = .working (selected s.db order) := by
      cases step_cases hm with
      | tick _ _ => rfl
    obtain ⟨-, htried⟩ := tried_of_tick hworking hrun fun o ho => hsingle o (hrest.subset ho)
    obtain ⟨host, hrow, hauto⟩ := htried a htrying
    obtain ⟨b, hb, heq⟩ := List.mem_map.mp hrow
    obtain ⟨rfl, hhost⟩ := Prod.mk.inj heq
    refine ⟨hb, ?_⟩
    intro other hother
    rw [hother] at hhost
    cases hhost
    exact hauto

theorem step_tick (cfg : Config) (hidle : s.dispatcher = .idle) (hselects : Selects s.db order) :
    step cfg s (.tick order) = some { s with dispatcher := .working (selected s.db order) } := by
  simp only [step, hidle, if_pos hselects]

/-- A tick in which the dispatcher runs alone tries every row only if none is hindered. -/
theorem unhindered_of_serves (hidle : s.dispatcher = .idle) (hselects : Selects s.db order)
    (hserves : TickServes cfg s order) : Unhindered cfg s order := by
  have htick := step_tick cfg hidle hselects
  obtain ⟨acts, t, hrun, ht, hquiet⟩ := quiet_tick cfg _
    { s with dispatcher := .working (selected s.db order) } rfl
  have hsingle : ∀ o, Act.tick o ∉ acts := fun o ho => by cases hquiet _ ho
  have hdone : step cfg t .tickDone = some { t with dispatcher := .idle } := by
    simp only [step, ht]
  have hone : OneTick cfg s order acts :=
    ⟨⟨_, .snoc ((Run.single trivial htick).trans hrun) trivial hdone⟩, hsingle⟩
  have hattempted : ∀ a ∈ due cfg s order, Attempted cfg s (.tick order :: acts) a := by
    intro a ha
    refine hserves acts hone a ha ?_
    rintro u ⟨before, hprefix, hrun⟩ host hhost
    have hdeliverable := (List.mem_filter.mp (List.mem_of_mem_take ha)).2
    obtain ⟨host', hhost', hconnected, -⟩ := deliverable_spec hdeliverable
    rw [hhost] at hhost'
    cases hhost'
    rcases prefix_tick hprefix with rfl | ⟨rest, rfl, hrest⟩
    · rw [run_nil hrun]
      exact hconnected
    · obtain ⟨m, _, hm, hrun⟩ := run_cons hrun
      rw [htick] at hm
      cases hm
      have hkept : u.registry = s.registry := by
        have hall := hrun.mem
        refine hall.invariant (I := fun u => u.registry = s.registry) rfl ?_
        rintro v act w hv ⟨-, hact⟩ taken
        rw [registry_of_quiet (hquiet act (hrest.subset hact)) taken, hv]
      rw [hkept]
      exact hconnected
  exact ⟨fun a ha => (unhindered_of_attempted hidle hsingle (hattempted a ha)).1,
    fun a ha => (unhindered_of_attempted hidle hsingle (hattempted a ha)).2⟩

theorem serves_of_unhindered (hidle : s.dispatcher = .idle) (hselects : Selects s.db order)
    (h : Unhindered cfg s order) : TickServes cfg s order := by
  have htick := step_tick cfg hidle hselects
  rintro acts ⟨⟨t, hrun⟩, hsingle⟩ a ha hconnected
  obtain ⟨u, hrun, _, hdone⟩ := run_snoc hrun
  have hu : u.dispatcher = .working [] := by
    cases step_cases hdone with
    | tickDone h => exact h
  obtain ⟨m, _, hm, hrun⟩ := run_cons hrun
  rw [htick] at hm
  cases hm
  have hdeliverable := (List.mem_filter.mp (List.mem_of_mem_take ha)).2
  obtain ⟨host, hhost, -, hframe⟩ := deliverable_spec hdeliverable
  have hrow : (a, some host) ∈
      ({ s with dispatcher := .working (selected s.db order) } : Channel).dispatcher.rows :=
    List.mem_map.mpr ⟨a, h.batch a ha, by rw [hhost]⟩
  have hpasses : ∀ v, Passes cfg { s with dispatcher := .working (selected s.db order) } acts v →
      Passes cfg s (.tick order :: acts) v := by
    rintro v ⟨before, hprefix, hv⟩
    exact ⟨.tick order :: before, List.prefix_cons_inj _ |>.mpr hprefix,
      (Run.single trivial htick).trans hv⟩
  have hend := attempted_or_waiting (h.autoBlock a ha host hhost) hframe hrow hrun
    hsingle fun v hv => hconnected v (hpasses v hv) host hhost
  rw [hu] at hend
  rcases hend with h | ⟨v, hv, htrying⟩ | h
  · cases h
  · exact ⟨v, hpasses v hv, htrying⟩
  · cases h

/-- A tick serves the deliverable rows exactly when none of them is hindered, by older rows that
cannot be delivered or by a host that has `auto_block` off. -/
theorem tick_serves_iff (cfg : Config) (s : Channel) (order : List Action)
    (hidle : s.dispatcher = .idle) (hselects : Selects s.db order) :
    TickServes cfg s order ↔ Unhindered cfg s order :=
  ⟨unhindered_of_serves hidle hselects, serves_of_unhindered hidle hselects⟩

/-! ## Waiting behind a host that is away -/

/-- An address to block on a host. -/
def waitingAction (id host : Nat) : Action :=
  ⟨id, some host, "block_ip".toList, "203.0.113.7".toList, none, .pending, none, none, id⟩

/-- Host 7 is connected, host 8 is not. -/
def waitingChannel (rows : List Action) (h : (rows.map Action.id).Nodup) : Channel :=
  ⟨⟨⟨[onlineHost, ⟨8#128, some "other-secret".toList, true⟩], by decide⟩, Table.empty, ⟨rows, h⟩⟩,
    fun h => if h = onlineHost.id then some 1 else none, fun _ => none, .idle,
    ⟨fun _ => none, [], [], [], [], []⟩⟩

/-- The row of the connected host is the second of two. -/
def twoRows : List Action := [waitingAction 0 8, waitingAction 1 7]

/-- The row of the connected host comes after sixteen rows of the other one. -/
def seventeenRows : List Action :=
  (List.range 16).map (waitingAction · 8) ++ [waitingAction 16 7]

/-- A row that cannot be delivered is no obstacle within the sixteen. -/
theorem tick_serves_second :
    due (onlineConfig [] [] []) (waitingChannel twoRows (by decide)) twoRows = [waitingAction 1 7] ∧
      TickServes (onlineConfig [] [] []) (waitingChannel twoRows (by decide)) twoRows := by
  have hdue : due (onlineConfig [] [] []) (waitingChannel twoRows (by decide)) twoRows =
      [waitingAction 1 7] := by decide +kernel
  have hhost : (waitingAction 1 7).hostId.bind
      (waitingChannel twoRows (by decide)).db.hosts.find = some onlineHost := by decide +kernel
  refine ⟨hdue, (tick_serves_iff _ _ _ rfl (by decide +kernel)).mpr ⟨?_, ?_⟩⟩
  · rw [hdue]
    decide +kernel
  · rw [hdue]
    intro a ha host h
    rw [List.mem_singleton.mp ha, hhost] at h
    cases h
    rfl

/-- The seventeenth row is never tried, though its host is connected. -/
theorem seventeenth_starves :
    ¬ TickServes (onlineConfig [] [] []) (waitingChannel seventeenRows (by decide))
        seventeenRows := by
  intro hserves
  have hselects : Selects (waitingChannel seventeenRows (by decide)).db seventeenRows := by
    decide +kernel
  have hbatch := (unhindered_of_serves rfl hselects hserves).batch (waitingAction 16 7)
    (by decide +kernel)
  exact absurd hbatch (by decide +kernel)

end Channel

end ZaqorinCore.Server
