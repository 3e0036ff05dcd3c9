import ZaqorinCore.Server.Leases

/-!
# Who is blocked, and why

The actions of the detector loop block addresses. `blocks_attributed` traces every row back: over
any run, whatever calls fail on the way, an alert is one of `ssh_bruteforce` or `web_attack`, raised
for an event that was delivered and read back from the database and that names the address as the
source of what the detector looks for; and an action blocks that address for an hour, on the host of
the event. The other three detectors ask for the time of an event in a field that it does not have,
so that no row of any run is theirs and no address is ever tarpitted and no session revoked.
-/

namespace ZaqorinCore.Server

open Text Base Script

/-! ## What a row rests on -/

/-- The event names the address as the source of what the detector looks for. -/
inductive Names (txt : TextOps) (event : ParsedEvent) (ip : Str) : Str → Str → Prop
  | ssh (failed : isFailedLogin txt event = true) (source : sshSourceIp txt event = some ip)
      (nonempty : ip ≠ []) : Names txt event ip Builtin.sshBruteforce.name ip
  | web (tag : Str) (http : isHttpEvent txt event = true) (matched : tag ∈ webMatches txt event)
      (source : metaGet event "source_ip" = some ip) (nonempty : ip ≠ []) :
      Names txt event ip Builtin.webAttack.name (webDedupKey ip tag)

/-- The result is about an address that the event names, and asks to block it. -/
def Accuses (txt : TextOps) (event : ParsedEvent) (r : DetectionResult) : Prop :=
  ∃ ip, Names txt event ip r.detector r.dedupKey ∧
    r.action = some ⟨"block_ip".toList, ip, some 3600⟩

/-- The entry of one of the arrivals is about the event, whose text and metadata are those the
database had then. -/
def Seen {ρ : Type} (arrivals : List (Arrival ρ)) (event : ParsedEvent) : Prop :=
  ∃ a ∈ arrivals, ∃ parsed raw metadata, parseEvent a.fields = .ok (some parsed) ∧
    a.payloads parsed.eventId = some (raw, metadata) ∧ event = { parsed with raw, metadata }

def AlertFounded {ρ : Type} (txt : TextOps) (arrivals : List (Arrival ρ)) (row : AlertRow) :
    Prop :=
  ∃ event ip, Seen arrivals event ∧ event.hostId = row.hostId ∧
    Names txt event ip row.detector row.dedupKey

def ActionFounded {ρ : Type} (txt : TextOps) (arrivals : List (Arrival ρ)) (row : ActionRow) :
    Prop :=
  ∃ event ip, Seen arrivals event ∧ event.hostId = row.hostId ∧ row.alert.hostId = row.hostId ∧
    Names txt event ip row.alert.detector row.alert.dedupKey ∧
    row.action = ⟨"block_ip".toList, ip, some 3600⟩

/-- Every row is founded on one of the arrivals. -/
structure Founded {ρ : Type} (txt : TextOps) (arrivals : List (Arrival ρ)) (w : World) : Prop where
  alerts : ∀ row ∈ w.alerts, AlertFounded txt arrivals row
  actions : ∀ row ∈ w.actions, ActionFounded txt arrivals row

/-! ## Calls that write no row -/

/-- The condition looks neither at Redis nor at how calls are answered. -/
def Blind (F : World → Prop) : Prop :=
  ∀ w redis answers grantedAt, F w → F { w with redis, answers, grantedAt }

theorem Blind.lasting {F : World → Prop} (hF : Blind F) : Lasting F :=
  fun w answers time hw => hF w (w.elapse time).redis answers w.grantedAt hw

/-- A script that keeps the condition, whether it raises or not, and what it returns. -/
def Observes {α : Type} (F : World → Prop) (m : Py World α) (B : α → Prop) : Prop :=
  Triple F m (fun a w => F w ∧ B a) fun _ => F

section Calls

variable {α β : Type} {F : World → Prop}

theorem observes_pure {a : α} {B : α → Prop} (h : B a) : Observes F (pure a) B :=
  fun _ hw => ⟨hw, h⟩

theorem Observes.bind {m : Py World α} {f : α → Py World β} {A : α → Prop} {B : β → Prop}
    (hm : Observes F m A) (hf : ∀ a, A a → Observes F (f a) B) : Observes F (m >>= f) B :=
  Triple.bind hm fun a w hw => hf a hw.2 w hw.1

theorem nextAnswer_keeps (hF : Blind F) : Triple F World.nextAnswer (fun _ => F) fun _ => F :=
  fun w hw => hF.lasting w _ _ hw

theorem onRedis_keeps (hF : Blind F) (m : Py Redis α) :
    Triple F (World.onRedis m) (fun _ => F) fun _ => F :=
  Triple.zoom fun redis w hw => hF w redis w.answers w.grantedAt hw

theorem reach_observes (hF : Blind F) (full : Py Redis α) (part : Nat → Py Redis Unit) :
    Observes F (World.reach full part) fun _ => True := by
  unfold World.reach
  refine Triple.bind (nextAnswer_keeps hF) ?_
  intro answer
  refine answered_triple answer.reply ?_ (fun _ w hw => ⟨hF.lasting w w.answers _ hw.1, hw.2⟩)
    fun _ w hw => hF.lasting w w.answers _ hw
  cases answer.error with
  | none =>
    exact (onRedis_keeps hF full).conseq (fun _ hw => hw) (fun _ _ hw => ⟨hw, trivial⟩)
      fun _ _ hw => hw
  | some e =>
    exact Triple.bind (Triple.attempt_same (onRedis_keeps hF (part answer.done))) fun _ _ hw => hw

theorem Observes.attempt {m : Py World α} {A : α → Prop} (h : Observes F m A) :
    Observes F (Server.attempt m) fun r => ∀ a, r = .ok a → A a := by
  refine (Triple.attempt h).conseq (fun _ hw => hw) ?_ fun _ _ hw => hw
  intro r w hw
  cases r with
  | ok a =>
    refine ⟨hw.1, ?_⟩
    intro a' ha'
    cases ha'
    exact hw.2
  | error e =>
    refine ⟨hw, ?_⟩
    intro a ha
    cases ha

theorem takeCooldown_observes (hF : Blind F) (key : Str) (seconds : Int) :
    Observes F (takeCooldown key seconds) fun _ => True := by
  refine Observes.bind (reach_observes hF _ _).attempt ?_
  intro reply _
  cases reply with
  | ok reply => exact fun w hw => ⟨hF w w.redis w.answers _ hw, trivial⟩
  | error e => exact fun w hw => ⟨hF w w.redis w.answers none hw, trivial⟩

/-! ## Detectors -/

variable {txt : TextOps} {st : DetectorSettings} {event : ParsedEvent}

/-- Every result accuses an address that the event names. -/
abbrev AllAccuse (txt : TextOps) (event : ParsedEvent) (rs : List DetectionResult) : Prop :=
  ∀ r ∈ rs, Accuses txt event r

theorem allAccuse_nil : AllAccuse txt event [] := by
  intro r hr
  cases hr

theorem allAccuse_singleton {r : DetectionResult} (h : Accuses txt event r) :
    AllAccuse txt event [r] := by
  intro r' hr'
  rw [List.mem_singleton] at hr'
  rw [hr']
  exact h

theorem observes_nothing : Observes F (pure []) (AllAccuse txt event) := observes_pure allAccuse_nil

theorem sshFire_accuses (hF : Blind F) {ip : Str} (failed : isFailedLogin txt event = true)
    (source : sshSourceIp txt event = some ip) (nonempty : ip ≠ []) (count : Option Nat) :
    Observes F (sshFire st event ip count) (AllAccuse txt event) := by
  cases count with
  | none => exact observes_nothing
  | some count =>
    unfold sshFire
    dsimp only
    split
    · exact observes_nothing
    · refine (takeCooldown_observes hF _ _).bind ?_
      intro fired _
      cases fired with
      | false => exact observes_nothing
      | true =>
        exact observes_pure (allAccuse_singleton ⟨ip, .ssh failed source nonempty, rfl⟩)

theorem sshOnEvent_accuses (hF : Blind F) :
    Observes F (sshOnEvent txt st event) (AllAccuse txt event) := by
  unfold sshOnEvent
  split
  · exact observes_nothing
  · rename_i hfailed
    have failed : isFailedLogin txt event = true := by simpa using hfailed
    split
    · exact observes_nothing
    · exact observes_nothing
    · rename_i ip nonempty source
      refine Observes.bind (A := fun _ => True) ?_ fun count _ =>
        sshFire_accuses hF failed source nonempty count
      -- the window is read, or nothing is known of it
      refine Observes.bind (reach_observes hF _ _).attempt ?_
      intro replies _
      cases replies with
      | ok replies => exact observes_pure trivial
      | error e => exact observes_pure trivial

theorem webFire_accuses (hF : Blind F) {ip : Str} (http : isHttpEvent txt event = true)
    (source : metaGet event "source_ip" = some ip) (nonempty : ip ≠ []) (matched tags : List Str)
    (htags : ∀ tag ∈ tags, tag ∈ webMatches txt event) :
    Observes F (webFire event ip matched tags) (AllAccuse txt event) := by
  induction tags with
  | nil => exact observes_nothing
  | cons tag tags ih =>
    obtain ⟨htag, htags⟩ := List.forall_mem_cons.mp htags
    refine (takeCooldown_observes hF _ _).bind ?_
    intro acquired _
    cases acquired with
    | false => exact ih htags
    | true =>
      exact observes_pure (allAccuse_singleton ⟨ip, .web tag http htag source nonempty, rfl⟩)

theorem webOnEvent_accuses (hF : Blind F) :
    Observes F (webOnEvent txt event) (AllAccuse txt event) := by
  unfold webOnEvent
  split
  · exact observes_nothing
  · rename_i hhttp
    have http : isHttpEvent txt event = true := by simpa using hhttp
    split
    · exact observes_nothing
    · exact observes_nothing
    · exact observes_nothing
    · rename_i ip nonempty source _
      exact webFire_accuses hF http source nonempty _ _ fun _ htag => htag

/-- A count that only raises gives no result. -/
theorem resultsOf_nothing {count : Py World α} {results : α → List DetectionResult}
    (h : Observes F count fun _ => False) :
    Observes F (resultsOf count results) (AllAccuse txt event) := by
  refine Observes.bind h.attempt ?_
  intro found hfound
  cases found with
  | ok a => exact (hfound a rfl).elim
  | error e => exact observes_nothing

/-- The field with the time is asked for before Redis is. -/
theorem countMs_nothing (key : Str) (member : Int → Str) (windowSec : Int) :
    Observes F (countMs event key member windowSec) fun _ => False :=
  fun _ hw => hw

theorem portScanOnEvent_nothing : Observes F (portScanOnEvent event) (AllAccuse txt event) := by
  unfold portScanOnEvent
  split
  · exact observes_nothing
  · split
    · exact observes_nothing
    · exact observes_nothing
    · exact observes_nothing
    · exact resultsOf_nothing (countMs_nothing _ _ _)

theorem dnsTunnelOnEvent_nothing :
    Observes F (dnsTunnelOnEvent txt event) (AllAccuse txt event) := by
  unfold dnsTunnelOnEvent
  split
  · exact observes_nothing
  · split
    · exact observes_nothing
    · exact observes_nothing
    · exact observes_nothing
    · exact observes_nothing
    · split
      · exact observes_nothing
      · exact resultsOf_nothing (countMs_nothing _ _ _)

theorem authAnomalyOnEvent_nothing (hF : Blind F) :
    Observes F (authAnomalyOnEvent txt event) (AllAccuse txt event) := by
  unfold authAnomalyOnEvent
  split
  · exact observes_nothing
  · split
    · exact observes_nothing
    · exact observes_nothing
    · exact observes_nothing
    · exact observes_nothing
    · -- the known addresses are written before the time is asked for
      refine resultsOf_nothing ((reach_observes hF _ _).bind fun _ _ => ?_)
      refine (reach_observes hF _ _).bind fun _ _ => ?_
      refine (reach_observes hF _ _).bind fun _ _ => ?_
      exact Triple.bind (countMs_nothing _ _ _) fun _ _ hw => hw.2.elim

theorem onEvent_accuses (hF : Blind F) (d : Builtin) :
    Observes F (onEvent txt st d event) (AllAccuse txt event) := by
  cases d with
  | sshBruteforce => exact sshOnEvent_accuses hF
  | portScan => exact portScanOnEvent_nothing
  | webAttack => exact webOnEvent_accuses hF
  | dnsTunnel => exact dnsTunnelOnEvent_nothing
  | authAnomaly => exact authAnomalyOnEvent_nothing hF

theorem waitFor_observes {m : Py World α} {B : α → Prop} (h : Observes F m B) :
    Observes F (waitFor m) B := by
  refine Triple.bind (Triple.attempt h) ?_
  intro result
  cases result with
  | ok a => exact fun _ hw => hw
  | error e => exact fun _ hw => hw

end Calls

/-! ## The loop on one event -/

/-- What the calls about one event promise each other: `I` holds between them, the results of the
detectors are `Good`, and `Alerted` holds once the alert of a result has been written. -/
structure Accord {σ δ : Type} (sv : Services σ δ) (event : ParsedEvent) (I : σ → Prop)
    (Good : DetectionResult → Prop) (Alerted : DetectionResult → Uuid → σ → Prop) : Prop where
  onEvent : ∀ d, Triple I (sv.onEvent d event) (fun rs w => I w ∧ ∀ r ∈ rs, Good r) fun _ => I
  writeAlert : ∀ r, Good r → Triple I (sv.writeAlert event.hostId r) (Alerted r) fun _ => I
  writeAction : ∀ r alertId action, Good r → r.action = some action →
    Triple (Alerted r alertId) (sv.writeAction event.hostId alertId action) (fun _ => I) fun _ => I
  alerted : ∀ r alertId w, Alerted r alertId w → I w

namespace Accord

open Consumer Contract

variable {σ δ ρ : Type} {sv : Services σ δ} {event : ParsedEvent} {I : σ → Prop}
  {Good : DetectionResult → Prop} {Alerted : DetectionResult → Uuid → σ → Prop} {msgId : Str}

theorem enqueueAction (c : Accord sv event I Good Alerted) {r : DetectionResult} (good : Good r)
    (alertId : Except PyError Uuid) :
    Triple (fun s : Consumer σ δ ρ => match alertId with
        | .ok id => Outside (Alerted r id) s
        | .error _ => Outside I s)
      (Consumer.enqueueAction sv event.hostId r alertId) (fun _ => Outside I)
      fun _ => Outside I := by
  unfold Consumer.enqueueAction
  cases alertId with
  | error e => exact Triple.pure fun _ h => h
  | ok alertId =>
    cases haction : r.action with
    | none => exact Triple.pure fun s h => c.alerted r alertId s.outside h
    | some action =>
      dsimp only
      rw [seqRight_eq_bind]
      refine Triple.bind (Triple.attempt_same
        (call_outside (c.writeAction r alertId action good haction))) ?_
      intro _
      exact Triple.pure fun _ h => h

theorem writeResults (c : Accord sv event I Good Alerted) (rs : List DetectionResult)
    (good : ∀ r ∈ rs, Good r) :
    Triple (Outside I)
      (Consumer.writeResults sv msgId event.hostId rs : Py (Consumer σ δ ρ) Unit)
      (fun _ => Outside I) fun _ => Outside I := by
  induction rs with
  | nil => exact Triple.pure fun _ h => h
  | cons r rs ih =>
    obtain ⟨hr, hrs⟩ := List.forall_mem_cons.mp good
    unfold Consumer.writeResults
    refine Triple.bind (Triple.attempt (call_outside (c.writeAlert r hr))) ?_
    intro alertId
    refine Triple.bind (Q := fun _ s => match alertId with
        | .ok id => Outside (Alerted r id) s
        | .error _ => Outside I s) ?_ ?_
    · apply Triple.modify
      intro s h
      cases alertId with
      | ok _ => exact h
      | error _ => exact h
    · intro _
      exact Triple.bind (c.enqueueAction hr alertId) fun _ => ih hrs

theorem runDetectors (c : Accord sv event I Good Alerted) (detectors : List δ) :
    Triple (Outside I) (Consumer.runDetectors sv msgId event detectors : Py (Consumer σ δ ρ) Unit)
      (fun _ => Outside I) fun _ => Outside I := by
  induction detectors with
  | nil => exact Triple.pure fun _ h => h
  | cons d detectors ih =>
    unfold Consumer.runDetectors
    refine Triple.bind (Triple.attempt (call_outside (c.onEvent d))) ?_
    intro outcome
    refine Triple.bind (Q := fun _ => Outside I) ?_ ?_
    · cases outcome with
      | ok rs => exact fun s hs => c.writeResults rs hs.2 s hs.1
      | error e => exact Triple.pure fun _ h => h
    · intro _
      exact Triple.bind (note_outside _ _ _) fun _ => ih

end Accord

/-! ## The built-in detectors -/

/-- What holds while the entry of one of the arrivals is handled. -/
def Handling {ρ : Type} (txt : TextOps) (arrivals : List (Arrival ρ)) (a : Arrival ρ) (w : World) :
    Prop :=
  w.payloads = a.payloads ∧ Founded txt arrivals w

/-- The alert of the result is the newest one. -/
def Alerted (F : World → Prop) (event : ParsedEvent) (r : DetectionResult) (alertId : Uuid)
    (w : World) : Prop :=
  F w ∧ ∃ row older, w.alerts = row :: older ∧ row.id = alertId ∧ row.hostId = event.hostId ∧
    row.detector = r.detector ∧ row.dedupKey = r.dedupKey

section Builtins

open Consumer Contract

variable {ρ : Type} {txt : TextOps} {st : DetectorSettings} {arrivals : List (Arrival ρ)}
  {a : Arrival ρ} {event : ParsedEvent}

theorem handling_blind : Blind (Handling txt arrivals a) :=
  fun _ _ _ _ hw => ⟨hw.1, hw.2.alerts, hw.2.actions⟩

theorem handling_lasting : Lasting (Handling txt arrivals a) := handling_blind.lasting

theorem alerted_lasting {r : DetectionResult} {alertId : Uuid} :
    Lasting (Alerted (Handling txt arrivals a) event r alertId) :=
  fun w answers time h => ⟨handling_lasting w answers time h.1, h.2⟩

theorem load_handling (id : Uuid) :
    Triple (Handling txt arrivals a) ((detectorServices txt st).load id)
      (fun payload w => Handling txt arrivals a w ∧ payload = a.payloads id)
      fun _ => Handling txt arrivals a := by
  show Triple _ (World.statement (fun _ w => w) fun _ w => w.payloads id) _ _
  apply statement_triple handling_lasting ?_ handling_lasting
  · exact fun _ _ hw => ⟨hw, congrFun hw.1 id⟩
  · exact fun _ _ hw => hw
  · exact fun _ hw => hw
  · exact fun _ w answers time hw => ⟨handling_lasting w answers time hw.1, hw.2⟩

theorem xack_handling (id : Str) :
    Triple (Handling txt arrivals a) ((detectorServices txt st).xack id)
      (fun _ => Handling txt arrivals a) fun _ => Handling txt arrivals a := by
  have hcommand : Observes (Handling txt arrivals a) (World.command (pure ())) fun _ => True :=
    reach_observes handling_blind _ _
  exact hcommand.conseq (fun _ hw => hw) (fun _ _ hw => hw.1) fun _ _ hw => hw

/-- The row of a result about an event that has been seen. -/
theorem Handling.alert {w : World} (hw : Handling txt arrivals a w) (seen : Seen arrivals event)
    {r : DetectionResult} (accuses : Accuses txt event r) (t : Int) (id : Uuid) :
    Alerted (Handling txt arrivals a) event r id
      { w with alerts := alertRow event.hostId r t id w :: w.alerts } := by
  obtain ⟨ip, hnames, -⟩ := accuses
  refine ⟨⟨hw.1, ?_, hw.2.actions⟩, _, _, rfl, rfl, rfl, rfl, rfl⟩
  exact List.forall_mem_cons.mpr ⟨⟨event, ip, seen, rfl, hnames⟩, hw.2.alerts⟩

theorem writeAlert_alerted (seen : Seen arrivals event) {r : DetectionResult}
    (accuses : Accuses txt event r) :
    Triple (Handling txt arrivals a) (writeAlert event.hostId r)
      (Alerted (Handling txt arrivals a) event r) fun _ => Handling txt arrivals a := by
  intro w hw
  have hstatement : Triple (Handling txt arrivals a)
      (World.statement (fun id w' => { w' with
        alerts := alertRow event.hostId r w.redis.now id w' :: w'.alerts }) fun id _ => id)
      (Alerted (Handling txt arrivals a) event r) fun _ => Handling txt arrivals a := by
    apply statement_triple handling_lasting (fun _ => alerted_lasting) handling_lasting
    · exact fun id w' h => h.alert seen accuses _ id
    · exact fun id w' h => (h.alert seen accuses _ id).1
    · exact fun _ h => h
  exact hstatement w hw

/-- The action of a result refers to the alert of that result, which is the newest one with its
identifier. -/
theorem writeAction_handling (seen : Seen arrivals event) {r : DetectionResult} (alertId : Uuid)
    {action : DetectionAction} (accuses : Accuses txt event r) (haction : r.action = some action) :
    Triple (Alerted (Handling txt arrivals a) event r alertId)
      (writeAction event.hostId alertId action) (fun _ => Handling txt arrivals a)
      fun _ => Handling txt arrivals a := by
  intro w hw
  obtain ⟨hhandling, row, older, halerts, hid, hhost, hdetector, hdedup⟩ := hw
  have hfind : (w.alerts.find? fun a => a.id == alertId) = some row := by
    rw [halerts, List.find?_cons_of_pos]
    simpa using hid
  have hexec : (writeAction event.hostId alertId action).exec w =
      (World.statement (fun id w => { w with
        actions := ⟨id, event.hostId, row, action⟩ :: w.actions }) fun id _ => id).exec w := by
    unfold writeAction
    refine (exec_bind_ok (exec_get w) _).trans ?_
    rw [hfind]
  have hwrite : ∀ id w', Handling txt arrivals a w' → Handling txt arrivals a
      { w' with actions := ⟨id, event.hostId, row, action⟩ :: w'.actions } := by
    intro id w' hw'
    obtain ⟨ip, hnames, hblock⟩ := accuses
    rw [haction] at hblock
    obtain rfl := Option.some.inj hblock
    rw [← hdetector, ← hdedup] at hnames
    refine ⟨hw'.1, hw'.2.alerts, ?_⟩
    exact List.forall_mem_cons.mpr ⟨⟨event, ip, seen, rfl, hhost, hnames, rfl⟩, hw'.2.actions⟩
  rw [hexec]
  exact statement_triple handling_lasting (fun _ => handling_lasting) handling_lasting hwrite hwrite
    (fun _ h => h) w hhandling

theorem detectors_accord (seen : Seen arrivals event) :
    Accord (detectorServices txt st) event (Handling txt arrivals a) (Accuses txt event)
      (Alerted (Handling txt arrivals a) event) where
  onEvent d := waitFor_observes (onEvent_accuses handling_blind d)
  writeAlert _ accuses := writeAlert_alerted seen accuses
  writeAction _ alertId _ accuses haction := writeAction_handling seen alertId accuses haction
  alerted _ _ _ h := h.1

/-! ## One entry -/

theorem xack_outside (id : Str) :
    Triple (Outside (Handling txt arrivals a))
      (Consumer.xack (detectorServices txt st) id : Py (Consumer World Builtin ρ) Unit)
      (fun _ => Outside (Handling txt arrivals a)) fun _ => Outside (Handling txt arrivals a) :=
  Triple.bind (note_outside _ _ _) fun _ => call_outside (xack_handling id)

theorem processOne_handling (ha : a ∈ arrivals) (detectors : List Builtin) (msgId : Str) :
    Triple (Outside (Handling txt arrivals a))
      (Consumer.processOne (detectorServices txt st) detectors msgId a.fields :
        Py (Consumer World Builtin ρ) Unit)
      (fun _ => Outside (Handling txt arrivals a)) fun _ => Outside (Handling txt arrivals a) := by
  unfold Consumer.processOne
  refine Triple.bind (Q := fun parsed s => Outside (Handling txt arrivals a) s ∧
    parseEvent a.fields = .ok parsed) (Triple.lift (fun _ hp _ h => ⟨h, hp⟩) fun _ _ _ h => h) ?_
  intro parsed
  cases parsed with
  | none => exact (Triple.bind (note_outside _ _ _) fun _ => xack_outside _).pre fun _ h => h.1
  | some parsed =>
    rintro s ⟨hs, hparsed⟩
    refine Triple.bind (call_outside (load_handling parsed.eventId)) ?_ s hs
    intro payload
    cases payload with
    | none =>
      exact (Triple.bind (note_outside _ _ _) fun _ => xack_outside _).pre fun _ h => h.1
    | some payload =>
      rintro s' ⟨hs', hpayload⟩
      have seen : Seen arrivals { parsed with raw := payload.1, metadata := payload.2 } :=
        ⟨a, ha, parsed, payload.1, payload.2, hparsed, hpayload.symm, rfl⟩
      exact Triple.bind ((detectors_accord seen).runDetectors detectors)
        (fun _ => xack_outside _) s' hs'

theorem processSigma_handling (env : SigmaEnv ρ) (msgId : Str) (fields : List (Str × Str)) :
    Triple (Outside (Handling txt arrivals a))
      (Consumer.processSigma (detectorServices txt st) env msgId fields :
        Py (Consumer World Builtin ρ) Unit)
      (fun _ => Outside (Handling txt arrivals a)) fun _ => Outside (Handling txt arrivals a) := by
  unfold Consumer.processSigma
  refine Triple.bind (Triple.lift (fun _ _ _ h => h) fun _ _ _ h => h) ?_
  intro parsed
  cases parsed with
  | none => exact Triple.pure fun _ h => h
  | some parsed =>
    refine Triple.bind (call_outside ((load_handling parsed.eventId).conseq (fun _ h => h)
      (fun _ _ h => h.1) fun _ _ h => h)) ?_
    intro payload
    cases payload with
    | none => exact Triple.pure fun _ h => h
    | some payload =>
      refine Triple.bind (Triple.zoom fun _ _ h => h) ?_
      intro _
      exact note_outside _ _ _

theorem handle_handling (ha : a ∈ arrivals) (detectors : List Builtin) (msgId : Str) :
    Triple (Outside (Handling txt arrivals a))
      (Consumer.handle (detectorServices txt st) detectors a.env msgId a.fields :
        Py (Consumer World Builtin ρ) Unit)
      (fun _ => Outside (Handling txt arrivals a)) fun _ => Outside (Handling txt arrivals a) := by
  unfold Consumer.handle
  refine Triple.bind (Triple.attempt_same (Triple.bind (processOne_handling ha detectors msgId)
    fun _ => processSigma_handling a.env msgId a.fields)) ?_
  intro result
  cases result with
  | ok _ => exact Triple.pure fun _ h => h
  | error e =>
    refine Triple.bind (note_outside _ _ _) ?_
    intro _
    exact Triple.bind (Triple.attempt_same (xack_outside _)) fun _ => Triple.pure fun _ h => h

theorem arrive_founded {s u : Consumer World Builtin ρ} (h : Founded txt arrivals s.outside)
    (ha : a ∈ arrivals) (hstep : arrive txt st s a = some u) : Founded txt arrivals u.outside := by
  cases hstep
  exact (Triple.state (handle_handling ha builtinDetectors a.msgId)
    { s with outside := s.outside.before a } ⟨rfl, h.alerts, h.actions⟩).2

end Builtins

/-! ## Runs -/

/-- **Attribution.** Over every run of the detector loop, whichever calls fail and whenever, each
alert is of one of the two detectors that work and is raised for an event that was delivered and
that names an address as its source; and each action blocks such an address for an hour, on the
host of its event and of its alert. -/
theorem blocks_attributed {ρ : Type} (txt : TextOps) (st : DetectorSettings)
    (start s : Consumer World Builtin ρ) (arrivals : List (Arrival ρ))
    (halerts : start.outside.alerts = []) (hactions : start.outside.actions = [])
    (h : AnyRun (arrive txt st) start arrivals s) :
    (∀ row ∈ s.outside.alerts, AlertFounded txt arrivals row) ∧
      ∀ row ∈ s.outside.actions, ActionFounded txt arrivals row := by
  have hstart : Founded txt arrivals start.outside := by
    constructor
    · rw [halerts]
      intro row hrow
      cases hrow
    · rw [hactions]
      intro row hrow
      cases hrow
  have hfounded : Founded txt arrivals s.outside :=
    h.mem.invariant (I := fun s => Founded txt arrivals s.outside) hstart
      fun _ _ _ ht ha hu => arrive_founded ht ha.2 hu
  exact ⟨hfounded.alerts, hfounded.actions⟩

/-- A request is delivered twice, and the alert of the second one is not answered. -/
theorem attributed_requests :
    ∃ s, AnyRun (arrive requestOps defaultSettings) requestStart
        [requestArrival "1-0" 0 [], requestArrival "2-0" 1000000000 unansweredSet] s ∧
      s.outside.alerts.length = 2 ∧ s.outside.actions.length = 2 ∧
      (∀ row ∈ s.outside.alerts, AlertFounded requestOps
        [requestArrival "1-0" 0 [], requestArrival "2-0" 1000000000 unansweredSet] row) ∧
      ∀ row ∈ s.outside.actions, ActionFounded requestOps
        [requestArrival "1-0" 0 [], requestArrival "2-0" 1000000000 unansweredSet] row := by
  have hcheck : ∃ s, AnyRun (arrive requestOps defaultSettings) requestStart
      [requestArrival "1-0" 0 [], requestArrival "2-0" 1000000000 unansweredSet] s ∧
      (s.outside.alerts.length == 2 && s.outside.actions.length == 2) = true :=
    run_of_check (by decide +kernel)
  obtain ⟨s, hrun, hlengths⟩ := hcheck
  rw [Bool.and_eq_true, beq_iff_eq, beq_iff_eq] at hlengths
  exact ⟨s, hrun, hlengths.1, hlengths.2,
    blocks_attributed requestOps defaultSettings requestStart s _ rfl rfl hrun⟩

end ZaqorinCore.Server
