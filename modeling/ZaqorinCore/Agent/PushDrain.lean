import ZaqorinCore.Agent.EventLog
import ZaqorinCore.Agent.FanIn

/-!
# From the push callback to the server

The push backend of the Windows event log, in front of the agent's fan-in. The callback of the
kernel runs on a thread of its own and never waits, so it drops an event when the channel is full;
the drain loop takes the events out, makes one of its own of each and sends it to the fan-in, whose
steps go on meanwhile. `push_exact` says where each event of a callback is, `push_drains` that what
was let in is sent, in order, and `push_sources` what the server sees of it: the wire event, with
the source and the metadata that rules look at, is only the text of another event.

The decoder of XML and the encoder of JSON are parameters. What a handler returns is only logged.
-/

namespace ZaqorinCore.Agent.PushDrain

open ZaqorinCore.Text ZaqorinCore.Base ZaqorinCore.Agent.Wire
open ZaqorinCore.Agent.App ZaqorinCore.Agent.EventLog

variable {n : Nat}

/-! ## The drain loop -/

/-- The size of `in`. -/
def inboxSize : Nat := 1024

/-- `xml.Unmarshal` and `json.Marshal`, or none for an error. -/
structure Codec where
  unmarshal : Bytes → Option Evt
  marshal : List (Str × Server.Json) → Option Bytes

inductive Drain
  | selecting
  | handling (ev : Event)
  | returned

structure State (n : Nat) where
  agent : App.State n
  inbox : Mailbox Bytes inboxSize
  drain : Drain
  /-- the XML that the loop took, with the event it made of it, the oldest first -/
  drained : List (Bytes × Option Event)
  /-- the events that the handler is done with, with whether it sent them -/
  handled : List (Event × Bool)

inductive DrainAct
  | take (now : GoTime) (stamp : Stamp)
  | forward
  | giveUp
  | stop

inductive Act (n : Nat)
  | agent (a : App.Act n)
  | callback (xmlBytes : Bytes)
  | drain (a : DrainAct)

def start (started : Fin n → Bool) : State n where
  agent := App.start started
  inbox := .empty
  drain := .selecting
  drained := []
  handled := []

/-- The source of all events that are pushed. -/
def pushSource : Bytes := lit "windows:push"

/-- The event that the handler gets to send, or none when the loop passes over the XML. -/
def pushed (codec : Codec) (agentID xmlBytes : Bytes) (now : GoTime) (stamp : Stamp) :
    Option Event :=
  (buildWireEvent codec.unmarshal xmlBytes now).bind fun wire =>
    (codec.marshal wire.members).map fun payload => newEvent agentID pushSource payload stamp

/-- One step of the loop, or of the handler that it is in. -/
def drainStep (codec : Codec) (agentID : Bytes) (s : State n) : Drain → DrainAct → Option (State n)
  | .selecting, .take now stamp =>
    s.inbox.take.map fun taken =>
      { s with
        inbox := taken.2
        drain := (pushed codec agentID taken.1 now stamp).elim .selecting .handling
        drained := s.drained ++ [(taken.1, pushed codec agentID taken.1 now stamp)] }
  | .selecting, .stop => if s.agent.ctxDone then some { s with drain := .returned } else none
  | .handling ev, .forward =>
    (App.step agentID s.agent (.push ev)).map fun agent =>
      { s with agent := agent, drain := .selecting, handled := s.handled ++ [(ev, true)] }
  | .handling ev, .giveUp =>
    if s.agent.ctxDone then
      some { s with drain := .selecting, handled := s.handled ++ [(ev, false)] }
    else none
  | _, _ => none

/-- The step of the fan-in is not that of the push backend. -/
def Plain : App.Act n → Prop
  | .push _ => False
  | _ => True

instance : DecidablePred (Plain (n := n)) := fun a => by
  cases a <;> first | exact isTrue trivial | exact isFalse id

/-- Only the drain loop sends to the channel of the push backend. -/
def step (codec : Codec) (agentID : Bytes) (s : State n) (a : Act n) : Option (State n) :=
  if s.agent.dispatcher.Down then none
  else
    match a with
    | .agent b =>
      if Plain b then (App.step agentID s.agent b).map fun agent => { s with agent := agent }
      else none
    | .callback xmlBytes => some { s with inbox := s.inbox.offer xmlBytes }
    | .drain a => drainStep codec agentID s s.drain a

/-! ## What a step does -/

/-- The steps, with what they need. -/
inductive Moved (codec : Codec) (agentID : Bytes) (s : State n) : Act n → State n → Prop
  | agent {a : App.Act n} {agent : App.State n} (plain : Plain a)
      (h : App.step agentID s.agent a = some agent) :
    Moved codec agentID s (.agent a) { s with agent := agent }
  | callback {xmlBytes : Bytes} :
    Moved codec agentID s (.callback xmlBytes) { s with inbox := s.inbox.offer xmlBytes }
  | take {now : GoTime} {stamp : Stamp} {xmlBytes : Bytes} {rest : Mailbox Bytes inboxSize}
      (h : s.drain = .selecting) (taken : s.inbox.take = some (xmlBytes, rest)) :
    Moved codec agentID s (.drain (.take now stamp)) { s with
      inbox := rest
      drain := (pushed codec agentID xmlBytes now stamp).elim .selecting .handling
      drained := s.drained ++ [(xmlBytes, pushed codec agentID xmlBytes now stamp)] }
  | forward {ev : Event} {agent : App.State n} (h : s.drain = .handling ev)
      (taken : App.step agentID s.agent (.push ev) = some agent) :
    Moved codec agentID s (.drain .forward) { s with
      agent := agent
      drain := .selecting
      handled := s.handled ++ [(ev, true)] }
  | giveUp {ev : Event} (h : s.drain = .handling ev) (done : s.agent.ctxDone = true) :
    Moved codec agentID s (.drain .giveUp) { s with
      drain := .selecting
      handled := s.handled ++ [(ev, false)] }
  | stop (h : s.drain = .selecting) (done : s.agent.ctxDone = true) :
    Moved codec agentID s (.drain .stop) { s with drain := .returned }

section

variable {codec : Codec} {agentID : Bytes} {s t : State n} {a : Act n}

theorem moved_drain {a : DrainAct} (h : drainStep codec agentID s s.drain a = some t) :
    Moved codec agentID s (.drain a) t := by
  cases hd : s.drain with
  | selecting =>
    rw [hd] at h
    cases a with
    | take now stamp =>
      obtain ⟨⟨xmlBytes, rest⟩, htaken, rfl⟩ := Option.map_eq_some_iff.mp h
      exact .take hd htaken
    | stop =>
      obtain ⟨done, ht⟩ := Option.ite_none_right_eq_some.mp h
      cases ht
      exact .stop hd done
    | forward => cases h
    | giveUp => cases h
  | handling ev =>
    rw [hd] at h
    cases a with
    | forward =>
      obtain ⟨agent, htaken, rfl⟩ := Option.map_eq_some_iff.mp h
      exact .forward hd htaken
    | giveUp =>
      obtain ⟨done, ht⟩ := Option.ite_none_right_eq_some.mp h
      cases ht
      exact .giveUp hd done
    | take _ _ => cases h
    | stop => cases h
  | returned =>
    rw [hd] at h
    cases a <;> cases h

/-- Nothing but these steps is taken. -/
theorem moved_of_step (h : step codec agentID s a = some t) : Moved codec agentID s a t := by
  obtain ⟨-, h⟩ := Option.ite_none_left_eq_some.mp h
  cases a with
  | agent b =>
    obtain ⟨plain, h⟩ := Option.ite_none_right_eq_some.mp h
    obtain ⟨agent, htaken, rfl⟩ := Option.map_eq_some_iff.mp h
    exact .agent plain htaken
  | callback xmlBytes =>
    cases h
    exact .callback
  | drain a => exact moved_drain h

/-- A step is one of the fan-in or leaves it alone. -/
theorem agent_of_step (h : step codec agentID s a = some t) :
    t.agent = s.agent ∨ ∃ b, App.step agentID s.agent b = some t.agent := by
  cases moved_of_step h with
  | agent _ taken => exact Or.inr ⟨_, taken⟩
  | forward _ taken => exact Or.inr ⟨_, taken⟩
  | callback => exact Or.inl rfl
  | take _ _ => exact Or.inl rfl
  | giveUp _ _ => exact Or.inl rfl
  | stop _ _ => exact Or.inl rfl

/-- What a step does to the account of the channel. A callback drops its event when `inboxSize`
events wait, and only then. -/
def Recorded (s : State n) : Act n → State n → Prop
  | .callback xmlBytes, t => ∃ here, t.inbox.offers = s.inbox.offers ++ [(xmlBytes, here)] ∧
      (here = false ↔ s.inbox.queue.length = inboxSize)
  | _, t => t.inbox.offers = s.inbox.offers

theorem recorded_of_step (h : step codec agentID s a = some t) : Recorded s a t := by
  cases moved_of_step h with
  | callback => exact Mailbox.offer_offers _ _
  | take _ taken => exact (Mailbox.take_eq_some taken).2.1
  | agent _ _ => exact rfl
  | forward _ _ => exact rfl
  | giveUp _ _ => exact rfl
  | stop _ _ => exact rfl

/-- The fan-in behind the backend keeps its accounts. -/
theorem accounts_agent {started : Fin n → Bool} {as : List (Act n)}
    (h : AnyRun (step codec agentID) (start started) as s) : Accounts agentID s.agent := by
  obtain ⟨bs, hbs⟩ := h.part State.agent fun _ _ _ => agent_of_step
  exact accounts_run hbs

end

/-! ## Where the events are -/

/-- What the handler has in its hand. -/
def Drain.hand : Drain → List Event
  | .handling ev => [ev]
  | _ => []

/-- What the loop made of an event, at some time. -/
def Fate (codec : Codec) (agentID : Bytes) (x : Bytes × Option Event) : Prop :=
  ∃ now stamp, x.2 = pushed codec agentID x.1 now stamp

/-- What holds of every state that is reached. -/
structure Sound (codec : Codec) (agentID : Bytes) (s : State n) : Prop where
  taken : s.drained.map Prod.fst = s.inbox.received
  fates : ∀ x ∈ s.drained, Fate codec agentID x
  handed : s.drained.filterMap Prod.snd = s.handled.map Prod.fst ++ s.drain.hand
  forwarded : letIn s.handled = letIn s.agent.pushEventOut.offers
  sent : s.agent.ctxDone = false → ∀ e ∈ s.handled, e.2 = true
  returned : s.drain = .returned → s.agent.ctxDone = true

section

variable {codec : Codec} {agentID : Bytes} {s t : State n} {a : Act n} {g g' : App.State n}
  {b : App.Act n}

theorem sound_start (started : Fin n → Bool) : Sound codec agentID (start started) where
  taken := rfl
  fates := fun _ h => absurd h List.not_mem_nil
  handed := rfl
  forwarded := rfl
  sent := fun _ _ h => absurd h List.not_mem_nil
  returned := fun h => by cases h

/-- The context does not come back. -/
theorem ctxDone_of_step (h : App.step agentID g b = some g') (hdone : g.ctxDone = true) :
    g'.ctxDone = true := by
  cases (App.moved_of_step h).2 <;> first | exact hdone | rfl

/-- Nothing but a push is let into the channel of the push backend. -/
theorem offers_of_step (plain : Plain b) (h : App.step agentID g b = some g') :
    letIn g'.pushEventOut.offers = letIn g.pushEventOut.offers := by
  cases (App.moved_of_step h).2 with
  | push _ => exact plain.elim
  | takePush _ taken => rw [(Mailbox.take_eq_some taken).2.1]
  | _ => rfl

/-- A push lets its event in. -/
theorem offers_of_push {ev : Event} (h : App.step agentID g (.push ev) = some g') :
    g'.ctxDone = g.ctxDone ∧
      letIn g'.pushEventOut.offers = letIn g.pushEventOut.offers ++ [ev] := by
  cases (App.moved_of_step h).2 with
  | push room => exact ⟨rfl, letIn_concat _ _ _⟩

/-- What the loop has made goes into the handler. -/
theorem hand_elim (o : Option Event) : (o.elim Drain.selecting Drain.handling).hand = o.toList := by
  cases o <;> rfl

theorem filterMap_concat (l : List (Bytes × Option Event)) (x : Bytes) (o : Option Event) :
    (l ++ [(x, o)]).filterMap Prod.snd = l.filterMap Prod.snd ++ o.toList := by
  rw [List.filterMap_append]
  cases o <;> rfl

/-- The handler is done with the event in its hand. -/
theorem handed_concat (hs : Sound codec agentID s) {ev : Event} (hd : s.drain = .handling ev)
    (here : Bool) : s.drained.filterMap Prod.snd =
      (s.handled ++ [(ev, here)]).map Prod.fst ++ Drain.hand .selecting := by
  rw [hs.handed, hd, List.map_append]
  simp [Drain.hand]

theorem sound_take (hs : Sound codec agentID s) (hd : s.drain = .selecting) {xmlBytes : Bytes}
    {rest : Mailbox Bytes inboxSize} (taken : s.inbox.take = some (xmlBytes, rest))
    (now : GoTime) (stamp : Stamp) : Sound codec agentID { s with
      inbox := rest
      drain := (pushed codec agentID xmlBytes now stamp).elim .selecting .handling
      drained := s.drained ++ [(xmlBytes, pushed codec agentID xmlBytes now stamp)] } := by
  obtain ⟨-, -, hreceived⟩ := Mailbox.take_eq_some taken
  refine ⟨?_, fun x hx => ?_, ?_, hs.forwarded, hs.sent, fun h => ?_⟩
  · rw [hreceived, List.map_append, hs.taken]
    rfl
  · rcases List.mem_append.mp hx with hx | hx
    · exact hs.fates x hx
    · obtain rfl := List.mem_singleton.mp hx
      exact ⟨now, stamp, rfl⟩
  · rw [filterMap_concat, hs.handed, hd, hand_elim]
    simp [Drain.hand]
  · dsimp only at h
    cases hmade : pushed codec agentID xmlBytes now stamp with
    | none =>
      rw [hmade] at h
      cases h
    | some ev =>
      rw [hmade] at h
      cases h

/-- Each step keeps the accounts. -/
theorem sound_step (hs : Sound codec agentID s) (h : step codec agentID s a = some t) :
    Sound codec agentID t := by
  cases moved_of_step h with
  | agent plain taken =>
    refine { hs with
      forwarded := hs.forwarded.trans (offers_of_step plain taken).symm
      sent := fun hnot => hs.sent ?_
      returned := fun hr => ctxDone_of_step taken (hs.returned hr) }
    by_contra hdone
    rw [ctxDone_of_step taken (eq_true_of_ne_false hdone)] at hnot
    cases hnot
  | callback => exact { hs with taken := hs.taken.trans (Mailbox.offer_received _ _).symm }
  | take hd taken => exact sound_take hs hd taken _ _
  | @forward ev agent hd taken =>
    obtain ⟨hctx, hoffers⟩ := offers_of_push taken
    refine ⟨hs.taken, hs.fates, handed_concat hs hd true, ?_, fun hnot e he => ?_,
      fun hr => by cases hr⟩
    · rw [hoffers, letIn_concat, if_pos rfl, hs.forwarded]
    · rcases List.mem_append.mp he with he | he
      · exact hs.sent (hctx ▸ hnot) e he
      · rw [List.mem_singleton.mp he]
  | giveUp hd done =>
    refine ⟨hs.taken, hs.fates, handed_concat hs hd false, ?_, fun hnot => ?_,
      fun hr => by cases hr⟩
    · rw [letIn_concat, if_neg Bool.false_ne_true, List.append_nil, hs.forwarded]
    · rw [done] at hnot
      cases hnot
  | stop hd done =>
    refine { hs with handed := ?_, returned := fun _ => done }
    rw [hs.handed, hd]
    rfl

theorem sound_run {started : Fin n → Bool} {ok : State n → Act n → Prop} {as : List (Act n)}
    (h : Run (step codec agentID) ok (start started) as s) : Sound codec agentID s :=
  h.invariant (sound_start started) fun _ _ _ ht _ taken => sound_step ht taken

/-- The events of the callbacks are drained in their order, those that became an event are with the
handler or handled, in this order, and those that were sent are with the server or in the channel.
The handler gives one up only after the context has ended, and each step that is taken from here is
`Recorded`: a callback drops its event only when `inboxSize` earlier ones wait. -/
theorem push_exact {started : Fin n → Bool} {as : List (Act n)}
    (h : AnyRun (step codec agentID) (start started) as s) :
    letIn s.inbox.offers = s.drained.map Prod.fst ++ s.inbox.queue ∧
      (∀ x ∈ s.drained, Fate codec agentID x) ∧
      s.drained.filterMap Prod.snd = s.handled.map Prod.fst ++ s.drain.hand ∧
      letIn s.handled = sentPushes s.agent.calls ++ s.agent.pushEventOut.queue ∧
      (s.agent.ctxDone = false → ∀ e ∈ s.handled, e.2 = true) ∧
      ∀ a t, step codec agentID s a = some t → Recorded s a t := by
  have hs := sound_run h
  refine ⟨?_, hs.fates, hs.handed, ?_, hs.sent, fun _ _ => recorded_of_step⟩
  · rw [hs.taken, s.inbox.accounted]
  · rw [hs.forwarded, s.agent.pushEventOut.accounted, (accounts_agent h).pushed]

/-! ## What the server sees -/

theorem pushed_eq_some {xmlBytes : Bytes} {now : GoTime} {stamp : Stamp} {ev : Event}
    (h : pushed codec agentID xmlBytes now stamp = some ev) :
    ∃ wire payload, buildWireEvent codec.unmarshal xmlBytes now = some wire ∧
      codec.marshal wire.members = some payload ∧
      ev = newEvent agentID pushSource payload stamp := by
  obtain ⟨wire, hwire, h⟩ := Option.bind_eq_some_iff.mp h
  obtain ⟨payload, hpayload, rfl⟩ := Option.map_eq_some_iff.mp h
  exact ⟨wire, payload, hwire, hpayload, rfl⟩

/-- An event that was sent was made of one that a callback let in. -/
theorem drained_of_sent (hs : Sound codec agentID s) (hg : Accounts agentID s.agent) {ev : Event}
    (h : ev ∈ sentPushes s.agent.calls) : ∃ xmlBytes, (xmlBytes, some ev) ∈ s.drained := by
  have hin : ev ∈ letIn s.handled := by
    rw [hs.forwarded, s.agent.pushEventOut.accounted, hg.pushed]
    exact List.mem_append_left _ h
  have hhandled : ev ∈ s.handled.map Prod.fst := by
    obtain ⟨e, he, rfl⟩ := List.mem_map.mp hin
    exact List.mem_map_of_mem (List.mem_of_mem_filter he)
  have hmade : ev ∈ s.drained.filterMap Prod.snd := by
    rw [hs.handed]
    exact List.mem_append_left _ hhandled
  obtain ⟨⟨xmlBytes, made⟩, hx, rfl⟩ := List.mem_filterMap.mp hmade
  exact ⟨xmlBytes, hx⟩

/-- The sources of the wire events are not that of a push. -/
theorem pushSource_not_subscribed : pushSource ∉ subscribedEventIDs.map Prod.snd := by decide

/-- An event of the push backend has none of the sources of `subscribedEventIDs` and no metadata,
though the wire event in its text has both. -/
theorem push_sources {started : Fin n → Bool} {as : List (Act n)}
    (h : AnyRun (step codec agentID) (start started) as s) :
    ∀ ev ∈ sentPushes s.agent.calls,
      ev.source ∉ subscribedEventIDs.map Prod.snd ∧ ev.metadata = [] ∧
        ∃ xmlBytes ∈ s.inbox.received, ∃ now wire,
          buildWireEvent codec.unmarshal xmlBytes now = some wire ∧
          codec.marshal wire.members = some ev.raw ∧
          wire.source ∈ subscribedEventIDs.map Prod.snd ∧ (xmlKey, xmlBytes) ∈ wire.metadata := by
  intro ev hev
  have hs := sound_run h
  obtain ⟨xmlBytes, hx⟩ := drained_of_sent hs (accounts_agent h) hev
  obtain ⟨now, stamp, hmade⟩ := hs.fates _ hx
  obtain ⟨wire, payload, hwire, hpayload, rfl⟩ := pushed_eq_some hmade.symm
  refine ⟨pushSource_not_subscribed, rfl, xmlBytes, ?_, now, wire, hwire, hpayload, ?_⟩
  · rw [← hs.taken]
    exact List.mem_map_of_mem hx
  · obtain ⟨e, src, -, hsrc, rfl⟩ := buildWireEvent_eq_some hwire
    obtain ⟨l₁, l₂, hsplit, -⟩ := List.lookup_eq_some_iff.mp hsrc
    refine ⟨List.mem_map.mpr ⟨(e.eventID, src), ?_, rfl⟩, ?_⟩
    · rw [hsplit]
      exact List.mem_append_right _ List.mem_cons_self
    · exact List.mem_append_right _ (List.mem_singleton_self _)

end

/-! ## What is let in is sent -/

/-- The steps of the agent's own that move what was let in on. -/
def Act.Internal : Act n → Prop
  | .agent a => a.Internal
  | .drain (.take _ _) => True
  | .drain .forward => True
  | _ => False

def work (s : State n) : Nat :=
  4 * s.inbox.queue.length + 3 * s.drain.hand.length + App.work s.agent

section

variable {codec : Codec} {agentID : Bytes} {s t : State n} {a : Act n} {g g' : App.State n}

theorem work_of_push {ev : Event} (h : App.step agentID g (.push ev) = some g') :
    App.work g' = App.work g + 2 := by
  cases (App.moved_of_step h).2 with
  | push room =>
    simp only [App.work, Mailbox.put_queue, List.length_append, List.length_singleton]
    omega

/-- An internal step does some of the work, and no callback. -/
theorem internal_step (ha : a.Internal) (h : step codec agentID s a = some t) :
    work t + 1 ≤ work s ∧ t.agent.ctxDone = s.agent.ctxDone ∧
      letIn t.inbox.offers = letIn s.inbox.offers := by
  cases moved_of_step h with
  | agent plain taken =>
    obtain ⟨hwork, hctx, -, -⟩ := App.internal_step ha taken
    refine ⟨?_, hctx, rfl⟩
    simp only [work]
    omega
  | @take now stamp xmlBytes rest hd taken =>
    obtain ⟨hqueue, hoffers, -⟩ := Mailbox.take_eq_some taken
    refine ⟨?_, rfl, by rw [hoffers]⟩
    have hhand : (pushed codec agentID xmlBytes now stamp).toList.length ≤ 1 := by
      cases pushed codec agentID xmlBytes now stamp <;> simp
    simp only [work, hd, hqueue, hand_elim, List.length_cons]
    omega
  | @forward ev agent hd taken =>
    refine ⟨?_, (offers_of_push taken).1, rfl⟩
    have hwork := work_of_push taken
    simp only [work, hd, hwork, Drain.hand, List.length_singleton, List.length_nil]
    omega
  | callback => exact ha.elim
  | giveUp _ _ => exact ha.elim
  | stop _ _ => exact ha.elim

theorem internal_run {bs : List (Act n)}
    (h : Run (step codec agentID) (fun _ a => a.Internal) s bs t) :
    bs.length + work t ≤ work s ∧ t.agent.ctxDone = s.agent.ctxDone ∧
      letIn t.inbox.offers = letIn s.inbox.offers := by
  induction h with
  | nil => exact ⟨(Nat.zero_add _).le, rfl, rfl⟩
  | snoc _ ha taken ih =>
    obtain ⟨hwork, hctx, hoffers⟩ := internal_step ha taken
    obtain ⟨iwork, ictx, ioffers⟩ := ih
    refine ⟨?_, hctx.trans ictx, hoffers.trans ioffers⟩
    rw [List.length_append, List.length_singleton]
    omega

theorem plain_of_internal {b : App.Act n} (h : b.Internal) : Plain b := by
  cases b with
  | push ev => exact h.elim
  | _ => trivial

/-- Where no internal step is possible before the context ends, nothing waits. -/
theorem idle_of_stuck (hs : Sound codec agentID s) (hg : Accounts agentID s.agent)
    (hctx : s.agent.ctxDone = false) (hup : ¬ s.agent.dispatcher.Down)
    (stuck : ∀ a : Act n, a.Internal → step codec agentID s a = none) :
    s.drain.hand = [] ∧ s.inbox.queue = [] ∧ s.agent.pushEventOut.queue = [] := by
  have hstuck : ∀ b : App.Act n, b.Internal → App.step agentID s.agent b = none := fun b hb => by
    have h := stuck (.agent b) hb
    rw [step, if_neg hup, if_pos (plain_of_internal hb)] at h
    exact Option.map_eq_none_iff.mp h
  obtain ⟨-, -, hpush, -⟩ := App.idle_of_stuck hg hctx hup hstuck
  cases hd : s.drain with
  | selecting =>
    have h := stuck (.drain (.take someStamp.now someStamp)) trivial
    rw [step, if_neg hup] at h
    simp only [hd] at h
    exact ⟨rfl, Mailbox.take_eq_none_iff.mp (Option.map_eq_none_iff.mp h), hpush⟩
  | handling ev =>
    have h := stuck (.drain .forward) trivial
    rw [step, if_neg hup] at h
    simp only [hd] at h
    have hnone := Option.map_eq_none_iff.mp h
    have room : s.agent.pushEventOut.Room := by
      rw [Mailbox.Room, hpush]
      show 0 < channelSize
      decide
    rw [App.step, if_neg hup] at hnone
    simp only [dif_pos room] at hnone
    cases hnone
  | returned =>
    rw [hs.returned hd] at hctx
    cases hctx

/-- Before the context ends the agent's own steps come to an end whatever their order, and then
every event that a callback let in has been drained and, if it could be made into one, sent, in the
order of the callbacks, unless a line has taken the agent down. -/
theorem push_drains {started : Fin n → Bool} {as bs : List (Act n)}
    (h : AnyRun (step codec agentID) (start started) as s) (hctx : s.agent.ctxDone = false)
    (h' : Run (step codec agentID) (fun _ a => a.Internal) s bs t) :
    bs.length + work t ≤ work s ∧
      ((∀ a : Act n, a.Internal → step codec agentID t a = none) → t.agent.dispatcher.Down ∨
        (t.drained.map Prod.fst = letIn s.inbox.offers ∧
          sentPushes t.agent.calls = t.drained.filterMap Prod.snd)) := by
  obtain ⟨hwork, hctx', hoffers⟩ := internal_run h'
  refine ⟨hwork, fun stuck => ?_⟩
  by_cases hup : t.agent.dispatcher.Down
  · exact Or.inl hup
  have hrun := h.trans h'.any
  have ht : Sound codec agentID t := sound_run hrun
  have hg := accounts_agent hrun
  have hnot := hctx'.trans hctx
  obtain ⟨hhand, hinbox, hpush⟩ := idle_of_stuck ht hg hnot hup stuck
  refine Or.inr ⟨?_, ?_⟩
  · rw [ht.taken, ← hoffers, t.inbox.accounted, hinbox, List.append_nil]
  · have hall : letIn t.handled = t.handled.map Prod.fst := by
      rw [letIn, List.filter_eq_self.mpr (ht.sent hnot)]
    rw [ht.handed, hhand, List.append_nil, ← hall, ht.forwarded, t.agent.pushEventOut.accounted,
      hpush, List.append_nil, hg.pushed]

end

/-! ## An event on its way -/

/-- Everything is a failed logon, and every text is empty. -/
def sampleCodec : Codec := ⟨fun _ => some failedLogon, fun _ => some []⟩

def sampleCallbacks : List (Act 0) := [.callback [60]]

def sampleMoves : List (Act 0) :=
  [.drain (.take sampleTime someStamp), .drain .forward, .agent (.dispatcher .takePush)]

/-- The moves get an event through. -/
theorem sample_run : ∃ s t : State 0,
    AnyRun (step sampleCodec []) (start fun _ => true) sampleCallbacks s ∧
      Run (step sampleCodec []) (fun _ a => a.Internal) s sampleMoves t ∧
        s.agent.ctxDone = false ∧ sentPushes t.agent.calls ≠ [] ∧ t.inbox.queue = [] ∧
          ¬ t.agent.dispatcher.Down := by
  have hcheck : (exec (step sampleCodec []) (start fun _ => true)
      (sampleCallbacks ++ sampleMoves)).any
        (fun s => !s.agent.ctxDone && (!(sentPushes s.agent.calls).isEmpty &&
          (s.inbox.queue.isEmpty && !decide s.agent.dispatcher.Down))) = true := by decide
  obtain ⟨t, hrun, ht⟩ := run_of_check hcheck
  obtain ⟨hctx, ht⟩ := Bool.and_eq_true_iff.mp ht
  obtain ⟨hsent, ht⟩ := Bool.and_eq_true_iff.mp ht
  obtain ⟨hempty, hup⟩ := Bool.and_eq_true_iff.mp ht
  obtain ⟨s, hcallbacks, hmoves⟩ := run_append hrun
  have hinternal : Run (step sampleCodec []) (fun _ a => a.Internal) s sampleMoves t :=
    hmoves.of_all fun a ha _ => by
      rcases List.mem_cons.mp ha with rfl | ha
      · trivial
      rcases List.mem_cons.mp ha with rfl | ha
      · trivial
      exact List.mem_singleton.mp ha ▸ trivial
  refine ⟨s, t, hcallbacks, hinternal, ?_, by simpa using hsent, List.isEmpty_iff.mp hempty,
    by simpa using hup⟩
  rw [← (internal_run hinternal).2.1]
  simpa using hctx

theorem step_callback (codec : Codec) (agentID : Bytes) {s : State n} (xmlBytes : Bytes)
    (hup : ¬ s.agent.dispatcher.Down) : step codec agentID s (.callback xmlBytes) =
      some { s with inbox := s.inbox.offer xmlBytes } := if_neg hup

/-- Callbacks fill the channel while nothing is drained. -/
theorem exists_filled (codec : Codec) (agentID : Bytes) {s : State n} (xmlBytes : Bytes)
    (hup : ¬ s.agent.dispatcher.Down) (hempty : s.inbox.queue = []) (k : Nat)
    (hk : k ≤ inboxSize) : ∃ t,
      AnyRun (step codec agentID) s (List.replicate k (.callback xmlBytes)) t ∧
        t.agent = s.agent ∧ t.inbox.queue.length = k := by
  induction k with
  | zero => exact ⟨s, .nil _, rfl, by rw [hempty, List.length_nil]⟩
  | succ k ih =>
    obtain ⟨t, hrun, hagent, hlen⟩ := ih (by omega)
    have hstep := step_callback codec agentID xmlBytes (hagent ▸ hup)
    have room : t.inbox.Room := by
      rw [Mailbox.Room]
      omega
    refine ⟨{ t with inbox := t.inbox.offer xmlBytes }, ?_, hagent, ?_⟩
    · rw [List.replicate_succ']
      exact .snoc hrun trivial hstep
    · show (t.inbox.offer xmlBytes).queue.length = k + 1
      rw [Mailbox.offer_queue room, List.length_append, hlen, List.length_singleton]

/-- An event is sent, then the channel fills up and the next callback drops its event. -/
theorem push_exact_sample : ∃ s t : State 0,
    AnyRun (step sampleCodec []) (start fun _ => true) (sampleCallbacks ++ sampleMoves ++
      List.replicate inboxSize (.callback [60])) s ∧
      letIn s.inbox.offers = s.drained.map Prod.fst ++ s.inbox.queue ∧
      sentPushes s.agent.calls ≠ [] ∧ step sampleCodec [] s (.callback [61]) = some t ∧
      t.inbox.offers = s.inbox.offers ++ [([61], false)] := by
  obtain ⟨_, m, hcallbacks, hmoves, -, hsent, hempty, hup⟩ := sample_run
  obtain ⟨s, hfill, hagent, hlen⟩ := exists_filled sampleCodec [] [60] hup hempty _ le_rfl
  have hrun := (hcallbacks.trans hmoves.any).trans hfill
  obtain ⟨haccount, -, -, -, -, hrecorded⟩ := push_exact hrun
  have hstep := step_callback sampleCodec [] [61] (hagent ▸ hup)
  obtain ⟨here, hoffers, hhere⟩ := hrecorded _ _ hstep
  refine ⟨s, _, hrun, haccount, hagent ▸ hsent, hstep, ?_⟩
  rw [hoffers, hhere.mpr hlen]

theorem push_sources_sample : ∃ t : State 0,
    AnyRun (step sampleCodec []) (start fun _ => true) (sampleCallbacks ++ sampleMoves) t ∧
      ∃ ev ∈ sentPushes t.agent.calls, ev.metadata = [] := by
  obtain ⟨s, t, hrun, hmoves, -, hsent, -⟩ := sample_run
  obtain ⟨ev, hev⟩ := List.exists_mem_of_ne_nil _ hsent
  have h := hrun.trans hmoves.any
  exact ⟨t, h, ev, hev, (push_sources h ev hev).2.1⟩

theorem push_drains_sample : ∃ s t : State 0,
    AnyRun (step sampleCodec []) (start fun _ => true) sampleCallbacks s ∧
      Run (step sampleCodec []) (fun _ a => a.Internal) s sampleMoves t ∧
        sampleMoves.length + work t ≤ work s := by
  obtain ⟨s, t, hrun, hmoves, hctx, -⟩ := sample_run
  exact ⟨s, t, hrun, hmoves, (push_drains hrun hctx hmoves).1⟩

end ZaqorinCore.Agent.PushDrain
