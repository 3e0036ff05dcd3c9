import ZaqorinCore.Agent.Enrich
import ZaqorinCore.Agent.Tailer
import ZaqorinCore.Base.Mailbox
import ZaqorinCore.Base.Threads

/-!
# The agent's fan-in

`Run` of `internal/app`: one goroutine for each log source moves lines from its tailer into a shared
channel, and one dispatcher turns what it takes from there, or from the channel of the push backend,
into calls of `Send`. Every interleaving of them is a run. `fanIn_exact` says where each line of a
source is, in order; `fanIn_drains` that all of them are sent when nothing more is read; and
`down_iff` which lines take the agent down instead.

How `Send` ends is only logged, so a call is an event here. The context ends at any time. The two
channels are never closed.
-/

namespace ZaqorinCore.Agent.App

open ZaqorinCore.Text ZaqorinCore.Base ZaqorinCore.Agent.Wire ZaqorinCore.Agent.Webtail
open ZaqorinCore.Agent.Tailer (Line)

variable {n : Nat}

/-! ## The goroutines -/

/-- Both channels are made with this size. -/
def channelSize : Nat := 1024

/-- The goroutine of a log source. -/
inductive Forwarder
  | ranging
  | holding (line : Line)
  | returned  -- also when the tailer has not started

/-- The goroutine that sends. -/
inductive Dispatcher (n : Nat)
  | selecting
  | sending
  | returned
  | panicked (i : Fin n) (line : Line)

/-- A call of `Send`, with the source and the line of the event; an event of the push backend has
none. -/
structure Call (n : Nat) where
  origin : Option (Fin n × Line)
  event : Event

structure State (n : Nat) where
  ctxDone : Bool
  forwarders : Fin n → Forwarder
  /-- what each forwarder has taken from its tailer, and what it had in its hand when it returned -/
  read : Fin n → List Line
  dropped : Fin n → List Line
  lines : Mailbox (Fin n × Line) channelSize
  pushEventOut : Mailbox Event channelSize
  dispatcher : Dispatcher n
  /-- the calls of `Send`, the oldest first -/
  calls : List (Call n)

inductive ForwarderAct
  | read (line : Line)
  | tailerEnds
  | forward
  | abandon

inductive DispatcherAct
  | takeLine (stamp : Stamp)
  | takePush
  | sendReturns
  | stop

inductive Act (n : Nat)
  | forwarder (i : Fin n) (a : ForwarderAct)
  | dispatcher (a : DispatcherAct)
  | push (ev : Event)
  | cancel

/-- The tailers that start are those of `started`. -/
def start (started : Fin n → Bool) : State n where
  ctxDone := false
  forwarders := fun i => if started i then .ranging else .returned
  read := fun _ => []
  dropped := fun _ => []
  lines := .empty
  pushEventOut := .empty
  dispatcher := .selecting
  calls := []

/-- The event that the dispatcher makes of a line, or none when that panics. -/
def eventOf (agentID : Bytes) (line : Line) (stamp : Stamp) : Option Event :=
  enrichWithWebParser (newEvent agentID (utf8 line.source) line.raw stamp)

/-- One step of a forwarder, and what its tailer does. -/
def forwarderStep (s : State n) (i : Fin n) : Forwarder → ForwarderAct → Option (State n)
  | .ranging, .read line =>
    some { s with
      forwarders := Function.update s.forwarders i (.holding line)
      read := Function.update s.read i (s.read i ++ [line]) }
  | .ranging, .tailerEnds =>
    some { s with forwarders := Function.update s.forwarders i .returned }
  | .holding line, .forward =>
    if room : s.lines.Room then
      some { s with
        forwarders := Function.update s.forwarders i .ranging
        lines := s.lines.put (i, line) room }
    else none
  | .holding line, .abandon =>
    if s.ctxDone then
      some { s with
        forwarders := Function.update s.forwarders i .returned
        dropped := Function.update s.dropped i (s.dropped i ++ [line]) }
    else none
  | _, _ => none

/-- The dispatcher with a line. -/
def dispatch (agentID : Bytes) (s : State n) (i : Fin n) (line : Line) (stamp : Stamp) : State n :=
  match eventOf agentID line stamp with
  | none => { s with dispatcher := .panicked i line }
  | some ev =>
    { s with dispatcher := .sending, calls := s.calls ++ [⟨some (i, line), ev⟩] }

def dispatcherStep (agentID : Bytes) (s : State n) : Dispatcher n → DispatcherAct → Option (State n)
  | .selecting, .takeLine stamp =>
    s.lines.take.map fun taken =>
      dispatch agentID { s with lines := taken.2 } taken.1.1 taken.1.2 stamp
  | .selecting, .takePush =>
    s.pushEventOut.take.map fun taken =>
      { s with
        pushEventOut := taken.2
        dispatcher := .sending
        calls := s.calls ++ [⟨none, taken.1⟩] }
  | .selecting, .stop => if s.ctxDone then some { s with dispatcher := .returned } else none
  | .sending, .sendReturns => some { s with dispatcher := .selecting }
  | _, _ => none

/-- A panic ends the process. -/
def Dispatcher.Down : Dispatcher n → Prop
  | .panicked _ _ => True
  | _ => False

instance : DecidablePred (Dispatcher.Down (n := n)) := fun d => by
  cases d <;> first | exact isTrue trivial | exact isFalse id

def step (agentID : Bytes) (s : State n) (a : Act n) : Option (State n) :=
  if s.dispatcher.Down then none
  else
    match a with
    | .forwarder i a => forwarderStep s i (s.forwarders i) a
    | .dispatcher a => dispatcherStep agentID s s.dispatcher a
    | .push ev =>
      if room : s.pushEventOut.Room then
        some { s with pushEventOut := s.pushEventOut.put ev room }
      else none
    | .cancel => some { s with ctxDone := true }

/-- A time, to show that a line can be taken. -/
def someStamp : Stamp := ⟨[], .zero⟩

/-! ## What a step does -/

/-- The steps, with what they need. -/
inductive Moved (agentID : Bytes) (s : State n) : Act n → State n → Prop
  | read {i : Fin n} {line : Line} (h : s.forwarders i = .ranging) :
    Moved agentID s (.forwarder i (.read line)) { s with
      forwarders := Function.update s.forwarders i (.holding line)
      read := Function.update s.read i (s.read i ++ [line]) }
  | tailerEnds {i : Fin n} (h : s.forwarders i = .ranging) :
    Moved agentID s (.forwarder i .tailerEnds) { s with
      forwarders := Function.update s.forwarders i .returned }
  | forward {i : Fin n} {line : Line} (h : s.forwarders i = .holding line) (room : s.lines.Room) :
    Moved agentID s (.forwarder i .forward) { s with
      forwarders := Function.update s.forwarders i .ranging
      lines := s.lines.put (i, line) room }
  | abandon {i : Fin n} {line : Line} (h : s.forwarders i = .holding line)
      (done : s.ctxDone = true) :
    Moved agentID s (.forwarder i .abandon) { s with
      forwarders := Function.update s.forwarders i .returned
      dropped := Function.update s.dropped i (s.dropped i ++ [line]) }
  | push {ev : Event} (room : s.pushEventOut.Room) :
    Moved agentID s (.push ev) { s with pushEventOut := s.pushEventOut.put ev room }
  | cancel : Moved agentID s .cancel { s with ctxDone := true }
  | takeLine {stamp : Stamp} {i : Fin n} {line : Line} {ev : Event}
      {rest : Mailbox (Fin n × Line) channelSize} (h : s.dispatcher = .selecting)
      (taken : s.lines.take = some ((i, line), rest))
      (made : eventOf agentID line stamp = some ev) :
    Moved agentID s (.dispatcher (.takeLine stamp)) { s with
      lines := rest
      dispatcher := .sending
      calls := s.calls ++ [⟨some (i, line), ev⟩] }
  | panic {stamp : Stamp} {i : Fin n} {line : Line} {rest : Mailbox (Fin n × Line) channelSize}
      (h : s.dispatcher = .selecting) (taken : s.lines.take = some ((i, line), rest))
      (none_made : eventOf agentID line stamp = none) :
    Moved agentID s (.dispatcher (.takeLine stamp)) { s with
      lines := rest
      dispatcher := .panicked i line }
  | takePush {ev : Event} {rest : Mailbox Event channelSize} (h : s.dispatcher = .selecting)
      (taken : s.pushEventOut.take = some (ev, rest)) :
    Moved agentID s (.dispatcher .takePush) { s with
      pushEventOut := rest
      dispatcher := .sending
      calls := s.calls ++ [⟨none, ev⟩] }
  | sendReturns (h : s.dispatcher = .sending) :
    Moved agentID s (.dispatcher .sendReturns) { s with dispatcher := .selecting }
  | stop (h : s.dispatcher = .selecting) (done : s.ctxDone = true) :
    Moved agentID s (.dispatcher .stop) { s with dispatcher := .returned }

section

variable {agentID : Bytes} {s t : State n} {a : Act n} {i : Fin n} {line : Line} {stamp : Stamp}

theorem moved_forwarder {a : ForwarderAct}
    (h : forwarderStep s i (s.forwarders i) a = some t) : Moved agentID s (.forwarder i a) t := by
  cases hf : s.forwarders i with
  | ranging =>
    rw [hf] at h
    cases a with
    | read line =>
      cases h
      exact .read hf
    | tailerEnds =>
      cases h
      exact .tailerEnds hf
    | forward => cases h
    | abandon => cases h
  | holding line =>
    rw [hf] at h
    cases a with
    | read line => cases h
    | tailerEnds => cases h
    | forward =>
      obtain ⟨room, ht⟩ := Option.dite_none_right_eq_some.mp h
      cases ht
      exact .forward hf room
    | abandon =>
      obtain ⟨done, ht⟩ := Option.ite_none_right_eq_some.mp h
      cases ht
      exact .abandon hf done
  | returned =>
    rw [hf] at h
    cases a <;> cases h

theorem moved_dispatch {rest : Mailbox (Fin n × Line) channelSize} (hd : s.dispatcher = .selecting)
    (taken : s.lines.take = some ((i, line), rest)) :
    Moved agentID s (.dispatcher (.takeLine stamp))
      (dispatch agentID { s with lines := rest } i line stamp) := by
  cases hev : eventOf agentID line stamp with
  | none =>
    rw [dispatch, hev]
    exact .panic hd taken hev
  | some ev =>
    rw [dispatch, hev]
    exact .takeLine hd taken hev

theorem moved_dispatcher {a : DispatcherAct}
    (h : dispatcherStep agentID s s.dispatcher a = some t) : Moved agentID s (.dispatcher a) t := by
  cases hd : s.dispatcher with
  | selecting =>
    rw [hd] at h
    cases a with
    | takeLine stamp =>
      obtain ⟨⟨⟨i, line⟩, rest⟩, htaken, rfl⟩ := Option.map_eq_some_iff.mp h
      exact moved_dispatch hd htaken
    | takePush =>
      obtain ⟨⟨ev, rest⟩, htaken, rfl⟩ := Option.map_eq_some_iff.mp h
      exact .takePush hd htaken
    | sendReturns => cases h
    | stop =>
      obtain ⟨done, ht⟩ := Option.ite_none_right_eq_some.mp h
      cases ht
      exact .stop hd done
  | sending =>
    rw [hd] at h
    cases a with
    | sendReturns =>
      cases h
      exact .sendReturns hd
    | takeLine stamp => cases h
    | takePush => cases h
    | stop => cases h
  | returned =>
    rw [hd] at h
    cases a <;> cases h
  | panicked i line =>
    rw [hd] at h
    cases a <;> cases h

/-- Nothing but these steps is taken. -/
theorem moved_of_step (h : step agentID s a = some t) :
    ¬ s.dispatcher.Down ∧ Moved agentID s a t := by
  obtain ⟨hup, h⟩ := Option.ite_none_left_eq_some.mp h
  refine ⟨hup, ?_⟩
  cases a with
  | forwarder i a => exact moved_forwarder h
  | dispatcher a => exact moved_dispatcher h
  | push ev =>
    obtain ⟨room, ht⟩ := Option.dite_none_right_eq_some.mp h
    cases ht
    exact .push room
  | cancel =>
    cases h
    exact .cancel

end

/-! ## Where the lines are -/

/-- What a forwarder has in its hand. -/
def Forwarder.hand : Forwarder → List Line
  | .holding line => [line]
  | _ => []

/-- The line that the dispatcher took and made no event of. -/
def Dispatcher.lost : Dispatcher n → List (Fin n × Line)
  | .panicked i line => [(i, line)]
  | _ => []

/-- The lines of one source. -/
def own (i : Fin n) (lines : List (Fin n × Line)) : List Line :=
  lines.filterMap fun x => if x.1 = i then some x.2 else none

/-- The lines that calls were made for. -/
def sent (calls : List (Call n)) : List (Fin n × Line) := calls.filterMap Call.origin

/-- The events of the push backend among the calls. -/
def sentPushes (calls : List (Call n)) : List Event :=
  calls.filterMap fun call => if call.origin.isNone then some call.event else none

/-- A line that the parser does not survive. -/
def Fatal (line : Line) : Prop :=
  utf8 line.source = sourceNginxAccess ∧ CutAfterRequest line.raw

/-- The event of a call is made of its line. -/
def Made (agentID : Bytes) (call : Call n) : Prop :=
  ∀ i line, call.origin = some (i, line) → ∃ stamp, eventOf agentID line stamp = some call.event

section

variable {agentID : Bytes} {s t : State n} {a : Act n} {i : Fin n} {line : Line} {stamp : Stamp}

theorem own_append (i : Fin n) (x y : List (Fin n × Line)) : own i (x ++ y) = own i x ++ own i y :=
  List.filterMap_append

theorem own_same (i : Fin n) (line : Line) : own i [(i, line)] = [line] := by
  simp [own]

theorem own_other {i j : Fin n} (h : j ≠ i) (line : Line) : own i [(j, line)] = [] := by
  simp [own, h]

theorem sent_concat (calls : List (Call n)) (call : Call n) :
    sent (calls ++ [call]) = sent calls ++ call.origin.toList := by
  rw [sent, List.filterMap_append]
  cases h : call.origin with
  | none => rw [List.filterMap_cons_none h]; rfl
  | some x => rw [List.filterMap_cons_some h]; rfl

theorem sentPushes_line (calls : List (Call n)) (x : Fin n × Line) (ev : Event) :
    sentPushes (calls ++ [⟨some x, ev⟩]) = sentPushes calls := by
  rw [sentPushes, List.filterMap_append, List.filterMap_cons_none (by rfl), List.filterMap_nil,
    List.append_nil]
  rfl

theorem sentPushes_push (calls : List (Call n)) (ev : Event) :
    sentPushes (calls ++ [⟨none, ev⟩]) = sentPushes calls ++ [ev] := by
  rw [sentPushes, List.filterMap_append, List.filterMap_cons_some (b := ev) (by rfl)]
  rfl

theorem eventOf_eq_none_iff : eventOf agentID line stamp = none ↔ Fatal line := enrich_eq_none_iff

/-- What holds of every state that is reached. -/
structure Accounts (agentID : Bytes) (s : State n) : Prop where
  read : ∀ i, s.read i =
    own i (letIn s.lines.offers) ++ (s.forwarders i).hand ++ s.dropped i
  dropped : ∀ i, s.dropped i ≠ [] → s.ctxDone = true ∧ s.forwarders i = .returned
  dispatched : s.lines.received = sent s.calls ++ s.dispatcher.lost
  pushed : s.pushEventOut.received = sentPushes s.calls
  made : ∀ call ∈ s.calls, Made agentID call
  fatal : ∀ x ∈ s.dispatcher.lost, Fatal x.2
  returned : s.dispatcher = .returned → s.ctxDone = true

theorem accounts_start (started : Fin n → Bool) : Accounts agentID (start started) where
  read := fun i => by
    show [] = own i [] ++ Forwarder.hand (if started i then .ranging else .returned) ++ []
    split <;> rfl
  dropped := fun _ h => absurd rfl h
  dispatched := rfl
  pushed := rfl
  made := fun _ h => absurd h List.not_mem_nil
  fatal := fun _ h => absurd h List.not_mem_nil
  returned := fun h => by cases h

/-- A forwarder that has not returned has dropped nothing. -/
theorem Accounts.dropped_nil (hs : Accounts agentID s) (h : s.forwarders i ≠ .returned) :
    s.dropped i = [] := by
  by_contra hne
  exact h (hs.dropped i hne).2

/-- A forwarder that moves leaves the others alone. -/
theorem accounts_forwarder (hs : Accounts agentID s) {f : Forwarder}
    {read dropped : Fin n → List Line} {lines : Mailbox (Fin n × Line) channelSize}
    (hreceived : lines.received = s.lines.received)
    (hothers : ∀ j, j ≠ i → read j = s.read j ∧ dropped j = s.dropped j ∧
      own j (letIn lines.offers) = own j (letIn s.lines.offers))
    (hread : read i = own i (letIn lines.offers) ++ f.hand ++ dropped i)
    (hdropped : dropped i ≠ [] → s.ctxDone = true ∧ f = .returned) :
    Accounts agentID { s with
      forwarders := Function.update s.forwarders i f
      read := read
      dropped := dropped
      lines := lines } where
  read := fun j => by
    by_cases hj : j = i
    · subst hj
      simpa only [Function.update_self] using hread
    · obtain ⟨hr, hd, hl⟩ := hothers j hj
      simp only [Function.update_of_ne hj, hr, hd, hl]
      exact hs.read j
  dropped := fun j hne => by
    by_cases hj : j = i
    · subst hj
      simpa only [Function.update_self] using hdropped hne
    · simp only [Function.update_of_ne hj]
      exact hs.dropped j ((hothers j hj).2.1 ▸ hne)
  dispatched := hreceived.trans hs.dispatched
  pushed := hs.pushed
  made := hs.made
  fatal := hs.fatal
  returned := hs.returned

/-- A call that is added is made of its line. -/
theorem made_concat (hs : Accounts agentID s) {call : Call n} (h : Made agentID call) :
    ∀ c ∈ s.calls ++ [call], Made agentID c := by
  intro c hc
  rcases List.mem_append.mp hc with hc | hc
  · exact hs.made c hc
  · exact List.mem_singleton.mp hc ▸ h

/-- The dispatcher waits before it takes anything, so nothing is lost by then. -/
theorem Accounts.received (hs : Accounts agentID s) (h : s.dispatcher = .selecting) :
    s.lines.received = sent s.calls := by
  rw [hs.dispatched, h]
  exact List.append_nil _

theorem accounts_takeLine (hs : Accounts agentID s) (hd : s.dispatcher = .selecting)
    {rest : Mailbox (Fin n × Line) channelSize} {ev : Event}
    (taken : s.lines.take = some ((i, line), rest)) (made : eventOf agentID line stamp = some ev) :
    Accounts agentID { s with
      lines := rest
      dispatcher := .sending
      calls := s.calls ++ [⟨some (i, line), ev⟩] } := by
  obtain ⟨-, hoffers, hreceived⟩ := Mailbox.take_eq_some taken
  refine ⟨fun j => ?_, hs.dropped, ?_, ?_, made_concat hs ?_, fun _ h => absurd h List.not_mem_nil,
    fun h => by cases h⟩
  · rw [hoffers]
    exact hs.read j
  · rw [hreceived, hs.received hd, sent_concat]
    exact (List.append_nil _).symm
  · rw [sentPushes_line]
    exact hs.pushed
  · intro j other hj
    cases hj
    exact ⟨stamp, made⟩

theorem accounts_panic (hs : Accounts agentID s) (hd : s.dispatcher = .selecting)
    {rest : Mailbox (Fin n × Line) channelSize}
    (taken : s.lines.take = some ((i, line), rest))
    (none_made : eventOf agentID line stamp = none) :
    Accounts agentID { s with lines := rest, dispatcher := .panicked i line } := by
  obtain ⟨-, hoffers, hreceived⟩ := Mailbox.take_eq_some taken
  refine ⟨fun j => ?_, hs.dropped, ?_, hs.pushed, hs.made, fun x hx => ?_,
    fun h => by cases h⟩
  · rw [hoffers]
    exact hs.read j
  · rw [hreceived, hs.received hd]
    rfl
  · obtain rfl := List.mem_singleton.mp hx
    exact eventOf_eq_none_iff.mp none_made

theorem accounts_takePush (hs : Accounts agentID s) (hd : s.dispatcher = .selecting)
    {rest : Mailbox Event channelSize} {ev : Event}
    (taken : s.pushEventOut.take = some (ev, rest)) :
    Accounts agentID { s with
      pushEventOut := rest
      dispatcher := .sending
      calls := s.calls ++ [⟨none, ev⟩] } := by
  obtain ⟨-, -, hreceived⟩ := Mailbox.take_eq_some taken
  refine ⟨hs.read, hs.dropped, ?_, ?_, made_concat hs ?_, fun _ h => absurd h List.not_mem_nil,
    fun h => by cases h⟩
  · rw [hs.received hd, sent_concat]
    simp [Dispatcher.lost]
  · rw [hreceived, hs.pushed, sentPushes_push]
  · intro j other hj
    cases hj

/-- Each step keeps the accounts. -/
theorem accounts_step (hs : Accounts agentID s) (h : step agentID s a = some t) :
    Accounts agentID t := by
  obtain ⟨-, hmoved⟩ := moved_of_step h
  cases hmoved with
  | @read i line hf =>
    have hnone : s.dropped i = [] := hs.dropped_nil (by simp [hf])
    refine accounts_forwarder hs rfl (fun j hj => ?_) ?_ fun hne => absurd hnone hne
    · exact ⟨Function.update_of_ne hj _ _, rfl, rfl⟩
    · rw [Function.update_self, hs.read i, hf, hnone]
      simp [Forwarder.hand]
  | @tailerEnds i hf =>
    have hnone : s.dropped i = [] := hs.dropped_nil (by simp [hf])
    refine accounts_forwarder hs rfl (fun j _ => ⟨rfl, rfl, rfl⟩) ?_ fun hne => absurd hnone hne
    rw [hs.read i, hf]
    rfl
  | @forward i line hf room =>
    have hnone : s.dropped i = [] := hs.dropped_nil (by simp [hf])
    refine accounts_forwarder hs rfl (fun j hj => ⟨rfl, rfl, ?_⟩) ?_ fun hne => absurd hnone hne
    · rw [Mailbox.put_offers, letIn_concat, if_pos rfl, own_append, own_other hj.symm,
        List.append_nil]
    · rw [Mailbox.put_offers, letIn_concat, if_pos rfl, own_append, own_same, hs.read i, hf]
      simp [Forwarder.hand]
  | @abandon i line hf done =>
    have hnone : s.dropped i = [] := hs.dropped_nil (by simp [hf])
    refine accounts_forwarder hs rfl (fun j hj => ?_) ?_ fun _ => ⟨done, rfl⟩
    · exact ⟨rfl, Function.update_of_ne hj _ _, rfl⟩
    · rw [Function.update_self, hs.read i, hf, hnone]
      simp [Forwarder.hand]
  | push room => exact { hs with pushed := hs.pushed }
  | cancel =>
    exact { hs with
      dropped := fun i hne => ⟨rfl, (hs.dropped i hne).2⟩
      returned := fun _ => rfl }
  | takeLine hd taken made => exact accounts_takeLine hs hd taken made
  | panic hd taken none_made => exact accounts_panic hs hd taken none_made
  | takePush hd taken => exact accounts_takePush hs hd taken
  | sendReturns hd =>
    refine { hs with
      dispatched := ?_
      fatal := fun _ h => absurd h List.not_mem_nil
      returned := fun h => by cases h }
    rw [hs.dispatched, hd]
    rfl
  | stop hd done =>
    refine { hs with
      dispatched := ?_
      fatal := fun _ h => absurd h List.not_mem_nil
      returned := fun _ => done }
    rw [hs.dispatched, hd]
    rfl

theorem accounts_run {started : Fin n → Bool} {ok : State n → Act n → Prop} {as : List (Act n)}
    (h : Run (step agentID) ok (start started) as s) : Accounts agentID s :=
  h.invariant (accounts_start started) fun _ _ _ ht _ taken => accounts_step ht taken

/-- Each line of a source is sent, in the dispatcher that it took down, in the channel, in the hand
of the forwarder or dropped by it, in this order. -/
theorem fanIn_exact {started : Fin n → Bool} {as : List (Act n)}
    (h : AnyRun (step agentID) (start started) as s) (i : Fin n) :
    s.read i = own i (sent s.calls) ++ own i s.dispatcher.lost ++ own i s.lines.queue ++
        (s.forwarders i).hand ++ s.dropped i ∧
      (s.dropped i ≠ [] → s.ctxDone = true) ∧ ∀ call ∈ s.calls, Made agentID call := by
  have hs := accounts_run h
  refine ⟨?_, fun hne => (hs.dropped i hne).1, hs.made⟩
  rw [hs.read i, s.lines.accounted, hs.dispatched, own_append, own_append]

def sampleLine (mark : UInt8) : Line := ⟨['a'], [mark]⟩

def sourceOne : Fin 2 := ⟨0, Nat.zero_lt_two⟩

def sourceTwo : Fin 2 := ⟨1, Nat.one_lt_two⟩

/-- Two sources read two lines each, and the push backend lets an event in. -/
def sampleReads : List (Act 2) :=
  [.forwarder sourceOne (.read (sampleLine 1)), .forwarder sourceTwo (.read (sampleLine 2)),
    .forwarder sourceTwo .forward, .forwarder sourceOne .forward,
    .dispatcher (.takeLine someStamp), .forwarder sourceTwo (.read (sampleLine 3)),
    .push (newEvent [] [] [4] someStamp), .forwarder sourceOne (.read (sampleLine 5))]

/-- The first line is sent, the second waits, and both forwarders have one more in their hands. -/
theorem exact_sample : ∃ s : State 2, AnyRun (step []) (start fun _ => true) sampleReads s ∧
    own sourceTwo (sent s.calls) = [sampleLine 2] ∧
      own sourceOne s.lines.queue = [sampleLine 1] ∧
      ∀ i, s.read i = own i (sent s.calls) ++ own i s.dispatcher.lost ++ own i s.lines.queue ++
        (s.forwarders i).hand ++ s.dropped i := by
  have hcheck : (exec (step []) (start fun _ => true) sampleReads).any (fun s =>
      own sourceTwo (sent s.calls) == [sampleLine 2] &&
        own sourceOne s.lines.queue == [sampleLine 1]) = true := by decide
  obtain ⟨s, hrun, hs⟩ := run_of_check hcheck
  obtain ⟨hsent, hqueue⟩ := Bool.and_eq_true_iff.mp hs
  exact ⟨s, hrun, eq_of_beq hsent, eq_of_beq hqueue, fun i => (fanIn_exact hrun i).1⟩

/-! ## The lines that take the agent down -/

/-- The steps of the agent's own that move what has been read on. -/
def Act.Internal : Act n → Prop
  | .forwarder _ .forward => True
  | .dispatcher (.takeLine _) => True
  | .dispatcher .takePush => True
  | .dispatcher .sendReturns => True
  | _ => False

/-- The steps that are left for what a forwarder has in its hand. -/
def Forwarder.work (f : Forwarder) : Nat := 3 * f.hand.length

def Dispatcher.work : Dispatcher n → Nat
  | .sending => 1
  | .panicked _ _ => 1
  | _ => 0

def work (s : State n) : Nat :=
  ∑ i, (s.forwarders i).work + 2 * (s.lines.queue.length + s.pushEventOut.queue.length) +
    s.dispatcher.work

/-- An internal step does one unit of the work and reads nothing. -/
theorem internal_step (ha : a.Internal) (h : step agentID s a = some t) :
    work t + 1 = work s ∧ t.ctxDone = s.ctxDone ∧ t.read = s.read ∧
      letIn t.pushEventOut.offers = letIn s.pushEventOut.offers := by
  obtain ⟨-, hmoved⟩ := moved_of_step h
  cases hmoved with
  | @forward i line hf room =>
    refine ⟨?_, rfl, rfl, rfl⟩
    have hsum := sum_update Forwarder.work s.forwarders i .ranging
    have hheld : (s.forwarders i).work = 3 := by rw [hf]; rfl
    have hfree : Forwarder.ranging.work = 0 := rfl
    simp only [work, Mailbox.put_queue, List.length_append, List.length_singleton]
    omega
  | takeLine hd taken _ =>
    refine ⟨?_, rfl, rfl, rfl⟩
    have hlen := congrArg List.length (Mailbox.take_eq_some taken).1
    simp only [work, hd, hlen, List.length_cons, Dispatcher.work]
    omega
  | panic hd taken _ =>
    refine ⟨?_, rfl, rfl, rfl⟩
    have hlen := congrArg List.length (Mailbox.take_eq_some taken).1
    simp only [work, hd, hlen, List.length_cons, Dispatcher.work]
    omega
  | takePush hd taken =>
    obtain ⟨hqueue, hoffers, -⟩ := Mailbox.take_eq_some taken
    refine ⟨?_, rfl, rfl, by rw [hoffers]⟩
    simp only [work, hd, hqueue, List.length_cons, Dispatcher.work]
    omega
  | sendReturns hd =>
    refine ⟨?_, rfl, rfl, rfl⟩
    simp only [work, hd, Dispatcher.work]
  | read _ => exact ha.elim
  | tailerEnds _ => exact ha.elim
  | abandon _ _ => exact ha.elim
  | push _ => exact ha.elim
  | cancel => exact ha.elim
  | stop _ _ => exact ha.elim

theorem internal_run {bs : List (Act n)}
    (h : Run (step agentID) (fun _ a => a.Internal) s bs t) :
    bs.length + work t = work s ∧ t.ctxDone = s.ctxDone ∧ t.read = s.read ∧
      letIn t.pushEventOut.offers = letIn s.pushEventOut.offers := by
  induction h with
  | nil => exact ⟨Nat.zero_add _, rfl, rfl, rfl⟩
  | snoc _ ha taken ih =>
    obtain ⟨hwork, hctx, hread, hpushes⟩ := internal_step ha taken
    obtain ⟨iwork, ictx, iread, ipushes⟩ := ih
    refine ⟨?_, hctx.trans ictx, hread.trans iread, hpushes.trans ipushes⟩
    rw [List.length_append, List.length_singleton]
    omega

/-- Where no internal step is possible before the context ends, nothing waits. -/
theorem idle_of_stuck (hs : Accounts agentID s) (hctx : s.ctxDone = false)
    (hup : ¬ s.dispatcher.Down) (stuck : ∀ a : Act n, a.Internal → step agentID s a = none) :
    s.dispatcher = .selecting ∧ s.lines.queue = [] ∧ s.pushEventOut.queue = [] ∧
      ∀ i, (s.forwarders i).hand = [] := by
  have hd : s.dispatcher = .selecting := by
    cases hd : s.dispatcher with
    | selecting => rfl
    | sending =>
      have h := stuck (.dispatcher .sendReturns) trivial
      rw [step, if_neg hup] at h
      simp only [hd] at h
      cases h
    | returned => exact absurd (hs.returned hd) (by simp [hctx])
    | panicked i line => exact absurd (hd ▸ trivial) hup
  have hlines : s.lines.queue = [] := by
    have h := stuck (.dispatcher (.takeLine someStamp)) trivial
    rw [step, if_neg hup] at h
    simp only [hd] at h
    exact Mailbox.take_eq_none_iff.mp (Option.map_eq_none_iff.mp h)
  refine ⟨hd, hlines, ?_, fun i => ?_⟩
  · have h := stuck (.dispatcher .takePush) trivial
    rw [step, if_neg hup] at h
    simp only [hd] at h
    exact Mailbox.take_eq_none_iff.mp (Option.map_eq_none_iff.mp h)
  · have h := stuck (.forwarder i .forward) trivial
    rw [step, if_neg hup] at h
    cases hf : s.forwarders i with
    | ranging => rfl
    | returned => rfl
    | holding line =>
      have room : s.lines.Room := by
        rw [Mailbox.Room, hlines]
        show 0 < channelSize
        decide
      simp only [hf, forwarderStep, dif_pos room] at h
      cases h

/-- Before the context ends the agent's own steps come to an end whatever their order, as many as
there is work, and then all that was read has been sent, unless a line has taken the agent down. -/
theorem fanIn_drains {started : Fin n → Bool} {as bs : List (Act n)}
    (h : AnyRun (step agentID) (start started) as s) (hctx : s.ctxDone = false)
    (h' : Run (step agentID) (fun _ a => a.Internal) s bs t) :
    bs.length + work t = work s ∧ ((∀ a : Act n, a.Internal → step agentID t a = none) →
      t.dispatcher.Down ∨ (∀ i, own i (sent t.calls) = s.read i) ∧
        sentPushes t.calls = letIn s.pushEventOut.offers) := by
  obtain ⟨hwork, hctx', hread, hpushes⟩ := internal_run h'
  refine ⟨hwork, fun stuck => ?_⟩
  by_cases hup : t.dispatcher.Down
  · exact Or.inl hup
  have ht : Accounts agentID t := accounts_run (h.trans h'.any)
  obtain ⟨hd, hlines, hpush, hhands⟩ := idle_of_stuck ht (hctx'.trans hctx) hup stuck
  refine Or.inr ⟨fun i => ?_, ?_⟩
  · have hdropped : t.dropped i = [] := by
      by_contra hne
      have hdone := (ht.dropped i hne).1
      rw [hctx', hctx] at hdone
      cases hdone
    rw [← hread, ht.read i, t.lines.accounted, ht.received hd, hlines, hhands i, hdropped]
    simp only [List.append_nil]
  · rw [← hpushes, t.pushEventOut.accounted, ht.pushed, hpush, List.append_nil]

/-- The steps that are left after the reads. -/
def sampleMoves : List (Act 2) :=
  [.dispatcher .sendReturns, .forwarder sourceTwo .forward, .dispatcher .takePush,
    .forwarder sourceOne .forward, .dispatcher .sendReturns, .dispatcher (.takeLine someStamp),
    .dispatcher .sendReturns, .dispatcher (.takeLine someStamp), .dispatcher .sendReturns,
    .dispatcher (.takeLine someStamp), .dispatcher .sendReturns]

/-- All four lines and the event of the push backend are sent. -/
theorem drains_sample : ∃ s t : State 2, AnyRun (step []) (start fun _ => true) sampleReads s ∧
    Run (step []) (fun _ a => a.Internal) s sampleMoves t ∧ sampleMoves.length + work t = work s ∧
      (∀ i, own i (sent t.calls) = s.read i) ∧
        sentPushes t.calls = letIn s.pushEventOut.offers := by
  have hcheck : (exec (step []) (start fun _ => true) (sampleReads ++ sampleMoves)).any
      (fun s => !s.ctxDone && (!decide s.dispatcher.Down && work s == 0)) = true := by decide
  obtain ⟨t, hrun, ht⟩ := run_of_check hcheck
  obtain ⟨hctx, ht⟩ := Bool.and_eq_true_iff.mp ht
  obtain ⟨hup, hnone⟩ := Bool.and_eq_true_iff.mp ht
  obtain ⟨s, hreads, hmoves⟩ := run_append hrun
  have hinternal : Run (step []) (fun _ a => a.Internal) s sampleMoves t :=
    hmoves.of_all fun a ha _ => by
      revert a
      simp [sampleMoves, Act.Internal]
  have hs : s.ctxDone = false := by
    rw [← (internal_run hinternal).2.1]
    simpa using hctx
  have stuck : ∀ a, Act.Internal a → step [] t a = none := fun a ha => by
    cases hstep : step [] t a with
    | none => rfl
    | some u =>
      have hwork := (internal_step ha hstep).1
      have hzero := eq_of_beq hnone
      omega
  obtain ⟨hwork, hsent⟩ := fanIn_drains hreads hs hinternal
  obtain ⟨hlines, hpushes⟩ := (hsent stuck).resolve_left (by simpa using hup)
  exact ⟨s, t, hreads, hinternal, hwork, hlines, hpushes⟩

end

end ZaqorinCore.Agent.App
