import ZaqorinCore.Base.Run
import ZaqorinCore.Server.Firing
import ZaqorinCore.Server.Leases

/-!
# Reaching a threshold

Two detectors compare a count with a threshold: `port_scan` the members of its window, and
`ssh_bruteforce` the failures of its. They are called with one event after the other, and every call
is logged with what it returned.

* `scans_at_threshold_iff`: the port scan detector reads a field that no event has and returns
  nothing, so that it is right exactly as long as no event reaches the threshold.
* `fires_justified`: the window of an event is trimmed up to the event's own time, and what is left
  is counted, later events as well. A fire has its failures within one window when whatever reaches
  the threshold lies within one. Events in order do: `together_of_inOrder`.
-/

namespace ZaqorinCore.Server

open Text Base

/-! ## Calls of a detector -/

/-- A call of `on_event`: the event with the microseconds of its `occurred_at`, the time since the
last call, and how Redis answers. The runner's events have no microseconds; `int` rounds towards
zero, so that events before 1970 have none here. -/
structure Notice where
  event : ParsedEvent
  micros : Nat
  wait : Nat
  answers : List Answer
  micros_lt : micros < 1000000
  micros_eq : event.occurredAt < 0 → micros = 0

/-- `occurred_at`, in microseconds. -/
def Notice.time (n : Notice) : Int := n.event.occurredAt * 1000000 + n.micros

/-- Redis answers every command. -/
def Notice.Served (n : Notice) : Prop := ∀ a ∈ n.answers, a.error = none

/-- A call that was made, and what it returned. -/
structure Heard extends Notice where
  results : List DetectionResult

/-- The calls are logged, the newest first. -/
structure Listener where
  world : World
  log : List Heard

def World.called (w : World) (n : Notice) : World :=
  { w with
    redis.now := w.redis.now + n.wait
    answers := n.answers }

def Listener.start (w : World) : Listener := ⟨w, []⟩

/-- One call. A call that raises returns no results. -/
def Listener.hear (onEvent : ParsedEvent → Py World (List DetectionResult)) (s : Listener)
    (n : Notice) : Option Listener :=
  let (result, world) := (onEvent n.event).exec (s.world.called n)
  let results := match result with
    | .ok results => results
    | .error _ => []
  some ⟨world, ⟨n, results⟩ :: s.log⟩

theorem hear_eq {onEvent : ParsedEvent → Py World (List DetectionResult)} {s u : Listener}
    {n : Notice} {results : List DetectionResult} {w : World}
    (hexec : (onEvent n.event).exec (s.world.called n) = (.ok results, w))
    (h : s.hear onEvent n = some u) : u = ⟨w, ⟨n, results⟩ :: s.log⟩ := by
  rw [Listener.hear, hexec] at h
  exact (Option.some.inj h).symm

/-! ## Port scans -/

/-- The next event of one host and one address, not before the last one, with a Redis that works. -/
structure NextKnock (host : Uuid) (ip : Str) (s : Listener) (n : Notice) : Prop where
  host : n.event.hostId = host
  ip : metaGet n.event "source_ip" = some ip
  later : ∀ h ∈ s.log, h.time ≤ n.time
  served : n.Served

/-- The destination ports of the calls in the window that ends at a time. -/
def portsSeen (calls : List Notice) (time : Int) : Finset Int :=
  ((calls.filter fun n =>
      decide (time - portScanWindowSec * 1000000 < n.time ∧ n.time ≤ time)).filterMap
    fun n => destPort n.event).toFinset

/-- The detector returns a result exactly for the calls that reach the threshold. -/
def ScansReported : List Heard → Prop
  | [] => True
  | h :: log =>
    (h.results ≠ [] ↔
      portScanThreshold ≤ (portsSeen (h.toNotice :: log.map Heard.toNotice) h.time).card) ∧
    ScansReported log

/-- With the event, fewer ports than the threshold were hit in the window. -/
def FewPorts (s : Listener) (n : Notice) : Prop :=
  (portsSeen (n :: s.log.map Heard.toNotice) n.time).card < portScanThreshold

/-- The missing field ends the `try` before Redis is asked. -/
theorem exec_resultsOf_countMs (event : ParsedEvent) (key : Str) (member : Int → Str)
    (windowSec : Int) (results : Nat → List DetectionResult) (w : World) :
    (resultsOf (countMs event key member windowSec) results).exec w = (.ok [], w) := rfl

theorem exec_portScanOnEvent (event : ParsedEvent) (w : World) :
    (portScanOnEvent event).exec w = (.ok [], w) := by
  unfold portScanOnEvent
  split
  · rfl
  · split
    · rfl
    · rfl
    · rfl
    · exact exec_resultsOf_countMs _ _ _ _ _ w

/-- The events of one host and address come in order: every call is as the threshold says exactly
when no call reaches it. -/
theorem scans_at_threshold_iff (host : Uuid) (ip : Str) (w : World) (calls : List Notice)
    (s : Listener)
    (h : Run (Listener.hear portScanOnEvent) (NextKnock host ip) (Listener.start w) calls s) :
    ScansReported s.log ↔
      Run (Listener.hear portScanOnEvent) FewPorts (Listener.start w) calls s := by
  have hstart : ScansReported (Listener.start w).log := trivial
  refine Run.iff_of_step (I := fun _ => True) (P := fun s => ScansReported s.log) trivial
    (fun _ _ _ _ _ => trivial) hstart ?_ h.any
  intro t n u _ hu
  rw [hear_eq (exec_portScanOnEvent n.event _) hu]
  show (([] : List DetectionResult) ≠ [] ↔ _) ∧ ScansReported t.log ↔
    ScansReported t.log ∧ FewPorts t n
  have hquiet : (([] : List DetectionResult) ≠ [] ↔ portScanThreshold ≤
      (portsSeen (n :: t.log.map Heard.toNotice) n.time).card) ↔ FewPorts t n := by
    unfold FewPorts
    rw [← not_le]
    simp only [ne_eq, not_true_eq_false, false_iff]
  exact (and_congr_left' hquiet).trans and_comm

instance (n : Notice) : Decidable n.Served :=
  inferInstanceAs (Decidable (∀ a ∈ n.answers, a.error = none))

instance (host : Uuid) (ip : Str) (s : Listener) (n : Notice) :
    Decidable (NextKnock host ip s n) :=
  decidable_of_iff (n.event.hostId = host ∧ metaGet n.event "source_ip" = some ip ∧
      (∀ h ∈ s.log, h.time ≤ n.time) ∧ n.Served)
    ⟨fun ⟨a, b, c, d⟩ => ⟨a, b, c, d⟩, fun ⟨a, b, c, d⟩ => ⟨a, b, c, d⟩⟩

instance decidableScansReported : (log : List Heard) → Decidable (ScansReported log)
  | [] => isTrue trivial
  | _ :: log =>
    have := decidableScansReported log
    inferInstanceAs (Decidable (_ ∧ _))

def quietWorld : World := ⟨emptyRedis 0, fun _ => none, [], [], [], none⟩

/-- A connection to a port of the host, in the second 1000. -/
def knock (port : Nat) : Notice where
  event := ⟨0, 0, [], [], [("source_ip".toList, "203.0.113.7".toList),
    ("dest_port".toList, itoa port)], 1000⟩
  micros := 0
  wait := 0
  answers := []
  micros_lt := by decide
  micros_eq _ := rfl

/-- Twenty ports within a second. -/
def scan : List Notice := (List.range 20).map fun n => knock (n + 1)

theorem scan_unreported :
    ∃ s, Run (Listener.hear portScanOnEvent) (NextKnock 0 "203.0.113.7".toList)
      (Listener.start quietWorld) scan s ∧ ¬ ScansReported s.log := by
  have hcheck : ∃ s, Run (Listener.hear portScanOnEvent) (NextKnock 0 "203.0.113.7".toList)
      (Listener.start quietWorld) scan s ∧ decide (¬ ScansReported s.log) = true :=
    run_of_guarded_check (by decide +kernel)
  obtain ⟨s, hrun, hs⟩ := hcheck
  exact ⟨s, hrun, of_decide_eq_true hs⟩

/-- Three connections, two of them to one port. -/
theorem few_ports_reported :
    ∃ s, Run (Listener.hear portScanOnEvent) (NextKnock 0 "203.0.113.7".toList)
        (Listener.start quietWorld) [knock 22, knock 80, knock 22] s ∧ ScansReported s.log ∧
      (ScansReported s.log ↔ Run (Listener.hear portScanOnEvent) FewPorts
        (Listener.start quietWorld) [knock 22, knock 80, knock 22] s) := by
  have hcheck : ∃ s, Run (Listener.hear portScanOnEvent) (NextKnock 0 "203.0.113.7".toList)
      (Listener.start quietWorld) [knock 22, knock 80, knock 22] s ∧
      decide (ScansReported s.log) = true := run_of_guarded_check (by decide +kernel)
  obtain ⟨s, hrun, hs⟩ := hcheck
  exact ⟨s, hrun, of_decide_eq_true hs, scans_at_threshold_iff 0 _ quietWorld _ s hrun⟩

/-! ## Failed logins -/

namespace Redis

/-- A set whose key is not written to is the same later, or has expired. -/
theorem window_later {r r' : Redis} {key : Str} {members : List (Str × Int)}
    (hentries : r'.entries key = r.entries key) (hnow : r.now ≤ r'.now)
    (h : r.window key = some members) : r'.window key = some members ∨ r'.window key = some [] := by
  unfold window find at h ⊢
  rw [hentries]
  cases hentry : r.entries key with
  | none => exact Or.inr rfl
  | some e =>
    rw [hentry] at h
    by_cases hlive : e.expiresAt.all (r'.now < ·) = true
    · have hbefore : e.expiresAt.all (r.now < ·) = true := by
        cases hexp : e.expiresAt with
        | none => rfl
        | some x =>
          rw [hexp] at hlive
          have hx : r'.now < x := by simpa using hlive
          simpa using lt_of_le_of_lt hnow hx
      rw [Option.filter_some, if_pos hbefore] at h
      rw [Option.filter_some, if_pos hlive]
      exact Or.inl h
    · rw [Option.filter_some, if_neg hlive]
      exact Or.inr rfl

theorem exec_runCommands_cons {command : Py Redis Nat} {commands : List (Py Redis Nat)}
    {r r₁ r₂ : Redis} {n : Nat} {replies : List (Except PyError Nat)}
    (hhead : command.exec r = (.ok n, r₁))
    (htail : (runCommands commands).exec r₁ = (.ok replies, r₂)) :
    (runCommands (command :: commands)).exec r = (.ok (.ok n :: replies), r₂) := by
  have hattempt := Script.exec_attempt_ok (fun _ => true) hhead
  rw [runCommands, Script.exec_bind_ok hattempt, Script.exec_bind_ok htail]
  rfl

theorem exec_unit {command : Py Redis Unit} {r r' : Redis} (h : command.exec r = (.ok (), r')) :
    (unit command).exec r = (.ok 0, r') := by
  have hseq : (command >>= fun _ => (pure 0 : Py Redis Nat)).exec r = (.ok 0, r') :=
    Script.exec_bind_ok h _
  exact hseq

end Redis

namespace World

/-- The answer to the next call. -/
def nextReply (w : World) : Answer := w.answers.headD ⟨0, none, 0, 0, 0⟩

/-- The world when the next call takes effect. -/
def next (w : World) : World :=
  { w with
    answers := w.answers.tail
    redis.now := w.redis.now + w.nextReply.delay }

theorem exec_reach {α : Type} {full : Py Redis α} {part : Nat → Py Redis Unit} {w : World}
    (h : ∀ a ∈ w.answers, a.error = none) :
    (reach full part).exec w = ((full.exec w.next.redis).1,
      { w.next with redis := (full.exec w.next.redis).2 }.elapse w.nextReply.reply) := by
  have herror : w.nextReply.error = none := by
    unfold nextReply
    cases hanswers : w.answers with
    | nil => rfl
    | cons a as => exact h a (by rw [hanswers]; exact List.mem_cons_self)
  have hnext : nextAnswer.exec w = (.ok w.nextReply, w.next) := rfl
  rw [reach, Script.exec_bind_ok hnext, herror, exec_answered]
  rfl

end World

section Ssh

variable {txt : TextOps} {st : DetectorSettings} {host : Uuid} {ip : Str}

/-- The next failed login of one host and one address, with a Redis that works. -/
structure NextFailure (txt : TextOps) (host : Uuid) (ip : Str) (n : Notice) : Prop where
  host : n.event.hostId = host
  failed : isFailedLogin txt n.event = true
  source : sshSourceIp txt n.event = some ip
  known : ip ≠ []
  served : n.Served

/-- The failed logins from one time to another, the latter excluded. -/
def failuresIn (log : List Heard) (low high : Int) : Finset Uuid :=
  ((log.filter fun h => decide (low ≤ h.time ∧ h.time < high)).map
    fun h => h.event.eventId).toFinset

/-- Whenever the detector fires, some interval of the window's length has as many failed logins as
the threshold says. -/
def FiresJustified (st : DetectorSettings) : List Heard → Prop
  | [] => True
  | h :: log =>
    (h.results ≠ [] → ∃ low, st.sshBruteforceThreshold ≤
      (failuresIn (h :: log) low (low + st.sshBruteforceWindowSec * 1000000)).card) ∧
    FiresJustified st log

/-- The members of a window that the detector counts for an event. -/
def sshCounted (st : DetectorSettings) (event : ParsedEvent) (members : List (Str × Int)) :
    List (Str × Int) :=
  (uuidStr event.eventId, event.occurredAt) ::
    (members.filter fun m =>
      !(0 ≤ m.2 && m.2 ≤ event.occurredAt - st.sshBruteforceWindowSec)).filter
        fun m => m.1 != uuidStr event.eventId

/-- What is counted, if it reaches the threshold, is less than the window's length apart. -/
def Together (st : DetectorSettings) (host : Uuid) (ip : Str) (s : Listener) (n : Notice) : Prop :=
  let counted := sshCounted st n.event ((s.world.redis.window (sshWindowKey host ip)).getD [])
  st.sshBruteforceThreshold ≤ counted.length →
    ∀ a ∈ counted, ∀ b ∈ counted, a.2 < b.2 + st.sshBruteforceWindowSec

end Ssh

/-! ### What a call does to the window -/

/-- The four commands on a window: what is up to the cutoff leaves it, the event enters. -/
theorem Redis.exec_countPipeline {r : Redis} {key : Str} {members : List (Str × Int)}
    (hwindow : r.window key = some members) (member : Str) (score cutoff : Int) {seconds : Int}
    (hpos : 0 < seconds) :
    let counted := (member, score) ::
      (members.filter fun m => !(0 ≤ m.2 && m.2 ≤ cutoff)).filter fun m => m.1 != member
    ∃ r', (runPipeline [unit (zremrangebyscore key 0 cutoff), unit (zadd key member score),
        zcard key, unit (expire key seconds)]).exec r = (.ok [0, 0, counted.length, 0], r') ∧
      r'.window key = some counted ∧ r'.now = r.now := by
  intro counted
  let kept := members.filter fun m => !(0 ≤ m.2 && m.2 ≤ cutoff)
  let trimmed := r.put key (if kept = [] then none else some ⟨.sorted kept, r.expiry key⟩)
  let added := trimmed.put key (some ⟨.sorted counted, trimmed.expiry key⟩)
  have htrim : (zremrangebyscore key 0 cutoff).exec r = (.ok (), trimmed) := exec_zrem hwindow
  have hadd : (zadd key member score).exec trimmed = (.ok (), added) :=
    exec_zadd (window_kept r key kept)
  have hfind : added.find key = some ⟨.sorted counted, trimmed.expiry key⟩ := by
    rw [find_put_self, Option.filter_some]
    exact if_pos (expiry_all _ _)
  have hcard : (zcard key).exec added = (.ok counted.length, added) := by
    refine exec_zcard ?_
    rw [window, hfind]
  let final := added.put key (some ⟨.sorted counted, some (added.now + seconds * second)⟩)
  have hexpire : (expire key seconds).exec added = (.ok (), final) := exec_expire hfind hpos
  have hend : (runCommands []).exec final = (.ok [], final) := rfl
  have hcommands := exec_runCommands_cons (exec_unit htrim) (exec_runCommands_cons (exec_unit hadd)
    (exec_runCommands_cons hcard (exec_runCommands_cons (exec_unit hexpire) hend)))
  refine ⟨final, Script.exec_bind_ok hcommands _, ?_, rfl⟩
  rw [window, SigmaRuleRunner.Redis.find_put_live hpos]

section Ssh

variable {txt : TextOps} {st : DetectorSettings} {host : Uuid} {ip : Str} {event : ParsedEvent}
  {w : World}

variable (st) in
theorem exec_sshCount {members : List (Str × Int)} (hserved : ∀ a ∈ w.answers, a.error = none)
    (hwindow : w.next.redis.window (sshWindowKey event.hostId ip) = some members) :
    ∃ w', (sshCount st event ip).exec w =
        (.ok (some (sshCounted st event members).length), w') ∧
      w'.answers = w.answers.tail ∧
      (w'.redis.window (sshWindowKey event.hostId ip) = some (sshCounted st event members) ∨
        w'.redis.window (sshWindowKey event.hostId ip) = some []) := by
  obtain ⟨r', hexec, hwindow', -⟩ := Redis.exec_countPipeline hwindow (uuidStr event.eventId)
    event.occurredAt (event.occurredAt - st.sshBruteforceWindowSec) (sshCooldownSec_pos st)
  have hpipeline : (World.pipeline [
      Redis.unit (Redis.zremrangebyscore (sshWindowKey event.hostId ip) 0
        (event.occurredAt - st.sshBruteforceWindowSec)),
      Redis.unit (Redis.zadd (sshWindowKey event.hostId ip) (uuidStr event.eventId)
        event.occurredAt),
      Redis.zcard (sshWindowKey event.hostId ip),
      Redis.unit (Redis.expire (sshWindowKey event.hostId ip) (sshCooldownSec st))]).exec w =
        (.ok [0, 0, (sshCounted st event members).length, 0],
          { w.next with redis := r' }.elapse w.nextReply.reply) := by
    rw [World.pipeline, World.exec_reach hserved, hexec]
    rfl
  refine ⟨{ w.next with redis := r' }.elapse w.nextReply.reply, ?_, rfl, ?_⟩
  · exact Script.exec_bind_ok (Script.exec_attempt_ok _ hpipeline) _
  · -- the window can expire before the reply is there
    refine Redis.window_later (r := r') rfl ?_ hwindow'
    show r'.now ≤ r'.now + _
    omega

/-- A cooldown is granted or not; no other key changes. -/
theorem exec_takeCooldown (key : Str) {seconds : Int} (hserved : ∀ a ∈ w.answers, a.error = none)
    (hpos : 0 < seconds) :
    ∃ fired w', (takeCooldown key seconds).exec w = (.ok fired, w') ∧
      w.redis.now ≤ w'.redis.now ∧
      ∀ other, other ≠ key → w'.redis.entries other = w.redis.entries other := by
  have hnow : w.redis.now ≤ (w.next.elapse w.nextReply.reply).redis.now := by
    show w.redis.now ≤ w.redis.now + _ + _
    omega
  have hcommand : (World.command (setCooldown key seconds)).exec w =
      (((setCooldown key seconds).exec w.next.redis).1,
        { w.next with redis := ((setCooldown key seconds).exec w.next.redis).2 }.elapse
          w.nextReply.reply) := World.exec_reach hserved
  rw [exec_setCooldown, if_neg (not_le.mpr hpos)] at hcommand
  by_cases hfree : (w.next.redis.find key).isSome = true
  · rw [if_pos hfree] at hcommand
    refine ⟨false, { w.next.elapse w.nextReply.reply with grantedAt := none }, ?_, hnow,
      fun _ _ => rfl⟩
    exact Script.exec_bind_ok (Script.exec_attempt_ok _ hcommand) _
  · rw [if_neg hfree] at hcommand
    let held := w.next.redis.put key
      (some ⟨.text "1".toList, some (w.next.redis.now + seconds * second)⟩)
    refine ⟨true, { { w.next with redis := held }.elapse w.nextReply.reply with
      grantedAt := some w.next.redis.now }, ?_, hnow,
      fun other hother => Function.update_of_ne hother _ _⟩
    exact Script.exec_bind_ok (Script.exec_attempt_ok _ hcommand) _

theorem sshWindowKey_ne_cooldown : sshWindowKey host ip ≠ sshCooldownKey host ip := by
  intro heq
  have hlength := congrArg List.length heq
  unfold sshCooldownKey at hlength
  simp at hlength

/-- A call counts what the trim has left and the event; it fires only if that reaches the
threshold, and the window it leaves is what was counted, unless that has expired. -/
theorem exec_sshOnEvent {n : Notice} {members : List (Str × Int)}
    (hnext : NextFailure txt host ip n)
    (hwindow : w.redis.window (sshWindowKey host ip) = some members) :
    ∃ left results w', (left = members ∨ left = []) ∧
      (sshOnEvent txt st n.event).exec (w.called n) = (.ok results, w') ∧
      (results ≠ [] → st.sshBruteforceThreshold ≤ (sshCounted st n.event left).length) ∧
      (w'.redis.window (sshWindowKey host ip) = some (sshCounted st n.event left) ∨
        w'.redis.window (sshWindowKey host ip) = some []) := by
  obtain rfl := hnext.host
  have hsame : (w.called n).next.redis.entries (sshWindowKey n.event.hostId ip) =
      w.redis.entries (sshWindowKey n.event.hostId ip) := rfl
  have hnow : w.redis.now ≤ (w.called n).next.redis.now := by
    show w.redis.now ≤ w.redis.now + _ + _
    omega
  obtain ⟨left, hleft, hwindow⟩ : ∃ left, (left = members ∨ left = []) ∧
      (w.called n).next.redis.window (sshWindowKey n.event.hostId ip) = some left := by
    obtain h | h := Redis.window_later hsame hnow hwindow
    · exact ⟨members, Or.inl rfl, h⟩
    · exact ⟨[], Or.inr rfl, h⟩
  have hserved : ∀ a ∈ (w.called n).answers, a.error = none := hnext.served
  obtain ⟨w₁, hcount, hanswers, hwindow₁⟩ := exec_sshCount st hserved hwindow
  have hexec : (sshOnEvent txt st n.event).exec (w.called n) =
      (sshFire st n.event ip (some (sshCounted st n.event left).length)).exec w₁ := by
    unfold sshOnEvent
    rw [hnext.failed, hnext.source]
    cases ip with
    | nil => exact absurd rfl hnext.known
    | cons c ip => exact Script.exec_bind_ok hcount _
  by_cases hfew : ((sshCounted st n.event left).length : Int) < st.sshBruteforceThreshold
  · refine ⟨left, [], w₁, hleft, ?_, nofun, hwindow₁⟩
    rw [hexec, sshFire, if_pos hfew]
    rfl
  · have hserved₁ : ∀ a ∈ w₁.answers, a.error = none := by
      intro a ha
      rw [hanswers] at ha
      exact hserved a (List.mem_of_mem_tail ha)
    obtain ⟨fired, w₂, htake, hnow₂, hentries⟩ :=
      exec_takeCooldown (sshCooldownKey n.event.hostId ip) hserved₁ (sshCooldownSec_pos st)
    refine ⟨left,
      if fired then [sshResult st n.event ip (sshCounted st n.event left).length] else [],
      w₂, hleft, ?_, fun _ => not_lt.mp hfew, ?_⟩
    · rw [hexec, sshFire, if_neg hfew, Script.exec_bind_ok htake]
      rfl
    · have hsame₂ := hentries _ sshWindowKey_ne_cooldown
      rcases hwindow₁ with hcounted | hgone
      · exact Redis.window_later hsame₂ hnow₂ hcounted
      · exact Or.inr (or_self_iff.mp (Redis.window_later hsame₂ hnow₂ hgone))

/-! ### Runs -/

/-- Every member of the window is a failed login that was heard, under its id and time. -/
structure SshInv (host : Uuid) (ip : Str) (s : Listener) : Prop where
  window : ∃ members, s.world.redis.window (sshWindowKey host ip) = some members ∧
    (members.map Prod.fst).Nodup ∧
    ∀ m ∈ members, ∃ h ∈ s.log, m = (uuidStr h.event.eventId, h.event.occurredAt)

theorem sshCounted_nodup {members : List (Str × Int)} (h : (members.map Prod.fst).Nodup) :
    ((sshCounted st event members).map Prod.fst).Nodup := by
  unfold sshCounted
  rw [List.map_cons, List.nodup_cons]
  refine ⟨?_, ?_⟩
  · intro hmem
    obtain ⟨m, hm, hid⟩ := List.mem_map.mp hmem
    have hother := (List.mem_filter.mp hm).2
    rw [hid] at hother
    simp at hother
  · refine h.sublist (List.Sublist.map _ ?_)
    exact List.filter_sublist.trans List.filter_sublist

theorem mem_sshCounted {members : List (Str × Int)} {m : Str × Int}
    (h : m ∈ sshCounted st event members) :
    m = (uuidStr event.eventId, event.occurredAt) ∨ m ∈ members := by
  rcases List.mem_cons.mp h with h | h
  · exact Or.inl h
  · exact Or.inr (List.mem_of_mem_filter (List.mem_of_mem_filter h))

/-- What lies less than the window's length apart lies in one interval of that length. -/
theorem failures_of_together {log : List Heard} {counted : List (Str × Int)} {length : Int}
    (hnodup : (counted.map Prod.fst).Nodup)
    (hheard : ∀ m ∈ counted, ∃ h ∈ log, m = (uuidStr h.event.eventId, h.event.occurredAt))
    (htogether : ∀ a ∈ counted, ∀ b ∈ counted, a.2 < b.2 + length) :
    ∃ low, counted.length ≤ (failuresIn log low (low + length * 1000000)).card := by
  cases hcounted : counted with
  | nil => exact ⟨0, Nat.zero_le _⟩
  | cons first rest =>
    rw [← hcounted]
    -- the interval begins with the oldest of them
    obtain ⟨oldest, holdest, hmin⟩ := counted.toFinset.exists_min_image Prod.snd
      ⟨first, by rw [hcounted, List.mem_toFinset]; exact List.mem_cons_self⟩
    rw [List.mem_toFinset] at holdest
    refine ⟨oldest.2 * 1000000, ?_⟩
    have hsub : (counted.map Prod.fst).toFinset ⊆ (failuresIn log (oldest.2 * 1000000)
        (oldest.2 * 1000000 + length * 1000000)).image uuidStr := by
      intro id hid
      obtain ⟨m, hm, rfl⟩ := List.mem_map.mp (List.mem_toFinset.mp hid)
      obtain ⟨h, hlog, rfl⟩ := hheard m hm
      have hlow : oldest.2 ≤ h.event.occurredAt := hmin _ (List.mem_toFinset.mpr hm)
      have hhigh : h.event.occurredAt < oldest.2 + length := htogether _ hm oldest holdest
      have hmicros := h.micros_lt
      refine Finset.mem_image_of_mem _ (List.mem_toFinset.mpr (List.mem_map_of_mem ?_))
      refine List.mem_filter.mpr ⟨hlog, decide_eq_true ?_⟩
      unfold Notice.time
      omega
    calc counted.length = (counted.map Prod.fst).toFinset.card := by
          rw [List.toFinset_card_of_nodup hnodup, List.length_map]
      _ ≤ _ := Finset.card_le_card hsub
      _ ≤ _ := Finset.card_image_le

theorem hear_ssh {s u : Listener} {n : Notice} (hs : SshInv host ip s)
    (hnext : NextFailure txt host ip n) (htogether : Together st host ip s n)
    (hjustified : FiresJustified st s.log) (hu : s.hear (sshOnEvent txt st) n = some u) :
    SshInv host ip u ∧ FiresJustified st u.log := by
  obtain ⟨members, hwindow, hnodup, hheard⟩ := hs.window
  obtain ⟨left, results, w, hleft, hexec, hfires, hafter⟩ := exec_sshOnEvent hnext hwindow
  rw [hear_eq hexec hu]
  unfold Together at htogether
  rw [hwindow] at htogether
  have hleft_sub : left.Sublist members := by
    rcases hleft with rfl | rfl
    · exact List.Sublist.refl _
    · exact List.nil_sublist _
  have hcounted_nodup : ((sshCounted st n.event left).map Prod.fst).Nodup :=
    sshCounted_nodup (hnodup.sublist (hleft_sub.map _))
  have hcounted_heard : ∀ m ∈ sshCounted st n.event left, ∃ h ∈ (⟨n, results⟩ : Heard) :: s.log,
      m = (uuidStr h.event.eventId, h.event.occurredAt) := by
    intro m hm
    rcases mem_sshCounted hm with rfl | hm
    · exact ⟨_, List.mem_cons_self, rfl⟩
    · obtain ⟨h, hlog, hmh⟩ := hheard m (hleft_sub.subset hm)
      exact ⟨h, List.mem_cons_of_mem _ hlog, hmh⟩
  constructor
  · rcases hafter with hafter | hafter
    · exact ⟨_, hafter, hcounted_nodup, hcounted_heard⟩
    · exact ⟨[], hafter, List.nodup_nil, nofun⟩
  · refine ⟨?_, hjustified⟩
    intro hfired
    have hclose : ∀ a ∈ sshCounted st n.event left, ∀ b ∈ sshCounted st n.event left,
        a.2 < b.2 + st.sshBruteforceWindowSec := by
      rcases hleft with rfl | rfl
      · exact htogether (hfires hfired)
      · have hpos := st.window_bounds.1
        intro a ha b hb
        rw [List.mem_singleton.mp ha, List.mem_singleton.mp hb]
        omega
    obtain ⟨low, hlow⟩ := failures_of_together hcounted_nodup hcounted_heard hclose
    refine ⟨low, ?_⟩
    have := hfires hfired
    omega

/-- In every run on the failed logins of one host and address, in any order: if what reaches the
threshold always lies less than the window's length apart, every fire has as many failed logins as
the threshold says within one interval of that length. -/
theorem fires_justified (txt : TextOps) (st : DetectorSettings) (host : Uuid) (ip : Str) (w : World)
    (hempty : w.redis.window (sshWindowKey host ip) = some []) (calls : List Notice) (s : Listener)
    (h : Run (Listener.hear (sshOnEvent txt st))
      (fun s n => NextFailure txt host ip n ∧ Together st host ip s n) (Listener.start w) calls s) :
    FiresJustified st s.log := by
  have hstart : SshInv host ip (Listener.start w) ∧ FiresJustified st (Listener.start w).log :=
    ⟨⟨[], hempty, List.nodup_nil, nofun⟩, trivial⟩
  exact (h.invariant (I := fun s => SshInv host ip s ∧ FiresJustified st s.log) hstart
    fun t n u ht hok hu => hear_ssh ht.1 hok.1 hok.2 ht.2 hu).2

/-- Events that come in order, none before 1970, meet the condition: nothing in the window is newer
than the event, and the trim leaves nothing older than the window. -/
theorem together_of_inOrder {s : Listener} {n : Notice} (hs : SshInv host ip s)
    (hepoch : ∀ h ∈ s.log, 0 ≤ h.event.occurredAt)
    (horder : ∀ h ∈ s.log, h.event.occurredAt ≤ n.event.occurredAt) :
    Together st host ip s n := by
  obtain ⟨members, hwindow, -, hheard⟩ := hs.window
  unfold Together
  rw [hwindow]
  have hpos := st.window_bounds.1
  have hbounds : ∀ m ∈ sshCounted st n.event members,
      n.event.occurredAt - st.sshBruteforceWindowSec < m.2 ∧ m.2 ≤ n.event.occurredAt := by
    intro m hm
    rcases List.mem_cons.mp hm with rfl | hm
    · constructor
      · show n.event.occurredAt - _ < n.event.occurredAt
        omega
      · exact le_refl _
    · obtain ⟨hmem, hkept⟩ := List.mem_filter.mp (List.mem_of_mem_filter hm)
      obtain ⟨h, hlog, rfl⟩ := hheard m hmem
      have hlow := hepoch h hlog
      have hhigh := horder h hlog
      have hout : h.event.occurredAt < 0 ∨
          n.event.occurredAt - st.sshBruteforceWindowSec < h.event.occurredAt := by
        simpa using hkept
      show _ < h.event.occurredAt ∧ h.event.occurredAt ≤ _
      omega
  intro counted _ a ha b hb
  have := hbounds a ha
  have := hbounds b hb
  omega

/-- Runs on failed logins in order, none before 1970, fire as the threshold says. -/
theorem in_order_justified (txt : TextOps) (st : DetectorSettings) (host : Uuid) (ip : Str)
    (w : World) (hempty : w.redis.window (sshWindowKey host ip) = some []) (calls : List Notice)
    (s : Listener)
    (h : Run (Listener.hear (sshOnEvent txt st))
      (fun s n => NextFailure txt host ip n ∧ 0 ≤ n.event.occurredAt ∧
        ∀ h ∈ s.log, h.event.occurredAt ≤ n.event.occurredAt) (Listener.start w) calls s) :
    FiresJustified st s.log := by
  have hstart : SshInv host ip (Listener.start w) ∧ FiresJustified st (Listener.start w).log ∧
      ∀ h ∈ (Listener.start w).log, 0 ≤ h.event.occurredAt :=
    ⟨⟨[], hempty, List.nodup_nil, nofun⟩, trivial, nofun⟩
  refine (h.invariant (I := fun s => SshInv host ip s ∧ FiresJustified st s.log ∧
    ∀ h ∈ s.log, 0 ≤ h.event.occurredAt) hstart ?_).2.1
  intro t n u ⟨hinv, hjustified, hepoch⟩ ⟨hnext, hn, horder⟩ hu
  have hstep := hear_ssh hinv hnext (together_of_inOrder hinv hepoch horder) hjustified hu
  refine ⟨hstep.1, hstep.2, ?_⟩
  cases hu
  exact List.forall_mem_cons.mpr ⟨hn, hepoch⟩

end Ssh

/-- Five failed logins, the oldest heard last, 100 seconds apart. -/
def failure (id : Nat) (time : Nat) : Notice where
  event := ⟨BitVec.ofNat 128 id, 0, [], [], [("source_ip".toList, "203.0.113.7".toList),
    ("status".toList, "failed".toList)], time⟩
  micros := 0
  wait := 0
  answers := []
  micros_lt := by decide
  micros_eq _ := rfl

def lateFailures : List Notice :=
  [failure 1 400, failure 2 300, failure 3 200, failure 4 100, failure 5 0]

instance (txt : TextOps) (host : Uuid) (ip : Str) (n : Notice) :
    Decidable (NextFailure txt host ip n) :=
  decidable_of_iff (n.event.hostId = host ∧ isFailedLogin txt n.event = true ∧
      sshSourceIp txt n.event = some ip ∧ ip ≠ [] ∧ n.Served)
    ⟨fun ⟨a, b, c, d, e⟩ => ⟨a, b, c, d, e⟩, fun ⟨a, b, c, d, e⟩ => ⟨a, b, c, d, e⟩⟩

instance (st : DetectorSettings) (host : Uuid) (ip : Str) (s : Listener) (n : Notice) :
    Decidable (Together st host ip s n) :=
  inferInstanceAs (Decidable (_ → _))

/-- Failed logins of which no two are within the length are one at most in every interval. -/
theorem failuresIn_card_le_one {log : List Heard} {length : Int}
    (h : ∀ a ∈ log, ∀ b ∈ log, a.time ≤ b.time + length → b.time ≤ a.time + length →
      a.event.eventId = b.event.eventId) (low : Int) :
    (failuresIn log low (low + length + 1)).card ≤ 1 := by
  rw [Finset.card_le_one]
  intro a ha b hb
  obtain ⟨x, hx, rfl⟩ := List.mem_map.mp (List.mem_toFinset.mp ha)
  obtain ⟨y, hy, rfl⟩ := List.mem_map.mp (List.mem_toFinset.mp hb)
  obtain ⟨hxlog, hxin⟩ := List.mem_filter.mp hx
  obtain ⟨hylog, hyin⟩ := List.mem_filter.mp hy
  have hx' := of_decide_eq_true hxin
  have hy' := of_decide_eq_true hyin
  apply h x hxlog y hylog
  · omega
  · omega

/-- The fifth is the oldest and fires, while every interval of a minute, its ends included, has one
of them at most. -/
theorem late_failures_fire :
    ∃ s, Run (Listener.hear (sshOnEvent requestOps defaultSettings))
        (fun _ n => NextFailure requestOps 0 "203.0.113.7".toList n) (Listener.start quietWorld)
        lateFailures s ∧
      (∃ h ∈ s.log, h.results ≠ []) ∧
      ∀ low, (failuresIn s.log low
        (low + defaultSettings.sshBruteforceWindowSec * 1000000 + 1)).card <
          defaultSettings.sshBruteforceThreshold := by
  have hcheck : ∃ s, Run (Listener.hear (sshOnEvent requestOps defaultSettings))
        (fun _ n => NextFailure requestOps 0 "203.0.113.7".toList n) (Listener.start quietWorld)
        lateFailures s ∧
      decide ((∃ h ∈ s.log, h.results ≠ []) ∧ ∀ a ∈ s.log, ∀ b ∈ s.log,
        a.time ≤ b.time + 60 * 1000000 → b.time ≤ a.time + 60 * 1000000 →
          a.event.eventId = b.event.eventId) = true := run_of_guarded_check (by decide +kernel)
  obtain ⟨s, hrun, hs⟩ := hcheck
  obtain ⟨hfired, hfar⟩ := of_decide_eq_true hs
  refine ⟨s, hrun, hfired, fun low => ?_⟩
  have hone := failuresIn_card_le_one hfar low
  show ((failuresIn s.log low (low + 60 * 1000000 + 1)).card : Int) < 5
  omega

/-- Five failed logins within a minute, not in order, and the run fires. -/
theorem close_failures_justified :
    ∃ s, Run (Listener.hear (sshOnEvent requestOps defaultSettings))
        (fun s n => NextFailure requestOps 0 "203.0.113.7".toList n ∧
          Together defaultSettings 0 "203.0.113.7".toList s n) (Listener.start quietWorld)
        [failure 1 140, failure 2 100, failure 3 130, failure 4 110, failure 5 120] s ∧
      (∃ h ∈ s.log, h.results ≠ []) ∧ FiresJustified defaultSettings s.log := by
  have hcheck : ∃ s, Run (Listener.hear (sshOnEvent requestOps defaultSettings))
        (fun s n => NextFailure requestOps 0 "203.0.113.7".toList n ∧
          Together defaultSettings 0 "203.0.113.7".toList s n) (Listener.start quietWorld)
        [failure 1 140, failure 2 100, failure 3 130, failure 4 110, failure 5 120] s ∧
      decide (∃ h ∈ s.log, h.results ≠ []) = true := run_of_guarded_check (by decide +kernel)
  obtain ⟨s, hrun, hs⟩ := hcheck
  exact ⟨s, hrun, of_decide_eq_true hs,
    fires_justified requestOps defaultSettings 0 _ quietWorld rfl _ s hrun⟩

end ZaqorinCore.Server
