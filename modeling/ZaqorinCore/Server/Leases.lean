import ZaqorinCore.Server.Detectors

/-!
# Cooldowns of the built-in detectors

A cooldown that Redis has granted is a lease: a text at a key that no command of a detector removes
before its time. While it lasts `SET NX` is refused, so that of two alerts with the same host,
detector and dedup key whose cooldowns were granted the keys were set a cooldown apart:
`alerts_apart`. The lease runs from the `SET`, not from the result that the detector returns when
the reply is there. When the call fails the detector fires on purpose, whatever lease there is.
-/

namespace ZaqorinCore.Server

open Text Base Script

/-! ## Leases -/

/-- The texts at these keys last until these times. -/
def Leased (L : Str → Int → Prop) (r : Redis) : Prop :=
  ∀ key x, L key x → r.now < x →
    ∃ value y, r.entries key = some ⟨.text value, some y⟩ ∧ x ≤ y

/-- The lease of one key. -/
def Lease (key : Str) (x : Int) : Str → Int → Prop := fun key' x' => key' = key ∧ x' = x

section Lease

variable {L : Str → Int → Prop} {r r' : Redis} {key : Str} {n : Int}

theorem Leased.find (h : Leased L r) {x : Int} (hL : L key x) (hx : r.now < x) :
    ∃ value y, r.find key = some ⟨.text value, some y⟩ ∧ x ≤ y := by
  obtain ⟨value, y, hentry, hy⟩ := h key x hL hx
  refine ⟨value, y, ?_, hy⟩
  apply Option.filter_eq_some_iff.mpr
  refine ⟨hentry, ?_⟩
  have : r.now < y := by omega
  simpa using this

theorem Leased.of_keepsTexts (h : Leased L r) (hkeeps : KeepsTexts r r') : Leased L r' := by
  intro key x hL hx
  rw [hkeeps.now] at hx
  obtain ⟨value, y, hfind, hy⟩ := h.find hL hx
  obtain ⟨value', y', hentry, hy'⟩ := hkeeps.texts key value y hfind
  exact ⟨value', y', hentry, by omega⟩

/-- Time only ends leases. -/
theorem Leased.later (h : Leased L r) {t : Int} (ht : r.now ≤ t) :
    Leased L { r with now := t } := by
  intro key x hL hx
  exact h key x hL (by simp only at hx; omega)

/-- A key without a lease that lasts can change. -/
theorem Leased.put (h : Leased L r) {e : Option RedisEntry} (hfree : ∀ x, L key x → x ≤ r.now) :
    Leased L (r.put key e) := by
  intro other x hL hx
  have hne : other ≠ key := by
    intro heq
    subst heq
    have := hfree x hL
    have : r.now < x := hx
    omega
  obtain ⟨value, y, hentry, hy⟩ := h other x hL hx
  exact ⟨value, y, (Function.update_of_ne hne _ _).trans hentry, hy⟩

/-- `EXPIRE` can lengthen a lease. -/
theorem Leased.expire (h : Leased L r) {seconds : Int} (hpos : 0 < seconds)
    (hbound : ∀ x, L key x → x ≤ r.now + seconds * second) :
    Leased L ((Redis.expire key seconds).exec r).2 := by
  cases hfind : r.find key with
  | none =>
    have hexec : (Redis.expire key seconds).exec r = (.ok (), r) := by
      rw [Redis.expire, exec_modify, hfind]
    rw [hexec]
    exact h
  | some e =>
    rw [Redis.exec_expire hfind hpos]
    intro other x hL hx
    by_cases hkey : other = key
    · subst hkey
      obtain ⟨value, y, hfind', hy⟩ := h.find hL hx
      obtain rfl : e = ⟨.text value, some y⟩ := Option.some.inj (hfind.symm.trans hfind')
      exact ⟨value, _, Function.update_self _ _ _, hbound x hL⟩
    · obtain ⟨value, y, hentry, hy⟩ := h other x hL hx
      exact ⟨value, y, (Function.update_of_ne hkey _ _).trans hentry, hy⟩

theorem leased_put_text {value : Str} {x : Int} :
    Leased (Lease key x) (r.put key (some ⟨.text value, some x⟩)) := by
  intro other y hL _
  obtain ⟨rfl, rfl⟩ := hL
  exact ⟨value, y, Function.update_self _ _ _, le_refl _⟩

/-! ## Commands -/

/-- The leases at a time that is not before `n`. -/
def Kept (n : Int) (L : Str → Int → Prop) (r : Redis) : Prop := n ≤ r.now ∧ Leased L r

/-- A script over Redis that keeps the leases, whether it raises or not. -/
def Keeps {α : Type} (n : Int) (L : Str → Int → Prop) (m : Py Redis α) : Prop :=
  Triple (Kept n L) m (fun _ => Kept n L) fun _ => Kept n L

variable {α β : Type}

theorem keeps_of_state {m : Py Redis α} (h : ∀ r, Kept n L r → Kept n L (m.exec r).2) :
    Keeps n L m := by
  intro r hr
  have hstate := h r hr
  cases hexec : m.exec r with
  | mk result t =>
    rw [hexec] at hstate
    cases result with
    | ok a => exact hstate
    | error e => exact hstate

theorem keeps_of_texts {m : Py Redis α} (h : ∀ r, KeepsTexts r (m.exec r).2) : Keeps n L m := by
  apply keeps_of_state
  intro r hr
  refine ⟨?_, hr.2.of_keepsTexts (h r)⟩
  rw [(h r).now]
  exact hr.1

theorem keeps_pure (a : α) : Keeps n L (pure a) := fun _ h => h

theorem Keeps.bind {m : Py Redis α} {f : α → Py Redis β} (hm : Keeps n L m)
    (hf : ∀ a, Keeps n L (f a)) : Keeps n L (m >>= f) :=
  Triple.bind hm hf

theorem Keeps.then_pure {m : Py Redis α} (hm : Keeps n L m) (b : β) : Keeps n L (m *> pure b) := by
  rw [seqRight_eq_bind]
  exact hm.bind fun _ => keeps_pure b

theorem keeps_sortedAt (key : Str) : Keeps n L (Redis.sortedAt key) := by
  apply keeps_of_texts
  intro r
  have hstate : ((Redis.sortedAt key).exec r).2 = r := by
    cases hwindow : r.window key with
    | none => rw [Redis.exec_sortedAt_text hwindow]
    | some members => rw [Redis.exec_sortedAt hwindow]
  rw [hstate]
  exact KeepsTexts.refl r

theorem keeps_zcard (key : Str) : Keeps n L (Redis.zcard key) :=
  (keeps_sortedAt key).bind fun _ => keeps_pure _

theorem keeps_sismember (key member : Str) : Keeps n L (Redis.sismember key member) :=
  (keeps_sortedAt key).bind fun _ => keeps_pure _

theorem keeps_zrem (key : Str) (low high : Int) : Keeps n L (Redis.zremrangebyscore key low high) :=
  keeps_of_texts fun r => KeepsTexts.zrem r key low high

theorem keeps_zadd (key member : Str) (score : Int) : Keeps n L (Redis.zadd key member score) :=
  keeps_of_texts fun r => KeepsTexts.zadd r key member score

theorem keeps_expire {seconds : Int} (hpos : 0 < seconds)
    (hbound : ∀ x, L key x → x ≤ n + seconds * second) : Keeps n L (Redis.expire key seconds) := by
  apply keeps_of_state
  intro r hr
  refine ⟨?_, hr.2.expire hpos fun x hx => ?_⟩
  · have hnow : ((Redis.expire key seconds).exec r).2.now = r.now := by
      rw [Redis.expire, exec_modify]
      dsimp only
      split
      · rfl
      · split <;> rfl
    rw [hnow]
    exact hr.1
  · have := hbound x hx
    have := hr.1
    omega

theorem exec_setNxEx (r : Redis) (key value : Str) (seconds : Int) :
    (Redis.setNxEx key value seconds).exec r =
      if seconds ≤ 0 then (.error (.responseError "invalid expire time in 'set' command"), r)
      else if (r.find key).isSome then (.ok false, r)
      else (.ok true, r.put key (some ⟨.text value, some (r.now + seconds * second)⟩)) := by
  unfold Redis.setNxEx
  by_cases hpos : seconds ≤ 0
  · rw [if_pos hpos, if_pos hpos]
    rfl
  · rw [if_neg hpos, if_neg hpos]
    by_cases hfind : (r.find key).isSome = true
    · rw [if_pos hfind]
      refine (exec_bind_ok (exec_get r) _).trans ?_
      rw [if_pos hfind]
      rfl
    · rw [if_neg hfind]
      refine (exec_bind_ok (exec_get r) _).trans ?_
      rw [if_neg hfind]
      rfl

/-- The key was set at the time, when every earlier lease of it had ended, and it has one since. -/
def SetAt (L : Str → Int → Prop) (key : Str) (seconds time : Int) (r : Redis) : Prop :=
  time ≤ r.now ∧ (∀ x, L key x → x ≤ time) ∧ Leased (Lease key (time + seconds * second)) r

theorem SetAt.later {seconds time t : Int} (h : SetAt L key seconds time r) (ht : r.now ≤ t) :
    SetAt L key seconds time { r with now := t } :=
  ⟨h.1.trans ht, h.2.1, h.2.2.later ht⟩

theorem exec_setCooldown (r : Redis) (key : Str) (seconds : Int) :
    (setCooldown key seconds).exec r =
      if seconds ≤ 0 then (.error (.responseError "invalid expire time in 'set' command"), r)
      else if (r.find key).isSome then (.ok (false, r.now), r)
      else (.ok (true, r.now),
        r.put key (some ⟨.text "1".toList, some (r.now + seconds * second)⟩)) := by
  unfold setCooldown
  rw [exec_bind, exec_setNxEx]
  by_cases hpos : seconds ≤ 0
  · rw [if_pos hpos, if_pos hpos]
  · rw [if_neg hpos, if_neg hpos]
    by_cases hfind : (r.find key).isSome = true
    · rw [if_pos hfind, if_pos hfind]
      rfl
    · rw [if_neg hfind, if_neg hfind]
      rfl

/-- A key that is set was free. -/
theorem setCooldown_kept (key : Str) (seconds : Int) :
    Triple (Kept n L) (setCooldown key seconds)
      (fun reply r => Kept n L r ∧ (reply.1 = true → SetAt L key seconds reply.2 r))
      fun _ => Kept n L := by
  intro r hr
  rw [exec_setCooldown]
  split
  · exact hr
  · split
    · exact ⟨hr, nofun⟩
    · rename_i hfind
      have hfree : ∀ x, L key x → x ≤ r.now := by
        intro x hL
        by_contra hx
        obtain ⟨v, y, hsome, _⟩ := hr.2.find hL (by omega)
        rw [hsome] at hfind
        exact hfind rfl
      exact ⟨⟨hr.1, hr.2.put hfree⟩, fun _ => ⟨le_refl _, hfree, leased_put_text⟩⟩

theorem keeps_runCommands {commands : List (Py Redis Nat)} (h : ∀ c ∈ commands, Keeps n L c) :
    Keeps n L (Redis.runCommands commands) := by
  induction commands with
  | nil => exact keeps_pure _
  | cons command commands ih =>
    have hfirst : Keeps n L command := h command List.mem_cons_self
    have hrest := ih fun c hc => h c (List.mem_cons_of_mem _ hc)
    refine Triple.bind (Triple.attempt_same hfirst) ?_
    intro reply
    exact hrest.bind fun _ => keeps_pure _

theorem keeps_runPipeline {commands : List (Py Redis Nat)} (h : ∀ c ∈ commands, Keeps n L c) :
    Keeps n L (Redis.runPipeline commands) := by
  refine (keeps_runCommands h).bind ?_
  intro replies
  exact Triple.lift (fun _ _ _ hs => hs) fun _ _ _ hs => hs

end Lease

/-! ## Calls -/

/-- The leases are kept and no row is written. -/
def Calm (n : Int) (L : Str → Int → Prop) (al : List AlertRow) (ac : List ActionRow) (w : World) :
    Prop :=
  Kept n L w.redis ∧ w.alerts = al ∧ w.actions = ac

section Calls

variable {n : Int} {L : Str → Int → Prop} {al : List AlertRow} {ac : List ActionRow} {α β : Type}

/-- A script that keeps what is known, whether it raises or not. -/
def Calms (n : Int) (L : Str → Int → Prop) (al : List AlertRow) (ac : List ActionRow)
    (m : Py World α) (B : α → World → Prop) : Prop :=
  Triple (Calm n L al ac) m (fun a w => Calm n L al ac w ∧ B a w) fun _ => Calm n L al ac

theorem calms_pure {a : α} {B : α → World → Prop} (h : ∀ w, B a w) :
    Calms n L al ac (pure a) B :=
  fun w hw => ⟨hw, h w⟩

theorem Calms.bind {m : Py World α} {f : α → Py World β} {A : α → World → Prop}
    {B : β → World → Prop} (hm : Calms n L al ac m A) (hf : ∀ a, Calms n L al ac (f a) B) :
    Calms n L al ac (m >>= f) B :=
  Triple.bind hm fun a => (hf a).pre fun _ h => h.1

theorem Calm.elapse {w : World} (h : Calm n L al ac w) (time : Nat) :
    Calm n L al ac (w.elapse time) := by
  refine ⟨⟨?_, h.1.2.later ?_⟩, h.2⟩
  · have := h.1.1
    show n ≤ w.redis.now + _
    omega
  · omega

theorem nextAnswer_calm : Calms n L al ac World.nextAnswer fun _ _ => True :=
  fun _ hw => ⟨hw.elapse _, trivial⟩

theorem World.exec_answered (reply : Nat) (m : Py World α) (w : World) :
    (World.answered reply m).exec w = ((m.exec w).1, (m.exec w).2.elapse reply) := by
  unfold World.answered
  rw [exec_bind, exec_attempt]
  cases m.exec w with
  | mk result t => cases result <;> rfl

/-- The time until the reply is there changes nothing of what lasts. -/
theorem answered_triple {P : World → Prop} {Q : α → World → Prop} {E : PyError → World → Prop}
    {m : Py World α} (reply : Nat) (h : Triple P m Q E)
    (hQ : ∀ a w, Q a w → Q a (w.elapse reply)) (hE : ∀ e w, E e w → E e (w.elapse reply)) :
    Triple P (World.answered reply m) Q E := by
  intro w hw
  have hout := h w hw
  rw [World.exec_answered]
  cases hm : m.exec w with
  | mk result t =>
    rw [hm] at hout
    cases result with
    | ok a => exact hQ a t hout
    | error e => exact hE e t hout

/-- A script over Redis writes no row. -/
theorem onRedis_frame {m : Py Redis α} {A : Redis → Prop} {B : α → Redis → Prop}
    {C : PyError → Redis → Prop} (h : Triple A m B C) :
    Triple (fun w => A w.redis ∧ w.alerts = al ∧ w.actions = ac) (World.onRedis m)
      (fun a w => B a w.redis ∧ w.alerts = al ∧ w.actions = ac)
      fun e w => C e w.redis ∧ w.alerts = al ∧ w.actions = ac :=
  Triple.zoom_frame World.redis (fun redis w => { w with redis })
    (fun w => w.alerts = al ∧ w.actions = ac) (fun _ _ => rfl) (fun _ _ hw => hw) h

theorem onRedis_calm {m : Py Redis α} {B : α → Redis → Prop}
    (h : Triple (Kept n L) m (fun a r => Kept n L r ∧ B a r) fun _ => Kept n L) :
    Calms n L al ac (World.onRedis m) fun a w => B a w.redis :=
  (onRedis_frame h).conseq (fun _ hw => hw) (fun _ _ hw => ⟨⟨hw.1.1, hw.2⟩, hw.1.2⟩)
    fun _ _ hw => hw

theorem reach_calm {full : Py Redis α} {part : Nat → Py Redis Unit} {B : α → Redis → Prop}
    (hfull : Triple (Kept n L) full (fun a r => Kept n L r ∧ B a r) fun _ => Kept n L)
    (hpart : ∀ k, Keeps n L (part k))
    (hlater : ∀ a r t, B a r → r.now ≤ t → B a { r with now := t }) :
    Calms n L al ac (World.reach full part) fun a w => B a w.redis := by
  unfold World.reach
  refine nextAnswer_calm.bind ?_
  intro answer
  refine answered_triple answer.reply ?_ (fun a w hw => ?_) fun _ w hw => hw.elapse _
  rotate_left
  · refine ⟨hw.1.elapse _, hlater a w.redis _ hw.2 ?_⟩
    omega
  cases answer.error with
  | none => exact onRedis_calm hfull
  | some e =>
    have hparts : Triple (Calm n L al ac) (World.onRedis (part answer.done))
        (fun _ => Calm n L al ac) fun _ => Calm n L al ac := onRedis_frame (hpart answer.done)
    exact Triple.bind (Triple.attempt_same hparts) fun _ _ hw => hw

theorem command_calm {m : Py Redis α} {B : α → Redis → Prop}
    (h : Triple (Kept n L) m (fun a r => Kept n L r ∧ B a r) fun _ => Kept n L)
    (hlater : ∀ a r t, B a r → r.now ≤ t → B a { r with now := t }) :
    Calms n L al ac (World.command m) fun a w => B a w.redis := by
  refine reach_calm h ?_ hlater
  intro k
  have hkeeps : Keeps n L m := h.conseq (fun _ hr => hr) (fun _ _ hr => hr.1) fun _ _ hr => hr
  split
  · exact keeps_pure _
  · exact hkeeps.then_pure _

theorem quiet_command {m : Py Redis α} (h : Keeps n L m) :
    Calms n L al ac (World.command m) fun _ _ => True :=
  command_calm (B := fun _ _ => True)
    (h.conseq (fun _ hr => hr) (fun _ _ hr => ⟨hr, trivial⟩) fun _ _ hr => hr)
    fun _ _ _ _ _ => trivial

theorem pipeline_calm {commands : List (Py Redis Nat)} (h : ∀ c ∈ commands, Keeps n L c) :
    Calms n L al ac (World.pipeline commands) fun _ _ => True := by
  refine reach_calm (B := fun _ _ => True) ?_ ?_ fun _ _ _ _ _ => trivial
  · exact (keeps_runPipeline h).conseq (fun _ hr => hr) (fun _ _ hr => ⟨hr, trivial⟩)
      fun _ _ hr => hr
  · intro k
    exact (keeps_runCommands fun c hc => h c (List.mem_of_mem_take hc)).then_pure _

theorem Calms.attempt {m : Py World α} {A : α → World → Prop} (h : Calms n L al ac m A) :
    Calms n L al ac (Server.attempt m) fun r w => ∀ a, r = .ok a → A a w := by
  refine (Triple.attempt h).conseq (fun _ hw => hw) ?_ fun _ _ hw => hw
  intro r w hw
  cases r with
  | ok a =>
    refine ⟨hw.1, ?_⟩
    intro a' ha'
    cases ha'
    exact hw.2
  | error e => exact ⟨hw, nofun⟩

/-- The key of a cooldown that Redis has granted was set at the time that is recorded. -/
def Granted (L : Str → Int → Prop) (key : Str) (seconds : Int) (w : World) : Prop :=
  ∀ time, w.grantedAt = some time → SetAt L key seconds time w.redis

theorem Granted.elapse {key : Str} {seconds : Int} {w : World} (h : Granted L key seconds w)
    (time : Nat) : Granted L key seconds (w.elapse time) := by
  intro granted hgranted
  refine (h granted hgranted).later ?_
  omega

theorem takeCooldown_calm (key : Str) (seconds : Int) :
    Calms n L al ac (takeCooldown key seconds) fun fired w =>
      fired = true → Granted L key seconds w := by
  have hset : Calms n L al ac (World.command (setCooldown key seconds)) fun reply w =>
      reply.1 = true → SetAt L key seconds reply.2 w.redis :=
    command_calm (setCooldown_kept key seconds) fun _ _ _ h ht hfired => (h hfired).later ht
  refine Triple.bind hset.attempt ?_
  intro reply
  cases reply with
  | ok reply =>
    obtain ⟨fired, time⟩ := reply
    intro w hw
    refine ⟨hw.1, ?_⟩
    rintro rfl granted hgranted
    cases hgranted
    exact hw.2 _ rfl rfl
  | error e =>
    intro w hw
    refine ⟨hw.1, ?_⟩
    intro _ granted hgranted
    cases hgranted

/-! ## Detectors -/

/-- The key of the cooldown of an alert. -/
def leaseKey (hostId : Uuid) (detector dedupKey : Str) : Str :=
  if detector = Builtin.sshBruteforce.name then sshCooldownKey hostId dedupKey
  else ruleKey "web_attack" hostId dedupKey

/-- The results of the two detectors that have a cooldown. -/
def Known (st : DetectorSettings) (detector : Str) (cooldownSec : Int) : Prop :=
  (detector = Builtin.sshBruteforce.name ∧ cooldownSec = sshCooldownSec st) ∨
    detector = Builtin.webAttack.name

/-- There is one result at most, and its cooldown has been granted or nothing is known of it. -/
def Emitted (st : DetectorSettings) (L : Str → Int → Prop) (hostId : Uuid)
    (rs : List DetectionResult) (w : World) : Prop :=
  rs = [] ∨ ∃ r, rs = [r] ∧ Known st r.detector r.cooldownSec ∧
    Granted L (leaseKey hostId r.detector r.dedupKey) r.cooldownSec w

/-- No lease is at a key that the detectors let expire, unless it ends before. -/
structure Unthreatened (st : DetectorSettings) (n : Int) (L : Str → Int → Prop) : Prop where
  ssh : ∀ hostId ip x, L (sshWindowKey hostId ip) x → x ≤ n + sshCooldownSec st * second
  auth : ∀ hostId user x, ¬ L (knownIpKey hostId user) x

variable {txt : TextOps} {st : DetectorSettings} {event : ParsedEvent}

theorem sshCooldownSec_pos (st : DetectorSettings) : 0 < sshCooldownSec st := by
  have := st.cooldown_bounds.1
  unfold sshCooldownSec
  omega

theorem calms_nothing : Calms n L al ac (pure []) (Emitted st L event.hostId) :=
  calms_pure fun _ => Or.inl rfl

theorem sshCount_calm (hL : Unthreatened st n L) (ip : Str) :
    Calms n L al ac (sshCount st event ip) fun _ _ => True := by
  have hcommands : ∀ c ∈ [
      Redis.unit (Redis.zremrangebyscore (sshWindowKey event.hostId ip) 0
        (event.occurredAt - st.sshBruteforceWindowSec)),
      Redis.unit (Redis.zadd (sshWindowKey event.hostId ip) (uuidStr event.eventId)
        event.occurredAt),
      Redis.zcard (sshWindowKey event.hostId ip),
      Redis.unit (Redis.expire (sshWindowKey event.hostId ip) (sshCooldownSec st))],
      Keeps n L c := by
    simp only [List.forall_mem_cons, List.not_mem_nil, false_implies, implies_true, and_true]
    refine ⟨?_, ?_, keeps_zcard _, ?_⟩
    · exact (keeps_zrem _ _ _).then_pure _
    · exact (keeps_zadd _ _ _).then_pure _
    · exact (keeps_expire (sshCooldownSec_pos st) (hL.ssh event.hostId ip)).then_pure _
  refine Calms.bind (pipeline_calm hcommands).attempt ?_
  intro replies
  cases replies with
  | ok replies => exact calms_pure fun _ => trivial
  | error e => exact calms_pure fun _ => trivial

theorem leaseKey_ssh (hostId : Uuid) (ip : Str) :
    leaseKey hostId Builtin.sshBruteforce.name ip = sshCooldownKey hostId ip := if_pos rfl

theorem leaseKey_web (hostId : Uuid) (ip tag : Str) :
    leaseKey hostId Builtin.webAttack.name (webDedupKey ip tag) = webCooldownKey hostId ip tag :=
  if_neg (by decide)

theorem sshFire_calm (ip : Str) (count : Option Nat) :
    Calms n L al ac (sshFire st event ip count) (Emitted st L event.hostId) := by
  cases count with
  | none => exact calms_nothing
  | some count =>
    unfold sshFire
    dsimp only
    split
    · exact calms_nothing
    · refine Triple.bind (takeCooldown_calm _ _) ?_
      intro fired w hw
      refine ⟨hw.1, ?_⟩
      cases fired with
      | false => exact Or.inl rfl
      | true =>
        refine Or.inr ⟨sshResult st event ip count, rfl, Or.inl ⟨rfl, rfl⟩, ?_⟩
        have hgranted := hw.2 rfl
        rw [← leaseKey_ssh] at hgranted
        exact hgranted

theorem sshOnEvent_calm (hL : Unthreatened st n L) :
    Calms n L al ac (sshOnEvent txt st event) (Emitted st L event.hostId) := by
  unfold sshOnEvent
  split
  · exact calms_nothing
  · split
    · exact calms_nothing
    · exact calms_nothing
    · exact (sshCount_calm hL _).bind fun count => sshFire_calm _ count

theorem webFire_calm (ip : Str) (matched tags : List Str) :
    Calms n L al ac (webFire event ip matched tags) (Emitted st L event.hostId) := by
  induction tags with
  | nil => exact calms_nothing
  | cons tag tags ih =>
    refine Triple.bind (takeCooldown_calm _ _) ?_
    intro acquired
    cases acquired with
    | false => exact ih.pre fun _ hw => hw.1
    | true =>
      intro w hw
      refine ⟨hw.1, Or.inr ⟨webResult event ip tag matched, rfl, Or.inr rfl, ?_⟩⟩
      have hgranted := hw.2 rfl
      rw [← leaseKey_web] at hgranted
      exact hgranted

theorem webOnEvent_calm :
    Calms n L al ac (webOnEvent txt event) (Emitted st L event.hostId) := by
  unfold webOnEvent
  split
  · exact calms_nothing
  · split
    · exact calms_nothing
    · exact calms_nothing
    · exact calms_nothing
    · exact webFire_calm _ _ _

/-- A script that only raises gives no result. -/
theorem resultsOf_calm {count : Py World α} {results : α → List DetectionResult}
    (h : Calms n L al ac count fun _ _ => False) :
    Calms n L al ac (resultsOf count results) (Emitted st L event.hostId) := by
  refine Triple.bind h.attempt ?_
  intro found
  cases found with
  | ok a => exact fun w hw => (hw.2 a rfl).elim
  | error e => exact calms_nothing.pre fun _ hw => hw.1

theorem countMs_raises (key : Str) (member : Int → Str) (windowSec : Int) :
    Calms n L al ac (countMs event key member windowSec) fun _ _ => False :=
  fun _ hw => hw

theorem portScanOnEvent_calm :
    Calms n L al ac (portScanOnEvent event) (Emitted st L event.hostId) := by
  unfold portScanOnEvent
  split
  · exact calms_nothing
  · split
    · exact calms_nothing
    · exact calms_nothing
    · exact calms_nothing
    · exact resultsOf_calm (countMs_raises _ _ _)

theorem dnsTunnelOnEvent_calm :
    Calms n L al ac (dnsTunnelOnEvent txt event) (Emitted st L event.hostId) := by
  unfold dnsTunnelOnEvent
  split
  · exact calms_nothing
  · split
    · exact calms_nothing
    · exact calms_nothing
    · exact calms_nothing
    · exact calms_nothing
    · split
      · exact calms_nothing
      · exact resultsOf_calm (countMs_raises _ _ _)

theorem authCount_raises (hL : Unthreatened st n L) (user ip : Str) :
    Calms n L al ac (authCount event user ip) fun _ _ => False := by
  have hfree : ∀ x, L (knownIpKey event.hostId user) x → x ≤ n + knownIpTtlSec * second :=
    fun x hx => (hL.auth event.hostId user x hx).elim
  refine (quiet_command (keeps_sismember _ _)).bind ?_
  intro seenBefore
  refine (quiet_command (keeps_zadd _ _ _)).bind ?_
  intro _
  refine (quiet_command (keeps_expire (by decide) hfree)).bind ?_
  intro _
  exact Triple.bind (countMs_raises _ _ _) fun _ _ hw => hw.2.elim

theorem authAnomalyOnEvent_calm (hL : Unthreatened st n L) :
    Calms n L al ac (authAnomalyOnEvent txt event) (Emitted st L event.hostId) := by
  unfold authAnomalyOnEvent
  split
  · exact calms_nothing
  · split
    · exact calms_nothing
    · exact calms_nothing
    · exact calms_nothing
    · exact calms_nothing
    · exact resultsOf_calm (authCount_raises hL _ _)

theorem onEvent_calm (hL : Unthreatened st n L) (d : Builtin) :
    Calms n L al ac (onEvent txt st d event) (Emitted st L event.hostId) := by
  cases d with
  | sshBruteforce => exact sshOnEvent_calm hL
  | portScan => exact portScanOnEvent_calm
  | webAttack => exact webOnEvent_calm
  | dnsTunnel => exact dnsTunnelOnEvent_calm
  | authAnomaly => exact authAnomalyOnEvent_calm hL

theorem waitFor_calm {m : Py World α} {B : α → World → Prop} (h : Calms n L al ac m B) :
    Calms n L al ac (waitFor m) B := by
  refine Triple.bind (Triple.attempt h) ?_
  intro result
  cases result with
  | ok a => exact fun _ hw => hw
  | error e => exact fun _ hw => hw

end Calls

/-! ## Alerts -/

def SameAlert (a b : AlertRow) : Prop :=
  a.hostId = b.hostId ∧ a.detector = b.detector ∧ a.dedupKey = b.dedupKey

/-- Of two alerts for the same host, detector and dedup key the later one is persisted when the
cooldown of the earlier one, counted from its result, is over. -/
def AfterCooldown (later earlier : AlertRow) : Prop :=
  SameAlert later earlier →
    earlier.resultAt + earlier.cooldownSec * second ≤ later.persistedAt

instance (a b : AlertRow) : Decidable (AfterCooldown a b) :=
  inferInstanceAs (Decidable (_ ∧ _ ∧ _ → _ ≤ _))

/-- Of two alerts for the same host, detector and dedup key, both with a cooldown that was granted,
the key of the later one was set when the cooldown of the earlier one, counted from the time its key
was set, was over; its result and its row came after that. -/
def Apart (later earlier : AlertRow) : Prop :=
  ∀ s t, later.grantedAt = some s → earlier.grantedAt = some t → SameAlert later earlier →
    t + earlier.cooldownSec * second ≤ s ∧ s ≤ later.resultAt ∧ later.resultAt ≤ later.persistedAt

def AlertRow.leaseKey (a : AlertRow) : Str := Server.leaseKey a.hostId a.detector a.dedupKey

/-- The leases of the alerts whose cooldowns were granted. -/
def leases (alerts : List AlertRow) (key : Str) (x : Int) : Prop :=
  ∃ a ∈ alerts, ∃ t, a.grantedAt = some t ∧ key = a.leaseKey ∧ x = t + a.cooldownSec * second

structure AlertsInv (st : DetectorSettings) (w : World) : Prop where
  known : ∀ a ∈ w.alerts, Known st a.detector a.cooldownSec
  past : ∀ a ∈ w.alerts, ∀ t, a.grantedAt = some t → t ≤ w.redis.now
  leased : Leased (leases w.alerts) w.redis
  apart : w.alerts.Pairwise Apart
  actions : (w.actions.map ActionRow.alert).Sublist w.alerts

section Alerts

variable {st : DetectorSettings} {txt : TextOps} {w w' : World} {hostId : Uuid}

/-- The keys of the detectors differ in the first letter of their names. -/
theorem web_ne_ssh (h h' : Uuid) (rest ip : Str) :
    ruleKey "web_attack" h rest ≠ sshWindowKey h' ip := by
  intro heq
  have hletter : some 'w' = some 's' := congrArg (·[8]?) heq
  exact absurd hletter (by decide)

theorem leaseKey_ne_auth (h h' : Uuid) (detector dedupKey user : Str) :
    leaseKey h detector dedupKey ≠ knownIpKey h' user := by
  intro heq
  unfold leaseKey at heq
  split at heq
  · have hletter : some 's' = some 'a' := congrArg (·[8]?) heq
    exact absurd hletter (by decide)
  · have hletter : some 'w' = some 'a' := congrArg (·[8]?) heq
    exact absurd hletter (by decide)

theorem AlertsInv.unthreatened (h : AlertsInv st w) :
    Unthreatened st w.redis.now (leases w.alerts) where
  ssh := by
    intro hostId ip x hlease
    obtain ⟨a, ha, t, ht, hkey, rfl⟩ := hlease
    have hpast := h.past a ha t ht
    rcases h.known a ha with ⟨_, hcooldown⟩ | hweb
    · rw [hcooldown]
      omega
    · unfold AlertRow.leaseKey leaseKey at hkey
      rw [hweb, if_neg (by decide)] at hkey
      exact absurd hkey.symm (web_ne_ssh _ _ _ _)
  auth := by
    intro hostId user x hlease
    obtain ⟨a, _, _, _, hkey, _⟩ := hlease
    exact absurd hkey.symm (leaseKey_ne_auth _ _ _ _ _)

theorem AlertsInv.calm (h : AlertsInv st w) :
    Calm w.redis.now (leases w.alerts) w.alerts w.actions w :=
  ⟨⟨le_refl _, h.leased⟩, rfl, rfl⟩

theorem AlertsInv.of_calm (h : AlertsInv st w)
    (hcalm : Calm w.redis.now (leases w.alerts) w.alerts w.actions w') : AlertsInv st w' := by
  obtain ⟨⟨hnow, hleased⟩, halerts, hactions⟩ := hcalm
  constructor
  · rw [halerts]
    exact h.known
  · rw [halerts]
    exact fun a ha t ht => (h.past a ha t ht).trans hnow
  · rw [halerts]
    exact hleased
  · rw [halerts]
    exact h.apart
  · rw [halerts, hactions]
    exact h.actions

/-- A call that keeps every state calm keeps the invariant. -/
theorem triple_of_calms {α : Type} {m : Py World α} {B : (Str → Int → Prop) → α → World → Prop}
    (h : ∀ n L al ac, Unthreatened st n L → Calms n L al ac m (B L)) :
    Triple (AlertsInv st) m (fun a w => AlertsInv st w ∧ B (leases w.alerts) a w)
      fun _ => AlertsInv st := by
  intro w hw
  have hcalms := h w.redis.now (leases w.alerts) w.alerts w.actions hw.unthreatened
  refine (hcalms.conseq (fun _ hs => hs) ?_ ?_) w hw.calm
  · intro a w' hw'
    refine ⟨hw.of_calm hw'.1, ?_⟩
    rw [hw'.1.2.1]
    exact hw'.2
  · intro _ w' hw'
    exact hw.of_calm hw'

/-! ## Rows -/

/-- The condition lasts: it looks neither at how calls are answered nor, but for what has been
before, at the time. -/
def Lasting (P : World → Prop) : Prop :=
  ∀ w answers (time : Nat), P w → P { w.elapse time with answers }

theorem statement_triple {α : Type} {change : Uuid → World → World} {value : Uuid → World → α}
    {P E : World → Prop} {Q : α → World → Prop} (hP : Lasting P) (hQ : ∀ a, Lasting (Q a))
    (hE : Lasting E) (hdone : ∀ id w, P w → Q (value id (change id w)) (change id w))
    (hlost : ∀ id w, P w → E (change id w)) (hfailed : ∀ w, P w → E w) :
    Triple P (World.statement change value) Q fun _ => E := by
  refine Triple.bind (Q := fun _ => P) (fun w hw => hP w _ _ hw) ?_
  intro answer
  refine answered_triple answer.reply ?_ (fun a w hw => hQ a w w.answers _ hw) fun _ w hw =>
    hE w w.answers _ hw
  cases answer.error with
  | none => exact fun w hw => hdone answer.drawn w hw
  | some e =>
    refine Triple.bind (Q := fun _ => E) (Triple.modify ?_) fun _ _ hw => hw
    intro w hw
    split
    · exact hlost answer.drawn w hw
    · exact hfailed w hw

theorem alertsInv_lasting : Lasting (AlertsInv st) :=
  fun _ _ time h => h.of_calm (h.calm.elapse time)

/-- The row of the result can be written. -/
def Ready (st : DetectorSettings) (hostId : Uuid) (r : DetectionResult) (t : Int) (w : World) :
    Prop :=
  AlertsInv st w ∧ Known st r.detector r.cooldownSec ∧ t ≤ w.redis.now ∧
    (∀ time, w.grantedAt = some time → time ≤ t) ∧
    Granted (leases w.alerts) (leaseKey hostId r.detector r.dedupKey) r.cooldownSec w

theorem ready_lasting {r : DetectionResult} {t : Int} : Lasting (Ready st hostId r t) := by
  intro w answers time h
  obtain ⟨hinv, hknown, ht, htime, hgranted⟩ := h
  refine ⟨alertsInv_lasting w answers time hinv, hknown, ht.trans ?_, htime, hgranted.elapse time⟩
  show w.redis.now ≤ w.redis.now + _
  omega

/-- The row that is written lies apart from every row there is, and has a lease. -/
theorem Ready.write {r : DetectionResult} {t : Int} (h : Ready st hostId r t w) (id : Uuid) :
    AlertsInv st { w with alerts := alertRow hostId r t id w :: w.alerts } := by
  obtain ⟨hinv, hknown, ht, htime, hgranted⟩ := h
  constructor
  · exact List.forall_mem_cons.mpr ⟨hknown, hinv.known⟩
  · exact List.forall_mem_cons.mpr ⟨fun time hg => (hgranted time hg).1, hinv.past⟩
  · intro key x hlease hx
    obtain ⟨a, ha, time, hg, hkey, hxa⟩ := hlease
    rcases List.mem_cons.mp ha with rfl | ha
    · exact (hgranted time hg).2.2 key x ⟨hkey, hxa⟩ hx
    · exact hinv.leased key x ⟨a, ha, time, hg, hkey, hxa⟩ hx
  · refine List.pairwise_cons.mpr ⟨?_, hinv.apart⟩
    intro b hb time time' hg hgb hsame
    have hkey : leaseKey hostId r.detector r.dedupKey = b.leaseKey := by
      unfold AlertRow.leaseKey
      rw [← hsame.1, ← hsame.2.1, ← hsame.2.2]
      rfl
    exact ⟨(hgranted time hg).2.1 _ ⟨b, hb, time', hgb, hkey, rfl⟩, htime time hg, ht⟩
  · exact hinv.actions.cons _

/-! ## The contract -/

/-- The alert of a result has been written, and there is no action for it yet. -/
def Written (st : DetectorSettings) (_hostId alertId : Uuid) (rs : List DetectionResult)
    (w : World) : Prop :=
  AlertsInv st w ∧ rs = [] ∧ ∃ a older, w.alerts = a :: older ∧ a.id = alertId ∧
    (w.actions.map ActionRow.alert).Sublist older

def Due (st : DetectorSettings) (hostId : Uuid) (rs : List DetectionResult) (w : World) : Prop :=
  AlertsInv st w ∧ Emitted st (leases w.alerts) hostId rs w

theorem due_lasting {rs : List DetectionResult} : Lasting (Due st hostId rs) := by
  intro w answers time h
  refine ⟨alertsInv_lasting w answers time h.1, h.2.imp_right ?_⟩
  rintro ⟨r, hr, hknown, hgranted⟩
  exact ⟨r, hr, hknown, hgranted.elapse time⟩

theorem written_lasting {alertId : Uuid} {rs : List DetectionResult} :
    Lasting (Written st hostId alertId rs) :=
  fun w answers time h => ⟨alertsInv_lasting w answers time h.1, h.2⟩

theorem writeAlert_triple (r : DetectionResult) (rs : List DetectionResult) :
    Triple (Due st hostId (r :: rs)) (writeAlert hostId r)
      (fun alertId => Written st hostId alertId rs) fun _ => Due st hostId rs := by
  intro w hw
  obtain ⟨hinv, hemitted⟩ := hw
  rcases hemitted with hnil | ⟨r', hone, hknown, hgranted⟩
  · cases hnil
  obtain ⟨rfl, rfl⟩ := List.cons.inj hone
  have hready : Ready st hostId r w.redis.now w :=
    ⟨hinv, hknown, le_refl _, fun time hg => (hgranted time hg).1, hgranted⟩
  have hstatement : Triple (Ready st hostId r w.redis.now)
      (World.statement (fun id w' => { w' with
        alerts := alertRow hostId r w.redis.now id w' :: w'.alerts }) fun id _ => id)
      (fun alertId => Written st hostId alertId []) fun _ => Due st hostId [] := by
    apply statement_triple ready_lasting (fun _ => written_lasting) due_lasting
    · exact fun id w' h => ⟨h.write id, rfl, _, w'.alerts, rfl, rfl, h.1.actions⟩
    · exact fun id w' h => ⟨h.write id, Or.inl rfl⟩
    · exact fun w' h => ⟨h.1, Or.inl rfl⟩
  exact hstatement w hready

theorem AlertsInv.act {a : AlertRow} {older : List AlertRow} {row : ActionRow} (h : AlertsInv st w)
    (halerts : w.alerts = a :: older) (hrow : row.alert = a)
    (hactions : (w.actions.map ActionRow.alert).Sublist older) :
    AlertsInv st { w with actions := row :: w.actions } where
  known := h.known
  past := h.past
  leased := h.leased
  apart := h.apart
  actions := by
    show ((row :: w.actions).map ActionRow.alert).Sublist w.alerts
    rw [List.map_cons, hrow, halerts]
    exact hactions.cons_cons a

theorem writeAction_triple (alertId : Uuid) (rs : List DetectionResult) (action : DetectionAction) :
    Triple (Written st hostId alertId rs) (writeAction hostId alertId action)
      (fun _ => Due st hostId rs) fun _ => Due st hostId rs := by
  intro w hw
  obtain ⟨hinv, rfl, a, older, halerts, hid, hactions⟩ := hw
  have hfind : (w.alerts.find? fun a => a.id == alertId) = some a := by
    rw [halerts, List.find?_cons_of_pos]
    simpa using hid
  have hexec : (writeAction hostId alertId action).exec w =
      (World.statement (fun id w => { w with actions := ⟨id, hostId, a, action⟩ :: w.actions })
        fun id _ => id).exec w := by
    unfold writeAction
    refine (exec_bind_ok (exec_get w) _).trans ?_
    rw [hfind]
  rw [hexec]
  have hstatement : Triple
      (fun w => AlertsInv st w ∧ w.alerts = a :: older ∧
        (w.actions.map ActionRow.alert).Sublist older)
      (World.statement (fun id w => { w with actions := ⟨id, hostId, a, action⟩ :: w.actions })
        fun id _ => id)
      (fun _ => Due st hostId []) fun _ => Due st hostId [] := by
    apply statement_triple ?_ (fun _ => due_lasting) due_lasting
    · exact fun id w' h => ⟨h.1.act h.2.1 rfl h.2.2, Or.inl rfl⟩
    · exact fun id w' h => ⟨h.1.act h.2.1 rfl h.2.2, Or.inl rfl⟩
    · exact fun w' h => ⟨h.1, Or.inl rfl⟩
    · exact fun w' answers time h => ⟨alertsInv_lasting w' answers time h.1, h.2⟩
  exact hstatement w ⟨hinv, halerts, hactions⟩

theorem detectorContract (txt : TextOps) (st : DetectorSettings) :
    Contract (detectorServices txt st) (AlertsInv st) (Due st) (Written st) where
  load id := by
    show Triple _ (World.statement (fun _ w => w) fun _ w => w.payloads id) _ _
    apply statement_triple alertsInv_lasting (fun _ => alertsInv_lasting) alertsInv_lasting
    · exact fun _ _ h => h
    · exact fun _ _ h => h
    · exact fun _ h => h
  xack id := by
    refine (triple_of_calms (B := fun _ _ _ => True) ?_).conseq (fun _ h => h)
      (fun _ _ h => h.1) fun _ _ h => h
    exact fun _ _ _ _ _ => quiet_command (keeps_pure _)
  onEvent d event := by
    refine triple_of_calms (B := fun L rs w => Emitted st L event.hostId rs w) ?_
    exact fun _ _ _ _ hL => waitFor_calm (onEvent_calm hL d)
  writeAlert hostId r rs := writeAlert_triple r rs
  writeAction hostId alertId rs action := writeAction_triple alertId rs action
  written hostId alertId rs w h := ⟨h.1, Or.inl h.2.1⟩
  due hostId rs w h := h.1

/-! ## Runs -/

variable {ρ : Type}

theorem AlertsInv.before (h : AlertsInv st w) (a : Arrival ρ) : AlertsInv st (w.before a) := by
  refine h.of_calm ⟨⟨?_, h.leased.later ?_⟩, rfl, rfl⟩
  · show w.redis.now ≤ w.redis.now + _
    omega
  · omega

theorem arrive_inv {s u : Consumer World Builtin ρ} {a : Arrival ρ} (h : AlertsInv st s.outside)
    (hstep : arrive txt st s a = some u) : AlertsInv st u.outside := by
  cases hstep
  have hhandle : Triple (Contract.Outside (AlertsInv st))
      (Consumer.handle (detectorServices txt st) builtinDetectors a.env a.msgId a.fields :
        Py (Consumer World Builtin ρ) Unit)
      (fun _ => Contract.Outside (AlertsInv st)) fun _ => Contract.Outside (AlertsInv st) :=
    (detectorContract txt st).handle_outside a.env a.fields
  exact Triple.state hhandle { s with outside := s.outside.before a } (h.before a)

end Alerts

/-- In every run, of two alerts with the same host, detector and dedup key whose cooldowns Redis has
granted, the key of the later one is set, and its row written, when the cooldown of the earlier one,
counted from its `SET`, is over; and every action belongs to an alert of its own. -/
theorem alerts_apart {ρ : Type} (txt : TextOps) (st : DetectorSettings)
    (start s : Consumer World Builtin ρ) (arrivals : List (Arrival ρ))
    (halerts : start.outside.alerts = []) (hactions : start.outside.actions = [])
    (h : AnyRun (arrive txt st) start arrivals s) :
    s.outside.alerts.Pairwise Apart ∧
    (s.outside.actions.map ActionRow.alert).Sublist s.outside.alerts ∧
    (s.outside.actions.map ActionRow.alert).Pairwise Apart := by
  have hstart : AlertsInv st start.outside := by
    constructor
    · rw [halerts]
      exact fun _ ha => nomatch ha
    · rw [halerts]
      exact fun _ ha => nomatch ha
    · rw [halerts]
      intro key x hlease
      obtain ⟨a, ha, _⟩ := hlease
      cases ha
    · rw [halerts]
      exact List.Pairwise.nil
    · rw [halerts, hactions]
      exact List.Sublist.refl _
  have hinv : AlertsInv st s.outside :=
    h.invariant (I := fun s => AlertsInv st s.outside) hstart fun _ _ _ ht _ hu => arrive_inv ht hu
  exact ⟨hinv.apart, hinv.actions, hinv.apart.sublist hinv.actions⟩

/-- The defaults. -/
def defaultSettings : DetectorSettings where
  sshBruteforceThreshold := 5
  sshBruteforceWindowSec := 60
  sshBruteforceCooldownSec := 300
  threshold_bounds := by decide
  window_bounds := by decide
  cooldown_bounds := by decide

/-- The patterns on the requests below: only the first one is found. -/
def requestOps : TextOps where
  finalSigma _ _ := false
  repr s := '\'' :: s ++ ['\'']
  sshFailed _ := none
  webPattern tag raw := tag = "sqli".toList && contains "or 1=1".toList raw

def requestPayload : Str × List (Str × Str) :=
  ("GET /?id=1 or 1=1".toList, [("source_ip".toList, "203.0.113.7".toList)])

/-- The request arrives; the calls are the query, the detectors' and those that follow. -/
def requestArrival (msgId : String) (wait : Nat) (answers : List Answer) : Arrival Unit where
  msgId := msgId.toList
  fields := storedFields
  env := eagerEnv
  wait := wait
  payloads _ := some requestPayload
  answers := answers

def requestStart : Consumer World Builtin Unit where
  outside := ⟨⟨0, fun _ => none⟩, fun _ => none, [], [], [], none⟩
  sigma := storedWorld
  log := []

/-- The query is answered at once, the `SET` a second after it was executed. -/
def lateReply : List Answer := [⟨0, none, 0, 0, 0⟩, ⟨0, none, 0, 0, 1000000000⟩]

/-- The first `SET` is answered late. Its cooldown has just ended when the second request arrives,
300 seconds after that `SET`. -/
def lateArrivals : List (Arrival Unit) :=
  [requestArrival "1-0" 0 lateReply, requestArrival "2-0" 299000000000 []]

theorem alerts_apart_requests :
    ∃ s, AnyRun (arrive requestOps defaultSettings) requestStart lateArrivals s ∧
      s.outside.alerts.map AlertRow.grantedAt = [some 300000000000, some 0] ∧
      s.outside.actions.length = 2 ∧
      s.outside.alerts.Pairwise Apart ∧
      (s.outside.actions.map ActionRow.alert).Sublist s.outside.alerts ∧
      (s.outside.actions.map ActionRow.alert).Pairwise Apart := by
  have hcheck : ∃ s, AnyRun (arrive requestOps defaultSettings) requestStart lateArrivals s ∧
      decide (s.outside.alerts.map AlertRow.grantedAt = [some 300000000000, some 0] ∧
        s.outside.actions.length = 2) = true :=
    run_of_check (by decide +kernel)
  obtain ⟨s, hrun, hs⟩ := hcheck
  obtain ⟨hgranted, hlength⟩ := of_decide_eq_true hs
  exact ⟨s, hrun, hgranted, hlength,
    alerts_apart requestOps defaultSettings requestStart s _ rfl rfl hrun⟩

/-- The query is answered, then `SET` fails. -/
def unansweredSet : List Answer :=
  [⟨0, none, 0, 0, 0⟩, ⟨0, some (.other "TimeoutError"), 0, 0, 0⟩]

/-- The alerts, or the actions, are not all a cooldown after the result of the one before. -/
def Early (s : Consumer World Builtin Unit) : Prop :=
  ¬ s.outside.alerts.Pairwise AfterCooldown ∧
    ¬ (s.outside.actions.map ActionRow.alert).Pairwise AfterCooldown

instance (s : Consumer World Builtin Unit) : Decidable (Early s) :=
  inferInstanceAs (Decidable (_ ∧ _))

/-- `SET` fails on the second request, a second after the first: there are two alerts, and two
actions, for one address. And with both cooldowns granted the second alert can come sooner than a
cooldown after the first result, which waited for the reply. -/
theorem fails_open :
    (∃ s, AnyRun (arrive requestOps defaultSettings) requestStart
        [requestArrival "1-0" 0 [], requestArrival "2-0" 1000000000 unansweredSet] s ∧ Early s) ∧
    ∃ s, AnyRun (arrive requestOps defaultSettings) requestStart lateArrivals s ∧
      (∀ a ∈ s.outside.alerts, a.grantedAt.isSome) ∧ Early s := by
  have hfailed : ∃ s, AnyRun (arrive requestOps defaultSettings) requestStart
      [requestArrival "1-0" 0 [], requestArrival "2-0" 1000000000 unansweredSet] s ∧
      decide (Early s) = true := run_of_check (by decide +kernel)
  have hlate : ∃ s, AnyRun (arrive requestOps defaultSettings) requestStart lateArrivals s ∧
      decide ((∀ a ∈ s.outside.alerts, a.grantedAt.isSome) ∧ Early s) = true :=
    run_of_check (by decide +kernel)
  obtain ⟨s, hrun, hs⟩ := hfailed
  obtain ⟨s', hrun', hs'⟩ := hlate
  exact ⟨⟨s, hrun, of_decide_eq_true hs⟩, s', hrun', of_decide_eq_true hs'⟩

end ZaqorinCore.Server
