import ZaqorinCore.Server.Firing

/-!
# One fire for each cooldown

Any number of detector processes evaluate events against one Redis, and their commands interleave.
An evaluation asks with `EXISTS` whether the rule is in cooldown and sets the cooldown several
commands later, with a `SET` that does not ask again. `fires_spaced` gives what keeps the fires of a
rule apart: no other evaluation sets the key in between. `alone_evaluate` says that an evaluation
whose commands do not interleave with others is the `evaluate` of one process.
-/

namespace ZaqorinCore.Server

open Text Base SigmaRuleRunner

variable {ρ : Type}

/-! ## Interleaved evaluations -/

/-- The command of a turn that comes next, after `EXISTS` found no cooldown. -/
inductive Stage
  | checked
  | pruned
  | counted (n : Nat)
  | added (count : Int)
  | recorded (count : Int)
  deriving DecidableEq

/-- A rule's turn that has begun, and when `EXISTS` was answered. -/
structure Turn (ρ : Type) where
  rule : ρ
  stage : Stage
  checkedAt : Int
  deriving DecidableEq

/-- A call of `evaluate` under way: the rules to come, and the turn of the current one. -/
structure Evaluation (ρ : Type) where
  event : ParsedEvent
  eventTime : Int
  todo : List ρ
  turn : Option (Turn ρ)
  deriving DecidableEq

/-- A fire, and when its cooldown was set. -/
structure Fired (ρ : Type) where
  fire : RuleFire ρ
  time : Int
  deriving DecidableEq

/-- The processes share Redis; the fires are logged, the newest first. -/
structure Detectors (ρ : Type) where
  redis : Redis
  evaluations : Nat → Option (Evaluation ρ)
  log : List (Fired ρ)

namespace Detectors

def start : Detectors ρ := ⟨emptyRedis 0, fun _ => none, []⟩

/-- The evaluation goes on, or is over. -/
def setEvaluation (s : Detectors ρ) (i : Nat) (p : Option (Evaluation ρ)) : Detectors ρ :=
  { s with evaluations := Function.update s.evaluations i p }

/-- A command of an evaluation; one that raises ends it. -/
def ask {α : Type} (s : Detectors ρ) (i : Nat) (command : Py Redis α) (next : α → Evaluation ρ) :
    Detectors ρ :=
  match command.exec s.redis with
  | (.ok a, redis) => { s with redis := redis }.setEvaluation i (some (next a))
  | (.error _, redis) => { s with redis := redis }.setEvaluation i none

/-- `_set_cooldown`, and the fire with its action. -/
def fire (ops : RuleOps ρ) (s : Detectors ρ) (i : Nat) (p : Evaluation ρ) (rule : ρ) (count : Int) :
    Detectors ρ :=
  match (setCooldown ops rule (dedupOf ops rule p.event)).exec s.redis with
  | (.error _, redis) => { s with redis := redis }.setEvaluation i none
  | (.ok (), redis) =>
    match ops.renderAction rule p.event with
    | .error _ => { s with redis := redis }.setEvaluation i none
    | .ok action =>
      let f : RuleFire ρ := ⟨rule, p.event, dedupOf ops rule p.event, count, action⟩
      { s with redis := redis, log := ⟨f, redis.now⟩ :: s.log }.setEvaluation i
        (some { p with turn := none })

/-- The next command of an evaluation, or the next rule. -/
def move (ops : RuleOps ρ) (s : Detectors ρ) (i : Nat) (p : Evaluation ρ) : Detectors ρ :=
  match p.turn with
  | none =>
    match p.todo with
    | [] => s.setEvaluation i none
    | rule :: rules =>
      match ops.applies rule p.event with
      | .error _ => s.setEvaluation i none
      | .ok false => s.setEvaluation i (some { p with todo := rules })
      | .ok true =>
        s.ask i (isInCooldown ops rule (dedupOf ops rule p.event)) fun found =>
          { p with todo := rules,
                   turn := if found then none else some ⟨rule, .checked, s.redis.now⟩ }
  | some t =>
    let key := windowKeyOf ops t.rule p.event
    match t.stage with
    | .checked =>
      s.ask i (Redis.zremrangebyscore key 0 (p.eventTime - ops.timeframeSec t.rule * second)) fun _ =>
        { p with turn := some { t with stage := .pruned } }
    | .pruned =>
      s.ask i (Redis.zcard key) fun n => { p with turn := some { t with stage := .counted n } }
    | .counted n =>
      s.ask i (Redis.zadd key (uuidStr p.event.eventId) p.eventTime) fun _ =>
        { p with turn := some { t with stage := .added (n + 1) } }
    | .added count =>
      s.ask i (Redis.expire key (max (ops.timeframeSec t.rule * 10) 60)) fun _ =>
        { p with turn := if count < ops.count t.rule then none
                         else some { t with stage := .recorded count } }
    | .recorded count => s.fire ops i p t.rule count

end Detectors

/-- What can happen: a process begins an evaluation with its rules and its clock reading, an
evaluation moves on, its connection or its process fails, time passes. -/
inductive DetectorAct (ρ : Type)
  | evaluate (i : Nat) (event : ParsedEvent) (eventTime : Int) (rules : List ρ)
  | move (i : Nat)
  | fail (i : Nat)
  | tick (now : Int)

def Detectors.step (ops : RuleOps ρ) (s : Detectors ρ) : DetectorAct ρ → Option (Detectors ρ)
  | .evaluate i event eventTime rules =>
    match s.evaluations i with
    | none => some (s.setEvaluation i (some ⟨event, eventTime, rules, none⟩))
    | some _ => none
  | .move i => (s.evaluations i).map fun p => s.move ops i p
  | .fail i => (s.evaluations i).map fun _ => s.setEvaluation i none
  | .tick now => if s.redis.now ≤ now then some { s with redis.now := now } else none

section Spaced

variable (ops : RuleOps ρ)

namespace Fired

variable (f : Fired ρ)

def ruleId : Str := ops.id f.fire.rule

/-- When the cooldown of a fire runs out. -/
def ends : Int := f.time + ops.cooldownSec f.fire.rule * second

def key : Str := cooldownKey (f.ruleId ops) f.fire.dedupKey

end Fired

/-- No fire comes before the cooldown of an earlier one of the same rule id and dedup key has run
out; the newest fire is the first. -/
def Spaced (log : List (Fired ρ)) : Prop :=
  log.Pairwise fun newer older => newer.ruleId ops = older.ruleId ops →
    newer.fire.dedupKey = older.fire.dedupKey → older.ends ops ≤ newer.time

instance (log : List (Fired ρ)) : Decidable (Spaced ops log) :=
  inferInstanceAs (Decidable (log.Pairwise _))

/-- What a step must meet: `SET` comes when nobody else has set the key since the evaluation's
`EXISTS`, unless that cooldown has run out again; and `EXPIRE` does not shorten a cooldown, whose
key can be the window's key of another rule. -/
def Undisturbed (s : Detectors ρ) (a : DetectorAct ρ) : Prop :=
  ∀ i p t, a = .move i → s.evaluations i = some p → p.turn = some t →
    match t.stage with
    | .added _ => ∀ value expiresAt,
        s.redis.find (windowKeyOf ops t.rule p.event) = some ⟨.text value, some expiresAt⟩ →
        expiresAt ≤ s.redis.now + max (ops.timeframeSec t.rule * 10) 60 * second
    | .recorded _ => ∀ f ∈ s.log, f.key ops = cooldownKeyOf ops t.rule p.event →
        t.checkedAt ≤ f.time → f.ends ops ≤ s.redis.now
    | _ => True

end Spaced

/-! ## Cooldowns that are running -/

/-- Every text stays one and does not expire earlier. -/
structure KeepsTexts (r r' : Redis) : Prop where
  now : r'.now = r.now
  texts : ∀ key value expiresAt, r.find key = some ⟨.text value, some expiresAt⟩ →
    ∃ value' expiresAt', r'.entries key = some ⟨.text value', some expiresAt'⟩ ∧
      expiresAt ≤ expiresAt'

theorem KeepsTexts.refl (r : Redis) : KeepsTexts r r := by
  refine ⟨rfl, ?_⟩
  intro key value expiresAt h
  exact ⟨value, expiresAt, (Option.filter_eq_some_iff.mp h).1, le_refl _⟩

/-- A key that holds no text can change. -/
theorem KeepsTexts.put {r : Redis} {key : Str} {e : Option RedisEntry}
    (h : ∀ value expiresAt, r.find key ≠ some ⟨.text value, some expiresAt⟩) :
    KeepsTexts r (r.put key e) := by
  refine ⟨rfl, ?_⟩
  intro other value expiresAt hfind
  by_cases hkey : other = key
  · subst hkey
    exact absurd hfind (h value expiresAt)
  · refine ⟨value, expiresAt, ?_, le_refl _⟩
    exact (Function.update_of_ne hkey _ _).trans (Option.filter_eq_some_iff.mp hfind).1

theorem KeepsTexts.of_window {r : Redis} {key : Str} {members : List (Str × Int)}
    {e : Option RedisEntry} (h : r.window key = some members) : KeepsTexts r (r.put key e) := by
  refine KeepsTexts.put fun value expiresAt hfind => ?_
  rw [Redis.window, hfind] at h
  cases h

theorem KeepsTexts.zrem (r : Redis) (key : Str) (low high : Int) :
    KeepsTexts r ((Redis.zremrangebyscore key low high).exec r).2 := by
  cases hwindow : r.window key with
  | none =>
    have hexec : (Redis.zremrangebyscore key low high).exec r = (.error Redis.wrongType, r) :=
      Script.exec_bind_error (Redis.exec_sortedAt_text hwindow) _
    rw [hexec]
    exact KeepsTexts.refl r
  | some members =>
    rw [Redis.exec_zrem hwindow]
    exact KeepsTexts.of_window hwindow

theorem KeepsTexts.zadd (r : Redis) (key member : Str) (score : Int) :
    KeepsTexts r ((Redis.zadd key member score).exec r).2 := by
  cases hwindow : r.window key with
  | none =>
    have hexec : (Redis.zadd key member score).exec r = (.error Redis.wrongType, r) :=
      Script.exec_bind_error (Redis.exec_sortedAt_text hwindow) _
    rw [hexec]
    exact KeepsTexts.refl r
  | some members =>
    rw [Redis.exec_zadd hwindow]
    exact KeepsTexts.of_window hwindow

theorem exec_zcard_state (r : Redis) (key : Str) : ((Redis.zcard key).exec r).2 = r := by
  cases hwindow : r.window key with
  | none =>
    have hexec : (Redis.zcard key).exec r = (.error Redis.wrongType, r) :=
      Script.exec_bind_error (Redis.exec_sortedAt_text hwindow) _
    rw [hexec]
  | some members => rw [Redis.exec_zcard hwindow]

theorem KeepsTexts.expire {r : Redis} {key : Str} {seconds : Int} (hpos : 0 < seconds)
    (h : ∀ value expiresAt, r.find key = some ⟨.text value, some expiresAt⟩ →
      expiresAt ≤ r.now + seconds * second) :
    KeepsTexts r ((Redis.expire key seconds).exec r).2 := by
  cases hfind : r.find key with
  | none =>
    have hexec : (Redis.expire key seconds).exec r = (.ok (), r) := by
      rw [Redis.expire, Script.exec_modify, hfind]
    rw [hexec]
    exact KeepsTexts.refl r
  | some e =>
    rw [Redis.exec_expire hfind hpos]
    refine ⟨rfl, ?_⟩
    intro other value expiresAt hother
    by_cases hkey : other = key
    · subst hkey
      obtain rfl : e = ⟨.text value, some expiresAt⟩ := Option.some.inj (hfind.symm.trans hother)
      exact ⟨value, _, Function.update_self _ _ _, h value expiresAt hother⟩
    · refine ⟨value, expiresAt, ?_, le_refl _⟩
      exact (Function.update_of_ne hkey _ _).trans (Option.filter_eq_some_iff.mp hother).1

/-! ## What a move does -/

section Move

variable {ops : RuleOps ρ} {s : Detectors ρ} {i : Nat} {p : Evaluation ρ}

/-- A move that sets no cooldown: a turn goes on, or one begins whose cooldown key is free. -/
structure QuietMove (ops : RuleOps ρ) (s u : Detectors ρ) (i : Nat) (p : Evaluation ρ) : Prop where
  redis : KeepsTexts s.redis u.redis
  log : u.log = s.log
  others : ∀ j, j ≠ i → u.evaluations j = s.evaluations j
  turn : ∀ q t, u.evaluations i = some q → q.turn = some t →
    q.event = p.event ∧
      ((∃ t', p.turn = some t' ∧ t'.rule = t.rule ∧ t'.checkedAt = t.checkedAt) ∨
        (t.checkedAt = s.redis.now ∧ s.redis.find (cooldownKeyOf ops t.rule p.event) = none))

/-- A move that sets the cooldown of a rule. -/
structure SetMove (ops : RuleOps ρ) (s u : Detectors ρ) (i : Nat) (p : Evaluation ρ) (t : Turn ρ) :
    Prop where
  turn : p.turn = some t
  stage : ∃ count, t.stage = .recorded count
  redis : u.redis = cooled ops t.rule p.event s.redis
  log : u.log = s.log ∨ ∃ f : Fired ρ, u.log = f :: s.log ∧ f.fire.rule = t.rule ∧
    f.fire.dedupKey = dedupOf ops t.rule p.event ∧ f.time = s.redis.now
  others : ∀ j, j ≠ i → u.evaluations j = s.evaluations j
  ended : ∀ q, u.evaluations i = some q → q.turn = none

@[simp]
theorem setEvaluation_self (q : Option (Evaluation ρ)) : (s.setEvaluation i q).evaluations i = q :=
  Function.update_self _ _ _

theorem setEvaluation_of_ne (q : Option (Evaluation ρ)) {j : Nat} (hj : j ≠ i) :
    (s.setEvaluation i q).evaluations j = s.evaluations j :=
  Function.update_of_ne hj _ _

theorem ask_ok {α : Type} {command : Py Redis α} {next : α → Evaluation ρ} {a : α} {r : Redis}
    (h : command.exec s.redis = (.ok a, r)) :
    s.ask i command next = { s with redis := r }.setEvaluation i (some (next a)) := by
  rw [Detectors.ask, h]

theorem ask_error {α : Type} {command : Py Redis α} {next : α → Evaluation ρ} {e : PyError}
    {r : Redis} (h : command.exec s.redis = (.error e, r)) :
    s.ask i command next = { s with redis := r }.setEvaluation i none := by
  rw [Detectors.ask, h]

/-- The evaluation is over, or has no turn. -/
theorem QuietMove.idle (q : Option (Evaluation ρ)) {r : Redis} (hr : KeepsTexts s.redis r)
    (hturn : ∀ q', q = some q' → q'.turn = none) :
    QuietMove ops s ({ s with redis := r }.setEvaluation i q) i p where
  redis := hr
  log := rfl
  others := fun _ hj => setEvaluation_of_ne q hj
  turn := by
    intro q' t hq ht
    rw [setEvaluation_self] at hq
    rw [hturn q' hq] at ht
    cases ht

theorem QuietMove.ask {α : Type} {command : Py Redis α} {next : α → Evaluation ρ}
    (hredis : KeepsTexts s.redis (command.exec s.redis).2)
    (hturn : ∀ a t, (command.exec s.redis).1 = .ok a → (next a).turn = some t →
      (next a).event = p.event ∧
        ((∃ t', p.turn = some t' ∧ t'.rule = t.rule ∧ t'.checkedAt = t.checkedAt) ∨
          (t.checkedAt = s.redis.now ∧ s.redis.find (cooldownKeyOf ops t.rule p.event) = none))) :
    QuietMove ops s (s.ask i command next) i p := by
  cases hexec : command.exec s.redis with
  | mk result r =>
    rw [hexec] at hredis hturn
    cases result with
    | error e =>
      rw [ask_error hexec]
      exact QuietMove.idle none hredis nofun
    | ok a =>
      rw [ask_ok hexec]
      refine ⟨hredis, rfl, fun _ hj => setEvaluation_of_ne _ hj, ?_⟩
      intro q t hq ht
      rw [setEvaluation_self] at hq
      cases hq
      exact hturn a t rfl ht

theorem fire_refused {rule : ρ} {count : Int} (hpos : ¬ 0 < ops.cooldownSec rule) :
    s.fire ops i p rule count = s.setEvaluation i none := by
  have hexec : (setCooldown ops rule (dedupOf ops rule p.event)).exec s.redis = _ :=
    Redis.exec_setEx_invalid hpos
  rw [Detectors.fire, hexec]

theorem fire_set {rule : ρ} {count : Int} (hpos : 0 < ops.cooldownSec rule) :
    s.fire ops i p rule count = match ops.renderAction rule p.event with
      | .error _ => { s with redis := cooled ops rule p.event s.redis }.setEvaluation i none
      | .ok action =>
        { s with redis := cooled ops rule p.event s.redis,
                 log := ⟨⟨rule, p.event, dedupOf ops rule p.event, count, action⟩,
                   s.redis.now⟩ :: s.log }.setEvaluation i (some { p with turn := none }) := by
  have hexec : (setCooldown ops rule (dedupOf ops rule p.event)).exec s.redis =
      (.ok (), cooled ops rule p.event s.redis) := Redis.exec_setEx hpos
  rw [Detectors.fire, hexec]
  rfl

theorem fire_cases (t : Turn ρ) (count : Int) (ht : p.turn = some t)
    (hstage : t.stage = .recorded count) :
    QuietMove ops s (s.fire ops i p t.rule count) i p ∨
      SetMove ops s (s.fire ops i p t.rule count) i p t := by
  by_cases hpos : 0 < ops.cooldownSec t.rule
  · right
    rw [fire_set hpos]
    cases ops.renderAction t.rule p.event with
    | error e =>
      refine ⟨ht, ⟨count, hstage⟩, rfl, Or.inl rfl, fun _ hj => setEvaluation_of_ne _ hj, ?_⟩
      intro q hq
      rw [setEvaluation_self] at hq
      cases hq
    | ok action =>
      refine ⟨ht, ⟨count, hstage⟩, rfl, Or.inr ⟨_, rfl, rfl, rfl, rfl⟩,
        fun _ hj => setEvaluation_of_ne _ hj, ?_⟩
      intro q hq
      rw [setEvaluation_self] at hq
      cases hq
      rfl
  · left
    rw [fire_refused hpos]
    exact QuietMove.idle none (KeepsTexts.refl _) nofun

theorem move_cases (hp : s.evaluations i = some p) (hok : Undisturbed ops s (.move i)) :
    QuietMove ops s (s.move ops i p) i p ∨ ∃ t, SetMove ops s (s.move ops i p) i p t := by
  cases hturn : p.turn with
  | none =>
    left
    unfold Detectors.move
    rw [hturn]
    dsimp only
    split
    · exact QuietMove.idle none (KeepsTexts.refl _) nofun
    · rename_i rule rules htodo
      split
      · exact QuietMove.idle none (KeepsTexts.refl _) nofun
      · refine QuietMove.idle _ (KeepsTexts.refl _) ?_
        rintro q ⟨⟩
        rfl
      · refine QuietMove.ask (KeepsTexts.refl _) ?_
        intro found t hfound ht
        cases found with
        | true => cases ht
        | false =>
          cases ht
          have hnone : (s.redis.find (cooldownKeyOf ops rule p.event)).isSome = false :=
            Except.ok.inj hfound
          exact ⟨rfl, Or.inr ⟨rfl, by simpa using hnone⟩⟩
  | some t =>
    have hcond := hok i p t rfl hp hturn
    unfold Detectors.move
    rw [hturn]
    dsimp only
    -- a turn that goes on keeps its rule and the time of its `EXISTS`
    have hsame : ∀ (stage : Stage) (t' : Turn ρ), some { t with stage := stage } = some t' →
        ∃ t'', some t = some t'' ∧ t''.rule = t'.rule ∧ t''.checkedAt = t'.checkedAt := by
      rintro stage t' ⟨⟩
      exact ⟨t, rfl, rfl, rfl⟩
    cases hstage : t.stage with
    | checked =>
      refine Or.inl (QuietMove.ask (KeepsTexts.zrem _ _ _ _) ?_)
      rw [hturn]
      exact fun _ t' _ ht' => ⟨rfl, Or.inl (hsame _ t' ht')⟩
    | pruned =>
      refine Or.inl (QuietMove.ask ?_ ?_)
      · rw [exec_zcard_state]
        exact KeepsTexts.refl _
      · rw [hturn]
        exact fun _ t' _ ht' => ⟨rfl, Or.inl (hsame _ t' ht')⟩
    | counted n =>
      refine Or.inl (QuietMove.ask (KeepsTexts.zadd _ _ _ _) ?_)
      rw [hturn]
      exact fun _ t' _ ht' => ⟨rfl, Or.inl (hsame _ t' ht')⟩
    | added count =>
      rw [hstage] at hcond
      refine Or.inl (QuietMove.ask (KeepsTexts.expire (by omega) hcond) ?_)
      rw [hturn]
      intro _ t' _ ht'
      dsimp only at ht'
      split at ht'
      · cases ht'
      · exact ⟨rfl, Or.inl (hsame _ t' ht')⟩
    | recorded count =>
      rcases fire_cases t count hturn hstage with h | h
      · exact Or.inl h
      · exact Or.inr ⟨t, h⟩

end Move

/-! ## Fires are apart -/

/-- The cooldowns that run are texts in Redis, and a turn has begun when those of its key had run
out. -/
structure CooldownInv (ops : RuleOps ρ) (s : Detectors ρ) : Prop where
  past : ∀ f ∈ s.log, f.time ≤ s.redis.now
  running : ∀ f ∈ s.log, s.redis.now < f.ends ops →
    ∃ value expiresAt, s.redis.entries (f.key ops) = some ⟨.text value, some expiresAt⟩ ∧
      f.ends ops ≤ expiresAt
  checked : ∀ i p t, s.evaluations i = some p → p.turn = some t → t.checkedAt ≤ s.redis.now ∧
    ∀ f ∈ s.log, f.key ops = cooldownKeyOf ops t.rule p.event → f.time < t.checkedAt →
      f.ends ops ≤ t.checkedAt
  spaced : Spaced ops s.log

namespace CooldownInv

variable {ops : RuleOps ρ} {s u : Detectors ρ} {i : Nat} {p : Evaluation ρ}

theorem start : CooldownInv ops Detectors.start where
  past _ hf := absurd hf List.not_mem_nil
  running _ hf := absurd hf List.not_mem_nil
  checked _ _ _ hp := by cases hp
  spaced := List.Pairwise.nil

theorem find_running (inv : CooldownInv ops s) {f : Fired ρ} (hf : f ∈ s.log)
    (hrunning : s.redis.now < f.ends ops) :
    ∃ value expiresAt, s.redis.find (f.key ops) = some ⟨.text value, some expiresAt⟩ ∧
      f.ends ops ≤ expiresAt := by
  obtain ⟨value, expiresAt, hentry, hends⟩ := inv.running f hf hrunning
  refine ⟨value, expiresAt, ?_, hends⟩
  rw [Redis.find, hentry, Option.filter_some, if_pos]
  simpa using lt_of_lt_of_le hrunning hends

/-- Where `EXISTS` finds no key, no cooldown of the key runs. -/
theorem ends_of_find_none (inv : CooldownInv ops s) {key : Str} (hfind : s.redis.find key = none)
    {f : Fired ρ} (hf : f ∈ s.log) (hkey : f.key ops = key) : f.ends ops ≤ s.redis.now := by
  by_contra hrunning
  obtain ⟨value, expiresAt, hsome, -⟩ := inv.find_running hf (not_le.mp hrunning)
  rw [hkey, hfind] at hsome
  cases hsome

theorem quiet (inv : CooldownInv ops s) (hp : s.evaluations i = some p)
    (h : QuietMove ops s u i p) : CooldownInv ops u where
  past := by
    rw [h.log, h.redis.now]
    exact inv.past
  running := by
    rw [h.log, h.redis.now]
    intro f hf hrunning
    obtain ⟨value, expiresAt, hfind, hends⟩ := inv.find_running hf hrunning
    obtain ⟨value', expiresAt', hentry, hle⟩ := h.redis.texts _ _ _ hfind
    exact ⟨value', expiresAt', hentry, hends.trans hle⟩
  checked := by
    intro j q t hq ht
    rw [h.log, h.redis.now]
    by_cases hj : j = i
    · subst hj
      obtain ⟨hevent, ⟨t', ht', hrule, hat⟩ | ⟨hat, hfind⟩⟩ := h.turn q t hq ht
      · rw [hevent, ← hrule, ← hat]
        exact inv.checked j p t' hp ht'
      · rw [hevent, hat]
        refine ⟨le_refl _, ?_⟩
        intro f hf hkey _
        exact inv.ends_of_find_none hfind hf hkey
    · rw [h.others j hj] at hq
      exact inv.checked j q t hq ht
  spaced := by
    rw [h.log]
    exact inv.spaced

/-- At the `SET` of an evaluation that nobody disturbed, no cooldown of the key runs. -/
theorem ends_of_set (inv : CooldownInv ops s) {t : Turn ρ} (hp : s.evaluations i = some p)
    (h : SetMove ops s u i p t) (hok : Undisturbed ops s (.move i)) {f : Fired ρ} (hf : f ∈ s.log)
    (hkey : f.key ops = cooldownKeyOf ops t.rule p.event) : f.ends ops ≤ s.redis.now := by
  obtain ⟨hnow, hchecked⟩ := inv.checked i p t hp h.turn
  by_cases hbefore : f.time < t.checkedAt
  · exact (hchecked f hf hkey hbefore).trans hnow
  · obtain ⟨count, hstage⟩ := h.stage
    have hcond := hok i p t rfl hp h.turn
    rw [hstage] at hcond
    exact hcond f hf hkey (not_lt.mp hbefore)

theorem set (inv : CooldownInv ops s) {t : Turn ρ} (hp : s.evaluations i = some p)
    (h : SetMove ops s u i p t) (hok : Undisturbed ops s (.move i)) : CooldownInv ops u := by
  have hnow : u.redis.now = s.redis.now := by
    rw [h.redis]
    rfl
  have hold : ∀ f ∈ s.log, s.redis.now < f.ends ops →
      ∃ value expiresAt, u.redis.entries (f.key ops) = some ⟨.text value, some expiresAt⟩ ∧
        f.ends ops ≤ expiresAt := by
    intro f hf hrunning
    have hne : f.key ops ≠ cooldownKeyOf ops t.rule p.event := fun hkey =>
      absurd (inv.ends_of_set hp h hok hf hkey) (not_le.mpr hrunning)
    have hframe : u.redis.entries (f.key ops) = s.redis.entries (f.key ops) := by
      rw [h.redis]
      exact Function.update_of_ne hne _ _
    rw [hframe]
    exact inv.running f hf hrunning
  have hothers : ∀ j q t', u.evaluations j = some q → q.turn = some t' →
      s.evaluations j = some q := by
    intro j q t' hq ht'
    by_cases hj : j = i
    · subst hj
      rw [h.ended q hq] at ht'
      cases ht'
    · rwa [h.others j hj] at hq
  rcases h.log with hlog | ⟨f, hlog, hrule, hdedup, htime⟩
  · refine ⟨?_, ?_, ?_, ?_⟩ <;> rw [hlog]
    · rw [hnow]
      exact inv.past
    · rw [hnow]
      exact hold
    · intro j q t' hq ht'
      rw [hnow]
      exact inv.checked j q t' (hothers j q t' hq ht') ht'
    · exact inv.spaced
  · have hkey : f.key ops = cooldownKeyOf ops t.rule p.event := by
      rw [Fired.key, Fired.ruleId, hrule, hdedup]
      rfl
    have hends : f.ends ops = s.redis.now + ops.cooldownSec t.rule * second := by
      rw [Fired.ends, htime, hrule]
    refine ⟨?_, ?_, ?_, ?_⟩ <;> rw [hlog]
    · rw [hnow]
      exact List.forall_mem_cons.mpr ⟨htime.le, inv.past⟩
    · rw [hnow]
      refine List.forall_mem_cons.mpr ⟨fun _ => ?_, hold⟩
      refine ⟨"1".toList, s.redis.now + ops.cooldownSec t.rule * second, ?_, hends.le⟩
      rw [h.redis, hkey]
      exact Function.update_self _ _ _
    · intro j q t' hq ht'
      rw [hnow]
      obtain ⟨hle, hchecked⟩ := inv.checked j q t' (hothers j q t' hq ht') ht'
      refine ⟨hle, List.forall_mem_cons.mpr ⟨fun _ hbefore => ?_, hchecked⟩⟩
      rw [htime] at hbefore
      exact absurd hbefore (not_lt.mpr hle)
    · refine List.pairwise_cons.mpr ⟨?_, inv.spaced⟩
      intro older holder hid hsame
      rw [htime]
      refine inv.ends_of_set hp h hok holder ?_
      rw [← hkey, Fired.key, Fired.key, hid, hsame]

/-- Only a move has a condition to meet. -/
theorem step {a : DetectorAct ρ} (inv : CooldownInv ops s) (hok : Undisturbed ops s a)
    (h : s.step ops a = some u) : CooldownInv ops u := by
  cases a with
  | evaluate i event eventTime rules =>
    simp only [Detectors.step] at h
    split at h
    · cases h
      refine ⟨inv.past, inv.running, ?_, inv.spaced⟩
      intro j q t hq ht
      rcases update_some_cases hq with ⟨rfl, rfl⟩ | ⟨-, hq⟩
      · cases ht
      · exact inv.checked j q t hq ht
    · cases h
  | move i =>
    obtain ⟨p, hp, rfl⟩ := Option.map_eq_some_iff.mp h
    rcases move_cases hp hok with hquiet | ⟨t, hset⟩
    · exact inv.quiet hp hquiet
    · exact inv.set hp hset hok
  | fail i =>
    obtain ⟨p, hp, rfl⟩ := Option.map_eq_some_iff.mp h
    refine ⟨inv.past, inv.running, ?_, inv.spaced⟩
    intro j q t hq ht
    by_cases hj : j = i
    · subst hj
      rw [setEvaluation_self] at hq
      cases hq
    · rw [setEvaluation_of_ne _ hj] at hq
      exact inv.checked j q t hq ht
  | tick now =>
    simp only [Detectors.step] at h
    split at h
    · rename_i hle
      cases h
      refine ⟨?_, ?_, ?_, inv.spaced⟩
      · exact fun f hf => (inv.past f hf).trans hle
      · exact fun f hf hrunning => inv.running f hf (lt_of_le_of_lt hle hrunning)
      · intro j q t hq ht
        obtain ⟨hat, hchecked⟩ := inv.checked j q t hq ht
        exact ⟨hat.trans hle, hchecked⟩
    · cases h

end CooldownInv

/-- In every run whose steps meet the condition, whatever the interleaving, the fires of a rule id
and a dedup key are a cooldown apart. -/
theorem fires_spaced (ops : RuleOps ρ) (acts : List (DetectorAct ρ)) (s : Detectors ρ)
    (h : Run (Detectors.step ops) (Undisturbed ops) Detectors.start acts s) : Spaced ops s.log :=
  (h.invariant (I := CooldownInv ops) CooldownInv.start
    fun _ _ _ inv hok taken => inv.step hok taken).spaced

/-! ## An evaluation alone -/

section Alone

variable {ops : RuleOps ρ} {s t u : Detectors ρ} {i : Nat} {p : Evaluation ρ}

/-- The evaluation moves on, and nothing else happens. -/
def Alone (ops : RuleOps ρ) (i : Nat) (s u : Detectors ρ) : Prop :=
  ∃ n, AnyRun (Detectors.step ops) s (List.replicate n (.move i)) u

theorem Alone.trans (h₁ : Alone ops i s t) (h₂ : Alone ops i t u) : Alone ops i s u := by
  obtain ⟨n, hn⟩ := h₁
  obtain ⟨m, hm⟩ := h₂
  refine ⟨n + m, ?_⟩
  rw [List.replicate_add]
  exact Run.trans hn hm

theorem Alone.move (hp : s.evaluations i = some p) : Alone ops i s (s.move ops i p) := by
  refine ⟨1, Run.single trivial ?_⟩
  rw [Detectors.step, hp]
  rfl

/-- The evaluation stands at `p`, with this Redis. -/
def Detectors.place (s : Detectors ρ) (i : Nat) (r : Redis) (p : Option (Evaluation ρ)) :
    Detectors ρ :=
  { s with redis := r }.setEvaluation i p

theorem place_place (s : Detectors ρ) (i : Nat) (r r' : Redis) (p q : Option (Evaluation ρ)) :
    { s.place i r p with redis := r' }.setEvaluation i q = s.place i r' q := by
  simp [Detectors.place, Detectors.setEvaluation]

theorem place_set (s : Detectors ρ) (i : Nat) (r : Redis) (p q : Option (Evaluation ρ)) :
    (s.place i r p).setEvaluation i q = s.place i r q :=
  place_place s i r r p q

/-- A command that is answered. -/
theorem Alone.ask_ok {α : Type} {r r' : Redis} {command : Py Redis α}
    {next : α → Evaluation ρ} {a : α}
    {q : Evaluation ρ}
    (hmove : (s.place i r (some p)).move ops i p = (s.place i r (some p)).ask i command next)
    (hexec : command.exec r = (.ok a, r')) (hnext : next a = q) :
    Alone ops i (s.place i r (some p)) (s.place i r' (some q)) := by
  subst hnext
  have h : Alone ops i (s.place i r (some p)) ((s.place i r (some p)).move ops i p) :=
    Alone.move (setEvaluation_self _)
  rw [← place_place s i r r' (some p), ← Server.ask_ok (s := s.place i r (some p)) hexec, ← hmove]
  exact h

/-- A command that raises. -/
theorem Alone.ask_error {α : Type} {r r' : Redis} {command : Py Redis α} {next : α → Evaluation ρ}
    {e : PyError}
    (hmove : (s.place i r (some p)).move ops i p = (s.place i r (some p)).ask i command next)
    (hexec : command.exec r = (.error e, r')) :
    Alone ops i (s.place i r (some p)) (s.place i r' none) := by
  have h : Alone ops i (s.place i r (some p)) ((s.place i r (some p)).move ops i p) :=
    Alone.move (setEvaluation_self _)
  rw [← place_place s i r r' (some p), ← Server.ask_error (s := s.place i r (some p)) hexec,
    ← hmove]
  exact h

/-- A turn has ended with a result and a state of Redis. -/
def Detectors.afterTurn (s : Detectors ρ) (i : Nat) (now : Int) (p : Evaluation ρ) :
    Except PyError (Option (RuleFire ρ)) × Redis → Detectors ρ
  | (.error _, r) => s.place i r none
  | (.ok fire, r) => { s with log := fire.toList.map (Fired.mk · now) ++ s.log }.place i r (some p)

/-- The last command of a turn. -/
theorem place_fire (rule : ρ) (count : Int) (r : Redis) :
    (s.place i r (some p)).fire ops i p rule count = s.afterTurn i r.now { p with turn := none }
      (if ops.cooldownSec rule ≤ 0 then
        (.error (.responseError "invalid expire time in 'set' command"), r)
      else ((ops.renderAction rule p.event).map fun action =>
        some ⟨rule, p.event, dedupOf ops rule p.event, count, action⟩,
          cooled ops rule p.event r)) := by
  by_cases hpos : 0 < ops.cooldownSec rule
  · rw [if_neg (not_le.mpr hpos), fire_set hpos]
    cases ops.renderAction rule p.event with
    | error e => exact place_place s i r _ _ _
    | ok action =>
      simp [Detectors.afterTurn, Detectors.place, Detectors.setEvaluation, Except.map]
  · rw [if_pos (not_lt.mp hpos), fire_refused hpos]
    exact place_place s i r _ _ _

/-- The turn of a rule that matches, from its begin to its end. -/
theorem alone_turn {event : ParsedEvent} {eventTime : Int} {rule : ρ} (rules : List ρ) (r : Redis)
    (happlies : ops.applies rule event = .ok true) :
    Alone ops i (s.place i r (some ⟨event, eventTime, rule :: rules, none⟩))
      (s.afterTurn i r.now ⟨event, eventTime, rules, none⟩ (turn ops event eventTime rule r)) := by
  have hexists := Redis.exec_exists r (cooldownKeyOf ops rule event)
  have hbegin : (s.place i r (some ⟨event, eventTime, rule :: rules, none⟩)).move ops i
      ⟨event, eventTime, rule :: rules, none⟩ =
      (s.place i r (some ⟨event, eventTime, rule :: rules, none⟩)).ask i
        (isInCooldown ops rule (dedupOf ops rule event)) fun found =>
          ⟨event, eventTime, rules, if found then none else some ⟨rule, .checked, r.now⟩⟩ := by
    simp only [Detectors.move, happlies]
    rfl
  unfold turn
  by_cases hcool : (r.find (cooldownKeyOf ops rule event)).isSome = true
  · rw [if_pos hcool]
    refine Alone.ask_ok hbegin hexists ?_
    rw [if_pos hcool]
  rw [if_neg hcool]
  have hchecked := Alone.ask_ok hbegin hexists rfl
  rw [if_neg hcool] at hchecked
  cases hwindow : r.window (windowKeyOf ops rule event) with
  | none =>
    have hzrem : (Redis.zremrangebyscore (windowKeyOf ops rule event) 0
        (eventTime - ops.timeframeSec rule * second)).exec r = (.error Redis.wrongType, r) :=
      Script.exec_bind_error (Redis.exec_sortedAt_text hwindow) _
    exact hchecked.trans (Alone.ask_error rfl hzrem)
  | some members =>
    -- the commands from `ZREMRANGEBYSCORE` to `EXPIRE`
    let mid (stage : Stage) : Option (Evaluation ρ) :=
      some ⟨event, eventTime, rules, some ⟨rule, stage, r.now⟩⟩
    have hpruned : Alone ops i (s.place i r (mid .checked))
        (s.place i (pruned ops rule event eventTime members r) (mid .pruned)) :=
      Alone.ask_ok rfl (Redis.exec_zrem hwindow) rfl
    have hcounted : Alone ops i
        (s.place i (pruned ops rule event eventTime members r) (mid .pruned))
        (s.place i (pruned ops rule event eventTime members r)
          (mid (.counted (kept ops rule eventTime members).length))) :=
      Alone.ask_ok rfl (Redis.exec_zcard (Redis.window_kept r _ _)) rfl
    have hadded : Alone ops i (s.place i (pruned ops rule event eventTime members r)
          (mid (.counted (kept ops rule eventTime members).length)))
        (s.place i (added ops rule event eventTime members r)
          (mid (.added ((kept ops rule eventTime members).length + 1)))) :=
      Alone.ask_ok rfl (exec_zadd_pruned members) rfl
    have hexpire : (s.place i (added ops rule event eventTime members r)
          (mid (.added ((kept ops rule eventTime members).length + 1)))).move ops i
        ⟨event, eventTime, rules,
          some ⟨rule, .added ((kept ops rule eventTime members).length + 1), r.now⟩⟩ =
        (s.place i (added ops rule event eventTime members r)
          (mid (.added ((kept ops rule eventTime members).length + 1)))).ask i
          (Redis.expire (windowKeyOf ops rule event) (max (ops.timeframeSec rule * 10) 60)) fun _ =>
            ⟨event, eventTime, rules,
              if ((kept ops rule eventTime members).length : Int) + 1 < ops.count rule then none
              else some ⟨rule, .recorded ((kept ops rule eventTime members).length + 1), r.now⟩⟩ := rfl
    have hrecorded := Alone.ask_ok hexpire (exec_expire_added members) rfl
    have hcommands := hchecked.trans (hpruned.trans (hcounted.trans (hadded.trans hrecorded)))
    dsimp only
    by_cases hcount : ((kept ops rule eventTime members).length : Int) + 1 < ops.count rule
    · rw [if_pos hcount] at hcommands ⊢
      exact hcommands
    rw [if_neg hcount] at hcommands ⊢
    let last : Evaluation ρ := ⟨event, eventTime, rules,
      some ⟨rule, .recorded ((kept ops rule eventTime members).length + 1), r.now⟩⟩
    have hfire : Alone ops i _ ((s.place i (recorded ops rule event eventTime members r)
        (some last)).fire ops i last rule ((kept ops rule eventTime members).length + 1)) :=
      hcommands.trans (Alone.move (setEvaluation_self _))
    rw [place_fire] at hfire
    exact hfire

/-- The turn of any rule is what `evaluate` does for it. -/
theorem alone_rule (event : ParsedEvent) (eventTime : Int) (rule : ρ) (rules : List ρ) (r : Redis) :
    Alone ops i (s.place i r (some ⟨event, eventTime, rule :: rules, none⟩))
      (s.afterTurn i r.now ⟨event, eventTime, rules, none⟩
        ((evaluateRule ops event eventTime rule).exec r)) := by
  have hmove : Alone ops i (s.place i r (some ⟨event, eventTime, rule :: rules, none⟩))
      ((s.place i r (some ⟨event, eventTime, rule :: rules, none⟩)).move ops i
        ⟨event, eventTime, rule :: rules, none⟩) := Alone.move (setEvaluation_self _)
  cases happlies : ops.applies rule event with
  | error e =>
    rw [evaluateRule_exec_error happlies]
    simp only [Detectors.move, happlies, place_set] at hmove
    exact hmove
  | ok b =>
    cases b with
    | false =>
      rw [evaluateRule_exec_false happlies]
      simp only [Detectors.move, happlies, place_set] at hmove
      exact hmove
    | true =>
      rw [evaluateRule_exec happlies]
      exact alone_turn rules r happlies

theorem evaluateRule_now {event : ParsedEvent} {eventTime : Int} {rule : ρ} {r : Redis} :
    ((evaluateRule ops event eventTime rule).exec r).2.now = r.now := by
  cases happlies : ops.applies rule event with
  | error e => rw [evaluateRule_exec_error happlies]
  | ok b =>
    cases b with
    | false => rw [evaluateRule_exec_false happlies]
    | true =>
      rw [evaluateRule_exec happlies]
      exact turn_now

/-- An evaluation whose commands come one after the other ends as `evaluate` does. -/
theorem alone_evaluate (event : ParsedEvent) (eventTime : Int) (rules : List ρ) (r : Redis) :
    ∃ u, Alone ops i (s.place i r (some ⟨event, eventTime, rules, none⟩)) u ∧
      u.evaluations i = none ∧
      u.redis = ((evaluate ops event eventTime rules).exec r).2 ∧
      ∀ fires, ((evaluate ops event eventTime rules).exec r).1 = .ok fires →
        u.log = (fires.map (Fired.mk · r.now)).reverse ++ s.log := by
  induction rules generalizing s r with
  | nil =>
    refine ⟨_, Alone.move (setEvaluation_self _), setEvaluation_self _, rfl, ?_⟩
    rintro fires ⟨⟩
    rfl
  | cons rule rules ih =>
    have hrule : Alone ops i _ _ := alone_rule (s := s) (i := i) event eventTime rule rules r
    have hnow : ((evaluateRule ops event eventTime rule).exec r).2.now = r.now := evaluateRule_now
    cases hexec : (evaluateRule ops event eventTime rule).exec r with
    | mk result r' =>
      rw [hexec] at hrule hnow
      cases result with
      | error e =>
        rw [evaluate_cons_error hexec]
        exact ⟨_, hrule, setEvaluation_self _, rfl, nofun⟩
      | ok fire =>
        obtain ⟨u, hu, hended, hredis, hlog⟩ := ih (s := { s with
          log := fire.toList.map (Fired.mk · r.now) ++ s.log }) r'
        refine ⟨u, hrule.trans hu, hended, ?_, ?_⟩ <;> rw [evaluate_cons_ok hexec]
        · rw [hredis, Script.exec_bind]
          cases hrest : (evaluate ops event eventTime rules).exec r' with
          | mk result r'' => cases result <;> rfl
        · intro fires hfires
          rw [Script.exec_bind] at hfires
          cases hrest : (evaluate ops event eventTime rules).exec r' with
          | mk result r'' =>
            rw [hrest] at hfires hlog
            cases result with
            | error e => cases hfires
            | ok later =>
              cases hfires
              have hnow : r'.now = r.now := hnow
              rw [hlog later rfl, hnow]
              cases fire <;> simp

end Alone

/-! ## The condition computes -/

section Check

variable (ops : RuleOps ρ) (s : Detectors ρ)

/-- The condition on a turn whose next command is due. -/
def undisturbedTurn (p : Evaluation ρ) (t : Turn ρ) : Bool :=
  match t.stage with
  | .added _ =>
    match s.redis.find (windowKeyOf ops t.rule p.event) with
    | some ⟨.text _, some expiresAt⟩ =>
      decide (expiresAt ≤ s.redis.now + max (ops.timeframeSec t.rule * 10) 60 * second)
    | _ => true
  | .recorded _ => s.log.all fun f => decide (f.key ops = cooldownKeyOf ops t.rule p.event →
      t.checkedAt ≤ f.time → f.ends ops ≤ s.redis.now)
  | _ => true

def undisturbed : DetectorAct ρ → Bool
  | .move i => (s.evaluations i).all fun p => p.turn.all fun t => undisturbedTurn ops s p t
  | _ => true

variable {ops s}

theorem undisturbed_of_check {a : DetectorAct ρ} (h : undisturbed ops s a = true) :
    Undisturbed ops s a := by
  rintro i p t rfl hp ht
  have hturn : undisturbedTurn ops s p t = true := by
    rw [undisturbed, hp, Option.all_some, ht, Option.all_some] at h
    exact h
  unfold undisturbedTurn at hturn
  split at hturn
  · intro value expiresAt hfind
    rw [hfind] at hturn
    exact of_decide_eq_true hturn
  · intro f hf
    exact of_decide_eq_true (List.all_eq_true.mp hturn f hf)
  · trivial

end Check

/-- A rule that fires on every failed login. -/
def loginRules : List CompiledSigmaRule :=
  match compileRules plainRuntime "rules.yml".toList [ruleYaml "login" "status" "failed" []] with
  | .ok rules => rules
  | .error _ => []

def fireTimes (log : List (Fired CompiledSigmaRule)) : List (Str × Str × Int) :=
  log.map fun f => (f.fire.rule.id, f.fire.dedupKey, f.time)

/-- Two processes evaluate a failed login. -/
def logins (commands : List (DetectorAct CompiledSigmaRule)) :
    List (DetectorAct CompiledSigmaRule) :=
  .evaluate 0 failedLogin 0 loginRules :: .evaluate 1 failedLogin 0 loginRules :: commands

/-- Both ask before either sets the cooldown. -/
def racing : List (DetectorAct CompiledSigmaRule) :=
  logins ([.move 0, .move 1] ++ List.replicate 5 (.move 0) ++ List.replicate 5 (.move 1))

/-- The second asks when the first has fired, and again when the cooldown has run out. -/
def waiting : List (DetectorAct CompiledSigmaRule) :=
  logins (List.replicate 6 (.move 0) ++ List.replicate 2 (.move 1) ++
    [.tick (300 * second), .evaluate 1 failedLogin (300 * second) loginRules] ++
    List.replicate 6 (.move 1))

/-- Two fires at the same time, with a cooldown of 300 s. -/
theorem both_fire :
    ∃ s, AnyRun (Detectors.step (sigmaOps plainRuntime)) Detectors.start racing s ∧
      loginRules.map CompiledSigmaRule.cooldownSec = [300] ∧
      fireTimes s.log = [("login".toList, "login".toList, 0), ("login".toList, "login".toList, 0)] ∧
      ¬ Spaced (sigmaOps plainRuntime) s.log := by
  have hexec : (exec (Detectors.step (sigmaOps plainRuntime)) Detectors.start racing).any (fun s =>
      decide (fireTimes s.log = [("login".toList, "login".toList, 0),
        ("login".toList, "login".toList, 0)] ∧ ¬ Spaced (sigmaOps plainRuntime) s.log)) = true := by
    decide +kernel
  obtain ⟨s, hrun, hcheck⟩ := run_of_check hexec
  exact ⟨s, hrun, by decide +kernel, of_decide_eq_true hcheck⟩

theorem fires_spaced_login :
    ∃ s, Run (Detectors.step (sigmaOps plainRuntime)) (Undisturbed (sigmaOps plainRuntime))
        Detectors.start waiting s ∧
      fireTimes s.log = [("login".toList, "login".toList, 300 * second),
        ("login".toList, "login".toList, 0)] ∧
      Spaced (sigmaOps plainRuntime) s.log := by
  have hexec : (exec (fun s a => if undisturbed (sigmaOps plainRuntime) s a = true
      then Detectors.step (sigmaOps plainRuntime) s a else none) Detectors.start waiting).any (fun s =>
      decide (fireTimes s.log = [("login".toList, "login".toList, 300 * second),
        ("login".toList, "login".toList, 0)])) = true := by decide +kernel
  obtain ⟨s, hrun, hcheck⟩ := run_of_guarded_check hexec
  have hrun' := hrun.mono fun _ _ => undisturbed_of_check
  exact ⟨s, hrun', of_decide_eq_true hcheck, fires_spaced _ _ s hrun'⟩

end ZaqorinCore.Server
