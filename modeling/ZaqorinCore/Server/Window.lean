import ZaqorinCore.Server.Sigma

/-!
# One turn of the runner

What the Redis commands of the Sigma runner do to the table of keys, and what one turn of the loop
of `evaluate` does: `evaluateRule_exec`. A turn looks at two keys, the window of the rule and its
cooldown, and changes no other: `turn_frame`.
-/

namespace ZaqorinCore.Server

open Text Base

namespace Redis

/-! ## Keys -/

@[simp]
theorem find_put_self (r : Redis) (key : Str) (e : Option RedisEntry) :
    (r.put key e).find key = e.filter fun e => e.expiresAt.all (r.now < ·) := by
  show (Function.update r.entries key e key).filter _ = _
  rw [Function.update_self]
  rfl

theorem find_put_ne (r : Redis) {key other : Str} (e : Option RedisEntry) (h : other ≠ key) :
    (r.put key e).find other = r.find other := by
  show (Function.update r.entries key e other).filter _ = _
  rw [Function.update_of_ne h]
  rfl

theorem find_congr {r r' : Redis} {key : Str} (hnow : r.now = r'.now)
    (h : r.entries key = r'.entries key) : r.find key = r'.find key := by
  rw [find, find, h, hnow]

@[simp]
theorem put_now (r : Redis) (key : Str) (e : Option RedisEntry) : (r.put key e).now = r.now := rfl

@[simp]
theorem put_put (r : Redis) (key : Str) (e e' : Option RedisEntry) :
    (r.put key e).put key e' = r.put key e' := by
  simp [put]

/-- The members of the sorted set at a key, and `none` when the key holds a text. -/
def window (r : Redis) (key : Str) : Option (List (Str × Int)) :=
  match r.find key with
  | none => some []
  | some ⟨.sorted members, _⟩ => some members
  | some ⟨.text _, _⟩ => none

theorem window_congr {r r' : Redis} {key : Str} (h : r.find key = r'.find key) :
    r.window key = r'.window key := by
  rw [window, window, h]

/-! ## Commands -/

theorem exec_exists (r : Redis) (key : Str) :
    (exists_ key).exec r = (.ok (r.find key).isSome, r) := rfl

/-- The time at which the set at a key expires, if ever. -/
def expiry (r : Redis) (key : Str) : Option Int := (r.find key).bind RedisEntry.expiresAt

theorem exec_sortedAt {r : Redis} {key : Str} {members : List (Str × Int)}
    (h : r.window key = some members) :
    (sortedAt key).exec r = (.ok (members, r.expiry key), r) := by
  rw [sortedAt, Script.exec_bind_ok (Script.exec_get r)]
  unfold window at h
  unfold expiry
  split at h
  · rename_i hfind
    cases h
    rw [hfind]
    rfl
  · rename_i ms expiresAt hfind
    cases h
    rw [hfind]
    rfl
  · cases h

theorem find_of_window_eq_none {r : Redis} {key : Str} (h : r.window key = none) :
    ∃ text expiresAt, r.find key = some ⟨.text text, expiresAt⟩ := by
  unfold window at h
  cases hfind : r.find key with
  | none =>
    rw [hfind] at h
    cases h
  | some entry =>
    obtain ⟨value, expiresAt⟩ := entry
    cases value with
    | text text => exact ⟨text, expiresAt, rfl⟩
    | sorted members =>
      rw [hfind] at h
      cases h

theorem exec_sortedAt_text {r : Redis} {key : Str} (h : r.window key = none) :
    (sortedAt key).exec r = (.error wrongType, r) := by
  obtain ⟨text, expiresAt, hfind⟩ := find_of_window_eq_none h
  rw [sortedAt, Script.exec_bind_ok (Script.exec_get r), hfind]
  rfl

/-- A set that is there has not expired. -/
theorem expiry_all (r : Redis) (key : Str) : (r.expiry key).all (r.now < ·) = true := by
  unfold expiry
  cases hfind : r.find key with
  | none => rfl
  | some e =>
    have := (Option.filter_eq_some_iff.mp hfind).2
    simpa using this

/-- `ZREMRANGEBYSCORE`, `ZADD` and `EXPIRE` of one key, one after the other. -/
def record (r : Redis) (key member : Str) (score : Int) (kept : List (Str × Int)) (seconds : Int) :
    Redis :=
  r.put key (some ⟨.sorted ((member, score) :: kept.filter fun m => m.1 != member),
    some (r.now + seconds * second)⟩)

theorem exec_zrem {r : Redis} {key : Str} {members : List (Str × Int)} {low high : Int}
    (h : r.window key = some members) :
    (zremrangebyscore key low high).exec r =
      (.ok (), r.put key (if (members.filter fun m => !(low ≤ m.2 && m.2 ≤ high)) = [] then none
        else some ⟨.sorted (members.filter fun m => !(low ≤ m.2 && m.2 ≤ high)),
          r.expiry key⟩)) := by
  rw [zremrangebyscore, Script.exec_bind_ok (exec_sortedAt h)]
  exact Script.exec_modify _ r

theorem exec_zcard {r : Redis} {key : Str} {members : List (Str × Int)}
    (h : r.window key = some members) : (zcard key).exec r = (.ok members.length, r) := by
  rw [zcard, Script.exec_bind_ok (exec_sortedAt h)]
  rfl

theorem exec_zadd {r : Redis} {key member : Str} {score : Int} {members : List (Str × Int)}
    (h : r.window key = some members) :
    (zadd key member score).exec r =
      (.ok (), r.put key (some ⟨.sorted ((member, score) :: members.filter fun m => m.1 != member),
        r.expiry key⟩)) := by
  rw [zadd, Script.exec_bind_ok (exec_sortedAt h)]
  exact Script.exec_modify _ r

/-- What is kept of a window is the window afterwards, with the same expiry unless it is empty. -/
theorem window_kept (r : Redis) (key : Str) (kept : List (Str × Int)) :
    (r.put key (if kept = [] then none else some ⟨.sorted kept, r.expiry key⟩)).window key =
      some kept := by
  rw [window, find_put_self]
  by_cases hkept : kept = []
  · rw [if_pos hkept, hkept]
    rfl
  · rw [if_neg hkept, Option.filter_some, if_pos (expiry_all r key)]

theorem exec_expire {r : Redis} {key : Str} {e : RedisEntry} {seconds : Int}
    (h : r.find key = some e) (hpos : 0 < seconds) :
    (expire key seconds).exec r =
      (.ok (), r.put key (some { e with expiresAt := some (r.now + seconds * second) })) := by
  rw [expire, Script.exec_modify, h]
  simp only
  rw [if_neg (by omega)]

theorem exec_setEx {r : Redis} {key value : Str} {seconds : Int} (hpos : 0 < seconds) :
    (setEx key value seconds).exec r =
      (.ok (), r.put key (some ⟨.text value, some (r.now + seconds * second)⟩)) := by
  unfold setEx
  rw [if_neg (by omega)]
  rfl

theorem exec_setEx_invalid {r : Redis} {key value : Str} {seconds : Int} (hneg : ¬ 0 < seconds) :
    (setEx key value seconds).exec r =
      (.error (.responseError "invalid expire time in 'set' command"), r) := by
  unfold setEx
  rw [if_pos (by omega)]
  rfl

end Redis

/-! ## A turn -/

namespace SigmaRuleRunner

variable {ρ : Type} (ops : RuleOps ρ)

/-- `rule.render_dedup_key(event) or rule.id`. -/
def dedupOf (rule : ρ) (event : ParsedEvent) : Str :=
  if ops.renderDedupKey rule event = [] then ops.id rule else ops.renderDedupKey rule event

/-- The key of the window that the event counts in. -/
def windowKeyOf (rule : ρ) (event : ParsedEvent) : Str :=
  eventsKey (ops.id rule) (dedupOf ops rule event)

def cooldownKeyOf (rule : ρ) (event : ParsedEvent) : Str :=
  cooldownKey (ops.id rule) (dedupOf ops rule event)

/-- The members of a window that have not left it at the time of the event. -/
def kept (rule : ρ) (eventTime : Int) (members : List (Str × Int)) : List (Str × Int) :=
  members.filter fun m => !(0 ≤ m.2 && m.2 ≤ eventTime - ops.timeframeSec rule * second)

/-- The window with the event in it. -/
def recorded (rule : ρ) (event : ParsedEvent) (eventTime : Int) (members : List (Str × Int))
    (r : Redis) : Redis :=
  r.record (windowKeyOf ops rule event) (uuidStr event.eventId) eventTime
    (kept ops rule eventTime members) (max (ops.timeframeSec rule * 10) 60)

/-- The cooldown of the rule is set. -/
def cooled (rule : ρ) (event : ParsedEvent) (r : Redis) : Redis :=
  r.put (cooldownKeyOf ops rule event)
    (some ⟨.text "1".toList, some (r.now + ops.cooldownSec rule * second)⟩)

/-- A turn of a rule that matches the event. -/
def turn (event : ParsedEvent) (eventTime : Int) (rule : ρ) (r : Redis) :
    Except PyError (Option (RuleFire ρ)) × Redis :=
  if (r.find (cooldownKeyOf ops rule event)).isSome then (.ok none, r)
  else match r.window (windowKeyOf ops rule event) with
    | none => (.error Redis.wrongType, r)
    | some members =>
      let r' := recorded ops rule event eventTime members r
      let count : Int := (kept ops rule eventTime members).length + 1
      if count < ops.count rule then (.ok none, r')
      else if ops.cooldownSec rule ≤ 0 then
        (.error (.responseError "invalid expire time in 'set' command"), r')
      else ((ops.renderAction rule event).map fun action =>
        some ⟨rule, event, dedupOf ops rule event, count, action⟩, cooled ops rule event r')

variable {ops} {rule : ρ} {event : ParsedEvent} {eventTime : Int} {r : Redis}

/-- The state between the count and the recording. -/
def pruned (ops : RuleOps ρ) (rule : ρ) (event : ParsedEvent) (eventTime : Int)
    (members : List (Str × Int)) (r : Redis) : Redis :=
  r.put (windowKeyOf ops rule event) (if kept ops rule eventTime members = [] then none
    else some ⟨.sorted (kept ops rule eventTime members), r.expiry (windowKeyOf ops rule event)⟩)

theorem exec_countInWindow {members : List (Str × Int)}
    (h : r.window (windowKeyOf ops rule event) = some members) :
    (countInWindow ops rule (dedupOf ops rule event) eventTime).exec r =
      (.ok (kept ops rule eventTime members).length, pruned ops rule event eventTime members r) :=
  (Script.exec_bind_ok (Redis.exec_zrem h) _).trans (Redis.exec_zcard (Redis.window_kept r _ _))

theorem exec_countInWindow_text (h : r.window (windowKeyOf ops rule event) = none) :
    (countInWindow ops rule (dedupOf ops rule event) eventTime).exec r =
      (.error Redis.wrongType, r) := by
  refine Script.exec_bind_error ?_ _
  exact Script.exec_bind_error (Redis.exec_sortedAt_text h) _

/-- The state between `ZADD` and `EXPIRE`. -/
def added (ops : RuleOps ρ) (rule : ρ) (event : ParsedEvent) (eventTime : Int)
    (members : List (Str × Int)) (r : Redis) : Redis :=
  (pruned ops rule event eventTime members r).put (windowKeyOf ops rule event)
    (some ⟨.sorted ((uuidStr event.eventId, eventTime) ::
      (kept ops rule eventTime members).filter fun m => m.1 != uuidStr event.eventId),
      (pruned ops rule event eventTime members r).expiry (windowKeyOf ops rule event)⟩)

theorem exec_zadd_pruned (members : List (Str × Int)) :
    (Redis.zadd (windowKeyOf ops rule event) (uuidStr event.eventId) eventTime).exec
        (pruned ops rule event eventTime members r) =
      (.ok (), added ops rule event eventTime members r) :=
  Redis.exec_zadd (Redis.window_kept r _ _)

theorem exec_expire_added (members : List (Str × Int)) :
    (Redis.expire (windowKeyOf ops rule event) (max (ops.timeframeSec rule * 10) 60)).exec
        (added ops rule event eventTime members r) =
      (.ok (), recorded ops rule event eventTime members r) := by
  have hfind := Redis.find_put_self (pruned ops rule event eventTime members r)
    (windowKeyOf ops rule event)
    (some ⟨.sorted ((uuidStr event.eventId, eventTime) ::
      (kept ops rule eventTime members).filter fun m => m.1 != uuidStr event.eventId),
      (pruned ops rule event eventTime members r).expiry (windowKeyOf ops rule event)⟩)
  rw [Option.filter_some, if_pos (Redis.expiry_all _ _)] at hfind
  have hpos : 0 < max (ops.timeframeSec rule * 10) 60 := by omega
  refine (Redis.exec_expire hfind hpos).trans ?_
  rw [pruned, Redis.put_put, Redis.put_put]
  rfl

theorem exec_recordEvent (members : List (Str × Int)) :
    (recordEvent ops rule (dedupOf ops rule event) eventTime (uuidStr event.eventId)).exec
        (pruned ops rule event eventTime members r) =
      (.ok (), recorded ops rule event eventTime members r) :=
  (Script.exec_bind_ok (exec_zadd_pruned members) _).trans (exec_expire_added members)

theorem evaluateRule_exec (h : ops.applies rule event = .ok true) :
    (evaluateRule ops event eventTime rule).exec r = turn ops event eventTime rule r := by
  have hap : (liftM (ops.applies rule event) : Py Redis Bool).exec r = (.ok true, r) := by
    rw [Script.exec_lift, h]
  unfold evaluateRule turn
  rw [Script.exec_bind_ok hap]
  simp only [Bool.not_true, Bool.false_eq_true, if_false]
  refine (Script.exec_bind_ok (Redis.exec_exists r (cooldownKeyOf ops rule event)) _).trans ?_
  by_cases hcool : (r.find (cooldownKeyOf ops rule event)).isSome = true
  · rw [if_pos hcool, if_pos hcool]
    rfl
  rw [if_neg hcool, if_neg hcool]
  cases hwindow : r.window (windowKeyOf ops rule event) with
  | none => exact Script.exec_bind_error (exec_countInWindow_text hwindow) _
  | some members =>
    refine (Script.exec_bind_ok (exec_countInWindow hwindow) _).trans ?_
    refine (Script.exec_bind_ok (exec_recordEvent members) _).trans ?_
    dsimp only
    by_cases hcount : ((kept ops rule eventTime members).length : Int) + 1 < ops.count rule
    · rw [if_pos hcount, if_pos hcount]
      rfl
    rw [if_neg hcount, if_neg hcount]
    by_cases hpos : 0 < ops.cooldownSec rule
    · rw [if_neg (not_le.mpr hpos)]
      refine (Script.exec_bind_ok (Redis.exec_setEx hpos) _).trans ?_
      cases haction : ops.renderAction rule event with
      | error err => rfl
      | ok action => rfl
    · rw [if_pos (not_lt.mp hpos)]
      exact Script.exec_bind_error (Redis.exec_setEx_invalid hpos) _

theorem evaluateRule_exec_false (h : ops.applies rule event = .ok false) :
    (evaluateRule ops event eventTime rule).exec r = (.ok none, r) := by
  unfold evaluateRule
  have hap : (liftM (ops.applies rule event) : Py Redis Bool).exec r = (.ok false, r) := by
    rw [Script.exec_lift, h]
  rw [Script.exec_bind_ok hap]
  rfl

theorem evaluateRule_exec_error {err : PyError} (h : ops.applies rule event = .error err) :
    (evaluateRule ops event eventTime rule).exec r = (.error err, r) := by
  unfold evaluateRule
  refine Script.exec_bind_error ?_ _
  rw [Script.exec_lift, h]

/-! ## The keys after a turn -/

theorem Redis.find_put_live {r : Redis} {key : Str} {value : RedisValue} {seconds : Int}
    (hpos : 0 < seconds) : (r.put key (some ⟨value, some (r.now + seconds * second)⟩)).find key =
      some ⟨value, some (r.now + seconds * second)⟩ := by
  have hlive : r.now < r.now + seconds * second := by
    unfold second
    omega
  rw [Redis.find_put_self, Option.filter_some, if_pos]
  simpa using hlive

theorem find_recorded (members : List (Str × Int)) :
    (recorded ops rule event eventTime members r).find (windowKeyOf ops rule event) =
      some ⟨.sorted ((uuidStr event.eventId, eventTime) ::
        (kept ops rule eventTime members).filter fun m => m.1 != uuidStr event.eventId),
        some (r.now + max (ops.timeframeSec rule * 10) 60 * second)⟩ :=
  Redis.find_put_live (by omega)

theorem find_cooled (hpos : 0 < ops.cooldownSec rule) :
    (cooled ops rule event r).find (cooldownKeyOf ops rule event) =
      some ⟨.text "1".toList, some (r.now + ops.cooldownSec rule * second)⟩ :=
  Redis.find_put_live hpos

/-- A turn changes the window and the cooldown of its rule, and nothing else. -/
theorem turn_frame {key : Str} (hwindow : key ≠ windowKeyOf ops rule event)
    (hcool : key ≠ cooldownKeyOf ops rule event) :
    (turn ops event eventTime rule r).2.entries key = r.entries key := by
  have hrecorded (members : List (Str × Int)) :
      (recorded ops rule event eventTime members r).entries key = r.entries key :=
    Function.update_of_ne hwindow _ _
  unfold turn
  split
  · rfl
  · split
    · rfl
    · dsimp only
      split
      · exact hrecorded _
      · split
        · exact hrecorded _
        · exact (Function.update_of_ne hcool _ _).trans (hrecorded _)

theorem turn_now : (turn ops event eventTime rule r).2.now = r.now := by
  unfold turn
  split
  · rfl
  · split
    · rfl
    · dsimp only
      split
      · rfl
      · split <;> rfl

theorem turn_find {key : Str} (hwindow : key ≠ windowKeyOf ops rule event)
    (hcool : key ≠ cooldownKeyOf ops rule event) :
    (turn ops event eventTime rule r).2.find key = r.find key :=
  Redis.find_congr turn_now (turn_frame hwindow hcool)

/-- A turn depends on the clock and on the two keys of its rule. -/
theorem turn_congr {r' : Redis} (hnow : r.now = r'.now)
    (hwindow : r.entries (windowKeyOf ops rule event) = r'.entries (windowKeyOf ops rule event))
    (hcool : r.entries (cooldownKeyOf ops rule event) =
      r'.entries (cooldownKeyOf ops rule event)) :
    (turn ops event eventTime rule r).1 = (turn ops event eventTime rule r').1 ∧
    (turn ops event eventTime rule r).2.entries (windowKeyOf ops rule event) =
      (turn ops event eventTime rule r').2.entries (windowKeyOf ops rule event) ∧
    (turn ops event eventTime rule r).2.entries (cooldownKeyOf ops rule event) =
      (turn ops event eventTime rule r').2.entries (cooldownKeyOf ops rule event) := by
  have hput (key : Str) (e : Option RedisEntry) (s s' : Redis)
      (hw : s.entries (windowKeyOf ops rule event) = s'.entries (windowKeyOf ops rule event))
      (hc : s.entries (cooldownKeyOf ops rule event) = s'.entries (cooldownKeyOf ops rule event)) :
      (s.put key e).entries (windowKeyOf ops rule event) =
        (s'.put key e).entries (windowKeyOf ops rule event) ∧
      (s.put key e).entries (cooldownKeyOf ops rule event) =
        (s'.put key e).entries (cooldownKeyOf ops rule event) := by
    simp only [Redis.put, Function.update_apply, hw, hc, and_self]
  have hrecorded (members : List (Str × Int)) :
      (recorded ops rule event eventTime members r).entries (windowKeyOf ops rule event) =
        (recorded ops rule event eventTime members r').entries (windowKeyOf ops rule event) ∧
      (recorded ops rule event eventTime members r).entries (cooldownKeyOf ops rule event) =
        (recorded ops rule event eventTime members r').entries (cooldownKeyOf ops rule event) := by
    unfold recorded Redis.record
    rw [hnow]
    exact hput _ _ _ _ hwindow hcool
  unfold turn
  rw [Redis.find_congr hnow hcool, Redis.window_congr (Redis.find_congr hnow hwindow)]
  split
  · exact ⟨rfl, hwindow, hcool⟩
  · split
    · exact ⟨rfl, hwindow, hcool⟩
    · dsimp only
      split
      · exact ⟨rfl, hrecorded _⟩
      · split
        · exact ⟨rfl, hrecorded _⟩
        · refine ⟨rfl, ?_⟩
          have hrnow (members : List (Str × Int)) :
              (recorded ops rule event eventTime members r).now =
                (recorded ops rule event eventTime members r').now := hnow
          unfold cooled
          rw [hrnow]
          exact hput _ _ _ _ (hrecorded _).1 (hrecorded _).2

end SigmaRuleRunner

end ZaqorinCore.Server
