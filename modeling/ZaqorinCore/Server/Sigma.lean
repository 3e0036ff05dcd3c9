import ZaqorinCore.Base.Script
import ZaqorinCore.Text.Decimal
import ZaqorinCore.Server.Store

/-!
# The Sigma runner

`rule_engine/runner.py` and the Redis commands it uses. Redis is a table of keys, each a text or a
sorted set, with the time at which the key expires; times are in nanoseconds. What the runner asks
of a rule, such as whether it matches an event, is `RuleOps`; the database's answer to an insert
is a parameter of `persistFire`.
-/

namespace ZaqorinCore.Server

open Text Base

/-- The exceptions that the code raises or lets through. -/
inductive PyError
  | importError (name package : String)
  | attributeError (type name : String)
  | sigmaRuleLoad (path reason : Str)
  | responseError (message : String)
  | osError
  | overflowError
  | other (name : String)
  deriving DecidableEq

abbrev Py (σ : Type) := Script σ PyError

def second : Int := 1000000000

/-! ## Redis -/

inductive RedisValue
  | text (s : Str)
  | sorted (members : List (Str × Int))

structure RedisEntry where
  value : RedisValue
  expiresAt : Option Int

structure Redis where
  now : Int
  entries : Str → Option RedisEntry

namespace Redis

/-- The entry of a key that has not expired. -/
def find (r : Redis) (key : Str) : Option RedisEntry :=
  (r.entries key).filter fun e => e.expiresAt.all (r.now < ·)

def put (r : Redis) (key : Str) (e : Option RedisEntry) : Redis :=
  { r with entries := Function.update r.entries key e }

def wrongType : PyError :=
  .responseError "WRONGTYPE Operation against a key holding the wrong kind of value"

/-- The sorted set at a key and when it expires; a missing key is an empty set. -/
def sortedAt (key : Str) : Py Redis (List (Str × Int) × Option Int) := do
  let r ← get
  match r.find key with
  | none => pure ([], none)
  | some ⟨.sorted members, expiresAt⟩ => pure (members, expiresAt)
  | some ⟨.text _, _⟩ => throw wrongType

/-- `ZADD` of one member: a member already there gets the new score. -/
def zadd (key member : Str) (score : Int) : Py Redis Unit := do
  let (members, expiresAt) ← sortedAt key
  let others := members.filter fun m => m.1 != member
  modify fun r => r.put key (some ⟨.sorted ((member, score) :: others), expiresAt⟩)

/-- `ZREMRANGEBYSCORE`: an emptied set is no key any more. -/
def zremrangebyscore (key : Str) (low high : Int) : Py Redis Unit := do
  let (members, expiresAt) ← sortedAt key
  let kept := members.filter fun m => !(low ≤ m.2 && m.2 ≤ high)
  modify fun r => r.put key (if kept = [] then none else some ⟨.sorted kept, expiresAt⟩)

def zcard (key : Str) : Py Redis Nat := do
  let (members, _) ← sortedAt key
  pure members.length

/-- `EXPIRE`: a time that is not positive removes the key. -/
def expire (key : Str) (seconds : Int) : Py Redis Unit :=
  modify fun r =>
    match r.find key with
    | none => r
    | some e =>
      if seconds ≤ 0 then r.put key none
      else r.put key (some { e with expiresAt := some (r.now + seconds * second) })

def exists_ (key : Str) : Py Redis Bool := do
  let r ← get
  pure (r.find key).isSome

/-- `SET key value EX seconds`. -/
def setEx (key value : Str) (seconds : Int) : Py Redis Unit := do
  if seconds ≤ 0 then throw (.responseError "invalid expire time in 'set' command")
  modify fun r => r.put key (some ⟨.text value, some (r.now + seconds * second)⟩)

end Redis

/-! ## Rules -/

/-- `ParsedEvent`; `occurred_at` in seconds. -/
structure ParsedEvent where
  eventId : Uuid
  hostId : Uuid
  source : Str
  raw : Str
  metadata : List (Str × Str)
  occurredAt : Int
  deriving DecidableEq

/-- `render_action`. -/
structure RenderedAction where
  kind : Str
  target : Str
  ttlSec : Option Int
  deriving DecidableEq

/-- What the runner asks of a rule. -/
structure RuleOps (ρ : Type) where
  id : ρ → Str
  title : ρ → Str
  level : ρ → Str
  count : ρ → Int
  timeframeSec : ρ → Int
  cooldownSec : ρ → Int
  applies : ρ → ParsedEvent → Except PyError Bool
  renderDedupKey : ρ → ParsedEvent → Str
  renderAction : ρ → ParsedEvent → Except PyError (Option RenderedAction)

structure RuleFire (ρ : Type) where
  rule : ρ
  event : ParsedEvent
  dedupKey : Str
  count : Int
  renderedAction : Option RenderedAction
  deriving DecidableEq

variable {ρ : Type}

namespace SigmaRuleRunner

def eventsKey (ruleId dedup : Str) : Str :=
  "zaqorin:rule:".toList ++ ruleId ++ ":events:".toList ++ dedup

def cooldownKey (ruleId dedup : Str) : Str :=
  "zaqorin:rule:".toList ++ ruleId ++ ":cooldown:".toList ++ dedup

def countInWindow (ops : RuleOps ρ) (rule : ρ) (dedup : Str) (eventTime : Int) : Py Redis Nat := do
  let key := eventsKey (ops.id rule) dedup
  Redis.zremrangebyscore key 0 (eventTime - ops.timeframeSec rule * second)
  Redis.zcard key

def recordEvent (ops : RuleOps ρ) (rule : ρ) (dedup : Str) (eventTime : Int) (eventId : Str) :
    Py Redis Unit := do
  let key := eventsKey (ops.id rule) dedup
  Redis.zadd key eventId eventTime
  Redis.expire key (max (ops.timeframeSec rule * 10) 60)

def isInCooldown (ops : RuleOps ρ) (rule : ρ) (dedup : Str) : Py Redis Bool :=
  Redis.exists_ (cooldownKey (ops.id rule) dedup)

def setCooldown (ops : RuleOps ρ) (rule : ρ) (dedup : Str) : Py Redis Unit :=
  Redis.setEx (cooldownKey (ops.id rule) dedup) "1".toList (ops.cooldownSec rule)

/-- One pass of the loop of `evaluate`. -/
def evaluateRule (ops : RuleOps ρ) (event : ParsedEvent) (eventTime : Int) (rule : ρ) :
    Py Redis (Option (RuleFire ρ)) := do
  if !(← ops.applies rule event) then return none
  let key := ops.renderDedupKey rule event
  let dedup := if key = [] then ops.id rule else key
  if ← isInCooldown ops rule dedup then return none
  let count : Int := (← countInWindow ops rule dedup eventTime) + 1
  recordEvent ops rule dedup eventTime (uuidStr event.eventId)
  if count < ops.count rule then return none
  setCooldown ops rule dedup
  return some ⟨rule, event, dedup, count, ← ops.renderAction rule event⟩

/-- `evaluate`: the fires of all rules, in order. -/
def evaluate (ops : RuleOps ρ) (event : ParsedEvent) (eventTime : Int) :
    List ρ → Py Redis (List (RuleFire ρ))
  | [] => pure []
  | rule :: rules => do
    let fire ← evaluateRule ops event eventTime rule
    let fires ← evaluate ops event eventTime rules
    pure (fire.toList ++ fires)

end SigmaRuleRunner

/-! ## Alerts -/

/-- `alerts`, with the entries of its `detail`. -/
structure Alert where
  id : Uuid
  hostId : Uuid
  detector : Str
  summary : Str
  severity : Str
  count : Int
  dedupKey : Str
  eventId : Str

/-- The rows that `persist_fire` adds in `live` mode; the identifiers are fresh. -/
def persistFire (ops : RuleOps ρ) (alertId actionId : Uuid) (createdAt : Int) (fire : RuleFire ρ) :
    Alert × Option Action :=
  (⟨alertId, fire.event.hostId, ops.id fire.rule, ops.title fire.rule, ops.level fire.rule,
      fire.count, fire.dedupKey, uuidStr fire.event.eventId⟩,
    fire.renderedAction.map fun a =>
      ⟨actionId, some fire.event.hostId, a.kind, a.target, a.ttlSec, .pending, none, none,
        createdAt⟩)

end ZaqorinCore.Server
