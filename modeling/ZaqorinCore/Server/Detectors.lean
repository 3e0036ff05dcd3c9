import ZaqorinCore.Server.Consumer
import ZaqorinCore.Server.Cooldown

/-!
# The built-in detectors

The five detectors of `detectors/`, run by the consumer loop. Every call to Redis or to the
database is answered as an `Answer` says: it takes effect after a delay and is answered later still,
with or without an exception, and with some of its commands done when it fails. Two detectors take
their cooldown with `SET NX EX`; when that call fails they fire all the same. The other three read a
field that an event does not have, and find nothing.
-/

namespace ZaqorinCore.Server

open Text Base

/-! ## Redis -/

namespace Redis

/-- `SET key value NX EX seconds`: whether the key was set. -/
def setNxEx (key value : Str) (seconds : Int) : Py Redis Bool := do
  if seconds ≤ 0 then throw (.responseError "invalid expire time in 'set' command")
  let r ← get
  if (r.find key).isSome then return false
  modify fun r => r.put key (some ⟨.text value, some (r.now + seconds * second)⟩)
  return true

/-- `ZREMRANGEBYSCORE key -inf high`. -/
def zremUpTo (key : Str) (high : Int) : Py Redis Unit := do
  let (members, expiresAt) ← sortedAt key
  let kept := members.filter fun m => high < m.2
  modify fun r => r.put key (if kept = [] then none else some ⟨.sorted kept, expiresAt⟩)

/-- `SISMEMBER`. A set is kept as a sorted set whose scores are equal; no key is used as both. -/
def sismember (key member : Str) : Py Redis Bool := do
  let (members, _) ← sortedAt key
  pure (members.any fun m => m.1 == member)

def sadd (key member : Str) : Py Redis Unit := zadd key member 0

/-- The commands of a pipeline, each with its own reply. -/
def runCommands : List (Py Redis Nat) → Py Redis (List (Except PyError Nat))
  | [] => pure []
  | command :: commands => do
    let reply ← Script.attempt (fun _ => true) command
    let replies ← runCommands commands
    pure (reply :: replies)

/-- All commands are executed; then the first error is raised. -/
def runPipeline (commands : List (Py Redis Nat)) : Py Redis (List Nat) := do
  let replies ← runCommands commands
  liftM (replies.mapM id : Except PyError (List Nat))

def unit (command : Py Redis Unit) : Py Redis Nat := command *> pure 0

end Redis

/-! ## The outside world -/

/-- How a call is answered: the time that passes before it takes effect, the exception if there is
one, how many of the call's commands take effect then, the identifier that is drawn for a new row,
and the time that passes until the answer is there. -/
structure Answer where
  delay : Nat
  error : Option PyError
  done : Nat
  drawn : Uuid
  reply : Nat

/-- A row of `alerts`. The last five are not columns: what `write_alert` was called with, when the
detector returned the result, when the row was committed, and when Redis set the key of the
cooldown. It is not known to have set it when the detector fired without an answer. -/
structure AlertRow where
  id : Uuid
  hostId : Uuid
  detector : Str
  severity : Severity
  summary : Str
  detail : List (Str × Json)
  dedupKey : Str
  cooldownSec : Int
  resultAt : Int
  persistedAt : Int
  grantedAt : Option Int

/-- A row of `actions`, with the alert it refers to. -/
structure ActionRow where
  id : Uuid
  hostId : Uuid
  alert : AlertRow
  action : DetectionAction

/-- The rows are the newest first. `grantedAt` is about the result that is being made. -/
structure World where
  redis : Redis
  payloads : Uuid → Option (Str × List (Str × Str))
  answers : List Answer
  alerts : List AlertRow
  actions : List ActionRow
  grantedAt : Option Int

namespace World

def onRedis {α : Type} (m : Py Redis α) : Py World α :=
  Script.zoom redis (fun redis w => { w with redis }) m

/-- The answer to the next call; without one the call succeeds at once. -/
def nextAnswer : Py World Answer := do
  let w ← get
  let answer := w.answers.headD ⟨0, none, 0, 0, 0⟩
  modify fun w => { w with
    answers := w.answers.tail
    redis.now := w.redis.now + answer.delay }
  pure answer

/-- The world a while later. -/
def elapse (w : World) (time : Nat) : World := { w with redis.now := w.redis.now + time }

/-- What a call returns or raises comes a while after what it does. -/
def answered {α : Type} (reply : Nat) (m : Py World α) : Py World α := do
  let result ← Script.attempt (fun _ => true) m
  modify fun w => w.elapse reply
  liftM result

/-- A call to Redis; `part n` are its first `n` commands. -/
def reach {α : Type} (full : Py Redis α) (part : Nat → Py Redis Unit) : Py World α := do
  let answer ← nextAnswer
  answered answer.reply <| match answer.error with
    | none => onRedis full
    | some e => do
      let _ ← Script.attempt (fun _ => true) (onRedis (part answer.done))
      throw e

def command {α : Type} (m : Py Redis α) : Py World α :=
  reach m fun n => if n = 0 then pure () else m *> pure ()

def pipeline (commands : List (Py Redis Nat)) : Py World (List Nat) :=
  reach (Redis.runPipeline commands) fun n => Redis.runCommands (commands.take n) *> pure ()

/-- A statement of the database, committed when it succeeds; when it fails it can be committed or
not. -/
def statement {α : Type} (change : Uuid → World → World) (value : Uuid → World → α) :
    Py World α := do
  let answer ← nextAnswer
  answered answer.reply <| match answer.error with
    | none => do
      modify (change answer.drawn)
      let w ← get
      pure (value answer.drawn w)
    | some e => do
      modify fun w => if 0 < answer.done then change answer.drawn w else w
      throw e

end World

/-! ## What a detector reads -/

/-- The settings that exist, in their bounds; every other one is read with its default. -/
structure DetectorSettings where
  sshBruteforceThreshold : Int
  sshBruteforceWindowSec : Int
  sshBruteforceCooldownSec : Int
  threshold_bounds : 1 ≤ sshBruteforceThreshold ∧ sshBruteforceThreshold ≤ 10000
  window_bounds : 1 ≤ sshBruteforceWindowSec ∧ sshBruteforceWindowSec ≤ 86400
  cooldown_bounds : 1 ≤ sshBruteforceCooldownSec ∧ sshBruteforceCooldownSec ≤ 86400

/-- The parameters of the runtime: the condition on a final sigma in `lower`, `repr` of a text, the
address that `_SSH_FAILED_RE` finds in a text, and whether the pattern of a tag is found in one. -/
structure TextOps where
  finalSigma : Str → Str → Bool
  repr : Str → Str
  sshFailed : Str → Option Str
  webPattern : Str → Str → Bool

def TextOps.lower (txt : TextOps) (s : Str) : Str := Text.lower txt.finalSigma s

def metaGet (event : ParsedEvent) (key : String) : Option Str := dictGet event.metadata key.toList

/-- `a or b` of two values that may be missing. -/
def orElse (a b : Option Str) : Option Str := if a.any (!·.isEmpty) then a else b

/-- `int(event.timestamp.timestamp() * 1000)`; a `ParsedEvent` has no `timestamp`. -/
def nowMs (_event : ParsedEvent) : Except PyError Int :=
  throw (.attributeError "ParsedEvent" "timestamp")

inductive Builtin
  | sshBruteforce
  | portScan
  | webAttack
  | dnsTunnel
  | authAnomaly
  deriving DecidableEq

def Builtin.name : Builtin → Str
  | .sshBruteforce => "ssh_bruteforce".toList
  | .portScan => "port_scan".toList
  | .webAttack => "web_attack".toList
  | .dnsTunnel => "dns_tunnel".toList
  | .authAnomaly => "auth_anomaly".toList

/-- `zc:rule:<name>:<host>:<rest>`. -/
def ruleKey (name : String) (hostId : Uuid) (rest : Str) : Str :=
  "zc:rule:".toList ++ (name.toList ++ ':' :: (uuidStr hostId ++ ':' :: rest))

/-! ## SSH brute force -/

section Ssh

variable (txt : TextOps) (st : DetectorSettings)

def sshSourceIp (event : ParsedEvent) : Option Str :=
  match metaGet event "source_ip" with
  | none | some [] => txt.sshFailed event.raw
  | some ip => some (strip ip)

def isFailedLogin (event : ParsedEvent) : Bool :=
  let status := txt.lower ((metaGet event "status").getD [])
  status = "failed".toList || status = "failure".toList || status = "invalid".toList ||
    (txt.sshFailed event.raw).isSome

def sshCooldownSec : Int := max st.sshBruteforceCooldownSec (st.sshBruteforceWindowSec * 5)

def sshWindowKey (hostId : Uuid) (ip : Str) : Str := ruleKey "ssh_bruteforce" hostId ip

def sshCooldownKey (hostId : Uuid) (ip : Str) : Str := sshWindowKey hostId ip ++ ":cooldown".toList

/-- The events of the window, with this one; on an exception nothing is known. -/
def sshCount (event : ParsedEvent) (ip : Str) : Py World (Option Nat) := do
  let key := sshWindowKey event.hostId ip
  let replies ← attempt (World.pipeline [
    Redis.unit (Redis.zremrangebyscore key 0 (event.occurredAt - st.sshBruteforceWindowSec)),
    Redis.unit (Redis.zadd key (uuidStr event.eventId) event.occurredAt),
    Redis.zcard key,
    Redis.unit (Redis.expire key (sshCooldownSec st))])
  match replies with
  | .ok replies => pure replies[2]?
  | .error _ => pure none

/-- `SET key "1" NX EX seconds`, with the time at which Redis executes it, which is no part of the
reply. -/
def setCooldown (key : Str) (seconds : Int) : Py Redis (Bool × Int) := do
  let fired ← Redis.setNxEx key "1".toList seconds
  let r ← get
  pure (fired, r.now)

/-- The cooldown of a detector; on an exception it fires. -/
def takeCooldown (key : Str) (seconds : Int) : Py World Bool := do
  let reply ← attempt (World.command (setCooldown key seconds))
  match reply with
  | .ok (fired, time) => do
    modify fun w => { w with grantedAt := if fired then some time else none }
    pure fired
  | .error _ => do
    modify fun w => { w with grantedAt := none }
    pure true

def sshResult (event : ParsedEvent) (ip : Str) (count : Nat) : DetectionResult where
  detector := Builtin.sshBruteforce.name
  severity := .medium
  summary := "SSH brute-force from ".toList ++ ip ++ ": ".toList ++ itoa count ++
    " failed logins in ".toList ++ itoa st.sshBruteforceWindowSec ++ "s".toList
  detail := [("source_ip".toList, .str ip), ("window_sec".toList, .int st.sshBruteforceWindowSec),
    ("threshold".toList, .int st.sshBruteforceThreshold), ("observed_count".toList, .int count),
    ("host_id".toList, .str (uuidStr event.hostId)),
    ("event_id".toList, .str (uuidStr event.eventId))]
  cooldownSec := sshCooldownSec st
  dedupKey := ip
  action := some ⟨"block_ip".toList, ip, some 3600⟩

/-- From the count on. -/
def sshFire (event : ParsedEvent) (ip : Str) : Option Nat → Py World (List DetectionResult)
  | none => pure []
  | some count =>
    if (count : Int) < st.sshBruteforceThreshold then pure []
    else do
      let fired ← takeCooldown (sshCooldownKey event.hostId ip) (sshCooldownSec st)
      pure (if fired then [sshResult st event ip count] else [])

def sshOnEvent (event : ParsedEvent) : Py World (List DetectionResult) :=
  if !isFailedLogin txt event then pure []
  else match sshSourceIp txt event with
    | none | some [] => pure []
    | some ip => sshCount st event ip >>= sshFire st event ip

end Ssh

/-! ## Web attacks -/

section Web

variable (txt : TextOps)

def webTags : List Str :=
  ["sqli".toList, "xss".toList, "path_traversal".toList, "scanner".toList]

def isHttpEvent (event : ParsedEvent) : Bool :=
  let src := txt.lower ((metaGet event "source").getD [])
  ["nginx", "apache", "http", "access"].any (fun w => contains w.toList src) ||
    ["get ", "post ", "put ", "delete ", "head "].any fun p =>
      p.toList.isPrefixOf (txt.lower event.raw)

def webMatches (event : ParsedEvent) : List Str :=
  webTags.filter fun tag => txt.webPattern tag event.raw

def webCooldownSec : Int := 300

def webDedupKey (ip tag : Str) : Str := ip ++ ':' :: tag

def webCooldownKey (hostId : Uuid) (ip tag : Str) : Str :=
  ruleKey "web_attack" hostId (webDedupKey ip tag)

def webResult (event : ParsedEvent) (ip tag : Str) (matched : List Str) : DetectionResult where
  detector := Builtin.webAttack.name
  severity := if tag = "sqli".toList ∨ tag = "scanner".toList then .high else .medium
  summary := "web attack (".toList ++ tag ++ ") from ".toList ++ ip
  detail := [("source_ip".toList, .str ip), ("match_tags".toList, .arr (matched.map .str)),
    ("raw_excerpt".toList, .str (event.raw.take 500))]
  cooldownSec := webCooldownSec
  dedupKey := webDedupKey ip tag
  action := some ⟨"block_ip".toList, ip, some 3600⟩

/-- The tags in order; the first whose cooldown is free fires. -/
def webFire (event : ParsedEvent) (ip : Str) (matched : List Str) :
    List Str → Py World (List DetectionResult)
  | [] => pure []
  | tag :: tags => do
    let acquired ← takeCooldown (webCooldownKey event.hostId ip tag) webCooldownSec
    if acquired then pure [webResult event ip tag matched] else webFire event ip matched tags

def webOnEvent (event : ParsedEvent) : Py World (List DetectionResult) :=
  if !isHttpEvent txt event then pure []
  else match webMatches txt event, metaGet event "source_ip" with
    | [], _ | _, none | _, some [] => pure []
    | matched, some ip => webFire event ip matched matched

end Web

/-! ## Windows in milliseconds -/

/-- The members of a window with the event in it. -/
def countMs (event : ParsedEvent) (key : Str) (member : Int → Str) (windowSec : Int) :
    Py World Nat := do
  let now ← nowMs event
  let replies ← World.pipeline [
    Redis.unit (Redis.zremUpTo key (now - windowSec * 1000)),
    Redis.unit (Redis.zadd key (member now) now),
    Redis.zcard key,
    Redis.unit (Redis.expire key (windowSec * 5))]
  pure (replies.getD 2 0)

/-- `try`, and no result on an exception. -/
def resultsOf {α : Type} (count : Py World α) (results : α → List DetectionResult) :
    Py World (List DetectionResult) := do
  let found ← attempt count
  match found with
  | .ok a => pure (results a)
  | .error _ => pure []

/-! ### Port scans -/

def portScanThreshold : Int := 20

def portScanWindowSec : Int := 30

def portScanCooldownSec : Int := 600

def destPort (event : ParsedEvent) : Option Int :=
  match orElse (metaGet event "dest_port") (metaGet event "dport") with
  | none => none
  | some raw => (pyInt raw).filter fun n => 0 < n && n < 65536

def isPortKnock (event : ParsedEvent) : Bool :=
  metaGet event "event_type" = some "network.connect".toList || (destPort event).isSome

def portScanResult (ip : Str) (ports : Nat) : DetectionResult where
  detector := Builtin.portScan.name
  severity := .medium
  summary := "port scan: ".toList ++ ip ++ " hit ".toList ++ itoa ports ++ " ports in ".toList ++
    itoa portScanWindowSec ++ "s".toList
  detail := [("source_ip".toList, .str ip), ("ports_in_window".toList, .int ports),
    ("window_sec".toList, .int portScanWindowSec)]
  cooldownSec := portScanCooldownSec
  dedupKey := ip
  action := some ⟨"tarpit_ip".toList, ip, some 1800⟩

def portScanOnEvent (event : ParsedEvent) : Py World (List DetectionResult) :=
  if !isPortKnock event then pure []
  else match metaGet event "source_ip", destPort event with
    | none, _ | some [], _ | _, none => pure []
    | some ip, some port =>
      resultsOf (countMs event (ruleKey "port_scan" event.hostId ip)
          (fun now => itoa port ++ ':' :: itoa now) portScanWindowSec)
        fun ports => if (ports : Int) < portScanThreshold then [] else [portScanResult ip ports]

/-! ### DNS tunnels -/

section Dns

variable (txt : TextOps)

def dnsLabelThreshold : Nat := 40

def dnsQueryThreshold : Int := 50

def dnsWindowSec : Int := 60

def dnsCooldownSec : Int := 900

def isDnsEvent (event : ParsedEvent) : Bool :=
  let src := txt.lower ((metaGet event "source").getD [])
  contains "dns".toList src || contains "named".toList src

def extractQname (event : ParsedEvent) : Option Str :=
  match orElse (metaGet event "qname") (metaGet event "query") with
  | none | some [] => none
  | some q => some (txt.lower ((strip q).reverse.dropWhile (· == '.')).reverse)

def leftmostLabelLength (qname : Str) : Nat := (qname.takeWhile (· != '.')).length

def dnsResult (ip qname : Str) (seen : Nat) : DetectionResult where
  detector := Builtin.dnsTunnel.name
  severity := .high
  summary := "possible DNS tunnel from ".toList ++ ip ++ " (".toList ++ itoa seen ++
    " long queries in ".toList ++ itoa dnsWindowSec ++ "s)".toList
  detail := [("source_ip".toList, .str ip), ("long_queries_in_window".toList, .int seen),
    ("window_sec".toList, .int dnsWindowSec), ("sample_qname".toList, .str qname)]
  cooldownSec := dnsCooldownSec
  dedupKey := ip
  action := some ⟨"block_ip".toList, ip, some 3600⟩

def dnsTunnelOnEvent (event : ParsedEvent) : Py World (List DetectionResult) :=
  if !isDnsEvent txt event then pure []
  else match metaGet event "source_ip", extractQname txt event with
    | none, _ | some [], _ | _, none | _, some [] => pure []
    | some ip, some qname =>
      if leftmostLabelLength qname < dnsLabelThreshold then pure []
      else resultsOf (countMs event (ruleKey "dns_tunnel" event.hostId ip)
          (fun now => qname ++ ':' :: itoa now) dnsWindowSec)
        fun seen => if (seen : Int) < dnsQueryThreshold then [] else [dnsResult ip qname seen]

end Dns

/-! ### Authentication -/

section Auth

variable (txt : TextOps)

def knownIpTtlSec : Int := 7 * 86400

def differentIpsThreshold : Int := 3

def authWindowSec : Int := 300

def authCooldownSec : Int := 600

def isAuthSuccess (event : ParsedEvent) : Bool :=
  ["success", "accepted", "ok", "0"].any fun status =>
    txt.lower ((metaGet event "status").getD []) = status.toList

def extractUser (event : ParsedEvent) : Option Str :=
  match orElse (metaGet event "user") (metaGet event "username") with
  | none | some [] => none
  | some u => some (strip u)

def knownIpKey (hostId : Uuid) (user : Str) : Str := ruleKey "auth_anomaly:known_ips" hostId user

def diffIpsKey (hostId : Uuid) (user : Str) : Str := ruleKey "auth_anomaly:diff_ips" hostId user

/-- Whether the address was known, which it is from now on, and how many there are in the window. -/
def authCount (event : ParsedEvent) (user ip : Str) : Py World (Bool × Nat) := do
  let key := knownIpKey event.hostId user
  let seenBefore ← World.command (Redis.sismember key ip)
  World.command (Redis.sadd key ip)
  World.command (Redis.expire key knownIpTtlSec)
  let distinct ← countMs event (diffIpsKey event.hostId user) (fun now => ip ++ ':' :: itoa now)
    authWindowSec
  pure (seenBefore, distinct)

def newIpResult (user ip : Str) : DetectionResult where
  detector := Builtin.authAnomaly.name
  severity := .medium
  summary := "new source IP for user ".toList ++ txt.repr user ++ ": ".toList ++ ip
  detail := [("user".toList, .str user), ("source_ip".toList, .str ip),
    ("first_seen".toList, .bool true)]
  cooldownSec := authCooldownSec
  dedupKey := user ++ ':' :: ip
  action := none

def multiIpResult (user : Str) (distinct : Nat) : DetectionResult where
  detector := Builtin.authAnomaly.name
  severity := .high
  summary := "user ".toList ++ txt.repr user ++ " authenticated from ".toList ++ itoa distinct ++
    " distinct IPs in ".toList ++ itoa authWindowSec ++ "s".toList
  detail := [("user".toList, .str user), ("distinct_ips_in_window".toList, .int distinct),
    ("window_sec".toList, .int authWindowSec)]
  cooldownSec := authCooldownSec
  dedupKey := user ++ ":multi_ip".toList
  action := some ⟨"revoke_session".toList, "user:".toList ++ user, some 86400⟩

def authAnomalyOnEvent (event : ParsedEvent) : Py World (List DetectionResult) :=
  if !isAuthSuccess txt event then pure []
  else match extractUser event, metaGet event "source_ip" with
    | none, _ | some [], _ | _, none | _, some [] => pure []
    | some user, some ip =>
      resultsOf (authCount event user ip) fun (seenBefore, distinct) =>
        (if seenBefore then [] else [newIpResult txt user ip]) ++
          if (distinct : Int) < differentIpsThreshold then [] else [multiIpResult txt user distinct]

end Auth

/-! ## The calls of the loop -/

section Calls

variable (txt : TextOps) (st : DetectorSettings)

def onEvent : Builtin → ParsedEvent → Py World (List DetectionResult)
  | .sshBruteforce => sshOnEvent txt st
  | .portScan => portScanOnEvent
  | .webAttack => webOnEvent txt
  | .dnsTunnel => dnsTunnelOnEvent txt
  | .authAnomaly => authAnomalyOnEvent txt

/-- `asyncio.wait_for`, which cancels what takes too long. -/
def waitFor {α : Type} (m : Py World α) : Py World α := do
  let result ← Script.attempt (fun e => decide (e = cancelled)) m
  match result with
  | .ok a => pure a
  | .error _ => throw (.other "TimeoutError")

/-- `d[key] = value`. -/
def assign (fields : List (Str × Json)) (key : String) (value : Json) : List (Str × Json) :=
  fields.filter (fun f => f.1 != key.toList) ++ [(key.toList, value)]

def enrichedDetail (r : DetectionResult) : List (Str × Json) :=
  let detail := if r.dedupKey = [] then r.detail else assign r.detail "dedup_key" (.str r.dedupKey)
  if r.cooldownSec = 0 then detail else assign detail "cooldown_sec" (.int r.cooldownSec)

def alertRow (hostId : Uuid) (r : DetectionResult) (resultAt : Int) (id : Uuid) (w : World) :
    AlertRow where
  id := id
  hostId := hostId
  detector := r.detector
  severity := r.severity
  summary := r.summary.take 512
  detail := enrichedDetail r
  dedupKey := r.dedupKey
  cooldownSec := r.cooldownSec
  resultAt := resultAt
  persistedAt := w.redis.now
  grantedAt := w.grantedAt

def writeAlert (hostId : Uuid) (r : DetectionResult) : Py World Uuid := do
  let called ← get
  World.statement
    (fun id w => { w with alerts := alertRow hostId r called.redis.now id w :: w.alerts })
    fun id _ => id

/-- The insertion refers to an alert that is there. -/
def writeAction (hostId alertId : Uuid) (action : DetectionAction) : Py World Uuid := do
  let w ← get
  match w.alerts.find? fun a => a.id == alertId with
  | none => throw (.other "IntegrityError")
  | some alert =>
    World.statement (fun id w => { w with actions := ⟨id, hostId, alert, action⟩ :: w.actions })
      fun id _ => id

def detectorServices : Services World Builtin where
  load id := World.statement (fun _ w => w) fun _ w => w.payloads id
  onEvent d event := waitFor (onEvent txt st d event)
  writeAlert := writeAlert
  writeAction := writeAction
  xack _ := World.command (pure ())

end Calls

/-- `BUILTIN_DETECTORS`. -/
def builtinDetectors : List Builtin :=
  [.sshBruteforce, .portScan, .webAttack, .dnsTunnel, .authAnomaly]

/-- An entry that is delivered: the time since the last one, the rows of the events, and how the
calls are answered. -/
structure Arrival (ρ : Type) where
  msgId : Str
  fields : List (Str × Str)
  env : SigmaEnv ρ
  wait : Nat
  payloads : Uuid → Option (Str × List (Str × Str))
  answers : List Answer

def World.before {ρ : Type} (w : World) (a : Arrival ρ) : World :=
  { w with
    redis.now := w.redis.now + a.wait
    payloads := a.payloads
    answers := a.answers }

def arrive {ρ : Type} (txt : TextOps) (st : DetectorSettings) (s : Consumer World Builtin ρ)
    (a : Arrival ρ) : Option (Consumer World Builtin ρ) :=
  some (Consumer.deliver builtinDetectors { s with outside := s.outside.before a }
    ⟨a.msgId, a.fields, detectorServices txt st, a.env⟩)

end ZaqorinCore.Server
