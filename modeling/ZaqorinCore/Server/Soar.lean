import ZaqorinCore.Base.Run
import ZaqorinCore.Text.Sha256
import ZaqorinCore.Server.Wire
import ZaqorinCore.Server.Rule

/-!
# The SOAR worker

`soar/worker.py` as a state machine. The poller looks at the rows of `alerts` one by one and puts
one item into the queue for each backend that wants the alert; a task delivers an item, with
retries. An action is what happens between two `await`s, so that a run is any interleaving of the
poller with the tasks. What the backends answer and whether the database stores an attempt is in
the actions; files are always written. `stop()` is not called.
-/

namespace ZaqorinCore.Server.Soar

open Text Base

/-! ## Configuration -/

/-- `BackendConfig`; `load_config` makes no number negative. -/
structure BackendConfig where
  enabled : Bool
  cooldownSec : Nat
  severityMin : Str
  tagsFilter : List Str
  maxRetries : Nat

/-- `SoarConfig` with the names of the registered backends, in their order. -/
structure SoarConfig where
  queueMax : Nat
  backends : List (Str × BackendConfig)
  registry : List Str

/-- The parameters of the runtime: the condition on a final sigma in `lower`, the text of a list or
an object, and `json.dumps` with an indent of two and sorted keys. -/
structure SoarOps where
  finalSigma : Str → Str → Bool
  reprJson : Json → Str
  dumps : Json → Str

def severityOrder (severity : Str) : Option Nat :=
  if severity = "info".toList then some 0
  else if severity = "low".toList then some 1
  else if severity = "medium".toList then some 2
  else if severity = "high".toList then some 3
  else if severity = "critical".toList then some 4
  else none

def severityMeets (ops : SoarOps) (actual minimum : Str) : Bool :=
  (severityOrder (lower ops.finalSigma minimum)).getD 0 ≤
    (severityOrder (lower ops.finalSigma actual)).getD 0

/-! ## Alerts -/

/-- A row of `alerts`. -/
structure AlertRow where
  id : Uuid
  hostId : Option Uuid
  detector : Str
  severity : Str
  summary : Str
  detail : Json

structure Alert where
  id : Str
  hostId : Str
  detector : Str
  severity : Str
  tags : List Str
  summary : Str
  evidence : Option Str
  metadata : List (Str × Str)

/-- The alert of a row; what is missing in its detail or has another type is left out. -/
def alertOf (ops : SoarOps) (row : AlertRow) : Alert :=
  let detail := match row.detail with
    | .obj fields => fields
    | _ => []
  { id := uuidStr row.id
    hostId := match row.hostId with
      | some id => uuidStr id
      | none => []
    detector := row.detector
    severity := row.severity
    tags := match field detail "tags" with
      | some (.arr tags) => tags.map (pyStr ops.reprJson)
      | _ => []
    summary := row.summary
    evidence := match field detail "evidence" with
      | some (.str evidence) => some evidence
      | _ => none
    metadata := match field detail "metadata" with
      | some (.obj fields) => fields.map fun f => (f.1, pyStr ops.reprJson f.2)
      | _ => [] }

/-! ## Deliveries -/

/-- A `datetime` in UTC. -/
structure Timestamp where
  utc : UtcTime
  micros : Nat
  micros_valid : micros < 1000000

/-- A time on a full second. -/
theorem Timestamp.zero_micros : 0 < 1000000 := by decide

/-- `isoformat()`. -/
def Timestamp.isoformat (t : Timestamp) : Str :=
  padded 4 t.utc.year ++ '-' :: padded 2 t.utc.month ++ '-' :: padded 2 t.utc.day ++ 'T' ::
    padded 2 t.utc.hour ++ ':' :: padded 2 t.utc.minute ++ ':' :: padded 2 t.utc.second ++
    (if t.micros = 0 then [] else '.' :: padded 6 t.micros) ++ "+00:00".toList

/-- `strftime("%Y%m%dT%H%M%SZ")`. -/
def Timestamp.stamp (t : Timestamp) : Str :=
  itoa t.utc.year ++ padded 2 t.utc.month ++ padded 2 t.utc.day ++ 'T' ::
    padded 2 t.utc.hour ++ padded 2 t.utc.minute ++ padded 2 t.utc.second ++ ['Z']

structure DeliveryResult where
  backend : Str
  alertId : Str
  statusCode : Int
  attemptedAt : Timestamp
  durationMs : Int
  error : Option Str
  deadLettered : Bool

structure DeliverOutcome where
  result : DeliveryResult
  payloadSha256 : Str

/-- `_PendingDelivery`; the times of the monotonic clock are in nanoseconds. -/
structure PendingDelivery where
  alert : Alert
  backendName : Str
  config : BackendConfig
  attempt : Nat
  nextEligibleAt : Int

/-- The alert and the backend. -/
def PendingDelivery.pair (item : PendingDelivery) : Str × Str := (item.alert.id, item.backendName)

/-- A row of `soar_deliveries`. -/
structure SoarDelivery where
  alertId : Option Uuid
  backend : Str
  statusCode : Int
  attemptedAt : Timestamp
  durationMs : Int
  attempt : Nat
  error : Option Str
  deadLettered : Bool
  payloadSha256 : Option Str

def deliveryRow (item : PendingDelivery) (outcome : DeliverOutcome) : SoarDelivery where
  alertId := toUuid item.alert.id
  backend := item.backendName
  statusCode := outcome.result.statusCode
  attemptedAt := outcome.result.attemptedAt
  durationMs := outcome.result.durationMs
  attempt := item.attempt
  error := outcome.result.error
  deadLettered := outcome.result.deadLettered
  payloadSha256 := if outcome.payloadSha256 = [] then none else some outcome.payloadSha256

/-- Where a task is in `_run_one`: before the semaphore, at the head of the loop, waiting for the
backend, or waiting for the database. -/
inductive Stage
  | waiting
  | looping
  | delivering
  | persisting (outcome : DeliverOutcome)

structure Task where
  item : PendingDelivery
  stage : Stage

/-- The outcome when the backend raises. -/
def exceptionOutcome (item : PendingDelivery) (attemptedAt : Timestamp) (e : Str) :
    DeliverOutcome where
  result := ⟨item.backendName, item.alert.id, 0, attemptedAt, 0,
    some ("backend exception: ".toList ++ e), true⟩
  payloadSha256 := []

/-- The outcome for an item that the queue has no place for. -/
def queueFullOutcome (item : PendingDelivery) (now : Timestamp) : DeliverOutcome where
  result := ⟨item.backendName, item.alert.id, 0, now, 0, some "queue full".toList, true⟩
  payloadSha256 := []

/-! ## Dead letters -/

/-- `_is_dead_letter_candidate`. -/
def isDeadLetterCandidate (result : DeliveryResult) (attempt : Nat) (config : BackendConfig) :
    Bool :=
  if result.deadLettered && (400 ≤ result.statusCode && result.statusCode < 500) then true
  else if config.maxRetries < attempt && 500 ≤ result.statusCode then true
  else config.maxRetries < attempt && result.statusCode == 0

def fileName (attemptedAt : Timestamp) (alertId : Str) : Str :=
  let short := (alertId.filter (· != '-')).take 8
  attemptedAt.stamp ++ '-' :: (if short = [] then "alert".toList else short) ++ ".json".toList

def optionJson : Option Str → Json
  | some s => .str s
  | none => .null

def alertBody (alert : Alert) : Json :=
  .obj [("id".toList, .str alert.id), ("host_id".toList, .str alert.hostId),
    ("detector".toList, .str alert.detector), ("severity".toList, .str alert.severity),
    ("tags".toList, .arr (alert.tags.map .str)), ("summary".toList, .str alert.summary),
    ("evidence".toList, optionJson alert.evidence),
    ("metadata".toList, .obj (alert.metadata.map fun m => (m.1, .str m.2)))]

/-- The body before its hash is known. -/
def bodyFields (item : PendingDelivery) (outcome : DeliverOutcome) (attempt : Nat) :
    List (Str × Json) :=
  [("ts".toList, .str outcome.result.attemptedAt.isoformat),
    ("backend".toList, .str item.backendName), ("alert".toList, alertBody item.alert),
    ("status_code".toList, .int outcome.result.statusCode),
    ("error".toList, optionJson outcome.result.error), ("attempt".toList, .int attempt),
    ("payload_sha256".toList, .str outcome.payloadSha256)]

def deadLetterBody (ops : SoarOps) (item : PendingDelivery) (outcome : DeliverOutcome)
    (attempt : Nat) : Json :=
  let fields := bodyFields item outcome attempt
  .obj (fields ++
    [("file_sha256".toList, .str (hexdigest (sha256 (utf8 (ops.dumps (.obj fields))))))])

/-- The alert and the backend that a dead letter is for. -/
def letterPair : Json → Option (Str × Str)
  | .obj fields =>
    match field fields "alert", field fields "backend" with
    | some (.obj alert), some (.str backend) =>
      match field alert "id" with
      | some (.str id) => some (id, backend)
      | _ => none
    | _, _ => none
  | _ => none

/-! ## The worker -/

/-- The outcome of a call of a backend. -/
structure Attempt where
  pair : Str × Str
  outcome : DeliverOutcome

/-- `row` is the alert that is being put into the queue, with the backends still to look at. The
files of the directory are listed by name. `accepted` are the pairs that have passed the filters,
`attempts` the calls of backends, the newest first; both are for the statements only. -/
structure SoarWorker where
  config : SoarConfig
  now : Int
  row : Option (Alert × List Str)
  queue : List PendingDelivery
  tasks : List Task
  cooldowns : List ((Str × Str × Str) × Int)
  enqueued : List Str
  finished : List (Str × Str)
  rows : List SoarDelivery
  files : List (Str × Json)
  accepted : List (Str × Str)
  attempts : List Attempt

namespace SoarWorker

variable (ops : SoarOps)

/-- A file replaces the one that has its name. -/
def write (s : SoarWorker) (name : Str) (body : Json) : SoarWorker :=
  { s with files := (name, body) :: s.files.filter fun f => f.1 != name }

def maybeDeadLetter (s : SoarWorker) (item : PendingDelivery) (outcome : DeliverOutcome)
    (attempt : Nat) : SoarWorker :=
  if isDeadLetterCandidate outcome.result attempt item.config then
    s.write (fileName outcome.result.attemptedAt item.alert.id)
      (deadLetterBody ops item outcome attempt)
  else s

def deadLetterQueueFull (s : SoarWorker) (item : PendingDelivery) (utc : Timestamp) :
    SoarWorker :=
  s.maybeDeadLetter ops item (queueFullOutcome item utc) item.attempt

def full (s : SoarWorker) : Bool := 0 < s.config.queueMax && s.config.queueMax ≤ s.queue.length

def put (s : SoarWorker) (item : PendingDelivery) : SoarWorker :=
  { s with queue := s.queue ++ [item] }

/-- `put_nowait`; a full queue gives up its oldest item. -/
def enqueueItem (s : SoarWorker) (item : PendingDelivery) (utc : Timestamp) : SoarWorker :=
  if !s.full then s.put item
  else
    let s := match s.queue with
      | dropped :: queue => deadLetterQueueFull ops { s with queue } dropped utc
      | [] => s
    if !s.full then s.put item else s.deadLetterQueueFull ops item utc

def lastFire (s : SoarWorker) (key : Str × Str × Str) : Int :=
  ((s.cooldowns.find? fun c => c.1 == key).map Prod.snd).getD 0

/-- The configuration of a backend that wants the alert now. -/
def wants (s : SoarWorker) (alert : Alert) (name : Str) : Option BackendConfig :=
  match dictGet s.config.backends name with
  | none => none
  | some cfg =>
    if !cfg.enabled then none
    else if !severityMeets ops alert.severity cfg.severityMin then none
    else if cfg.tagsFilter ≠ [] ∧ ¬ ∃ tag ∈ cfg.tagsFilter, tag ∈ alert.tags then none
    else if s.now - s.lastFire (name, alert.hostId, alert.detector) < cfg.cooldownSec * second then
      none
    else some cfg

/-- The turn of one backend in `_enqueue_row`. -/
def turn (s : SoarWorker) (alert : Alert) (name : Str) (utc : Timestamp) : SoarWorker :=
  match s.wants ops alert name with
  | none => s
  | some cfg =>
    enqueueItem ops { s with
      enqueued := alert.id :: s.enqueued
      accepted := (alert.id, name) :: s.accepted } ⟨alert, name, cfg, 1, s.now⟩ utc

/-- The first seconds of the schedule, and its last entry from there on. -/
def backoff (attempt : Nat) : Int :=
  ([1, 5, 25, 125, 625] : List Int).getD (min (attempt - 1) 4) 625

def removeTask (s : SoarWorker) (i : Nat) : SoarWorker := { s with tasks := s.tasks.eraseIdx i }

def setTask (s : SoarWorker) (i : Nat) (t : Task) : SoarWorker :=
  { s with tasks := s.tasks.set i t }

/-- The end of `_run_one`. -/
def finish (s : SoarWorker) (i : Nat) (item : PendingDelivery) : SoarWorker :=
  { s.removeTask i with finished := item.pair :: s.finished }

def markCooldown (s : SoarWorker) (item : PendingDelivery) : SoarWorker :=
  let key := (item.backendName, item.alert.hostId, item.alert.detector)
  { s with cooldowns := (key, s.now) :: s.cooldowns.filter fun c => c.1 != key }

/-- What follows an attempt that is stored. -/
def afterAttempt (s : SoarWorker) (i : Nat) (item : PendingDelivery) (outcome : DeliverOutcome) :
    SoarWorker :=
  let result := outcome.result
  if result.deadLettered then (s.maybeDeadLetter ops item outcome item.attempt).finish i item
  else if 200 ≤ result.statusCode ∧ result.statusCode < 400 then (s.markCooldown item).finish i item
  else if item.config.maxRetries < item.attempt then
    (s.maybeDeadLetter ops item outcome item.attempt).finish i item
  else
    s.setTask i ⟨{ item with
      attempt := item.attempt + 1
      nextEligibleAt := s.now + backoff item.attempt * second }, .looping⟩

/-- The tasks that hold the semaphore. -/
def inFlight (s : SoarWorker) : Nat :=
  s.tasks.countP fun t => match t.stage with
    | .waiting => false
    | _ => true

end SoarWorker

/-- What happens next: time passes, the poller takes a row or a backend, the queue is drained, or a
task goes on. -/
inductive SoarAct
  | wait (d : Nat)
  | poll (row : AlertRow)
  | turn (utc : Timestamp)
  | drain
  | acquire (i : Nat)
  | loop (i : Nat)
  | deliver (i : Nat) (reply : Except (Str × Timestamp) DeliverOutcome)
  | persist (i : Nat) (saved : Bool)

/-- The steps of the tasks. -/
def SoarWorker.taskStep (ops : SoarOps) (s : SoarWorker) (i : Nat) (t : Task) :
    SoarAct → Option SoarWorker
  | .acquire _ =>
    match t.stage with
    | .waiting => if s.inFlight < 10 then some (s.setTask i ⟨t.item, .looping⟩) else none
    | _ => none
  | .loop _ =>
    match t.stage with
    | .looping =>
      if t.item.config.maxRetries + 1 < t.item.attempt then some (s.finish i t.item)
      else if s.now < t.item.nextEligibleAt then none
      else some (s.setTask i ⟨t.item, .delivering⟩)
    | _ => none
  | .deliver _ reply =>
    match t.stage with
    | .delivering =>
      let outcome := match reply with
        | .ok outcome => outcome
        | .error (e, attemptedAt) => exceptionOutcome t.item attemptedAt e
      some { s.setTask i ⟨t.item, .persisting outcome⟩ with
        attempts := ⟨t.item.pair, outcome⟩ :: s.attempts }
    | _ => none
  | .persist _ saved =>
    match t.stage with
    | .persisting outcome =>
      -- an exception of the database ends the task
      if !saved then some (s.removeTask i)
      else
        let s := { s with rows := deliveryRow t.item outcome :: s.rows }
        some (s.afterAttempt ops i t.item outcome)
    | _ => none
  | _ => none

/-- While a row is being put into the queue nothing else happens. -/
def SoarWorker.step (ops : SoarOps) (s : SoarWorker) (a : SoarAct) : Option SoarWorker :=
  match s.row, a with
  | some (alert, name :: names), .turn utc =>
    some { s.turn ops alert name utc with row := some (alert, names) }
  | some (_, []), .turn _ => some { s with row := none }
  | none, .wait d => some { s with now := s.now + d }
  | none, .poll row =>
    let alert := alertOf ops row
    if alert.id ∈ s.enqueued then some s else some { s with row := some (alert, s.config.registry) }
  | none, .drain =>
    let n := min 16 s.queue.length
    some { s with
      queue := s.queue.drop n
      tasks := s.tasks ++ (s.queue.take n).map fun item => ⟨item, .waiting⟩ }
  | none, .acquire i => s.tasks[i]?.bind fun t => s.taskStep ops i t a
  | none, .loop i => s.tasks[i]?.bind fun t => s.taskStep ops i t a
  | none, .deliver i _ => s.tasks[i]?.bind fun t => s.taskStep ops i t a
  | none, .persist i _ => s.tasks[i]?.bind fun t => s.taskStep ops i t a
  | _, _ => none

/-- The worker when it starts, at any time and with any files in the directory. -/
def SoarWorker.start (config : SoarConfig) (now : Int) (files : List (Str × Json)) :
    SoarWorker where
  config := config
  now := now
  row := none
  queue := []
  tasks := []
  cooldowns := []
  enqueued := []
  finished := []
  rows := []
  files := files
  accepted := []
  attempts := []

end ZaqorinCore.Server.Soar
