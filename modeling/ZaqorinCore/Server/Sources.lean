import ZaqorinCore.Base.Table
import ZaqorinCore.Server.Rule
import ZaqorinCore.Server.Wire

/-!
# Source connectors

The handlers of `api/v1/sources.py` that create, rotate and test connectors. A handler commits its
row first and builds the response afterwards, and the URL of a syslog connector names a variable
that does not exist: such a request ends with an exception after its change is stored. A test whose
own request fails counts its event twice. `connector_request_sound_iff` says when a request does
neither.
-/

namespace ZaqorinCore.Server.Sources

open Text Base

/-! ## Rows and errors -/

/-- A row of `source_connectors`. -/
structure Connector where
  id : Uuid
  platform : String
  name : Option Str
  config : List (Str × Json)
  apiKey : Str
  apiKeyFingerprint : Str
  status : String
  eventsReceived : Int
  errorCount : Int
  lastEventAt : Option Int
  createdAt : Int
  updatedAt : Int

abbrev Connectors := Table Connector.id

/-- How a request ends without its answer: with an `HTTPException`, with a body that the schema
refuses, with an exception that nothing catches, or with a commit that raises. -/
inductive SourceError
  | http (status : Nat) (detail : Str)
  | schema
  | raised (e : PyError)
  | database

def badRequest {α : Type} (detail : Str) : Except SourceError α := .error (.http 400 detail)

/-- `str` of a sorted list of plain words. -/
def reprWords (words : List String) : Str :=
  '[' :: List.intercalate ", ".toList (words.map fun w => '\'' :: w.toList ++ ['\'']) ++ [']']

/-! ## Patterns -/

/-- A pattern that ends in `$`, which also holds in front of a final newline. -/
def toEnd (pattern : Str → Bool) (s : Str) : Bool :=
  pattern s || (s.getLast? == some '\n' && pattern s.dropLast)

def hexChar (c : Char) : Bool :=
  c.isDigit || ('a' ≤ c && c ≤ 'f') || ('A' ≤ c && c ≤ 'F')

/-- `_CF_ZONE_ID_RE`. -/
def zoneIdRe : Str → Bool := toEnd fun s => s.length == 32 && s.all hexChar

/-- `_AWS_ROLE_ARN_RE`. -/
def roleArnRe : Str → Bool := toEnd fun s =>
  let account := (s.drop 13).take 12
  let name := s.drop 31
  "arn:aws:iam::".toList.isPrefixOf s && account.length == 12 && account.all Char.isDigit &&
    ":role/".toList.isPrefixOf (s.drop 25) && 1 ≤ name.length && name.length ≤ 64 &&
    name.all fun c => c.isAlphanum || "+=,.@_-".toList.contains c

/-- `_AWS_LOG_GROUP_RE`. -/
def logGroupRe (rt : Runtime) : Str → Bool := toEnd fun s =>
  1 ≤ s.length && s.length ≤ 512 && s.all fun c => isWord rt c || c == '-' || c == '/'

/-- `_IPV4_RE`; `\d` is a digit of any script. -/
def ipv4Re : Str → Bool := toEnd fun s =>
  let octets := split "." s
  octets.length == 4 && octets.all fun o =>
    1 ≤ o.length && o.length ≤ 3 && o.all fun c => (decimalValue c.toNat).isSome

/-- A label of a host name. -/
def label (s : Str) : Bool :=
  1 ≤ s.length && s.length ≤ 63 && s.all (fun c => c.isAlphanum || c == '-') &&
    s.head? != some '-' && s.getLast? != some '-'

/-- `_HOSTNAME_RE`. -/
def hostnameRe : Str → Bool := toEnd fun s =>
  1 ≤ s.length && s.length ≤ 253 && (split "." s).all label

/-! ## Validators -/

def cfDatasets : List String :=
  ["audit_logs", "gateway_dns", "gateway_http", "gateway_network", "http_requests", "nel_reports",
    "spectrum_events", "workers_trace_events"]

def webhookFormats : List String := ["elastic_webhook", "generic", "splunk_hec", "sumo_logic"]

def syslogProtocols : List String := ["tcp", "udp"]

def syslogFacilities : List String :=
  ["auth", "authpriv", "console", "cron", "daemon", "ftp", "kern", "local0", "local1", "local2",
    "local3", "local4", "local5", "local6", "local7", "lpr", "mail", "news", "ntp", "security",
    "syslog", "user", "uucp"]

def validateZoneId (zoneId : Str) : Except SourceError Unit :=
  if zoneIdRe zoneId then pure ()
  else badRequest "zone_id must be a 32-character hex string".toList

/-- A word out of a fixed set. -/
def validateWord (what : String) (allowed : List String) (word : Str) : Except SourceError Unit :=
  if (allowed.map String.toList).contains word then pure ()
  else badRequest ("unknown ".toList ++ what.toList ++ " '".toList ++ word ++
    "'. Allowed: ".toList ++ reprWords allowed)

def validateDatasets : List Str → Except SourceError Unit
  | [] => pure ()
  | d :: datasets => do
    validateWord "dataset" cfDatasets d
    validateDatasets datasets

def validateAwsRoleArn (roleArn : Str) : Except SourceError Unit :=
  if roleArnRe roleArn then pure ()
  else badRequest
    "role_arn must be of the form 'arn:aws:iam::<12-digit account>:role/<name>'".toList

def validateAwsLogGroup (rt : Runtime) (logGroup : Str) : Except SourceError Unit :=
  if logGroupRe rt logGroup then pure ()
  else badRequest "log_group contains illegal characters".toList

def validateWebhookFormat : Str → Except SourceError Unit := validateWord "format" webhookFormats

def validateOctets : List Str → Except SourceError Unit
  | [] => pure ()
  | o :: octets =>
    match pyInt o with
    | none => .error (.raised valueError)
    | some v =>
      if v < 0 ∨ 255 < v then
        badRequest ("host octet '".toList ++ o ++ "' out of range".toList)
      else validateOctets octets

def validateSyslogHost (host : Str) : Except SourceError Unit :=
  if ipv4Re host then validateOctets (split "." host)
  else if hostnameRe host then pure ()
  else badRequest "host must be a valid IP or hostname".toList

def validateSyslogProtocol : Str → Except SourceError Unit :=
  validateWord "protocol" syslogProtocols

def validateSyslogFacility : Option Str → Except SourceError Unit
  | none => pure ()
  | some facility => validateWord "facility" syslogFacilities facility

/-! ## Bodies -/

/-- `min_length` and `max_length`. -/
def within (lo hi : Nat) (s : Str) : Bool := lo ≤ s.length && s.length ≤ hi

structure CloudflareCreateIn where
  apiToken : Str
  zoneId : Str
  datasets : List Str
  name : Option Str

structure AwsCreateIn where
  roleArn : Str
  logGroup : Str
  name : Option Str

structure WebhookCreateIn where
  name : Str
  format : Str

structure SyslogCreateIn where
  host : Str
  port : Int
  protocol : Str
  facility : Option Str
  name : Option Str

/-- What the schema, and then the handler, check of a body before anything is stored. -/
def guarded (schema : Bool) (checks : Except SourceError Unit) : Except SourceError Unit :=
  if schema then checks else .error .schema

def CloudflareCreateIn.check (body : CloudflareCreateIn) : Except SourceError Unit :=
  guarded (within 1 512 body.apiToken && within 32 32 body.zoneId && 1 ≤ body.datasets.length &&
    body.datasets.length ≤ 16 && body.name.all (within 0 255)) do
    validateZoneId body.zoneId
    validateDatasets body.datasets

def AwsCreateIn.check (rt : Runtime) (body : AwsCreateIn) : Except SourceError Unit :=
  guarded (within 20 2048 body.roleArn && within 1 512 body.logGroup &&
    body.name.all (within 0 255)) do
    validateAwsRoleArn body.roleArn
    validateAwsLogGroup rt body.logGroup

def WebhookCreateIn.check (body : WebhookCreateIn) : Except SourceError Unit :=
  guarded (within 1 255 body.name && within 0 64 body.format) (validateWebhookFormat body.format)

def SyslogCreateIn.check (body : SyslogCreateIn) : Except SourceError Unit :=
  guarded (within 1 253 body.host && 1 ≤ body.port && body.port ≤ 65535 &&
    within 0 8 body.protocol && body.facility.all (within 0 32) && body.name.all (within 0 255)) do
    validateSyslogHost body.host
    validateSyslogProtocol body.protocol
    validateSyslogFacility body.facility

/-! ## Create and rotate -/

/-- What a request to create or rotate draws from outside: the id, the two secrets, the time, the
base of its URL and whether the database takes its commit. -/
structure Draw where
  id : Uuid
  apiKey : Str
  signingSecret : Str
  now : Int
  baseUrl : Str
  commits : Bool

/-- `_fingerprint`. -/
def fingerprint (secret : Str) : Str := secret.drop (secret.length - 8)

/-- `str(request.base_url).rstrip("/")`. -/
def base (url : Str) : Str := (url.reverse.dropWhile (· == '/')).reverse

/-- `_ingest_url_for`; the branch for syslog reads a variable `c` that is nowhere bound. -/
def ingestUrlFor (baseUrl : Str) (platform : String) (id : Uuid) : Except PyError Str :=
  let base := base baseUrl
  if platform = "cloudflare" then pure (base ++ "/api/v1/ingest/cloudflare".toList)
  else if platform = "aws" then pure (base ++ "/api/v1/ingest/aws/".toList ++ uuidStr id)
  else if platform = "webhook" then
    pure (base ++ "/api/v1/ingest/webhook?connector=".toList ++ uuidStr id)
  else if platform = "syslog" then throw (.other "NameError")
  else pure (base ++ "/api/v1/sources/".toList ++ uuidStr id)

/-- The response of a create or a rotation, with the key of the connector. -/
structure CreateOut where
  connector : Connector
  ingestUrl : Str
  signingSecret : Str

/-- The response after a commit. -/
def answer (d : Draw) (connector : Connector) (signingSecret : Str) (t : Connectors) :
    Except SourceError CreateOut × Connectors :=
  match ingestUrlFor d.baseUrl connector.platform connector.id with
  | .error e => (.error (.raised e), t)
  | .ok ingestUrl => (.ok { connector, ingestUrl, signingSecret }, t)

/-- `body.name or default`. -/
def nameOr (name : Option Str) (default : Str) : Option Str :=
  match name with
  | some (c :: rest) => some (c :: rest)
  | _ => some default

/-- The row of a new connector. -/
def newConnector (d : Draw) (platform : String) (name : Option Str) (config : List (Str × Json)) :
    Connector where
  id := d.id
  platform := platform
  name := name
  config := config
  apiKey := d.apiKey
  apiKeyFingerprint := fingerprint d.apiKey
  status := "active"
  eventsReceived := 0
  errorCount := 0
  lastEventAt := none
  createdAt := d.now
  updatedAt := d.now

/-- A handler that creates a connector, after `checks`. -/
def create (t : Connectors) (d : Draw) (checks : Except SourceError Unit) (platform : String)
    (name : Option Str) (config : List (Str × Json)) (signingSecret : Str) :
    Except SourceError CreateOut × Connectors :=
  match checks with
  | .error e => (.error e, t)
  | .ok _ =>
    if h : d.commits = true ∧ t.find d.id = none then
      let connector := newConnector d platform name config
      answer d connector signingSecret (t.insert connector h.2)
    else (.error .database, t)

def createCloudflare (t : Connectors) (body : CloudflareCreateIn) (d : Draw) :
    Except SourceError CreateOut × Connectors :=
  create t d body.check "cloudflare" (nameOr body.name ("cf-".toList ++ body.zoneId.take 8))
    [("zone_id".toList, .str body.zoneId), ("datasets".toList, .arr (body.datasets.map .str)),
      ("token_fingerprint".toList, .str (fingerprint body.apiToken))] d.signingSecret

/-- `s.rsplit("/", 1)[-1]`. -/
def lastPart (s : Str) : Str := (s.reverse.takeWhile (· != '/')).reverse

def createAws (rt : Runtime) (t : Connectors) (body : AwsCreateIn) (d : Draw) :
    Except SourceError CreateOut × Connectors :=
  create t d (body.check rt) "aws" (nameOr body.name ("aws-".toList ++ lastPart body.logGroup))
    [("role_arn".toList, .str body.roleArn), ("log_group".toList, .str body.logGroup)]
    d.signingSecret

def createWebhook (t : Connectors) (body : WebhookCreateIn) (d : Draw) :
    Except SourceError CreateOut × Connectors :=
  create t d body.check "webhook" (some body.name) [("format".toList, .str body.format)]
    d.signingSecret

def createSyslog (t : Connectors) (body : SyslogCreateIn) (d : Draw) :
    Except SourceError CreateOut × Connectors :=
  create t d body.check "syslog"
    (nameOr body.name ("syslog-".toList ++ body.host ++ ':' :: itoa body.port))
    ([("host".toList, .str body.host), ("port".toList, .int body.port),
      ("protocol".toList, .str body.protocol)] ++
      (body.facility.map fun facility => ("facility".toList, Json.str facility)).toList) []

/-- `_get_connector`. -/
def getConnector (t : Connectors) (id : Uuid) : Except SourceError Connector :=
  match t.find id with
  | some connector => pure connector
  | none => .error (.http 404 ("connector ".toList ++ uuidStr id ++ " not found".toList))

def rotated (d : Draw) (connector : Connector) : Connector :=
  { connector with
    apiKey := d.apiKey
    apiKeyFingerprint := fingerprint d.apiKey
    updatedAt := d.now }

theorem rotated_id (d : Draw) (connector : Connector) : (rotated d connector).id = connector.id :=
  rfl

/-- The table after the commit of a rotation. -/
def rotateRow (t : Connectors) (id : Uuid) (d : Draw) : Connectors :=
  t.updateWhere (fun c => c.id == id) (rotated d) (rotated_id d)

def rotateKey (t : Connectors) (id : Uuid) (d : Draw) : Except SourceError CreateOut × Connectors :=
  match getConnector t id with
  | .error e => (.error e, t)
  | .ok connector =>
    if d.commits then
      answer d (rotated d connector)
        (if connector.platform ≠ "syslog" then d.signingSecret else [])
        (rotateRow t id d)
    else (.error .database, t)

/-! ## Test -/

/-- How the request of a webhook test to itself ends: with a response, with an exception that the
handler catches, or with another. -/
inductive SelfCall
  | response (status : Int)
  | caught (name : Str)
  | other (e : PyError)

/-- What a test meets: the two readings of the clock, whether its commits are taken, and how its
own request ends. -/
structure Probe where
  now : Int
  later : Int
  commits : Bool
  commitsAgain : Bool
  selfCall : SelfCall

structure TestResult where
  delivered : Bool
  statusCode : Int
  detail : Str

/-- The event is counted. -/
def counted (now : Int) (connector : Connector) : Connector :=
  { connector with
    eventsReceived := connector.eventsReceived + 1
    lastEventAt := some now
    updatedAt := now }

/-- The event is counted by the statement after the rollback. -/
def countedAgain (now : Int) (connector : Connector) : Connector :=
  { connector with
    eventsReceived := connector.eventsReceived + 1
    lastEventAt := some now }

theorem counted_id (now : Int) (connector : Connector) :
    (counted now connector).id = connector.id := rfl

theorem countedAgain_id (now : Int) (connector : Connector) :
    (countedAgain now connector).id = connector.id := rfl

def countRow (t : Connectors) (id : Uuid) (now : Int) : Connectors :=
  t.updateWhere (fun c => c.id == id) (counted now) (counted_id now)

def countRowAgain (t : Connectors) (id : Uuid) (now : Int) : Connectors :=
  t.updateWhere (fun c => c.id == id) (countedAgain now) (countedAgain_id now)

/-- A pattern on a value of the configuration, which must be a text. -/
def matchText (re : Str → Bool) : Option Json → Except SourceError Bool
  | none => pure (re [])
  | some (.str s) => pure (re s)
  | some _ => .error (.raised typeError)

/-- The text of a value of the configuration. -/
def shown (rt : Runtime) (config : List (Str × Json)) (key : String) : Str :=
  ((field config key).map (pyStr rt.reprJson)).getD "None".toList

/-- `bool(value)`. -/
def truthy : Json → Bool
  | .null => false
  | .bool b => b
  | .int n => n != 0
  | .float repr => pyFloat repr != some (.fin 0)
  | .str s => !s.isEmpty
  | .arr items => !items.isEmpty
  | .obj fields => !fields.isEmpty

/-- `len(value)`. -/
def pyLen : Json → Except PyError Nat
  | .str s => pure s.length
  | .arr items => pure items.length
  | .obj fields => pure fields.length
  | _ => throw typeError

/-- The end of a test that only looks at the stored configuration; its text is made after the
commit. -/
def countOne (t : Connectors) (connector : Connector) (p : Probe) (detail : Except PyError Str) :
    Except SourceError TestResult × Connectors :=
  if p.commits then
    let once := countRow t connector.id p.now
    match detail with
    | .ok detail => (.ok ⟨true, 200, detail⟩, once)
    | .error e => (.error (.raised e), once)
  else (.error .database, t)

def testSyslog (rt : Runtime) (t : Connectors) (connector : Connector) :
    Except SourceError TestResult × Connectors :=
  let protocol := if (field connector.config "protocol").isSome then
    shown rt connector.config "protocol" else "udp".toList
  (.ok ⟨true, 200, "syslog listener reachable at ".toList ++ shown rt connector.config "host" ++
    ':' :: shown rt connector.config "port" ++ '/' :: protocol⟩, t)

/-- The answer to an invalid configuration has the key `detail=`, which the response model
refuses. -/
def testCloudflare (t : Connectors) (connector : Connector) (p : Probe) :
    Except SourceError TestResult × Connectors :=
  match matchText zoneIdRe (field connector.config "zone_id") with
  | .error e => (.error e, t)
  | .ok valid =>
    let zoneId := match field connector.config "zone_id" with
      | some (.str s) => s
      | _ => []
    let datasets := (field connector.config "datasets").getD (.arr [])
    if valid = false ∨ truthy datasets = false then
      (.error (.raised (.other "ResponseValidationError")), t)
    else countOne t connector p do
      let count ← pyLen datasets
      return "cloudflare config valid (zone ".toList ++ zoneId.take 8 ++ "..., ".toList ++
        itoa count ++ " dataset(s))".toList

def testAws (rt : Runtime) (t : Connectors) (connector : Connector) (p : Probe) :
    Except SourceError TestResult × Connectors :=
  match matchText roleArnRe (field connector.config "role_arn") with
  | .error e => (.error e, t)
  | .ok false => (.ok ⟨false, 400, "stored role_arn is invalid".toList⟩, t)
  | .ok true =>
    match matchText (logGroupRe rt) (field connector.config "log_group") with
    | .error e => (.error e, t)
    | .ok false => (.ok ⟨false, 400, "stored log_group is invalid".toList⟩, t)
    | .ok true => countOne t connector p (pure ("aws config valid (log_group ".toList ++
        rt.reprJson ((field connector.config "log_group").getD .null) ++ [')']))

/-- The event is counted before the request is made, and once more when the request fails. -/
def testWebhook (t : Connectors) (connector : Connector) (p : Probe) :
    Except SourceError TestResult × Connectors :=
  if p.commits then
    let once := countRow t connector.id p.now
    match p.selfCall with
    | .response status =>
      (.ok ⟨status == 200, status, "webhook test delivered to /api/v1/ingest/webhook (status ".toList ++
        itoa status ++ [')']⟩, once)
    | .caught name =>
      if p.commitsAgain then
        (.ok ⟨false, 0, "config valid; live self-call skipped (".toList ++ name ++ [')']⟩,
          countRowAgain once connector.id p.later)
      else (.error .database, once)
    | .other e => (.error (.raised e), once)
  else (.error .database, t)

def testConnector (rt : Runtime) (t : Connectors) (id : Uuid) (p : Probe) :
    Except SourceError TestResult × Connectors :=
  match getConnector t id with
  | .error e => (.error e, t)
  | .ok connector =>
    if connector.platform = "syslog" then testSyslog rt t connector
    else if connector.platform = "cloudflare" then testCloudflare t connector p
    else if connector.platform = "aws" then testAws rt t connector p
    else testWebhook t connector p

/-! ## Sound requests -/

inductive Request
  | cloudflare (body : CloudflareCreateIn) (d : Draw)
  | aws (body : AwsCreateIn) (d : Draw)
  | webhook (body : WebhookCreateIn) (d : Draw)
  | syslog (body : SyslogCreateIn) (d : Draw)
  | rotate (id : Uuid) (d : Draw)
  | test (id : Uuid) (p : Probe)

/-- Which connectors there are and with which keys. -/
def keyOf (t : Connectors) (id : Uuid) : Option Str := (t.find id).map Connector.apiKey

/-- A request that fails leaves the connectors and their keys as they were. -/
def Atomic {α : Type} (t : Connectors) (r : Except SourceError α × Connectors) : Prop :=
  r.1.isOk = false → ∀ id, keyOf r.2 id = keyOf t id

/-- No connector has counted more than one event more. -/
def OneEvent {α : Type} (t : Connectors) (r : Except SourceError α × Connectors) : Prop :=
  ∀ id c, t.find id = some c →
    ∃ c', r.2.find id = some c' ∧ c'.eventsReceived ≤ c.eventsReceived + 1

/-- What the API promises for a request. -/
def Sound (rt : Runtime) (t : Connectors) : Request → Prop
  | .cloudflare body d => Atomic t (createCloudflare t body d)
  | .aws body d => Atomic t (createAws rt t body d)
  | .webhook body d => Atomic t (createWebhook t body d)
  | .syslog body d => Atomic t (createSyslog t body d)
  | .rotate id d => Atomic t (rotateKey t id d)
  | .test id p => OneEvent t (testConnector rt t id p)

/-- The platforms that a test does not make a request for. -/
def quietPlatforms : List String := ["syslog", "cloudflare", "aws"]

/-- When a request keeps the promise: a syslog connector is not created or rotated with success of
its commit, and a webhook test does not fail with an exception that it catches. -/
def Harmless (t : Connectors) : Request → Prop
  | .cloudflare _ _ => True
  | .aws _ _ => True
  | .webhook _ _ => True
  | .syslog body d => body.check.isOk = true → d.commits = true → t.find d.id ≠ none
  | .rotate id d => ∀ c, t.find id = some c → c.platform = "syslog" → d.commits = true →
      d.apiKey = c.apiKey
  | .test id p => ∀ c, t.find id = some c → c.platform ∉ quietPlatforms → p.commits = true →
      (∃ name, p.selfCall = .caught name) → p.commitsAgain = false

section

variable {t : Connectors} {d : Draw}

/-- A created connector has its URL, or the request was not atomic. -/
theorem atomic_create_iff {checks : Except SourceError Unit} {platform : String}
    {name : Option Str} {config : List (Str × Json)} {signingSecret : Str} :
    Atomic t (create t d checks platform name config signingSecret) ↔
      (checks.isOk = true → d.commits = true → t.find d.id = none →
        (ingestUrlFor d.baseUrl platform d.id).isOk = true) := by
  unfold create
  cases checks with
  | error e =>
    constructor
    · intro _ h
      cases h
    · intro _ _ id
      rfl
  | ok u =>
    dsimp only
    by_cases hcommits : d.commits = true ∧ t.find d.id = none
    · rw [dif_pos hcommits]
      unfold answer
      dsimp only [newConnector]
      cases hurl : ingestUrlFor d.baseUrl platform d.id with
      | ok url =>
        constructor
        · intro _ _ _ _
          rfl
        · intro _ herror
          cases herror
      | error e =>
        constructor
        · intro hatomic
          -- the new row is there, although the request has failed
          have hkey := hatomic rfl d.id
          unfold keyOf at hkey
          rw [hcommits.2, Table.find_insert, if_pos rfl] at hkey
          cases hkey
        · intro h
          exact absurd (h rfl hcommits.1 hcommits.2) (by simp [Except.isOk, Except.toBool])
    · rw [dif_neg hcommits]
      constructor
      · intro _ _ h₁ h₂
        exact absurd ⟨h₁, h₂⟩ hcommits
      · intro _ _ id
        rfl

theorem atomic_rotateKey_iff {id : Uuid} : Atomic t (rotateKey t id d) ↔
    ∀ c, t.find id = some c → d.commits = true →
      (ingestUrlFor d.baseUrl c.platform c.id).isOk = true ∨ d.apiKey = c.apiKey := by
  unfold rotateKey getConnector
  cases hfind : t.find id with
  | none =>
    constructor
    · intro _ c hc
      cases hc
    · intro _ _ id
      rfl
  | some c =>
    obtain ⟨_, hid⟩ := Table.find_some hfind
    have hafter : keyOf (rotateRow t id d) id = some d.apiKey := by
      unfold keyOf rotateRow
      rw [Table.find_updateWhere, hfind, Option.map_some, Option.map_some,
        if_pos (beq_iff_eq.mpr hid)]
      rfl
    by_cases hcommits : d.commits = true
    · simp only [pure, Except.pure, hcommits, if_true, Option.some.injEq, forall_eq', true_imp_iff]
      unfold answer
      dsimp only [rotated]
      cases hurl : ingestUrlFor d.baseUrl c.platform c.id with
      | ok url =>
        constructor
        · intro _
          exact Or.inl rfl
        · intro _ herror
          cases herror
      | error e =>
        constructor
        · intro hatomic
          have hkey := (hatomic rfl id).symm.trans hafter
          unfold keyOf at hkey
          rw [hfind] at hkey
          exact Or.inr (Option.some.inj hkey).symm
        · intro h _ other
          have hsame : d.apiKey = c.apiKey := h.resolve_left (by simp [Except.isOk, Except.toBool])
          show keyOf (rotateRow t id d) other = keyOf t other
          unfold keyOf rotateRow
          rw [Table.find_updateWhere, Option.map_map]
          apply Option.map_congr
          intro c' hc'
          obtain ⟨_, hid'⟩ := Table.find_some hc'
          dsimp only [Function.comp]
          split
          · rename_i heq
            -- the connector with this id is the one that is rotated
            have hother : other = id := by rw [← hid', beq_iff_eq.mp heq]
            rw [hother, hfind] at hc'
            rw [← Option.some.inj hc']
            exact hsame
          · rfl
    · simp only [pure, Except.pure, hcommits, if_false, Bool.false_eq_true, false_imp_iff,
        implies_true, iff_true]
      intro _ other
      rfl

theorem isOk_ingestUrlFor_iff {baseUrl : Str} {platform : String} {id : Uuid} :
    (ingestUrlFor baseUrl platform id).isOk = true ↔ platform ≠ "syslog" := by
  have hword : ∀ {word : String} {url : Str}, platform = word → word ≠ "syslog" →
      ((pure url : Except PyError Str).isOk = true ↔ platform ≠ "syslog") := by
    intro word url h hne
    rw [h]
    exact ⟨fun _ => hne, fun _ => rfl⟩
  unfold ingestUrlFor
  dsimp only
  split
  · exact hword ‹_› (by decide)
  · split
    · exact hword ‹_› (by decide)
    · split
      · exact hword ‹_› (by decide)
      · split
        · rename_i h
          constructor
          · intro hok
            cases hok
          · intro hne
            exact absurd h hne
        · rename_i h
          exact ⟨fun _ => h, fun _ => rfl⟩

end

/-! ## Counting -/

section

variable {t : Connectors} {connector : Connector} {p : Probe}

theorem oneEvent_unchanged {α : Type} (r : Except SourceError α) : OneEvent t (r, t) := by
  intro id c hc
  exact ⟨c, hc, by omega⟩

theorem oneEvent_counted {α : Type} (r : Except SourceError α) (now : Int) (id : Uuid) :
    OneEvent t (r, countRow t id now) := by
  intro other c hc
  refine ⟨if c.id == id then counted now c else c, ?_, ?_⟩
  · unfold countRow
    rw [Table.find_updateWhere, hc, Option.map_some]
  · split
    · exact le_refl _
    · omega

theorem oneEvent_countOne (detail : Except PyError Str) :
    OneEvent t (countOne t connector p detail) := by
  unfold countOne
  dsimp only
  split
  · cases detail with
    | ok text => exact oneEvent_counted _ _ _
    | error e => exact oneEvent_counted _ _ _
  · exact oneEvent_unchanged _

theorem oneEvent_testCloudflare : OneEvent t (testCloudflare t connector p) := by
  unfold testCloudflare
  dsimp only
  split
  · exact oneEvent_unchanged _
  · split
    · exact oneEvent_unchanged _
    · exact oneEvent_countOne _

theorem oneEvent_testAws (rt : Runtime) : OneEvent t (testAws rt t connector p) := by
  unfold testAws
  split
  · exact oneEvent_unchanged _
  · exact oneEvent_unchanged _
  · split
    · exact oneEvent_unchanged _
    · exact oneEvent_unchanged _
    · exact oneEvent_countOne _

/-- A webhook test counts twice when it catches the failure of its request. -/
theorem oneEvent_testWebhook_iff (hfind : t.find connector.id = some connector) :
    OneEvent t (testWebhook t connector p) ↔
      (p.commits = true → (∃ name, p.selfCall = .caught name) → p.commitsAgain = false) := by
  unfold testWebhook
  dsimp only
  by_cases hcommits : p.commits = true
  · rw [if_pos hcommits]
    cases hcall : p.selfCall with
    | response status =>
      constructor
      · rintro _ _ ⟨name, hname⟩
        cases hname
      · intro _
        exact oneEvent_counted _ _ _
    | other e =>
      constructor
      · rintro _ _ ⟨name, hname⟩
        cases hname
      · intro _
        exact oneEvent_counted _ _ _
    | caught name =>
      dsimp only
      by_cases hagain : p.commitsAgain = true
      · rw [if_pos hagain]
        constructor
        · intro hone
          obtain ⟨c', hc', hle⟩ := hone connector.id connector hfind
          unfold countRowAgain countRow at hc'
          rw [Table.find_updateWhere, Table.find_updateWhere, hfind] at hc'
          simp only [Option.map_some, BEq.rfl, if_true, counted, countedAgain] at hc'
          rw [← Option.some.inj hc'] at hle
          dsimp only at hle
          omega
        · intro h
          rw [h hcommits ⟨name, rfl⟩] at hagain
          cases hagain
      · rw [if_neg hagain]
        constructor
        · intro _ _ _
          exact Bool.eq_false_iff.mpr hagain
        · intro _
          exact oneEvent_counted _ _ _
  · rw [if_neg hcommits]
    constructor
    · intro _ h
      exact absurd h hcommits
    · intro _
      exact oneEvent_unchanged _

theorem oneEvent_testConnector_iff (rt : Runtime) (id : Uuid) :
    OneEvent t (testConnector rt t id p) ↔
      ∀ c, t.find id = some c → c.platform ∉ quietPlatforms → p.commits = true →
        (∃ name, p.selfCall = .caught name) → p.commitsAgain = false := by
  unfold testConnector getConnector
  cases hfind : t.find id with
  | none =>
    constructor
    · intro _ c hc
      cases hc
    · intro _
      exact oneEvent_unchanged _
  | some connector =>
    obtain ⟨_, hid⟩ := Table.find_some hfind
    have hown : t.find connector.id = some connector := by rw [hid, hfind]
    simp only [pure, Except.pure, Option.some.injEq, forall_eq']
    by_cases hsyslog : connector.platform = "syslog"
    · rw [if_pos hsyslog]
      constructor
      · intro _ hquiet
        exact absurd (by simp [quietPlatforms, hsyslog]) hquiet
      · intro _
        exact oneEvent_unchanged _
    · rw [if_neg hsyslog]
      by_cases hcloudflare : connector.platform = "cloudflare"
      · rw [if_pos hcloudflare]
        constructor
        · intro _ hquiet
          exact absurd (by simp [quietPlatforms, hcloudflare]) hquiet
        · intro _
          exact oneEvent_testCloudflare
      · rw [if_neg hcloudflare]
        by_cases haws : connector.platform = "aws"
        · rw [if_pos haws]
          constructor
          · intro _ hquiet
            exact absurd (by simp [quietPlatforms, haws]) hquiet
          · intro _
            exact oneEvent_testAws rt
        · rw [if_neg haws, oneEvent_testWebhook_iff hown]
          have hloud : connector.platform ∉ quietPlatforms := by
            simp [quietPlatforms, hsyslog, hcloudflare, haws]
          constructor
          · intro h _
            exact h
          · intro h
            exact h hloud

end

/-- A request keeps what the API promises exactly when it is harmless. -/
theorem connector_request_sound_iff (rt : Runtime) (t : Connectors) (req : Request) :
    Sound rt t req ↔ Harmless t req := by
  have hplain : ∀ {checks platform name config signing} {d : Draw}, platform ≠ "syslog" →
      (Atomic t (create t d checks platform name config signing) ↔ True) := by
    intro checks platform name config signing d hplatform
    rw [atomic_create_iff, iff_true]
    intro _ _ _
    exact isOk_ingestUrlFor_iff.mpr hplatform
  cases req with
  | cloudflare body d => exact hplain (by decide)
  | aws body d => exact hplain (by decide)
  | webhook body d => exact hplain (by decide)
  | syslog body d =>
    simp only [Sound, Harmless, createSyslog]
    rw [atomic_create_iff]
    constructor
    · intro h hcheck hcommits hfind
      exact absurd (h hcheck hcommits hfind) (by simp [isOk_ingestUrlFor_iff])
    · intro h hcheck hcommits hfind
      exact absurd hfind (h hcheck hcommits)
  | rotate id d =>
    simp only [Sound, Harmless]
    rw [atomic_rotateKey_iff]
    constructor
    · intro h c hc hplatform hcommits
      refine (h c hc hcommits).resolve_left ?_
      rw [isOk_ingestUrlFor_iff]
      exact not_not_intro hplatform
    · intro h c hc hcommits
      by_cases hplatform : c.platform = "syslog"
      · exact Or.inr (h c hc hplatform hcommits)
      · exact Or.inl (isOk_ingestUrlFor_iff.mpr hplatform)
  | test id p => exact oneEvent_testConnector_iff rt id

/-- A syslog source as the tests of the API register it. -/
def sampleSyslog : SyslogCreateIn where
  host := "10.0.0.5".toList
  port := 514
  protocol := "udp".toList
  facility := some "auth".toList
  name := some "syslog-test".toList

def sampleDraw : Draw where
  id := 1
  apiKey := (List.replicate 8 "00112233".toList).flatten
  signingSecret := (List.replicate 8 "44556677".toList).flatten
  now := 0
  baseUrl := "http://test/".toList
  commits := true

/-- No pattern, and no letter outside ASCII. -/
def bareRuntime : Runtime where
  compile := fun _ => .error "error"
  alnum := fun _ => false
  finalSigma := fun _ _ => false
  reprJson := fun _ => []
  reprYaml := fun _ => .ok []

theorem syslog_create_not_atomic : ¬ ∀ rt t req, Sound rt t req := by
  intro h
  have hatomic : Atomic Table.empty (createSyslog Table.empty sampleSyslog sampleDraw) :=
    h bareRuntime Table.empty (.syslog sampleSyslog sampleDraw)
  have hcheck : sampleSyslog.check.isOk = true := by decide +kernel
  have hurl := atomic_create_iff.mp hatomic hcheck rfl rfl
  exact absurd hurl (by decide)

end ZaqorinCore.Server.Sources
