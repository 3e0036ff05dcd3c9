import ZaqorinCore.Text.Time
import ZaqorinCore.Server.Store

/-!
# Frames from agents

`utils/depth_json.py` and the schemas of `schemas/wire.py` that the WebSocket handler
validates. The JSON decoder and the conversions Pydantic makes for `uuid.UUID`, `datetime` and
`Literal[2]` are a parameter, `Library`; every length, literal, alias and `extra="forbid"` of the
schemas is written out. A failed validation is `none`: the handler only logs its text.
-/

namespace ZaqorinCore.Server

open Text

/-! ## Decoding -/

/-- How `json` refuses a text: with a `JSONDecodeError` or with another `ValueError`. -/
inductive LoadError
  | decode
  | value
  deriving DecidableEq, Repr

/-- The code outside the repository that turns texts and JSON values into Python values. -/
structure Library where
  /-- `json.JSONDecoder.decode` -/
  loads : Str → Except LoadError Json
  uuid : Json → Option Uuid
  datetime : Json → Option Int
  literalTwo : Json → Bool

def maxJsonDepth : Int := 32

/-- The local variables of `_check_depth`. -/
structure DepthScan where
  depth : Int
  inString : Bool
  escape : Bool

/-- One pass of the loop of `_check_depth`; `none` when it raises. -/
def DepthScan.next (scan : DepthScan) (ch : Char) : Option DepthScan :=
  if scan.inString then
    if scan.escape then some { scan with escape := false }
    else if ch = '\\' then some { scan with escape := true }
    else if ch = '"' then some { scan with inString := false }
    else some scan
  else if ch = '"' then some { scan with inString := true }
  else if ch = '[' ∨ ch = '\x7b' then
    if maxJsonDepth < scan.depth + 1 then none else some { scan with depth := scan.depth + 1 }
  else if ch = ']' ∨ ch = '\x7d' then some { scan with depth := scan.depth - 1 }
  else some scan

/-- `_check_depth` from the start of the text. -/
def checkDepth (s : Str) : Option DepthScan := s.foldlM DepthScan.next ⟨0, false, false⟩

/-- `safe_loads`. -/
def safeLoads (lib : Library) (s : Str) : Except LoadError Json :=
  match checkDepth s with
  | none => .error .value
  | some _ => lib.loads s

/-! ## Field checks -/

/-- `fields.get(key)`. -/
def field (fields : List (Str × Json)) (key : String) : Option Json :=
  (fields.find? fun f => f.1 == key.toList).map Prod.snd

/-- The field is the text `value`. -/
def fieldIs (fields : List (Str × Json)) (key value : String) : Bool :=
  match field fields key with
  | some (.str s) => s == value.toList
  | _ => false

/-- A `Literal` of one text that has itself as the default. -/
def literalOrAbsent (fields : List (Str × Json)) (key value : String) : Bool :=
  (field fields key).isNone || fieldIs fields key value

/-- A `str` with `min_length` and `max_length`. -/
def strBetween (lo hi : Nat) : Json → Option Str
  | .str s => if lo ≤ s.length ∧ s.length ≤ hi then some s else none
  | _ => none

/-- `extra="forbid"`. -/
def noExtra (fields : List (Str × Json)) (names : List String) : Bool :=
  fields.all fun f => (names.map String.toList).contains f.1

/-! ## Schemas -/

structure HelloFrame where
  agentId : Uuid
  version : Str
  nonce : Str
  sig : Str

/-- `HelloFrame.model_validate`. -/
def helloFrame (lib : Library) (fields : List (Str × Json)) : Option HelloFrame := do
  guard (literalOrAbsent fields "type" "hello")
  let agentId ← lib.uuid (← field fields "agent_id")
  guard (lib.literalTwo (← field fields "v"))
  let version ← strBetween 1 32 (← field fields "version")
  let nonce ← strBetween 64 64 (← field fields "nonce")
  let sig ← strBetween 64 64 (← field fields "sig")
  guard (noExtra fields ["type", "agent_id", "v", "version", "nonce", "sig"])
  return { agentId, version, nonce, sig }

/-- `dict[str, str]`, absent meaning empty. -/
def strDict : Option Json → Option (List (Str × Json))
  | none => some []
  | some (.obj fields) =>
    if fields.all (fun f => match f.2 with | .str _ => true | _ => false) then some fields
    else none
  | some _ => none

/-- `EventInner`, as the row that `persist_event` stores. The schema's name is read under its
alias, or under the field's own name when the alias is absent. -/
def eventInner (lib : Library) : Json → Option Event
  | .obj fields => do
    let key := if (field fields "schema").isSome then "schema" else "event_schema"
    let schema ← strBetween 1 16 (← field fields key)
    let id ← lib.uuid (← field fields "id")
    let occurredAt ← lib.datetime (← field fields "timestamp")
    let hostId ← lib.uuid (← field fields "host_id")
    let source ← strBetween 1 255 (← field fields "source")
    let raw ← strBetween 0 (64 * 1024) (← field fields "raw")
    let metadata ← strDict (field fields "metadata")
    guard (noExtra fields [key, "id", "timestamp", "host_id", "source", "raw", "metadata"])
    return { id, hostId, schema, occurredAt, source, raw, metadata }
  | _ => none

/-- `EventFrame.model_validate`. -/
def eventFrame (lib : Library) (fields : List (Str × Json)) : Option Event := do
  guard (literalOrAbsent fields "type" "event")
  let event ← eventInner lib (← field fields "event")
  guard (noExtra fields ["type", "event"])
  return event

/-- The values of `CommandAckFrame.status`. -/
inductive AckStatus
  | applied
  | failed
  deriving DecidableEq, Repr

structure CommandAckFrame where
  id : Uuid
  status : AckStatus

/-- `CommandAckFrame.model_validate`, without the error text, which is not stored. -/
def commandAckFrame (lib : Library) (fields : List (Str × Json)) : Option CommandAckFrame := do
  guard (literalOrAbsent fields "type" "command_ack")
  let id ← lib.uuid (← field fields "id")
  let status ←
    if fieldIs fields "status" "applied" then some AckStatus.applied
    else if fieldIs fields "status" "failed" then some AckStatus.failed
    else none
  match field fields "error" with
  | none => pure ()
  | some .null => pure ()
  | some error => let _ ← strBetween 0 512 error
  guard (noExtra fields ["type", "id", "status", "error"])
  return { id, status }

/-! ## Concrete frames -/

/-- A library that knows the texts of a table and the UUIDs of a list in their usual form; it is
what concrete runs are computed with. -/
def Library.ofTable (texts : List (Str × Json)) (uuids : List Uuid) (times : List (Str × Int)) :
    Library where
  loads raw := match texts.find? fun t => t.1 == raw with
    | some t => .ok t.2
    | none => .error .decode
  uuid
    | .str s => uuids.find? fun u => uuidStr u == s
    | _ => none
  datetime
    | .str s => (times.find? fun t => t.1 == s).map Prod.snd
    | _ => none
  literalTwo
    | .int n => n == 2
    | _ => false

/-- An object as the agent writes it. -/
def objectText (fields : List (String × Str)) : Str :=
  "\x7b".toList ++
    (List.intercalate ",".toList (fields.map fun f => '"' :: f.1.toList ++ "\":".toList ++ f.2)) ++
    "\x7d".toList

/-- A text without characters to escape, in quotes. -/
def quoted (s : Str) : Str := '"' :: s ++ ['"']

def helloText (agentId : Uuid) (nonce sig : Str) : Str :=
  objectText [("type", quoted "hello".toList), ("agent_id", quoted (uuidStr agentId)),
    ("v", "2".toList), ("version", quoted "0.5.0".toList), ("nonce", quoted nonce),
    ("sig", quoted sig)]

def helloJson (agentId : Uuid) (nonce sig : Str) : Json :=
  .obj [("type".toList, .str "hello".toList), ("agent_id".toList, .str (uuidStr agentId)),
    ("v".toList, .int 2), ("version".toList, .str "0.5.0".toList), ("nonce".toList, .str nonce),
    ("sig".toList, .str sig)]

def ackText (id : Uuid) : Str :=
  objectText [("type", quoted "command_ack".toList), ("id", quoted (uuidStr id)),
    ("status", quoted "applied".toList)]

def ackJson (id : Uuid) : Json :=
  .obj [("type".toList, .str "command_ack".toList), ("id".toList, .str (uuidStr id)),
    ("status".toList, .str "applied".toList)]

end ZaqorinCore.Server
