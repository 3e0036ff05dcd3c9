import ZaqorinCore.Agent.Command
import ZaqorinCore.Agent.Evidence

/-!
# Events and acknowledgements

`internal/event` of the agent and the two frames of `transport.go` that carry its answers. As in
`Agent.Evidence`, a frame is the value that its JSON text decodes to. `uuid.Parse` is a parameter.
-/

namespace ZaqorinCore.Agent.Wire

open Text Server Agent.Evidence

/-! ## Times -/

/-- The civil time of a `time.Time` in UTC. Its year is any integer. -/
structure GoTime where
  year : Int
  month : Nat
  day : Nat
  hour : Nat
  minute : Nat
  second : Nat
  nanos : Nat
  month_valid : 1 ≤ month ∧ month ≤ 12
  day_valid : 1 ≤ day ∧ day ≤ daysIn month (year % 400).toNat
  clock_valid : hour < 24 ∧ minute < 60 ∧ second < 60
  nanos_valid : nanos < 1000000000

/-- `Time.IsZero` -/
def GoTime.isZero (t : GoTime) : Bool :=
  t.year == 1 && t.month == 1 && t.day == 1 && t.hour == 0 && t.minute == 0 && t.second == 0 &&
    t.nanos == 0

theorem GoTime.january : 1 ≤ 1 ∧ 1 ≤ 12 := by decide

theorem GoTime.first_day : 1 ≤ 1 ∧ 1 ≤ daysIn 1 ((1 : Int) % 400).toNat := by decide

theorem GoTime.midnight : 0 < 24 ∧ 0 < 60 ∧ 0 < 60 := by decide

theorem GoTime.zero_nanos : 0 < 1000000000 := by decide

/-- `Time{}` -/
def GoTime.zero : GoTime := ⟨1, 1, 1, 0, 0, 0, 0, january, first_day, midnight, zero_nanos⟩

/-- Only the zero time is zero. -/
theorem GoTime.isZero_iff {t : GoTime} : t.isZero = true ↔ t = zero := by
  cases t
  simp only [isZero, zero, Bool.and_eq_true, beq_iff_eq, GoTime.mk.injEq, and_assoc]

/-- A year in at least four digits. -/
def yearText (year : Int) : Str :=
  (if year < 0 then ['-'] else []) ++
    if year.natAbs < 10000 then padded 4 year.natAbs else Nat.toDigits 10 year.natAbs

/-- `Format(time.RFC3339Nano)` -/
def GoTime.text (t : GoTime) : Str :=
  yearText t.year ++ '-' :: padded 2 t.month ++ '-' :: padded 2 t.day ++ 'T' ::
    padded 2 t.hour ++ ':' :: padded 2 t.minute ++ ':' :: padded 2 t.second ++
    fraction t.nanos ++ ['Z']

/-! ## Events -/

structure Event where
  schema : Bytes
  id : Bytes
  timestamp : GoTime
  hostID : Bytes
  source : Bytes
  raw : Bytes
  metadata : List (Bytes × Bytes)

/-- `Validate`; an error is its text. -/
def Event.validate (uuidParse : Bytes → Except Bytes Unit) (e : Event) : Except Bytes Unit :=
  if e.schema = [] then .error (lit "event: schema is required")
  else if e.id = [] then .error (lit "event: id is required")
  else
    match uuidParse e.id with
    | .error err => .error (lit "event: id is not a valid UUID: " ++ err)
    | .ok () =>
      if e.timestamp.isZero then .error (lit "event: timestamp is required")
      else if e.hostID = [] then .error (lit "event: host_id is required")
      else if e.source = [] then .error (lit "event: source is required")
      else .ok ()

/-- The members that `MarshalJSON` writes; an empty map is left out. -/
def Event.members (e : Event) : List (Str × Json) :=
  [("schema".toList, .str (jsonString e.schema)), ("id".toList, .str (jsonString e.id)),
    ("timestamp".toList, .str e.timestamp.text), ("host_id".toList, .str (jsonString e.hostID)),
    ("source".toList, .str (jsonString e.source)), ("raw".toList, .str (jsonString e.raw))] ++
    if e.metadata = [] then [] else [("metadata".toList, jsonMap e.metadata)]

/-- The `eventFrame` that `Send` writes. -/
def Event.frame (e : Event) : List (Str × Json) :=
  [("type".toList, .str "event".toList), ("event".toList, .obj e.members)]

/-! ## Acknowledgements -/

/-- `sendAck`: the `commandAckFrame`, or none for another status. -/
def sendAck (id status errMsg : Bytes) : Option (List (Str × Json)) :=
  if status = lit "applied" ∨ status = lit "failed" then
    some ([("type".toList, .str "command_ack".toList), ("id".toList, .str (jsonString id)),
      ("status".toList, .str (jsonString status))] ++
      if errMsg = [] then [] else [("error".toList, .str (jsonString errMsg))])
  else none

/-- The answer of the read pump to a command: the status of the handler and the text of its
error, if there is one. -/
def reply (handler : Command → Bytes × Option Bytes) (cmd : Command) : Option (List (Str × Json)) :=
  match handler cmd with
  | (status, none) => sendAck cmd.id status []
  | (status, some err) => sendAck cmd.id (if status = [] then lit "failed" else status) err

end ZaqorinCore.Agent.Wire
