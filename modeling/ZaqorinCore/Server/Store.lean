import ZaqorinCore.Text.Hex
import ZaqorinCore.Base.Table

/-!
# The server's database

The rows of `models/` that the agent channel reads and writes, and the operations of
`host_service`, `event_service` and `action_service` on them. Each conditional `UPDATE` is
one atomic change of the table.
-/

namespace ZaqorinCore.Server

open Text Base

/-- A JSON value as Python decodes it: a `float` is kept as its `repr`, and the keys of an object
are distinct. -/
inductive Json
  | null
  | bool (b : Bool)
  | int (n : Int)
  | float (repr : Str)
  | str (s : Str)
  | arr (items : List Json)
  | obj (fields : List (Str × Json))

/-- `hosts`: the columns the agent channel uses. -/
structure Host where
  id : Uuid
  secret : Option Str
  autoBlock : Bool
  deriving DecidableEq

/-- `events`. -/
structure Event where
  id : Uuid
  hostId : Uuid
  schema : Str
  occurredAt : Int
  source : Str
  raw : Str
  metadata : List (Str × Json)

/-- The values the `status` column of `actions` takes. -/
inductive Status
  | pending
  | dispatched
  | applied
  | failed
  deriving DecidableEq, Repr

/-- `actions`, without the link to its alert. -/
structure Action where
  id : Uuid
  hostId : Option Uuid
  kind : Str
  target : Str
  ttlSec : Option Int
  status : Status
  sentAt : Option Int
  ackedAt : Option Int
  createdAt : Int
  deriving DecidableEq

structure Db where
  hosts : Table Host.id
  events : Table Event.id
  actions : Table Action.id

/-! ## Actions -/

/-- `UPDATE actions SET ... WHERE id = id AND status = from`. -/
def setStatus (db : Db) (id : Uuid) (from_ : Status) (f : Action → Action)
    (hf : ∀ a, (f a).id = a.id) : Db :=
  { db with actions := db.actions.updateWhere (fun a => a.id == id && a.status == from_) f hf }

/-- `result.rowcount > 0` of the same statement. -/
def hasStatus (db : Db) (id : Uuid) (from_ : Status) : Bool :=
  0 < db.actions.rowcount fun a => a.id == id && a.status == from_

/-- `mark_dispatched`; `now` is the clock reading it stores. -/
def markDispatched (db : Db) (id : Uuid) (now : Int) : Db × Bool :=
  (setStatus db id .pending (fun a => { a with status := .dispatched, sentAt := some now })
    fun _ => rfl, hasStatus db id .pending)

/-- `mark_applied`. -/
def markApplied (db : Db) (id : Uuid) (now : Int) : Db × Bool :=
  (setStatus db id .dispatched (fun a => { a with status := .applied, ackedAt := some now })
    fun _ => rfl, hasStatus db id .dispatched)

/-- `mark_failed`; the reason the agent gave is not stored. -/
def markFailed (db : Db) (id : Uuid) (now : Int) : Db × Bool :=
  (setStatus db id .dispatched (fun a => { a with status := .failed, ackedAt := some now })
    fun _ => rfl, hasStatus db id .dispatched)

theorem find_setStatus (db : Db) (id : Uuid) (from_ : Status) (f : Action → Action)
    (hf : ∀ a, (f a).id = a.id) (k : Uuid) :
    (setStatus db id from_ f hf).actions.find k =
      (db.actions.find k).map fun a => if a.id = id ∧ a.status = from_ then f a else a := by
  unfold setStatus
  rw [Table.find_updateWhere]
  congr 1
  funext a
  simp only [Bool.and_eq_true, beq_iff_eq]

theorem find_setStatus_of_find {db : Db} {id : Uuid} {from_ : Status} {f : Action → Action}
    {hf : ∀ a, (f a).id = a.id} {k : Uuid} {row : Action} (h : db.actions.find k = some row) :
    (setStatus db id from_ f hf).actions.find k =
      some (if k = id ∧ row.status = from_ then f row else row) := by
  rw [find_setStatus, h, Option.map_some, (Table.find_some h).2]

/-! ## Events and hosts -/

/-- How a call to the database can end besides returning. -/
inductive DbError
  | duplicateEvent
  | integrity
  | unknownAgent
  | other
  deriving DecidableEq, Repr

/-- `persist_event`: a stored id is reported as a duplicate, and an event of a host that does
not exist violates the foreign key. -/
def persistEvent (db : Db) (e : Event) : Except DbError Db :=
  match h : db.events.find e.id with
  | some _ => .error .duplicateEvent
  | none =>
    match db.hosts.find e.hostId with
    | none => .error .integrity
    | some _ => .ok { db with events := db.events.insert e h }

/-- `upsert_on_hello`: looks the host up and changes nothing. -/
def upsertOnHello (db : Db) (agentId : Uuid) : Except DbError Host :=
  match db.hosts.find agentId with
  | some host => .ok host
  | none => .error .unknownAgent

theorem persistEvent_ok {db db' : Db} {e : Event} (h : persistEvent db e = .ok db') :
    ∃ hnew : db.events.find e.id = none,
      (db.hosts.find e.hostId).isSome ∧ db' = { db with events := db.events.insert e hnew } := by
  unfold persistEvent at h
  split at h
  · cases h
  · rename_i hnew
    split at h
    · cases h
    · rename_i host hhost
      cases h
      exact ⟨hnew, by rw [hhost]; rfl, rfl⟩

theorem persistEvent_error {db : Db} {e : Event} {err : DbError}
    (h : persistEvent db e = .error err) (hnew : db.events.find e.id = none) :
    db.hosts.find e.hostId = none := by
  unfold persistEvent at h
  split at h
  · rename_i old hold
    rw [hnew] at hold
    cases hold
  · split at h
    · assumption
    · cases h

end ZaqorinCore.Server
