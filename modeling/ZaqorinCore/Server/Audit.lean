import ZaqorinCore.Base.Journal
import ZaqorinCore.Base.Run
import ZaqorinCore.Server.Value

/-!
# Audit log

`record` of `audit.py`: an entry goes to the ring buffer in memory and, when a directory is
configured, as one line to the file of the day. The second part catches `OSError` only, so a call
returns exactly when no file is open or the entry can be written as JSON in UTF-8:
`record_returns_iff`. What reaches the disk is in the order of the calls.
-/

namespace ZaqorinCore.Server.Audit

open Text Base

/-! ## Entries -/

/-- A Python `str` by its code points, lone surrogates included. -/
abbrev PyText := List Nat

def pyText (s : Str) : PyText := s.map Char.toNat

/-- A Python value as `json.dumps` tells them apart. A `float` is kept as JSON writes it, `dated` is
a `datetime`, `date` or `time` with its `isoformat`, `cycle` a container that contains itself, and
`object` any value of another type. -/
inductive PyValue
  | null
  | bool (b : Bool)
  | int (n : Int)
  | float (text : Str)
  | text (s : PyText)
  | list (items : List PyValue)
  | dict (fields : List (PyValue × PyValue))
  | dated (isoformat : PyText)
  | cycle
  | object

def recursionError : PyError := .other "RecursionError"

def unicodeEncodeError : PyError := .other "UnicodeEncodeError"

def hexDigit (n : Nat) : Nat := if n < 10 then 48 + n else 87 + n

/-- A character of a JSON text that is not kept to ASCII. -/
def escapeChar (c : Nat) : PyText :=
  if c = 34 then pyText "\\\"".toList
  else if c = 92 then pyText "\\\\".toList
  else if c = 10 then pyText "\\n".toList
  else if c = 13 then pyText "\\r".toList
  else if c = 9 then pyText "\\t".toList
  else if c = 12 then pyText "\\f".toList
  else if c = 8 then pyText "\\b".toList
  else if c < 32 then pyText "\\u00".toList ++ [hexDigit (c / 16), hexDigit (c % 16)]
  else [c]

def quote (s : PyText) : PyText := 34 :: (s.flatMap escapeChar ++ [34])

/-- The key of a field; it is always written as a text. -/
def keyText : PyValue → Except PyError PyText
  | .text s => pure s
  | .null => pure (pyText "null".toList)
  | .bool true => pure (pyText "true".toList)
  | .bool false => pure (pyText "false".toList)
  | .int n => return pyText (← strInt n)
  | .float text => pure (pyText text)
  | _ => throw typeError

mutual

/-- `json.dumps(v, ensure_ascii=False)`; `room` is how many containers deep the recursion limit
lets it go. -/
def dumps (room : Nat) : PyValue → Except PyError PyText
  | .null => pure (pyText "null".toList)
  | .bool true => pure (pyText "true".toList)
  | .bool false => pure (pyText "false".toList)
  | .int n => return pyText (← strInt n)
  | .float text => pure (pyText text)
  | .text s => pure (quote s)
  | .list items => do
    if room = 0 then throw recursionError
    let parts ← dumpsList (room - 1) items
    return 91 :: (List.intercalate [44, 32] parts ++ [93])
  | .dict fields => do
    if room = 0 then throw recursionError
    let parts ← dumpsFields (room - 1) fields
    return 123 :: (List.intercalate [44, 32] parts ++ [125])
  | .dated _ => throw typeError
  | .cycle => throw valueError
  | .object => throw typeError

def dumpsList (room : Nat) : List PyValue → Except PyError (List PyText)
  | [] => pure []
  | item :: items => return (← dumps room item) :: (← dumpsList room items)

def dumpsFields (room : Nat) : List (PyValue × PyValue) → Except PyError (List PyText)
  | [] => pure []
  | (key, value) :: fields => do
    let key ← keyText key
    let value ← dumps room value
    return (quote key ++ [58, 32] ++ value) :: (← dumpsFields room fields)

end

/-- Whether UTF-8 has the text. -/
def encodable (s : PyText) : Bool := s.all fun c => !(0xD800 ≤ c && c ≤ 0xDFFF)

/-- A `dict`, in the order of its keys. -/
abbrev Item := List (PyValue × PyValue)

def isText (s : PyText) : PyValue → Bool
  | .text t => t == s
  | _ => false

/-- `d[key] = value`. The keys that are there already are texts. -/
def setItem (key value : PyValue) (item : Item) : Item :=
  match key with
  | .text s =>
    if item.any fun f => isText s f.1 then
      item.map fun f => if isText s f.1 then (f.1, value) else f
    else item ++ [(key, value)]
  | _ => item ++ [(key, value)]

/-- The arguments of a call and what it meets: the clock for `ts`, the day at which it asks for the
file, the room for recursion, and how the device answers. -/
structure Request where
  actor : PyText
  action : PyText
  target : PyText
  status : Option Int
  extra : Option Item
  now : PyText
  today : Int
  room : Nat
  /-- `close` of the file of an earlier day. -/
  closing : Io
  /-- `mkdir` or `open` raises. -/
  openFails : Bool
  writing : Io
  ending : Io
  flushing : Io

def key (s : String) : PyValue := .text (pyText s.toList)

/-- The entry of a call. -/
def itemOf (req : Request) : Item :=
  let item := [(key "ts", .dated req.now), (key "actor", .text req.actor),
    (key "action", .text req.action), (key "target", .text req.target)]
  let item := match req.status with
    | some status => setItem (key "status") (.int status) item
    | none => item
  (req.extra.getD []).foldl (fun item field => setItem field.1 field.2 item) item

/-- `item["ts"].isoformat()`. -/
def isoformat (item : Item) : Except PyError PyText :=
  match item.find? fun f => isText (pyText "ts".toList) f.1 with
  | some (_, .dated text) => pure text
  | _ => throw (.other "AttributeError")

/-- The text that is handed to the file, as far as UTF-8 has it. -/
def payloadText (room : Nat) (item : Item) : Except PyError PyText := do
  let ts ← isoformat item
  let text ← dumps room (.dict (setItem (key "ts") (.text ts) item))
  if encodable text then return text else throw unicodeEncodeError

/-! ## Record -/

/-- `AUDIT_MAX`. -/
def auditMax : Nat := 1024

/-- What is written to a file: the text of an entry or the end of a line. A text of which only a
part has passed is still pending. -/
inductive Piece
  | entry (item : Item)
  | newline

/-- The variables of the module, with the files. -/
structure State where
  log : List Item
  warned : Bool
  handle : Option (Handle Piece)
  date : Option Int
  files : Files Piece

def initial : State := ⟨[], false, none, none, []⟩

/-- `append` of a `deque` with a bound. -/
def push (log : List Item) (item : Item) : List Item :=
  (log ++ [item]).drop ((log ++ [item]).length - auditMax)

/-- The files after the open one, if there is one, has been closed. An error is ignored, and what
could not be written is lost. -/
def State.closed (s : State) (io : Io) : Files Piece :=
  match s.handle with
  | some handle => (handle.flush io s.files).2
  | none => s.files

/-- `_ensure_persist_open`; `dir` tells whether a directory is configured. -/
def ensurePersistOpen (dir : Bool) (s : State) (req : Request) : Option (Handle Piece) × State :=
  if dir = false ∨ s.warned = true then (none, s)
  else
    let reopen : Option (Handle Piece) × State :=
      if req.openFails then
        (none, { s with warned := true, handle := none, files := s.closed req.closing })
      else
        (some ⟨req.today, []⟩, { s with
          handle := some ⟨req.today, []⟩
          date := some req.today
          files := s.closed req.closing })
    match s.handle with
    | some handle => if s.date = some req.today then (some handle, s) else reopen
    | none => reopen

/-- The three calls of the handle; the first that fails ends them. -/
def writeLine (handle : Handle Piece) (files : Files Piece) (item : Item) (req : Request) :
    Handle Piece × Files Piece :=
  let wrote := (handle.write [.entry item]).transfer req.writing files
  if req.writing.fails then wrote
  else
    let ended := (wrote.1.write [.newline]).transfer req.ending wrote.2
    if req.ending.fails then ended else ended.1.flush req.flushing ended.2

/-- The part of `record` that writes to the disk. -/
def persist (dir : Bool) (s : State) (req : Request) : Except PyError Item × State :=
  match ensurePersistOpen dir s req with
  | (none, s) => (.ok (itemOf req), s)
  | (some handle, s) =>
    match payloadText req.room (itemOf req) with
    | .error e => (.error e, s)
    | .ok _ =>
      let wrote := writeLine handle s.files (itemOf req) req
      (.ok (itemOf req), { s with handle := some wrote.1, files := wrote.2 })

def State.remember (s : State) (item : Item) : State := { s with log := push s.log item }

/-- `record`. -/
def record (dir : Bool) (s : State) (req : Request) : Except PyError Item × State :=
  persist dir (s.remember (itemOf req)) req

/-- A call gets hold of an open file. -/
def Opens (dir : Bool) (s : State) (req : Request) : Prop :=
  dir = true ∧ s.warned = false ∧
    ((s.handle.isSome ∧ s.date = some req.today) ∨ req.openFails = false)

instance (dir : Bool) (s : State) (req : Request) : Decidable (Opens dir s req) :=
  inferInstanceAs (Decidable (_ ∧ _ ∧ (_ ∨ _)))

/-- The entry can be written: its `ts` has a date, JSON has every value of it and UTF-8 every
character. -/
def Writable (req : Request) : Prop := (payloadText req.room (itemOf req)).isOk = true

instance : DecidablePred Writable := fun _ => inferInstanceAs (Decidable (_ = true))

/-! ## One call -/

section

variable {dir : Bool} {s : State} {req : Request}

theorem ensurePersistOpen_isSome_iff :
    (ensurePersistOpen dir s req).1.isSome ↔ Opens dir s req := by
  unfold ensurePersistOpen Opens
  by_cases hoff : dir = false ∨ s.warned = true
  · rw [if_pos hoff]
    constructor
    · intro h
      cases h
    · rintro ⟨hdir, hwarned, -⟩
      rcases hoff with h | h
      · rw [hdir] at h
        cases h
      · rw [hwarned] at h
        cases h
  · rw [if_neg hoff]
    rw [not_or, Bool.not_eq_false, Bool.not_eq_true] at hoff
    cases hhandle : s.handle with
    | none => cases hopen : req.openFails <;> simp [hoff]
    | some handle =>
      by_cases hdate : s.date = some req.today
      · simp [hoff, hdate]
      · cases hopen : req.openFails <;> simp [hoff, hdate]

theorem persist_isOk_iff : (persist dir s req).1.isOk ↔ (Opens dir s req → Writable req) := by
  rw [← ensurePersistOpen_isSome_iff]
  unfold persist Writable
  cases hensure : ensurePersistOpen dir s req with
  | mk handle s' =>
    cases handle with
    | none =>
      constructor
      · intro _ h
        cases h
      · intro _
        rfl
    | some handle =>
      cases payloadText req.room (itemOf req) with
      | error e =>
        constructor
        · intro h
          cases h
        · intro h
          exact h rfl
      | ok text =>
        constructor
        · intro _ _
          rfl
        · intro _
          rfl

theorem remember_date (s : State) (item : Item) : (s.remember item).date = s.date := by
  simp only [State.remember]

theorem opens_remember {item : Item} : Opens dir (s.remember item) req ↔ Opens dir s req := by
  simp only [Opens, State.remember]

/-- When a call returns. -/
theorem record_returns_iff : (record dir s req).1.isOk ↔ (Opens dir s req → Writable req) := by
  unfold record
  rw [persist_isOk_iff, opens_remember]

/-- A call that returns gives its entry. -/
theorem record_fst_of_isOk (h : (record dir s req).1.isOk) :
    (record dir s req).1 = .ok (itemOf req) := by
  unfold record persist at h ⊢
  cases hensure : ensurePersistOpen dir (s.remember (itemOf req)) req with
  | mk handle s' =>
    cases handle with
    | none => rfl
    | some handle =>
      rw [hensure] at h
      cases hpayload : payloadText req.room (itemOf req) with
      | error e =>
        simp only [hpayload] at h
        cases h
      | ok text => rfl

theorem ensurePersistOpen_log (dir : Bool) (s : State) (req : Request) :
    (ensurePersistOpen dir s req).2.log = s.log := by
  unfold ensurePersistOpen
  dsimp only
  split
  · rfl
  · split
    · split
      · rfl
      · split <;> rfl
    · split <;> rfl

theorem persist_log : (persist dir s req).2.log = s.log := by
  have hlog := ensurePersistOpen_log dir s req
  unfold persist
  cases hensure : ensurePersistOpen dir s req with
  | mk handle s' =>
    rw [hensure] at hlog
    cases handle with
    | none => exact hlog
    | some handle => cases payloadText req.room (itemOf req) <;> exact hlog

/-- Every call appends its entry in memory, whether it returns or not. -/
theorem record_log : (record dir s req).2.log = push s.log (itemOf req) := by
  unfold record
  rw [persist_log, State.remember]

end

/-! ## Order on disk -/

/-- The entries among the pieces. -/
def entries (pieces : List Piece) : List Item :=
  pieces.filterMap fun
    | .entry item => some item
    | .newline => none

/-- What is pending in the open file. -/
def State.pending (s : State) : List Piece := (s.handle.map Handle.pending).getD []

/-- The open file is the last one, and what is in the files or on the way there comes from the
entries in their order. -/
structure Ordered (s : State) (appended : List Item) : Prop where
  day : ∀ handle, s.handle = some handle → s.date = some handle.day
  files : ∀ day, s.date = some day → s.files.UpTo day
  fresh : s.date = none → s.files = []
  order : (entries (s.files.all ++ s.pending)).Sublist appended

theorem ordered_initial : Ordered initial [] where
  day := nofun
  files := nofun
  fresh := fun _ => rfl
  order := List.Sublist.refl _

theorem entries_sublist {l m : List Piece} (h : l.Sublist m) : (entries l).Sublist (entries m) :=
  h.filterMap _

theorem entries_append (l m : List Piece) : entries (l ++ m) = entries l ++ entries m :=
  List.filterMap_append ..

section

variable {dir : Bool} {s : State} {req : Request} {appended : List Item}

/-- What opening can lead to. -/
theorem ensurePersistOpen_cases (dir : Bool) (s : State) (req : Request) :
    ensurePersistOpen dir s req = (none, s) ∨
    (∃ handle, s.handle = some handle ∧ ensurePersistOpen dir s req = (some handle, s)) ∨
    ensurePersistOpen dir s req =
      (none, { s with warned := true, handle := none, files := s.closed req.closing }) ∨
    ensurePersistOpen dir s req = (some ⟨req.today, []⟩, { s with
      handle := some ⟨req.today, []⟩
      date := some req.today
      files := s.closed req.closing }) := by
  unfold ensurePersistOpen
  dsimp only
  split
  · exact Or.inl rfl
  · right
    split
    · rename_i handle hhandle
      split
      · exact Or.inl ⟨handle, hhandle, rfl⟩
      · right
        split
        · exact Or.inl rfl
        · exact Or.inr rfl
    · right
      split
      · exact Or.inl rfl
      · exact Or.inr rfl

/-- Closing a file keeps the order. -/
theorem Ordered.closed (h : Ordered s appended) (io : Io) :
    (∀ day, s.date = some day → (s.closed io).UpTo day) ∧
    (s.date = none → s.closed io = []) ∧ (entries (s.closed io).all).Sublist appended := by
  have horder := h.order
  unfold State.pending at horder
  unfold State.closed
  cases hhandle : s.handle with
  | none =>
    simp only [hhandle, Option.map_none, Option.getD_none, List.append_nil] at horder
    exact ⟨h.files, h.fresh, horder⟩
  | some handle =>
    have hdate := h.day handle hhandle
    have hfiles := h.files handle.day hdate
    simp only [hhandle, Option.map_some, Option.getD_some] at horder
    refine ⟨?_, ?_, ?_⟩
    · intro day hday
      rw [hdate] at hday
      cases hday
      exact Handle.upTo_transfer hfiles _
    · intro hnone
      rw [hdate] at hnone
      cases hnone
    · exact (entries_sublist (Handle.all_transfer_files_sublist hfiles _)).trans horder

/-- Opening the file of the day keeps the order. -/
theorem Ordered.ensurePersistOpen (h : Ordered s appended) (dir : Bool)
    (hforward : ∀ day, s.date = some day → day ≤ req.today) :
    Ordered (ensurePersistOpen dir s req).2 appended := by
  obtain ⟨hfiles, hfresh, horder⟩ := h.closed req.closing
  rcases ensurePersistOpen_cases dir s req with
    heq | ⟨handle, _, heq⟩ | heq | heq
  · rw [heq]
    exact h
  · rw [heq]
    exact h
  · rw [heq]
    exact ⟨nofun, hfiles, hfresh, by simpa [State.pending] using horder⟩
  · rw [heq]
    refine ⟨?_, ?_, nofun, by simpa [State.pending] using horder⟩
    · intro handle hhandle
      cases hhandle
      rfl
    · intro day hday
      cases hday
      cases hdate : s.date with
      | none =>
        rw [hfresh hdate]
        exact Files.upTo_nil _
      | some day => exact (hfiles day hdate).mono (hforward day hdate)

/-- The handle that is returned is the open one. -/
theorem handle_of_ensurePersistOpen {handle : Handle Piece}
    (h : (Audit.ensurePersistOpen dir s req).1 = some handle) :
    (Audit.ensurePersistOpen dir s req).2.handle = some handle := by
  rcases ensurePersistOpen_cases dir s req with
    heq | ⟨handle', hhandle, heq⟩ | heq | heq
  · rw [heq] at h
    cases h
  · rw [heq] at h ⊢
    cases h
    exact hhandle
  · rw [heq] at h
    cases h
  · rw [heq] at h ⊢
    exact h

/-- A line is written at the end of the file, or a part of it is. -/
theorem takes_writeLine {handle : Handle Piece} {files : Files Piece} (item : Item) (req : Request)
    (hfiles : files.UpTo handle.day) :
    Handle.Takes (handle, files) [.entry item, .newline] (writeLine handle files item req) := by
  have hentry := Handle.takes_write (a := (handle, files)) hfiles [.entry item] req.writing
  unfold writeLine
  dsimp only at hentry ⊢
  split
  · exact hentry.mono (by simp)
  · have hline := hentry.trans (Handle.takes_write hentry.ready [.newline] req.ending)
    split
    · exact hline
    · exact hline.trans (Handle.takes_flush hline.ready req.flushing)

theorem Ordered.remember (h : Ordered s appended) (item : Item) :
    Ordered (s.remember item) appended := by
  unfold State.remember
  generalize push s.log item = log
  exact ⟨h.day, h.files, h.fresh, h.order⟩

theorem Ordered.record (h : Ordered s appended) (dir : Bool)
    (hforward : ∀ day, s.date = some day → day ≤ req.today) :
    Ordered (record dir s req).2 (appended ++ [itemOf req]) := by
  rw [← remember_date s (itemOf req)] at hforward
  have hopen := (h.remember (itemOf req)).ensurePersistOpen dir hforward
  have hmore : appended.Sublist (appended ++ [itemOf req]) := List.sublist_append_left ..
  unfold Audit.record persist
  cases hensure : Audit.ensurePersistOpen dir (s.remember (itemOf req)) req with
  | mk handle s' =>
    rw [hensure] at hopen
    have hkept : Ordered s' (appended ++ [itemOf req]) :=
      ⟨hopen.day, hopen.files, hopen.fresh, hopen.order.trans hmore⟩
    cases handle with
    | none => exact hkept
    | some handle =>
      have hopened : s'.handle = some handle := by
        have hsnd := handle_of_ensurePersistOpen (congrArg Prod.fst hensure)
        rwa [hensure] at hsnd
      cases payloadText req.room (itemOf req) with
      | error e => exact hkept
      | ok text =>
        have hdate := hopen.day handle hopened
        have htakes := takes_writeLine (itemOf req) req (hopen.files handle.day hdate)
        refine ⟨?_, ?_, ?_, ?_⟩
        · intro handle' hhandle'
          rw [← Option.some.inj hhandle', htakes.day]
          exact hdate
        · intro day hday
          rw [hdate] at hday
          cases hday
          exact htakes.upTo
        · intro hnone
          rw [hdate] at hnone
          cases hnone
        · have horder := hopen.order
          simp only [State.pending, hopened, Option.map_some, Option.getD_some] at horder
          refine (entries_sublist htakes.order).trans ?_
          rw [entries_append]
          exact horder.append (List.Sublist.refl [itemOf req])

end

/-! ## Runs -/

/-- The module with what its calls have returned and the entries they have made. -/
structure Ledger where
  state : State
  appended : List Item
  returned : List (Except PyError Item)

def start : Ledger := ⟨initial, [], []⟩

def step (dir : Bool) (l : Ledger) (req : Request) : Option Ledger :=
  some ⟨(record dir l.state req).2, l.appended ++ [itemOf req],
    l.returned ++ [(record dir l.state req).1]⟩

/-- What the log is for: no call raises, each has appended its entry to the ring buffer, and the
files hold entries in the order of the calls. -/
structure Kept (l : Ledger) : Prop where
  returned : l.returned = l.appended.map .ok
  log : l.state.log = l.appended.drop (l.appended.length - auditMax)
  disk : (entries l.state.files.all).Sublist l.appended

/-- The condition on a call: if it gets a file, its entry can be written; and its day is not before
that of the last file. -/
structure Fine (dir : Bool) (l : Ledger) (req : Request) : Prop where
  writable : Opens dir l.state req → Writable req
  forward : ∀ day, l.state.date = some day → day ≤ req.today

instance (dir : Bool) (l : Ledger) (req : Request) : Decidable (Fine dir l req) :=
  decidable_of_iff ((Opens dir l.state req → Writable req) ∧
    ∀ day ∈ l.state.date, day ≤ req.today)
    ⟨fun h => ⟨h.1, h.2⟩, fun h => ⟨h.1, h.2⟩⟩

/-- The last elements after one more. -/
theorem drop_snoc {α : Type} (bound : Nat) (l : List α) (a : α) :
    (l.drop (l.length - bound) ++ [a]).drop ((l.drop (l.length - bound) ++ [a]).length - bound) =
      (l ++ [a]).drop ((l ++ [a]).length - bound) := by
  have hshort : l.drop (l.length - bound) ++ [a] = (l ++ [a]).drop (l.length - bound) :=
    (List.drop_append_of_le_length (by omega)).symm
  rw [hshort, List.drop_drop, List.length_drop, List.length_append, List.length_singleton]
  congr 1
  omega

/-- The ring buffer holds the end of what was appended. -/
theorem push_drop (appended : List Item) (item : Item) :
    push (appended.drop (appended.length - auditMax)) item =
      (appended ++ [item]).drop ((appended ++ [item]).length - auditMax) := by
  unfold push
  rw [drop_snoc]

/-- What the calls keep. -/
structure Invariant (l : Ledger) : Prop where
  kept : Kept l
  ordered : Ordered l.state l.appended

theorem invariant_start : Invariant start where
  kept := ⟨rfl, rfl, List.Sublist.refl _⟩
  ordered := ordered_initial

theorem invariant_step {dir : Bool} {l l' : Ledger} {req : Request} (h : Invariant l)
    (hfine : Fine dir l req) (htaken : step dir l req = some l') : Invariant l' := by
  have hreturns := record_fst_of_isOk (record_returns_iff.mpr hfine.writable)
  have hordered := h.ordered.record dir hfine.forward
  rw [← Option.some.inj htaken]
  refine ⟨⟨?_, ?_, ?_⟩, hordered⟩
  · rw [hreturns, h.kept.returned, List.map_append]
    rfl
  · rw [record_log, h.kept.log, push_drop]
  · exact (entries_sublist (List.sublist_append_left _ _)).trans hordered.order

/-- In a run whose calls are all fine the two tiers agree and nothing is raised; and a call, fine
or not, returns exactly when its entry can be written or no file is open. -/
theorem audit_kept_when_fine (dir : Bool) :
    (∀ reqs l, Run (step dir) (Fine dir) start reqs l → Kept l) ∧
    (∀ s req, (record dir s req).1.isOk ↔ (Opens dir s req → Writable req)) := by
  constructor
  · intro reqs l hrun
    have hinv : Invariant l := hrun.invariant (I := Invariant) invariant_start
      fun t a u h hfine htaken => invariant_step h hfine htaken
    exact hinv.kept
  · intro s req
    exact record_returns_iff

/-- A call on a device that works, except that the flush may fail. -/
def sampleRequest (today : Int) (extra : Option Item) (flushFails : Bool) : Request where
  actor := pyText "write".toList
  action := pyText "create canary".toList
  target := pyText "canary-1".toList
  status := some 201
  extra := extra
  now := pyText "2024-01-01T00:00:00+00:00".toList
  today := today
  room := 900
  closing := ⟨0, false, 0⟩
  openFails := false
  writing := ⟨0, false, 0⟩
  ending := ⟨0, false, 0⟩
  flushing := ⟨0, flushFails, 2⟩

/-- Three calls, a failed flush and a change of the day. -/
def sampleRequests : List Request :=
  [sampleRequest 19723 none true, sampleRequest 19723 (some [(key "ip", key "192.0.2.7")]) false,
    sampleRequest 19724 none false]

theorem sampleRequests_kept :
    ∃ l, Run (step true) (Fine true) start sampleRequests l ∧
      (entries l.state.files.all).length = 3 ∧ Kept l := by
  obtain ⟨l, hrun, hend⟩ : ∃ l, Run (step true) (Fine true) start sampleRequests l ∧
      decide ((entries l.state.files.all).length = 3) = true :=
    run_of_guarded_check (by decide +kernel)
  exact ⟨l, hrun, of_decide_eq_true hend, (audit_kept_when_fine true).1 _ _ hrun⟩

/-- A set among the extras. -/
def setRequest : Request := sampleRequest 19723 (some [(key "roles", .object)]) false

theorem set_in_extra_raises : ¬ ∀ dir reqs l, AnyRun (step dir) start reqs l → Kept l := by
  intro h
  obtain ⟨l, hrun, hend⟩ : ∃ l, AnyRun (step true) start [setRequest] l ∧
      (l.returned.any fun r => !r.isOk) = true := run_of_check (by decide +kernel)
  have hkept := (h _ _ _ hrun).returned
  rw [hkept] at hend
  simp [Except.isOk, Except.toBool] at hend

end ZaqorinCore.Server.Audit
