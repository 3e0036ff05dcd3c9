import ZaqorinCore.Text.Time
import ZaqorinCore.Text.Unicode
import ZaqorinCore.Server.Sigma

/-!
# Live Sigma evaluation

`_process_sigma_one` of `detectors/runner.py`, with the loader `load_rules_from_dir` it calls. The
function imports two names from the package `rule_engine` that the package does not export, so it
raises before it loads a rule: `sigma_never_evaluated`. Past the import it would hand a `str` to a
loader that wants a `Path`: `runRules_str`. With both repaired it does what it is for:
`runRules_evaluates`.

`parse_rule_file`, the rules it returns and the database's answer to an insert are parameters.
-/

namespace ZaqorinCore.Server

open Text Base

/-! ## Imports -/

/-- A package: the names its `__init__.py` binds, and its submodules. -/
structure Package where
  name : String
  bound : List String
  submodules : List String

/-- `from package import ...`. -/
def Package.importFrom (p : Package) : List String → Except PyError Unit
  | [] => pure ()
  | name :: names =>
    if name ∈ p.bound ∨ name ∈ p.submodules then p.importFrom names
    else throw (.importError name p.name)

def ruleEngine : Package where
  name := "zaqorincore_server.rule_engine"
  bound := ["annotations", "CompiledSigmaRule", "SigmaRuleLoadError", "load_rules_from_dir",
    "parse_rule_file"]
  submodules := ["runner", "sigma"]

/-! ## Loading rules -/

/-- The argument of `load_rules_from_dir`; only a `Path` has the methods it calls. -/
inductive PathArg
  | str (s : Str)
  | path (p : Str)

/-- The files under the rules directory, and `parse_rule_file`. -/
structure RuleFiles (ρ : Type) where
  exist : Str → Bool
  isDir : Str → Bool
  rglob : Str → String → List Str
  parseRuleFile : Str → Except PyError (List ρ)

variable {ρ : Type}

/-- The rules of the files that parse, in order; only a `SigmaRuleLoadError` is caught. -/
def loadFiles (files : RuleFiles ρ) : List Str → Except PyError (List ρ)
  | [] => pure []
  | p :: ps =>
    match files.parseRuleFile p with
    | .ok rules => do
      let rest ← loadFiles files ps
      pure (rules ++ rest)
    | .error (.sigmaRuleLoad _ _) => loadFiles files ps
    | .error e => throw e

def loadRulesFromDir (files : RuleFiles ρ) : PathArg → Except PyError (List ρ)
  | .str _ => throw (.attributeError "str" "exists")
  | .path dir =>
    if !files.exist dir || !files.isDir dir then pure []
    else loadFiles files (files.rglob dir "*.yml" ++ files.rglob dir "*.yaml")

/-! ## The stream entry -/

def hexValue (c : Char) : Option Nat :=
  if c.isDigit then some (c.toNat - 48)
  else if 'a' ≤ c ∧ c ≤ 'f' then some (c.toNat - 87)
  else if 'A' ≤ c ∧ c ≤ 'F' then some (c.toNat - 55)
  else none

/-- Hexadecimal digits with single underscores between them, and what follows. -/
def readHexDigits : Bool → Nat → Str → Option (Nat × Str)
  | ok, n, [] => if ok then some (n, []) else none
  | ok, n, c :: rest =>
    match hexValue c with
    | some d => readHexDigits true (16 * n + d) rest
    | none =>
      if ok then (if c = '_' then readHexDigits false n rest else some (n, c :: rest)) else none

/-- `int(s, 16)`; `none` is a `ValueError`. -/
def pyHexInt (s : Str) : Option Int :=
  let s := if s.all (fun c => c.toNat < 128) then s else s.map asciiImage
  let s := s.dropWhile asciiSpace
  let (negative, s) := match s with
    | '+' :: rest => (false, rest)
    | '-' :: rest => (true, rest)
    | _ => (false, s)
  let s := match s with
    | '0' :: 'x' :: '_' :: rest | '0' :: 'X' :: '_' :: rest => rest
    | '0' :: 'x' :: rest | '0' :: 'X' :: rest => rest
    | _ => s
  match readHexDigits false 0 s with
  | some (n, rest) =>
    if rest.all asciiSpace then some (if negative then -(n : Int) else n) else none
  | none => none

/-- `uuid.UUID(s)`; `none` is a `ValueError`. -/
def toUuid (s : Str) : Option Uuid :=
  let s := replaceFrom "uuid:".toList [] 0 (replaceFrom "urn:".toList [] 0 s)
  let brace : Char → Bool := fun c => c == '\x7b' || c == '\x7d'
  let s := ((s.dropWhile brace).reverse.dropWhile brace).reverse
  let s := s.filter (· != '-')
  if s.length ≠ 32 then none
  else match pyHexInt s with
    | some n => if 0 ≤ n ∧ n < 2 ^ 128 then some (BitVec.ofInt 128 n) else none
    | none => none

/-- `datetime.fromtimestamp(n, tz=timezone.utc)` as seconds; `none` is a `ValueError`, for a year
that is not between 1 and 9999. -/
def fromTimestamp (n : Int) : Except PyError (Option Int) :=
  if n < -(2 ^ 63) ∨ 2 ^ 63 ≤ n then throw .overflowError
  -- the year does not fit the C library's `int`
  else if n < -67768040609740800 ∨ 67768036191676799 < n then throw .osError
  else if n < -62135596800 ∨ 253402300799 < n then pure none
  else pure (some n)

def entryField (fields : List (Str × Str)) (key : String) : Option Str :=
  (fields.find? fun f => f.1 == key.toList).map Prod.snd

/-- `_parse_event`: the text and the metadata come later. -/
def parseEvent (fields : List (Str × Str)) : Except PyError (Option ParsedEvent) :=
  match (entryField fields "event_id").bind toUuid, (entryField fields "host_id").bind toUuid,
    (entryField fields "occurred_at_unix").bind pyInt with
  | some eventId, some hostId, some n => do
    let occurredAt ← fromTimestamp n
    pure (occurredAt.map fun t =>
      ⟨eventId, hostId, (entryField fields "source").getD [], [], [], t⟩)
  | _, _, _ => pure none

/-- `str(v)`; the text of a list or an object is a parameter. -/
def pyStr (repr : Json → Str) : Json → Str
  | .null => "None".toList
  | .bool true => "True".toList
  | .bool false => "False".toList
  | .int n => itoa n
  | .float text => text
  | .str s => s
  | v => repr v

/-- `_load_event_payload`. -/
def loadEventPayload (repr : Json → Str) (db : Db) (eventId : Uuid) :
    Option (Str × List (Str × Str)) :=
  (db.events.find eventId).map fun row =>
    (row.raw, row.metadata.map fun m => (m.1, pyStr repr m.2))

/-! ## One entry -/

/-- What one call of `_process_sigma_one` reads from outside: the settings, the rules and their
files, the clock, the identifiers of new rows, and how the database answers their insert. -/
structure SigmaEnv (ρ : Type) where
  rulesDir : Str
  ops : RuleOps ρ
  files : RuleFiles ρ
  repr : Json → Str
  clock : Int
  ids : RuleFire ρ → Uuid × Uuid
  saves : Alert × Option Action → Bool

/-- `handed` are the fires that `persist_fire` was called with. -/
structure SigmaWorld (ρ : Type) where
  db : Db
  redis : Redis
  saved : List (Alert × Option Action)
  handed : List (RuleFire ρ)

def onRedis {α : Type} (m : Py Redis α) : Py (SigmaWorld ρ) α :=
  Script.zoom SigmaWorld.redis (fun redis w => { w with redis }) m

/-- A failed insert is logged, and the loop goes on. -/
def persistFires (env : SigmaEnv ρ) : List (RuleFire ρ) → Py (SigmaWorld ρ) Unit
  | [] => pure ()
  | fire :: fires => do
    let (alertId, actionId) := env.ids fire
    let rows := persistFire env.ops alertId actionId env.clock fire
    modify fun w => { w with
      handed := w.handed ++ [fire]
      saved := if env.saves rows then w.saved ++ [rows] else w.saved }
    persistFires env fires

/-- `_process_sigma_one` from its imports on, for any package in the place of `rule_engine` and any
conversion of the setting `rules_dir`. -/
def runRules (package : Package) (convert : Str → PathArg) (env : SigmaEnv ρ)
    (event : ParsedEvent) : Py (SigmaWorld ρ) Unit := do
  package.importFrom ["SigmaRuleRunner", "persist_fire"]
  let rules ← loadRulesFromDir env.files (convert env.rulesDir)
  if rules.isEmpty then return
  let fires ← onRedis (SigmaRuleRunner.evaluate env.ops event env.clock rules)
  persistFires env fires

def processWith (package : Package) (convert : Str → PathArg) (env : SigmaEnv ρ)
    (fields : List (Str × Str)) : Py (SigmaWorld ρ) Unit := do
  let some parsed ← parseEvent fields | return
  let some (raw, metadata) := loadEventPayload env.repr (← get).db parsed.eventId | return
  runRules package convert env { parsed with raw, metadata }

def processSigmaOne (env : SigmaEnv ρ) (fields : List (Str × Str)) : Py (SigmaWorld ρ) Unit :=
  processWith ruleEngine .str env fields

/-! ## The entry is read -/

/-- The event that the entry and its row make. -/
def eventOf (env : SigmaEnv ρ) (parsed : ParsedEvent) (row : Event) : ParsedEvent :=
  { parsed with raw := row.raw, metadata := row.metadata.map fun m => (m.1, pyStr env.repr m.2) }

section Entry

variable {env : SigmaEnv ρ} {w : SigmaWorld ρ} {fields : List (Str × Str)} {parsed : ParsedEvent}
  {row : Event}

theorem processWith_entry (hparsed : parseEvent fields = .ok (some parsed))
    (hrow : w.db.events.find parsed.eventId = some row) (package : Package)
    (convert : Str → PathArg) :
    (processWith package convert env fields).exec w =
      (runRules package convert env (eventOf env parsed row)).exec w := by
  have hpayload : loadEventPayload env.repr w.db parsed.eventId =
      some (row.raw, row.metadata.map fun m => (m.1, pyStr env.repr m.2)) := by
    rw [loadEventPayload, hrow, Option.map_some]
  have hread : (liftM (parseEvent fields) : Py (SigmaWorld ρ) (Option ParsedEvent)).exec w =
      (.ok (some parsed), w) := by
    rw [Script.exec_lift, hparsed]
  unfold processWith
  rw [Script.exec_bind_ok hread]
  dsimp only
  rw [Script.exec_bind_ok (Script.exec_get w), hpayload]
  rfl

/-- A failed import ends the call; nothing has happened. -/
theorem runRules_import_error {package : Package} {e : PyError}
    (himport : package.importFrom ["SigmaRuleRunner", "persist_fire"] = .error e)
    (convert : Str → PathArg) (event : ParsedEvent) :
    (runRules package convert env event).exec w = (.error e, w) := by
  apply Script.exec_bind_error
  rw [Script.exec_lift, himport]

/-- `rule_engine` does not export the runner. -/
theorem importFrom_ruleEngine : ruleEngine.importFrom ["SigmaRuleRunner", "persist_fire"] =
    .error (.importError "SigmaRuleRunner" "zaqorincore_server.rule_engine") := by
  have hmissing : ¬ ("SigmaRuleRunner" ∈ ruleEngine.bound ∨
      "SigmaRuleRunner" ∈ ruleEngine.submodules) := by decide
  rw [Package.importFrom, if_neg hmissing]
  rfl

theorem processSigmaOne_raises (hparsed : parseEvent fields = .ok (some parsed))
    (hrow : w.db.events.find parsed.eventId = some row) :
    (processSigmaOne env fields).exec w =
      (.error (.importError "SigmaRuleRunner" "zaqorincore_server.rule_engine"), w) := by
  rw [processSigmaOne, processWith_entry hparsed hrow]
  exact runRules_import_error importFrom_ruleEngine _ _

end Entry

/-! ## Evaluation -/

/-- The rules of the directory are loaded and evaluated on the event, the call returns, and every
fire has been handed to `persist_fire`. -/
def Evaluates (env : SigmaEnv ρ) (w : SigmaWorld ρ) (event : ParsedEvent)
    (call : Py (SigmaWorld ρ) Unit) : Prop :=
  ∃ rules fires w', loadRulesFromDir env.files (.path env.rulesDir) = .ok rules ∧
    ((SigmaRuleRunner.evaluate env.ops event env.clock rules).exec w.redis).1 = .ok fires ∧
    call.exec w = (.ok (), w') ∧ ∀ fire ∈ fires, fire ∈ w'.handed

theorem sigma_never_evaluated (env : SigmaEnv ρ) (w : SigmaWorld ρ) (fields : List (Str × Str))
    (parsed : ParsedEvent) (row : Event) (hparsed : parseEvent fields = .ok (some parsed))
    (hrow : w.db.events.find parsed.eventId = some row) :
    ¬ Evaluates env w (eventOf env parsed row) (processSigmaOne env fields) := by
  rintro ⟨rules, fires, w', -, -, hcall, -⟩
  rw [processSigmaOne_raises hparsed hrow] at hcall
  cases hcall

/-- A rule that fires on every event. -/
def eagerOps : RuleOps Unit where
  id _ := "r1".toList
  title _ := "Any event".toList
  level _ := "high".toList
  count _ := 1
  timeframeSec _ := 60
  cooldownSec _ := 300
  applies _ _ := pure true
  renderDedupKey _ _ := []
  renderAction _ _ := pure none

def eagerEnv : SigmaEnv Unit where
  rulesDir := "rules/builtin".toList
  ops := eagerOps
  files := ⟨fun _ => true, fun _ => true,
    fun _ ext => if ext = "*.yml" then ["r1.yml".toList] else [], fun _ => pure [()]⟩
  repr _ := []
  clock := 0
  ids _ := (1#128, 2#128)
  saves _ := true

def storedEvent : Event :=
  ⟨3#128, 7#128, "1.0".toList, 1767323045, "sshd".toList, "Failed password".toList,
    [("status".toList, .str "failed".toList)]⟩

def storedWorld : SigmaWorld Unit :=
  ⟨⟨Table.empty, ⟨[storedEvent], by decide⟩, Table.empty⟩, ⟨0, fun _ => none⟩, [], []⟩

/-- The entry that the publisher writes for the event. -/
def storedFields : List (Str × Str) :=
  [("event_id".toList, uuidStr 3#128), ("host_id".toList, uuidStr 7#128),
    ("source".toList, "sshd".toList), ("occurred_at_unix".toList, itoa 1767323045)]

def storedParsed : ParsedEvent := ⟨3#128, 7#128, "sshd".toList, [], [], 1767323045⟩

theorem parseEvent_stored : parseEvent storedFields = .ok (some storedParsed) := by
  decide +kernel

theorem sigma_never_evaluated_stored :
    parseEvent storedFields = .ok (some storedParsed) ∧
      ¬ Evaluates eagerEnv storedWorld (eventOf eagerEnv storedParsed storedEvent)
        (processSigmaOne eagerEnv storedFields) :=
  ⟨parseEvent_stored, sigma_never_evaluated eagerEnv storedWorld storedFields storedParsed
    storedEvent parseEvent_stored rfl⟩

/-- The rule fires on the event, and the call raises. -/
theorem sigma_import_error :
    ((SigmaRuleRunner.evaluate eagerOps (eventOf eagerEnv storedParsed storedEvent) 0 [()]).exec
        storedWorld.redis).1 =
      .ok [⟨(), eventOf eagerEnv storedParsed storedEvent, "r1".toList, 1, none⟩] ∧
    (processSigmaOne eagerEnv storedFields).exec storedWorld =
      (.error (.importError "SigmaRuleRunner" "zaqorincore_server.rule_engine"), storedWorld) ∧
    ¬ Evaluates eagerEnv storedWorld (eventOf eagerEnv storedParsed storedEvent)
      (processSigmaOne eagerEnv storedFields) := by
  have hraises : (processSigmaOne eagerEnv storedFields).exec storedWorld =
      (.error (.importError "SigmaRuleRunner" "zaqorincore_server.rule_engine"), storedWorld) :=
    processSigmaOne_raises parseEvent_stored rfl
  refine ⟨by decide +kernel, hraises, ?_⟩
  rintro ⟨rules, fires, w', -, -, hcall, -⟩
  rw [hraises] at hcall
  cases hcall

/-! ## The repaired function -/

theorem persistFires_handed (env : SigmaEnv ρ) (fires : List (RuleFire ρ)) (w : SigmaWorld ρ) :
    ∃ w', (persistFires env fires).exec w = (.ok (), w') ∧ w'.handed = w.handed ++ fires := by
  induction fires generalizing w with
  | nil => exact ⟨w, rfl, (List.append_nil _).symm⟩
  | cons fire fires ih =>
    obtain ⟨w', hexec, hhanded⟩ := ih { w with
      handed := w.handed ++ [fire]
      saved := if env.saves (persistFire env.ops (env.ids fire).1 (env.ids fire).2 env.clock fire)
        then w.saved ++ [persistFire env.ops (env.ids fire).1 (env.ids fire).2 env.clock fire]
        else w.saved }
    refine ⟨w', ?_, ?_⟩
    · rw [← hexec]
      exact Script.exec_bind_ok (Script.exec_modify _ w) _
    · rw [hhanded, List.append_assoc]
      rfl

section Repaired

variable {env : SigmaEnv ρ} {w : SigmaWorld ρ} {package : Package} {event : ParsedEvent}

/-- The import alone is not enough: a `str` has no method `exists`. -/
theorem runRules_str (himport : package.importFrom ["SigmaRuleRunner", "persist_fire"] = .ok ()) :
    (runRules package .str env event).exec w = (.error (.attributeError "str" "exists"), w) := by
  have hok : (liftM (package.importFrom ["SigmaRuleRunner", "persist_fire"]) :
      Py (SigmaWorld ρ) Unit).exec w = (.ok (), w) := by
    rw [Script.exec_lift, himport]
  unfold runRules
  rw [Script.exec_bind_ok hok]
  exact Script.exec_bind_error rfl _

/-- With the names exported and the setting made a `Path`, the function does what it is for,
whenever the rules load and their evaluation returns. -/
theorem runRules_evaluates {rules : List ρ} {fires : List (RuleFire ρ)} {redis : Redis}
    (himport : package.importFrom ["SigmaRuleRunner", "persist_fire"] = .ok ())
    (hload : loadRulesFromDir env.files (.path env.rulesDir) = .ok rules)
    (heval : (SigmaRuleRunner.evaluate env.ops event env.clock rules).exec w.redis =
      (.ok fires, redis)) :
    Evaluates env w event (runRules package .path env event) := by
  have hok : (liftM (package.importFrom ["SigmaRuleRunner", "persist_fire"]) :
      Py (SigmaWorld ρ) Unit).exec w = (.ok (), w) := by
    rw [Script.exec_lift, himport]
  have hrules : (liftM (loadRulesFromDir env.files (.path env.rulesDir)) :
      Py (SigmaWorld ρ) (List ρ)).exec w = (.ok rules, w) := by
    rw [Script.exec_lift, hload]
  have hfires : (onRedis (SigmaRuleRunner.evaluate env.ops event env.clock rules)).exec w =
      (.ok fires, { w with redis }) := by
    rw [onRedis, Script.exec_zoom, heval]
  cases rules with
  | nil =>
    have hnone : fires = [] := by
      cases heval
      rfl
    refine ⟨[], fires, w, hload, by rw [heval], ?_, by simp [hnone]⟩
    unfold runRules
    rw [Script.exec_bind_ok hok, Script.exec_bind_ok hrules]
    rfl
  | cons rule rules =>
    obtain ⟨w', hexec, hhanded⟩ := persistFires_handed env fires { w with redis }
    refine ⟨rule :: rules, fires, w', hload, by rw [heval], ?_, ?_⟩
    · unfold runRules
      rw [Script.exec_bind_ok hok, Script.exec_bind_ok hrules]
      exact (Script.exec_bind_ok hfires _).trans hexec
    · intro fire hfire
      rw [hhanded]
      exact List.mem_append_right _ hfire

end Repaired

end ZaqorinCore.Server
