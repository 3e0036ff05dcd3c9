import ZaqorinCore.Base.Table
import ZaqorinCore.Base.Run
import ZaqorinCore.Server.Studio

/-!
# The rule studio: the files and the handlers

`get_rule`, `create_rule`, `update_rule` and `delete_rule` of `api/v1/rules_studio.py` over the
files below `rules/builtin` and `rules/custom`. A rule is written first, then read back by the
loader of the engine and by `get_rule`. The file system accepts every write, the requests are
handled one after another, and a handler ends with its value or its exception: rendering the
response is left out.
-/

namespace ZaqorinCore.Server

open Text Base

/-! ## Files -/

/-- What a file holds: a text, bytes that are not UTF-8, or nothing that the server may read. -/
inductive FileBody
  | text (s : Str)
  | binary (bytes : List Nat)
  | unreadable (type : String)

/-- A file below a directory of rules, by its path from there. -/
structure RuleFile where
  name : Str
  body : FileBody

abbrev RuleFolder := Table RuleFile.name

structure RuleStore where
  builtin : RuleFolder
  custom : RuleFolder

def FileBody.loaded (ops : StudioOps) : FileBody → Loaded
  | .text s => match ops.load s with
    | .ok v => .data v
    | .error mark => .yamlError mark
  | .binary _ => .notUtf8
  | .unreadable type => .osError type

/-- `path.read_text(encoding="utf-8")` -/
def FileBody.readText : FileBody → Except PyError Str
  | .text s => pure s
  | .binary _ => throw (.other "UnicodeDecodeError")
  | .unreadable type => throw (.other type)

/-- `os.replace` of a file onto the name. -/
def replaceFile (folder : RuleFolder) (name : Str) (body : FileBody) : RuleFolder :=
  match h : folder.find name with
  | none => folder.insert ⟨name, body⟩ h
  | some _ => folder.updateWhere (fun f => f.name == name) (fun f => { f with body }) fun _ => rfl

def fileName (ruleId : Str) : Str := ruleId ++ ".yml".toList

inductive RuleSource
  | builtin
  | custom
  deriving DecidableEq

def RuleSource.name : RuleSource → Str
  | builtin => "builtin".toList
  | custom => "custom".toList

def RuleStore.folder (store : RuleStore) : RuleSource → RuleFolder
  | .builtin => store.builtin
  | .custom => store.custom

/-- `_BUILTIN_DIR` and `_CUSTOM_DIR` -/
def ruleFolder (ops : StudioOps) (source : RuleSource) : Str :=
  ops.root ++ "/rules/".toList ++ source.name

def pathBelow (dir name : Str) : Str := dir ++ '/' :: name

/-- `_resolve_path` -/
def resolvePath (ops : StudioOps) (source : RuleSource) (ruleId : Str) : Str :=
  pathBelow (ruleFolder ops source) (fileName ruleId)

/-- `_atomic_write_text` of a rule of `rules/custom` -/
def RuleStore.write (store : RuleStore) (ruleId text : Str) : RuleStore :=
  { store with custom := replaceFile store.custom (fileName ruleId) (.text text) }

/-! ## Reading a rule -/

/-- `\d` -/
def isDecimal (c : Char) : Bool := (decimalValue c.toNat).isSome

/-- `\d{n}` and what follows. -/
def eatDigits : Nat → Str → Option (Str × Str)
  | 0, s => some ([], s)
  | _ + 1, [] => none
  | n + 1, c :: s => if isDecimal c then (eatDigits n s).map fun r => (c :: r.1, r.2) else none

/-- `t?\d{4}(?:\.\d{3})?` at the start of the text, in upper case. -/
def mitreAt (s : Str) : Option Str :=
  let lead := if s.head? = some 't' ∨ s.head? = some 'T' then ['T'] else []
  (eatDigits 4 (s.drop lead.length)).map fun r =>
    match r.2 with
    | '.' :: more =>
      match eatDigits 3 more with
      | some sub => lead ++ r.1 ++ '.' :: sub.1
      | none => lead ++ r.1
    | _ => lead ++ r.1

/-- `list(v)`, which is also what a loop over `v` runs through. -/
def Yaml.items (ops : StudioOps) : Yaml → Except PyError (List Yaml)
  | .seq items => pure items
  | .map fields => pure (fields.map Prod.fst)
  | .str s => pure (s.map fun c => .str [c])
  | .object o => raised (ops.iterate o)
  | _ => throw typeError

/-- `_collect_mitre` of the tags. -/
def collectMitre (tags : List Yaml) : Option Str :=
  tags.findSome? fun
    | .str tag => tag.tails.findSome? mitreAt
    | _ => none

/-- `_read_rule_detail`: the custom rules come first, and `yml` before `yaml`. -/
def RuleStore.findRule (store : RuleStore) (ruleId : Str) : Option (FileBody × RuleSource) :=
  [RuleSource.custom, .builtin].findSome? fun source =>
    [".yml", ".yaml"].findSome? fun ext =>
      ((store.folder source).find (ruleId ++ ext.toList)).map fun f => (f.body, source)

def readRuleDetail (ops : StudioOps) (store : RuleStore) (ruleId : Str) :
    Except StudioError (Str × List (Yaml × Yaml) × RuleSource) := do
  validateRuleId ruleId
  match store.findRule ruleId with
  | none => throw (.http 404 ("rule ".toList ++ ops.repr ruleId ++ " not found".toList))
  | some (body, source) =>
    let text ← body.readText.mapError .raised
    let value ← (ops.load text).mapError fun _ => .raised (.other "YAMLError")
    match value.orElse (.map []) with
    | .map parsed => pure (text, parsed, source)
    | _ => throw (.http 422 ("rule ".toList ++ ops.repr ruleId ++ " is not a mapping".toList))

/-- `RuleDetail`, without `last_fired_at`, which no handler sets. -/
structure RuleDetail where
  id : Str
  title : Str
  level : SeverityLit
  source : RuleSource
  description : Option Str
  mitreId : Option Str
  logsource : Option Str
  path : Str
  yaml : Str
  detection : List (Str × Yaml)
  condition : Str
  timeframe : Option Str
  count : Option Int
  cooldownSec : Option Int
  dedupKey : Option Str
  action : Option (List (Str × Yaml))
  tags : List Str

/-- A `str` field. -/
def detailStr (ops : StudioOps) : Yaml → Option Str
  | .str s => some s
  | .object o => ops.laxStr o
  | _ => none

/-- An `int` field. -/
def detailInt (ops : StudioOps) : Yaml → Option Int
  | .int n => some n
  | .bool b => some (if b then 1 else 0)
  | .null | .seq _ | .map _ => none
  | v => ops.laxInt v

/-- A `dict[str, Any]` field. -/
def detailMembers (ops : StudioOps) : Yaml → Option (List (Str × Yaml))
  | .map fields => fields.mapM fun f => (detailStr ops f.1).map fun key => (key, f.2)
  | _ => none

/-- A `SeverityLit` field. -/
def detailLevel : Yaml → Option SeverityLit
  | .str s => [SeverityLit.low, .medium, .high, .critical].find? fun level => level.name == s
  | _ => none

/-- A field that may be `None`. -/
def nullable {α : Type} (read : Yaml → Option α) : Yaml → Option (Option α)
  | .null => some none
  | v => (read v).map some

/-- The values that `get_rule` hands to `RuleDetail`. -/
structure DetailArgs where
  id : Str
  title : Str
  level : Yaml
  source : RuleSource
  description : Option Str
  mitreId : Option Str
  logsource : Yaml
  path : Str
  yaml : Str
  detection : List (Yaml × Yaml)
  condition : Str
  timeframe : Option Str
  count : Option Int
  cooldownSec : Yaml
  dedupKey : Yaml
  action : Yaml
  tags : List Yaml

/-- `RuleDetail(...)`: the fields that are refused are reported together. -/
def DetailArgs.validate (ops : StudioOps) (a : DetailArgs) : Except StudioError RuleDetail :=
  match detailLevel a.level, nullable (detailStr ops) a.logsource, detailMembers ops (.map a.detection),
    nullable (detailInt ops) a.cooldownSec, nullable (detailStr ops) a.dedupKey,
    nullable (detailMembers ops) a.action, a.tags.mapM (detailStr ops) with
  | some level, some logsource, some detection, some cooldownSec, some dedupKey, some action,
      some tags =>
    .ok { a with level, logsource, detection, cooldownSec, dedupKey, action, tags }
  | level, logsource, detection, cooldownSec, dedupKey, action, tags =>
    .error (.validation (([("level", level.isNone), ("logsource", logsource.isNone),
      ("detection", detection.isNone), ("cooldown_sec", cooldownSec.isNone),
      ("dedup_key", dedupKey.isNone), ("action", action.isNone),
      ("tags", tags.isNone)].filter Prod.snd).map Prod.fst))

/-- A value that `.get` is called on. -/
def asDict : Yaml → Except PyError (List (Yaml × Yaml))
  | .map fields => pure fields
  | v => throw (.attributeError v.typeName "get")

/-- `f(v) if v is not None else None` -/
def unlessNone {α : Type} (f : Yaml → Except PyError α) : Yaml → Except PyError (Option α)
  | .null => pure none
  | v => (f v).map some

/-- The description without its white space; an empty one is none. -/
def descriptionOf : Yaml → Option Str
  | .str s => nonempty (some (strip s))
  | _ => none

/-- The source of a selection. -/
def sourceOf : Yaml → Yaml
  | .map fields => Yaml.get fields "source"
  | _ => .null

/-- The arguments of `RuleDetail` in `get_rule`, in the order they are computed. -/
def detailArgs (rt : Runtime) (ops : StudioOps) (ruleId text : Str) (parsed : List (Yaml × Yaml))
    (source : RuleSource) : Except PyError DetailArgs := do
  let detection ← asDict ((Yaml.get parsed "detection").orElse (.map []))
  let selection := (Yaml.get detection "selection").orElse (.map [])
  let id ← ((Yaml.get parsed "id").orElse (.str ruleId)).toStr rt
  let title ← ((Yaml.get parsed "title").orElse (.str ruleId)).toStr rt
  let tags ← ((Yaml.get parsed "tags").orElse (.seq [])).items ops
  let condition ← ((Yaml.get detection "condition").orElse (.ofString "selection")).toStr rt
  let timeframe ← unlessNone (Yaml.toStr rt) (Yaml.get detection "timeframe")
  let count ← unlessNone Yaml.toInt (Yaml.get detection "count")
  pure { id, title, level := levelOf parsed, source,
         description := descriptionOf (Yaml.get parsed "description"),
         mitreId := collectMitre tags, logsource := sourceOf selection,
         path := resolvePath ops source ruleId, yaml := text, detection, condition, timeframe, count,
         cooldownSec := Yaml.get parsed "cooldown_sec", dedupKey := Yaml.get parsed "dedup_key",
         action := Yaml.get parsed "action", tags }

/-- `get_rule` -/
def getRule (rt : Runtime) (ops : StudioOps) (store : RuleStore) (ruleId : Str) :
    Except StudioError RuleDetail := do
  let (text, parsed, source) ← readRuleDetail ops store ruleId
  let args ← (detailArgs rt ops ruleId text parsed source).mapError .raised
  args.validate ops

/-! ## Writing a rule -/

/-- Only a `SigmaRuleLoadError` becomes an answer of the handler. -/
def compileError : PyError → StudioError
  | .sigmaRuleLoad path reason =>
    .http 422 ("sigma compile error: sigma rule ".toList ++ path ++ ": ".toList ++ reason)
  | err => .raised err

/-- `parse_rule_file` of the file of a rule. -/
def parseStored (rt : Runtime) (ops : StudioOps) (store : RuleStore) (ruleId : Str) :
    Except PyError (List CompiledSigmaRule) :=
  parseRuleFile rt (resolvePath ops .custom ruleId)
    (match store.custom.find (fileName ruleId) with
      | some file => file.body.loaded ops
      | none => .osError "FileNotFoundError")

/-- `create_rule` -/
def createRule (rt : Runtime) (ops : StudioOps) (store : RuleStore) (fresh : Uuid)
    (body : RuleIn) : RuleStore × Except StudioError RuleDetail :=
  match sanitizeRuleId rt ops fresh body.id body.title with
  | .error err => (store, .error err)
  | .ok ruleId =>
    match validateCondition rt ops body.condition with
    | .error err => (store, .error err)
    | .ok condition =>
      if (store.custom.find (fileName ruleId)).isSome then
        (store, .error (.http 409 ("rule ".toList ++ ops.repr ruleId ++
          " already exists; use PUT to update".toList)))
      else
        match ops.dump (body.doc rt ruleId condition) with
        | .error type => (store, .error (.raised (.other type)))
        | .ok text =>
          let store := store.write ruleId text
          match parseStored rt ops store ruleId with
          | .error err => (store, .error (compileError err))
          | .ok [] => (store, .error (.http 422 "rule produced no compiled matcher".toList))
          | .ok (_ :: _) => (store, getRule rt ops store ruleId)

/-- What `update_rule` and `delete_rule` check: the rule is a custom one. -/
def requireCustom (store : RuleStore) (ruleId builtinDetail missingDetail : Str) :
    Except StudioError Unit := do
  validateRuleId ruleId
  if (store.custom.find (fileName ruleId)).isSome then pure ()
  else if (store.builtin.find (fileName ruleId)).isSome then throw (.http 409 builtinDetail)
  else throw (.http 404 missingDetail)

/-- `update_rule` -/
def updateRule (rt : Runtime) (ops : StudioOps) (store : RuleStore) (ruleId : Str)
    (body : RuleIn) : RuleStore × Except StudioError RuleDetail :=
  match requireCustom store ruleId
      ("rule ".toList ++ ops.repr ruleId ++ (" is built-in; create a copy under ".toList ++
        "custom/ first (use POST /api/v1/rules)".toList))
      ("rule ".toList ++ ops.repr ruleId ++ " not found in custom/".toList) with
  | .error err => (store, .error err)
  | .ok () =>
    match validateCondition rt ops body.condition with
    | .error err => (store, .error err)
    | .ok condition =>
      match ops.dump (body.doc rt ruleId condition) with
      | .error type => (store, .error (.raised (.other type)))
      | .ok text =>
        let store := store.write ruleId text
        match parseStored rt ops store ruleId with
        | .error err => (store, .error (compileError err))
        | .ok _ => (store, getRule rt ops store ruleId)

/-- `delete_rule` -/
def deleteRule (ops : StudioOps) (store : RuleStore) (ruleId : Str) :
    RuleStore × Except StudioError Unit :=
  match requireCustom store ruleId
      ("rule ".toList ++ ops.repr ruleId ++ " is built-in and cannot be deleted".toList)
      ("rule ".toList ++ ops.repr ruleId ++ " not found".toList) with
  | .error err => (store, .error err)
  | .ok () => ({ store with custom := store.custom.remove (fileName ruleId) }, .ok ())

end ZaqorinCore.Server
