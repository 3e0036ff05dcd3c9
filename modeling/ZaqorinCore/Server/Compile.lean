import ZaqorinCore.Server.Rule

/-!
# Loading rules

`_compile`, `_parse_timeframe` and `parse_rule_file` of `rule_engine/sigma.py`. A file that is not
a rule file is reported with a `SigmaRuleLoadError`, which the loader catches; the conversions of
the fields and the decoding of the file raise other exceptions, which it does not.
-/

namespace ZaqorinCore.Server

open Text Base

/-- `a or b`. -/
def Yaml.orElse (a b : Yaml) : Yaml := if a.truthy then a else b

def Yaml.ofString (s : String) : Yaml := .str s.toList

/-! ## Compiling -/

/-- The text of a timeframe in seconds; an invalid one is a minute. -/
def timeframeOf (s : Str) : Int :=
  if s = [] then 60
  else if "ms".toList.isSuffixOf s then
    ((pyInt (s.dropLast.dropLast)).map fun n => max 1 (n / 1000)).getD 60
  else if "s".toList.isSuffixOf s then (pyInt s.dropLast).getD 60
  else if "m".toList.isSuffixOf s then ((pyInt s.dropLast).map (· * 60)).getD 60
  else if "h".toList.isSuffixOf s then ((pyInt s.dropLast).map (· * 3600)).getD 60
  else (pyInt s).getD 60

/-- `_parse_timeframe`; a `bool` is an `int`. -/
def parseTimeframe (rt : Runtime) : Yaml → Except PyError Int
  | .int n => pure n
  | .bool b => pure (if b then 1 else 0)
  | v => do
    let s ← v.toStr rt
    pure (timeframeOf (lower rt.finalSigma (strip s)))

def levels : List Str := ["low".toList, "medium".toList, "high".toList, "critical".toList]

/-- `action` is absent or a mapping. -/
def compileAction (path : Str) : Yaml → Except PyError (Option (List (Yaml × Yaml)))
  | .null => pure none
  | .map fields => pure (some fields)
  | _ => throw (.sigmaRuleLoad path "'action' must be a mapping".toList)

def asMapping (path : Str) (reason : String) : Yaml → Except PyError (List (Yaml × Yaml))
  | .map fields => pure fields
  | _ => throw (.sigmaRuleLoad path reason.toList)

def asList (path : Str) (reason : String) : Yaml → Except PyError (List Yaml)
  | .seq items => pure items
  | _ => throw (.sigmaRuleLoad path reason.toList)

/-- The value of `title`, or what stands for it. -/
def titleOf (raw : List (Yaml × Yaml)) : Yaml :=
  (Yaml.get raw "title").orElse ((Yaml.get raw "id").orElse (.ofString "unnamed"))

def levelOf (raw : List (Yaml × Yaml)) : Yaml :=
  (Yaml.get raw "level").orElse (.ofString "medium")

/-- `_compile` from `condition` on. -/
def compileFields (rt : Runtime) (path : Str) (raw : List (Yaml × Yaml)) (id title level : Str)
    (detection selection : List (Yaml × Yaml)) : Except PyError CompiledSigmaRule := do
  let condition ← ((Yaml.get detection "condition").orElse (.ofString "selection")).toStr rt
  let count ← ((Yaml.get detection "count").orElse (.int 1)).toInt
  let timeframeSec ←
    parseTimeframe rt ((Yaml.lookup detection "timeframe".toList).getD (.ofString "60s"))
  let cooldownSec ← ((Yaml.get raw "cooldown_sec").orElse (.int 300)).toInt
  let dedupKey ← ((Yaml.get raw "dedup_key").orElse (.ofString "")).toStr rt
  let action ← compileAction path (Yaml.get raw "action")
  let required ← asList path "'required_fields' must be a list of strings"
    ((Yaml.lookup raw "required_fields".toList).getD (.seq []))
  let requiredFields ← required.mapM (Yaml.toStr rt)
  return { id, title, level, selection, detection, condition, count, timeframeSec, cooldownSec,
           dedupKey, action, requiredFields }

/-- `_compile`. -/
def compileRule (rt : Runtime) (path : Str) (raw : List (Yaml × Yaml)) :
    Except PyError CompiledSigmaRule := do
  let title ← (titleOf raw).toStr rt
  let name := replaceFrom " ".toList "-".toList 0 (lower rt.finalSigma title)
  let id ← ((Yaml.get raw "id").orElse (.str name)).toStr rt
  let level ← (levelOf raw).toStr rt
  if level ∉ levels then throw (.sigmaRuleLoad path ("invalid level: ".toList ++ level))
  let detection ← asMapping path "missing 'detection' block" (Yaml.get raw "detection")
  let selection ← asMapping path "missing 'detection.selection'" (Yaml.get detection "selection")
  compileFields rt path raw id title level detection selection

/-! ## Files -/

/-- How `yaml.safe_load` of an open file ends: the file cannot be read, its bytes are not UTF-8, the
text is malformed at a line and a column, or it holds a value. -/
inductive Loaded
  | osError (type : String)
  | notUtf8
  | yamlError (mark : Option (Nat × Nat))
  | data (value : Yaml)

def compileRules (rt : Runtime) (path : Str) : List Yaml → Except PyError (List CompiledSigmaRule)
  | [] => pure []
  | .map raw :: rest => do
    let rule ← compileRule rt path raw
    let rules ← compileRules rt path rest
    pure (rule :: rules)
  | _ :: _ => throw (.sigmaRuleLoad path "rule must be a mapping".toList)

/-- The rules of a file: a list of them, or one. -/
def ruleItems : Yaml → List Yaml
  | .null => []
  | .seq items => items
  | v => [v]

def positionOf : Option (Nat × Nat) → Str
  | some (line, column) =>
    "line ".toList ++ itoa (line + 1) ++ ", column ".toList ++ itoa (column + 1)
  | none => "unknown position".toList

/-- `parse_rule_file`. -/
def parseRuleFile (rt : Runtime) (path : Str) : Loaded → Except PyError (List CompiledSigmaRule)
  | .osError type => throw (.sigmaRuleLoad path ("cannot read: ".toList ++ type.toList))
  | .notUtf8 => throw (.other "UnicodeDecodeError")
  | .yamlError mark => throw (.sigmaRuleLoad path ("invalid YAML at ".toList ++ positionOf mark))
  | .data value => compileRules rt path (ruleItems value)

/-- A directory of rule files. -/
structure RuleDir where
  exist : Str → Bool
  isDir : Str → Bool
  rglob : Str → String → List Str
  loaded : Str → Loaded

def RuleDir.files (rt : Runtime) (d : RuleDir) : RuleFiles CompiledSigmaRule where
  exist := d.exist
  isDir := d.isDir
  rglob := d.rglob
  parseRuleFile p := parseRuleFile rt p (d.loaded p)

/-- The files that the loader opens, in order. -/
def RuleDir.paths (d : RuleDir) (dir : Str) : List Str :=
  if !d.exist dir || !d.isDir dir then [] else d.rglob dir "*.yml" ++ d.rglob dir "*.yaml"

end ZaqorinCore.Server
