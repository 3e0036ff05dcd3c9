import ZaqorinCore.Server.Value

/-!
# Sigma rules

`CompiledSigmaRule` of `rule_engine/sigma.py`: matching an event, and rendering the action and the
dedup key. Matching raises where the code does: at a pattern that does not compile, at a filter
that is no mapping, and at a number too large for a `float`.
-/

namespace ZaqorinCore.Server

open Text Base

/-- An event as the matcher reads it. On the live path the metadata are texts, in a hunt they are
the JSON values of the row. -/
structure Subject where
  source : Str
  raw : Str
  metadata : List (Str × Json)

/-- The entry of a dictionary with distinct keys. -/
def dictGet {α : Type} (fields : List (Str × α)) (key : Str) : Option α :=
  (fields.find? fun f => f.1 == key).map Prod.snd

section Dictionaries

variable {α : Type} {fields : List (Str × α)} {key other : Str} {v : α}

theorem dictGet_cons_self : dictGet ((key, v) :: fields) key = some v := by
  simp [dictGet]

theorem dictGet_cons_of_ne (h : other ≠ key) :
    dictGet ((other, v) :: fields) key = dictGet fields key := by
  simp [dictGet, h]

theorem dictGet_mem (h : dictGet fields key = some v) : v ∈ fields.map Prod.snd := by
  obtain ⟨entry, hentry, rfl⟩ := Option.map_eq_some_iff.mp h
  exact List.mem_map.mpr ⟨entry, List.mem_of_find?_eq_some hentry, rfl⟩

theorem dictGet_eq_none (h : key ∉ fields.map Prod.fst) : dictGet fields key = none := by
  unfold dictGet
  rw [Option.map_eq_none_iff, List.find?_eq_none]
  intro f hf heq
  have hkey : f.1 = key := by simpa using heq
  rw [← hkey] at h
  exact h (List.mem_map_of_mem hf)

theorem dictGet_append (fields more : List (Str × α)) (key : Str) :
    dictGet (fields ++ more) key = (dictGet fields key).or (dictGet more key) := by
  unfold dictGet
  rw [List.find?_append, Option.map_or]

theorem dictGet_snoc (h : dictGet fields key = none) :
    dictGet (fields ++ [(key, v)]) key = some v := by
  rw [dictGet_append, h, dictGet_cons_self]
  rfl

theorem dictGet_map {β : Type} (f : α → β) (fields : List (Str × α)) (key : Str) :
    dictGet (fields.map fun m => (m.1, f m.2)) key = (dictGet fields key).map f := by
  induction fields with
  | nil => rfl
  | cons m fields ih =>
    unfold dictGet at ih ⊢
    rw [List.map_cons, List.find?_cons, List.find?_cons]
    cases m.1 == key with
    | true => rfl
    | false => exact ih

end Dictionaries

def ParsedEvent.subject (e : ParsedEvent) : Subject :=
  ⟨e.source, e.raw, e.metadata.map fun m => (m.1, .str m.2)⟩

/-! ## Entries -/

inductive Modifier
  | startswith
  | endswith
  | ge
  | lt
  deriving DecidableEq

def Modifier.ofName (name : Str) : Option Modifier :=
  if name = "startswith".toList then some .startswith
  else if name = "endswith".toList then some .endswith
  else if name = "ge".toList then some .ge
  else if name = "lt".toList then some .lt
  else none

/-- `_is_modifier_value`, with the modifier and its literal. -/
def modifierOf (value : Str) : Option (Modifier × Str) :=
  if '|' ∉ value then none
  else
    let spec := (partition '|' value).2
    if ':' ∉ spec then none
    else (Modifier.ofName (partition ':' spec).1).map fun m => (m, strip (partition ':' spec).2)

/-- `_match_modifier`. -/
def matchModifier (rt : Runtime) (actual : Json) (literal : Str) :
    Modifier → Except PyError Bool
  | .startswith => pure (literal.isPrefixOf (pyStr rt.reprJson actual))
  | .endswith => pure (literal.isSuffixOf (pyStr rt.reprJson actual))
  | .ge => do
    let x ← actual.toFloat
    pure (x.any fun x => (pyFloat literal).any fun y => x.ge y)
  | .lt => do
    let x ← actual.toFloat
    pure (x.any fun x => (pyFloat literal).any fun y => x.lt y)

/-- The value that an entry is compared with; the key `source` falls back to the event's. -/
def actualOf (e : Subject) : Yaml → Option Json
  | .str key =>
    match dictGet e.metadata key with
    | some .null | none => if key = "source".toList then some (.str e.source) else none
    | some v => some v
  | _ => none

/-- The comparison with an expected text. -/
def matchText (rt : Runtime) (e : Subject) (actual : Json) (expected : Str) :
    Except PyError Bool :=
  match modifierOf expected with
  | some (modifier, literal) => matchModifier rt actual literal modifier
  | none =>
    if "re:".toList.isPrefixOf expected then do
      let search ← raised (rt.compile (expected.drop 3))
      pure (search (pyStr rt.reprJson actual))
    else if "contains:".toList.isPrefixOf expected then
      pure (contains (expected.drop 9) (pyStr rt.reprJson actual) ||
        contains (expected.drop 9) e.raw)
    else pure (pyStr rt.reprJson actual == expected)

/-- One turn of the loop of `_match_selection`. -/
def matchEntry (rt : Runtime) (e : Subject) (key expected : Yaml) : Except PyError Bool :=
  match actualOf e key with
  | none => pure false
  | some actual =>
    match expected with
    | .seq items => pure (pyIn actual items)
    | .str s => matchText rt e actual s
    | v => pure (pyEq actual v)

def matchEntries (rt : Runtime) (e : Subject) : List (Yaml × Yaml) → Except PyError Bool
  | [] => pure true
  | (key, expected) :: rest => do
    if ← matchEntry rt e key expected then matchEntries rt e rest else pure false

/-- `_match_selection`: only a mapping has items. -/
def matchSelection (rt : Runtime) (e : Subject) : Yaml → Except PyError Bool
  | .map fields => matchEntries rt e fields
  | v => throw (.attributeError v.typeName "items")

/-- `any(_match_selection(...) for ...)`. -/
def matchAny (rt : Runtime) (e : Subject) : List Yaml → Except PyError Bool
  | [] => pure false
  | block :: blocks => do
    if ← matchSelection rt e block then pure true else matchAny rt e blocks

/-! ## Conditions -/

/-- `\w`. -/
def isWord (rt : Runtime) (c : Char) : Bool :=
  c == '_' || if c.toNat < 128 then c.isAlphanum else rt.alnum c

/-- A constant at the start of a pattern. -/
def eat (word : String) (s : Str) : Option Str :=
  if word.toList.isPrefixOf s then some (s.drop word.toList.length) else none

/-- `\s+`, of which nothing is given back: no pattern goes on with a space. -/
def eatSpaces (s : Str) : Option Str :=
  if s.head?.any (fun c => pySpace c.toNat) then some (s.dropWhile fun c => pySpace c.toNat)
  else none

/-- `\s+and\s+`. -/
def eatAnd (s : Str) : Option Str := do
  eatSpaces (← eat "and" (← eatSpaces s))

/-- `not\s+(\w+)` up to the end. -/
def readNot (rt : Runtime) (s : Str) : Option Str := do
  let name ← eatSpaces (← eat "not" s)
  if name ≠ [] ∧ name.all (isWord rt) then some name else none

/-- `\(([^)]+)\)` and what follows. -/
def readGroup (s : Str) : Option (Str × Str) := do
  let s ← eat "(" s
  let inner := s.takeWhile (· != ')')
  if inner = [] then none
  else (eat ")" (s.dropWhile (· != ')'))).map fun rest => (inner, rest)

inductive Condition
  | selection
  | andNot (filter : Str)
  | anyOf (filters : List Str)
  | anyOfNot (filters : List Str) (notFilter : Str)
  deriving DecidableEq

def filterNames (inner : Str) : List Str := (split " or " inner).map strip

/-- The pattern that a condition has. -/
def conditionOf (rt : Runtime) (cond : Str) : Option Condition :=
  if cond = "selection".toList then some .selection
  else do
    let s ← eatAnd (← eat "selection" (strip cond))
    match readNot rt s with
    | some name => some (.andNot name)
    | none =>
      let (inner, rest) ← readGroup s
      if rest = [] then some (.anyOf (filterNames inner))
      else do
        let name ← readNot rt (← eatAnd rest)
        some (.anyOfNot (filterNames inner) name)

/-! ## Rules -/

structure CompiledSigmaRule where
  id : Str
  title : Str
  level : Str
  selection : List (Yaml × Yaml)
  detection : List (Yaml × Yaml)
  condition : Str
  count : Int
  timeframeSec : Int
  cooldownSec : Int
  dedupKey : Str
  action : Option (List (Yaml × Yaml))
  requiredFields : List Str

namespace CompiledSigmaRule

variable (rt : Runtime)

/-- `matches`. A name that the detection block does not hold, and a condition of no known pattern,
are no match. -/
def matches_ (rule : CompiledSigmaRule) (e : Subject) : Except PyError Bool := do
  if !rule.requiredFields.all (fun field => (dictGet e.metadata field).isSome) then return false
  match conditionOf rt rule.condition with
  | none => return false
  | some .selection => matchSelection rt e (.map rule.selection)
  | some (.andNot name) =>
    match Yaml.lookup rule.detection name with
    | none => return false
    | some block =>
      if ← matchSelection rt e (.map rule.selection) then
        return !(← matchSelection rt e block)
      else return false
  | some (.anyOf names) =>
    match names.mapM (Yaml.lookup rule.detection) with
    | none => return false
    | some blocks =>
      if ← matchSelection rt e (.map rule.selection) then matchAny rt e blocks else return false
  | some (.anyOfNot names name) =>
    match names.mapM (Yaml.lookup rule.detection), Yaml.lookup rule.detection name with
    | some blocks, some block =>
      if ← matchSelection rt e (.map rule.selection) then
        if ← matchSelection rt e block then return false else matchAny rt e blocks
      else return false
    | _, _ => return false

end CompiledSigmaRule

/-! ## Rendering -/

/-- The name of a placeholder at the start of the text. -/
def placeholder : Str → Option Str
  | '\x7b' :: '\x7b' :: rest =>
    let name := rest.takeWhile fun c => c.isAlphanum || c == '_'
    let after := rest.dropWhile fun c => c.isAlphanum || c == '_'
    if name ≠ [] ∧ "\x7d\x7d".toList.isPrefixOf after then some name else none
  | _ => none

/-- The first argument counts the characters of a placeholder still to be skipped. -/
def interpolateFrom (value : Str → Option Str) : Nat → Str → Str
  | _, [] => []
  | k + 1, _ :: rest => interpolateFrom value k rest
  | 0, c :: rest =>
    match placeholder (c :: rest) with
    | some name =>
      (value name).getD ("\x7b\x7b".toList ++ name ++ "\x7d\x7d".toList) ++
        interpolateFrom value (name.length + 3) rest
    | none => c :: interpolateFrom value 0 rest

/-- `_interpolate`. -/
def interpolate (rt : Runtime) (template : Str) (metadata : List (Str × Json)) : Str :=
  interpolateFrom (fun name => (dictGet metadata name).map (pyStr rt.reprJson)) 0 template

/-- The dictionary that `render_action` returns. -/
structure ActionFields where
  kind : Yaml
  target : Str
  ttlSec : Yaml

namespace CompiledSigmaRule

variable (rt : Runtime)

/-- Only a text has placeholders; a target of another type raises. -/
def renderAction (rule : CompiledSigmaRule) (e : Subject) :
    Except PyError (Option ActionFields) :=
  match rule.action with
  | none | some [] => pure none
  | some fields =>
    match (Yaml.lookup fields "target".toList).getD (.str []) with
    | .str template =>
      let target := interpolate rt template e.metadata
      if !(Yaml.get fields "kind").truthy || target.isEmpty then pure none
      else
        let ttl := match Yaml.get fields "ttl_sec" with
          | .str s => ((pyInt (interpolate rt s e.metadata)).map Yaml.int).getD .null
          | v => v
        pure (some ⟨Yaml.get fields "kind", target, ttl⟩)
    | _ => throw typeError

def renderDedupKey (rule : CompiledSigmaRule) (e : Subject) : Str :=
  if rule.dedupKey = [] then rule.id
  else
    let key := interpolate rt rule.dedupKey e.metadata
    if key = [] then rule.id else key

end CompiledSigmaRule

/-- The action in the columns of `actions`. A kind that is no text is refused by the insert; here it
stands as the name of its type. -/
def ActionFields.rendered (a : ActionFields) : RenderedAction where
  kind := match a.kind with
    | .str s => s
    | v => v.typeName.toList
  target := a.target
  ttlSec := match a.ttlSec with
    | .int n => some n
    | .bool b => some (if b then 1 else 0)
    | _ => none

/-- The rules as the runner sees them. -/
def sigmaOps (rt : Runtime) : RuleOps CompiledSigmaRule where
  id := CompiledSigmaRule.id
  title := CompiledSigmaRule.title
  level := CompiledSigmaRule.level
  count := CompiledSigmaRule.count
  timeframeSec := CompiledSigmaRule.timeframeSec
  cooldownSec := CompiledSigmaRule.cooldownSec
  applies rule event := rule.matches_ rt event.subject
  renderDedupKey rule event := rule.renderDedupKey rt event.subject
  renderAction rule event := do
    let a ← rule.renderAction rt event.subject
    pure (a.map ActionFields.rendered)

end ZaqorinCore.Server
