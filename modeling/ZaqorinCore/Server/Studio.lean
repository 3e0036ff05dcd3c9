import ZaqorinCore.Server.Canonical
import ZaqorinCore.Server.Loader

/-!
# The rule studio: what a body becomes

The names, the conditions and the documents of `api/v1/rules_studio.py`: a rule is a document that
`yaml.safe_dump` turns into the text of a file. PyYAML and the conversions of Pydantic are
parameters.
-/

namespace ZaqorinCore.Server

open Text Base

/-! ## Bodies -/

/-- The severities a body can name. -/
inductive SeverityLit
  | low
  | medium
  | high
  | critical
  deriving DecidableEq, Repr

def SeverityLit.name : SeverityLit → Str
  | low => "low".toList
  | medium => "medium".toList
  | high => "high".toList
  | critical => "critical".toList

/-- A validated `RuleCreateIn` or `RuleUpdateIn`. -/
structure RuleIn where
  title : Str
  id : Option Str
  level : SeverityLit
  description : Option Str
  logsource : Option Str
  mitreId : Option Str
  detection : List (Str × Json)
  condition : Option Str
  timeframe : Option Str
  count : Option Int
  cooldownSec : Option Int
  dedupKey : Option Str
  action : Option (List (Str × Json))
  tags : List Str
  requiredFields : List Str
  title_valid : 1 ≤ title.length ∧ title.length ≤ 200
  detection_valid : ∃ selection, field detection "selection" = some (.obj selection)

/-- The code outside the repository that the handlers call, and where the server is installed. -/
structure StudioOps where
  /-- the directory that holds `rules` -/
  root : Str
  /-- `yaml.safe_dump` without sorting -/
  dump : Json → Except String Str
  /-- `yaml.safe_load`; a malformed text is refused at a line and a column -/
  load : Str → Except (Option (Nat × Nat)) Yaml
  /-- how Pydantic reads a value that is none of the plain ones as a `str` -/
  laxStr : YamlObject → Option Str
  /-- how Pydantic reads a value that is no number as an `int` -/
  laxInt : Yaml → Option Int
  /-- `list` of a value that is none of the plain ones -/
  iterate : YamlObject → Except String (List Yaml)
  repr : Str → Str

/-- How a handler ends besides returning: with an `HTTPException`, with the `ValidationError` of
`RuleDetail`, or with an exception of the code it calls. -/
inductive StudioError
  | http (status : Nat) (detail : Str)
  | validation (fields : List String)
  | raised (err : PyError)

/-! ## Names -/

/-- `[a-z0-9]` -/
def isSlugEdge (c : Char) : Bool := ('a' ≤ c && c ≤ 'z') || ('0' ≤ c && c ≤ '9')

/-- `[a-z0-9-]` -/
def isSlug (c : Char) : Bool := isSlugEdge c || c == '-'

/-- A pattern that ends with `$` also takes one newline at the end. -/
def upToNewline (p : Str → Bool) (s : Str) : Bool :=
  p s || (s.getLast? == some '\n' && p s.dropLast)

/-- `_ID_RE.match` -/
def matchesId : Str → Bool :=
  upToNewline fun s => 3 ≤ s.length && s.length ≤ 64 && s.all isSlug && s.head?.any isSlugEdge &&
    s.getLast?.any isSlugEdge

/-- `re.sub(r"[^a-z0-9-]+", "-", s)`; the first argument says whether a run has begun. -/
def dashed : Bool → Str → Str
  | _, [] => []
  | inRun, c :: rest =>
    if isSlug c then c :: dashed false rest
    else if inRun then dashed true rest
    else '-' :: dashed true rest

/-- `s.strip("-")` -/
def stripDashes (s : Str) : Str :=
  ((s.dropWhile (· == '-')).reverse.dropWhile (· == '-')).reverse

def freshRuleId (fresh : Uuid) : Str := "rule-".toList ++ (hexPadded 32 fresh.toNat).take 8

/-- `_sanitize_rule_id`; `fresh` is what `uuid4` draws. -/
def sanitizeRuleId (rt : Runtime) (ops : StudioOps) (fresh : Uuid) (raw : Option Str)
    (title : Str) : Except StudioError Str :=
  match raw with
  | some (c :: cs) =>
    if matchesId (c :: cs) then .ok (c :: cs)
    else .error (.http 422 ("invalid rule id ".toList ++ ops.repr (c :: cs) ++
      ": must match [a-z0-9][a-z0-9-]\x7b1,62\x7d[a-z0-9]".toList))
  | _ =>
    let cleaned := stripDashes (dashed false (lower rt.finalSigma title))
    let cleaned := if cleaned = [] then freshRuleId fresh else cleaned
    let cleaned := stripDashes (cleaned.take 64)
    .ok (if matchesId cleaned then cleaned else freshRuleId fresh)

/-- `_RULE_ID_PATTERN.match` -/
def matchesRuleId : Str → Bool :=
  upToNewline fun s => 1 ≤ s.length && s.length ≤ 64 &&
    s.all fun c => c.isAlphanum || c == '_' || c == '.' || c == '-'

/-- `_validate_rule_id` -/
def validateRuleId (ruleId : Str) : Except StudioError Unit :=
  if matchesRuleId ruleId then .ok ()
  else .error (.http 400 ("rule_id must match [A-Za-z0-9_.-]\x7b1,64\x7d; ".toList ++
    "path traversal characters are not allowed".toList))

theorem upToNewline_mono {p q : Str → Bool} (h : ∀ s, p s = true → q s = true) {s : Str}
    (hs : upToNewline p s = true) : upToNewline q s = true := by
  unfold upToNewline at hs ⊢
  rcases (Bool.or_eq_true _ _).mp hs with hp | hp
  · rw [h s hp, Bool.true_or]
  · obtain ⟨hlast, hp⟩ := (Bool.and_eq_true _ _).mp hp
    rw [hlast, h _ hp, Bool.and_self, Bool.or_true]

theorem isSlug_ruleId {c : Char} (h : isSlug c = true) :
    (c.isAlphanum || c == '_' || c == '.' || c == '-') = true := by
  unfold isSlug isSlugEdge at h
  rcases (Bool.or_eq_true _ _).mp h with hedge | hdash
  · have halnum : c.isAlphanum = true := by
      simp only [Char.isAlphanum, Char.isAlpha, Char.isUpper, Char.isLower, Char.isDigit,
        Bool.or_eq_true, Bool.and_eq_true, decide_eq_true_eq] at hedge ⊢
      rcases hedge with hlow | hdigit
      · exact Or.inl (Or.inr hlow)
      · exact Or.inr hdigit
    rw [halnum]
    rfl
  · rw [hdash, Bool.or_true]

/-- The ids that `create_rule` writes are among those that the other handlers take. -/
theorem matchesRuleId_of_matchesId {s : Str} (h : matchesId s = true) : matchesRuleId s = true := by
  refine upToNewline_mono (fun t ht => ?_) h
  simp only [Bool.and_eq_true, decide_eq_true_eq, List.all_eq_true] at ht ⊢
  obtain ⟨⟨⟨⟨hmin, hmax⟩, hall⟩, -⟩, -⟩ := ht
  exact ⟨⟨by omega, hmax⟩, fun c hc => isSlug_ruleId (hall c hc)⟩

theorem matchesRuleId_freshRuleId (fresh : Uuid) : matchesRuleId (freshRuleId fresh) = true := by
  have hlength : (freshRuleId fresh).length = 13 := by
    simp [freshRuleId, hexPadded_length]
  have hchars : ∀ c ∈ freshRuleId fresh, isSlug c = true := by
    intro c hc
    rcases List.mem_append.mp hc with hlead | hhex
    · have hall : "rule-".toList.all isSlug = true := by decide
      exact List.all_eq_true.mp hall c hlead
    · have hall : hexAlphabet.all isSlug = true := by decide
      exact List.all_eq_true.mp hall c (mem_hexPadded (List.mem_of_mem_take hhex))
  unfold matchesRuleId upToNewline
  rw [Bool.or_eq_true]
  left
  simp only [Bool.and_eq_true, decide_eq_true_eq, List.all_eq_true, hlength]
  exact ⟨⟨by omega, by omega⟩, fun c hc => isSlug_ruleId (hchars c hc)⟩

theorem matchesRuleId_of_sanitize {rt : Runtime} {ops : StudioOps} {fresh : Uuid}
    {raw : Option Str} {title ruleId : Str}
    (h : sanitizeRuleId rt ops fresh raw title = .ok ruleId) : matchesRuleId ruleId = true := by
  have hderived : ∀ cleaned : Str, matchesRuleId
      (if matchesId cleaned then cleaned else freshRuleId fresh) = true := by
    intro cleaned
    split
    · rename_i hmatch
      exact matchesRuleId_of_matchesId hmatch
    · exact matchesRuleId_freshRuleId fresh
  unfold sanitizeRuleId at h
  split at h
  · split at h
    · rename_i hmatch
      cases h
      exact matchesRuleId_of_matchesId hmatch
    · cases h
  · cases h
    exact hderived _

theorem ne_nil_of_matchesRuleId {s : Str} (h : matchesRuleId s = true) : s ≠ [] := by
  rintro rfl
  cases h

/-! ## Conditions -/

/-- `re.fullmatch(r"selection\s+and\s+not\s+\w+", cond)` -/
def fitsNot (rt : Runtime) (cond : Str) : Bool :=
  ((eat "selection" cond).bind fun s => (eatAnd s).bind (readNot rt)).isSome

/-- `re.fullmatch(r"selection\s+and\s+\([^)]+\)", cond)` -/
def fitsGroup (cond : Str) : Bool :=
  ((eat "selection" cond).bind fun s => (eatAnd s).bind readGroup).any fun g => g.2 == []

/-- `re.fullmatch(r"selection\s+and\s+\([^)]+\)\s+and\s+not\s+\w+", cond)` -/
def fitsGroupNot (rt : Runtime) (cond : Str) : Bool :=
  ((eat "selection" cond).bind fun s => (eatAnd s).bind fun s => (readGroup s).bind fun g =>
    (eatAnd g.2).bind (readNot rt)).isSome

/-- `_validate_condition` -/
def validateCondition (rt : Runtime) (ops : StudioOps) : Option Str → Except StudioError Str
  | none => .ok "selection".toList
  | some condition =>
    let cond := strip condition
    if cond = "selection".toList then .ok cond
    else if fitsNot rt cond then .ok cond
    else if fitsGroup cond then .ok cond
    else if fitsGroupNot rt cond then .ok cond
    else .error (.http 422 ("unsupported condition ".toList ++ ops.repr cond ++
      ": must match one of 'selection', 'selection and not X', ".toList ++
      "'selection and (X or Y)', 'selection and (X or Y) and not Z'".toList))

/-! ## Documents -/

/-- `dict.get` makes no difference between a text that is absent and an empty one. -/
def nonempty : Option Str → Option Str
  | some (c :: cs) => some (c :: cs)
  | _ => none

/-- `detection["selection"]["source"] = logsource`, unless there is a source. -/
def addSource (detection : List (Str × Json)) (logsource : Str) : List (Str × Json) :=
  match field detection "selection" with
  | some (.obj selection) =>
    if (field selection "source").isSome then detection
    else dictSet detection "selection".toList (.obj (dictSet selection "source".toList
      (.str logsource)))
  | _ => detection

/-- The detection block of the document. -/
def RuleIn.stored (body : RuleIn) (condition : Str) : List (Str × Json) :=
  let detection := dictSet body.detection "condition".toList (.str condition)
  let detection := match body.timeframe with
    | some timeframe => dictSet detection "timeframe".toList (.str timeframe)
    | none => detection
  let detection := match body.count with
    | some count => dictSet detection "count".toList (.int count)
    | none => detection
  match nonempty body.logsource with
  | some logsource => addSource detection logsource
  | none => detection

/-- The tags of the document, the one for MITRE first. -/
def RuleIn.allTags (rt : Runtime) (body : RuleIn) : List Str :=
  (match nonempty body.mitreId with
    | some mitreId => ["attack.".toList ++ lower rt.finalSigma mitreId]
    | none => []) ++ body.tags

/-- The keys of the document in order, with `none` for those that it does not have. -/
def RuleIn.entries (rt : Runtime) (body : RuleIn) (ruleId condition : Str) :
    List (Str × Option Json) :=
  [("title".toList, some (.str body.title)),
    ("id".toList, some (.str ruleId)),
    ("level".toList, some (.str body.level.name)),
    ("detection".toList, some (.obj (body.stored condition))),
    ("description".toList, (nonempty body.description).map fun s => .str (strip s)),
    ("tags".toList, if body.allTags rt = [] then none else some (.arr ((body.allTags rt).map .str))),
    ("cooldown_sec".toList, body.cooldownSec.map .int),
    ("dedup_key".toList, (nonempty body.dedupKey).map .str),
    ("action".toList, body.action.bind fun a => if a = [] then none else some (.obj a)),
    ("required_fields".toList,
      if body.requiredFields = [] then none else some (.arr (body.requiredFields.map .str)))]

/-- The entries that are there. -/
def present (entries : List (Str × Option Json)) : List (Str × Json) :=
  entries.filterMap fun e => e.2.map fun v => (e.1, v)

/-- `doc` of `_build_yaml` -/
def RuleIn.doc (rt : Runtime) (body : RuleIn) (ruleId condition : Str) : Json :=
  .obj (present (body.entries rt ruleId condition))

mutual

/-- The value that `yaml.safe_load` builds from a dumped JSON value. -/
def Json.toYaml : Json → Yaml
  | .null => .null
  | .bool b => .bool b
  | .int n => .int n
  | .float repr => .float repr
  | .str s => .str s
  | .arr items => .seq (toYamlItems items)
  | .obj members => .map (toYamlMembers members)

def toYamlItems : List Json → List Yaml
  | [] => []
  | v :: vs => v.toYaml :: toYamlItems vs

def toYamlMembers : List (Str × Json) → List (Yaml × Yaml)
  | [] => []
  | m :: ms => toYamlMember m :: toYamlMembers ms

def toYamlMember : Str × Json → Yaml × Yaml
  | (key, v) => (.str key, v.toYaml)

end

end ZaqorinCore.Server
