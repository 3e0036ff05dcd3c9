import ZaqorinCore.Server.Conditions
import ZaqorinCore.Server.StudioStored

/-!
# Rules that the studio accepts

`_validate_condition` compares the shape of a condition with the patterns of the engine and looks up
none of its names. A rule that `create_rule` accepts is live, as the comment above the check has it
("what we accept matches what fires"), exactly when each name is an object of the body's detection
block under a key that the body does not set, and no event gets to a pattern that `re.compile`
refuses: `accepted_rule_live_iff`.
-/

namespace ZaqorinCore.Server

open Text Base

/-! ## Conditions that are accepted -/

/-- The names of a condition besides `selection`. -/
def Condition.names : Condition → List Str
  | .selection => []
  | .andNot name => [name]
  | .anyOf names => names
  | .anyOfNot names name => names ++ [name]

/-- A stripped text that has one of the shapes of the edge has a pattern of the engine. -/
theorem conditionOf_of_fits (rt : Runtime) {cond : Str} (hstrip : strip cond = cond)
    (h : fitsNot rt cond = true ∨ fitsGroup cond = true ∨ fitsGroupNot rt cond = true) :
    ∃ c, conditionOf rt cond = some c := by
  unfold conditionOf
  split
  · exact ⟨_, rfl⟩
  rw [hstrip]
  unfold fitsNot fitsGroup fitsGroupNot at h
  cases heat : eat "selection" cond with
  | none => simp [heat] at h
  | some s =>
    cases hand : eatAnd s with
    | none => simp [heat, hand] at h
    | some s' =>
      simp only [heat, hand, Option.bind_some, Option.bind_eq_bind] at h ⊢
      cases hnot : readNot rt s' with
      | some name => exact ⟨_, rfl⟩
      | none =>
        cases hgroup : readGroup s' with
        | none => simp [hnot, hgroup] at h
        | some g =>
          obtain ⟨inner, rest⟩ := g
          simp only [hnot, hgroup, Option.bind_some] at h ⊢
          split
          · exact ⟨_, rfl⟩
          · rename_i hrest
            cases hand' : eatAnd rest with
            | none => simp [hrest, hand'] at h
            | some s'' =>
              cases hnot' : readNot rt s'' with
              | none => simp [hrest, hand', hnot'] at h
              | some name =>
                simp only [Option.bind_some, hnot']
                exact ⟨_, rfl⟩

theorem ne_nil_of_conditionOf {rt : Runtime} {cond : Str} {c : Condition}
    (h : conditionOf rt cond = some c) : cond ≠ [] := by
  rintro rfl
  cases h

theorem validated_condition {rt : Runtime} {ops : StudioOps} {raw : Option Str} {condition : Str}
    (h : validateCondition rt ops raw = .ok condition) :
    ∃ c, conditionOf rt condition = some c := by
  cases raw with
  | none =>
    cases h
    exact ⟨.selection, if_pos rfl⟩
  | some raw =>
    have hfits := conditionOf_of_fits rt (strip_idem raw)
    simp only [validateCondition] at h
    split at h
    · rename_i heq
      cases h
      rw [heq]
      exact ⟨.selection, if_pos rfl⟩
    split at h
    · rename_i hnot
      cases h
      exact hfits (Or.inl hnot)
    split at h
    · rename_i hgroup
      cases h
      exact hfits (Or.inr (Or.inl hgroup))
    split at h
    · rename_i hboth
      cases h
      exact hfits (Or.inr (Or.inr hboth))
    · cases h

/-! ## Live rules -/

/-- Every name of the condition is a mapping of the detection block, and `matches` decides every
event: it neither takes one of its branches for what it does not know nor raises. -/
structure CompiledSigmaRule.Live (rt : Runtime) (rule : CompiledSigmaRule) : Prop where
  resolves : ∃ c, conditionOf rt rule.condition = some c ∧ ∀ name ∈ selectionName :: c.names,
    ∃ fields, Yaml.lookup rule.detection name = some (.map fields)
  known : (rule.plan rt).isSome
  decides : ∀ e : ParsedEvent, ∃ answer, rule.matches_ rt e.subject = .ok answer

/-- The file of the rule holds one rule, which is live. -/
def StoredLive (rt : Runtime) (ops : StudioOps) (store : RuleStore) (ruleId : Str) : Prop :=
  ∃ rule, parseStored rt ops store ruleId = .ok [rule] ∧ rule.Live rt

namespace RuleIn

variable (body : RuleIn)

/-- The name stands for a block of the body: an object of its detection block, under a key that the
body does not set. -/
def Names (name : Str) : Prop :=
  ¬ body.Sets name ∧ ∃ block, dictGet body.detection name = some (.obj block)

/-- The block that a name stands for; the selection has the source that the body names beside it. -/
def blockOf (name : Str) : List (Yaml × Yaml) :=
  match dictGet body.detection name with
  | some (.obj block) =>
    toYamlMembers (if name = selectionName then withSource body.logsource block else block)
  | _ => []

/-- The blocks in the order in which `matches` asks them. -/
def stages : Condition → List (Base.Stage Yaml)
  | .selection => [⟨.map (body.blockOf selectionName), true, false⟩]
  | .andNot name => [⟨.map (body.blockOf selectionName), true, false⟩,
      ⟨.map (body.blockOf name), false, false⟩]
  | .anyOf names => ⟨.map (body.blockOf selectionName), true, false⟩ ::
      anyStages (names.map fun name => .map (body.blockOf name))
  | .anyOfNot names name => ⟨.map (body.blockOf selectionName), true, false⟩ ::
      ⟨.map (body.blockOf name), false, false⟩ ::
      anyStages (names.map fun name => .map (body.blockOf name))

/-- Matching the event comes to an entry whose pattern `re.compile` refuses. -/
def ComesToRefused (rt : Runtime) (c : Condition) (e : Subject) : Prop :=
  (∀ field ∈ body.requiredFields, (dictGet e.metadata field).isSome) ∧
  ∃ fields key pattern err, Reaches (matchSelection rt e) (body.stages c) (.map fields) ∧
    Compares rt e fields (key, .str ("re:".toList ++ pattern)) ∧ (actualOf e key).isSome ∧
    modifierOf ("re:".toList ++ pattern) = none ∧ rt.compile pattern = .error err

variable {body}

theorem names_selection : body.Names selectionName :=
  ⟨body.not_sets_selection, body.detection_valid⟩

/-- A key that the body sets is no mapping in the document. -/
theorem lookup_of_sets {condition name : Str} (h : body.Sets name) (fields : List (Yaml × Yaml)) :
    Yaml.lookup (toYamlMembers (body.stored condition)) name ≠ some (.map fields) := by
  have hne : name ≠ "selection".toList := by
    rintro rfl
    exact body.not_sets_selection h
  rw [lookup_toYamlMembers, body.dictGet_stored_of_ne condition hne]
  rcases h with rfl | ⟨htimeframe, rfl⟩ | ⟨hcount, rfl⟩
  · rw [body.dictGet_named_condition]
    exact nofun
  · obtain ⟨s, hs⟩ := Option.isSome_iff_exists.mp htimeframe
    rw [body.dictGet_named_timeframe, hs]
    exact nofun
  · obtain ⟨n, hn⟩ := Option.isSome_iff_exists.mp hcount
    rw [body.dictGet_named_count, hn]
    exact nofun

theorem lookup_of_names {name : Str} (condition : Str) (h : body.Names name) :
    Yaml.lookup (toYamlMembers (body.stored condition)) name = some (.map (body.blockOf name)) := by
  obtain ⟨hsets, block, hblock⟩ := h
  rw [lookup_toYamlMembers, blockOf, hblock]
  dsimp only
  by_cases hname : name = selectionName
  · rw [hname] at hblock
    rw [hname, if_pos rfl]
    exact congrArg (Option.map Json.toYaml) (body.dictGet_stored_selection condition hblock)
  · rw [body.dictGet_stored_of_ne condition hname, body.dictGet_named_of_not_sets condition hsets,
      hblock, if_neg hname]
    rfl

/-- A name resolves to a mapping of the document exactly when it stands for a block of the body. -/
theorem lookup_map_iff {condition name : Str} :
    (∃ fields, Yaml.lookup (toYamlMembers (body.stored condition)) name = some (.map fields)) ↔
      body.Names name := by
  constructor
  · rintro ⟨fields, hfields⟩
    have hsets : ¬ body.Sets name := fun h => lookup_of_sets h fields hfields
    refine ⟨hsets, ?_⟩
    by_cases hname : name = selectionName
    · subst hname
      exact body.detection_valid
    · rw [lookup_toYamlMembers, body.dictGet_stored_of_ne condition hname,
        body.dictGet_named_of_not_sets condition hsets] at hfields
      obtain ⟨v, hv, hmap⟩ := Option.map_eq_some_iff.mp hfields
      cases v with
      | obj block => exact ⟨block, hv⟩
      | _ =>
        rw [Json.toYaml] at hmap
        cases hmap
  · intro h
    exact ⟨_, lookup_of_names condition h⟩

theorem lookup_names {names : List Str} (condition : Str) (h : ∀ name ∈ names, body.Names name) :
    names.mapM (Yaml.lookup (toYamlMembers (body.stored condition))) =
      some (names.map fun name => .map (body.blockOf name)) := by
  induction names with
  | nil => rfl
  | cons name names ih =>
    have htail := ih fun other hother => h other (List.mem_cons_of_mem _ hother)
    rw [List.mapM_cons, lookup_of_names condition (h name List.mem_cons_self), htail]
    rfl

/-- The blocks of the compiled rule are those of the body. -/
theorem plan_compiled {rt : Runtime} {condition : Str} {c : Condition}
    (hc : conditionOf rt condition = some c) (hnames : ∀ name ∈ c.names, body.Names name)
    {rule : CompiledSigmaRule} (hcondition : rule.condition = condition)
    (hselection : rule.selection = body.blockOf selectionName)
    (hdetection : rule.detection = toYamlMembers (body.stored condition)) :
    ∃ final, rule.plan rt = some (body.stages c, final) := by
  unfold CompiledSigmaRule.plan
  rw [hcondition, hc, hselection, hdetection]
  cases c with
  | selection => exact ⟨true, rfl⟩
  | andNot name =>
    dsimp only
    rw [lookup_of_names condition (hnames name List.mem_cons_self)]
    exact ⟨true, rfl⟩
  | anyOf names =>
    have hgroup : ∀ name ∈ names, body.Names name := hnames
    dsimp only
    rw [lookup_names condition hgroup]
    exact ⟨false, rfl⟩
  | anyOfNot names name =>
    dsimp only
    rw [lookup_names condition fun other hother => hnames other (List.mem_append_left _ hother),
      lookup_of_names condition (hnames name (List.mem_append_right _ List.mem_cons_self))]
    exact ⟨false, rfl⟩

/-- Only blocks that the condition names are asked. -/
theorem reaches_stages {ask : Yaml → Except PyError Bool} {c : Condition} {block : Yaml}
    (h : Reaches ask (body.stages c) block) :
    ∃ name ∈ selectionName :: c.names, block = .map (body.blockOf name) := by
  have hitems : ∀ stage ∈ body.stages c,
      ∃ name ∈ selectionName :: c.names, stage.item = .map (body.blockOf name) := by
    cases c with
    | selection => simp [stages, Condition.names]
    | andNot name => simp [stages, Condition.names]
    | anyOf names =>
      simp only [stages, anyStages, Condition.names, List.mem_cons, List.map_map, List.mem_map]
      rintro stage (rfl | ⟨name, hname, rfl⟩)
      · exact ⟨_, Or.inl rfl, rfl⟩
      · exact ⟨name, Or.inr hname, rfl⟩
    | anyOfNot names name =>
      simp only [stages, anyStages, Condition.names, List.mem_cons, List.map_map, List.mem_map,
        List.mem_append]
      rintro stage (rfl | rfl | ⟨other, hother, rfl⟩)
      · exact ⟨_, Or.inl rfl, rfl⟩
      · exact ⟨name, Or.inr (Or.inr (Or.inl rfl)), rfl⟩
      · exact ⟨other, Or.inr (Or.inl hother), rfl⟩
  obtain ⟨stage, hstage, rfl⟩ := reaches_mem h
  exact hitems stage hstage

/-- An event can only come to a refused pattern that stands in a block of the condition. -/
theorem ComesToRefused.mem {rt : Runtime} {c : Condition} {e : Subject}
    (h : body.ComesToRefused rt c e) : ∃ name ∈ selectionName :: c.names, ∃ key pattern err,
      (key, .str ("re:".toList ++ pattern)) ∈ body.blockOf name ∧
        rt.compile pattern = .error err := by
  obtain ⟨-, fields, key, pattern, err, hreach, hcompares, -, -, herr⟩ := h
  obtain ⟨name, hname, hfields⟩ := reaches_stages hreach
  cases hfields
  obtain ⟨stage, hstage, hitem⟩ := reaches_mem hcompares
  obtain ⟨entry, hentry, rfl⟩ := List.mem_map.mp hstage
  exact ⟨name, hname, key, pattern, err, hitem ▸ hentry, herr⟩

/-- On the live path every value is a text. -/
theorem actualOf_subject {e : ParsedEvent} {key : Yaml} {v : Json}
    (h : actualOf e.subject key = some v) : ∃ s, v = .str s := by
  cases key with
  | str k =>
    have hget : dictGet e.subject.metadata k = (dictGet e.metadata k).map .str :=
      dictGet_map _ _ _
    rw [actualOf, hget] at h
    cases hmeta : dictGet e.metadata k with
    | none =>
      rw [hmeta, Option.map_none] at h
      dsimp only at h
      split at h
      · cases h
        exact ⟨_, rfl⟩
      · cases h
    | some s =>
      rw [hmeta, Option.map_some] at h
      cases h
      exact ⟨s, rfl⟩
  | _ => cases h

theorem breaksEntry_subject_iff {rt : Runtime} {e : ParsedEvent} {f : Yaml × Yaml} :
    BreaksEntry rt e.subject f ↔ ∃ key pattern err, f = (key, .str ("re:".toList ++ pattern)) ∧
      (actualOf e.subject key).isSome ∧ modifierOf ("re:".toList ++ pattern) = none ∧
      rt.compile pattern = .error err := by
  obtain ⟨key, expected⟩ := f
  constructor
  · rintro ⟨actual, s, hactual, rfl, hbreaks⟩
    obtain ⟨t, rfl⟩ := actualOf_subject hactual
    rcases hbreaks with ⟨hmodifier, pattern, err, rfl, herr⟩ | ⟨m, literal, n, -, -, hint, -⟩
    · exact ⟨key, pattern, err, rfl, by rw [hactual]; rfl, hmodifier, herr⟩
    · cases hint
  · rintro ⟨key', pattern, err, heq, hactual, hmodifier, herr⟩
    cases heq
    obtain ⟨actual, hsome⟩ := Option.isSome_iff_exists.mp hactual
    exact ⟨actual, _, hsome, rfl, Or.inl ⟨hmodifier, pattern, err, rfl, herr⟩⟩

/-- The rule has the condition, the blocks and the required fields of the body. -/
structure Compiles (body : RuleIn) (condition : Str) (rule : CompiledSigmaRule) : Prop where
  cond : rule.condition = condition
  selection : rule.selection = body.blockOf selectionName
  detection : rule.detection = toYamlMembers (body.stored condition)
  required : rule.requiredFields = body.requiredFields

theorem Compiles.breaks_iff {rt : Runtime} {condition : Str} {c : Condition}
    {rule : CompiledSigmaRule} (h : body.Compiles condition rule)
    (hc : conditionOf rt condition = some c) (hnames : ∀ name ∈ c.names, body.Names name)
    {e : ParsedEvent} : rule.Breaks rt e.subject ↔ body.ComesToRefused rt c e.subject := by
  obtain ⟨final, hplan⟩ := plan_compiled hc hnames h.cond h.selection h.detection
  unfold CompiledSigmaRule.Breaks CompiledSigmaRule.Asks CompiledSigmaRule.HasRequired
    ComesToRefused
  rw [h.required, hplan]
  constructor
  · rintro ⟨block, ⟨hrequired, stages, final', hstages, hreach⟩, hbreaks⟩
    cases hstages
    obtain ⟨name, -, rfl⟩ := reaches_stages hreach
    obtain ⟨f, hcompares, hentry⟩ := hbreaks
    obtain ⟨key, pattern, err, rfl, hactual, hmodifier, herr⟩ := breaksEntry_subject_iff.mp hentry
    exact ⟨hrequired, _, key, pattern, err, hreach, hcompares, hactual, hmodifier, herr⟩
  · rintro ⟨hrequired, fields, key, pattern, err, hreach, hcompares, hactual, hmodifier, herr⟩
    refine ⟨.map fields, ⟨hrequired, _, final, rfl, hreach⟩, _, hcompares, ?_⟩
    exact breaksEntry_subject_iff.mpr ⟨key, pattern, err, rfl, hactual, hmodifier, herr⟩

theorem Compiles.live_iff {rt : Runtime} {condition : Str} {c : Condition}
    {rule : CompiledSigmaRule} (h : body.Compiles condition rule)
    (hc : conditionOf rt condition = some c) :
    rule.Live rt ↔ (∀ name ∈ c.names, body.Names name) ∧
      ∀ e : ParsedEvent, ¬ body.ComesToRefused rt c e.subject := by
  constructor
  · intro hlive
    obtain ⟨c', hc', hresolves⟩ := hlive.resolves
    rw [h.cond, hc] at hc'
    cases hc'
    have hnames : ∀ name ∈ c.names, body.Names name := by
      intro name hname
      have hmap := hresolves name (List.mem_cons_of_mem _ hname)
      rw [h.detection] at hmap
      exact lookup_map_iff.mp hmap
    refine ⟨hnames, fun e hrefused => ?_⟩
    obtain ⟨answer, hanswer⟩ := hlive.decides e
    obtain ⟨err, herr⟩ := (CompiledSigmaRule.matches_raises_iff rt).mpr
      ((h.breaks_iff hc hnames).mpr hrefused)
    rw [hanswer] at herr
    cases herr
  · rintro ⟨hnames, hrefused⟩
    obtain ⟨final, hplan⟩ := plan_compiled hc hnames h.cond h.selection h.detection
    refine ⟨⟨c, by rw [h.cond, hc], fun name hname => ?_⟩, by rw [hplan]; rfl, fun e => ?_⟩
    · rw [h.detection]
      rcases List.mem_cons.mp hname with rfl | hname
      · exact ⟨_, lookup_of_names condition names_selection⟩
      · exact ⟨_, lookup_of_names condition (hnames name hname)⟩
    · apply ok_of_not_raises
      intro hraises
      exact hrefused e ((h.breaks_iff hc hnames).mp
        ((CompiledSigmaRule.matches_raises_iff rt).mp hraises))

theorem compiles_of_compileRule {rt : Runtime} {condition ruleId path : Str}
    {rule : CompiledSigmaRule} (hid : ruleId ≠ []) (hcondition : condition ≠ [])
    (h : compileRule rt path (body.docFields condition rt ruleId) = .ok rule) :
    body.Compiles condition rule := by
  obtain ⟨selection, hselection⟩ := body.detection_valid
  have hblock : body.blockOf selectionName =
      toYamlMembers (withSource body.logsource selection) := by
    have hget : dictGet body.detection selectionName = some (.obj selection) := hselection
    rw [blockOf, hget]
    dsimp only
    rw [if_pos rfl]
  rw [body.compileRule_doc condition rt ruleId hid hcondition hselection] at h
  cases hcount : ((Yaml.get (toYamlMembers (body.stored condition)) "count").orElse
      (.int 1)).toInt with
  | error err =>
    rw [hcount] at h
    cases h
  | ok count =>
    cases htimeframe : parseTimeframe rt ((Yaml.lookup (toYamlMembers (body.stored condition))
        "timeframe".toList).getD (.ofString "60s")) with
    | error err =>
      rw [hcount, htimeframe] at h
      cases h
    | ok timeframeSec =>
      rw [hcount, htimeframe] at h
      cases h
      exact ⟨rfl, hblock.symm, rfl, rfl⟩

/-- Every name of the accepted condition stands for a block of the body, and no event comes to a
pattern that `re.compile` refuses. -/
def MakesLive (rt : Runtime) (ops : StudioOps) (body : RuleIn) : Prop :=
  ∀ condition c, validateCondition rt ops body.condition = .ok condition →
    conditionOf rt condition = some c →
      (∀ name ∈ c.names, body.Names name) ∧
        ∀ e : ParsedEvent, ¬ body.ComesToRefused rt c e.subject

end RuleIn

/-- The file that was written holds a live rule exactly when the body's names and patterns are
fine. -/
theorem storedLive_write_iff {rt : Runtime} {ops : StudioOps} {store : RuleStore} {body : RuleIn}
    {ruleId condition text : Str} {c : Condition} (hid : matchesRuleId ruleId = true)
    (hc : conditionOf rt condition = some c)
    (hload : ops.load text = .ok (body.doc rt ruleId condition).toYaml)
    (hrules : ∃ rules, parseStored rt ops (store.write ruleId text) ruleId = .ok rules) :
    StoredLive rt ops (store.write ruleId text) ruleId ↔
      (∀ name ∈ c.names, body.Names name) ∧
        ∀ e : ParsedEvent, ¬ body.ComesToRefused rt c e.subject := by
  have hparse := parseStored_write store hload
  cases hcompile : compileRule rt (resolvePath ops .custom ruleId)
      (body.docFields condition rt ruleId) with
  | error err =>
    obtain ⟨rules, hrules⟩ := hrules
    rw [hcompile] at hparse
    rw [hparse] at hrules
    cases hrules
  | ok rule =>
    rw [hcompile] at hparse
    have hcompiles := RuleIn.compiles_of_compileRule (ne_nil_of_matchesRuleId hid)
      (ne_nil_of_conditionOf hc) hcompile
    rw [← hcompiles.live_iff hc]
    unfold StoredLive
    rw [hparse]
    constructor
    · rintro ⟨rule', heq, hlive⟩
      cases heq
      exact hlive
    · intro hlive
      exact ⟨rule, rfl, hlive⟩

/-- A rule that `create_rule` has accepted is live exactly when its body makes it so. -/
theorem accepted_rule_live_iff {rt : Runtime} {ops : StudioOps} {store store' : RuleStore}
    {fresh : Uuid} {body : RuleIn} {detail : RuleDetail}
    (hback : ∀ ruleId, sanitizeRuleId rt ops fresh body.id body.title = .ok ruleId →
      body.ReadsBack rt ops ruleId)
    (haccepted : createRule rt ops store fresh body = (store', .ok detail)) :
    StoredLive rt ops store' detail.id ↔ body.MakesLive rt ops := by
  obtain ⟨ruleId, condition, text, hid, hcondition, -, htext, rfl, hrules, hdetail⟩ :=
    createRule_ok haccepted
  obtain ⟨c, hc⟩ := validated_condition hcondition
  have hload := hback ruleId hid condition text hcondition htext
  have hmatch := matchesRuleId_of_sanitize hid
  rw [getRule_write_id hmatch (ne_nil_of_conditionOf hc) hload hdetail,
    storedLive_write_iff hmatch hc hload hrules]
  constructor
  · intro h condition' c' hcondition' hc'
    rw [hcondition] at hcondition'
    cases hcondition'
    rw [hc] at hc'
    cases hc'
    exact h
  · intro h
    exact h condition c hcondition hc

/-! ## A condition with a filter -/

/-- A rule for failed logins, except those that `filter` describes. -/
def filteredBody (more : List (Str × Json)) : RuleIn where
  title := "Failed logins".toList
  id := some "failed-logins".toList
  level := .medium
  description := none
  logsource := none
  mitreId := none
  detection := ("selection".toList, .obj [("status".toList, .str "failed".toList)]) :: more
  condition := some "selection and not filter".toList
  timeframe := some "60s".toList
  count := some 1
  cooldownSec := some 300
  dedupKey := none
  action := none
  tags := []
  requiredFields := []
  title_valid := by decide
  detection_valid := ⟨_, rfl⟩

/-- YAML that knows one document. -/
def yamlOf (text : Str) (doc : Json) : StudioOps where
  root := "/srv".toList
  dump _ := .ok text
  load s := if s = text then .ok doc.toYaml else .error none
  laxStr _ := none
  laxInt _ := none
  iterate _ := .error "TypeError"
  repr s := "'".toList ++ s ++ "'".toList

theorem load_yamlOf (text : Str) (doc : Json) : (yamlOf text doc).load text = .ok doc.toYaml :=
  if_pos rfl

def emptyStore : RuleStore := ⟨.empty, .empty⟩

section Filtered

variable (more : List (Str × Json))

/-- The document of the rule. -/
def filteredDoc : Json :=
  (filteredBody more).doc plainRuntime "failed-logins".toList "selection and not filter".toList

theorem filtered_id (ops : StudioOps) (fresh : Uuid) :
    sanitizeRuleId plainRuntime ops fresh (filteredBody more).id (filteredBody more).title =
      .ok "failed-logins".toList := rfl

theorem filtered_condition (ops : StudioOps) :
    validateCondition plainRuntime ops (filteredBody more).condition =
      .ok "selection and not filter".toList := rfl

theorem filtered_conditionOf :
    conditionOf plainRuntime "selection and not filter".toList =
      some (.andNot "filter".toList) := rfl

theorem filtered_convertible : (filteredBody more).Convertible plainRuntime where
  count h := nomatch h
  timeframe h := nomatch h
  source selection v hselection hv := by
    have heq : field (filteredBody more).detection "selection" =
        some (.obj [("status".toList, .str "failed".toList)]) := rfl
    rw [heq] at hselection
    cases hselection
    cases hv

theorem filtered_readsBack (text : Str) (fresh : Uuid) (ruleId : Str)
    (hid : sanitizeRuleId plainRuntime (yamlOf text (filteredDoc more)) fresh
      (filteredBody more).id (filteredBody more).title = .ok ruleId) :
    (filteredBody more).ReadsBack plainRuntime (yamlOf text (filteredDoc more)) ruleId := by
  intro condition text' hcondition htext
  rw [filtered_id] at hid
  rw [filtered_condition] at hcondition
  cases hid
  cases hcondition
  cases htext
  exact load_yamlOf text (filteredDoc more)

theorem filtered_accepted (text : Str) (fresh : Uuid) :
    ∃ detail, createRule plainRuntime (yamlOf text (filteredDoc more)) emptyStore fresh
      (filteredBody more) = (emptyStore.write "failed-logins".toList text, .ok detail) :=
  (filtered_convertible more).createRule (filtered_id more _ fresh) (filtered_condition more _)
    (by decide) rfl rfl (load_yamlOf text (filteredDoc more))

theorem filtered_makesLive_iff (ops : StudioOps) :
    (filteredBody more).MakesLive plainRuntime ops ↔
      (filteredBody more).Names "filter".toList ∧ ∀ e : ParsedEvent,
        ¬ (filteredBody more).ComesToRefused plainRuntime (.andNot "filter".toList) e.subject := by
  constructor
  · intro h
    obtain ⟨hnames, hevents⟩ := h _ _ (filtered_condition more ops) filtered_conditionOf
    exact ⟨hnames _ List.mem_cons_self, hevents⟩
  · rintro ⟨hfilter, hevents⟩ condition c hcondition hc
    rw [filtered_condition] at hcondition
    cases hcondition
    rw [filtered_conditionOf] at hc
    cases hc
    refine ⟨fun name hname => ?_, hevents⟩
    rw [List.mem_singleton.mp hname]
    exact hfilter

end Filtered

/-- What `yaml.safe_dump` writes for the rule without its filter. -/
def deadText : Str :=
  ("title: Failed logins\nid: failed-logins\nlevel: medium\ndetection:\n  selection:\n" ++
    "    status: failed\n  condition: selection and not filter\n  timeframe: 60s\n  count: 1\n" ++
    "cooldown_sec: 300\n").toList

/-- A condition with a name that no block has is accepted; the rule never fires. -/
theorem unknown_filter_accepted :
    ∃ detail, createRule plainRuntime (yamlOf deadText (filteredDoc [])) emptyStore 0
        (filteredBody []) = (emptyStore.write "failed-logins".toList deadText, .ok detail) ∧
      ¬ StoredLive plainRuntime (yamlOf deadText (filteredDoc []))
        (emptyStore.write "failed-logins".toList deadText) "failed-logins".toList := by
  obtain ⟨detail, hdetail⟩ := filtered_accepted [] deadText 0
  refine ⟨detail, hdetail, ?_⟩
  have hid : matchesRuleId "failed-logins".toList = true := rfl
  obtain ⟨rule, -, -, hparse, -⟩ := (filtered_convertible []).written emptyStore hid (by decide)
    (load_yamlOf deadText (filteredDoc []))
  rw [storedLive_write_iff hid filtered_conditionOf (load_yamlOf deadText (filteredDoc []))
    ⟨_, hparse⟩]
  rintro ⟨hnames, -⟩
  obtain ⟨-, block, hblock⟩ := hnames "filter".toList List.mem_cons_self
  cases hblock

/-- What `yaml.safe_dump` writes for the rule with its filter. -/
def liveText : Str :=
  ("title: Failed logins\nid: failed-logins\nlevel: medium\ndetection:\n  selection:\n" ++
    "    status: failed\n  filter:\n    user: root\n  condition: selection and not filter\n" ++
    "  timeframe: 60s\n  count: 1\ncooldown_sec: 300\n").toList

def userFilter : List (Str × Json) :=
  [("filter".toList, .obj [("user".toList, .str "root".toList)])]

theorem userFilter_makesLive (ops : StudioOps) :
    (filteredBody userFilter).MakesLive plainRuntime ops := by
  rw [filtered_makesLive_iff]
  refine ⟨⟨by simp [RuleIn.Sets], _, rfl⟩, fun e hrefused => ?_⟩
  obtain ⟨name, hname, key, pattern, err, hentry, -⟩ := hrefused.mem
  have hblocks : (filteredBody userFilter).blockOf selectionName =
        [(.str "status".toList, .str "failed".toList)] ∧
      (filteredBody userFilter).blockOf "filter".toList =
        [(.str "user".toList, .str "root".toList)] := ⟨rfl, rfl⟩
  rcases List.mem_cons.mp hname with rfl | hname
  · rw [hblocks.1] at hentry
    cases List.mem_singleton.mp hentry
  · rw [List.mem_singleton.mp hname, hblocks.2] at hentry
    cases List.mem_singleton.mp hentry

theorem known_filter_live : ∃ detail, createRule plainRuntime
      (yamlOf liveText (filteredDoc userFilter)) emptyStore 0 (filteredBody userFilter) =
        (emptyStore.write "failed-logins".toList liveText, .ok detail) ∧
      StoredLive plainRuntime (yamlOf liveText (filteredDoc userFilter))
        (emptyStore.write "failed-logins".toList liveText) detail.id := by
  obtain ⟨detail, hdetail⟩ := filtered_accepted userFilter liveText 0
  refine ⟨detail, hdetail, ?_⟩
  exact (accepted_rule_live_iff (filtered_readsBack userFilter liveText 0) hdetail).mpr
    (userFilter_makesLive _)

end ZaqorinCore.Server
