import ZaqorinCore.Server.StudioFiles

/-!
# The rule studio: what is read back

A document that YAML reads back as it was written is compiled by `_compile` and shown by `get_rule`
with the fields of the body. Both convert the count and the timeframe of the detection block, which
the body checks only where it names them itself.
-/

namespace ZaqorinCore.Server

open Text Base

/-! ## Dictionaries -/

theorem field_eq_dictGet (members : List (Str × Json)) (name : String) :
    field members name = dictGet members name.toList := rfl

theorem dictGet_eq_field (members : List (Str × Json)) (key : Str) :
    dictGet members key = field members (String.ofList key) := by
  rw [field_eq_dictGet, String.toList_ofList]

theorem dictGet_dictSet (members : List (Str × Json)) (key other : Str) (value : Json) :
    dictGet (dictSet members key value) other =
      if other = key then some value else dictGet members other := by
  rw [dictGet_eq_field, dictGet_eq_field]
  by_cases h : other = key
  · have hkey : key = (String.ofList other).toList := by rw [String.toList_ofList, h]
    rw [if_pos h, hkey]
    exact field_dictSet_self
  · rw [if_neg h]
    exact field_dictSet_of_ne (by rwa [String.toList_ofList])

/-- The keys of a dumped dictionary are texts. -/
theorem lookup_toYamlMembers (members : List (Str × Json)) (key : Str) :
    Yaml.lookup (toYamlMembers members) key = (dictGet members key).map Json.toYaml := by
  induction members with
  | nil => rfl
  | cons m members ih =>
    obtain ⟨k, v⟩ := m
    simp only [Yaml.lookup, dictGet, toYamlMembers, toYamlMember] at ih ⊢
    rw [List.find?_cons, List.find?_cons]
    simp only [Yaml.isKey]
    cases k == key with
    | true => rfl
    | false => exact ih

/-- The entries that are there are looked up as if all were. -/
theorem dictGet_present {entries : List (Str × Option Json)} (hkeys : (entries.map Prod.fst).Nodup)
    (key : Str) : dictGet (present entries) key = (dictGet entries key).join := by
  induction entries with
  | nil => rfl
  | cons e entries ih =>
    obtain ⟨k, v⟩ := e
    rw [List.map_cons, List.nodup_cons] at hkeys
    have htail := ih hkeys.2
    have hpresent : present ((k, v) :: entries) =
        (v.map fun v => (k, v)).toList ++ present entries := by
      cases v <;> rfl
    rw [hpresent, dictGet_append, htail]
    by_cases hk : k = key
    · subst hk
      rw [dictGet_cons_self, dictGet_eq_none hkeys.1]
      cases v with
      | none => rfl
      | some v => rw [Option.map_some, Option.toList_some, dictGet_cons_self]; rfl
    · rw [dictGet_cons_of_ne hk]
      cases v with
      | none => rfl
      | some v => rw [Option.map_some, Option.toList_some, dictGet_cons_of_ne hk]; rfl

/-! ## Texts -/

theorem orElse_text {s : Str} (h : s ≠ []) (v : Yaml) : (Yaml.str s).orElse v = .str s := by
  unfold Yaml.orElse
  rw [if_pos]
  simpa [Yaml.truthy] using h

theorem orElse_map (fields : List (Yaml × Yaml)) :
    (Yaml.map fields).orElse (.map []) = .map fields := by
  cases fields <;> rfl

theorem toStr_text (rt : Runtime) (s : Str) : (Yaml.str s).toStr rt = pure s := rfl

theorem mapM_toStr_texts (rt : Runtime) (texts : List Str) :
    (toYamlItems (texts.map .str)).mapM (Yaml.toStr rt) = .ok texts := by
  induction texts with
  | nil => rfl
  | cons s texts ih =>
    rw [List.map_cons, toYamlItems, List.mapM_cons, ih]
    rfl

/-! ## The detection block -/

/-- The selection with the source that the body names beside it. -/
def withSource (logsource : Option Str) (selection : List (Str × Json)) : List (Str × Json) :=
  match nonempty logsource with
  | some logsource =>
    if (field selection "source").isSome then selection
    else dictSet selection "source".toList (.str logsource)
  | none => selection

theorem withSource_of_source {logsource : Option Str} {selection : List (Str × Json)} {v : Json}
    (h : field selection "source" = some v) : withSource logsource selection = selection := by
  unfold withSource
  split
  · rw [h]
    rfl
  · rfl

theorem dictGet_addSource {detection selection : List (Str × Json)}
    (h : dictGet detection "selection".toList = some (.obj selection)) (logsource key : Str) :
    dictGet (addSource detection logsource) key =
      if key = "selection".toList then
        some (.obj (if (field selection "source").isSome then selection
          else dictSet selection "source".toList (.str logsource)))
      else dictGet detection key := by
  unfold addSource
  rw [field_eq_dictGet, h]
  dsimp only
  by_cases hsource : (field selection "source").isSome
  · rw [if_pos hsource, if_pos hsource]
    split
    · rename_i hkey
      rw [hkey, h]
    · rfl
  · rw [if_neg hsource, if_neg hsource, dictGet_dictSet]

namespace RuleIn

variable (body : RuleIn) (condition : Str)

/-- The keys of the detection block that the body sets. -/
def Sets (key : Str) : Prop :=
  key = "condition".toList ∨ (body.timeframe.isSome ∧ key = "timeframe".toList) ∨
    (body.count.isSome ∧ key = "count".toList)

/-- The detection block before the source is added. -/
def named : List (Str × Json) :=
  let detection := dictSet body.detection "condition".toList (.str condition)
  let detection := match body.timeframe with
    | some timeframe => dictSet detection "timeframe".toList (.str timeframe)
    | none => detection
  match body.count with
    | some count => dictSet detection "count".toList (.int count)
    | none => detection

theorem stored_eq : body.stored condition = match nonempty body.logsource with
    | some logsource => addSource (body.named condition) logsource
    | none => body.named condition := rfl

theorem dictGet_named_of_not_sets {key : Str} (h : ¬ body.Sets key) :
    dictGet (body.named condition) key = dictGet body.detection key := by
  obtain ⟨hcondition, htimeframe, hcount⟩ :
      key ≠ "condition".toList ∧ ¬ (body.timeframe.isSome ∧ key = "timeframe".toList) ∧
        ¬ (body.count.isSome ∧ key = "count".toList) := by
    simpa only [Sets, not_or] using h
  have hfirst : ∀ value, dictGet (dictSet body.detection "condition".toList value) key =
      dictGet body.detection key := by
    intro value
    rw [dictGet_dictSet, if_neg hcondition]
  unfold named
  cases ht : body.timeframe <;> cases hc : body.count <;> rw [ht] at htimeframe <;>
    rw [hc] at hcount <;> simp_all [dictGet_dictSet]

theorem dictGet_named_condition :
    dictGet (body.named condition) "condition".toList = some (.str condition) := by
  unfold named
  cases body.timeframe <;> cases body.count <;> simp [dictGet_dictSet]

theorem dictGet_named_timeframe : dictGet (body.named condition) "timeframe".toList =
    (body.timeframe.map .str).or (dictGet body.detection "timeframe".toList) := by
  unfold named
  cases body.timeframe <;> cases body.count <;> simp [dictGet_dictSet]

theorem dictGet_named_count : dictGet (body.named condition) "count".toList =
    (body.count.map .int).or (dictGet body.detection "count".toList) := by
  unfold named
  cases body.timeframe <;> cases body.count <;> simp [dictGet_dictSet]

theorem not_sets_selection : ¬ body.Sets "selection".toList := by
  simp [Sets]

theorem dictGet_stored_of_ne {key : Str} (h : key ≠ "selection".toList) :
    dictGet (body.stored condition) key = dictGet (body.named condition) key := by
  obtain ⟨selection, hselection⟩ := body.detection_valid
  have hnamed : dictGet (body.named condition) "selection".toList = some (.obj selection) := by
    rw [dictGet_named_of_not_sets _ _ body.not_sets_selection]
    exact hselection
  rw [stored_eq]
  split
  · rw [dictGet_addSource hnamed, if_neg h]
  · rfl

theorem dictGet_stored_selection {selection : List (Str × Json)}
    (h : field body.detection "selection" = some (.obj selection)) :
    dictGet (body.stored condition) "selection".toList =
      some (.obj (withSource body.logsource selection)) := by
  have hnamed : dictGet (body.named condition) "selection".toList = some (.obj selection) := by
    rw [dictGet_named_of_not_sets _ _ body.not_sets_selection]
    exact h
  rw [stored_eq]
  unfold withSource
  cases nonempty body.logsource with
  | none => exact hnamed
  | some logsource =>
    dsimp only
    rw [dictGet_addSource hnamed, if_pos rfl]

/-! ## The document -/

variable (rt : Runtime) (ruleId : Str)

/-- The document as YAML reads it back. -/
def docFields : List (Yaml × Yaml) := toYamlMembers (present (body.entries rt ruleId condition))

theorem doc_toYaml :
    (body.doc rt ruleId condition).toYaml = .map (body.docFields condition rt ruleId) := by
  rw [doc, Json.toYaml, docFields]

theorem keys_entries : ((body.entries rt ruleId condition).map Prod.fst).Nodup := by
  have hkeys : (body.entries rt ruleId condition).map Prod.fst = ["title", "id", "level", "detection",
      "description", "tags", "cooldown_sec", "dedup_key", "action", "required_fields"].map
        String.toList := rfl
  rw [hkeys]
  decide +kernel

/-- An entry of the document is read back. -/
theorem lookup_entry {key : Str} {v : Option Json}
    (h : dictGet (body.entries rt ruleId condition) key = some v) :
    Yaml.lookup (body.docFields condition rt ruleId) key = v.map Json.toYaml := by
  rw [docFields, lookup_toYamlMembers, dictGet_present (body.keys_entries condition rt ruleId), h]
  rfl

theorem get_entry {key : String} {v : Option Json}
    (h : dictGet (body.entries rt ruleId condition) key.toList = some v) :
    Yaml.get (body.docFields condition rt ruleId) key = (v.map Json.toYaml).getD .null := by
  rw [Yaml.get, body.lookup_entry condition rt ruleId h]

/-- The cooldown of the compiled rule; `0` counts as absent. -/
def cooldown : Int :=
  match body.cooldownSec with
  | some n => if n = 0 then 300 else n
  | none => 300

/-- The action of the compiled rule; an empty one is not written. -/
def storedAction : Option (List (Yaml × Yaml)) :=
  body.action.bind fun a => if a = [] then none else some (toYamlMembers a)

/-- The rule that the document compiles to. -/
def compiled (selection : List (Str × Json)) (count timeframeSec : Int) : CompiledSigmaRule where
  id := ruleId
  title := body.title
  level := body.level.name
  selection := toYamlMembers selection
  detection := toYamlMembers (body.stored condition)
  condition := condition
  count := count
  timeframeSec := timeframeSec
  cooldownSec := body.cooldown
  dedupKey := (nonempty body.dedupKey).getD []
  action := body.storedAction
  requiredFields := body.requiredFields

theorem get_cooldown : Yaml.get (body.docFields condition rt ruleId) "cooldown_sec" =
    (body.cooldownSec.map Yaml.int).getD .null := by
  rw [body.get_entry condition rt ruleId (v := body.cooldownSec.map .int) rfl]
  cases body.cooldownSec <;> rfl

theorem get_dedupKey : Yaml.get (body.docFields condition rt ruleId) "dedup_key" =
    ((nonempty body.dedupKey).map Yaml.str).getD .null := by
  rw [body.get_entry condition rt ruleId (v := (nonempty body.dedupKey).map .str) rfl]
  cases nonempty body.dedupKey <;> rfl

theorem get_action : Yaml.get (body.docFields condition rt ruleId) "action" =
    (body.storedAction.map Yaml.map).getD .null := by
  rw [body.get_entry condition rt ruleId
    (v := body.action.bind fun a => if a = [] then none else some (.obj a)) rfl, storedAction]
  match body.action with
  | none => rfl
  | some [] => rfl
  | some (m :: ms) => rfl

theorem title_ne_nil : body.title ≠ [] := by
  have := body.title_valid.1
  intro h
  simp [h] at this

theorem toInt_cooldown :
    ((Yaml.get (body.docFields condition rt ruleId) "cooldown_sec").orElse (.int 300)).toInt =
      .ok body.cooldown := by
  rw [body.get_cooldown, cooldown]
  cases body.cooldownSec with
  | none => rfl
  | some n =>
    by_cases hn : n = 0
    · subst hn
      rfl
    · have htruthy : (Yaml.int n).orElse (.int 300) = .int n := by
        unfold Yaml.orElse
        rw [if_pos (by simpa [Yaml.truthy] using hn)]
      show ((Yaml.int n).orElse (.int 300)).toInt = .ok (if n = 0 then 300 else n)
      rw [if_neg hn, htruthy]
      rfl

theorem toStr_dedupKey :
    ((Yaml.get (body.docFields condition rt ruleId) "dedup_key").orElse (.ofString "")).toStr rt =
      .ok ((nonempty body.dedupKey).getD []) := by
  rw [body.get_dedupKey]
  match body.dedupKey with
  | none => rfl
  | some [] => rfl
  | some (c :: cs) => rfl

theorem compileAction_doc (path : Str) :
    compileAction path (Yaml.get (body.docFields condition rt ruleId) "action") =
      .ok body.storedAction := by
  rw [body.get_action, storedAction]
  match body.action with
  | none => rfl
  | some [] => rfl
  | some (m :: ms) => rfl

theorem required_doc (path : Str) :
    ((asList path "'required_fields' must be a list of strings"
      ((Yaml.lookup (body.docFields condition rt ruleId) "required_fields".toList).getD (.seq [])))
        >>= fun required => required.mapM (Yaml.toStr rt)) = .ok body.requiredFields := by
  rw [body.lookup_entry condition rt ruleId (v := if body.requiredFields = [] then none
    else some (.arr (body.requiredFields.map .str))) rfl]
  by_cases h : body.requiredFields = []
  · rw [if_pos h, h]
    rfl
  · rw [if_neg h]
    exact mapM_toStr_texts rt body.requiredFields

theorem level_mem : body.level.name ∈ levels := by
  cases body.level <;> decide +kernel

theorem level_ne_nil : body.level.name ≠ [] := by
  cases body.level <;> decide +kernel

theorem orElse_title (v : Yaml) :
    (Yaml.get (body.docFields condition rt ruleId) "title").orElse v = .str body.title := by
  rw [body.get_entry condition rt ruleId (v := some (.str body.title)) rfl]
  exact orElse_text body.title_ne_nil v

theorem orElse_id (hid : ruleId ≠ []) (v : Yaml) :
    (Yaml.get (body.docFields condition rt ruleId) "id").orElse v = .str ruleId := by
  rw [body.get_entry condition rt ruleId (v := some (.str ruleId)) rfl]
  exact orElse_text hid v

theorem levelOf_doc : levelOf (body.docFields condition rt ruleId) = .str body.level.name := by
  rw [levelOf, body.get_entry condition rt ruleId (v := some (.str body.level.name)) rfl]
  exact orElse_text body.level_ne_nil _

theorem get_detection : Yaml.get (body.docFields condition rt ruleId) "detection" =
    .map (toYamlMembers (body.stored condition)) :=
  body.get_entry condition rt ruleId (v := some (.obj (body.stored condition))) rfl

theorem get_selection {selection : List (Str × Json)}
    (h : field body.detection "selection" = some (.obj selection)) :
    Yaml.get (toYamlMembers (body.stored condition)) "selection" =
      .map (toYamlMembers (withSource body.logsource selection)) := by
  rw [Yaml.get, lookup_toYamlMembers, body.dictGet_stored_selection condition h]
  rfl

theorem orElse_condition (hcondition : condition ≠ []) (v : Yaml) :
    (Yaml.get (toYamlMembers (body.stored condition)) "condition").orElse v = .str condition := by
  rw [Yaml.get, lookup_toYamlMembers, body.dictGet_stored_of_ne condition (by simp),
    body.dictGet_named_condition]
  exact orElse_text hcondition v

/-- Only the count and the timeframe of the block can still be refused. -/
theorem compileRule_doc {selection : List (Str × Json)} (hid : ruleId ≠ [])
    (hcondition : condition ≠ [])
    (hselection : field body.detection "selection" = some (.obj selection)) (path : Str) :
    compileRule rt path (body.docFields condition rt ruleId) = (do
      let count ← ((Yaml.get (toYamlMembers (body.stored condition)) "count").orElse (.int 1)).toInt
      let timeframeSec ← parseTimeframe rt ((Yaml.lookup (toYamlMembers (body.stored condition))
        "timeframe".toList).getD (.ofString "60s"))
      pure (body.compiled condition ruleId (withSource body.logsource selection) count
        timeframeSec)) := by
  unfold compileRule titleOf
  simp only [orElse_title, orElse_id _ _ _ _ hid, levelOf_doc, toStr_text, pure_bind, level_mem,
    not_true_eq_false, if_false, get_detection, asMapping, body.get_selection condition hselection]
  unfold compileFields
  simp only [body.orElse_condition condition hcondition, toStr_text, pure_bind]
  refine bind_congr fun count => bind_congr fun timeframeSec => ?_
  rw [body.toInt_cooldown condition rt ruleId, body.toStr_dedupKey condition rt ruleId,
    body.compileAction_doc condition rt ruleId path]
  have hrequired := body.required_doc condition rt ruleId path
  show (asList path "'required_fields' must be a list of strings" _ >>= fun required =>
    required.mapM (Yaml.toStr rt) >>= fun requiredFields => pure _) = _
  rw [← bind_assoc, hrequired]
  rfl

/-! ## What `get_rule` shows -/

/-- The tags that are read back. -/
def tagItems : List Yaml := toYamlItems ((body.allTags rt).map .str)

/-- The values that `get_rule` hands to `RuleDetail` for the document. -/
def shown (ops : StudioOps) (selection : List (Str × Json)) (text : Str) (timeframe : Option Str)
    (count : Option Int) : DetailArgs where
  id := ruleId
  title := body.title
  level := .str body.level.name
  source := .custom
  description := (nonempty body.description).bind fun s => nonempty (some (strip (strip s)))
  mitreId := collectMitre (body.tagItems rt)
  logsource := Yaml.get (toYamlMembers selection) "source"
  path := resolvePath ops .custom ruleId
  yaml := text
  detection := toYamlMembers (body.stored condition)
  condition := condition
  timeframe := timeframe
  count := count
  cooldownSec := (body.cooldownSec.map Yaml.int).getD .null
  dedupKey := ((nonempty body.dedupKey).map Yaml.str).getD .null
  action := (body.storedAction.map Yaml.map).getD .null
  tags := body.tagItems rt

theorem items_tags (ops : StudioOps) :
    ((Yaml.get (body.docFields condition rt ruleId) "tags").orElse (.seq [])).items ops =
      .ok (body.tagItems rt) := by
  rw [body.get_entry condition rt ruleId (v := if body.allTags rt = [] then none
    else some (.arr ((body.allTags rt).map .str))) rfl, tagItems]
  by_cases h : body.allTags rt = []
  · rw [if_pos h, h]
    rfl
  · rw [if_neg h]
    obtain ⟨tag, tags, htags⟩ := List.exists_cons_of_ne_nil h
    rw [htags]
    rfl

theorem description_doc :
    descriptionOf (Yaml.get (body.docFields condition rt ruleId) "description") =
      (nonempty body.description).bind fun s => nonempty (some (strip (strip s))) := by
  rw [body.get_entry condition rt ruleId
    (v := (nonempty body.description).map fun s => .str (strip s)) rfl]
  cases nonempty body.description <;> rfl

/-- Only the count and the timeframe of the block can still be refused. -/
theorem detailArgs_doc {selection : List (Str × Json)} (ops : StudioOps) (hid : ruleId ≠ [])
    (hcondition : condition ≠ [])
    (hselection : field body.detection "selection" = some (.obj selection)) (text : Str) :
    detailArgs rt ops ruleId text (body.docFields condition rt ruleId) .custom = (do
      let timeframe ← unlessNone (Yaml.toStr rt)
        (Yaml.get (toYamlMembers (body.stored condition)) "timeframe")
      let count ← unlessNone Yaml.toInt (Yaml.get (toYamlMembers (body.stored condition)) "count")
      pure (body.shown condition rt ruleId ops (withSource body.logsource selection) text timeframe
        count)) := by
  unfold detailArgs
  simp only [get_detection, orElse_map, asDict, pure_bind, body.get_selection condition hselection,
    orElse_title, orElse_id _ _ _ _ hid, toStr_text, levelOf_doc,
    body.orElse_condition condition hcondition, description_doc, get_cooldown, get_dedupKey,
    get_action]
  rw [body.items_tags condition rt ruleId ops]
  rfl

end RuleIn

/-! ## What can still be refused -/

/-- The body gives the handlers nothing to convert that `int` or `str` refuses, or that is no text
where `RuleDetail` has one: the count and the timeframe of its own detection block, where it names
none beside it, and the source in its selection. -/
structure RuleIn.Convertible (rt : Runtime) (body : RuleIn) : Prop where
  count : body.count = none → ∀ v, field body.detection "count" = some v → v ≠ .null →
    ¬ NotInt v.toYaml
  timeframe : body.timeframe = none → ∀ v, field body.detection "timeframe" = some v →
    ¬ Unprintable rt v.toYaml
  source : ∀ selection v, field body.detection "selection" = some (.obj selection) →
    field selection "source" = some v → v = .null ∨ ∃ s, v = .str s

section Conversions

variable {rt : Runtime} {ops : StudioOps}

theorem toInt_orElse_ok {v : Yaml} (h : v ≠ .null → ¬ NotInt v) :
    ∃ n, (v.orElse (.int 1)).toInt = .ok n := by
  unfold Yaml.orElse
  split
  · rename_i htruthy
    refine ok_of_not_raises (h ?_)
    rintro rfl
    cases htruthy
  · exact ⟨1, rfl⟩

theorem unlessNone_ok {α : Type} {f : Yaml → Except PyError α} {v : Yaml}
    (h : v ≠ .null → ¬ Raises (f v)) : ∃ a, unlessNone f v = .ok a := by
  cases v with
  | null => exact ⟨none, rfl⟩
  | _ =>
    obtain ⟨a, ha⟩ := ok_of_not_raises (h nofun)
    refine ⟨some a, ?_⟩
    rw [unlessNone, ha]
    · rfl
    · exact nofun

theorem not_raises_of_unlessNone {α : Type} {f : Yaml → Except PyError α} {v : Yaml} {a : Option α}
    (h : unlessNone f v = .ok a) (hv : v ≠ .null) : ¬ Raises (f v) := by
  rintro ⟨err, herr⟩
  rw [unlessNone, herr] at h
  · cases h
  · exact hv

theorem toYaml_eq_null {v : Json} (h : v.toYaml = .null) : v = .null := by
  cases v <;> simp [Json.toYaml] at h ⊢

/-- What a text field that may be null takes. -/
theorem text_of_nullable {v : Json} (h : (nullable (detailStr ops) v.toYaml).isSome) :
    v = .null ∨ ∃ s, v = .str s := by
  cases v with
  | null => exact Or.inl rfl
  | str s => exact Or.inr ⟨s, rfl⟩
  | _ =>
    simp only [Json.toYaml] at h
    cases h

theorem parseTimeframe_ok {v : Yaml} (h : ¬ Unprintable rt v) :
    ∃ n, parseTimeframe rt v = .ok n := by
  obtain ⟨s, hs⟩ := ok_of_not_raises h
  unfold parseTimeframe
  split
  · exact ⟨_, rfl⟩
  · exact ⟨_, rfl⟩
  · rw [hs]
    exact ⟨_, rfl⟩

theorem RuleIn.Convertible.stored_count {body : RuleIn} (h : body.Convertible rt)
    (condition : Str) :
    Yaml.get (toYamlMembers (body.stored condition)) "count" ≠ .null →
      ¬ NotInt (Yaml.get (toYamlMembers (body.stored condition)) "count") := by
  rw [Yaml.get, lookup_toYamlMembers, body.dictGet_stored_of_ne condition (by simp),
    body.dictGet_named_count]
  cases hcount : body.count with
  | some n =>
    rintro - ⟨err, herr⟩
    cases herr
  | none =>
    rw [Option.map_none, Option.none_or]
    cases hv : dictGet body.detection "count".toList with
    | none =>
      intro hnull
      exact absurd rfl hnull
    | some v =>
      intro hnull
      refine h.count hcount v hv ?_
      rintro rfl
      exact hnull rfl

theorem RuleIn.Convertible.stored_timeframe {body : RuleIn} (h : body.Convertible rt)
    (condition : Str) {v : Yaml}
    (hv : Yaml.lookup (toYamlMembers (body.stored condition)) "timeframe".toList = some v) :
    ¬ Unprintable rt v := by
  rw [lookup_toYamlMembers, body.dictGet_stored_of_ne condition (by simp),
    body.dictGet_named_timeframe] at hv
  cases htimeframe : body.timeframe with
  | some s =>
    rw [htimeframe] at hv
    cases hv
    rintro ⟨err, herr⟩
    cases herr
  | none =>
    rw [htimeframe, Option.map_none, Option.none_or] at hv
    obtain ⟨w, hw, rfl⟩ := Option.map_eq_some_iff.mp hv
    exact h.timeframe htimeframe w hw

/-- The source of the selection that is written is null or a text. -/
theorem RuleIn.Convertible.stored_source {body : RuleIn} (h : body.Convertible rt)
    {selection : List (Str × Json)}
    (hselection : field body.detection "selection" = some (.obj selection)) :
    (nullable (detailStr ops)
      (Yaml.get (toYamlMembers (withSource body.logsource selection)) "source")).isSome := by
  have hsource : ∀ members : List (Str × Json), (∀ v, field members "source" = some v →
      v = .null ∨ ∃ s, v = .str s) →
      (nullable (detailStr ops) (Yaml.get (toYamlMembers members) "source")).isSome := by
    intro members hmembers
    rw [Yaml.get, lookup_toYamlMembers, ← field_eq_dictGet]
    cases hv : field members "source" with
    | none => rfl
    | some v =>
      obtain rfl | ⟨s, rfl⟩ := hmembers v hv
      · rfl
      · rfl
  apply hsource
  intro v hv
  unfold withSource at hv
  split at hv
  · split at hv
    · exact h.source selection v hselection hv
    · rw [field_dictSet_self] at hv
      cases hv
      exact Or.inr ⟨_, rfl⟩
  · exact h.source selection v hselection hv

theorem detailLevel_name (level : SeverityLit) : detailLevel (.str level.name) = some level := by
  cases level <;> rfl

theorem detailMembers_toYaml (ops : StudioOps) (members : List (Str × Json)) :
    (detailMembers ops (.map (toYamlMembers members))).isSome := by
  induction members with
  | nil => rfl
  | cons m members ih =>
    obtain ⟨tail, htail⟩ := Option.isSome_iff_exists.mp ih
    obtain ⟨key, v⟩ := m
    rw [detailMembers, toYamlMembers, List.mapM_cons]
    rw [detailMembers] at htail
    rw [htail]
    rfl

theorem mapM_detailStr_texts (ops : StudioOps) (texts : List Str) :
    ((toYamlItems (texts.map .str)).mapM (detailStr ops)).isSome := by
  induction texts with
  | nil => rfl
  | cons s texts ih =>
    obtain ⟨tail, htail⟩ := Option.isSome_iff_exists.mp ih
    rw [List.map_cons, toYamlItems, List.mapM_cons, htail]
    rfl

/-- `RuleDetail` refuses nothing but the source. -/
theorem validate_shown (body : RuleIn) (condition ruleId text : Str)
    {selection : List (Str × Json)} (timeframe : Option Str) (count : Option Int)
    (hsource : (nullable (detailStr ops) (Yaml.get (toYamlMembers selection) "source")).isSome) :
    ∃ detail, (body.shown condition rt ruleId ops selection text timeframe count).validate ops =
      .ok detail := by
  obtain ⟨logsource, hlogsource⟩ := Option.isSome_iff_exists.mp hsource
  obtain ⟨detection, hdetection⟩ :=
    Option.isSome_iff_exists.mp (detailMembers_toYaml ops (body.stored condition))
  obtain ⟨tags, htags⟩ := Option.isSome_iff_exists.mp (mapM_detailStr_texts ops (body.allTags rt))
  have hcooldown : ∃ n, nullable (detailInt ops) ((body.cooldownSec.map Yaml.int).getD .null) =
      some n := by
    cases body.cooldownSec with
    | none => exact ⟨none, rfl⟩
    | some n => exact ⟨some n, rfl⟩
  have hdedup : ∃ s, nullable (detailStr ops) (((nonempty body.dedupKey).map Yaml.str).getD .null) =
      some s := by
    cases nonempty body.dedupKey with
    | none => exact ⟨none, rfl⟩
    | some s => exact ⟨some s, rfl⟩
  have haction : ∃ a, nullable (detailMembers ops) ((body.storedAction.map Yaml.map).getD .null) =
      some a := by
    unfold RuleIn.storedAction
    match body.action with
    | none => exact ⟨none, rfl⟩
    | some [] => exact ⟨none, rfl⟩
    | some (m :: ms) =>
      obtain ⟨a, ha⟩ := Option.isSome_iff_exists.mp (detailMembers_toYaml ops (m :: ms))
      refine ⟨some a, ?_⟩
      show (detailMembers ops (.map (toYamlMembers (m :: ms)))).map some = some (some a)
      rw [ha]
      rfl
  obtain ⟨n, hn⟩ := hcooldown
  obtain ⟨s, hs⟩ := hdedup
  obtain ⟨a, ha⟩ := haction
  unfold DetailArgs.validate
  simp only [RuleIn.shown, RuleIn.tagItems, detailLevel_name, hlogsource, hdetection, hn, hs, ha,
    htags]
  exact ⟨_, rfl⟩

end Conversions

/-! ## Files -/

theorem find_replaceFile (folder : RuleFolder) (name : Str) (body : FileBody) (other : Str) :
    (replaceFile folder name body).find other =
      if other = name then some ⟨name, body⟩ else folder.find other := by
  unfold replaceFile
  split
  · exact Table.find_insert _ _ _ _
  · rename_i file hfile
    rw [Table.find_updateWhere]
    by_cases h : other = name
    · rw [if_pos h, h, hfile, Option.map_some]
      have hname : file.name = name := (Table.find_some hfile).2
      rw [if_pos (by simpa using hname), ← hname]
    · rw [if_neg h]
      cases hother : folder.find other with
      | none => rfl
      | some f =>
        have hname : f.name = other := (Table.find_some hother).2
        rw [Option.map_some, if_neg (by simpa [hname] using h)]

theorem find_write (store : RuleStore) (ruleId text : Str) :
    (store.write ruleId text).custom.find (fileName ruleId) =
      some ⟨fileName ruleId, .text text⟩ := by
  rw [RuleStore.write, find_replaceFile, if_pos rfl]

section Written

variable {rt : Runtime} {ops : StudioOps} {body : RuleIn} {condition ruleId text : Str}

theorem parseStored_write (store : RuleStore)
    (hload : ops.load text = .ok (body.doc rt ruleId condition).toYaml) :
    parseStored rt ops (store.write ruleId text) ruleId =
      (compileRule rt (resolvePath ops .custom ruleId) (body.docFields condition rt ruleId)).map
        fun rule => [rule] := by
  rw [parseStored, find_write]
  simp only [FileBody.loaded, hload, body.doc_toYaml, parseRuleFile, ruleItems, compileRules]
  cases compileRule rt (resolvePath ops .custom ruleId) (body.docFields condition rt ruleId) <;> rfl

theorem readRuleDetail_write (store : RuleStore) (hid : matchesRuleId ruleId = true)
    (hload : ops.load text = .ok (body.doc rt ruleId condition).toYaml) :
    readRuleDetail ops (store.write ruleId text) ruleId =
      .ok (text, body.docFields condition rt ruleId, .custom) := by
  have hfind : (store.write ruleId text).findRule ruleId = some (.text text, .custom) := by
    simp only [RuleStore.findRule, RuleStore.folder, List.findSome?_cons]
    have hfile := find_write store ruleId text
    unfold fileName at hfile
    rw [hfile]
    rfl
  have hvalid : validateRuleId ruleId = .ok () := if_pos hid
  rw [readRuleDetail, hvalid, hfind]
  simp only [FileBody.readText, hload, body.doc_toYaml, Except.mapError, pure, Except.pure, bind,
    Except.bind, orElse_map]

theorem getRule_write (store : RuleStore) (hid : matchesRuleId ruleId = true)
    (hload : ops.load text = .ok (body.doc rt ruleId condition).toYaml) :
    getRule rt ops (store.write ruleId text) ruleId =
      ((detailArgs rt ops ruleId text (body.docFields condition rt ruleId) .custom).mapError .raised
        >>= fun args => args.validate ops) := by
  rw [getRule, readRuleDetail_write store hid hload]
  rfl

theorem validate_id {args : DetailArgs} {detail : RuleDetail} (h : args.validate ops = .ok detail) :
    detail.id = args.id := by
  unfold DetailArgs.validate at h
  split at h
  · cases h
    rfl
  · cases h

theorem source_of_validate {args : DetailArgs} {detail : RuleDetail}
    (h : args.validate ops = .ok detail) : (nullable (detailStr ops) args.logsource).isSome := by
  unfold DetailArgs.validate at h
  split at h
  · rename_i hlogsource _ _ _ _ _
    rw [hlogsource]
    rfl
  · cases h

/-- What is converted before a rule is shown, and what is checked. -/
theorem getRule_write_shown {store : RuleStore} {detail : RuleDetail}
    {selection : List (Str × Json)} (hid : matchesRuleId ruleId = true) (hcondition : condition ≠ [])
    (hload : ops.load text = .ok (body.doc rt ruleId condition).toYaml)
    (hselection : field body.detection "selection" = some (.obj selection))
    (h : getRule rt ops (store.write ruleId text) ruleId = .ok detail) :
    ∃ timeframe count,
      unlessNone (Yaml.toStr rt) (Yaml.get (toYamlMembers (body.stored condition)) "timeframe") =
        .ok timeframe ∧
      unlessNone Yaml.toInt (Yaml.get (toYamlMembers (body.stored condition)) "count") = .ok count ∧
      (body.shown condition rt ruleId ops (withSource body.logsource selection) text timeframe
        count).validate ops = .ok detail := by
  rw [getRule_write store hid hload, body.detailArgs_doc condition rt ruleId ops
    (ne_nil_of_matchesRuleId hid) hcondition hselection] at h
  cases htimeframe : unlessNone (Yaml.toStr rt)
      (Yaml.get (toYamlMembers (body.stored condition)) "timeframe") with
  | error err =>
    rw [htimeframe] at h
    cases h
  | ok timeframe =>
    cases hcount : unlessNone Yaml.toInt
        (Yaml.get (toYamlMembers (body.stored condition)) "count") with
    | error err =>
      rw [htimeframe, hcount] at h
      cases h
    | ok count =>
      rw [htimeframe, hcount] at h
      exact ⟨timeframe, count, rfl, rfl, h⟩

/-- The rule is shown under the id it was written with. -/
theorem getRule_write_id {store : RuleStore} {detail : RuleDetail}
    (hid : matchesRuleId ruleId = true) (hcondition : condition ≠ [])
    (hload : ops.load text = .ok (body.doc rt ruleId condition).toYaml)
    (h : getRule rt ops (store.write ruleId text) ruleId = .ok detail) : detail.id = ruleId := by
  obtain ⟨selection, hselection⟩ := body.detection_valid
  obtain ⟨timeframe, count, -, -, hvalid⟩ := getRule_write_shown hid hcondition hload hselection h
  exact validate_id hvalid

/-- What an accepted `create_rule` has done. -/
theorem createRule_ok {store store' : RuleStore} {fresh : Uuid} {detail : RuleDetail}
    (h : createRule rt ops store fresh body = (store', .ok detail)) :
    ∃ ruleId condition text, sanitizeRuleId rt ops fresh body.id body.title = .ok ruleId ∧
      validateCondition rt ops body.condition = .ok condition ∧
      store.custom.find (fileName ruleId) = none ∧
      ops.dump (body.doc rt ruleId condition) = .ok text ∧ store' = store.write ruleId text ∧
      (∃ rules, parseStored rt ops store' ruleId = .ok rules) ∧
      getRule rt ops store' ruleId = .ok detail := by
  unfold createRule at h
  split at h
  · cases h
  rename_i ruleId hruleId
  split at h
  · cases h
  rename_i condition hcondition
  split at h
  · cases h
  rename_i hfree
  split at h
  · cases h
  rename_i text htext
  dsimp only at h
  split at h
  · cases h
  · cases h
  · rename_i rule rules hrules
    obtain ⟨rfl, hdetail⟩ := Prod.mk.inj h
    exact ⟨ruleId, condition, text, hruleId, hcondition, Option.not_isSome_iff_eq_none.mp hfree,
      htext, rfl, ⟨_, hrules⟩, hdetail⟩

/-- YAML reads the document of the body back as it was written. -/
def RuleIn.ReadsBack (rt : Runtime) (ops : StudioOps) (body : RuleIn) (ruleId : Str) : Prop :=
  ∀ condition text, validateCondition rt ops body.condition = .ok condition →
    ops.dump (body.doc rt ruleId condition) = .ok text →
      ops.load text = .ok (body.doc rt ruleId condition).toYaml

/-- A convertible body is compiled and shown once its document is written. -/
theorem RuleIn.Convertible.written (h : body.Convertible rt) (store : RuleStore)
    (hid : matchesRuleId ruleId = true) (hcondition : condition ≠ [])
    (hload : ops.load text = .ok (body.doc rt ruleId condition).toYaml) :
    ∃ rule detail, compileRule rt (resolvePath ops .custom ruleId)
        (body.docFields condition rt ruleId) = .ok rule ∧
      parseStored rt ops (store.write ruleId text) ruleId = .ok [rule] ∧
      getRule rt ops (store.write ruleId text) ruleId = .ok detail := by
  obtain ⟨selection, hselection⟩ := body.detection_valid
  have hne := ne_nil_of_matchesRuleId hid
  obtain ⟨count, hcount⟩ := toInt_orElse_ok (h.stored_count condition)
  obtain ⟨timeframeSec, htimeframeSec⟩ : ∃ n, parseTimeframe rt ((Yaml.lookup
      (toYamlMembers (body.stored condition)) "timeframe".toList).getD (.ofString "60s")) = .ok n := by
    cases hlookup : Yaml.lookup (toYamlMembers (body.stored condition)) "timeframe".toList with
    | none => exact parseTimeframe_ok nofun
    | some v => exact parseTimeframe_ok (h.stored_timeframe condition hlookup)
  obtain ⟨shownTimeframe, hshownTimeframe⟩ : ∃ s, unlessNone (Yaml.toStr rt)
      (Yaml.get (toYamlMembers (body.stored condition)) "timeframe") = .ok s := by
    rw [Yaml.get]
    cases hlookup : Yaml.lookup (toYamlMembers (body.stored condition)) "timeframe".toList with
    | none => exact ⟨none, rfl⟩
    | some v => exact unlessNone_ok fun _ => h.stored_timeframe condition hlookup
  obtain ⟨shownCount, hshownCount⟩ := unlessNone_ok (h.stored_count condition)
  have hcompile := body.compileRule_doc condition rt ruleId hne hcondition hselection
    (resolvePath ops .custom ruleId)
  rw [hcount, htimeframeSec] at hcompile
  have hargs := body.detailArgs_doc condition rt ruleId ops hne hcondition hselection text
  rw [hshownTimeframe, hshownCount] at hargs
  obtain ⟨detail, hdetail⟩ := validate_shown body condition ruleId text shownTimeframe shownCount
    (h.stored_source hselection)
  refine ⟨_, detail, hcompile, ?_, ?_⟩
  · rw [parseStored_write store hload, hcompile]
    rfl
  · rw [getRule_write store hid hload, hargs]
    exact hdetail

/-- A body that is shown once its document is written is convertible. -/
theorem RuleIn.convertible_of_shown {store : RuleStore} {detail : RuleDetail}
    (hid : matchesRuleId ruleId = true) (hcondition : condition ≠ [])
    (hload : ops.load text = .ok (body.doc rt ruleId condition).toYaml)
    (h : getRule rt ops (store.write ruleId text) ruleId = .ok detail) : body.Convertible rt := by
  obtain ⟨selection, hselection⟩ := body.detection_valid
  obtain ⟨timeframe, count, htimeframe, hcount, hvalid⟩ :=
    getRule_write_shown hid hcondition hload hselection h
  -- what the body does not name beside its detection block is converted as it stands there
  have hget : ∀ (key : String) (v : Json), key.toList ≠ "selection".toList →
      dictGet (body.named condition) key.toList = some v →
      Yaml.get (toYamlMembers (body.stored condition)) key = v.toYaml := by
    intro key v hkey hv
    rw [Yaml.get, lookup_toYamlMembers, body.dictGet_stored_of_ne condition hkey, hv]
    rfl
  refine ⟨?_, ?_, ?_⟩
  · intro hnone v hv hnull
    have hnamed := body.dictGet_named_count condition
    rw [field_eq_dictGet] at hv
    rw [hnone, Option.map_none, Option.none_or, hv] at hnamed
    rw [hget _ v (by simp) hnamed] at hcount
    exact not_raises_of_unlessNone hcount fun heq => hnull (toYaml_eq_null heq)
  · intro hnone v hv
    have hnamed := body.dictGet_named_timeframe condition
    rw [field_eq_dictGet] at hv
    rw [hnone, Option.map_none, Option.none_or, hv] at hnamed
    rw [hget _ v (by simp) hnamed] at htimeframe
    by_cases hnull : v = .null
    · subst hnull
      exact fun ⟨err, herr⟩ => nomatch herr
    · exact not_raises_of_unlessNone htimeframe fun heq => hnull (toYaml_eq_null heq)
  · intro selection' v hselection' hv
    cases hselection.symm.trans hselection'
    have hsource : (nullable (detailStr ops)
        (Yaml.get (toYamlMembers (withSource body.logsource selection)) "source")).isSome :=
      source_of_validate hvalid
    rw [withSource_of_source hv, Yaml.get, lookup_toYamlMembers, ← field_eq_dictGet, hv] at hsource
    exact text_of_nullable hsource

theorem RuleIn.Convertible.createRule (h : body.Convertible rt) {store : RuleStore} {fresh : Uuid}
    (hid : sanitizeRuleId rt ops fresh body.id body.title = .ok ruleId)
    (hcondition : validateCondition rt ops body.condition = .ok condition) (hne : condition ≠ [])
    (hfree : store.custom.find (fileName ruleId) = none)
    (htext : ops.dump (body.doc rt ruleId condition) = .ok text)
    (hload : ops.load text = .ok (body.doc rt ruleId condition).toYaml) :
    ∃ detail, Server.createRule rt ops store fresh body =
      (store.write ruleId text, .ok detail) := by
  obtain ⟨rule, detail, -, hparse, hget⟩ :=
    h.written store (matchesRuleId_of_sanitize hid) hne hload
  refine ⟨detail, ?_⟩
  simp only [Server.createRule, hid, hcondition, hfree, htext, hparse, hget]
  rfl

end Written

end ZaqorinCore.Server
