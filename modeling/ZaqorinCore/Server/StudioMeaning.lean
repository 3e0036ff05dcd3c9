import ZaqorinCore.Text.Numeral
import ZaqorinCore.Server.StudioLive

/-!
# The rule studio: what a rule keeps of its body

Between the body and the compiled rule stand two sets of defaults, those of the body and those of
`_compile`, and a lenient reader of timeframes. `accepted_rule_kept` says what the rule keeps of
each field: everything, except that a text which is no timeframe counts as a minute and that
milliseconds are whole seconds afterwards. A count or a cooldown of zero is left out, since
`_compile` cannot tell it from one that is absent.
-/

namespace ZaqorinCore.Server

open Text Base

/-! ## Timeframes -/

inductive TimeUnit
  | millis
  | seconds
  | minutes
  | hours
  | bare

namespace TimeUnit

def suffix : TimeUnit → Str
  | millis => "ms".toList
  | seconds => "s".toList
  | minutes => "m".toList
  | hours => "h".toList
  | bare => []

/-- The unit in seconds. -/
def size : TimeUnit → ℚ
  | millis => 1 / 1000
  | seconds => 1
  | minutes => 60
  | hours => 3600
  | bare => 1

end TimeUnit

/-- The text, in lower case and without the white space around it, is a number with a unit. -/
def SaysTime (t : Str) (n : Int) (unit : TimeUnit) : Prop :=
  ∃ p, t = p ++ unit.suffix ∧ pyInt p = some n

/-- How a text is kept as seconds: exactly, or rounded down to one second at least if it says
milliseconds, or as a minute if it says no time. -/
structure TextKept (t : Str) (sec : Int) : Prop where
  whole : ∀ n unit, SaysTime t n unit → unit ≠ .millis → (sec : ℚ) = n * unit.size
  millis : ∀ n, SaysTime t n .millis → sec = max 1 (n / 1000)
  invalid : (∀ n unit, ¬ SaysTime t n unit) → sec = 60

/-- Timeframes that are no integers are texts, or read as such. -/
def TimeKept (rt : Runtime) (v : Yaml) (sec : Int) : Prop :=
  match v with
  | .int n => sec = n
  | .bool b => sec = if b then 1 else 0
  | v => ∃ text, v.toStr rt = .ok text ∧ TextKept (lower rt.finalSigma (strip text)) sec

/-! ## Rules -/

/-- The value that a body submits for a key of the detection block: its own, or that of the block
where its own is null. -/
def RuleIn.submitted (body : RuleIn) (key : String) (own : Option Json) : Option Yaml :=
  match own.or (field body.detection key) with
  | none | some .null => none
  | some v => some v.toYaml

/-- The rule is what the body says, word by word. -/
structure Verbatim (rt : Runtime) (body : RuleIn) (rule : CompiledSigmaRule) : Prop where
  level : rule.level = body.level.name
  selection : ∀ selection, field body.detection "selection" = some (.obj selection) →
    rule.selection = toYamlMembers (withSource body.logsource selection)
  condition : ∀ condition, body.condition = some condition → rule.condition = condition
  count : ∀ n, body.count = some n → rule.count = n
  timeframe : ∀ text, body.timeframe = some text →
    ∃ n unit, SaysTime (lower rt.finalSigma (strip text)) n unit ∧
      (rule.timeframeSec : ℚ) = n * unit.size
  cooldown : ∀ n, body.cooldownSec = some n → rule.cooldownSec = n
  dedupKey : ∀ key, body.dedupKey = some key → rule.dedupKey = key
  action : rule.action = body.action.map toYamlMembers
  required : rule.requiredFields = body.requiredFields

/-- What the rule keeps of the body. -/
structure RuleKept (rt : Runtime) (body : RuleIn) (rule : CompiledSigmaRule) : Prop where
  level : rule.level = body.level.name
  selection : ∀ selection, field body.detection "selection" = some (.obj selection) →
    rule.selection = toYamlMembers (withSource body.logsource selection)
  condition : rule.condition = (body.condition.map strip).getD "selection".toList
  count : ∀ v, body.submitted "count" (body.count.map .int) = some v → v.truthy = true →
    v.toInt = .ok rule.count
  timeframe : ∀ v, body.submitted "timeframe" (body.timeframe.map .str) = some v →
    TimeKept rt v rule.timeframeSec
  cooldown : ∀ n, body.cooldownSec = some n → n ≠ 0 → rule.cooldownSec = n
  dedupKey : rule.dedupKey = body.dedupKey.getD []
  action : rule.action = body.action.bind fun a => if a = [] then none else some (toYamlMembers a)
  required : rule.requiredFields = body.requiredFields

/-! ## Reading timeframes -/

/-- A number with its unit in whole seconds. -/
def TimeUnit.whole (n : Int) : TimeUnit → Int
  | .millis => max 1 (n / 1000)
  | .seconds => n
  | .minutes => n * 60
  | .hours => n * 3600
  | .bare => n

section

variable {t p : Str} {n : Int} {c d : Char}

theorem noNumeral_m : NoNumeral 'm' := ⟨by decide, rfl, rfl, by decide, by decide, by decide⟩

theorem noNumeral_s : NoNumeral 's' := ⟨by decide, rfl, rfl, by decide, by decide, by decide⟩

theorem noNumeral_h : NoNumeral 'h' := ⟨by decide, rfl, rfl, by decide, by decide, by decide⟩

/-- A numeral has no letter of a unit. -/
theorem not_mem_of_pyInt (hc : NoNumeral c) (h : pyInt p = some n) : c ∉ p := by
  intro hmem
  rw [pyInt_of_noNumeral hc hmem] at h
  cases h

theorem isSuffixOf_single : [c].isSuffixOf t = true ↔ ∃ q, t = q ++ [c] := by
  rw [List.isSuffixOf_iff_suffix]
  exact ⟨fun ⟨q, hq⟩ => ⟨q, hq.symm⟩, fun ⟨q, hq⟩ => ⟨q, hq.symm⟩⟩

theorem isSuffixOf_pair : [c, d].isSuffixOf t = true ↔ ∃ q, t = q ++ [c] ++ [d] := by
  rw [List.isSuffixOf_iff_suffix]
  constructor
  · rintro ⟨q, rfl⟩
    exact ⟨q, by simp⟩
  · rintro ⟨q, rfl⟩
    exact ⟨q, by simp⟩

theorem isSuffixOf_append : [c].isSuffixOf (p ++ [d]) = true ↔ d = c := by
  rw [isSuffixOf_single]
  constructor
  · rintro ⟨q, hq⟩
    exact List.singleton_inj.mp (List.append_inj' hq rfl).2
  · rintro rfl
    exact ⟨p, rfl⟩

/-- `timeframeOf` with its suffixes as lists. -/
theorem timeframeOf_eq (t : Str) : timeframeOf t =
    if t = [] then 60
    else if ['m', 's'].isSuffixOf t then
      ((pyInt t.dropLast.dropLast).map fun n => max 1 (n / 1000)).getD 60
    else if ['s'].isSuffixOf t then (pyInt t.dropLast).getD 60
    else if ['m'].isSuffixOf t then ((pyInt t.dropLast).map (· * 60)).getD 60
    else if ['h'].isSuffixOf t then ((pyInt t.dropLast).map (· * 3600)).getD 60
    else (pyInt t).getD 60 := rfl

theorem suffix_eq : TimeUnit.millis.suffix = ['m', 's'] ∧ TimeUnit.seconds.suffix = ['s'] ∧
    TimeUnit.minutes.suffix = ['m'] ∧ TimeUnit.hours.suffix = ['h'] :=
  ⟨rfl, rfl, rfl, rfl⟩

/-- The text of a number and a unit is the number of seconds. -/
theorem timeframeOf_of_saysTime {unit : TimeUnit} (h : SaysTime t n unit) :
    timeframeOf t = unit.whole n := by
  obtain ⟨p, rfl, hp⟩ := h
  have hm := not_mem_of_pyInt noNumeral_m hp
  have hs := not_mem_of_pyInt noNumeral_s hp
  have hh := not_mem_of_pyInt noNumeral_h hp
  have hne : p ≠ [] := by
    rintro rfl
    cases hp
  -- `ms` is no suffix of a numeral and one letter
  have hmillis : ∀ c : Char, ['m', 's'].isSuffixOf (p ++ [c]) ≠ true := by
    intro c h
    obtain ⟨q, hq⟩ := isSuffixOf_pair.mp h
    have hmem : 'm' ∈ p := by
      rw [(List.append_inj' hq rfl).1]
      simp
    exact hm hmem
  have hletter : ∀ c : Char, c ∉ p → [c].isSuffixOf p ≠ true := by
    intro c hc h
    obtain ⟨q, rfl⟩ := isSuffixOf_single.mp h
    exact hc (by simp)
  obtain ⟨hsuffixms, hsuffixs, hsuffixm, hsuffixh⟩ := suffix_eq
  rw [timeframeOf_eq]
  cases unit with
  | millis =>
    have hsuffix : ['m', 's'].isSuffixOf (p ++ ['m', 's']) = true :=
      isSuffixOf_pair.mpr ⟨p, by simp⟩
    have hdrop : (p ++ ['m', 's']).dropLast.dropLast = p := by simp
    rw [hsuffixms, if_neg (by simp), if_pos hsuffix, hdrop, hp]
    rfl
  | seconds =>
    rw [hsuffixs, if_neg (by simp), if_neg (hmillis _), if_pos (isSuffixOf_append.mpr rfl),
      List.dropLast_concat, hp]
    rfl
  | minutes =>
    rw [hsuffixm, if_neg (by simp), if_neg (hmillis _),
      if_neg (mt isSuffixOf_append.mp (by decide)),
      if_pos (isSuffixOf_append.mpr rfl), List.dropLast_concat, hp]
    rfl
  | hours =>
    rw [hsuffixh, if_neg (by simp), if_neg (hmillis _),
      if_neg (mt isSuffixOf_append.mp (by decide)),
      if_neg (mt isSuffixOf_append.mp (by decide)), if_pos (isSuffixOf_append.mpr rfl),
      List.dropLast_concat, hp]
    rfl
  | bare =>
    have hpair : ['m', 's'].isSuffixOf p ≠ true := by
      intro h
      obtain ⟨q, rfl⟩ := isSuffixOf_pair.mp h
      exact hm (by simp)
    have hempty : TimeUnit.bare.suffix = [] := rfl
    rw [hempty, List.append_nil, if_neg hne, if_neg hpair, if_neg (hletter _ hs),
      if_neg (hletter _ hm), if_neg (hletter _ hh), hp]
    rfl

/-- A text that says no time is a minute. -/
theorem timeframeOf_of_silent (h : ∀ n unit, ¬ SaysTime t n unit) : timeframeOf t = 60 := by
  have hnone : ∀ (p : Str) (unit : TimeUnit), t = p ++ unit.suffix → pyInt p = none := by
    intro p unit ht
    cases hp : pyInt p with
    | none => rfl
    | some n => exact absurd ⟨p, ht, hp⟩ (h n unit)
  rw [timeframeOf_eq]
  split
  · rfl
  split
  · rename_i hsuffix
    obtain ⟨q, hq⟩ := isSuffixOf_pair.mp hsuffix
    have hdrop : t.dropLast.dropLast = q := by simp [hq]
    rw [hdrop, hnone q .millis (by rw [hq, List.append_assoc]; rfl)]
    rfl
  split
  · rename_i hsuffix
    obtain ⟨q, hq⟩ := isSuffixOf_single.mp hsuffix
    rw [hq, List.dropLast_concat, hnone q .seconds hq]
    rfl
  split
  · rename_i hsuffix
    obtain ⟨q, hq⟩ := isSuffixOf_single.mp hsuffix
    rw [hq, List.dropLast_concat, hnone q .minutes hq]
    rfl
  split
  · rename_i hsuffix
    obtain ⟨q, hq⟩ := isSuffixOf_single.mp hsuffix
    rw [hq, List.dropLast_concat, hnone q .hours hq]
    rfl
  · rw [hnone t .bare (List.append_nil t).symm]
    rfl

theorem timeframeOf_kept (t : Str) : TextKept t (timeframeOf t) where
  whole n unit hsays hunit := by
    rw [timeframeOf_of_saysTime hsays]
    cases unit with
    | millis => exact absurd rfl hunit
    | seconds => simp [TimeUnit.whole, TimeUnit.size]
    | minutes => simp [TimeUnit.whole, TimeUnit.size]
    | hours => simp [TimeUnit.whole, TimeUnit.size]
    | bare => simp [TimeUnit.whole, TimeUnit.size]
  millis n hsays := timeframeOf_of_saysTime hsays
  invalid := timeframeOf_of_silent

theorem timeKept_of_text {rt : Runtime} {v : Yaml} {text : Str} (htext : v.toStr rt = .ok text)
    (hint : ∀ n, v ≠ .int n) (hbool : ∀ b, v ≠ .bool b) :
    TimeKept rt v (timeframeOf (lower rt.finalSigma (strip text))) := by
  unfold TimeKept
  split
  · exact absurd rfl (hint _)
  · exact absurd rfl (hbool _)
  · exact ⟨text, htext, timeframeOf_kept _⟩

theorem parseTimeframe_kept {rt : Runtime} {v : Yaml} {sec : Int}
    (h : parseTimeframe rt v = .ok sec) : TimeKept rt v sec := by
  unfold parseTimeframe at h
  split at h
  · cases h
    rfl
  · cases h
    rfl
  · rename_i hint hbool
    cases htext : v.toStr rt with
    | error err =>
      rw [htext] at h
      cases h
    | ok text =>
      rw [htext] at h
      cases h
      exact timeKept_of_text htext hint hbool

end

/-! ## What the document holds -/

section

variable {rt : Runtime} {ops : StudioOps} {body : RuleIn} {condition ruleId : Str}

theorem validateCondition_eq (h : validateCondition rt ops body.condition = .ok condition) :
    condition = (body.condition.map strip).getD "selection".toList := by
  unfold validateCondition at h
  split at h
  · rename_i hnone
    rw [hnone]
    cases h
    rfl
  · rename_i text hsome
    rw [hsome]
    dsimp only at h
    split at h
    · cases h
      rfl
    split at h
    · cases h
      rfl
    split at h
    · cases h
      rfl
    split at h
    · cases h
      rfl
    · cases h

/-- A submitted value is in the detection block that is written. -/
theorem lookup_of_submitted (condition : Str) {key : String} {own : Option Json} {v : Yaml}
    (hstored : dictGet (body.stored condition) key.toList =
      own.or (dictGet body.detection key.toList))
    (h : body.submitted key own = some v) :
    Yaml.lookup (toYamlMembers (body.stored condition)) key.toList = some v := by
  unfold RuleIn.submitted at h
  rw [field_eq_dictGet, ← hstored] at h
  rw [lookup_toYamlMembers]
  split at h
  · cases h
  · cases h
  · rename_i w _ hw
    rw [hw]
    exact h

theorem orElse_of_truthy {v w : Yaml} (h : v.truthy = true) : v.orElse w = v := if_pos h

/-- The compiled rule keeps what it is said to keep, whatever count and timeframe it got. -/
theorem compiled_kept {selection : List (Str × Json)} {count timeframeSec : Int}
    (hselection : field body.detection "selection" = some (.obj selection))
    (hcondition : validateCondition rt ops body.condition = .ok condition)
    (hcount : ((Yaml.get (toYamlMembers (body.stored condition)) "count").orElse (.int 1)).toInt =
      .ok count)
    (htimeframe : parseTimeframe rt ((Yaml.lookup (toYamlMembers (body.stored condition))
      "timeframe".toList).getD (.ofString "60s")) = .ok timeframeSec) :
    RuleKept rt body (body.compiled condition ruleId (withSource body.logsource selection) count
      timeframeSec) where
  level := rfl
  selection selection' hselection' := by
    rw [hselection] at hselection'
    cases hselection'
    rfl
  condition := validateCondition_eq hcondition
  count v hv htruthy := by
    have hlookup := lookup_of_submitted condition (by
      rw [body.dictGet_stored_of_ne condition (by simp)]
      exact body.dictGet_named_count condition) hv
    rw [Yaml.get, hlookup, Option.getD_some, orElse_of_truthy htruthy] at hcount
    exact hcount
  timeframe v hv := by
    have hlookup := lookup_of_submitted condition (by
      rw [body.dictGet_stored_of_ne condition (by simp)]
      exact body.dictGet_named_timeframe condition) hv
    rw [hlookup] at htimeframe
    exact parseTimeframe_kept htimeframe
  cooldown n hn hzero := by
    show body.cooldown = n
    rw [RuleIn.cooldown, hn]
    exact if_neg hzero
  dedupKey := by
    show (nonempty body.dedupKey).getD [] = _
    cases body.dedupKey with
    | none => rfl
    | some key =>
      cases key with
      | nil => rfl
      | cons c cs => rfl
  action := rfl
  required := rfl

end

/-- The rule of an accepted body, read back from its file, keeps the body. -/
theorem accepted_rule_kept {rt : Runtime} {ops : StudioOps} {store store' : RuleStore}
    {fresh : Uuid} {body : RuleIn} {detail : RuleDetail}
    (hback : ∀ ruleId, sanitizeRuleId rt ops fresh body.id body.title = .ok ruleId →
      body.ReadsBack rt ops ruleId)
    (haccepted : createRule rt ops store fresh body = (store', .ok detail)) :
    ∃ rule, parseStored rt ops store' detail.id = .ok [rule] ∧ RuleKept rt body rule := by
  obtain ⟨ruleId, condition, text, hid, hcondition, -, htext, rfl, ⟨rules, hrules⟩, hdetail⟩ :=
    createRule_ok haccepted
  obtain ⟨c, hc⟩ := validated_condition hcondition
  obtain ⟨selection, hselection⟩ := body.detection_valid
  have hne := ne_nil_of_conditionOf hc
  have hload := hback ruleId hid condition text hcondition htext
  have hmatch := matchesRuleId_of_sanitize hid
  have hparse := parseStored_write store hload
  rw [body.compileRule_doc condition rt ruleId (ne_nil_of_matchesRuleId hmatch) hne hselection]
    at hparse
  rw [getRule_write_id hmatch hne hload hdetail]
  cases hcount : ((Yaml.get (toYamlMembers (body.stored condition)) "count").orElse
      (.int 1)).toInt with
  | error err =>
    rw [hcount] at hparse
    rw [hparse] at hrules
    cases hrules
  | ok count =>
    cases htimeframe : parseTimeframe rt ((Yaml.lookup (toYamlMembers (body.stored condition))
        "timeframe".toList).getD (.ofString "60s")) with
    | error err =>
      rw [hcount, htimeframe] at hparse
      rw [hparse] at hrules
      cases hrules
    | ok timeframeSec =>
      rw [hcount, htimeframe] at hparse
      exact ⟨_, hparse, compiled_kept hselection hcondition hcount htimeframe⟩

theorem filtered_rule_kept : ∃ detail, createRule plainRuntime
      (yamlOf liveText (filteredDoc userFilter)) emptyStore 0 (filteredBody userFilter) =
        (emptyStore.write "failed-logins".toList liveText, .ok detail) ∧
      ∃ rule, parseStored plainRuntime (yamlOf liveText (filteredDoc userFilter))
          (emptyStore.write "failed-logins".toList liveText) detail.id = .ok [rule] ∧
        RuleKept plainRuntime (filteredBody userFilter) rule := by
  obtain ⟨detail, hdetail⟩ := filtered_accepted userFilter liveText 0
  exact ⟨detail, hdetail, accepted_rule_kept (filtered_readsBack userFilter liveText 0) hdetail⟩

/-! ## A timeframe that says no time -/

def garbageBody : RuleIn :=
  { filteredBody [] with
    condition := some "selection".toList
    timeframe := some "garbage".toList }

def garbageDoc : Json := garbageBody.doc plainRuntime "failed-logins".toList "selection".toList

/-- What `yaml.safe_dump` writes for it. -/
def garbageText : Str :=
  ("title: Failed logins\nid: failed-logins\nlevel: medium\ndetection:\n  selection:\n" ++
    "    status: failed\n  condition: selection\n  timeframe: garbage\n  count: 1\n" ++
    "cooldown_sec: 300\n").toList

theorem garbage_convertible : garbageBody.Convertible plainRuntime where
  count h := nomatch h
  timeframe h := nomatch h
  source selection v hselection hv :=
    (filtered_convertible []).source selection v hselection hv

theorem garbage_id (ops : StudioOps) (fresh : Uuid) :
    sanitizeRuleId plainRuntime ops fresh garbageBody.id garbageBody.title =
      .ok "failed-logins".toList := rfl

theorem garbage_condition (ops : StudioOps) :
    validateCondition plainRuntime ops garbageBody.condition = .ok "selection".toList := rfl

theorem garbage_readsBack (text : Str) (fresh : Uuid) (ruleId : Str)
    (hid : sanitizeRuleId plainRuntime (yamlOf text garbageDoc) fresh garbageBody.id
      garbageBody.title = .ok ruleId) :
    garbageBody.ReadsBack plainRuntime (yamlOf text garbageDoc) ruleId := by
  intro condition text' hcondition htext
  rw [garbage_id] at hid
  rw [garbage_condition] at hcondition
  cases hid
  cases hcondition
  cases htext
  exact load_yamlOf text garbageDoc

/-- `garbage` is no number with a unit. -/
theorem garbage_says_nothing (n : Int) (unit : TimeUnit) : ¬ SaysTime "garbage".toList n unit := by
  rintro ⟨p, hp, hn⟩
  have hg : 'g' ∈ p := by
    cases p with
    | nil => cases unit <;> cases hp
    | cons c p =>
      obtain ⟨rfl, -⟩ := List.cons_eq_cons.mp hp
      exact List.mem_cons_self
  exact not_mem_of_pyInt ⟨by decide, rfl, rfl, by decide, by decide, by decide⟩ hn hg

/-- A rule with this timeframe is accepted, and compiles to something else than it says. -/
theorem garbage_timeframe_accepted :
    (∀ ruleId, sanitizeRuleId plainRuntime (yamlOf garbageText garbageDoc) 0 garbageBody.id
        garbageBody.title = .ok ruleId →
      garbageBody.ReadsBack plainRuntime (yamlOf garbageText garbageDoc) ruleId) ∧
      ∃ detail rule, createRule plainRuntime (yamlOf garbageText garbageDoc) emptyStore 0
          garbageBody = (emptyStore.write "failed-logins".toList garbageText, .ok detail) ∧
        parseStored plainRuntime (yamlOf garbageText garbageDoc)
          (emptyStore.write "failed-logins".toList garbageText) "failed-logins".toList =
            .ok [rule] ∧
        rule.timeframeSec = 60 ∧ ¬ Verbatim plainRuntime garbageBody rule := by
  refine ⟨garbage_readsBack garbageText 0, ?_⟩
  have hload : (yamlOf garbageText garbageDoc).load garbageText = .ok (garbageBody.doc plainRuntime
      "failed-logins".toList "selection".toList).toYaml := load_yamlOf garbageText garbageDoc
  have hfree : emptyStore.custom.find (fileName "failed-logins".toList) = none := rfl
  obtain ⟨detail, hdetail⟩ := garbage_convertible.createRule (garbage_id _ 0) (garbage_condition _)
    (by decide) hfree rfl hload
  have hid : matchesRuleId "failed-logins".toList = true := rfl
  obtain ⟨rule, -, hcompile, hparse, -⟩ :=
    garbage_convertible.written emptyStore hid (by decide) hload
  refine ⟨detail, rule, hdetail, hparse, ?_, fun hverbatim => ?_⟩
  · cases hcompile
    rfl
  · obtain ⟨n, unit, hsays, -⟩ := hverbatim.timeframe _ rfl
    exact garbage_says_nothing n unit hsays

end ZaqorinCore.Server
