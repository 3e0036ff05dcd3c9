import ZaqorinCore.Server.Compile

/-!
# What the loader lets through

`load_rules_from_dir` catches `SigmaRuleLoadError` and nothing else. The directory is loaded as its
docstring says, one bad file at a time, exactly when no file raises another exception:
`loadRules_isolated_iff`. Which files do is said of their contents: bytes that are not UTF-8, and a
rule one of whose fields `str` or `int` refuses.
-/

namespace ZaqorinCore.Server

open Text Base

/-! ## Exceptions that are not caught -/

/-- The call raises something other than a `SigmaRuleLoadError`. -/
def Escapes {α : Type} (x : Except PyError α) : Prop :=
  ∃ err, x = .error err ∧ ∀ path reason, err ≠ .sigmaRuleLoad path reason

theorem not_escapes_ok {α : Type} (a : α) : ¬ Escapes (.ok a : Except PyError α) := by
  rintro ⟨err, h, -⟩
  cases h

theorem not_escapes_load {α : Type} (path reason : Str) :
    ¬ Escapes (throw (.sigmaRuleLoad path reason) : Except PyError α) := by
  rintro ⟨err, h, hne⟩
  cases h
  exact hne path reason rfl

theorem escapes_bind {α β : Type} {x : Except PyError α} {f : α → Except PyError β} :
    Escapes (x >>= f) ↔ Escapes x ∨ ∃ a, x = .ok a ∧ Escapes (f a) := by
  cases x with
  | error err =>
    constructor
    · rintro ⟨err', h, hne⟩
      cases h
      exact Or.inl ⟨err, rfl, hne⟩
    · rintro (⟨err', h, hne⟩ | ⟨a, h, -⟩)
      · cases h
        exact ⟨err, rfl, hne⟩
      · cases h
  | ok a =>
    constructor
    · intro h
      exact Or.inr ⟨a, rfl, h⟩
    · rintro (h | ⟨a', h, hf⟩)
      · exact absurd h (not_escapes_ok a)
      · cases h
        exact hf

/-! ## Conversions -/

def Raises {ε α : Type} (x : Except ε α) : Prop := ∃ err, x = .error err

theorem ok_of_not_raises {ε α : Type} {x : Except ε α} (h : ¬ Raises x) : ∃ a, x = .ok a := by
  cases x with
  | ok a => exact ⟨a, rfl⟩
  | error err => exact absurd ⟨err, rfl⟩ h

theorem escapes_iff_raises {α : Type} {x : Except PyError α}
    (h : ∀ path reason, x ≠ .error (.sigmaRuleLoad path reason)) : Escapes x ↔ Raises x := by
  constructor
  · rintro ⟨err, hx, -⟩
    exact ⟨err, hx⟩
  · rintro ⟨err, rfl⟩
    exact ⟨err, rfl, fun path reason heq => h path reason (congrArg Except.error heq)⟩

theorem raised_ne_load {α : Type} (x : Except String α) (path reason : Str) :
    raised x ≠ .error (.sigmaRuleLoad path reason) := by
  cases x <;> exact nofun

theorem toStr_ne_load (rt : Runtime) (v : Yaml) (path reason : Str) :
    v.toStr rt ≠ .error (.sigmaRuleLoad path reason) := by
  cases v with
  | bool b => cases b <;> exact nofun
  | int n =>
    intro h
    simp only [Yaml.toStr, strInt] at h
    split at h <;> cases h
  | seq items => exact raised_ne_load _ _ _
  | map fields => exact raised_ne_load _ _ _
  | object o => exact raised_ne_load _ _ _
  | _ => exact nofun

theorem toInt_ne_load (v : Yaml) (path reason : Str) :
    v.toInt ≠ .error (.sigmaRuleLoad path reason) := by
  cases v with
  | float repr =>
    intro h
    simp only [Yaml.toInt] at h
    split at h <;> cases h
  | str s =>
    intro h
    simp only [Yaml.toInt] at h
    split at h <;> cases h
  | object o => exact raised_ne_load _ _ _
  | _ => exact nofun

/-- `str(v)` raises. -/
def Unprintable (rt : Runtime) (v : Yaml) : Prop := Raises (v.toStr rt)

/-- `int(v)` raises. -/
def NotInt (v : Yaml) : Prop := Raises v.toInt

/-- The timeframe is not a number, and `str` refuses it. -/
def BadTimeframe (rt : Runtime) : Yaml → Prop
  | .int _ => False
  | .bool _ => False
  | v => Unprintable rt v

theorem escapes_toStr {rt : Runtime} {v : Yaml} : Escapes (v.toStr rt) ↔ Unprintable rt v :=
  escapes_iff_raises (toStr_ne_load rt v)

theorem escapes_toInt {v : Yaml} : Escapes v.toInt ↔ NotInt v :=
  escapes_iff_raises (toInt_ne_load v)

theorem escapes_bind_pure {α β : Type} {x : Except PyError α} {f : α → β} :
    Escapes (x >>= fun a => pure (f a)) ↔ Escapes x := by
  rw [escapes_bind]
  refine or_iff_left ?_
  rintro ⟨a, -, h⟩
  exact not_escapes_ok _ h

theorem escapes_parseTimeframe {rt : Runtime} {v : Yaml} :
    Escapes (parseTimeframe rt v) ↔ BadTimeframe rt v := by
  cases v with
  | int n => exact iff_of_false (not_escapes_ok _) id
  | bool b => exact iff_of_false (not_escapes_ok _) id
  | _ => exact escapes_bind_pure.trans escapes_toStr

theorem escapes_mapM {rt : Runtime} {items : List Yaml} :
    Escapes (items.mapM (Yaml.toStr rt)) ↔ ∃ v ∈ items, Unprintable rt v := by
  induction items with
  | nil => exact iff_of_false (not_escapes_ok _) (by simp)
  | cons v items ih =>
    rw [List.mapM_cons, escapes_bind, escapes_toStr]
    by_cases hv : Unprintable rt v
    · exact iff_of_true (Or.inl hv) ⟨v, List.mem_cons_self, hv⟩
    obtain ⟨s, hs⟩ := ok_of_not_raises hv
    simp only [hs, Except.ok.injEq, exists_eq_left', escapes_bind_pure, ih]
    constructor
    · rintro (h | ⟨w, hw, h⟩)
      · exact absurd h hv
      · exact ⟨w, List.mem_cons_of_mem _ hw, h⟩
    · rintro ⟨w, hw, h⟩
      rcases List.mem_cons.mp hw with rfl | hw
      · exact absurd h hv
      · exact Or.inr ⟨w, hw, h⟩

/-! ## A rule -/

/-- `action` is absent or a mapping. -/
def ActionOk : Yaml → Prop
  | .null => True
  | .map _ => True
  | _ => False

/-- A field is refused that `_compile` converts once the two blocks are there. The action is checked
before the required fields are converted. -/
def BadFields (rt : Runtime) (raw detection : List (Yaml × Yaml)) : Prop :=
  Unprintable rt ((Yaml.get detection "condition").orElse (.ofString "selection")) ∨
  NotInt ((Yaml.get detection "count").orElse (.int 1)) ∨
  BadTimeframe rt ((Yaml.lookup detection "timeframe".toList).getD (.ofString "60s")) ∨
  NotInt ((Yaml.get raw "cooldown_sec").orElse (.int 300)) ∨
  Unprintable rt ((Yaml.get raw "dedup_key").orElse (.ofString "")) ∨
  (ActionOk (Yaml.get raw "action") ∧
    ∃ required, (Yaml.lookup raw "required_fields".toList).getD (.seq []) = .seq required ∧
      ∃ v ∈ required, Unprintable rt v)

/-- A field is refused that `_compile` converts before it finds another fault with the rule. -/
def Unconvertible (rt : Runtime) (raw : List (Yaml × Yaml)) : Prop :=
  Unprintable rt (titleOf raw) ∨
  ((Yaml.get raw "id").truthy ∧ Unprintable rt (Yaml.get raw "id")) ∨
  Unprintable rt (levelOf raw) ∨
  ∃ level detection selection, (levelOf raw).toStr rt = .ok level ∧ level ∈ levels ∧
    Yaml.get raw "detection" = .map detection ∧ Yaml.get detection "selection" = .map selection ∧
    BadFields rt raw detection

/-- A conversion raises, or the code goes on with its result; `P` says when the rest escapes. -/
theorem escapes_bind_raises {α β : Type} {x : Except PyError α} {f : α → Except PyError β}
    {P : Prop} (hx : Escapes x ↔ Raises x) (hf : ∀ a, x = .ok a → (Escapes (f a) ↔ P)) :
    Escapes (x >>= f) ↔ Raises x ∨ P := by
  rw [escapes_bind, hx]
  by_cases hraises : Raises x
  · exact iff_of_true (Or.inl hraises) (Or.inl hraises)
  obtain ⟨a, ha⟩ := ok_of_not_raises hraises
  constructor
  · rintro (h | ⟨a', ha', h⟩)
    · exact Or.inl h
    · exact Or.inr ((hf a' ha').mp h)
  · rintro (h | h)
    · exact Or.inl h
    · exact Or.inr ⟨a, ha, (hf a ha).mpr h⟩

theorem escapes_bind_toStr {β : Type} {rt : Runtime} {v : Yaml} {f : Str → Except PyError β}
    {P : Prop} (hf : ∀ s, v.toStr rt = .ok s → (Escapes (f s) ↔ P)) :
    Escapes (v.toStr rt >>= f) ↔ Unprintable rt v ∨ P :=
  escapes_bind_raises escapes_toStr hf

theorem escapes_bind_toInt {β : Type} {v : Yaml} {f : Int → Except PyError β} {P : Prop}
    (hf : ∀ n, (Escapes (f n) ↔ P)) : Escapes (v.toInt >>= f) ↔ NotInt v ∨ P :=
  escapes_bind_raises escapes_toInt fun n _ => hf n

theorem escapes_bind_timeframe {β : Type} {rt : Runtime} {v : Yaml} {f : Int → Except PyError β}
    {P : Prop} (hf : ∀ n, (Escapes (f n) ↔ P)) :
    Escapes (parseTimeframe rt v >>= f) ↔ BadTimeframe rt v ∨ P := by
  rw [escapes_bind, escapes_parseTimeframe]
  by_cases hbad : BadTimeframe rt v
  · exact iff_of_true (Or.inl hbad) (Or.inl hbad)
  have hok : ∃ n, parseTimeframe rt v = .ok n := by
    cases v with
    | int n => exact ⟨_, rfl⟩
    | bool b => exact ⟨_, rfl⟩
    | _ =>
      obtain ⟨s, hs⟩ := ok_of_not_raises hbad
      simp only [parseTimeframe, hs]
      exact ⟨_, rfl⟩
  obtain ⟨n, hn⟩ := hok
  refine or_congr_right ?_
  constructor
  · rintro ⟨m, -, h⟩
    exact (hf m).mp h
  · intro h
    exact ⟨n, hn, (hf n).mpr h⟩

theorem unprintable_orElse_str {rt : Runtime} {v : Yaml} {s : Str} :
    Unprintable rt (v.orElse (.str s)) ↔ v.truthy = true ∧ Unprintable rt v := by
  unfold Yaml.orElse
  by_cases hv : v.truthy = true
  · rw [if_pos hv]
    exact (and_iff_right hv).symm
  · rw [if_neg hv]
    refine iff_of_false ?_ (fun h => hv h.1)
    rintro ⟨err, h⟩
    cases h

theorem escapes_bind_asMapping {path : Str} {reason : String} {v : Yaml}
    {β : Type} {f : List (Yaml × Yaml) → Except PyError β} :
    Escapes (asMapping path reason v >>= f) ↔ ∃ fields, v = .map fields ∧ Escapes (f fields) := by
  cases v with
  | map fields =>
    constructor
    · intro h
      exact ⟨fields, rfl, h⟩
    · rintro ⟨fields', heq, h⟩
      cases heq
      exact h
  | _ =>
    refine iff_of_false (not_escapes_load _ _) ?_
    rintro ⟨fields, heq, -⟩
    cases heq

theorem escapes_bind_asList {path : Str} {reason : String} {v : Yaml}
    {β : Type} {f : List Yaml → Except PyError β} :
    Escapes (asList path reason v >>= f) ↔ ∃ items, v = .seq items ∧ Escapes (f items) := by
  cases v with
  | seq items =>
    constructor
    · intro h
      exact ⟨items, rfl, h⟩
    · rintro ⟨items', heq, h⟩
      cases heq
      exact h
  | _ =>
    refine iff_of_false (not_escapes_load _ _) ?_
    rintro ⟨items, heq, -⟩
    cases heq

theorem escapes_bind_compileAction {path : Str} {v : Yaml} {β : Type}
    {f : Option (List (Yaml × Yaml)) → Except PyError β} {P : Prop}
    (hf : ∀ a, (Escapes (f a) ↔ P)) :
    Escapes (compileAction path v >>= f) ↔ ActionOk v ∧ P := by
  cases v with
  | null => exact (hf _).trans (and_iff_right trivial).symm
  | map fields => exact (hf _).trans (and_iff_right trivial).symm
  | _ => exact iff_of_false (not_escapes_load _ _) (fun h => h.1)

theorem compileRule_escapes_iff (rt : Runtime) (path : Str) (raw : List (Yaml × Yaml)) :
    Escapes (compileRule rt path raw) ↔ Unconvertible rt raw := by
  unfold compileRule Unconvertible
  refine escapes_bind_toStr fun title _ => ?_
  rw [← unprintable_orElse_str]
  refine escapes_bind_toStr fun id _ => ?_
  refine escapes_bind_toStr fun level hlevel => ?_
  by_cases hmem : level ∈ levels
  · have hfields : ∀ detection selection, Escapes (compileFields rt path raw id title level
        detection selection) ↔ BadFields rt raw detection := by
      intro detection selection
      unfold compileFields BadFields
      refine escapes_bind_toStr fun condition _ => ?_
      refine escapes_bind_toInt fun count => ?_
      refine escapes_bind_timeframe fun timeframeSec => ?_
      refine escapes_bind_toInt fun cooldownSec => ?_
      refine escapes_bind_toStr fun dedupKey _ => ?_
      refine escapes_bind_compileAction fun action => ?_
      rw [escapes_bind_asList]
      simp only [escapes_bind_pure, escapes_mapM]
    rw [if_neg (not_not.mpr hmem)]
    simp only [escapes_bind_asMapping, hfields]
    constructor
    · rintro ⟨detection, hdetection, selection, hselection, hbad⟩
      exact ⟨level, detection, selection, hlevel, hmem, hdetection, hselection, hbad⟩
    · rintro ⟨-, detection, selection, -, -, hdetection, hselection, hbad⟩
      exact ⟨detection, hdetection, selection, hselection, hbad⟩
  · rw [if_pos hmem]
    refine iff_of_false (not_escapes_load _ _) ?_
    rintro ⟨level', detection, selection, hlevel', hmem', -⟩
    rw [hlevel] at hlevel'
    cases hlevel'
    exact hmem hmem'

/-! ## A file -/

/-- The file raises something other than a load error: its bytes are not UTF-8, or a rule in it,
behind rules that compile, has a field that is refused. -/
def EscapesFile (rt : Runtime) (path : Str) : Loaded → Prop
  | .notUtf8 => True
  | .data value => ∃ before raw after, ruleItems value = before ++ .map raw :: after ∧
      (∀ b ∈ before, ∃ fields rule, b = .map fields ∧ compileRule rt path fields = .ok rule) ∧
      Unconvertible rt raw
  | _ => False

theorem compileRules_escapes_iff (rt : Runtime) (path : Str) (items : List Yaml) :
    Escapes (compileRules rt path items) ↔
      ∃ before raw after, items = before ++ .map raw :: after ∧
        (∀ b ∈ before, ∃ fields rule, b = .map fields ∧ compileRule rt path fields = .ok rule) ∧
        Unconvertible rt raw := by
  induction items with
  | nil =>
    refine iff_of_false (not_escapes_ok _) ?_
    rintro ⟨before, raw, after, heq, -⟩
    simp at heq
  | cons item items ih =>
    by_cases hmap : ∃ fields, item = .map fields
    · obtain ⟨fields, rfl⟩ := hmap
      rw [compileRules, escapes_bind, compileRule_escapes_iff]
      simp only [escapes_bind_pure, ih]
      constructor
      · rintro (hbad | ⟨rule, hrule, before, raw, after, rfl, hbefore, hbad⟩)
        · exact ⟨[], fields, items, rfl, by simp, hbad⟩
        · refine ⟨.map fields :: before, raw, after, rfl, ?_, hbad⟩
          intro b hb
          rcases List.mem_cons.mp hb with rfl | hb
          · exact ⟨fields, rule, rfl, hrule⟩
          · exact hbefore b hb
      · rintro ⟨before, raw, after, heq, hbefore, hbad⟩
        cases before with
        | nil =>
          cases heq
          exact Or.inl hbad
        | cons b before =>
          obtain ⟨rfl, rfl⟩ := List.cons.inj heq
          obtain ⟨fields', rule, hfields, hrule⟩ := hbefore _ List.mem_cons_self
          cases hfields
          exact Or.inr ⟨rule, hrule, before, raw, after, rfl,
            fun b hb => hbefore b (List.mem_cons_of_mem _ hb), hbad⟩
    · have hload : compileRules rt path (item :: items) =
          throw (.sigmaRuleLoad path "rule must be a mapping".toList) := by
        cases item with
        | map fields => exact absurd ⟨fields, rfl⟩ hmap
        | _ => rfl
      rw [hload]
      refine iff_of_false (not_escapes_load _ _) ?_
      rintro ⟨before, raw, after, heq, hbefore, -⟩
      cases before with
      | nil =>
        cases heq
        exact hmap ⟨raw, rfl⟩
      | cons b before =>
        obtain ⟨rfl, -⟩ := List.cons.inj heq
        obtain ⟨fields, -, hfields, -⟩ := hbefore _ List.mem_cons_self
        exact hmap ⟨fields, hfields⟩

theorem parseRuleFile_escapes_iff (rt : Runtime) (path : Str) (content : Loaded) :
    Escapes (parseRuleFile rt path content) ↔ EscapesFile rt path content := by
  cases content with
  | osError type => exact iff_of_false (not_escapes_load _ _) id
  | notUtf8 => exact iff_of_true ⟨_, rfl, fun _ _ => nofun⟩ trivial
  | yamlError mark => exact iff_of_false (not_escapes_load _ _) id
  | data value => exact compileRules_escapes_iff rt path _

/-! ## A directory -/

variable {ρ : Type}

/-- The rules of a file that parses; none otherwise. -/
def RuleFiles.rulesOf (files : RuleFiles ρ) (path : Str) : List ρ :=
  match files.parseRuleFile path with
  | .ok rules => rules
  | .error _ => []

theorem loadFiles_eq_iff (files : RuleFiles ρ) (paths : List Str) :
    loadFiles files paths = .ok (paths.flatMap files.rulesOf) ↔
      ∀ p ∈ paths, ¬ Escapes (files.parseRuleFile p) := by
  induction paths with
  | nil => exact iff_of_true rfl (by simp)
  | cons p paths ih =>
    rw [loadFiles, List.flatMap_cons, List.forall_mem_cons, ← ih, RuleFiles.rulesOf]
    cases hp : files.parseRuleFile p with
    | ok rules =>
      rw [and_iff_right (not_escapes_ok rules)]
      simp only
      cases loadFiles files paths with
      | error err => exact iff_of_false nofun nofun
      | ok rest =>
        show (Except.ok (rules ++ rest) : Except PyError (List ρ)) = _ ↔ _
        rw [Except.ok.injEq, Except.ok.injEq, List.append_cancel_left_eq]
    | error err =>
      by_cases hload : ∃ path reason, err = .sigmaRuleLoad path reason
      · obtain ⟨path, reason, rfl⟩ := hload
        exact (and_iff_right (not_escapes_load path reason)).symm
      · have hescapes : Escapes (.error err : Except PyError (List ρ)) :=
          ⟨err, rfl, fun path reason heq => hload ⟨path, reason, heq⟩⟩
        refine iff_of_false ?_ (fun h => h.1 hescapes)
        cases err with
        | sigmaRuleLoad path reason => exact absurd ⟨path, reason, rfl⟩ hload
        | _ => exact nofun

theorem loadRulesFromDir_eq (rt : Runtime) (d : RuleDir) (dir : Str) :
    loadRulesFromDir (d.files rt) (.path dir) = loadFiles (d.files rt) (d.paths dir) := by
  rw [loadRulesFromDir, RuleDir.paths]
  by_cases hmissing : (!d.exist dir || !d.isDir dir) = true
  · rw [if_pos hmissing]
    exact if_pos hmissing
  · rw [if_neg hmissing]
    exact if_neg hmissing

/-- The directory loads to the rules of the files that parse, in order, exactly when no file raises
an exception that is not caught. -/
theorem loadRules_isolated_iff (rt : Runtime) (d : RuleDir) (dir : Str) :
    loadRulesFromDir (d.files rt) (.path dir) =
        .ok ((d.paths dir).flatMap (d.files rt).rulesOf) ↔
      ∀ p ∈ d.paths dir, ¬ EscapesFile rt p (d.loaded p) := by
  rw [loadRulesFromDir_eq, loadFiles_eq_iff]
  refine forall₂_congr fun p _ => not_congr ?_
  exact parseRuleFile_escapes_iff rt p (d.loaded p)

/-- A runtime whose patterns without special characters are texts to be found. -/
def plainRuntime : Runtime where
  compile p := if p = "(".toList then .error "re.error" else .ok fun s => contains p s
  alnum _ := false
  finalSigma _ _ := false
  reprJson _ := []
  reprYaml _ := .ok []

/-- A rule with one selected field. -/
def ruleYaml (id key value : String) (more : List (Yaml × Yaml)) : Yaml :=
  .map [(.ofString "id", .ofString id), (.ofString "detection",
    .map ((.ofString "selection", .map [(.ofString key, .ofString value)]) :: more))]

/-- Two rule files; the count of the second is not a number. -/
def mixedDir : RuleDir where
  exist _ := true
  isDir _ := true
  rglob _ ext := if ext = "*.yml" then ["good.yml".toList, "bad.yml".toList] else []
  loaded p := .data (if p = "good.yml".toList then ruleYaml "good" "status" "failed" []
    else ruleYaml "bad" "status" "failed" [(.ofString "count", .ofString "many")])

/-- The bad count takes the good file's rule with it. -/
theorem loadRules_bad_count :
    loadRulesFromDir (mixedDir.files plainRuntime) (.path "rules".toList) = .error valueError ∧
    ((mixedDir.files plainRuntime).rulesOf "good.yml".toList).map CompiledSigmaRule.id =
      ["good".toList] ∧
    ¬ loadRulesFromDir (mixedDir.files plainRuntime) (.path "rules".toList) =
      .ok ((mixedDir.paths "rules".toList).flatMap (mixedDir.files plainRuntime).rulesOf) := by
  have hraises : loadRulesFromDir (mixedDir.files plainRuntime) (.path "rules".toList) =
      .error valueError := rfl
  refine ⟨hraises, rfl, ?_⟩
  rw [hraises]
  exact nofun

end ZaqorinCore.Server
