import ZaqorinCore.Base.Firsts
import ZaqorinCore.Base.Script
import ZaqorinCore.Server.StudioLive

/-!
# The rule studio: listing and lookup

`list_rules` walks both directories and knows a rule by the id in its document; `get_rule` looks for
a file by its name, at the top of the directories. The listing keeps one rule for each id of a
directory, so a custom rule does not hide the built-in rule of its id, and what it lists need not be
found. `listing_agrees_iff` says for which files the two agree.
-/

namespace ZaqorinCore.Server

open Text Base

/-! ## Listing -/

/-- `RuleSummary`, without `last_fired_at`, which is never set. -/
structure RuleSummary where
  id : Str
  title : Str
  level : SeverityLit
  source : RuleSource
  description : Option Str
  mitreId : Option Str
  logsource : Option Str
  path : Str

/-- The last component of a path. -/
def baseName (name : Str) : Str := (name.reverse.takeWhile (· != '/')).reverse

/-- `path.stem`: the name up to its last dot, unless that is the first or the last character. -/
def stemOf (name : Str) : Str :=
  let base := baseName name
  let suffix := (base.reverse.takeWhile (· != '.')).length
  if 0 < suffix ∧ suffix + 1 < base.length then base.take (base.length - (suffix + 1)) else base

/-- A text, and nothing for any other value. -/
def textOf : Yaml → Option Str
  | .str s => some s
  | _ => none

/-- The description of a summary: a text without its white space, or what `RuleSummary` takes. -/
def summaryDescription (ops : StudioOps) : Yaml → Except StudioError (Option Str)
  | .str s => pure (nonempty (some (strip s)))
  | v =>
    match nullable (detailStr ops) v with
    | some description => pure description
    | none => throw (.validation ["description"])

/-- `_summarize_rule` of a mapping. -/
def summaryOf (rt : Runtime) (ops : StudioOps) (source : RuleSource) (name : Str)
    (data : List (Yaml × Yaml)) : Except StudioError RuleSummary := do
  let id ← (((Yaml.get data "id").orElse (.str (stemOf name))).toStr rt).mapError .raised
  let detection ← (asDict ((Yaml.get data "detection").orElse (.map []))).mapError .raised
  let selection ← (asDict ((Yaml.get detection "selection").orElse (.map []))).mapError .raised
  let title ← (((Yaml.get data "title").orElse (.str id)).toStr rt).mapError .raised
  let tags ← (((Yaml.get data "tags").orElse (.seq [])).items ops).mapError .raised
  let description ← summaryDescription ops (Yaml.get data "description")
  pure { id, title, level := (detailLevel (levelOf data)).getD .medium, source, description,
         mitreId := collectMitre tags, logsource := textOf (Yaml.get selection "source"),
         path := pathBelow (ruleFolder ops source) name }

/-- `_summarize_rule`; a file that cannot be read or parsed has no summary. -/
def summarizeRule (rt : Runtime) (ops : StudioOps) (c : RuleSource × RuleFile) :
    Except StudioError (Option RuleSummary) :=
  match c.2.body.loaded ops with
  | .osError _ => pure none
  | .yamlError _ => pure none
  | .notUtf8 => throw (.raised (.other "UnicodeDecodeError"))
  | .data (.map data) => (summaryOf rt ops c.1 c.2.name data).map some
  | .data _ => pure none

/-- `directory.rglob("*.ext")` -/
def RuleFolder.rglob (folder : RuleFolder) (ext : String) : List RuleFile :=
  folder.rows.filter fun f => ext.toList.isSuffixOf f.name

/-- The files that are visited, in order. -/
def RuleStore.visited (store : RuleStore) : List (RuleSource × RuleFile) :=
  [RuleSource.builtin, .custom].flatMap fun source =>
    [".yml", ".yaml"].flatMap fun ext => ((store.folder source).rglob ext).map fun f => (source, f)

/-- The key under which a summary is seen. -/
def RuleSummary.seenKey (s : RuleSummary) : Str := s.source.name ++ ':' :: s.id

/-- The loops of `_list_rules`, with the keys seen so far. -/
def gather (rt : Runtime) (ops : StudioOps) :
    List (RuleSource × RuleFile) → List Str → Except StudioError (List RuleSummary)
  | [], _ => pure []
  | c :: rest, seen => do
    match ← summarizeRule rt ops c with
    | none => gather rt ops rest seen
    | some summary =>
      if summary.seenKey ∈ seen then gather rt ops rest seen
      else do
        let out ← gather rt ops rest (summary.seenKey :: seen)
        pure (summary :: out)

/-- The order of the listing: the custom rules first, then by title in lower case. -/
def listedBefore (rt : Runtime) (a b : RuleSummary) : Bool :=
  if a.source = b.source then
    !decide (lower rt.finalSigma b.title < lower rt.finalSigma a.title)
  else decide (a.source = .custom)

/-- `list_rules` -/
def listRules (rt : Runtime) (ops : StudioOps) (store : RuleStore) :
    Except StudioError (List RuleSummary) := do
  let out ← gather rt ops store.visited []
  pure (out.mergeSort (listedBefore rt))

/-! ## What is to hold -/

/-- Every id is listed once, by the custom rule if there is one, and every listed rule is found. -/
structure LookupAgrees (rt : Runtime) (ops : StudioOps) (store : RuleStore)
    (out : List RuleSummary) : Prop where
  once : (out.map RuleSummary.id).Nodup
  override : ∀ s ∈ out, ∀ c ∈ store.visited, c.1 = .custom →
    ∀ s', summarizeRule rt ops c = .ok (some s') → s'.id = s.id → s.source = .custom
  found : ∀ s ∈ out, ∃ detail, getRule rt ops store s.id = .ok detail ∧
    detail.source = s.source ∧ detail.title = s.title

def ListingAgrees (rt : Runtime) (ops : StudioOps) (store : RuleStore) : Prop :=
  ∃ out, listRules rt ops store = .ok out ∧ LookupAgrees rt ops store out

/-! ## The exact condition -/

/-- The mapping that a file holds. -/
structure RuleDoc where
  source : RuleSource
  name : Str
  data : List (Yaml × Yaml)

def docOf (ops : StudioOps) (c : RuleSource × RuleFile) : Option RuleDoc :=
  match c.2.body.loaded ops with
  | .data (.map data) => some ⟨c.1, c.2.name, data⟩
  | _ => none

def RuleStore.documents (ops : StudioOps) (store : RuleStore) : List RuleDoc :=
  store.visited.filterMap (docOf ops)

/-- The text of the id, or else the stem of the file. -/
def RuleDoc.id (rt : Runtime) (d : RuleDoc) : Option Str :=
  (((Yaml.get d.data "id").orElse (.str (stemOf d.name))).toStr rt).toOption

/-- The text of the title, or else the id. -/
def titleText (rt : Runtime) (data : List (Yaml × Yaml)) (id : Str) : Option Str :=
  (((Yaml.get data "title").orElse (.str id)).toStr rt).toOption

/-- The mapping has a summary: its id and its title have a text, the detection and the selection are
mappings, the tags can be listed, and the description is a text. -/
structure RuleDoc.Listable (rt : Runtime) (ops : StudioOps) (d : RuleDoc) : Prop where
  named : ∃ id title, d.id rt = some id ∧ titleText rt d.data id = some title
  selection : ∃ detection selection,
    (Yaml.get d.data "detection").orElse (.map []) = .map detection ∧
    (Yaml.get detection "selection").orElse (.map []) = .map selection
  tags : ∃ tags, ((Yaml.get d.data "tags").orElse (.seq [])).items ops = .ok tags
  description : ∃ text, nullable (detailStr ops) (Yaml.get d.data "description") = some text

/-- The mapping has the fields that `RuleDetail` takes. -/
structure Showable (rt : Runtime) (ops : StudioOps) (parsed : List (Yaml × Yaml)) : Prop where
  id : (Yaml.get parsed "id").truthy = true → ∃ id, (Yaml.get parsed "id").toStr rt = .ok id
  level : ∃ level, detailLevel (levelOf parsed) = some level
  tags : ∃ tags texts, ((Yaml.get parsed "tags").orElse (.seq [])).items ops = .ok tags ∧
    tags.mapM (detailStr ops) = some texts
  cooldown : ∃ n, nullable (detailInt ops) (Yaml.get parsed "cooldown_sec") = some n
  dedupKey : ∃ key, nullable (detailStr ops) (Yaml.get parsed "dedup_key") = some key
  action : ∃ action, nullable (detailMembers ops) (Yaml.get parsed "action") = some action
  detection : ∃ fields members, (Yaml.get parsed "detection").orElse (.map []) = .map fields ∧
    detailMembers ops (.map fields) = some members ∧
    (∃ condition, ((Yaml.get fields "condition").orElse (.ofString "selection")).toStr rt =
      .ok condition) ∧
    (∃ timeframe, unlessNone (Yaml.toStr rt) (Yaml.get fields "timeframe") = .ok timeframe) ∧
    (∃ count, unlessNone Yaml.toInt (Yaml.get fields "count") = .ok count) ∧
    ∃ logsource, nullable (detailStr ops)
      (sourceOf ((Yaml.get fields "selection").orElse (.map []))) = some logsource

/-- The file at the top of the directory that is named after the id. -/
def RuleFolder.named (folder : RuleFolder) (id : Str) : Option FileBody :=
  ((folder.find (id ++ ".yml".toList)).or (folder.find (id ++ ".yaml".toList))).map RuleFile.body

/-- The directory has a file that is named after the id, no custom file of this name hides it, and
it holds a rule that can be shown, with this title. -/
def RuleStore.Finds (rt : Runtime) (ops : StudioOps) (store : RuleStore) (source : RuleSource)
    (id title : Str) : Prop :=
  matchesRuleId id = true ∧ (source = .builtin → store.custom.named id = none) ∧
    ∃ text value parsed, (store.folder source).named id = some (.text text) ∧
      ops.load text = .ok value ∧ value.orElse (.map []) = .map parsed ∧ Showable rt ops parsed ∧
      titleText rt parsed id = some title

/-- No file is broken so that it has no summary, no id is one of a custom rule and of a built-in
one, and the first rule of every id in a directory is found by its id. -/
structure RuleStore.Orderly (rt : Runtime) (ops : StudioOps) (store : RuleStore) : Prop where
  decoded : ∀ c ∈ store.visited, c.2.body.loaded ops ≠ .notUtf8
  listable : ∀ d ∈ store.documents ops, d.Listable rt ops
  apart : ∀ b ∈ store.documents ops, ∀ c ∈ store.documents ops, b.source = .builtin →
    c.source = .custom → b.id rt ≠ c.id rt
  found : ∀ d id title, (store.documents ops).find?
      (fun d' => d'.source = d.source ∧ d'.id rt = some id) = some d →
    titleText rt d.data id = some title → store.Finds rt ops d.source id title

/-! ## Summaries of mappings -/

section

variable {rt : Runtime} {ops : StudioOps}

theorem summaryDescription_ok_iff {v : Yaml} :
    (∃ d, summaryDescription ops v = .ok d) ↔ ∃ text, nullable (detailStr ops) v = some text := by
  unfold summaryDescription
  split
  · rename_i s
    exact iff_of_true ⟨_, rfl⟩ ⟨some s, rfl⟩
  · cases h : nullable (detailStr ops) v with
    | none => exact iff_of_false nofun nofun
    | some text => exact iff_of_true ⟨text, rfl⟩ ⟨text, rfl⟩

theorem asDict_eq_ok {v : Yaml} {fields : List (Yaml × Yaml)} :
    asDict v = .ok fields ↔ v = .map fields := by
  cases v with
  | map fields' =>
    constructor
    · intro h
      cases h
      rfl
    · intro h
      cases h
      rfl
  | _ => exact iff_of_false nofun nofun

/-- What a summary says of its mapping. -/
theorem summaryOf_eq_ok {d : RuleDoc} {s : RuleSummary}
    (h : summaryOf rt ops d.source d.name d.data = .ok s) :
    d.Listable rt ops ∧ s.source = d.source ∧ d.id rt = some s.id ∧
      titleText rt d.data s.id = some s.title := by
  unfold summaryOf at h
  simp only [bind_eq_ok, mapError_eq_ok, asDict_eq_ok] at h
  obtain ⟨id, hid, detection, hdetection, selection, hselection, title, htitle, tags, htags,
    description, hdescription, hs⟩ := h
  cases hs
  have hid' := toOption_eq_some.mpr hid
  have htitle' := toOption_eq_some.mpr htitle
  refine ⟨⟨⟨id, title, hid', htitle'⟩, ⟨detection, selection, hdetection, hselection⟩,
    ⟨tags, htags⟩, summaryDescription_ok_iff.mp ⟨description, hdescription⟩⟩, rfl, hid', htitle'⟩

theorem RuleDoc.Listable.summary {d : RuleDoc} (h : d.Listable rt ops) :
    ∃ s, summaryOf rt ops d.source d.name d.data = .ok s := by
  obtain ⟨⟨id, title, hid, htitle⟩, ⟨detection, selection, hdetection, hselection⟩, ⟨tags, htags⟩,
    hdescription⟩ := h
  obtain ⟨description, hdescription⟩ := summaryDescription_ok_iff.mpr hdescription
  have hid' := toOption_eq_some.mp hid
  have htitle' := toOption_eq_some.mp htitle
  unfold summaryOf
  simp only [bind_eq_ok, mapError_eq_ok, asDict_eq_ok]
  exact ⟨_, id, hid', detection, hdetection, selection, hselection, title, htitle', tags, htags,
    description, hdescription, rfl⟩

/-! ## The listing and the mappings -/

/-- The summaries of the mappings, in order. -/
abbrev Summarized (rt : Runtime) (ops : StudioOps) : List RuleDoc → List RuleSummary → Prop :=
  List.Forall₂ fun d s => summaryOf rt ops d.source d.name d.data = .ok s

/-- A visited file is not a text and breaks the loop, or it is passed over, or it holds a mapping. -/
theorem summarizeRule_cases (rt : Runtime) (ops : StudioOps) (c : RuleSource × RuleFile) :
    (c.2.body.loaded ops = .notUtf8 ∧ ∃ err, summarizeRule rt ops c = .error err) ∨
    (c.2.body.loaded ops ≠ .notUtf8 ∧ docOf ops c = none ∧ summarizeRule rt ops c = .ok none) ∨
    (c.2.body.loaded ops ≠ .notUtf8 ∧ ∃ d, docOf ops c = some d ∧ d.source = c.1 ∧
      summarizeRule rt ops c = (summaryOf rt ops d.source d.name d.data).map some) := by
  unfold summarizeRule docOf
  cases c.2.body.loaded ops with
  | notUtf8 => exact Or.inl ⟨rfl, _, rfl⟩
  | osError type => exact Or.inr (Or.inl ⟨nofun, rfl, rfl⟩)
  | yamlError mark => exact Or.inr (Or.inl ⟨nofun, rfl, rfl⟩)
  | data value =>
    cases value with
    | map data => exact Or.inr (Or.inr ⟨nofun, _, rfl, rfl, rfl⟩)
    | _ => exact Or.inr (Or.inl ⟨nofun, rfl, rfl⟩)

section

variable {c : RuleSource × RuleFile} {rest : List (RuleSource × RuleFile)} {seen : List Str}

theorem gather_cons_none (h : summarizeRule rt ops c = .ok none) :
    gather rt ops (c :: rest) seen = gather rt ops rest seen := by
  rw [gather, h]
  rfl

theorem gather_cons_seen {s : RuleSummary} (h : summarizeRule rt ops c = .ok (some s))
    (hseen : s.seenKey ∈ seen) :
    gather rt ops (c :: rest) seen = gather rt ops rest seen := by
  rw [gather, h]
  exact if_pos hseen

theorem gather_cons_new {s : RuleSummary} (h : summarizeRule rt ops c = .ok (some s))
    (hseen : s.seenKey ∉ seen) :
    gather rt ops (c :: rest) seen =
      gather rt ops rest (s.seenKey :: seen) >>= fun out => pure (s :: out) := by
  rw [gather, h]
  exact if_neg hseen

theorem gather_cons_error {err : StudioError} (h : summarizeRule rt ops c = .error err) :
    gather rt ops (c :: rest) seen = .error err := by
  rw [gather, h]
  rfl

end

/-- The loops end when no file is broken, with the first summary of each key. -/
theorem gather_eq_ok {cs : List (RuleSource × RuleFile)} {seen : List Str}
    {out : List RuleSummary} : gather rt ops cs seen = .ok out ↔
      (∀ c ∈ cs, c.2.body.loaded ops ≠ .notUtf8) ∧
        ∃ all, Summarized rt ops (cs.filterMap (docOf ops)) all ∧
          out = firsts RuleSummary.seenKey seen all := by
  induction cs generalizing seen out with
  | nil =>
    constructor
    · intro h
      cases h
      exact ⟨nofun, [], List.Forall₂.nil, rfl⟩
    · rintro ⟨-, all, hall, rfl⟩
      cases hall
      rfl
  | cons c rest ih =>
    rcases summarizeRule_cases rt ops c with
      ⟨hbroken, err, herr⟩ | ⟨hdecoded, hdoc, hnone⟩ | ⟨hdecoded, d, hdoc, -, hsummary⟩
    · rw [gather_cons_error herr]
      exact iff_of_false nofun fun h => h.1 c List.mem_cons_self hbroken
    · rw [gather_cons_none hnone, List.filterMap_cons_none hdoc, List.forall_mem_cons,
        and_iff_right hdecoded]
      exact ih
    · rw [List.filterMap_cons_some hdoc, List.forall_mem_cons, and_iff_right hdecoded]
      simp only [Summarized, List.forall₂_cons_left_iff]
      cases hs : summaryOf rt ops d.source d.name d.data with
      | error err =>
        rw [hs] at hsummary
        rw [gather_cons_error hsummary]
        refine iff_of_false nofun ?_
        rintro ⟨-, all, ⟨s, more, hhead, -⟩, -⟩
        cases hhead
      | ok s =>
        rw [hs] at hsummary
        by_cases hseen : s.seenKey ∈ seen
        · rw [gather_cons_seen hsummary hseen, ih]
          refine and_congr_right fun _ => ?_
          constructor
          · rintro ⟨more, hmore, rfl⟩
            refine ⟨s :: more, ⟨s, more, rfl, hmore, rfl⟩, ?_⟩
            rw [firsts, if_pos hseen]
          · rintro ⟨all, ⟨_, more, hhead, hmore, rfl⟩, rfl⟩
            cases hhead
            refine ⟨more, hmore, ?_⟩
            rw [firsts, if_pos hseen]
        · rw [gather_cons_new hsummary hseen, bind_eq_ok]
          constructor
          · rintro ⟨tail, htail, hout⟩
            cases hout
            obtain ⟨hrest, more, hmore, rfl⟩ := ih.mp htail
            refine ⟨hrest, s :: more, ⟨s, more, rfl, hmore, rfl⟩, ?_⟩
            rw [firsts, if_neg hseen]
          · rintro ⟨hrest, all, ⟨_, more, hhead, hmore, rfl⟩, rfl⟩
            cases hhead
            refine ⟨_, ih.mpr ⟨hrest, more, hmore, rfl⟩, ?_⟩
            rw [firsts, if_neg hseen]
            rfl

/-! ## Lookup -/

theorem findRule_eq_some {store : RuleStore} {id : Str} {body : FileBody} {source : RuleSource} :
    store.findRule id = some (body, source) ↔ (source = .builtin → store.custom.named id = none) ∧
      (store.folder source).named id = some body := by
  have hsearch : ∀ source, ([".yml", ".yaml"].findSome? fun ext =>
      ((store.folder source).find (id ++ ext.toList)).map fun f => (f.body, source)) =
        ((store.folder source).named id).map fun body => (body, source) := by
    intro source
    unfold RuleFolder.named
    simp only [List.findSome?_cons, List.findSome?_nil]
    cases (store.folder source).find (id ++ ".yml".toList) with
    | some f => rfl
    | none => cases (store.folder source).find (id ++ ".yaml".toList) <;> rfl
  have hcustom : store.folder .custom = store.custom := rfl
  unfold RuleStore.findRule
  simp only [hsearch, List.findSome?_cons, List.findSome?_nil, hcustom]
  cases hnamed : store.custom.named id with
  | some body' =>
    cases source with
    | custom => simp [hcustom, hnamed]
    | builtin => simp
  | none =>
    cases source with
    | custom => cases hbuiltin : (store.folder .builtin).named id <;> simp [hcustom, hnamed]
    | builtin => cases hbuiltin : (store.folder .builtin).named id <;> simp

theorem readRuleDetail_eq_ok {store : RuleStore} {id text : Str} {parsed : List (Yaml × Yaml)}
    {source : RuleSource} : readRuleDetail ops store id = .ok (text, parsed, source) ↔
      matchesRuleId id = true ∧ ∃ value, store.findRule id = some (.text text, source) ∧
        ops.load text = .ok value ∧ value.orElse (.map []) = .map parsed := by
  unfold readRuleDetail validateRuleId
  by_cases hid : matchesRuleId id = true
  · rw [if_pos hid, and_iff_right hid]
    cases hfind : store.findRule id with
    | none =>
      refine iff_of_false (fun h => by cases h) ?_
      rintro ⟨value, hfound, -⟩
      cases hfound
    | some found =>
      obtain ⟨body, source'⟩ := found
      cases body with
      | text s =>
        cases hload : ops.load s with
        | error mark =>
          refine iff_of_false ?_ ?_
          · show ((ops.load s).mapError _ >>= _) ≠ _
            rw [hload]
            exact fun h => by cases h
          · rintro ⟨value, hfound, hvalue, -⟩
            cases hfound
            rw [hload] at hvalue
            cases hvalue
        | ok value =>
          show ((ops.load s).mapError _ >>= fun value => _) = _ ↔ _
          rw [hload]
          dsimp only [Except.mapError, bind, Except.bind]
          constructor
          · intro h
            split at h
            · rename_i hparsed
              cases h
              exact ⟨value, rfl, hload, hparsed⟩
            · cases h
          · rintro ⟨value', hfound, hvalue, hparsed⟩
            cases hfound
            rw [hload] at hvalue
            cases hvalue
            rw [hparsed]
            rfl
      | binary bytes =>
        refine iff_of_false (fun h => by cases h) ?_
        rintro ⟨value, hfound, -⟩
        cases hfound
      | unreadable type =>
        refine iff_of_false (fun h => by cases h) ?_
        rintro ⟨value, hfound, -⟩
        cases hfound
  · rw [if_neg hid]
    exact iff_of_false (fun h => by cases h) fun h => hid h.1

/-- A text is printed in place of a value that counts as absent. -/
theorem toStr_orElse_text {v : Yaml} {s : Str} : (∃ t, (v.orElse (.str s)).toStr rt = .ok t) ↔
    (v.truthy = true → ∃ t, v.toStr rt = .ok t) := by
  unfold Yaml.orElse
  by_cases hv : v.truthy = true
  · rw [if_pos hv]
    exact ⟨fun h _ => h, fun h => h hv⟩
  · rw [if_neg hv]
    exact iff_of_true ⟨s, rfl⟩ fun h => absurd h hv

/-- `RuleDetail` takes the values, field by field. -/
theorem validate_eq_ok {a : DetailArgs} {detail : RuleDetail} : a.validate ops = .ok detail ↔
    ∃ level, detailLevel a.level = some level ∧
    ∃ logsource, nullable (detailStr ops) a.logsource = some logsource ∧
    ∃ detection, detailMembers ops (.map a.detection) = some detection ∧
    ∃ cooldownSec, nullable (detailInt ops) a.cooldownSec = some cooldownSec ∧
    ∃ dedupKey, nullable (detailStr ops) a.dedupKey = some dedupKey ∧
    ∃ action, nullable (detailMembers ops) a.action = some action ∧
    ∃ tags, a.tags.mapM (detailStr ops) = some tags ∧
      detail = { a with level, logsource, detection, cooldownSec, dedupKey, action, tags } := by
  unfold DetailArgs.validate
  constructor
  · intro h
    split at h
    · rename_i level logsource detection cooldownSec dedupKey action tags hlevel hlogsource
        hdetection hcooldownSec hdedupKey haction htags
      cases h
      exact ⟨level, hlevel, logsource, hlogsource, detection, hdetection, cooldownSec, hcooldownSec,
        dedupKey, hdedupKey, action, haction, tags, htags, rfl⟩
    · cases h
  · rintro ⟨level, hlevel, logsource, hlogsource, detection, hdetection, cooldownSec, hcooldownSec,
      dedupKey, hdedupKey, action, haction, tags, htags, rfl⟩
    rw [hlevel, hlogsource, hdetection, hcooldownSec, hdedupKey, haction, htags]

/-- A mapping that was read is shown exactly when it is `Showable` and its title has a text. -/
theorem detail_shown_iff (text : Str) {id title : Str} {parsed : List (Yaml × Yaml)}
    {source source' : RuleSource} :
    (∃ args, detailArgs rt ops id text parsed source' = .ok args ∧
      ∃ detail, args.validate ops = .ok detail ∧ detail.source = source ∧ detail.title = title) ↔
    source' = source ∧ Showable rt ops parsed ∧ titleText rt parsed id = some title := by
  unfold detailArgs
  simp only [bind_eq_ok, asDict_eq_ok, validate_eq_ok]
  constructor
  · rintro ⟨args, ⟨fields, hfields, rid, hid, rtitle, htitle, tags, htags, condition, hcondition,
      timeframe, htimeframe, count, hcount, hargs⟩, detail, ⟨level, hlevel, logsource, hlogsource,
      members, hmembers, cooldown, hcooldown, key, hkey, action, haction, texts, htexts, rfl⟩,
      hsource, heq⟩
    cases hargs
    cases hsource
    cases heq
    refine ⟨rfl, ⟨toStr_orElse_text.mp ⟨rid, hid⟩, ⟨level, hlevel⟩, ⟨tags, texts, htags, htexts⟩,
      ⟨cooldown, hcooldown⟩, ⟨key, hkey⟩, ⟨action, haction⟩, ⟨fields, members, hfields, hmembers,
      ⟨condition, hcondition⟩, ⟨timeframe, htimeframe⟩, ⟨count, hcount⟩, ⟨logsource, hlogsource⟩⟩⟩,
      toOption_eq_some.mpr htitle⟩
  · rintro ⟨rfl, ⟨hid, ⟨level, hlevel⟩, ⟨tags, texts, htags, htexts⟩, ⟨cooldown, hcooldown⟩,
      ⟨key, hkey⟩, ⟨action, haction⟩, ⟨fields, members, hfields, hmembers, ⟨condition, hcondition⟩,
      ⟨timeframe, htimeframe⟩, ⟨count, hcount⟩, ⟨logsource, hlogsource⟩⟩⟩, htitle⟩
    obtain ⟨rid, hrid⟩ := (toStr_orElse_text (s := id)).mpr hid
    exact ⟨_, ⟨fields, hfields, rid, hrid, title, toOption_eq_some.mp htitle, tags, htags,
      condition, hcondition, timeframe, htimeframe, count, hcount, rfl⟩, _, ⟨level, hlevel,
      logsource, hlogsource, members, hmembers, cooldown, hcooldown, key, hkey, action, haction,
      texts, htexts, rfl⟩, rfl, rfl⟩

theorem shown_iff_finds {store : RuleStore} {source : RuleSource} {id title : Str} :
    (∃ detail, getRule rt ops store id = .ok detail ∧ detail.source = source ∧
      detail.title = title) ↔ store.Finds rt ops source id title := by
  constructor
  · rintro ⟨detail, hdetail, hsource, htitle⟩
    unfold getRule at hdetail
    rw [bind_eq_ok] at hdetail
    obtain ⟨⟨text, parsed, source'⟩, hread, hshow⟩ := hdetail
    rw [bind_eq_ok] at hshow
    obtain ⟨args, hargs, hvalidate⟩ := hshow
    rw [mapError_eq_ok] at hargs
    obtain ⟨rfl, hshowable, htext⟩ :=
      (detail_shown_iff text).mp ⟨args, hargs, detail, hvalidate, hsource, htitle⟩
    obtain ⟨hid, value, hfind, hload, hparsed⟩ := readRuleDetail_eq_ok.mp hread
    obtain ⟨hhidden, hnamed⟩ := findRule_eq_some.mp hfind
    exact ⟨hid, hhidden, text, value, parsed, hnamed, hload, hparsed, hshowable, htext⟩
  · rintro ⟨hid, hhidden, text, value, parsed, hnamed, hload, hparsed, hshowable, htext⟩
    have hfind := findRule_eq_some.mpr ⟨hhidden, hnamed⟩
    have hread := readRuleDetail_eq_ok.mpr ⟨hid, value, hfind, hload, hparsed⟩
    obtain ⟨args, hargs, detail, hvalidate, hsource, htitle⟩ :=
      (detail_shown_iff text).mpr ⟨rfl, hshowable, htext⟩
    refine ⟨detail, ?_, hsource, htitle⟩
    unfold getRule
    rw [bind_eq_ok]
    refine ⟨_, hread, ?_⟩
    rw [bind_eq_ok]
    exact ⟨args, mapError_eq_ok.mpr hargs, hvalidate⟩

/-! ## What is listed -/

theorem seenKey_eq_iff {s s' : RuleSummary} :
    s.seenKey = s'.seenKey ↔ s.source = s'.source ∧ s.id = s'.id := by
  have hbuiltin : RuleSource.builtin.name = 'b' :: "uiltin".toList := rfl
  have hcustom : RuleSource.custom.name = 'c' :: "ustom".toList := rfl
  unfold RuleSummary.seenKey
  cases s.source <;> cases s'.source
  case builtin.builtin => simp
  case custom.custom => simp
  case builtin.custom =>
    rw [hbuiltin, hcustom]
    simp
  case custom.builtin =>
    rw [hbuiltin, hcustom]
    simp

theorem listRules_eq_ok {store : RuleStore} {out : List RuleSummary} :
    listRules rt ops store = .ok out ↔ (∀ c ∈ store.visited, c.2.body.loaded ops ≠ .notUtf8) ∧
      ∃ all, Summarized rt ops (store.documents ops) all ∧
        out = (firsts RuleSummary.seenKey [] all).mergeSort (listedBefore rt) := by
  unfold listRules
  rw [bind_eq_ok]
  constructor
  · rintro ⟨gathered, hgathered, hout⟩
    cases hout
    obtain ⟨hdecoded, all, hall, rfl⟩ := gather_eq_ok.mp hgathered
    exact ⟨hdecoded, all, hall, rfl⟩
  · rintro ⟨hdecoded, all, hall, rfl⟩
    exact ⟨_, gather_eq_ok.mpr ⟨hdecoded, all, hall, rfl⟩, rfl⟩

/-- The summaries listed are those of the first mapping of each id in a directory. -/
theorem listed_iff {docs : List RuleDoc} {all : List RuleSummary} (h : Summarized rt ops docs all)
    {s : RuleSummary} : s ∈ firsts RuleSummary.seenKey [] all ↔
      ∃ d, docs.find? (fun d' => d'.source = s.source ∧ d'.id rt = some s.id) = some d ∧
        summaryOf rt ops d.source d.name d.data = .ok s := by
  have hrel := find?_related (p := fun d' => d'.source = s.source ∧ d'.id rt = some s.id)
    (q := fun b => b.seenKey = s.seenKey) h fun d' b hb => by
      obtain ⟨-, hsource, hid, -⟩ := summaryOf_eq_ok hb
      rw [← hsource, hid]
      simp [seenKey_eq_iff]
  rw [mem_firsts_iff, and_iff_right List.not_mem_nil]
  constructor
  · intro hs
    rw [hs] at hrel
    generalize hd : docs.find? _ = found at hrel
    cases hrel with
    | some hsummary => exact ⟨_, rfl, hsummary⟩
  · rintro ⟨d, hd, hsummary⟩
    rw [hd] at hrel
    generalize hs : all.find? _ = found at hrel
    cases hrel with
    | some hsummary' =>
      rw [hsummary] at hsummary'
      cases hsummary'
      rfl

/-- The id of every mapping of a directory is listed. -/
theorem exists_listed {docs : List RuleDoc} {all : List RuleSummary}
    (h : Summarized rt ops docs all) {d : RuleDoc} (hd : d ∈ docs) :
    ∃ s ∈ firsts RuleSummary.seenKey [] all, s.source = d.source ∧ d.id rt = some s.id := by
  obtain ⟨s', hs', hsummary⟩ := exists_related_right h hd
  obtain ⟨-, hsource, hid, -⟩ := summaryOf_eq_ok hsummary
  obtain ⟨s, hs, hkey⟩ := exists_firsts RuleSummary.seenKey hs'
  obtain ⟨hsame, heq⟩ := seenKey_eq_iff.mp hkey
  refine ⟨s, hs, hsame.trans hsource, ?_⟩
  rw [heq]
  exact hid

theorem summarizeRule_eq_some {c : RuleSource × RuleFile} {s : RuleSummary}
    (h : summarizeRule rt ops c = .ok (some s)) :
    ∃ d, docOf ops c = some d ∧ d.source = c.1 ∧
      summaryOf rt ops d.source d.name d.data = .ok s := by
  rcases summarizeRule_cases rt ops c with ⟨-, err, herr⟩ | ⟨-, -, hnone⟩ | ⟨-, d, hdoc, hsource, hd⟩
  · rw [herr] at h
    cases h
  · rw [hnone] at h
    cases h
  · refine ⟨d, hdoc, hsource, ?_⟩
    rw [hd] at h
    cases hs : summaryOf rt ops d.source d.name d.data with
    | error err =>
      rw [hs] at h
      cases h
    | ok s' =>
      rw [hs] at h
      cases h
      rfl

/-! ## Where the two agree -/

theorem orderly_of_agrees {store : RuleStore} (h : ListingAgrees rt ops store) :
    store.Orderly rt ops := by
  obtain ⟨out, hout, hagrees⟩ := h
  obtain ⟨hdecoded, all, hall, rfl⟩ := listRules_eq_ok.mp hout
  refine ⟨hdecoded, ?_, ?_, ?_⟩
  · intro d hd
    obtain ⟨s, -, hsummary⟩ := exists_related_right hall hd
    exact (summaryOf_eq_ok hsummary).1
  · intro b hb c hc hbuiltin hcustom heq
    obtain ⟨s, hs, hsource, hid⟩ := exists_listed hall hb
    obtain ⟨s', hs', hsource', hid'⟩ := exists_listed hall hc
    have hsame : s = s' := by
      apply List.inj_on_of_nodup_map hagrees.once
      · exact List.mem_mergeSort.mpr hs
      · exact List.mem_mergeSort.mpr hs'
      · rw [hid, hid'] at heq
        exact Option.some.inj heq
    rw [hsame, hsource', hcustom, hbuiltin] at hsource
    cases hsource
  · intro d id title hfirst htitle
    have hd : d ∈ store.documents ops := List.mem_of_find?_eq_some hfirst
    obtain ⟨s, -, hsummary⟩ := exists_related_right hall hd
    obtain ⟨-, hsource, hid, htext⟩ := summaryOf_eq_ok hsummary
    obtain ⟨-, hfound⟩ : d.source = d.source ∧ d.id rt = some id := by
      simpa using List.find?_some hfirst
    obtain rfl : s.id = id := by
      rw [hid] at hfound
      exact Option.some.inj hfound
    obtain rfl : s.title = title := by
      rw [htext] at htitle
      exact Option.some.inj htitle
    rw [← hsource] at hfirst ⊢
    have hs : s ∈ firsts RuleSummary.seenKey [] all := (listed_iff hall).mpr ⟨d, hfirst, hsummary⟩
    exact shown_iff_finds.mp (hagrees.found s (List.mem_mergeSort.mpr hs))

theorem agrees_of_orderly {store : RuleStore} (h : store.Orderly rt ops) :
    ListingAgrees rt ops store := by
  obtain ⟨all, hall⟩ : ∃ all, Summarized rt ops (store.documents ops) all :=
    exists_related fun d hd => (h.listable d hd).summary
  have hmem : ∀ s ∈ (firsts RuleSummary.seenKey [] all).mergeSort (listedBefore rt),
      s ∈ firsts RuleSummary.seenKey [] all := fun s hs => List.mem_mergeSort.mp hs
  -- a listed rule comes from a mapping of its directory
  have hdoc : ∀ s ∈ firsts RuleSummary.seenKey [] all, ∃ d ∈ store.documents ops,
      d.source = s.source ∧ d.id rt = some s.id := by
    intro s hs
    obtain ⟨d, hfirst, hsummary⟩ := (listed_iff hall).mp hs
    obtain ⟨-, hsource, hid, -⟩ := summaryOf_eq_ok hsummary
    exact ⟨d, List.mem_of_find?_eq_some hfirst, hsource.symm, hid⟩
  have hapart : ∀ s ∈ firsts RuleSummary.seenKey [] all, s.source = .builtin →
      ∀ c ∈ store.documents ops, c.source = .custom → c.id rt ≠ some s.id := by
    intro s hs hbuiltin c hc hcustom heq
    obtain ⟨b, hb, hsource, hid⟩ := hdoc s hs
    apply h.apart b hb c hc (hsource.trans hbuiltin) hcustom
    rw [hid, heq]
  refine ⟨_, listRules_eq_ok.mpr ⟨h.decoded, all, hall, rfl⟩, ?_, ?_, ?_⟩
  · rw [((List.mergeSort_perm _ _).map _).nodup_iff]
    have hkeys := firsts_nodup RuleSummary.seenKey [] all
    refine List.Nodup.map_on ?_ hkeys.of_map
    intro s hs s' hs' hid
    have hsource : s.source = s'.source := by
      obtain ⟨d, hd, hdsource, hdid⟩ := hdoc s hs
      obtain ⟨d', hd', hdsource', hdid'⟩ := hdoc s' hs'
      cases hsource : s.source <;> cases hsource' : s'.source
      case builtin.builtin => rfl
      case custom.custom => rfl
      case builtin.custom =>
        exact absurd (hid ▸ hdid') (hapart s hs hsource d' hd' (hdsource'.trans hsource'))
      case custom.builtin =>
        exact absurd (hid ▸ hdid) (hapart s' hs' hsource' d hd (hdsource.trans hsource))
    exact List.inj_on_of_nodup_map hkeys hs hs' (seenKey_eq_iff.mpr ⟨hsource, hid⟩)
  · intro s hs c hc hcustom s' hs' hid
    obtain ⟨d, hd, hdsource, hsummary⟩ := summarizeRule_eq_some hs'
    obtain ⟨-, -, hdid, -⟩ := summaryOf_eq_ok hsummary
    cases hsource : s.source with
    | custom => rfl
    | builtin =>
      refine absurd ?_ (hapart s (hmem s hs) hsource d (List.mem_filterMap.mpr ⟨c, hc, hd⟩)
        (hdsource.trans hcustom))
      rw [hdid, hid]
  · intro s hs
    obtain ⟨d, hfirst, hsummary⟩ := (listed_iff hall).mp (hmem s hs)
    obtain ⟨-, hsource, -, htitle⟩ := summaryOf_eq_ok hsummary
    rw [hsource] at hfirst ⊢
    exact shown_iff_finds.mpr (h.found d s.id s.title hfirst htitle)

/-- Listing and lookup agree exactly where the files are in order. -/
theorem listing_agrees_iff (rt : Runtime) (ops : StudioOps) (store : RuleStore) :
    ListingAgrees rt ops store ↔ store.Orderly rt ops :=
  ⟨orderly_of_agrees, agrees_of_orderly⟩

end

/-! ## A rule and its override -/

def portScanText : Str :=
  ("title: Port scan\nid: port-scan\ndetection:\n  selection:\n    source: proc_net_tcp\n").toList

def portScanDoc : Json :=
  .obj [("title".toList, .str "Port scan".toList), ("id".toList, .str "port-scan".toList),
    ("detection".toList, .obj [("selection".toList,
      .obj [("source".toList, .str "proc_net_tcp".toList)])])]

/-- A built-in rule, and a custom rule that is to override it. -/
def overridden : RuleStore :=
  let file := (emptyStore.write "port-scan".toList portScanText).custom
  ⟨file, file⟩

theorem gather_overridden : ((gather plainRuntime (yamlOf portScanText portScanDoc)
    overridden.visited []).toOption.map (List.map fun s => (s.source, s.id))) =
      some [(.builtin, "port-scan".toList), (.custom, "port-scan".toList)] := by
  decide +kernel

/-- Both rules are listed. -/
theorem override_listed_beside : (∃ out,
      listRules plainRuntime (yamlOf portScanText portScanDoc) overridden = .ok out ∧
        (out.map fun s => (s.source, s.id)).Perm
          [(.builtin, "port-scan".toList), (.custom, "port-scan".toList)]) ∧
    ¬ ListingAgrees plainRuntime (yamlOf portScanText portScanDoc) overridden := by
  obtain ⟨gathered, hgathered, hkeys⟩ := Option.map_eq_some_iff.mp gather_overridden
  rw [toOption_eq_some] at hgathered
  have hlist : listRules plainRuntime (yamlOf portScanText portScanDoc) overridden =
      .ok (gathered.mergeSort (listedBefore plainRuntime)) := by
    unfold listRules
    rw [hgathered]
    rfl
  have hperm : ((gathered.mergeSort (listedBefore plainRuntime)).map fun s => (s.source, s.id)).Perm
      [(.builtin, "port-scan".toList), (.custom, "port-scan".toList)] := by
    rw [← hkeys]
    exact (List.mergeSort_perm _ _).map _
  refine ⟨⟨_, hlist, hperm⟩, ?_⟩
  rintro ⟨out, hout, hagrees⟩
  rw [hlist] at hout
  cases hout
  have hids : ((gathered.mergeSort (listedBefore plainRuntime)).map RuleSummary.id).Perm
      ["port-scan".toList, "port-scan".toList] := by
    have hseconds := hperm.map Prod.snd
    rw [List.map_map] at hseconds
    exact hseconds
  have honce := hids.nodup_iff.mp hagrees.once
  exact absurd honce (by decide)

end ZaqorinCore.Server
