import ZaqorinCore.Server.Typed

/-!
# Hunting

`run_hunt` of `api/v1/hunt.py` replays one rule over the stored events, "same matching, no alerts".
It reads the row's metadata with their types and adds four fields with an empty text; the live path
reads the texts of the values and adds nothing. `hunt_agrees_when_faithful` says when the two agree.
-/

namespace ZaqorinCore.Server

open Text Base

/-! ## The endpoint -/

/-- The fields that a hunt sets when the row has none. -/
def huntDefaults : List Str :=
  ["source_ip".toList, "user".toList, "url".toList, "status".toList]

/-- `meta.setdefault(key, "")`. -/
def setDefault (metadata : List (Str × Json)) (key : Str) : List (Str × Json) :=
  if (dictGet metadata key).isSome then metadata else metadata ++ [(key, .str [])]

/-- The row as it is stored. -/
def Event.subject (row : Event) : Subject := ⟨row.source, row.raw, row.metadata⟩

/-- The event that a hunt matches. -/
def huntSubject (row : Event) : Subject :=
  { row.subject with metadata := huntDefaults.foldl setDefault row.metadata }

structure HuntFire where
  eventId : Str
  hostId : Str
  occurredAt : Int
  source : Str
  ruleId : Str
  ruleTitle : Str
  count : Int
  dedupKey : Str
  deriving DecidableEq

/-- `rule.render_dedup_key(parsed) or rule.id`. -/
def CompiledSigmaRule.dedup (rt : Runtime) (rule : CompiledSigmaRule) (e : Subject) : Str :=
  if rule.renderDedupKey rt e = [] then rule.id else rule.renderDedupKey rt e

def huntFire (rt : Runtime) (rule : CompiledSigmaRule) (row : Event) : HuntFire :=
  ⟨uuidStr row.id, uuidStr row.hostId, row.occurredAt, row.source, rule.id, rule.title, 1,
    rule.dedup rt (huntSubject row)⟩

def huntRows (rt : Runtime) (rule : CompiledSigmaRule) : List Event → Except PyError (List HuntFire)
  | [] => pure []
  | row :: rows => do
    let matched ← rule.matches_ rt (huntSubject row)
    let fires ← huntRows rt rule rows
    pure (if matched then huntFire rt rule row :: fires else fires)

inductive HuntError
  | invalidRule (e : PyError)
  | notCompiled
  | raised (e : PyError)
  deriving DecidableEq

/-- The rows within the lookback. -/
def scannedRows (db : Db) (now lookbackHours : Int) : List Event :=
  db.events.rows.filter fun row => decide (now - lookbackHours * 3600 ≤ row.occurredAt)

/-- `run_hunt`; `loaded` is the request's rule as it comes back from the temporary file. The result
has the fires and the number of rows. -/
def runHunt (rt : Runtime) (path : Str) (loaded : Loaded) (db : Db) (now lookbackHours : Int) :
    Except HuntError (List HuntFire × Nat) :=
  match parseRuleFile rt path loaded with
  | .error e => .error (.invalidRule e)
  | .ok [] => .error .notCompiled
  | .ok (rule :: _) =>
    match huntRows rt rule (scannedRows db now lookbackHours) with
    | .ok fires => .ok (fires, (scannedRows db now lookbackHours).length)
    | .error e => .error (.raised e)

/-! ## Agreement -/

section Agreement

variable (rt : Runtime) (rule : CompiledSigmaRule)

/-- The response has just the scanned rows that the live path matches, with the live dedup keys. -/
def Agrees (rows : List Event) (response : Except HuntError (List HuntFire × Nat)) : Prop :=
  ∃ fires n, response = .ok (fires, n) ∧ ∀ row ∈ rows,
    ((∃ fire ∈ fires, fire.eventId = uuidStr row.id) ↔
      rule.matches_ rt (row.subject.live rt) = .ok true) ∧
    ∀ fire ∈ fires, fire.eventId = uuidStr row.id →
      fire.dedupKey = rule.dedup rt (row.subject.live rt)

/-- The names of the placeholders of a template, from a position on. -/
def placeholdersFrom : Nat → Str → List Str
  | _, [] => []
  | k + 1, _ :: rest => placeholdersFrom k rest
  | 0, c :: rest =>
    match placeholder (c :: rest) with
    | some name => name :: placeholdersFrom (name.length + 3) rest
    | none => placeholdersFrom 0 rest

/-- What a placeholder is replaced by. -/
def fieldText (e : Subject) (name : Str) : Option Str :=
  (dictGet e.metadata name).map (pyStr rt.reprJson)

/-- A hunt gets through the row and goes the same way as the live path: the required fields are
there on both or missing on both, every entry that is compared answers alike, and on a row that
matches every placeholder is replaced alike. -/
structure SameMatching (row : Event) : Prop where
  returns : ∃ matched, rule.matches_ rt (huntSubject row) = .ok matched
  required : rule.HasRequired (huntSubject row) ↔ rule.HasRequired (row.subject.live rt)
  entries : ∀ f, rule.Compared rt (huntSubject row) f →
    matchEntry rt (huntSubject row) f.1 f.2 = matchEntry rt (row.subject.live rt) f.1 f.2
  placeholders : rule.matches_ rt (row.subject.live rt) = .ok true →
    ∀ name ∈ placeholdersFrom 0 rule.dedupKey,
      fieldText rt (huntSubject row) name = fieldText rt (row.subject.live rt) name

/-- An entry answers differently in a hunt: a field that is missing counts as the empty text, a null
counts as missing and not as the text `None`, and other values have their types. -/
def HuntApart (row : Event) (f : Yaml × Yaml) : Prop :=
  match f.1 with
  | .str key =>
    match dictGet row.metadata key with
    | none => key ∈ huntDefaults ∧ matchValue rt row.subject (.str []) f.2 ≠ .ok false
    | some .null =>
      if key = "source".toList then
        matchValue rt row.subject (.str row.source) f.2 ≠
          matchValue rt row.subject (.str "None".toList) f.2
      else matchValue rt row.subject (.str "None".toList) f.2 ≠ .ok false
    | some v => ToldApart rt v f.2
  | _ => False

/-- What a row must meet: no pattern or filter makes the rule raise on it, no field that it lacks and
that a hunt sets is required, no entry that is compared answers differently, and if it matches no
such field is a placeholder. -/
structure Faithful (row : Event) : Prop where
  returns : ¬ rule.Breaks rt (huntSubject row)
  required : ∀ field ∈ rule.requiredFields, field ∈ huntDefaults → dictGet row.metadata field = none →
    ∃ other ∈ rule.requiredFields, other ∉ huntDefaults ∧ dictGet row.metadata other = none
  entries : ∀ f, rule.Compared rt (huntSubject row) f → ¬ HuntApart rt row f
  placeholders : rule.matches_ rt (row.subject.live rt) = .ok true →
    ∀ name ∈ placeholdersFrom 0 rule.dedupKey, name ∈ huntDefaults → dictGet row.metadata name ≠ none

end Agreement

/-! ## The fields of a row -/

section Fields

variable {rt : Runtime} {rule : CompiledSigmaRule} {row : Event}

theorem dictGet_setDefault (metadata : List (Str × Json)) (k key : Str) :
    dictGet (setDefault metadata k) key =
      (dictGet metadata key).or (if key = k then some (.str []) else none) := by
  unfold setDefault
  by_cases hk : (dictGet metadata k).isSome = true
  · rw [if_pos hk]
    by_cases hkey : key = k
    · subst hkey
      rw [Option.or_of_isSome hk]
    · rw [if_neg hkey, Option.or_none]
  · rw [if_neg hk, dictGet_append]
    congr 1
    by_cases hkey : key = k
    · subst hkey
      simp [dictGet]
    · have hne : ¬ (k == key) = true := by simpa using Ne.symm hkey
      simp [dictGet, hkey, hne]

theorem dictGet_foldl_setDefault (keys : List Str) (metadata : List (Str × Json)) (key : Str) :
    dictGet (keys.foldl setDefault metadata) key =
      (dictGet metadata key).or (if key ∈ keys then some (.str []) else none) := by
  induction keys generalizing metadata with
  | nil => simp
  | cons k keys ih =>
    rw [List.foldl_cons, ih, dictGet_setDefault, Option.or_assoc]
    congr 1
    by_cases hkey : key = k
    · simp [hkey]
    · simp [hkey]

/-- A hunt finds what the row has, and an empty text in the place of the four fields. -/
theorem dictGet_huntSubject (row : Event) (key : Str) :
    dictGet (huntSubject row).metadata key =
      (dictGet row.metadata key).or (if key ∈ huntDefaults then some (.str []) else none) :=
  dictGet_foldl_setDefault huntDefaults row.metadata key

theorem fieldText_live (row : Event) (name : Str) :
    fieldText rt (row.subject.live rt) name = fieldText rt row.subject name := by
  unfold fieldText
  rw [dictGet_live, Option.map_map]
  rfl

/-- Only a placeholder of a field that a hunt sets is replaced differently. -/
theorem fieldText_hunt_iff (row : Event) (name : Str) :
    fieldText rt (huntSubject row) name = fieldText rt (row.subject.live rt) name ↔
      (name ∈ huntDefaults → dictGet row.metadata name ≠ none) := by
  rw [fieldText_live, fieldText, fieldText, dictGet_huntSubject]
  have hrow : row.subject.metadata = row.metadata := rfl
  rw [hrow]
  cases hget : dictGet row.metadata name with
  | some v => simp
  | none => by_cases hmem : name ∈ huntDefaults <;> simp [hmem]

theorem hasRequired_hunt_iff :
    (rule.HasRequired (huntSubject row) ↔ rule.HasRequired (row.subject.live rt)) ↔
      ∀ field ∈ rule.requiredFields, field ∈ huntDefaults → dictGet row.metadata field = none →
        ∃ other ∈ rule.requiredFields,
          other ∉ huntDefaults ∧ dictGet row.metadata other = none := by
  have hhunt : ∀ field, (dictGet (huntSubject row).metadata field).isSome = true ↔
      (dictGet row.metadata field ≠ none ∨ field ∈ huntDefaults) := by
    intro field
    rw [dictGet_huntSubject]
    cases dictGet row.metadata field with
    | some v => simp
    | none => by_cases hmem : field ∈ huntDefaults <;> simp [hmem]
  have hlive : ∀ field, (dictGet row.subject.metadata field).isSome = true ↔
      dictGet row.metadata field ≠ none := fun field => Option.isSome_iff_ne_none
  rw [hasRequired_live]
  unfold CompiledSigmaRule.HasRequired
  simp only [hhunt, hlive]
  constructor
  · intro hiff field hfield hdefault hnone
    by_contra hothers
    have hall : ∀ other ∈ rule.requiredFields,
        dictGet row.metadata other ≠ none ∨ other ∈ huntDefaults := by
      intro other hother
      by_contra hmissing
      exact hothers ⟨other, hother, fun h => hmissing (Or.inr h), by
        by_contra h
        exact hmissing (Or.inl h)⟩
    exact hiff.mp hall field hfield hnone
  · intro hcond
    constructor
    · intro hall field hfield hnone
      rcases hall field hfield with hsome | hdefault
      · exact hsome hnone
      · obtain ⟨other, hother, hnot, hothernone⟩ := hcond field hfield hdefault hnone
        rcases hall other hother with h | h
        · exact h hothernone
        · exact hnot h
    · intro hall field hfield
      exact Or.inl (hall field hfield)

/-- An entry on a field with a value. -/
theorem matchEntry_of_some {e : Subject} {key : Str} {v : Json}
    (hget : dictGet e.metadata key = some v)
    (hv : v ≠ .null) (x : Yaml) : matchEntry rt e (.str key) x = matchValue rt e v x := by
  have hactual : actualOf e (.str key) = some v := by
    cases v with
    | null => exact absurd rfl hv
    | _ => simp only [actualOf, hget]
  rw [matchEntry_eq, hactual]

/-- An entry on a field that is missing or null. -/
theorem matchEntry_of_missing {e : Subject} {key : Str}
    (hget : dictGet e.metadata key = none ∨ dictGet e.metadata key = some .null) (x : Yaml) :
    matchEntry rt e (.str key) x =
      if key = "source".toList then matchValue rt e (.str e.source) x else .ok false := by
  have hactual : actualOf e (.str key) =
      if key = "source".toList then some (.str e.source) else none := by
    rcases hget with hget | hget <;> simp only [actualOf, hget]
  rw [matchEntry_eq, hactual]
  by_cases hkey : key = "source".toList
  · rw [if_pos hkey, if_pos hkey]
  · rw [if_neg hkey, if_neg hkey]

theorem source_not_default : "source".toList ∉ huntDefaults := by decide

theorem matchEntry_hunt_iff (f : Yaml × Yaml) :
    matchEntry rt (huntSubject row) f.1 f.2 = matchEntry rt (row.subject.live rt) f.1 f.2 ↔
      ¬ HuntApart rt row f := by
  obtain ⟨key, x⟩ := f
  have hraw : ∀ v, matchValue rt (huntSubject row) v x = matchValue rt row.subject v x :=
    fun v => matchValue_raw rfl v x
  have hrawlive : ∀ v, matchValue rt (row.subject.live rt) v x = matchValue rt row.subject v x :=
    fun v => matchValue_raw rfl v x
  cases key with
  | str key =>
    have hhunt := dictGet_huntSubject row key
    have hlive := dictGet_live rt row.subject key
    have hrow : row.subject.metadata = row.metadata := rfl
    rw [hrow] at hlive
    simp only [HuntApart]
    cases hget : dictGet row.metadata key with
    | none =>
      rw [hget] at hhunt hlive
      rw [matchEntry_of_missing (Or.inl hlive)]
      by_cases hdefault : key ∈ huntDefaults
      · -- the hunt compares the empty text
        have hkey : key ≠ "source".toList := fun h => source_not_default (h ▸ hdefault)
        rw [if_pos hdefault] at hhunt
        rw [matchEntry_of_some hhunt nofun, if_neg hkey, hraw]
        simp [hdefault]
      · rw [if_neg hdefault] at hhunt
        rw [matchEntry_of_missing (Or.inl hhunt)]
        refine iff_of_true ?_ fun h => hdefault h.1
        rw [hraw, hrawlive]
        rfl
    | some v =>
      rw [hget] at hhunt hlive
      by_cases hv : v = .null
      · subst hv
        have htext : matchEntry rt (row.subject.live rt) (.str key) x =
            matchValue rt row.subject (.str "None".toList) x := by
          rw [matchEntry_of_some hlive nofun, hrawlive]
          rfl
        rw [matchEntry_of_missing (Or.inr hhunt), htext]
        by_cases hkey : key = "source".toList
        · simp only [if_pos hkey]
          rw [hraw, not_not]
          exact Iff.rfl
        · simp only [if_neg hkey]
          rw [not_not]
          exact eq_comm
      · rw [matchEntry_of_some hhunt hv, matchEntry_of_some hlive nofun, hraw, hrawlive,
          matchValue_text_iff hv]
        cases v with
        | null => exact absurd rfl hv
        | _ => exact Iff.rfl
  | _ => exact iff_of_true rfl id

theorem interpolateFrom_congr {value value' : Str → Option Str} {k : Nat} {template : Str}
    (h : ∀ name ∈ placeholdersFrom k template, value name = value' name) :
    interpolateFrom value k template = interpolateFrom value' k template := by
  induction template generalizing k with
  | nil => cases k <;> rfl
  | cons c rest ih =>
    cases k with
    | succ k =>
      simp only [placeholdersFrom] at h
      simp only [interpolateFrom]
      exact ih h
    | zero =>
      simp only [placeholdersFrom] at h
      simp only [interpolateFrom]
      cases hname : placeholder (c :: rest) with
      | none =>
        rw [hname] at h
        simp only
        rw [ih h]
      | some name =>
        rw [hname] at h
        simp only
        rw [h name List.mem_cons_self, ih fun n hn => h n (List.mem_cons_of_mem _ hn)]

/-- Events whose placeholders are replaced alike have one dedup key. -/
theorem dedup_congr {e e' : Subject} (h : ∀ name ∈ placeholdersFrom 0 rule.dedupKey,
    fieldText rt e name = fieldText rt e' name) : rule.dedup rt e = rule.dedup rt e' := by
  have hkey : interpolate rt rule.dedupKey e.metadata = interpolate rt rule.dedupKey e'.metadata :=
    interpolateFrom_congr h
  unfold CompiledSigmaRule.dedup CompiledSigmaRule.renderDedupKey
  rw [hkey]

end Fields

/-! ## The rows of a hunt -/

/-- A hunt returns when the rule raises on no row; its fires are those of the rows it matches. -/
theorem huntRows_spec (rt : Runtime) (rule : CompiledSigmaRule) (rows : List Event) :
    ((∃ fires, huntRows rt rule rows = .ok fires) ↔
        ∀ row ∈ rows, ¬ rule.Breaks rt (huntSubject row)) ∧
      ∀ fires, huntRows rt rule rows = .ok fires → ∀ fire, fire ∈ fires ↔
        ∃ row ∈ rows, rule.matches_ rt (huntSubject row) = .ok true ∧
          fire = huntFire rt rule row := by
  induction rows with
  | nil =>
    refine ⟨iff_of_true ⟨[], rfl⟩ (by simp), ?_⟩
    rintro fires ⟨⟩ fire
    simp
  | cons row rows ih =>
    obtain ⟨hreturns, hfires⟩ := ih
    cases hmatch : rule.matches_ rt (huntSubject row) with
    | error err =>
      have hraise : huntRows rt rule (row :: rows) = .error err := by
        rw [huntRows, hmatch]
        rfl
      have hbreaks := (CompiledSigmaRule.matches_raises_iff rt).mp ⟨err, hmatch⟩
      rw [hraise]
      exact ⟨iff_of_false (fun ⟨fires, h⟩ => nomatch h) fun h => h row List.mem_cons_self hbreaks,
        nofun⟩
    | ok b =>
      have hstep : huntRows rt rule (row :: rows) = (huntRows rt rule rows).map fun fires =>
          if b then huntFire rt rule row :: fires else fires := by
        rw [huntRows, hmatch]
        cases huntRows rt rule rows <;> rfl
      have hrow : ¬ rule.Breaks rt (huntSubject row) := by
        intro hbreaks
        obtain ⟨err, herr⟩ := (CompiledSigmaRule.matches_raises_iff rt).mpr hbreaks
        cases hmatch.symm.trans herr
      rw [hstep]
      constructor
      · rw [List.forall_mem_cons, ← hreturns]
        constructor
        · intro h
          obtain ⟨fires, h⟩ := h
          cases hrest : huntRows rt rule rows with
          | ok rest => exact ⟨hrow, rest, rfl⟩
          | error err =>
            rw [hrest] at h
            cases h
        · intro h
          obtain ⟨-, rest, hrest⟩ := h
          rw [hrest]
          exact ⟨_, rfl⟩
      · intro fires h fire
        cases hrest : huntRows rt rule rows with
        | error err =>
          rw [hrest] at h
          cases h
        | ok rest =>
          rw [hrest] at h
          cases h
          have hmem := hfires rest hrest fire
          cases b with
          | true => simp [hmem, hmatch]
          | false => simp [hmem, hmatch]

/-! ## When the paths agree -/

theorem not_breaks_iff {rt : Runtime} {rule : CompiledSigmaRule} {e : Subject} :
    ¬ rule.Breaks rt e ↔ ∃ matched, rule.matches_ rt e = .ok matched := by
  rw [← CompiledSigmaRule.matches_raises_iff rt]
  constructor
  · exact ok_of_not_raises
  · rintro ⟨matched, hmatched⟩ ⟨err, herr⟩
    cases hmatched.symm.trans herr

/-- A row meets the condition exactly when nothing goes another way in a hunt. -/
theorem faithful_iff {rt : Runtime} {rule : CompiledSigmaRule} {row : Event} :
    Faithful rt rule row ↔ SameMatching rt rule row := by
  constructor
  · intro h
    refine ⟨not_breaks_iff.mp h.returns, hasRequired_hunt_iff.mpr h.required, ?_, ?_⟩
    · intro f hf
      exact (matchEntry_hunt_iff f).mpr (h.entries f hf)
    · intro hmatched name hname
      exact (fieldText_hunt_iff row name).mpr (h.placeholders hmatched name hname)
  · intro h
    refine ⟨not_breaks_iff.mpr h.returns, hasRequired_hunt_iff.mp h.required, ?_, ?_⟩
    · intro f hf
      exact (matchEntry_hunt_iff f).mp (h.entries f hf)
    · intro hmatched name hname
      exact (fieldText_hunt_iff row name).mp (h.placeholders hmatched name hname)

/-- A hunt agrees with the live path when every row that it scans meets the condition; and the
condition leaves out no row but those on which something goes another way. -/
theorem hunt_agrees_when_faithful (rt : Runtime) (path : Str) (loaded : Loaded)
    (rule : CompiledSigmaRule) (more : List CompiledSigmaRule)
    (hrule : parseRuleFile rt path loaded = .ok (rule :: more)) (db : Db) (now lookbackHours : Int) :
    ((∀ row ∈ scannedRows db now lookbackHours, Faithful rt rule row) →
      Agrees rt rule (scannedRows db now lookbackHours)
        (runHunt rt path loaded db now lookbackHours)) ∧
    ∀ row, ¬ Faithful rt rule row → ¬ SameMatching rt rule row := by
  refine ⟨fun h => ?_, fun row hrow hsame => hrow (faithful_iff.mpr hsame)⟩
  obtain ⟨hreturns, hfires⟩ := huntRows_spec rt rule (scannedRows db now lookbackHours)
  have hsame : ∀ row ∈ scannedRows db now lookbackHours, SameMatching rt rule row :=
    fun row hrow => faithful_iff.mp (h row hrow)
  obtain ⟨fires, hrows⟩ := hreturns.mpr fun row hrow => (h row hrow).returns
  refine ⟨fires, (scannedRows db now lookbackHours).length, ?_, ?_⟩
  · rw [runHunt, hrule]
    dsimp only
    rw [hrows]
  intro row hrow
  have hmatch := matches_of_entries (hsame row hrow).required (hsame row hrow).entries
  -- a fire with the row's id is the row's
  have hid : ∀ fire ∈ fires, fire.eventId = uuidStr row.id →
      rule.matches_ rt (huntSubject row) = .ok true ∧ fire = huntFire rt rule row := by
    intro fire hfire heq
    obtain ⟨other, hother, hmatched, rfl⟩ := (hfires fires hrows fire).mp hfire
    have hsameid : other.id = row.id := uuidStr_injective heq
    have hsamerow : other = row := by
      have hfind := Table.find_of_mem (List.mem_filter.mp hother).1
      rw [hsameid, Table.find_of_mem (List.mem_filter.mp hrow).1] at hfind
      exact (Option.some.inj hfind).symm
    subst hsamerow
    exact ⟨hmatched, rfl⟩
  constructor
  · constructor
    · rintro ⟨fire, hfire, heq⟩
      rw [← hmatch]
      exact (hid fire hfire heq).1
    · intro hlive
      rw [← hmatch] at hlive
      exact ⟨_, (hfires fires hrows _).mpr ⟨row, hrow, hlive, rfl⟩, rfl⟩
  · intro fire hfire heq
    obtain ⟨hmatched, rfl⟩ := hid fire hfire heq
    rw [hmatch] at hmatched
    exact dedup_congr ((hsame row hrow).placeholders hmatched)

/-- A rule with one selected field, and the user as its dedup key. -/
def huntYaml (key : String) (value : Yaml) : Yaml :=
  .map [(.ofString "id", .ofString "r"), (.ofString "dedup_key", .ofString "\x7b\x7buser\x7d\x7d"),
    (.ofString "detection", .map [(.ofString "selection", .map [(.ofString key, value)])])]

/-- A stored event with these metadata. -/
def huntRow (metadata : List (Str × Json)) : Event :=
  ⟨3#128, 7#128, "1.0".toList, 1767323045, "sshd".toList, "Failed password".toList, metadata⟩

def huntDb (metadata : List (Str × Json)) : Db :=
  ⟨Table.empty, ⟨[huntRow metadata], List.nodup_singleton _⟩, Table.empty⟩

/-- A hunt reports an event whose code is the number of the rule; on the live path the text of the
number does not match. -/
theorem hunt_reports_unmatched :
    ∃ rule, parseRuleFile plainRuntime "hunt.yml".toList (.data (huntYaml "code" (.int 401))) =
        .ok [rule] ∧
      rule.matches_ plainRuntime ((huntRow [("code".toList, .int 401)]).subject.live plainRuntime) =
        .ok false ∧
      runHunt plainRuntime "hunt.yml".toList (.data (huntYaml "code" (.int 401)))
          (huntDb [("code".toList, .int 401)]) 1767323100 1 =
        .ok ([⟨uuidStr 3#128, uuidStr 7#128, 1767323045, "sshd".toList, "r".toList, "r".toList, 1,
          "r".toList⟩], 1) ∧
      ¬ Agrees plainRuntime rule (scannedRows (huntDb [("code".toList, .int 401)]) 1767323100 1)
        (runHunt plainRuntime "hunt.yml".toList (.data (huntYaml "code" (.int 401)))
          (huntDb [("code".toList, .int 401)]) 1767323100 1) := by
  have hresponse : runHunt plainRuntime "hunt.yml".toList (.data (huntYaml "code" (.int 401)))
      (huntDb [("code".toList, .int 401)]) 1767323100 1 =
      .ok ([⟨uuidStr 3#128, uuidStr 7#128, 1767323045, "sshd".toList, "r".toList, "r".toList, 1,
        "r".toList⟩], 1) := by decide +kernel
  rw [hresponse]
  refine ⟨_, rfl, by decide +kernel, rfl, ?_⟩
  intro hagrees
  obtain ⟨fires, n, hok, hrows⟩ := hagrees
  cases hok
  have hrow : huntRow [("code".toList, .int 401)] ∈
      scannedRows (huntDb [("code".toList, .int 401)]) 1767323100 1 :=
    List.mem_filter.mpr ⟨List.mem_cons_self, rfl⟩
  have hmatch := (hrows _ hrow).1.mp ⟨_, List.mem_cons_self, rfl⟩
  exact absurd hmatch (by decide +kernel)

/-- A login without a user is matched on both paths, with two dedup keys. -/
example :
    ∃ rule, parseRuleFile plainRuntime "hunt.yml".toList
        (.data (huntYaml "kind" (.ofString "login"))) = .ok [rule] ∧
      rule.matches_ plainRuntime
        ((huntRow [("kind".toList, .str "login".toList)]).subject.live plainRuntime) = .ok true ∧
      rule.dedup plainRuntime (huntSubject (huntRow [("kind".toList, .str "login".toList)])) =
        "r".toList ∧
      rule.dedup plainRuntime
        ((huntRow [("kind".toList, .str "login".toList)]).subject.live plainRuntime) =
        "\x7b\x7buser\x7d\x7d".toList :=
  ⟨_, rfl, by decide +kernel, by decide +kernel, by decide +kernel⟩

/-- A login of a user. -/
def loginRow : List (Str × Json) :=
  [("kind".toList, .str "login".toList), ("user".toList, .str "ada".toList)]

theorem login_faithful {rule : CompiledSigmaRule}
    (hrule : parseRuleFile plainRuntime "hunt.yml".toList
      (.data (huntYaml "kind" (.ofString "login"))) = .ok [rule]) :
    Faithful plainRuntime rule (huntRow loginRow) := by
  cases hrule
  refine ⟨not_breaks_iff.mpr ⟨true, rfl⟩, nofun, ?_, ?_⟩
  · rintro f ⟨fields, ⟨-, stages, final, hplan, hreaches⟩, hcompares⟩
    -- the only block has the one entry
    cases hplan
    obtain ⟨stage, hstage, hblock⟩ := reaches_mem hreaches
    obtain rfl := List.mem_singleton.mp hstage
    cases hblock
    obtain ⟨entry, hentry, rfl⟩ := reaches_mem hcompares
    obtain rfl := List.mem_singleton.mp hentry
    exact (matchEntry_hunt_iff _).mp rfl
  · intro _ name hname
    have hnames : placeholdersFrom 0 "\x7b\x7buser\x7d\x7d".toList = ["user".toList] := rfl
    obtain rfl := List.mem_singleton.mp (hnames ▸ hname)
    intro _
    decide

theorem hunt_agrees_login :
    ∃ rule, parseRuleFile plainRuntime "hunt.yml".toList
        (.data (huntYaml "kind" (.ofString "login"))) = .ok [rule] ∧
      Agrees plainRuntime rule (scannedRows (huntDb loginRow) 1767323100 1)
        (runHunt plainRuntime "hunt.yml".toList (.data (huntYaml "kind" (.ofString "login")))
          (huntDb loginRow) 1767323100 1) := by
  refine ⟨_, rfl, (hunt_agrees_when_faithful plainRuntime "hunt.yml".toList
    (.data (huntYaml "kind" (.ofString "login"))) _ [] rfl (huntDb loginRow) 1767323100 1).1 ?_⟩
  intro row hrow
  obtain rfl : row = huntRow loginRow := List.mem_singleton.mp (List.mem_of_mem_filter hrow)
  exact login_faithful rfl

end ZaqorinCore.Server
