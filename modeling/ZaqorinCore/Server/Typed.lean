import ZaqorinCore.Server.Loader
import ZaqorinCore.Server.Matching

/-!
# Values and their texts

On the live path `_load_event_payload` has turned the values of an event into texts; in the store
they have their types. The matcher looks at the type of the rule's value, so that a value and its
text can answer differently: `ToldApart` says when, for every pair of types. `typed_alike_iff`
carries this to the rules, whose entries are compared one after the other.
-/

namespace ZaqorinCore.Server

open Text Base

/-! ## One value -/

/-- The comparison of `_match_selection` once a value has been found. -/
def matchValue (rt : Runtime) (e : Subject) (actual : Json) : Yaml → Except PyError Bool
  | .seq items => pure (pyIn actual items)
  | .str s => matchText rt e actual s
  | v => pure (pyEq actual v)

theorem matchEntry_eq (rt : Runtime) (e : Subject) (key expected : Yaml) :
    matchEntry rt e key expected = match actualOf e key with
      | none => .ok false
      | some actual => matchValue rt e actual expected := by
  unfold matchEntry matchValue
  cases actualOf e key with
  | none => rfl
  | some actual => cases expected <;> rfl

/-- Only the raw text of the event is looked at besides the value. -/
theorem matchValue_raw {rt : Runtime} {e e' : Subject} (h : e.raw = e'.raw) (actual : Json)
    (expected : Yaml) : matchValue rt e actual expected = matchValue rt e' actual expected := by
  cases expected with
  | str s => simp only [matchValue, matchText, h]
  | _ => rfl

/-- The number is on the modifier's side of the literal. -/
def Modifier.bounds (m : Modifier) (literal : Str) (x : Double) : Bool :=
  (pyFloat literal).any fun y =>
    match m with
    | .ge => x.ge y
    | .lt => x.lt y
    | _ => false

/-- The bounds `ge` and `lt`, which convert the value with `float`. -/
def Modifier.numeric : Modifier → Bool
  | .ge | .lt => true
  | _ => false

/-- `float` gives another answer for the value than for its text: a boolean is a number and its text
is none, the text of a list may be a number, and an integer can be too large. -/
def BoundApart (rt : Runtime) (v : Json) (m : Modifier) (literal : Str) : Prop :=
  match v with
  | .bool b => m.bounds literal (.fin (if b then 1 else 0)) = true
  | .int n => floatOfInt n = none
  | .arr _ | .obj _ => (pyFloat (pyStr rt.reprJson v)).any (m.bounds literal) = true
  | _ => False

/-- A value that is not null answers differently from its text. -/
def ToldApart (rt : Runtime) (v : Json) : Yaml → Prop
  | .seq items => pyIn v items ≠ pyIn (.str (pyStr rt.reprJson v)) items
  | .str s => ∃ m literal, modifierOf s = some (m, literal) ∧ m.numeric = true ∧
      BoundApart rt v m literal
  | x => pyEq v x = true

theorem matchModifier_eq (rt : Runtime) (v : Json) (literal : Str) {m : Modifier}
    (hm : m.numeric = true) :
    matchModifier rt v literal m = v.toFloat.map fun x => x.any (m.bounds literal) := by
  have hbind : ∀ f : Option Double → Bool,
      (do let x ← v.toFloat; pure (f x) : Except PyError Bool) = v.toFloat.map f := by
    intro f
    cases v.toFloat <;> rfl
  cases m with
  | startswith => cases hm
  | endswith => cases hm
  | ge => exact hbind _
  | lt => exact hbind _

/-- No text is both a boolean's and a number. -/
theorem pyFloat_bool (rt : Runtime) (b : Bool) : pyFloat (pyStr rt.reprJson (.bool b)) = none := by
  cases b with
  | false =>
    show pyFloat "False".toList = none
    decide +kernel
  | true =>
    show pyFloat "True".toList = none
    decide +kernel

theorem matchModifier_text_iff {rt : Runtime} {v : Json} (hv : v ≠ .null) (literal : Str)
    {m : Modifier} (hm : m.numeric = true) :
    matchModifier rt v literal m = matchModifier rt (.str (pyStr rt.reprJson v)) literal m ↔
      ¬ BoundApart rt v m literal := by
  rw [matchModifier_eq rt _ _ hm, matchModifier_eq rt _ _ hm]
  have htext : (Json.str (pyStr rt.reprJson v)).toFloat = .ok (pyFloat (pyStr rt.reprJson v)) := rfl
  rw [htext]
  cases v with
  | null => exact absurd rfl hv
  | bool b =>
    have hfloat : (Json.bool b).toFloat = .ok (some (.fin (if b then 1 else 0))) := rfl
    rw [pyFloat_bool, hfloat, BoundApart]
    generalize Double.fin (if b then 1 else 0) = x
    show (Except.ok (m.bounds literal x) : Except PyError Bool) = .ok false ↔ _
    cases m.bounds literal x <;> simp
  | int n =>
    rw [BoundApart]
    rcases Option.eq_none_or_eq_some (floatOfInt n) with hn | ⟨x, hn⟩
    · have hfloat : (Json.int n).toFloat = .error .overflowError := by
        rw [Json.toFloat_int, hn]
        rfl
      rw [hfloat, hn]
      exact iff_of_false (fun h => by cases h) fun h => h rfl
    · have hfloat : (Json.int n).toFloat = .ok (some x) := by
        rw [Json.toFloat_int, hn]
        rfl
      have htext : pyFloat (pyStr rt.reprJson (.int n)) = some x := pyFloat_of_floatOfInt hn
      rw [hfloat, hn, htext]
      exact iff_of_true rfl fun h => by cases h
  | float text => exact iff_of_true rfl id
  | str text => exact iff_of_true rfl id
  | arr items =>
    have hfloat : (Json.arr items).toFloat = .ok none := rfl
    rw [hfloat, BoundApart]
    generalize pyFloat (pyStr rt.reprJson (.arr items)) = x
    show (Except.ok false : Except PyError Bool) = .ok (x.any (m.bounds literal)) ↔ _
    cases x.any (m.bounds literal) <;> simp
  | obj fields =>
    have hfloat : (Json.obj fields).toFloat = .ok none := rfl
    rw [hfloat, BoundApart]
    generalize pyFloat (pyStr rt.reprJson (.obj fields)) = x
    show (Except.ok false : Except PyError Bool) = .ok (x.any (m.bounds literal)) ↔ _
    cases x.any (m.bounds literal) <;> simp

/-- Everywhere but at a bound, the matcher takes the text of the value itself. -/
theorem matchText_text {rt : Runtime} {e : Subject} {v : Json} {s : Str}
    (h : ∀ m literal, modifierOf s = some (m, literal) → m.numeric = false) :
    matchText rt e v s = matchText rt e (.str (pyStr rt.reprJson v)) s := by
  unfold matchText
  cases hs : modifierOf s with
  | none => rfl
  | some p =>
    obtain ⟨m, literal⟩ := p
    have hm := h m literal hs
    cases m with
    | startswith => rfl
    | endswith => rfl
    | ge => cases hm
    | lt => cases hm

theorem matchText_text_iff {rt : Runtime} {e : Subject} {v : Json} (hv : v ≠ .null) (s : Str) :
    matchText rt e v s = matchText rt e (.str (pyStr rt.reprJson v)) s ↔
      ¬ ToldApart rt v (.str s) := by
  by_cases h : ∃ m literal, modifierOf s = some (m, literal) ∧ m.numeric = true
  · obtain ⟨m, literal, hs, hm⟩ := h
    have hiff : matchModifier rt v literal m = matchModifier rt (.str (pyStr rt.reprJson v)) literal m ↔
        ¬ BoundApart rt v m literal := matchModifier_text_iff hv literal hm
    unfold matchText ToldApart
    simp only [hs]
    rw [hiff]
    constructor
    · intro hapart hex
      obtain ⟨m', literal', heq, -, hbound⟩ := hex
      cases heq
      exact hapart hbound
    · intro hapart hbound
      exact hapart ⟨m, literal, rfl, hm, hbound⟩
  · refine iff_of_true (matchText_text ?_) ?_
    · intro m literal hs
      by_contra hm
      exact h ⟨m, literal, hs, by simpa using hm⟩
    · intro hapart
      obtain ⟨m, literal, hs, hm, -⟩ := hapart
      exact h ⟨m, literal, hs, hm⟩

/-- A text is equal to a text only. -/
theorem pyEq_text {t : Str} {x : Yaml} (h : ∀ s, x ≠ .str s) : pyEq (.str t) x = false := by
  cases x with
  | str s => exact absurd rfl (h s)
  | _ => simp [pyEq, Yaml.isKey]

theorem matchValue_text_iff {rt : Runtime} {e : Subject} {v : Json} (hv : v ≠ .null) (x : Yaml) :
    matchValue rt e v x = matchValue rt e (.str (pyStr rt.reprJson v)) x ↔ ¬ ToldApart rt v x := by
  have hother : (∀ s, x ≠ .str s) →
      ((pure (pyEq v x) : Except PyError Bool) = pure (pyEq (.str (pyStr rt.reprJson v)) x) ↔
        ¬ pyEq v x = true) := by
    intro hx
    rw [pyEq_text hx]
    simp [pure, Except.pure]
  cases x with
  | seq items => simp [matchValue, ToldApart, pure, Except.pure]
  | str s => exact matchText_text_iff hv s
  | _ => exact hother nofun

/-! ## One event -/

/-- The event as the live path has it: its values are texts. -/
def Subject.live (rt : Runtime) (e : Subject) : Subject :=
  { e with metadata := e.metadata.map fun m => (m.1, .str (pyStr rt.reprJson m.2)) }

theorem dictGet_live (rt : Runtime) (e : Subject) (key : Str) :
    dictGet (e.live rt).metadata key =
      (dictGet e.metadata key).map fun v => .str (pyStr rt.reprJson v) :=
  dictGet_map (fun v => Json.str (pyStr rt.reprJson v)) e.metadata key

/-- The live event of a row, read with the fields of its entry in the stream. -/
theorem live_eventOf {ρ : Type} {rt : Runtime} {env : SigmaEnv ρ} {parsed : ParsedEvent}
    {row : Event} (hrepr : env.repr = rt.reprJson) (hsource : parsed.source = row.source) :
    (eventOf env parsed row).subject = Subject.live rt ⟨row.source, row.raw, row.metadata⟩ := by
  simp only [eventOf, ParsedEvent.subject, Subject.live, hrepr, hsource, List.map_map]
  rfl

theorem hasRequired_live (rt : Runtime) (rule : CompiledSigmaRule) (e : Subject) :
    rule.HasRequired (e.live rt) ↔ rule.HasRequired e := by
  unfold CompiledSigmaRule.HasRequired
  simp only [dictGet_live, Option.isSome_map]

/-- The entry is compared when the rule is matched with the event. -/
def CompiledSigmaRule.Compared (rt : Runtime) (rule : CompiledSigmaRule) (e : Subject)
    (f : Yaml × Yaml) : Prop :=
  ∃ fields, rule.Asks rt e (.map fields) ∧ Compares rt e fields f

/-- Two events that have the same required fields and on which the entries that are compared answer
alike are matched alike. -/
theorem matches_of_entries {rt : Runtime} {rule : CompiledSigmaRule} {e e' : Subject}
    (hreq : rule.HasRequired e ↔ rule.HasRequired e')
    (h : ∀ f, rule.Compared rt e f → matchEntry rt e f.1 f.2 = matchEntry rt e' f.1 f.2) :
    rule.matches_ rt e = rule.matches_ rt e' := by
  apply CompiledSigmaRule.matches_congr rt hreq
  intro block hasks
  apply matchSelection_congr
  intro fields hblock f hcompares
  subst hblock
  exact h f ⟨fields, hasks, hcompares⟩

/-- The entry answers differently for the event's value and for the text of it. -/
def Subject.TellsApart (rt : Runtime) (e : Subject) (f : Yaml × Yaml) : Prop :=
  ∃ v, actualOf e f.1 = some v ∧ ToldApart rt v f.2

/-- A text, an integer or a boolean. -/
def Json.isScalar : Json → Bool
  | .str _ | .int _ | .bool _ => true
  | _ => false

theorem Json.ne_null_of_isScalar {v : Json} (h : v.isScalar = true) : v ≠ .null := by
  intro hnull
  rw [hnull] at h
  cases h

theorem isScalar_of_dictGet {fields : List (Str × Json)}
    (h : ∀ m ∈ fields, m.2.isScalar = true) {key : Str} {v : Json}
    (hget : dictGet fields key = some v) : v.isScalar = true := by
  obtain ⟨m, hfind, rfl⟩ := Option.map_eq_some_iff.mp hget
  exact h m (List.mem_of_find?_eq_some hfind)

/-- The value of an entry's key is a scalar, and on the live path it is its text. -/
theorem actualOf_live (rt : Runtime) {e : Subject} (h : ∀ m ∈ e.metadata, m.2.isScalar = true)
    (key : Yaml) :
    actualOf (e.live rt) key = (actualOf e key).map (fun v => .str (pyStr rt.reprJson v)) ∧
      ∀ v, actualOf e key = some v → v ≠ .null := by
  cases key with
  | str key =>
    -- a key that is missing is the event's source or nothing, on both sides
    have hmissing : ∀ e' : Subject, dictGet e'.metadata key = none → actualOf e' (.str key) =
        if key = "source".toList then some (.str e'.source) else none := by
      intro e' hnone
      simp only [actualOf, hnone]
    cases hget : dictGet e.metadata key with
    | none =>
      have hlive : dictGet (e.live rt).metadata key = none := by
        rw [dictGet_live, hget]
        rfl
      rw [hmissing e hget, hmissing _ hlive]
      by_cases hkey : key = "source".toList
      · rw [if_pos hkey, if_pos hkey]
        refine ⟨rfl, ?_⟩
        rintro v ⟨⟩
        exact nofun
      · rw [if_neg hkey, if_neg hkey]
        exact ⟨rfl, nofun⟩
    | some v =>
      have hv := Json.ne_null_of_isScalar (isScalar_of_dictGet h hget)
      have hlive : dictGet (e.live rt).metadata key = some (.str (pyStr rt.reprJson v)) := by
        rw [dictGet_live, hget]
        rfl
      have hactual : actualOf e (.str key) = some v := by
        cases v with
        | null => exact absurd rfl hv
        | _ => simp only [actualOf, hget]
      rw [hactual]
      constructor
      · simp only [actualOf, hlive]
        rfl
      · rintro w ⟨⟩
        exact hv
  | _ => exact ⟨rfl, nofun⟩

theorem matchEntry_live_iff {rt : Runtime} {e : Subject}
    (h : ∀ m ∈ e.metadata, m.2.isScalar = true) (f : Yaml × Yaml) :
    matchEntry rt e f.1 f.2 = matchEntry rt (e.live rt) f.1 f.2 ↔ ¬ e.TellsApart rt f := by
  obtain ⟨hlive, hnull⟩ := actualOf_live rt h f.1
  rw [matchEntry_eq, matchEntry_eq, hlive]
  cases hactual : actualOf e f.1 with
  | none =>
    refine iff_of_true rfl ?_
    intro hapart
    obtain ⟨v, hv, -⟩ := hapart
    cases hactual.symm.trans hv
  | some v =>
    rw [Option.map_some]
    dsimp only
    have hraw : (e.live rt).raw = e.raw := rfl
    rw [matchValue_raw hraw, matchValue_text_iff (hnull v hactual)]
    apply not_congr
    constructor
    · intro hapart
      exact ⟨v, hactual, hapart⟩
    · intro hapart
      obtain ⟨w, hw, hapart⟩ := hapart
      cases hactual.symm.trans hw
      exact hapart

/-! ## Rules -/

/-- A rule treats the values of an event as it treats their texts: it matches the one as the other,
and every entry that is compared selects the one as the other. -/
def TreatedAlike (rt : Runtime) (rule : CompiledSigmaRule) (e : Subject) : Prop :=
  rule.matches_ rt e = rule.matches_ rt (e.live rt) ∧
    ∀ f, rule.Compared rt e f → matchEntry rt e f.1 f.2 = matchEntry rt (e.live rt) f.1 f.2

/-- Scalar values keep their meaning as texts exactly when no entry that is compared tells them
apart. -/
theorem typed_alike_iff (rt : Runtime) (rule : CompiledSigmaRule) (e : Subject)
    (h : ∀ m ∈ e.metadata, m.2.isScalar = true) :
    TreatedAlike rt rule e ↔ ∀ f, rule.Compared rt e f → ¬ e.TellsApart rt f := by
  constructor
  · intro halike f hcompared
    exact (matchEntry_live_iff h f).mp (halike.2 f hcompared)
  · intro hnone
    have hentries : ∀ f, rule.Compared rt e f →
        matchEntry rt e f.1 f.2 = matchEntry rt (e.live rt) f.1 f.2 :=
      fun f hcompared => (matchEntry_live_iff h f).mpr (hnone f hcompared)
    exact ⟨matches_of_entries (hasRequired_live rt rule e).symm hentries, hentries⟩

/-- The detection of the rule `T1110_003_ingest_bruteforce`. -/
def ingestYaml : Yaml :=
  .map [(.ofString "id", .ofString "3681cf70-c024-4a9f-9d1d-cb087dedccfa"),
    (.ofString "level", .ofString "high"),
    (.ofString "detection", .map [
      (.ofString "selection", .map [(.ofString "event_type", .ofString "http.request"),
        (.ofString "route", .ofString "|startswith: /api/v1/ingest/"),
        (.ofString "status", .seq [.int 401, .int 403])]),
      (.ofString "condition", .ofString "selection"), (.ofString "timeframe", .ofString "5m"),
      (.ofString "count", .int 20)])]

def ingestRules : List CompiledSigmaRule :=
  match compileRules plainRuntime "rules.yml".toList [ingestYaml] with
  | .ok rules => rules
  | .error _ => []

/-- A refused request to an ingest endpoint. -/
def ingestEvent (status : Int) : Subject :=
  ⟨"zaqorincore".toList, "401 Unauthorized".toList,
    [("event_type".toList, .str "http.request".toList), ("src_ip".toList, .str "203.0.113.9".toList),
      ("route".toList, .str "/api/v1/ingest/events".toList), ("status".toList, .int status)]⟩

/-- The rule selects the status `401` and not the text of it. -/
theorem ingest_status_lost :
    compileRules plainRuntime "rules.yml".toList [ingestYaml] = .ok ingestRules ∧
    ingestRules.map (fun rule => rule.matches_ plainRuntime (ingestEvent 401)) = [.ok true] ∧
    ingestRules.map (fun rule => rule.matches_ plainRuntime ((ingestEvent 401).live plainRuntime)) =
      [.ok false] ∧
    ¬ ∀ rule ∈ ingestRules, TreatedAlike plainRuntime rule (ingestEvent 401) := by
  have htyped : ingestRules.map (fun rule => rule.matches_ plainRuntime (ingestEvent 401)) =
      [.ok true] := by decide +kernel
  have htext : ingestRules.map (fun rule =>
      rule.matches_ plainRuntime ((ingestEvent 401).live plainRuntime)) = [.ok false] := by
    decide +kernel
  refine ⟨rfl, htyped, htext, ?_⟩
  intro halike
  have hsame := List.map_congr_left fun rule hrule => (halike rule hrule).1
  rw [htyped, htext] at hsame
  cases hsame

theorem typed_alike_ingest :
    (∀ m ∈ (ingestEvent 404).metadata, m.2.isScalar = true) ∧
      ∀ rule ∈ ingestRules, TreatedAlike plainRuntime rule (ingestEvent 404) ↔
        ∀ f, rule.Compared plainRuntime (ingestEvent 404) f →
          ¬ (ingestEvent 404).TellsApart plainRuntime f := by
  have hall : (ingestEvent 404).metadata.all (fun m => m.2.isScalar) = true := rfl
  have hscalar : ∀ m ∈ (ingestEvent 404).metadata, m.2.isScalar = true := List.all_eq_true.mp hall
  exact ⟨hscalar, fun rule _ => typed_alike_iff plainRuntime rule (ingestEvent 404) hscalar⟩

end ZaqorinCore.Server
