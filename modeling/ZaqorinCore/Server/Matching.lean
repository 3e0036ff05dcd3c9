import ZaqorinCore.Base.Walk
import ZaqorinCore.Server.Rule

/-!
# How a rule is matched

The entries of a block are a walk, and so are the four patterns of a condition over their blocks:
`matchEntries_eq_walk`, `matches_eq_walk`. From it follow when matching raises
(`matches_raises_iff`) and when two events are matched alike (`matches_congr`).
-/

namespace ZaqorinCore.Server

open Text Base

/-! ## The walk of a block -/

/-- The stages of `_match_selection`. -/
def entryStages (fields : List (Yaml × Yaml)) : List (Base.Stage (Yaml × Yaml)) :=
  fields.map fun f => ⟨f, true, false⟩

theorem matchEntries_eq_walk (rt : Runtime) (e : Subject) (fields : List (Yaml × Yaml)) :
    matchEntries rt e fields =
      walk (fun f => matchEntry rt e f.1 f.2) true (entryStages fields) := by
  induction fields with
  | nil => rfl
  | cons f fields ih =>
    obtain ⟨key, expected⟩ := f
    rw [matchEntries, entryStages, List.map_cons, walk]
    cases matchEntry rt e key expected with
    | error err => rfl
    | ok answer =>
      cases answer with
      | false => rfl
      | true => exact ih

/-- The entry is compared when the block is matched: all entries before it match. -/
def Compares (rt : Runtime) (e : Subject) (fields : List (Yaml × Yaml)) (f : Yaml × Yaml) : Prop :=
  Reaches (fun f => matchEntry rt e f.1 f.2) (entryStages fields) f

/-- What makes the comparison with an expected text raise: a pattern that does not compile, and a
number too large for a `float`. -/
def BreaksText (rt : Runtime) (actual : Json) (s : Str) : Prop :=
  (modifierOf s = none ∧
    ∃ pattern err, s = "re:".toList ++ pattern ∧ rt.compile pattern = .error err) ∨
  ∃ m literal n, modifierOf s = some (m, literal) ∧ (m = .ge ∨ m = .lt) ∧ actual = .int n ∧
    floatOfInt n = none

theorem toFloat_raises_iff {v : Json} :
    (∃ err, v.toFloat = .error err) ↔ ∃ n, v = .int n ∧ floatOfInt n = none := by
  unfold Json.toFloat
  split
  case h_2 n =>
    cases hn : floatOfInt n with
    | none =>
      have hraise : ∃ err, (throw .overflowError : Except PyError (Option Double)) = .error err :=
        ⟨_, rfl⟩
      exact iff_of_true hraise ⟨n, rfl, hn⟩
    | some x => simp [pure, Except.pure, hn]
  all_goals simp [pure, Except.pure]
  intro n heq
  simp_all

theorem bind_pure_raises_iff {ε α β : Type} {x : Except ε α} {f : α → β} :
    (∃ err, (x >>= fun a => pure (f a) : Except ε β) = .error err) ↔ ∃ err, x = .error err := by
  cases x with
  | error err => exact iff_of_true ⟨err, rfl⟩ ⟨err, rfl⟩
  | ok a => exact iff_of_false (fun ⟨err, herr⟩ => nomatch herr) (fun ⟨err, herr⟩ => nomatch herr)

theorem raised_raises_iff {α : Type} {x : Except String α} :
    (∃ err, raised x = .error err) ↔ ∃ err, x = .error err := by
  cases x with
  | error err => exact iff_of_true ⟨_, rfl⟩ ⟨err, rfl⟩
  | ok a => exact iff_of_false (fun ⟨err, herr⟩ => nomatch herr) (fun ⟨err, herr⟩ => nomatch herr)

theorem matchModifier_raises_iff {rt : Runtime} {actual : Json} {literal : Str} {m : Modifier} :
    (∃ err, matchModifier rt actual literal m = .error err) ↔
      (m = .ge ∨ m = .lt) ∧ ∃ n, actual = .int n ∧ floatOfInt n = none := by
  cases m with
  | startswith => exact iff_of_false (fun ⟨err, herr⟩ => nomatch herr) (by simp)
  | endswith => exact iff_of_false (fun ⟨err, herr⟩ => nomatch herr) (by simp)
  | ge =>
    rw [matchModifier, bind_pure_raises_iff, toFloat_raises_iff]
    simp
  | lt =>
    rw [matchModifier, bind_pure_raises_iff, toFloat_raises_iff]
    simp

theorem matchText_raises_iff {rt : Runtime} {e : Subject} {actual : Json} {s : Str} :
    (∃ err, matchText rt e actual s = .error err) ↔ BreaksText rt actual s := by
  unfold matchText BreaksText
  cases hm : modifierOf s with
  | some p =>
    obtain ⟨m, literal⟩ := p
    simp only
    rw [matchModifier_raises_iff]
    constructor
    · rintro ⟨hge, n, hn, hnone⟩
      exact Or.inr ⟨m, literal, n, rfl, hge, hn, hnone⟩
    · rintro (⟨hnone, -⟩ | ⟨m', literal', n, heq, hge, hn, hnone⟩)
      · cases hnone
      · cases heq
        exact ⟨hge, n, hn, hnone⟩
  | none =>
    simp only
    by_cases hre : "re:".toList.isPrefixOf s = true
    · obtain ⟨pattern, rfl⟩ := List.isPrefixOf_iff_prefix.mp hre
      rw [if_pos hre, bind_pure_raises_iff]
      constructor
      · intro h
        obtain ⟨err, herr⟩ := raised_raises_iff.mp h
        exact Or.inl ⟨trivial, pattern, err, rfl, herr⟩
      · rintro (⟨-, pattern', err, heq, herr⟩ | ⟨m, literal, n, heq, -⟩)
        · exact raised_raises_iff.mpr ⟨err, (List.append_cancel_left heq) ▸ herr⟩
        · cases heq
    · rw [if_neg hre]
      refine iff_of_false ?_ ?_
      · rintro ⟨err, herr⟩
        split at herr <;> cases herr
      · rintro (⟨-, pattern, err, rfl, -⟩ | ⟨m, literal, n, heq, -⟩)
        · exact hre (List.isPrefixOf_iff_prefix.mpr (List.prefix_append _ _))
        · cases heq

/-- The entry's comparison raises. -/
def BreaksEntry (rt : Runtime) (e : Subject) (f : Yaml × Yaml) : Prop :=
  ∃ actual s, actualOf e f.1 = some actual ∧ f.2 = .str s ∧ BreaksText rt actual s

theorem matchEntry_raises_iff {rt : Runtime} {e : Subject} {f : Yaml × Yaml} :
    (∃ err, matchEntry rt e f.1 f.2 = .error err) ↔ BreaksEntry rt e f := by
  obtain ⟨key, expected⟩ := f
  unfold matchEntry BreaksEntry
  cases hactual : actualOf e key with
  | none => exact iff_of_false (fun ⟨err, herr⟩ => nomatch herr) (fun ⟨v, s, heq, _⟩ => nomatch heq)
  | some actual =>
    cases expected with
    | str s =>
      simp only
      rw [matchText_raises_iff]
      constructor
      · intro h
        exact ⟨actual, s, rfl, rfl, h⟩
      · rintro ⟨v, s', heq, hs, h⟩
        cases heq
        cases hs
        exact h
    | _ => exact iff_of_false (fun ⟨err, herr⟩ => nomatch herr) (fun ⟨v, s, _, hs, _⟩ => nomatch hs)

/-- Matching the block raises: it is no mapping, or an entry that is compared raises. -/
def BreaksBlock (rt : Runtime) (e : Subject) : Yaml → Prop
  | .map fields => ∃ f, Compares rt e fields f ∧ BreaksEntry rt e f
  | _ => True

theorem matchSelection_raises_iff {rt : Runtime} {e : Subject} {block : Yaml} :
    (∃ err, matchSelection rt e block = .error err) ↔ BreaksBlock rt e block := by
  cases block with
  | map fields =>
    rw [matchSelection, matchEntries_eq_walk, walk_raises_iff, BreaksBlock]
    constructor
    · rintro ⟨f, err, hreach, herr⟩
      exact ⟨f, hreach, matchEntry_raises_iff.mp ⟨err, herr⟩⟩
    · rintro ⟨f, hreach, hbreaks⟩
      obtain ⟨err, herr⟩ := matchEntry_raises_iff.mpr hbreaks
      exact ⟨f, err, hreach, herr⟩
  | _ => exact iff_of_true ⟨_, rfl⟩ trivial

/-- Two blocks whose compared entries answer alike answer alike. -/
theorem matchSelection_congr {rt : Runtime} {e e' : Subject} {block : Yaml}
    (h : ∀ fields, block = .map fields → ∀ f, Compares rt e fields f →
      matchEntry rt e f.1 f.2 = matchEntry rt e' f.1 f.2) :
    matchSelection rt e block = matchSelection rt e' block := by
  cases block with
  | map fields =>
    rw [matchSelection, matchSelection, matchEntries_eq_walk, matchEntries_eq_walk]
    exact walk_congr (h fields rfl)
  | _ => rfl

/-! ## The walk of a rule -/

/-- The stages of `any(...)`. -/
def anyStages (blocks : List Yaml) : List (Base.Stage Yaml) :=
  blocks.map fun block => ⟨block, false, true⟩

theorem walk_anyStages (rt : Runtime) (e : Subject) (blocks : List Yaml) :
    walk (matchSelection rt e) false (anyStages blocks) = matchAny rt e blocks := by
  induction blocks with
  | nil => rfl
  | cons block blocks ih =>
    rw [matchAny, anyStages, List.map_cons, walk]
    cases matchSelection rt e block with
    | error err => rfl
    | ok answer =>
      cases answer with
      | false => exact ih
      | true => rfl

namespace CompiledSigmaRule

variable (rt : Runtime)

/-- The blocks of a rule in the order they are asked, and the result when all let the walk go on;
`none` when a filter is unknown or the condition has no known pattern. -/
def plan (rule : CompiledSigmaRule) : Option (List (Base.Stage Yaml) × Bool) :=
  let selection : Base.Stage Yaml := ⟨.map rule.selection, true, false⟩
  match conditionOf rt rule.condition with
  | none => none
  | some .selection => some ([selection], true)
  | some (.andNot name) =>
    (Yaml.lookup rule.detection name).map fun block => ([selection, ⟨block, false, false⟩], true)
  | some (.anyOf names) =>
    (names.mapM (Yaml.lookup rule.detection)).map fun blocks =>
      (selection :: anyStages blocks, false)
  | some (.anyOfNot names name) =>
    (names.mapM (Yaml.lookup rule.detection)).bind fun blocks =>
      (Yaml.lookup rule.detection name).map fun block =>
        (selection :: ⟨block, false, false⟩ :: anyStages blocks, false)

/-- Every required field is in the metadata. -/
def HasRequired (rule : CompiledSigmaRule) (e : Subject) : Prop :=
  ∀ field ∈ rule.requiredFields, (dictGet e.metadata field).isSome

theorem matches_eq_walk {rule : CompiledSigmaRule} {e : Subject} (h : rule.HasRequired e) :
    rule.matches_ rt e = match rule.plan rt with
      | none => .ok false
      | some (stages, final) => walk (matchSelection rt e) final stages := by
  have hall : rule.requiredFields.all (fun field => (dictGet e.metadata field).isSome) = true :=
    List.all_eq_true.mpr h
  rw [matches_, hall, plan]
  simp only [Bool.not_true, Bool.false_eq_true, if_false]
  cases conditionOf rt rule.condition with
  | none => rfl
  | some cond =>
    cases cond with
    | selection =>
      simp only [walk]
      cases matchSelection rt e (.map rule.selection) with
      | error err => rfl
      | ok answer => cases answer <;> rfl
    | andNot name =>
      simp only
      cases Yaml.lookup rule.detection name with
      | none => rfl
      | some block =>
        simp only [Option.map_some, walk]
        cases matchSelection rt e (.map rule.selection) with
        | error err => rfl
        | ok answer =>
          cases answer with
          | false => rfl
          | true =>
            show (matchSelection rt e block >>= fun b => pure !b) = _
            cases matchSelection rt e block with
            | error err => rfl
            | ok answer => cases answer <;> rfl
    | anyOf names =>
      simp only
      cases names.mapM (Yaml.lookup rule.detection) with
      | none => rfl
      | some blocks =>
        simp only [Option.map_some, walk]
        cases matchSelection rt e (.map rule.selection) with
        | error err => rfl
        | ok answer =>
          cases answer with
          | false => rfl
          | true => exact (walk_anyStages rt e blocks).symm
    | anyOfNot names name =>
      simp only
      cases names.mapM (Yaml.lookup rule.detection) with
      | none => rfl
      | some blocks =>
        cases Yaml.lookup rule.detection name with
        | none => rfl
        | some block =>
          simp only [Option.bind_some, Option.map_some, walk]
          cases matchSelection rt e (.map rule.selection) with
          | error err => rfl
          | ok answer =>
            cases answer with
            | false => rfl
            | true =>
              show (matchSelection rt e block >>= fun b =>
                if b then pure false else matchAny rt e blocks) = _
              rw [← walk_anyStages]
              cases matchSelection rt e block with
              | error err => rfl
              | ok answer => cases answer <;> rfl

theorem matches_of_not_hasRequired {rule : CompiledSigmaRule} {e : Subject}
    (h : ¬ rule.HasRequired e) : rule.matches_ rt e = .ok false := by
  have hall : rule.requiredFields.all (fun field => (dictGet e.metadata field).isSome) = false := by
    rw [Bool.eq_false_iff]
    exact fun hall => h (List.all_eq_true.mp hall)
  rw [matches_, hall]
  rfl

/-- The blocks that matching the event asks. -/
def Asks (rule : CompiledSigmaRule) (e : Subject) (block : Yaml) : Prop :=
  rule.HasRequired e ∧
    ∃ stages final, rule.plan rt = some (stages, final) ∧ Reaches (matchSelection rt e) stages block

/-- Matching the event raises. -/
def Breaks (rule : CompiledSigmaRule) (e : Subject) : Prop :=
  ∃ block, rule.Asks rt e block ∧ BreaksBlock rt e block

theorem matches_raises_iff {rule : CompiledSigmaRule} {e : Subject} :
    (∃ err, rule.matches_ rt e = .error err) ↔ rule.Breaks rt e := by
  have hasks : rule.Breaks rt e ↔
      ∃ block err, rule.Asks rt e block ∧ matchSelection rt e block = .error err := by
    constructor
    · rintro ⟨block, hasks, hbreaks⟩
      obtain ⟨err, herr⟩ := matchSelection_raises_iff.mpr hbreaks
      exact ⟨block, err, hasks, herr⟩
    · rintro ⟨block, err, hasks, herr⟩
      exact ⟨block, hasks, matchSelection_raises_iff.mp ⟨err, herr⟩⟩
  rw [hasks]
  by_cases h : rule.HasRequired e
  · rw [matches_eq_walk rt h]
    cases hplan : rule.plan rt with
    | none =>
      refine iff_of_false (fun ⟨err, herr⟩ => nomatch herr) ?_
      rintro ⟨block, err, ⟨-, stages, final, hsome, -⟩, -⟩
      rw [hplan] at hsome
      cases hsome
    | some p =>
      obtain ⟨stages, final⟩ := p
      rw [walk_raises_iff]
      constructor
      · rintro ⟨block, err, hreach, herr⟩
        exact ⟨block, err, ⟨h, stages, final, hplan, hreach⟩, herr⟩
      · rintro ⟨block, err, ⟨-, stages', final', hsome, hreach⟩, herr⟩
        rw [hplan] at hsome
        cases hsome
        exact ⟨block, err, hreach, herr⟩
  · rw [matches_of_not_hasRequired rt h]
    exact iff_of_false (fun ⟨err, herr⟩ => nomatch herr) (fun ⟨_, _, ⟨hreq, _⟩, _⟩ => h hreq)

/-- Two events with the same required fields, on which every block that is asked answers alike, are
matched alike. -/
theorem matches_congr {rule : CompiledSigmaRule} {e e' : Subject}
    (hreq : rule.HasRequired e ↔ rule.HasRequired e')
    (h : ∀ block, rule.Asks rt e block → matchSelection rt e block = matchSelection rt e' block) :
    rule.matches_ rt e = rule.matches_ rt e' := by
  by_cases hhas : rule.HasRequired e
  · rw [matches_eq_walk rt hhas, matches_eq_walk rt (hreq.mp hhas)]
    cases hplan : rule.plan rt with
    | none => rfl
    | some p =>
      obtain ⟨stages, final⟩ := p
      exact walk_congr fun block hreach => h block ⟨hhas, stages, final, hplan, hreach⟩
  · rw [matches_of_not_hasRequired rt hhas,
      matches_of_not_hasRequired rt (fun hhas' => hhas (hreq.mpr hhas'))]

end CompiledSigmaRule

end ZaqorinCore.Server
