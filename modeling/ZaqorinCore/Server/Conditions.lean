import ZaqorinCore.Server.Loader
import ZaqorinCore.Server.Matching
import ZaqorinCore.Server.Splitting

/-!
# What a condition means

The conditions that `matches` documents, written out with their white space, and the boolean value
that each of them stands for. The code reads the names of a group by splitting it at `" or "`, and
compares the plain `selection` without stripping it. `means_condition_iff` says for which written
conditions it computes their value, for every rule and every event.
-/

namespace ZaqorinCore.Server

open Text Base

/-! ## Written conditions -/

/-- White space between two tokens. -/
structure Gap where
  text : Str
  nonempty : text ≠ []
  blank : Blank text

/-- White space that may be absent. -/
structure Pad where
  text : Str
  blank : Blank text

/-- The name of a filter: `\w+`. No letter or digit of Python is white space. -/
structure FilterName (rt : Runtime) where
  text : Str
  solid : Solid text
  word : text.all (isWord rt) = true

/-- `F1 or ... or Fn` between the parentheses. -/
structure FilterGroup (rt : Runtime) where
  lead : Pad
  first : FilterName rt
  others : List (Gap × Gap × FilterName rt)
  trail : Pad

inductive ConditionBody (rt : Runtime)
  | selection
  | andNot (g₁ g₂ g₃ : Gap) (filter : FilterName rt)
  | anyOf (g₁ g₂ : Gap) (group : FilterGroup rt)
  | anyOfNot (g₁ g₂ : Gap) (group : FilterGroup rt) (g₃ g₄ g₅ : Gap) (filter : FilterName rt)

structure WrittenCondition (rt : Runtime) where
  left : Pad
  body : ConditionBody rt
  right : Pad

variable {rt : Runtime}

def orWord : Str := ['o', 'r']

/-- The rest of a group after a name. -/
def othersText (trail : Str) : List (Gap × Gap × FilterName rt) → Str
  | [] => trail
  | (before, after, name) :: others =>
    before.text ++ (orWord ++ (after.text ++ (name.text ++ othersText trail others)))

def FilterGroup.text (g : FilterGroup rt) : Str :=
  g.lead.text ++ (g.first.text ++ othersText g.trail.text g.others)

def FilterGroup.names (g : FilterGroup rt) : List Str :=
  g.first.text :: g.others.map fun o => o.2.2.text

/-- `and not F` after the white space before it. -/
def andNotText (g₁ g₂ : Gap) (filter : FilterName rt) : Str :=
  "and".toList ++ (g₁.text ++ ("not".toList ++ (g₂.text ++ filter.text)))

def ConditionBody.text : ConditionBody rt → Str
  | .selection => "selection".toList
  | .andNot g₁ g₂ g₃ filter => "selection".toList ++ (g₁.text ++ andNotText g₂ g₃ filter)
  | .anyOf g₁ g₂ group =>
    "selection".toList ++ (g₁.text ++ ("and".toList ++ (g₂.text ++ ('(' :: (group.text ++ [')'])))))
  | .anyOfNot g₁ g₂ group g₃ g₄ g₅ filter =>
    "selection".toList ++ (g₁.text ++ ("and".toList ++ (g₂.text ++ ('(' :: (group.text ++ (')' ::
      (g₃.text ++ andNotText g₄ g₅ filter)))))))

def WrittenCondition.text (w : WrittenCondition rt) : Str :=
  w.left.text ++ (w.body.text ++ w.right.text)

/-! ## Their meaning -/

def selectionName : Str := "selection".toList

/-- The names of the condition besides `selection`. -/
def ConditionBody.names : ConditionBody rt → List Str
  | .selection => []
  | .andNot _ _ _ filter => [filter.text]
  | .anyOf _ _ group => group.names
  | .anyOfNot _ _ group _ _ _ filter => group.names ++ [filter.text]

/-- The value of a condition when its names have these values. -/
def ConditionBody.value (val : Str → Bool) : ConditionBody rt → Bool
  | .selection => val selectionName
  | .andNot _ _ _ filter => val selectionName && !val filter.text
  | .anyOf _ _ group => val selectionName && group.names.any val
  | .anyOfNot _ _ group _ _ _ filter =>
    val selectionName && group.names.any val && !val filter.text

/-- Every name is a mapping of the detection block, and means that every key of the mapping matches
the event. The `selection` of a compiled rule is the one of its detection block. -/
structure Interprets (rule : CompiledSigmaRule) (e : Subject) (body : ConditionBody rt)
    (val : Str → Bool) : Prop where
  compiled : Yaml.lookup rule.detection selectionName = some (.map rule.selection)
  names : ∀ name ∈ selectionName :: body.names, ∃ fields,
    Yaml.lookup rule.detection name = some (.map fields) ∧
      matchSelection rt e (.map fields) = .ok (val name)

/-- For every rule with the condition, and every event with the rule's required fields, `matches`
is the value of the condition. -/
def MeansCondition (w : WrittenCondition rt) : Prop :=
  ∀ (rule : CompiledSigmaRule) (e : Subject) (val : Str → Bool),
    rule.condition = w.text → rule.HasRequired e → Interprets rule e w.body val →
      rule.matches_ rt e = .ok (w.body.value val)

/-! ## The condition on the spacing -/

/-- Each `or` of the group has a space right before it and right after it, and no name `or` is
read as a separator: the white space before such a name, less the space that the separator before
it uses up, does not end with a space, or the white space after it does not begin with one. -/
def SpacedFrom (trail : Str) : Str → Str → List (Gap × Gap × FilterName rt) → Prop
  | gap, name, [] => ¬ ReadsAt orWord gap name trail
  | gap, name, (before, after, next) :: others =>
    ¬ ReadsAt orWord gap name before.text ∧ before.text.getLast? = some ' ' ∧
      after.text.head? = some ' ' ∧ SpacedFrom trail after.text.tail next.text others

def FilterGroup.Spaced (g : FilterGroup rt) : Prop :=
  SpacedFrom g.trail.text g.lead.text g.first.text g.others

/-- A plain `selection` stands alone, and groups are spaced, unless the condition is never true
because it excludes `selection` itself. -/
def WrittenCondition.Spaced (w : WrittenCondition rt) : Prop :=
  match w.body with
  | .selection => w.left.text = [] ∧ w.right.text = []
  | .andNot _ _ _ _ => True
  | .anyOf _ _ group => group.Spaced
  | .anyOfNot _ _ group _ _ _ filter => group.Spaced ∨ filter.text = selectionName

/-! ## Groups -/

theorem orWord_solid : Solid orWord := ⟨by simp [orWord], by simp [orWord, pySpace]⟩

theorem ends_blank {s : Str} (h : Blank s) (hs : s ≠ []) (rest : Str) : Ends (s ++ rest) := by
  intro c hc
  rw [List.head?_append_of_ne_nil _ hs] at hc
  exact h c (List.mem_of_mem_head? hc)

theorem ends_othersText {trail : Str} (htrail : Blank trail)
    (others : List (Gap × Gap × FilterName rt)) : Ends (othersText trail others) := by
  cases others with
  | nil =>
    intro c hc
    exact htrail c (List.mem_of_mem_head? hc)
  | cons o others => exact ends_blank o.1.blank o.1.nonempty _

/-- A name `or` is read as a separator, or not, by the white space that follows it. -/
theorem readsAt_append {gap name : Str} (before : Gap) (rest : Str) :
    ReadsAt orWord gap name (before.text ++ rest) ↔ ReadsAt orWord gap name before.text := by
  unfold ReadsAt
  rw [List.head?_append_of_ne_nil _ before.nonempty]

/-- A name that is no name: it is empty, or has white space in it. -/
def Broken (name : Str) : Prop := name = [] ∨ ∃ c ∈ name, pySpace c.toNat = true

theorem Solid.not_broken {name : Str} (h : Solid name) : ¬ Broken name := by
  rintro (hnil | ⟨c, hc, hblank⟩)
  · exact h.nonempty hnil
  · rw [h.solid c hc] at hblank
    cases hblank

/-- Splitting a group gives its names if it is spaced, and a broken name if it is not. -/
theorem split_group (others : List (Gap × Gap × FilterName rt)) :
    ∀ {trail gap : Str} (name : FilterName rt), Blank trail → Blank gap →
      let pieces := (splitFrom (spaced orWord) 0 []
        (gap ++ (name.text ++ othersText trail others))).map strip
      (SpacedFrom trail gap name.text others →
        pieces = name.text :: others.map fun o => o.2.2.text) ∧
      (¬ SpacedFrom trail gap name.text others → ∃ piece ∈ pieces, Broken piece) := by
  induction others with
  | nil =>
    intro trail gap name htrail hgap
    have hends : Ends trail := ends_othersText htrail ([] : List (Gap × Gap × FilterName rt))
    dsimp only [othersText]
    rw [splitFrom_word orWord_solid hgap name.solid hends]
    by_cases hreads : ReadsAt orWord gap name.text trail
    · rw [if_pos hreads]
      refine ⟨fun hspaced => absurd hreads hspaced, fun _ => ⟨_, List.mem_cons_self, Or.inl ?_⟩⟩
      exact strip_blank fun c hc => hgap c (List.dropLast_subset _ hc)
    · rw [if_neg hreads]
      refine ⟨fun _ => ?_, fun hnot => absurd hreads hnot⟩
      rw [splitFrom_blank orWord_solid htrail]
      simp only [List.append_nil, List.reverse_reverse, List.map_cons, List.map_nil,
        List.append_assoc]
      rw [strip_trimmed hgap name.solid.trimmed htrail]
  | cons o others ih =>
    intro trail gap name htrail hgap
    obtain ⟨before, after, next⟩ := o
    dsimp only
    rw [splitFrom_word orWord_solid hgap name.solid (ends_othersText htrail _)]
    simp only [othersText, readsAt_append, SpacedFrom, List.append_nil, List.map_cons]
    by_cases hname : ReadsAt orWord gap name.text before.text
    · rw [if_pos hname]
      refine ⟨fun hspaced => absurd hname hspaced.1, fun _ => ⟨_, List.mem_cons_self, Or.inl ?_⟩⟩
      exact strip_blank fun c hc => hgap c (List.dropLast_subset _ hc)
    · rw [if_neg hname, splitFrom_word orWord_solid before.blank orWord_solid
        (ends_blank after.blank after.nonempty _)]
      simp only [readsAt_append]
      by_cases hor : ReadsAt orWord before.text orWord after.text
      · -- the separator is read: the rest of the group is split on its own
        have htail : (after.text ++ (next.text ++ othersText trail others)).tail =
            after.text.tail ++ (next.text ++ othersText trail others) :=
          List.tail_append_of_ne_nil after.nonempty
        have hpiece : strip (gap ++ name.text ++ before.text.dropLast) = name.text := by
          rw [List.append_assoc]
          exact strip_trimmed hgap name.solid.trimmed
            fun c hc => before.blank c (List.dropLast_subset _ hc)
        obtain ⟨hgood, hbad⟩ := ih next htrail after.blank.tail
        rw [if_pos hor, htail, List.reverse_reverse, List.map_cons, hpiece]
        constructor
        · intro hspaced
          rw [hgood hspaced.2.2.2]
        · intro hnot
          obtain ⟨piece, hpiece, hbroken⟩ := hbad fun hspaced =>
            hnot ⟨hname, hor.1, hor.2.2, hspaced⟩
          exact ⟨piece, List.mem_cons_of_mem _ hpiece, hbroken⟩
      · -- the separator is missed: it stays inside the first piece
        rw [if_neg hor]
        refine ⟨fun hspaced => absurd ⟨hspaced.2.1, rfl, hspaced.2.2.1⟩ hor, fun _ => ?_⟩
        obtain ⟨more, pieces, hsplit⟩ := splitFrom_piece (spaced orWord) 0
          ((before.text ++ orWord).reverse ++ (gap ++ name.text).reverse)
          (after.text ++ (next.text ++ othersText trail others))
        rw [hsplit]
        refine ⟨_, List.mem_cons_self, Or.inr ?_⟩
        obtain ⟨n, ns, hn⟩ := List.exists_cons_of_ne_nil name.solid.nonempty
        obtain ⟨b, bs, hb⟩ := List.exists_cons_of_ne_nil before.nonempty
        have hsolid : pySpace n.toNat = false := name.solid.solid n (by simp [hn])
        obtain ⟨x, y, hstrip⟩ := strip_between hsolid (orWord_solid.solid 'o' (by simp [orWord]))
          gap (ns ++ before.text) ('r' :: more)
        have htext :
            ((before.text ++ orWord).reverse ++ (gap ++ name.text).reverse).reverse ++ more =
              gap ++ n :: (ns ++ before.text ++ 'o' :: ('r' :: more)) := by
          simp [hn, orWord]
        rw [htext, hstrip]
        exact ⟨b, by simp [hb], before.blank b (by simp [hb])⟩

theorem filterNames_group (g : FilterGroup rt) :
    (g.Spaced → filterNames g.text = g.names) ∧
      (¬ g.Spaced → ∃ name ∈ filterNames g.text, Broken name) := by
  have hsep : " or ".toList = spaced orWord := by decide +kernel
  unfold filterNames split
  rw [hsep]
  exact split_group g.others g.first g.trail.blank g.lead.blank

/-! ## Reading a written condition -/

theorem eat_append (word : String) (rest : Str) : eat word (word.toList ++ rest) = some rest := by
  unfold eat
  rw [if_pos (List.isPrefixOf_iff_prefix.mpr (List.prefix_append _ _)), List.drop_left]

/-- A text that white space cannot be taken from. -/
def Starts (s : Str) : Prop := ∃ c ∈ s.head?, pySpace c.toNat = false

theorem eatSpaces_append (g : Gap) {rest : Str} (h : Starts rest) :
    eatSpaces (g.text ++ rest) = some rest := by
  obtain ⟨c, more, hg⟩ := List.exists_cons_of_ne_nil g.nonempty
  obtain ⟨d, hd, hsolid⟩ := h
  obtain ⟨others, rfl⟩ := List.head?_eq_some_iff.mp hd
  have hc : pySpace c.toNat = true := g.blank c (by simp [hg])
  have hhead : (g.text ++ d :: others).head?.any (fun c => pySpace c.toNat) = true := by
    rw [hg]
    exact hc
  unfold eatSpaces
  rw [if_pos hhead, dropWhile_blank g.blank, List.dropWhile_cons, hsolid,
    if_neg Bool.false_ne_true]

theorem eatAnd_append (g₁ g₂ : Gap) {rest : Str} (h : Starts rest) :
    eatAnd (g₁.text ++ ("and".toList ++ (g₂.text ++ rest))) = some rest := by
  have hand : Starts ("and".toList ++ (g₂.text ++ rest)) := ⟨'a', by simp, by decide⟩
  simp only [eatAnd, eatSpaces_append g₁ hand, eat_append, eatSpaces_append g₂ h,
    Option.bind_eq_bind, Option.bind_some]

theorem FilterName.starts (filter : FilterName rt) : Starts filter.text := by
  obtain ⟨c, rest, hc⟩ := List.exists_cons_of_ne_nil filter.solid.nonempty
  exact ⟨c, by simp [hc], filter.solid.solid c (by simp [hc])⟩

theorem readNot_append (g : Gap) (filter : FilterName rt) :
    readNot rt ("not".toList ++ (g.text ++ filter.text)) = some filter.text := by
  simp only [readNot, eat_append, eatSpaces_append g filter.starts, Option.bind_eq_bind,
    Option.bind_some]
  rw [if_pos ⟨filter.solid.nonempty, filter.word⟩]

theorem Blank.not_mem {s : Str} (h : Blank s) : ')' ∉ s := by
  intro hmem
  exact absurd (h ')' hmem) (by decide)

theorem FilterName.not_mem (filter : FilterName rt) : ')' ∉ filter.text := by
  intro hmem
  have hword := List.all_eq_true.mp filter.word ')' hmem
  have hnot : isWord rt ')' = false := by
    simp [isWord]
  rw [hnot] at hword
  cases hword

theorem not_mem_othersText {trail : Str} (htrail : Blank trail)
    (others : List (Gap × Gap × FilterName rt)) : ')' ∉ othersText trail others := by
  induction others with
  | nil => exact htrail.not_mem
  | cons o others ih =>
    obtain ⟨before, after, name⟩ := o
    have hor : ')' ∉ orWord := by simp [orWord]
    simp only [othersText, List.mem_append, not_or]
    exact ⟨before.blank.not_mem, hor, after.blank.not_mem, name.not_mem, ih⟩

theorem FilterGroup.not_mem (g : FilterGroup rt) : ')' ∉ g.text := by
  simp only [FilterGroup.text, List.mem_append, not_or]
  exact ⟨g.lead.blank.not_mem, g.first.not_mem, not_mem_othersText g.trail.blank g.others⟩

theorem readGroup_append (g : FilterGroup rt) (rest : Str) :
    readGroup ('(' :: (g.text ++ ')' :: rest)) = some (g.text, rest) := by
  have hne : g.text ≠ [] := by
    unfold FilterGroup.text
    simp [g.first.solid.nonempty]
  have hinner : ∀ c ∈ g.text, (c != ')') = true := by
    intro c hc
    rw [bne_iff_ne]
    rintro rfl
    exact g.not_mem hc
  have htake : (g.text ++ ')' :: rest).takeWhile (· != ')') = g.text := by
    rw [List.takeWhile_append_of_pos hinner, List.takeWhile_cons_of_neg (by simp), List.append_nil]
  have hdrop : (g.text ++ ')' :: rest).dropWhile (· != ')') = ')' :: rest := by
    rw [List.dropWhile_append_of_pos hinner, List.dropWhile_cons_of_neg (by simp)]
  have hopen : eat "(" ('(' :: (g.text ++ ')' :: rest)) = some (g.text ++ ')' :: rest) :=
    eat_append "(" _
  have hclose : eat ")" (')' :: rest) = some rest := eat_append ")" _
  simp only [readGroup, hopen, Option.bind_eq_bind, Option.bind_some, htake, hdrop, hclose,
    Option.map_some]
  rw [if_neg hne]

theorem readNot_group (s : Str) : readNot rt ('(' :: s) = none := by
  have hnot : eat "not" ('(' :: s) = none := by
    unfold eat
    rw [if_neg (by simp)]
  simp only [readNot, hnot, Option.bind_eq_bind, Option.bind_none]

/-- What the code makes of a written condition. -/
def WrittenCondition.read (w : WrittenCondition rt) : Option Condition :=
  match w.body with
  | .selection => if w.left.text = [] ∧ w.right.text = [] then some .selection else none
  | .andNot _ _ _ filter => some (.andNot filter.text)
  | .anyOf _ _ group => some (.anyOf (filterNames group.text))
  | .anyOfNot _ _ group _ _ _ filter => some (.anyOfNot (filterNames group.text) filter.text)

theorem solid_selection : Solid "selection".toList := ⟨by simp, by simp [pySpace]⟩

theorem trimmed_selection : Trimmed "selection".toList := solid_selection.trimmed

theorem trimmed_andNotText (g₁ g₂ : Gap) (filter : FilterName rt) :
    Trimmed (andNotText g₁ g₂ filter) := by
  have hand : Trimmed "and".toList := Solid.trimmed ⟨by simp, by simp [pySpace]⟩
  have h := hand.append filter.solid.trimmed (g₁.text ++ ("not".toList ++ g₂.text))
  simpa [andNotText] using h

theorem trimmed_body (body : ConditionBody rt) : Trimmed body.text := by
  cases body with
  | selection => exact trimmed_selection
  | andNot g₁ g₂ g₃ filter =>
    exact trimmed_selection.append (trimmed_andNotText g₂ g₃ filter) g₁.text
  | anyOf g₁ g₂ group =>
    have hclose : Trimmed [')'] := Solid.trimmed ⟨by simp, by simp [pySpace]⟩
    have h := trimmed_selection.append hclose
      (g₁.text ++ ("and".toList ++ (g₂.text ++ ('(' :: group.text))))
    simp only [List.append_assoc, List.cons_append] at h
    exact h
  | anyOfNot g₁ g₂ group g₃ g₄ g₅ filter =>
    have h := trimmed_selection.append (trimmed_andNotText g₄ g₅ filter)
      (g₁.text ++ ("and".toList ++ (g₂.text ++ ('(' :: (group.text ++ (')' :: g₃.text))))))
    simp only [List.append_assoc, List.cons_append] at h
    exact h

theorem WrittenCondition.strip_text (w : WrittenCondition rt) : strip w.text = w.body.text := by
  unfold WrittenCondition.text
  exact strip_trimmed w.left.blank (trimmed_body w.body) w.right.blank

theorem WrittenCondition.text_eq_iff {w : WrittenCondition rt} {word : Str}
    (h : w.body.text = word) :
    w.text = word ↔ w.left.text = [] ∧ w.right.text = [] := by
  unfold WrittenCondition.text
  rw [h]
  constructor
  · intro heq
    have hlength := congrArg List.length heq
    simp only [List.length_append] at hlength
    exact ⟨List.length_eq_zero_iff.mp (by omega), List.length_eq_zero_iff.mp (by omega)⟩
  · rintro ⟨hleft, hright⟩
    rw [hleft, hright, List.append_nil, List.nil_append]

/-- A longer condition is not one that is compared literally. -/
theorem WrittenCondition.text_ne {w : WrittenCondition rt} {word : Str} (hword : Trimmed word)
    (h : word.length < w.body.text.length) : w.text ≠ word := by
  intro heq
  have hself := strip_trimmed Blank.nil hword Blank.nil
  rw [List.append_nil, List.nil_append, ← heq, w.strip_text] at hself
  rw [hself, heq] at h
  omega

/-- The patterns after `selection`. -/
def readAfter (rt : Runtime) (s : Str) : Option Condition := do
  let s ← eatAnd s
  match readNot rt s with
  | some name => some (.andNot name)
  | none =>
    let (inner, rest) ← readGroup s
    if rest = [] then some (.anyOf (filterNames inner))
    else do
      let name ← readNot rt (← eatAnd rest)
      some (.anyOfNot (filterNames inner) name)

theorem conditionOf_long {w : WrittenCondition rt} {g : Gap} {rest : Str}
    (h : w.body.text = "selection".toList ++ (g.text ++ rest)) :
    conditionOf rt w.text = readAfter rt (g.text ++ rest) := by
  have hlong : "selection".toList.length < w.body.text.length := by
    have hpos := List.length_pos_of_ne_nil g.nonempty
    rw [h, List.length_append, List.length_append]
    omega
  unfold conditionOf
  rw [if_neg (w.text_ne trimmed_selection hlong), w.strip_text, h, eat_append]
  rfl

theorem conditionOf_selection {w : WrittenCondition rt} (h : w.body.text = "selection".toList) :
    conditionOf rt w.text =
      if w.left.text = [] ∧ w.right.text = [] then some .selection else none := by
  unfold conditionOf
  by_cases hpads : w.left.text = [] ∧ w.right.text = []
  · rw [if_pos ((w.text_eq_iff h).mpr hpads), if_pos hpads]
  · have heat := eat_append "selection" []
    rw [List.append_nil] at heat
    rw [if_neg (fun heq => hpads ((w.text_eq_iff h).mp heq)), if_neg hpads, w.strip_text, h, heat]
    rfl

theorem conditionOf_written (w : WrittenCondition rt) : conditionOf rt w.text = w.read := by
  have hparen : ∀ s : Str, Starts ('(' :: s) := fun s => ⟨'(', rfl, by decide⟩
  have hnot : ∀ s : Str, Starts ("not".toList ++ s) := fun s => ⟨'n', by simp, by decide⟩
  unfold WrittenCondition.read
  cases hbody : w.body with
  | selection =>
    exact conditionOf_selection (by rw [hbody]; rfl)
  | andNot g₁ g₂ g₃ filter =>
    have htext : w.body.text = "selection".toList ++ (g₁.text ++ andNotText g₂ g₃ filter) := by
      rw [hbody]
      rfl
    rw [conditionOf_long htext, readAfter, andNotText, eatAnd_append g₁ g₂ (hnot _)]
    simp only [Option.bind_eq_bind, Option.bind_some, readNot_append]
  | anyOf g₁ g₂ group =>
    have htext : w.body.text = "selection".toList ++ (g₁.text ++ ("and".toList ++
        (g₂.text ++ ('(' :: (group.text ++ ')' :: []))))) := by
      rw [hbody]
      rfl
    rw [conditionOf_long htext, readAfter, eatAnd_append g₁ g₂ (hparen _)]
    simp only [Option.bind_eq_bind, Option.bind_some, readNot_group, readGroup_append, if_true]
  | anyOfNot g₁ g₂ group g₃ g₄ g₅ filter =>
    have htext : w.body.text = "selection".toList ++ (g₁.text ++ ("and".toList ++
        (g₂.text ++ ('(' :: (group.text ++ ')' :: (g₃.text ++ andNotText g₄ g₅ filter)))))) := by
      rw [hbody]
      rfl
    have hrest : ¬ g₃.text ++ andNotText g₄ g₅ filter = [] := by
      simp [g₃.nonempty]
    have hand : eatAnd (g₃.text ++ andNotText g₄ g₅ filter) =
        some ("not".toList ++ (g₅.text ++ filter.text)) := eatAnd_append g₃ g₄ (hnot _)
    rw [conditionOf_long htext, readAfter, eatAnd_append g₁ g₂ (hparen _)]
    simp only [Option.bind_eq_bind, Option.bind_some, readNot_group, readGroup_append, if_neg hrest,
      hand, readNot_append]

/-! ## Spaced conditions -/

section

variable {rule : CompiledSigmaRule} {e : Subject} {val : Str → Bool} {body : ConditionBody rt}

/-- The blocks of names that are all mappings. -/
theorem walk_names {names : List Str}
    (h : ∀ name ∈ names, ∃ fields, Yaml.lookup rule.detection name = some (.map fields) ∧
      matchSelection rt e (.map fields) = .ok (val name)) :
    ∃ blocks, names.mapM (Yaml.lookup rule.detection) = some blocks ∧
      walk (matchSelection rt e) false (anyStages blocks) = .ok (names.any val) := by
  induction names with
  | nil => exact ⟨[], rfl, rfl⟩
  | cons name names ih =>
    obtain ⟨fields, hlookup, hvalue⟩ := h name List.mem_cons_self
    obtain ⟨blocks, hblocks, hany⟩ := ih fun n hn => h n (List.mem_cons_of_mem _ hn)
    refine ⟨.map fields :: blocks, ?_, ?_⟩
    · rw [List.mapM_cons, hlookup, hblocks]
      rfl
    · rw [anyStages, List.map_cons, walk_cons_ok hvalue, List.any_cons]
      cases val name with
      | false =>
        rw [Bool.false_or]
        exact hany
      | true => rfl

theorem Interprets.selection (h : Interprets rule e body val) :
    matchSelection rt e (.map rule.selection) = .ok (val selectionName) := by
  obtain ⟨fields, hlookup, hvalue⟩ := h.names selectionName List.mem_cons_self
  rw [h.compiled] at hlookup
  cases hlookup
  exact hvalue

theorem Interprets.filter (h : Interprets rule e body val) (name : Str)
    (hname : name ∈ body.names) :
    ∃ block, Yaml.lookup rule.detection name = some block ∧
      matchSelection rt e block = .ok (val name) := by
  obtain ⟨fields, hlookup, hvalue⟩ := h.names name (List.mem_cons_of_mem _ hname)
  exact ⟨.map fields, hlookup, hvalue⟩

/-- The value of a group that is read as it is written. -/
theorem walk_group (h : Interprets rule e body val) {group : FilterGroup rt}
    (hspaced : group.Spaced)
    (hnames : ∀ name ∈ group.names, name ∈ body.names) :
    ∃ blocks, (filterNames group.text).mapM (Yaml.lookup rule.detection) = some blocks ∧
      walk (matchSelection rt e) false (anyStages blocks) = .ok (group.names.any val) := by
  rw [(filterNames_group group).1 hspaced]
  exact walk_names fun name hname => h.names name (List.mem_cons_of_mem _ (hnames name hname))

/-- A spaced condition is computed as it is written. -/
theorem means_of_spaced {w : WrittenCondition rt} (hspaced : w.Spaced) : MeansCondition w := by
  intro rule e val hcond hreq h
  have hsel := h.selection
  rw [CompiledSigmaRule.matches_eq_walk rt hreq, CompiledSigmaRule.plan, hcond,
    conditionOf_written, WrittenCondition.read]
  unfold WrittenCondition.Spaced at hspaced
  cases hbody : w.body with
  | selection =>
    rw [hbody] at hspaced
    simp only [if_pos hspaced, ConditionBody.value]
    rw [walk_cons_ok hsel]
    cases val selectionName <;> rfl
  | andNot g₁ g₂ g₃ filter =>
    obtain ⟨block, hlookup, hvalue⟩ := h.filter filter.text (by simp [hbody, ConditionBody.names])
    simp only [hlookup, Option.map_some, ConditionBody.value]
    rw [walk_cons_ok hsel, walk_cons_ok hvalue]
    cases val selectionName <;> cases val filter.text <;> rfl
  | anyOf g₁ g₂ group =>
    rw [hbody] at hspaced
    obtain ⟨blocks, hblocks, hany⟩ := walk_group h hspaced (by simp [hbody, ConditionBody.names])
    simp only [hblocks, Option.map_some, ConditionBody.value]
    rw [walk_cons_ok hsel, hany]
    cases val selectionName <;> rfl
  | anyOfNot g₁ g₂ group g₃ g₄ g₅ filter =>
    rw [hbody] at hspaced
    obtain ⟨block, hlookup, hvalue⟩ := h.filter filter.text (by simp [hbody, ConditionBody.names])
    simp only [hlookup, Option.map_some, ConditionBody.value]
    rcases hspaced with hspaced | hself
    · obtain ⟨blocks, hblocks, hany⟩ := walk_group h hspaced (by
        intro name hname
        rw [hbody]
        exact List.mem_append_left _ hname)
      simp only [hblocks, Option.bind_some]
      rw [walk_cons_ok hsel, walk_cons_ok hvalue, hany]
      cases val selectionName <;> cases val filter.text <;> simp
    · -- the condition contradicts itself, whatever the names of the group are read as
      rw [hself] at hvalue ⊢
      cases (filterNames group.text).mapM (Yaml.lookup rule.detection) with
      | none => cases val selectionName <;> simp
      | some blocks =>
        simp only [Option.bind_some]
        rw [walk_cons_ok hsel, walk_cons_ok hvalue]
        cases val selectionName <;> simp

end

/-! ## Conditions that are not spaced -/

def hitBlock : List (Yaml × Yaml) := [(.str "source".toList, .str "sshd".toList)]

def missBlock : List (Yaml × Yaml) := [(.str "source".toList, .str "nginx".toList)]

def probeEvent : Subject := ⟨"sshd".toList, [], []⟩

theorem matchSelection_hit : matchSelection rt probeEvent (.map hitBlock) = .ok true := by
  rfl

theorem matchSelection_miss : matchSelection rt probeEvent (.map missBlock) = .ok false := by
  rfl

instance (name : Str) : Decidable (Broken name) := inferInstanceAs (Decidable (_ ∨ _))

/-- The names that match the probe: `selection`, and whatever is no name. -/
def probeValue (name : Str) : Bool := decide (name = selectionName ∨ Broken name)

def probeBlock (name : Str) : List (Yaml × Yaml) := if probeValue name then hitBlock else missBlock

/-- A rule with the condition whose detection block holds the keys. -/
def probeRule (condition : Str) (keys : List Str) : CompiledSigmaRule where
  id := "probe".toList
  title := "probe".toList
  level := "low".toList
  selection := hitBlock
  detection := keys.dedup.map fun key => (.str key, .map (probeBlock key))
  condition := condition
  count := 1
  timeframeSec := 60
  cooldownSec := 300
  dedupKey := []
  action := none
  requiredFields := []

theorem lookup_keys (keys : List Str) (name : Str) :
    Yaml.lookup (keys.map fun key => (.str key, .map (probeBlock key))) name =
      if name ∈ keys then some (.map (probeBlock name)) else none := by
  unfold Yaml.lookup
  induction keys with
  | nil => rfl
  | cons key keys ih =>
    rw [List.map_cons, List.find?_cons]
    by_cases hkey : key = name
    · subst hkey
      simp [Yaml.isKey]
    · have hne : (Yaml.str key).isKey name = false := by simpa [Yaml.isKey] using hkey
      simp only [hne]
      rw [ih]
      simp [List.mem_cons, Ne.symm hkey]

theorem lookup_probe (condition : Str) (keys : List Str) (name : Str) :
    Yaml.lookup (probeRule condition keys).detection name =
      if name ∈ keys then some (.map (probeBlock name)) else none := by
  have h := lookup_keys keys.dedup name
  simp only [List.mem_dedup] at h
  exact h

theorem matchSelection_probe (name : Str) :
    matchSelection rt probeEvent (.map (probeBlock name)) = .ok (probeValue name) := by
  unfold probeBlock
  cases probeValue name with
  | false => exact matchSelection_miss
  | true => exact matchSelection_hit

theorem probeValue_selection : probeValue selectionName = true := by
  simp [probeValue]

theorem denotes_probe {condition : Str} {keys : List Str} {name : Str} (h : name ∈ keys) :
    ∃ fields, Yaml.lookup (probeRule condition keys).detection name = some (.map fields) ∧
      matchSelection rt probeEvent (.map fields) = .ok (probeValue name) := by
  refine ⟨probeBlock name, ?_, matchSelection_probe name⟩
  rw [lookup_probe, if_pos h]

theorem interprets_probe {w : WrittenCondition rt} {keys : List Str} (hself : selectionName ∈ keys)
    (h : ∀ name ∈ w.body.names, name ∈ keys) :
    Interprets (probeRule w.text keys) probeEvent w.body probeValue := by
  constructor
  · rw [lookup_probe, if_pos hself, probeBlock, if_pos probeValue_selection]
    rfl
  · intro name hname
    obtain rfl | hname := List.mem_cons.mp hname
    · exact denotes_probe hself
    · exact denotes_probe (h name hname)

/-- What `matches` makes of the probe, if the written condition had its meaning. -/
theorem MeansCondition.probe {w : WrittenCondition rt} (h : MeansCondition w) (keys : List Str)
    (hself : selectionName ∈ keys) (hkeys : ∀ name ∈ w.body.names, name ∈ keys) :
    (probeRule w.text keys).matches_ rt probeEvent = .ok (w.body.value probeValue) :=
  h _ _ _ rfl nofun (interprets_probe hself hkeys)

theorem mapM_eq_none {names : List Str} {name : Str} (hname : name ∈ names)
    {lookup : Str → Option Yaml} (h : lookup name = none) : names.mapM lookup = none := by
  induction names with
  | nil => cases hname
  | cons first names ih =>
    rw [List.mapM_cons]
    obtain rfl | hname := List.mem_cons.mp hname
    · rw [h]
      rfl
    · rw [ih hname]
      cases lookup first <;> rfl

theorem FilterGroup.solid (g : FilterGroup rt) : ∀ name ∈ g.names, Solid name := by
  intro name hname
  obtain rfl | hname := List.mem_cons.mp hname
  · exact g.first.solid
  · obtain ⟨o, -, rfl⟩ := List.mem_map.mp hname
    exact o.2.2.solid

theorem ConditionBody.solid (body : ConditionBody rt) :
    ∀ name ∈ selectionName :: body.names, Solid name := by
  intro name hname
  obtain hself | hname := List.mem_cons.mp hname
  · rw [hself]
    exact solid_selection
  · cases body with
    | selection => cases hname
    | andNot g₁ g₂ g₃ filter =>
      rw [List.mem_singleton.mp hname]
      exact filter.solid
    | anyOf g₁ g₂ group => exact group.solid name hname
    | anyOfNot g₁ g₂ group g₃ g₄ g₅ filter =>
      obtain hname | hname := List.mem_append.mp hname
      · exact group.solid name hname
      · rw [List.mem_singleton.mp hname]
        exact filter.solid

theorem probeValue_of_solid {name : Str} (h : Solid name) :
    probeValue name = decide (name = selectionName) := by
  simp [probeValue, h.not_broken]

theorem any_probeValue (g : FilterGroup rt) :
    g.names.any probeValue = decide (selectionName ∈ g.names) := by
  rw [Bool.eq_iff_iff, List.any_eq_true, decide_eq_true_eq]
  constructor
  · rintro ⟨name, hname, hvalue⟩
    rw [probeValue_of_solid (g.solid name hname), decide_eq_true_eq] at hvalue
    rwa [← hvalue]
  · intro hself
    exact ⟨selectionName, hself, probeValue_selection⟩

/-- The keys of the probe: the names of the condition, and what the group is read as unless the
group names `selection`. -/
def probeKeys (body : ConditionBody rt) (group : FilterGroup rt) : List Str :=
  selectionName :: body.names ++ if selectionName ∈ group.names then [] else filterNames group.text

/-- On the probe, a group that is not spaced is read as the contrary of what it says. -/
theorem read_probe (condition : Str) (body : ConditionBody rt) {group : FilterGroup rt}
    (hnot : ¬ group.Spaced) :
    (selectionName ∈ group.names ∧ (filterNames group.text).mapM
        (Yaml.lookup (probeRule condition (probeKeys body group)).detection) = none) ∨
      (selectionName ∉ group.names ∧ ∃ blocks, (filterNames group.text).mapM
          (Yaml.lookup (probeRule condition (probeKeys body group)).detection) = some blocks ∧
        walk (matchSelection rt probeEvent) false (anyStages blocks) = .ok true) := by
  obtain ⟨piece, hpiece, hbroken⟩ := (filterNames_group group).2 hnot
  by_cases hself : selectionName ∈ group.names
  · refine Or.inl ⟨hself, mapM_eq_none hpiece ?_⟩
    rw [lookup_probe, probeKeys, if_pos hself, List.append_nil, if_neg]
    intro hmem
    exact (body.solid piece hmem).not_broken hbroken
  · refine Or.inr ⟨hself, ?_⟩
    have hkeys : ∀ name ∈ filterNames group.text, name ∈ probeKeys body group := by
      intro name hname
      rw [probeKeys, if_neg hself]
      exact List.mem_append_right _ hname
    obtain ⟨blocks, hblocks, hany⟩ := walk_names fun name hname => denotes_probe (hkeys name hname)
    refine ⟨blocks, hblocks, ?_⟩
    rw [hany]
    congr 1
    exact List.any_eq_true.mpr ⟨piece, hpiece, by simp [probeValue, hbroken]⟩

/-- `matches` on the probe, by what the condition is read as. -/
theorem matches_probe (w : WrittenCondition rt) (keys : List Str) :
    (probeRule w.text keys).matches_ rt probeEvent =
      match (probeRule w.text keys).plan rt with
      | none => .ok false
      | some (stages, final) => walk (matchSelection rt probeEvent) final stages :=
  CompiledSigmaRule.matches_eq_walk rt nofun

theorem spaced_of_means {w : WrittenCondition rt} (h : MeansCondition w) : w.Spaced := by
  have hself : ∀ group : FilterGroup rt, selectionName ∈ probeKeys w.body group := by
    simp [probeKeys]
  have hkeys : ∀ group : FilterGroup rt, ∀ name ∈ w.body.names, name ∈ probeKeys w.body group := by
    intro group name hname
    simp [probeKeys, hname]
  have hread : ∀ keys, conditionOf rt (probeRule w.text keys).condition = w.read := fun _ =>
    conditionOf_written w
  unfold WrittenCondition.Spaced
  unfold WrittenCondition.read at hread
  cases hbody : w.body with
  | selection =>
    by_contra hpads
    have hmeans := h.probe [selectionName] (by simp) (by simp [hbody, ConditionBody.names])
    rw [matches_probe, CompiledSigmaRule.plan, hread, hbody] at hmeans
    simp only [if_neg hpads, ConditionBody.value, probeValue_selection] at hmeans
    cases hmeans
  | andNot g₁ g₂ g₃ filter => trivial
  | anyOf g₁ g₂ group =>
    by_contra hnot
    have hmeans := h.probe _ (hself group) (hkeys group)
    rw [matches_probe, CompiledSigmaRule.plan, hread] at hmeans
    obtain ⟨hin, hnone⟩ | ⟨hout, blocks, hblocks, hany⟩ :=
      read_probe w.text w.body hnot
    · simp only [hbody] at hmeans hnone
      simp only [hnone, Option.map_none, ConditionBody.value, probeValue_selection, any_probeValue,
        decide_eq_true hin] at hmeans
      cases hmeans
    · simp only [hbody] at hmeans hblocks
      simp only [hblocks, Option.map_some, ConditionBody.value, any_probeValue,
        decide_eq_false hout, Bool.and_false] at hmeans
      rw [walk_cons_ok matchSelection_hit, if_pos rfl, hany] at hmeans
      cases hmeans
  | anyOfNot g₁ g₂ group g₃ g₄ g₅ filter =>
    by_contra hnot
    rw [not_or] at hnot
    have hmeans := h.probe _ (hself group) (hkeys group)
    have hmiss : probeValue filter.text = false := by
      rw [probeValue_of_solid filter.solid]
      exact decide_eq_false hnot.2
    obtain ⟨fields, hlookup, hvalue⟩ : ∃ fields, Yaml.lookup
        (probeRule w.text (probeKeys w.body group)).detection filter.text = some (.map fields) ∧
          matchSelection rt probeEvent (.map fields) = .ok (probeValue filter.text) :=
      denotes_probe (hkeys group filter.text (by simp [hbody, ConditionBody.names]))
    rw [matches_probe, CompiledSigmaRule.plan, hread] at hmeans
    rw [hmiss] at hvalue
    obtain ⟨hin, hnone⟩ | ⟨hout, blocks, hblocks, hany⟩ :=
      read_probe w.text w.body hnot.1
    · simp only [hbody] at hmeans hnone
      simp only [hnone, Option.bind_none, ConditionBody.value, probeValue_selection, any_probeValue,
        decide_eq_true hin, hmiss] at hmeans
      cases hmeans
    · simp only [hbody] at hmeans hblocks hlookup
      simp only [hblocks, hlookup, Option.bind_some, Option.map_some, ConditionBody.value,
        any_probeValue, decide_eq_false hout, Bool.and_false, Bool.false_and] at hmeans
      rw [walk_cons_ok matchSelection_hit, if_pos rfl, walk_cons_ok hvalue, if_pos rfl, hany]
        at hmeans
      cases hmeans

/-- A written condition is computed as it reads, for every rule and every event, exactly when it is
spaced. -/
theorem means_condition_iff (rt : Runtime) (w : WrittenCondition rt) :
    MeansCondition w ↔ w.Spaced :=
  ⟨spaced_of_means, means_of_spaced⟩

/-- The plain condition as a block scalar of YAML writes it, with the line break at its end. -/
def foldedSelection : WrittenCondition plainRuntime where
  left := ⟨[], Blank.nil⟩
  body := .selection
  right := ⟨['\n'], by simp [Blank, pySpace]⟩

/-- The rule's selection matches the event, and the rule does not. -/
theorem foldedSelection_never_matches :
    Interprets (probeRule foldedSelection.text [selectionName]) probeEvent foldedSelection.body
        probeValue ∧
      foldedSelection.body.value probeValue = true ∧
      (probeRule foldedSelection.text [selectionName]).matches_ plainRuntime probeEvent =
        .ok false ∧
      ¬ MeansCondition foldedSelection := by
  refine ⟨interprets_probe (by simp) nofun, probeValue_selection, ?_, ?_⟩
  · rw [matches_probe, CompiledSigmaRule.plan,
      show (probeRule foldedSelection.text [selectionName]).condition = foldedSelection.text from
        rfl,
      conditionOf_written]
    rfl
  · intro hmeans
    exact absurd (spaced_of_means hmeans).2 (by simp [foldedSelection])

end ZaqorinCore.Server
