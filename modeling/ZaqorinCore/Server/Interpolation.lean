import ZaqorinCore.Server.Rule

/-!
# The placeholders of a template

`_interpolate` reads a template once, from the left. The template alone tells where its placeholders
are (`Reads`), and the result is put together from its pieces: a value that stands in for a
placeholder is not read again. `interpolation_single_pass`.
-/

namespace ZaqorinCore.Server

open Text

/-- A letter, a digit or an underscore. -/
def nameChar (c : Char) : Bool := c.isAlphanum || c == '_'

/-- The names that the pattern takes. -/
structure IsName (name : Str) : Prop where
  ne_nil : name ≠ []
  chars : ∀ c ∈ name, nameChar c = true

/-- The text of a placeholder. -/
def holeText (name : Str) : Str := "\x7b\x7b".toList ++ name ++ "\x7d\x7d".toList

/-- A piece of a template. -/
inductive Piece
  | text (c : Char)
  | hole (name : Str)

/-- The pieces of a template from the left: a placeholder where one starts, and one character
elsewhere. -/
inductive Reads : Str → List Piece → Prop
  | nil : Reads [] []
  | hole {name rest : Str} {pieces : List Piece} (h : IsName name) (hrest : Reads rest pieces) :
      Reads (holeText name ++ rest) (.hole name :: pieces)
  | text {c : Char} {rest : Str} {pieces : List Piece}
      (h : ∀ name after, IsName name → c :: rest ≠ holeText name ++ after)
      (hrest : Reads rest pieces) : Reads (c :: rest) (.text c :: pieces)

/-- What a piece comes to; a placeholder without a value stays. -/
def Piece.render (value : Str → Option Str) : Piece → Str
  | text c => [c]
  | hole name => (value name).getD (holeText name)

/-- The texts of the metadata, by name. -/
def valueOf (rt : Runtime) (metadata : List (Str × Json)) (name : Str) : Option Str :=
  (dictGet metadata name).map (pyStr rt.reprJson)

/-- The placeholder stands in the template. -/
def HasHole (template name : Str) : Prop := ∃ pieces, Reads template pieces ∧ .hole name ∈ pieces

/-- The text, of a value that is one. -/
def Yaml.asText : Yaml → Option Str
  | .str s => some s
  | _ => none

/-- The metadata agree on the placeholders of the template. -/
def AgreesOn (template : Str) (metadata metadata' : List (Str × Json)) : Prop :=
  ∀ name, HasHole template name → dictGet metadata name = dictGet metadata' name

/-- The texts of an action that have placeholders. -/
def CompiledSigmaRule.actionTemplates (rule : CompiledSigmaRule) : List Str :=
  match rule.action with
  | none => []
  | some fields =>
    [(Yaml.lookup fields "target".toList).getD (.str []), Yaml.get fields "ttl_sec"].filterMap
      Yaml.asText

/-! ## Where a placeholder starts -/

theorem placeholder_open (rest : Str) :
    placeholder ('\x7b' :: '\x7b' :: rest) =
      if rest.takeWhile nameChar ≠ [] ∧ "\x7d\x7d".toList.isPrefixOf (rest.dropWhile nameChar) then
        some (rest.takeWhile nameChar)
      else none :=
  rfl

theorem placeholder_holeText {name : Str} (h : IsName name) (after : Str) :
    placeholder (holeText name ++ after) = some name := by
  have hclose : nameChar '\x7d' ≠ true := by decide
  have htake : (name ++ ("\x7d\x7d".toList ++ after)).takeWhile nameChar = name := by
    rw [List.takeWhile_append_of_pos h.chars]
    show name ++ List.takeWhile nameChar ('\x7d' :: '\x7d' :: after) = name
    rw [List.takeWhile_cons_of_neg hclose, List.append_nil]
  have hdrop : (name ++ ("\x7d\x7d".toList ++ after)).dropWhile nameChar =
      "\x7d\x7d".toList ++ after := by
    rw [List.dropWhile_append_of_pos h.chars]
    exact List.dropWhile_cons_of_neg hclose
  have hopen := placeholder_open (name ++ ("\x7d\x7d".toList ++ after))
  rw [htake, hdrop, if_pos ⟨h.ne_nil, rfl⟩] at hopen
  rw [holeText, List.append_assoc, List.append_assoc]
  exact hopen

theorem starts_of_placeholder {template name : Str} (h : placeholder template = some name) :
    IsName name ∧ ∃ after, template = holeText name ++ after := by
  unfold placeholder at h
  split at h
  · rename_i rest
    have h := (placeholder_open rest).symm.trans h
    split at h
    · rename_i hname
      cases h
      obtain ⟨after, hafter⟩ := List.isPrefixOf_iff_prefix.mp hname.2
      refine ⟨⟨hname.1, fun c hc => List.mem_takeWhile_imp hc⟩, after, ?_⟩
      have hrest := List.takeWhile_append_dropWhile (p := nameChar) (l := rest)
      rw [← hafter] at hrest
      rw [holeText, List.append_assoc, List.append_assoc, hrest]
      rfl
    · cases h
  · cases h

/-- Nothing but the placeholder starts where one starts. -/
theorem holeText_inj {name name' rest rest' : Str} (h : IsName name) (h' : IsName name')
    (heq : holeText name ++ rest = holeText name' ++ rest') : name = name' ∧ rest = rest' := by
  have hname := placeholder_holeText h rest
  rw [heq, placeholder_holeText h'] at hname
  cases hname
  exact ⟨rfl, List.append_cancel_left heq⟩

/-! ## The pieces -/

theorem exists_reads (template : Str) : ∃ pieces, Reads template pieces := by
  induction hlength : template.length using Nat.strong_induction_on generalizing template with
  | _ n ih =>
    cases template with
    | nil => exact ⟨[], .nil⟩
    | cons c rest =>
      by_cases hstart : ∃ name after, IsName name ∧ c :: rest = holeText name ++ after
      · obtain ⟨name, after, hname, heq⟩ := hstart
        have hshort : after.length < n := by
          rw [← hlength, heq, List.length_append, holeText]
          simp
        obtain ⟨pieces, hpieces⟩ := ih _ hshort after rfl
        rw [heq]
        exact ⟨_, .hole hname hpieces⟩
      · obtain ⟨pieces, hpieces⟩ := ih _ (by rw [← hlength]; exact Nat.lt_succ_self _) rest rfl
        exact ⟨_, .text (fun name after hname heq => hstart ⟨name, after, hname, heq⟩) hpieces⟩

theorem Reads.unique {template : Str} {pieces pieces' : List Piece} (h : Reads template pieces)
    (h' : Reads template pieces') : pieces' = pieces := by
  induction h generalizing pieces' with
  | nil =>
    cases h' with
    | nil => rfl
  | @hole name rest pieces hname hrest ih =>
    generalize htemplate : holeText name ++ rest = template at h'
    cases h' with
    | nil => cases htemplate
    | @hole name' rest' pieces' hname' hrest' =>
      obtain ⟨rfl, rfl⟩ := holeText_inj hname hname' htemplate
      rw [ih hrest']
    | text hother _ => exact absurd htemplate.symm (hother name rest hname)
  | @text c rest pieces hother hrest ih =>
    generalize htemplate : c :: rest = template at h'
    cases h' with
    | nil => cases htemplate
    | @hole name' rest' pieces' hname' hrest' => exact absurd htemplate (hother name' rest' hname')
    | text _ hrest' =>
      cases htemplate
      rw [ih hrest']

/-! ## One pass -/

theorem interpolateFrom_skip (value : Str → Option Str) (skipped rest : Str) :
    interpolateFrom value skipped.length (skipped ++ rest) = interpolateFrom value 0 rest := by
  induction skipped with
  | nil => rfl
  | cons c skipped ih => exact ih

theorem interpolateFrom_hole (value : Str → Option Str) {name : Str} (h : IsName name)
    (rest : Str) :
    interpolateFrom value 0 (holeText name ++ rest) =
      (Piece.hole name).render value ++ interpolateFrom value 0 rest := by
  have hstart := placeholder_holeText h rest
  have hskip := interpolateFrom_skip value ('\x7b' :: (name ++ "\x7d\x7d".toList)) rest
  have hlength : ('\x7b' :: (name ++ "\x7d\x7d".toList)).length = name.length + 3 := by simp
  have hcons : holeText name ++ rest =
      '\x7b' :: ('\x7b' :: (name ++ "\x7d\x7d".toList) ++ rest) := by
    rw [holeText, List.append_assoc, List.append_assoc]
    simp
  rw [hlength] at hskip
  rw [hcons] at hstart ⊢
  rw [interpolateFrom, hstart]
  dsimp only
  rw [hskip]
  rfl

theorem interpolateFrom_text (value : Str → Option Str) {c : Char} {rest : Str}
    (h : ∀ name after, IsName name → c :: rest ≠ holeText name ++ after) :
    interpolateFrom value 0 (c :: rest) = c :: interpolateFrom value 0 rest := by
  have hnone : placeholder (c :: rest) = none := by
    cases hstart : placeholder (c :: rest) with
    | none => rfl
    | some name =>
      obtain ⟨hname, after, heq⟩ := starts_of_placeholder hstart
      exact absurd heq (h name after hname)
  rw [interpolateFrom, hnone]

theorem Reads.interpolate {template : Str} {pieces : List Piece} (h : Reads template pieces)
    (rt : Runtime) (metadata : List (Str × Json)) :
    interpolate rt template metadata = pieces.flatMap (Piece.render (valueOf rt metadata)) := by
  show interpolateFrom (valueOf rt metadata) 0 template = _
  induction h with
  | nil => rfl
  | hole hname _ ih => rw [interpolateFrom_hole _ hname, ih, List.flatMap_cons]
  | text hother _ ih =>
    rw [interpolateFrom_text _ hother, ih]
    rfl

/-- Only the values of the placeholders of the template count. -/
theorem interpolate_congr (rt : Runtime) {template : Str} {metadata metadata' : List (Str × Json)}
    (h : AgreesOn template metadata metadata') :
    interpolate rt template metadata = interpolate rt template metadata' := by
  obtain ⟨pieces, hpieces⟩ := exists_reads template
  rw [hpieces.interpolate, hpieces.interpolate, List.flatMap_congr]
  intro piece hmem
  cases piece with
  | text c => rfl
  | hole name => rw [Piece.render, Piece.render, valueOf, valueOf, h name ⟨pieces, hpieces, hmem⟩]

/-! ## Actions and dedup keys -/

namespace CompiledSigmaRule

variable {rt : Runtime} {rule : CompiledSigmaRule} {e e' : Subject}

theorem renderDedupKey_congr (h : AgreesOn rule.dedupKey e.metadata e'.metadata) :
    rule.renderDedupKey rt e = rule.renderDedupKey rt e' := by
  unfold renderDedupKey
  rw [interpolate_congr rt h]

theorem renderAction_congr
    (h : ∀ template ∈ rule.actionTemplates, AgreesOn template e.metadata e'.metadata) :
    rule.renderAction rt e = rule.renderAction rt e' := by
  unfold actionTemplates at h
  unfold renderAction
  cases haction : rule.action with
  | none => rfl
  | some fields =>
    rw [haction] at h
    cases fields with
    | nil => rfl
    | cons entry fields =>
      dsimp only at h ⊢
      cases htarget : (Yaml.lookup (entry :: fields) "target".toList).getD (.str []) with
      | str template =>
        have hsame := interpolate_congr rt
          (h template (List.mem_filterMap.mpr ⟨_, List.mem_cons_self, by rw [htarget]; rfl⟩))
        dsimp only
        rw [hsame]
        cases httl : Yaml.get (entry :: fields) "ttl_sec" with
        | str ttl =>
          have hsame := interpolate_congr rt (h ttl (List.mem_filterMap.mpr
            ⟨_, List.mem_cons_of_mem _ List.mem_cons_self, by rw [httl]; rfl⟩))
          dsimp only
          rw [hsame]
        | _ => rfl
      | _ => rfl

end CompiledSigmaRule

/-- The result is made of the pieces of the template, which do not depend on the metadata, and
what an event's other fields hold comes into no action and no dedup key. -/
theorem interpolation_single_pass (rt : Runtime) :
    (∀ template, ∃ pieces, Reads template pieces ∧
      (∀ pieces', Reads template pieces' → pieces' = pieces) ∧
      ∀ metadata, interpolate rt template metadata =
        pieces.flatMap (Piece.render (valueOf rt metadata))) ∧
    ∀ (rule : CompiledSigmaRule) (e e' : Subject),
      (AgreesOn rule.dedupKey e.metadata e'.metadata →
        rule.renderDedupKey rt e = rule.renderDedupKey rt e') ∧
      ((∀ template ∈ rule.actionTemplates, AgreesOn template e.metadata e'.metadata) →
        rule.renderAction rt e = rule.renderAction rt e') := by
  constructor
  · intro template
    obtain ⟨pieces, hpieces⟩ := exists_reads template
    exact ⟨pieces, hpieces, fun _ h => hpieces.unique h, hpieces.interpolate rt⟩
  · intro rule e e'
    exact ⟨CompiledSigmaRule.renderDedupKey_congr, CompiledSigmaRule.renderAction_congr⟩

example : interpolateFrom
    (fun name => if name = "a".toList then some "\x7b\x7bb\x7d\x7d".toList else some "!".toList) 0
    "\x7b\x7b\x7ba\x7d\x7d\x7d \x7b\x7bb\x7d\x7d".toList =
      "\x7b\x7b\x7bb\x7d\x7d\x7d !".toList := by
  decide

end ZaqorinCore.Server
