import ZaqorinCore.Server.Provision
import ZaqorinCore.Server.StudioFiles

/-!
# Names that come from outside

The checks on rule ids, users and key ids. Their patterns end with `$`, which stands before a
newline at the end as well, so each check also accepts its names with one newline behind them. What
the checks document holds of all other texts, and of no text of that kind: `identifiers_exact_iff`.
-/

namespace ZaqorinCore.Server

open Text Provision

/-! ## The documented names -/

def ruleIdChar (c : Char) : Bool := c.isAlphanum || c == '_' || c == '.' || c == '-'

/-- `[A-Za-z0-9_.-]{1,64}` -/
structure DocumentedRuleId (s : Str) : Prop where
  chars : ∀ c ∈ s, ruleIdChar c = true
  pos : 1 ≤ s.length
  le : s.length ≤ 64

/-- `[a-z0-9][a-z0-9-]{1,62}[a-z0-9]` -/
structure DocumentedSlug (s : Str) : Prop where
  chars : ∀ c ∈ s, isSlug c = true
  first : ∀ c ∈ s.head?, isSlugEdge c = true
  last : ∀ c ∈ s.getLast?, isSlugEdge c = true
  ge : 3 ≤ s.length
  le : s.length ≤ 64

/-- `[A-Za-z_][A-Za-z0-9_.-]{0,63}` -/
structure DocumentedUser (s : Str) : Prop where
  chars : ∀ c ∈ s, userChar c = true
  first : ∀ c ∈ s.head?, userStart c = true
  pos : 1 ≤ s.length
  le : s.length ≤ 64

/-- `[A-Za-z0-9_.+/=@:,-]{1,128}` -/
structure DocumentedKeyId (s : Str) : Prop where
  chars : ∀ c ∈ s, keyIdChar c = true
  pos : 1 ≤ s.length
  le : s.length ≤ 128

/-- A file right below the directory. -/
def DirectChild (path dir : Str) : Prop :=
  ∃ name, path = pathBelow dir name ∧ '/' ∉ name ∧ name ≠ [] ∧ name ≠ ".".toList ∧
    name ≠ "..".toList

/-- What the checks should say of one text. -/
structure Exact (rt : Runtime) (ops : StudioOps) (s : Str) : Prop where
  ruleId : (∃ v, validateRuleId s = .ok v) ↔ DocumentedRuleId s
  slug : ∀ fresh title, sanitizeRuleId rt ops fresh (some s) title = .ok s ↔ DocumentedSlug s
  user : (∃ v, safeUser ops.repr s = .ok v) ↔ DocumentedUser s
  keyId : (∃ v, safeKeyId ops.repr (some s) = .ok v) ↔ DocumentedKeyId s
  plain : ∀ fresh title, (∃ v, validateRuleId s = .ok v) ∨
    sanitizeRuleId rt ops fresh (some s) title = .ok s ∨ (∃ v, safeUser ops.repr s = .ok v) →
      '\n' ∉ s ∧ '/' ∉ s ∧ '\\' ∉ s
  below : ∀ fresh title source, (∃ v, validateRuleId s = .ok v) ∨
    sanitizeRuleId rt ops fresh (some s) title = .ok s →
      DirectChild (resolvePath ops source s) (ruleFolder ops source)

/-- A key id with a newline behind it. -/
def EndsInNewline (s : Str) : Prop := ∃ t, s = t ++ ['\n'] ∧ DocumentedKeyId t

/-! ## The patterns -/

theorem fits_ruleId {s : Str} : Fits [⟨ruleIdChar, 1, 64⟩] s ↔ DocumentedRuleId s := by
  rw [fits_one]
  exact ⟨fun h => ⟨h.1, h.2.1, h.2.2⟩, fun h => ⟨h.chars, h.pos, h.le⟩⟩

theorem fits_keyId {s : Str} : Fits keyIdPattern s ↔ DocumentedKeyId s := by
  rw [keyIdPattern, fits_one]
  exact ⟨fun h => ⟨h.1, h.2.1, h.2.2⟩, fun h => ⟨h.chars, h.pos, h.le⟩⟩

theorem userChar_of_start {c : Char} (h : userStart c = true) : userChar c = true := by
  unfold userStart at h
  unfold userChar
  rw [Bool.or_eq_true] at h ⊢
  rcases h with h | h
  · left
    rw [Char.isAlphanum, h, Bool.true_or]
  · right
    rw [beq_iff_eq.mp h]
    decide

theorem fits_user {s : Str} : Fits userPattern s ↔ DocumentedUser s := by
  rw [userPattern, fits_head]
  constructor
  · rintro ⟨c, tail, rfl, hc, h⟩
    obtain ⟨hchars, -, hle⟩ := fits_one.mp h
    refine ⟨?_, ?_, Nat.succ_le_succ (Nat.zero_le _), Nat.succ_le_succ hle⟩
    · rw [List.forall_mem_cons]
      exact ⟨userChar_of_start hc, hchars⟩
    · intro d hd
      cases hd
      exact hc
  · rintro ⟨hchars, hfirst, hpos, hle⟩
    obtain ⟨c, tail, rfl⟩ := List.exists_cons_of_length_pos hpos
    rw [List.forall_mem_cons] at hchars
    have htail : tail.length ≤ _ := Nat.le_of_succ_le_succ hle
    exact ⟨c, tail, rfl, hfirst c rfl, fits_one.mpr ⟨hchars.2, Nat.zero_le _, htail⟩⟩

/-- `_ID_RE` -/
def slugPattern : List Repeat := [⟨isSlugEdge, 1, 1⟩, ⟨isSlug, 1, 62⟩, ⟨isSlugEdge, 1, 1⟩]

theorem isSlug_of_edge {c : Char} (h : isSlugEdge c = true) : isSlug c = true := by
  rw [isSlug, h, Bool.true_or]

theorem fits_slug {s : Str} : Fits slugPattern s ↔ DocumentedSlug s := by
  rw [slugPattern, fits_head]
  constructor
  · rintro ⟨c, tail, rfl, hc, h⟩
    obtain ⟨part, tail, rfl, hchars, hlo, hhi, h⟩ := fits_cons.mp h
    obtain ⟨d, tail, rfl, hd, h⟩ := fits_head.mp h
    rw [fits_nil.mp h]
    dsimp only at hchars hlo hhi
    refine ⟨?_, ?_, ?_, ?_, ?_⟩
    · intro x hx
      rw [List.mem_cons, List.mem_append, List.mem_singleton] at hx
      rcases hx with rfl | hx | rfl
      · exact isSlug_of_edge hc
      · exact hchars x hx
      · exact isSlug_of_edge hd
    · intro x hx
      cases hx
      exact hc
    · intro x hx
      rw [← List.cons_append, List.getLast?_concat] at hx
      cases hx
      exact hd
    · rw [List.length_cons, List.length_append, List.length_singleton]
      omega
    · rw [List.length_cons, List.length_append, List.length_singleton]
      omega
  · rintro ⟨hchars, hfirst, hlast, hge, hle⟩
    obtain ⟨c, tail, rfl⟩ := List.exists_cons_of_length_pos (show 0 < s.length by omega)
    have hne : tail ≠ [] := by
      rintro rfl
      rw [List.length_singleton] at hge
      omega
    obtain ⟨part, d, rfl⟩ := (List.eq_nil_or_concat' tail).resolve_left hne
    rw [List.length_cons, List.length_append, List.length_singleton] at hge hle
    have hd : isSlugEdge d = true := by
      apply hlast
      rw [← List.cons_append, List.getLast?_concat]
      rfl
    refine ⟨c, part ++ [d], rfl, hfirst c rfl, fits_cons.mpr ⟨part, [d], rfl, ?_, ?_, ?_, ?_⟩⟩
    · intro x hx
      exact hchars x (List.mem_cons_of_mem _ (List.mem_append_left _ hx))
    · show 1 ≤ part.length
      omega
    · show part.length ≤ 62
      omega
    · exact fits_head.mpr ⟨d, [], rfl, hd, .nil⟩

/-! ## The checks -/

theorem upToNewline_iff {p : Str → Bool} {s : Str} :
    upToNewline p s = true ↔ p s = true ∨ ∃ t, s = t ++ ['\n'] ∧ p t = true := by
  unfold upToNewline
  rw [Bool.or_eq_true, Bool.and_eq_true, beq_iff_eq]
  refine or_congr Iff.rfl ⟨?_, ?_⟩
  · rintro ⟨hlast, hp⟩
    exact ⟨s.dropLast, (List.dropLast_append_getLast? _ hlast).symm, hp⟩
  · rintro ⟨t, rfl, hp⟩
    rw [List.getLast?_concat, List.dropLast_concat]
    exact ⟨rfl, hp⟩

/-- A text is accepted by a pattern of the row. -/
theorem upToNewline_fits {p : Str → Bool} {row : List Repeat}
    (h : ∀ s, p s = true ↔ Fits row s) (s : Str) :
    upToNewline p s = true ↔ matchesFrom row s = true := by
  rw [upToNewline_iff, matchesFrom_iff, h]
  refine or_congr Iff.rfl (exists_congr fun t => ?_)
  rw [h]

theorem matchesRuleId_iff {s : Str} :
    matchesRuleId s = true ↔ matchesFrom [⟨ruleIdChar, 1, 64⟩] s = true := by
  refine upToNewline_fits (fun s => ?_) s
  rw [fits_one, Bool.and_eq_true, Bool.and_eq_true, decide_eq_true_eq, decide_eq_true_eq,
    List.all_eq_true]
  exact and_comm

theorem matchesId_iff {s : Str} : matchesId s = true ↔ matchesFrom slugPattern s = true := by
  refine upToNewline_fits (fun s => ?_) s
  rw [fits_slug]
  simp only [Bool.and_eq_true, decide_eq_true_eq, List.all_eq_true]
  constructor
  · rintro ⟨⟨⟨⟨hge, hle⟩, hchars⟩, hfirst⟩, hlast⟩
    refine ⟨hchars, ?_, ?_, hge, hle⟩
    · intro c hc
      rw [hc] at hfirst
      exact hfirst
    · intro c hc
      rw [hc] at hlast
      exact hlast
  · rintro ⟨hchars, hfirst, hlast, hge, hle⟩
    have hne : s ≠ [] := by
      rintro rfl
      cases hge
    refine ⟨⟨⟨⟨hge, hle⟩, hchars⟩, ?_⟩, ?_⟩
    · obtain ⟨c, tail, rfl⟩ := List.exists_cons_of_ne_nil hne
      exact hfirst c rfl
    · obtain ⟨tail, c, rfl⟩ := (List.eq_nil_or_concat' s).resolve_left hne
      rw [List.getLast?_concat] at hlast ⊢
      exact hlast c rfl

theorem validateRuleId_accepts {s : Str} :
    (∃ v, validateRuleId s = .ok v) ↔ matchesFrom [⟨ruleIdChar, 1, 64⟩] s = true := by
  rw [← matchesRuleId_iff]
  unfold validateRuleId
  split
  · rename_i hmatch
    exact iff_of_true ⟨(), rfl⟩ hmatch
  · rename_i hmatch
    refine iff_of_false ?_ hmatch
    rintro ⟨v, h⟩
    cases h

theorem sanitizeRuleId_accepts {rt : Runtime} {ops : StudioOps} {fresh : Uuid} {s title : Str} :
    sanitizeRuleId rt ops fresh (some s) title = .ok s ↔ matchesFrom slugPattern s = true := by
  rw [← matchesId_iff]
  cases s with
  | nil =>
    refine iff_of_false ?_ (by decide)
    intro h
    exact ne_nil_of_matchesRuleId (matchesRuleId_of_sanitize h) rfl
  | cons c s =>
    rw [sanitizeRuleId]
    split
    · rename_i hmatch
      exact iff_of_true rfl hmatch
    · rename_i hmatch
      refine iff_of_false ?_ hmatch
      intro h
      cases h

theorem safeUser_accepts {repr : Str → Str} {s : Str} :
    (∃ v, safeUser repr s = .ok v) ↔ matchesFrom userPattern s = true := by
  constructor
  · rintro ⟨v, h⟩
    exact (safeUser_eq_ok.mp h).2
  · intro h
    exact ⟨s, safeUser_eq_ok.mpr ⟨rfl, h⟩⟩

theorem safeKeyId_accepts {repr : Str → Str} {s : Str} :
    (∃ v, safeKeyId repr (some s) = .ok v) ↔ matchesFrom keyIdPattern s = true := by
  constructor
  · rintro ⟨v, h⟩
    exact (safeKeyId_eq_ok.mp h).2 s rfl
  · intro h
    refine ⟨some s, safeKeyId_eq_ok.mpr ⟨rfl, fun key hkey => ?_⟩⟩
    cases hkey
    exact h

/-! ## Where the checks are exact -/

theorem keyIdChar_of_ruleId {c : Char} (h : ruleIdChar c = true) : keyIdChar c = true := by
  unfold ruleIdChar at h
  unfold keyIdChar
  rw [Bool.or_eq_true, Bool.or_eq_true, Bool.or_eq_true, beq_iff_eq, beq_iff_eq, beq_iff_eq] at h
  rw [Bool.or_eq_true]
  rcases h with ((h | rfl) | rfl) | rfl
  · exact Or.inl h
  · exact Or.inr (by decide)
  · exact Or.inr (by decide)
  · exact Or.inr (by decide)

theorem ruleIdChar_of_user {c : Char} (h : userChar c = true) : ruleIdChar c = true := by
  unfold userChar at h
  unfold ruleIdChar
  rw [Bool.or_eq_true, List.contains_iff_mem] at h
  rcases h with h | h
  · rw [h]
    rfl
  · have hall : ("_.-".toList.all ruleIdChar) = true := by decide
    exact List.all_eq_true.mp hall c h

theorem DocumentedRuleId.keyId {s : Str} (h : DocumentedRuleId s) : DocumentedKeyId s :=
  ⟨fun c hc => keyIdChar_of_ruleId (h.chars c hc), h.pos, h.le.trans (by decide)⟩

theorem DocumentedSlug.ruleId {s : Str} (h : DocumentedSlug s) : DocumentedRuleId s :=
  ⟨fun c hc => isSlug_ruleId (h.chars c hc), le_trans (by decide) h.ge, h.le⟩

theorem DocumentedUser.ruleId {s : Str} (h : DocumentedUser s) : DocumentedRuleId s :=
  ⟨fun c hc => ruleIdChar_of_user (h.chars c hc), h.pos, h.le⟩

/-- A pattern is exact on every text but its own with a newline behind. -/
theorem matchesFrom_exact {row : List Repeat} {Documented : Str → Prop} {s : Str}
    (hfits : ∀ t, Fits row t ↔ Documented t) (hkey : ∀ t, Documented t → DocumentedKeyId t)
    (h : ¬ EndsInNewline s) : matchesFrom row s = true ↔ Documented s := by
  rw [matchesFrom_iff, hfits]
  refine or_iff_left ?_
  rintro ⟨t, rfl, ht⟩
  exact h ⟨t, rfl, hkey t ((hfits t).mp ht)⟩

theorem directChild_fileName {s : Str} (h : '/' ∉ s) (ops : StudioOps) (source : RuleSource) :
    DirectChild (resolvePath ops source s) (ruleFolder ops source) := by
  have hlength : (fileName s).length = s.length + 4 := List.length_append
  refine ⟨fileName s, rfl, ?_, ?_, ?_, ?_⟩
  · rw [fileName, List.mem_append, not_or]
    exact ⟨h, by decide⟩
  all_goals
    intro hname
    rw [hname] at hlength
    revert hlength
    show ¬ _ = s.length + 4
    simp

/-- No name that is documented has a newline or a separator. -/
theorem plain_of_ruleIdChar {s : Str} (h : ∀ c ∈ s, ruleIdChar c = true) :
    '\n' ∉ s ∧ '/' ∉ s ∧ '\\' ∉ s := by
  refine ⟨fun hc => ?_, fun hc => ?_, fun hc => ?_⟩
  · exact absurd (h _ hc) (by decide)
  · exact absurd (h _ hc) (by decide)
  · exact absurd (h _ hc) (by decide)

/-- The checks are exact on all texts but those with a newline behind a key id. -/
theorem identifiers_exact_iff (rt : Runtime) (ops : StudioOps) (s : Str) :
    Exact rt ops s ↔ ¬ EndsInNewline s := by
  constructor
  · rintro ⟨-, -, -, hkeyId, -, -⟩ ⟨t, rfl, ht⟩
    have hmatch : matchesFrom keyIdPattern (t ++ ['\n']) = true :=
      matchesFrom_iff.mpr (Or.inr ⟨t, rfl, fits_keyId.mpr ht⟩)
    have hnewline := (hkeyId.mp (safeKeyId_accepts.mpr hmatch)).chars '\n' (by simp)
    exact absurd hnewline (by decide)
  · intro h
    have hruleId : (∃ v, validateRuleId s = .ok v) ↔ DocumentedRuleId s :=
      validateRuleId_accepts.trans
        (matchesFrom_exact (fun _ => fits_ruleId) (fun _ => DocumentedRuleId.keyId) h)
    have hslug : ∀ fresh title,
        sanitizeRuleId rt ops fresh (some s) title = .ok s ↔ DocumentedSlug s := fun _ _ =>
      sanitizeRuleId_accepts.trans
        (matchesFrom_exact (fun _ => fits_slug) (fun _ hs => hs.ruleId.keyId) h)
    have huser : (∃ v, safeUser ops.repr s = .ok v) ↔ DocumentedUser s :=
      safeUser_accepts.trans
        (matchesFrom_exact (fun _ => fits_user) (fun _ hs => hs.ruleId.keyId) h)
    have hkeyId : (∃ v, safeKeyId ops.repr (some s) = .ok v) ↔ DocumentedKeyId s :=
      safeKeyId_accepts.trans (matchesFrom_exact (fun _ => fits_keyId) (fun _ hs => hs) h)
    have hplain : ∀ fresh title, (∃ v, validateRuleId s = .ok v) ∨
        sanitizeRuleId rt ops fresh (some s) title = .ok s ∨ (∃ v, safeUser ops.repr s = .ok v) →
          '\n' ∉ s ∧ '/' ∉ s ∧ '\\' ∉ s := by
      intro fresh title haccepts
      rw [hruleId, hslug, huser] at haccepts
      rcases haccepts with hs | hs | hs
      · exact plain_of_ruleIdChar hs.chars
      · exact plain_of_ruleIdChar hs.ruleId.chars
      · exact plain_of_ruleIdChar hs.ruleId.chars
    refine ⟨hruleId, hslug, huser, hkeyId, hplain, fun fresh title source haccepts => ?_⟩
    exact directChild_fileName (hplain fresh title (haccepts.imp_right Or.inl)).2.1 ops source

/-- A rule id with a newline behind it is accepted. -/
theorem newline_accepted :
    ¬ ∀ (rt : Runtime) (ops : StudioOps) (s : Str), Exact rt ops s := by
  intro h
  have hexact := h ⟨fun _ => .error "error", fun _ => false, fun _ _ => false, fun _ => [],
    fun _ => .ok []⟩ ⟨[], fun _ => .ok [], fun _ => .ok .null, fun _ => none, fun _ => none,
    fun _ => .ok [], fun s => s⟩ "abc\n".toList
  have hnewline := (hexact.ruleId.mp ⟨(), rfl⟩).chars '\n' (by decide)
  exact absurd hnewline (by decide)

end ZaqorinCore.Server
