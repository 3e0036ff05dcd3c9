import ZaqorinCore.Text.Bytes

/-!
# Patterns of character classes

The patterns of Python's `re` that are a row of classes with bounds, such as `^[a-z][a-z0-9]{0,9}$`,
as `match` reads them: each class takes as much as it can and gives back what the rest needs
(`matchesFrom`). The anchor `$` also stands before a newline at the end of the text, so what is
matched is a text of the row or one with a newline behind it: `matchesFrom_iff`.
-/

namespace ZaqorinCore.Text

/-- `[…]{lo,hi}` -/
structure Repeat where
  chars : Char → Bool
  lo : Nat
  hi : Nat

/-- The text is what the classes take one after the other. -/
inductive Fits : List Repeat → Str → Prop
  | nil : Fits [] []
  | cons {r : Repeat} {rest : List Repeat} {part tail : Str}
      (hchars : ∀ c ∈ part, r.chars c = true) (hlo : r.lo ≤ part.length)
      (hhi : part.length ≤ r.hi) (h : Fits rest tail) : Fits (r :: rest) (part ++ tail)

/-- A class, and what the rest of the pattern says of the text behind it. -/
def matchRepeat (chars : Char → Bool) (rest : Str → Bool) : Nat → Nat → Str → Bool
  | lo, hi + 1, c :: s =>
    (chars c && matchRepeat chars rest (lo - 1) hi s) || (lo == 0 && rest (c :: s))
  | lo, _, s => lo == 0 && rest s

/-- `re.match` of `^`, the classes and `$`. -/
def matchesFrom : List Repeat → Str → Bool
  | [], s => s == [] || s == ['\n']
  | r :: rest, s => matchRepeat r.chars (matchesFrom rest) r.lo r.hi s

theorem matchRepeat_iff {chars : Char → Bool} {rest : Str → Bool} {lo hi : Nat} {s : Str} :
    matchRepeat chars rest lo hi s = true ↔ ∃ part tail, s = part ++ tail ∧
      (∀ c ∈ part, chars c = true) ∧ lo ≤ part.length ∧ part.length ≤ hi ∧ rest tail = true := by
  have hnone : ∀ {lo hi : Nat} {s : Str}, (lo == 0 && rest s) = true →
      ∃ part tail, s = part ++ tail ∧ (∀ c ∈ part, chars c = true) ∧ lo ≤ part.length ∧
        part.length ≤ hi ∧ rest tail = true := by
    intro lo hi s h
    rw [Bool.and_eq_true, beq_iff_eq] at h
    exact ⟨[], s, rfl, fun c hc => absurd hc List.not_mem_nil, h.1.le, Nat.zero_le _, h.2⟩
  induction hi generalizing lo s with
  | zero =>
    rw [matchRepeat]
    · constructor
      · exact hnone
      · rintro ⟨part, tail, rfl, -, hlo, hhi, hrest⟩
        obtain rfl := List.eq_nil_of_length_eq_zero (Nat.le_zero.mp hhi)
        rw [Bool.and_eq_true, beq_iff_eq]
        exact ⟨Nat.le_zero.mp hlo, hrest⟩
    · intro n c t h
      cases h
  | succ hi ih =>
    cases s with
    | nil =>
      rw [matchRepeat]
      · constructor
        · exact hnone
        · rintro ⟨part, tail, hs, -, hlo, -, hrest⟩
          obtain ⟨rfl, rfl⟩ := List.append_eq_nil_iff.mp hs.symm
          rw [Bool.and_eq_true, beq_iff_eq]
          exact ⟨Nat.le_zero.mp hlo, hrest⟩
      · intro n c t _ h
        cases h
    | cons c s =>
      rw [matchRepeat, Bool.or_eq_true, Bool.and_eq_true]
      constructor
      · rintro (⟨hc, h⟩ | h)
        · obtain ⟨part, tail, rfl, hchars, hlo, hhi, hrest⟩ := ih.mp h
          refine ⟨c :: part, tail, rfl, ?_, ?_, Nat.succ_le_succ hhi, hrest⟩
          · rw [List.forall_mem_cons]
            exact ⟨hc, hchars⟩
          · rw [List.length_cons]
            omega
        · exact hnone h
      · rintro ⟨part, tail, hs, hchars, hlo, hhi, hrest⟩
        cases part with
        | nil =>
          right
          rw [Bool.and_eq_true, beq_iff_eq, hs]
          exact ⟨Nat.le_zero.mp hlo, hrest⟩
        | cons d part =>
          left
          cases hs
          rw [List.forall_mem_cons] at hchars
          rw [List.length_cons] at hlo hhi
          exact ⟨hchars.1, ih.mpr ⟨part, tail, rfl, hchars.2, by omega, by omega, hrest⟩⟩

theorem fits_nil {s : Str} : Fits [] s ↔ s = [] := by
  constructor
  · intro h
    cases h
    rfl
  · rintro rfl
    exact .nil

theorem fits_cons {r : Repeat} {rest : List Repeat} {s : Str} :
    Fits (r :: rest) s ↔ ∃ part tail, s = part ++ tail ∧ (∀ c ∈ part, r.chars c = true) ∧
      r.lo ≤ part.length ∧ part.length ≤ r.hi ∧ Fits rest tail := by
  constructor
  · intro h
    cases h with
    | cons hchars hlo hhi h => exact ⟨_, _, rfl, hchars, hlo, hhi, h⟩
  · rintro ⟨part, tail, rfl, hchars, hlo, hhi, h⟩
    exact .cons hchars hlo hhi h

/-- A pattern matches the texts of its row, and those with one newline behind. -/
theorem matchesFrom_iff {row : List Repeat} {s : Str} :
    matchesFrom row s = true ↔ Fits row s ∨ ∃ t, s = t ++ ['\n'] ∧ Fits row t := by
  induction row generalizing s with
  | nil =>
    rw [matchesFrom, Bool.or_eq_true, beq_iff_eq, beq_iff_eq, fits_nil]
    constructor
    · rintro (rfl | rfl)
      · exact Or.inl rfl
      · exact Or.inr ⟨[], rfl, .nil⟩
    · rintro (rfl | ⟨t, rfl, h⟩)
      · exact Or.inl rfl
      · rw [fits_nil.mp h]
        exact Or.inr rfl
  | cons r row ih =>
    rw [matchesFrom, matchRepeat_iff]
    constructor
    · rintro ⟨part, tail, rfl, hchars, hlo, hhi, hrest⟩
      rcases ih.mp hrest with h | ⟨t, rfl, h⟩
      · exact Or.inl (.cons hchars hlo hhi h)
      · exact Or.inr ⟨part ++ t, (List.append_assoc _ _ _).symm, .cons hchars hlo hhi h⟩
    · rintro (h | ⟨t, rfl, h⟩)
      · obtain ⟨part, tail, rfl, hchars, hlo, hhi, h⟩ := fits_cons.mp h
        exact ⟨part, tail, rfl, hchars, hlo, hhi, ih.mpr (Or.inl h)⟩
      · obtain ⟨part, tail, rfl, hchars, hlo, hhi, h⟩ := fits_cons.mp h
        exact ⟨part, _, List.append_assoc _ _ _, hchars, hlo, hhi, ih.mpr (Or.inr ⟨tail, rfl, h⟩)⟩

/-- One class. -/
theorem fits_one {r : Repeat} {s : Str} :
    Fits [r] s ↔ (∀ c ∈ s, r.chars c = true) ∧ r.lo ≤ s.length ∧ s.length ≤ r.hi := by
  rw [fits_cons]
  constructor
  · rintro ⟨part, tail, rfl, hchars, hlo, hhi, h⟩
    rw [fits_nil.mp h, List.append_nil]
    exact ⟨hchars, hlo, hhi⟩
  · rintro ⟨hchars, hlo, hhi⟩
    exact ⟨s, [], (List.append_nil s).symm, hchars, hlo, hhi, .nil⟩

/-- One character of a class at the start. -/
theorem fits_head {p : Char → Bool} {rest : List Repeat} {s : Str} :
    Fits (⟨p, 1, 1⟩ :: rest) s ↔ ∃ c tail, s = c :: tail ∧ p c = true ∧ Fits rest tail := by
  rw [fits_cons]
  constructor
  · rintro ⟨part, tail, rfl, hchars, hlo, hhi, h⟩
    obtain ⟨c, rfl⟩ := List.length_eq_one_iff.mp (le_antisymm hhi hlo)
    exact ⟨c, tail, rfl, hchars c List.mem_cons_self, h⟩
  · rintro ⟨c, tail, rfl, hc, h⟩
    exact ⟨[c], tail, rfl, fun d hd => List.mem_singleton.mp hd ▸ hc, le_refl _, le_refl _, h⟩

end ZaqorinCore.Text
