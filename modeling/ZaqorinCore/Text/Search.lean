import ZaqorinCore.Text.Bytes

/-!
# Searching in byte strings

`indexOf` and `lastIndexOf` are Go's `bytes.Index` and `strings.LastIndex`, with `none` for -1.
-/

namespace ZaqorinCore.Text

/-- The first place where the needle occurs. -/
def indexOf (needle : Bytes) : Bytes → Option Nat
  | [] => if needle.isPrefixOf [] then some 0 else none
  | b :: rest => if needle.isPrefixOf (b :: rest) then some 0 else (indexOf needle rest).map (· + 1)

/-- The last place where the needle occurs. -/
def lastIndexOf (needle : Bytes) : Bytes → Option Nat
  | [] => if needle.isPrefixOf [] then some 0 else none
  | b :: rest =>
    match lastIndexOf needle rest with
    | some i => some (i + 1)
    | none => if needle.isPrefixOf (b :: rest) then some 0 else none

/-- `bytes.IndexByte` -/
def indexByte (b : UInt8) (s : Bytes) : Option Nat := s.findIdx? (· == b)

/-- `strings.Contains` -/
def contains (s needle : Bytes) : Bool := (indexOf needle s).isSome

section

variable {needle s t : Bytes} {b : UInt8}

theorem contains_iff : contains s needle = true ↔ needle <:+: s := by
  unfold contains
  induction s with
  | nil =>
    by_cases h : needle = []
    · simp [indexOf, h]
    · simp [indexOf, h]
  | cons b s ih =>
    by_cases h : needle.isPrefixOf (b :: s) = true
    · rw [indexOf, if_pos h, List.infix_cons_iff]
      exact iff_of_true rfl (Or.inl (List.isPrefixOf_iff_prefix.mp h))
    · rw [indexOf, if_neg h, Option.isSome_map, ih, List.infix_cons_iff]
      have hstart : ¬ needle <+: b :: s := fun hp => h (List.isPrefixOf_iff_prefix.mpr hp)
      simp [hstart]

/-- What is free of a byte occurs on one side of that byte. -/
theorem infix_append_cons (hb : b ∉ needle) (h : needle <:+: s ++ b :: t) :
    needle <:+: s ∨ needle <:+: t := by
  induction s with
  | nil =>
    rcases List.infix_cons_iff.mp h with hstart | hinfix
    · cases needle with
      | nil => exact Or.inl List.nil_infix
      | cons c needle =>
        have hc : c = b := (List.cons_prefix_cons.mp hstart).1
        exact absurd (hc ▸ List.mem_cons_self) hb
    · exact Or.inr hinfix
  | cons c s ih =>
    rw [List.cons_append] at h
    rcases List.infix_cons_iff.mp h with hstart | hinfix
    · -- an occurrence at the start ends before the byte
      obtain ⟨rest, hrest⟩ := hstart
      rw [← List.cons_append] at hrest
      rcases List.append_eq_append_iff.mp hrest with ⟨tail, hs, _⟩ | ⟨tail, hn, htail⟩
      · exact Or.inl ⟨[], tail, by simpa using hs.symm⟩
      · cases tail with
        | nil => exact Or.inl ⟨[], [], by simpa using hn⟩
        | cons d tail =>
          have hd : b = d := (List.cons.inj htail).1
          exact absurd (by simp [hn, hd]) hb
    · rcases ih hinfix with hs | ht
      · exact Or.inl (List.infix_cons hs)
      · exact Or.inr ht

theorem lastIndexOf_eq_none (hb : b ∈ needle) (hs : b ∉ s) : lastIndexOf needle s = none := by
  have hstart : ∀ {r : Bytes}, b ∉ r → needle.isPrefixOf r = false := by
    intro r hr
    rw [Bool.eq_false_iff]
    intro h
    exact hr ((List.isPrefixOf_iff_prefix.mp h).subset hb)
  induction s with
  | nil => rw [lastIndexOf, hstart hs, if_neg Bool.false_ne_true]
  | cons c s ih =>
    rw [lastIndexOf, ih fun h => hs (List.mem_cons_of_mem _ h), hstart hs]
    rfl

theorem indexByte_eq_none (h : b ∉ s) : indexByte b s = none := by
  rw [indexByte, List.findIdx?_eq_none_iff]
  intro c hc
  rw [beq_eq_false_iff_ne]
  rintro rfl
  exact h hc

/-- The first occurrence stands behind what is free of the byte. -/
theorem indexByte_append (h : b ∉ s) : indexByte b (s ++ b :: t) = some s.length := by
  have hnone := indexByte_eq_none h
  unfold indexByte at hnone ⊢
  rw [List.findIdx?_append, hnone, List.findIdx?_cons, if_pos (beq_self_eq_true b)]
  simp

/-- What precedes an occurrence moves it. -/
theorem lastIndexOf_append {i : Nat} (h : lastIndexOf needle t = some i) :
    lastIndexOf needle (s ++ t) = some (s.length + i) := by
  induction s with
  | nil => simpa using h
  | cons c s ih =>
    rw [List.cons_append, lastIndexOf, ih, List.length_cons]
    simp only [Option.some.injEq]
    omega

end

end ZaqorinCore.Text
