import ZaqorinCore.Text.Numeral

/-!
# Targets on the agent

`IsValidIPv4` of the package `kinds`, which guards `block_ip` and `tarpit_ip`.
-/

namespace ZaqorinCore.Agent

open Text

/-- One part of an address: `strconv.Atoi` reads a number up to 255, and a part of two bytes or more
does not start with a zero. -/
def validOctet (p : Bytes) : Bool :=
  if p = [] then false
  else
    match atoi p with
    | none => false
    | some n => if n < 0 ∨ 255 < n then false else !(1 < p.length && p.head? == some 48)

/-- `IsValidIPv4` -/
def isValidIPv4 (s : Bytes) : Bool :=
  let parts := s.splitOn 46
  parts.length == 4 && parts.all validOctet

theorem validOctet_iff {p : Bytes} : validOctet p = true ↔
    (∃ n : Nat, n ≤ 255 ∧ atoi p = some (n : Int)) ∧ ¬ (1 < p.length ∧ p.head? = some 48) := by
  have hnil : atoi [] = none := rfl
  unfold validOctet
  by_cases hp : p = []
  · subst hp
    simp [hnil]
  · rw [if_neg hp]
    cases hread : atoi p with
    | none => simp
    | some v =>
      dsimp only
      by_cases hrange : v < 0 ∨ 255 < v
      · rw [if_pos hrange]
        simp only [Bool.false_eq_true, false_iff, not_and]
        rintro ⟨n, hn, hv⟩
        have : v = n := Option.some.inj hv
        omega
      · rw [if_neg hrange]
        have hvalue : ∃ n : Nat, n ≤ 255 ∧ some v = some (n : Int) := by
          refine ⟨v.toNat, by omega, ?_⟩
          rw [Int.toNat_of_nonneg (by omega)]
        rw [and_iff_right hvalue, Bool.not_eq_true', ← Bool.not_eq_true]
        simp

theorem isValidIPv4_iff {s : Bytes} : isValidIPv4 s = true ↔
    (s.splitOn 46).length = 4 ∧ ∀ p ∈ s.splitOn 46, validOctet p = true := by
  simp [isValidIPv4]

/-! ## The bytes of an address -/

theorem mem_of_atoi {p : Bytes} {v : Int} (h : atoi p = some v) {b : UInt8} (hb : b ∈ p) :
    isDigitByte b = true ∨ b = 43 ∨ b = 45 := by
  have hdigits : ∀ c ∈ (goSign p).2, isDigitByte c = true := by
    cases hread : atoiDigits (goSign p).2 with
    | none => simp [atoi, hread] at h
    | some n =>
      unfold atoiDigits at hread
      split at hread
      · rename_i hall
        exact List.all_eq_true.mp hall.2
      · cases hread
  cases p with
  | nil => cases hb
  | cons c p =>
    unfold goSign at hdigits
    simp only [List.head?_cons, Option.some.injEq, List.tail_cons] at hdigits
    split at hdigits
    · rename_i hplus
      rcases List.mem_cons.mp hb with rfl | hb
      · exact Or.inr (Or.inl hplus)
      · exact Or.inl (hdigits b hb)
    · split at hdigits
      · rename_i hminus
        rcases List.mem_cons.mp hb with rfl | hb
        · exact Or.inr (Or.inr hminus)
        · exact Or.inl (hdigits b hb)
      · exact Or.inl (hdigits b hb)

theorem mem_intercalate {α : Type} {sep a : α} {parts : List (List α)}
    (h : a ∈ List.intercalate [sep] parts) : a = sep ∨ ∃ p ∈ parts, a ∈ p := by
  induction parts with
  | nil => simp at h
  | cons p parts ih =>
    cases parts with
    | nil => exact Or.inr ⟨p, List.mem_cons_self, by simpa using h⟩
    | cons q parts =>
      rw [List.intercalate_cons_cons, List.mem_append, List.mem_append, List.mem_singleton] at h
      rcases h with (h | h) | h
      · exact Or.inr ⟨p, List.mem_cons_self, h⟩
      · exact Or.inl h
      · rcases ih h with h | ⟨r, hr, h⟩
        · exact Or.inl h
        · exact Or.inr ⟨r, List.mem_cons_of_mem _ hr, h⟩

/-- The bytes of a valid address lie between `+` and `9`. -/
theorem mem_isValidIPv4 {s : Bytes} (h : isValidIPv4 s = true) {b : UInt8} (hb : b ∈ s) :
    43 ≤ b.toNat ∧ b.toNat ≤ 57 := by
  have hjoin : b ∈ List.intercalate [46] (s.splitOn 46) := by
    rw [List.intercalate_splitOn]
    exact hb
  rcases mem_intercalate hjoin with rfl | ⟨p, hp, hbp⟩
  · decide
  · obtain ⟨⟨n, _, hread⟩, _⟩ := validOctet_iff.mp ((isValidIPv4_iff.mp h).2 p hp)
    rcases mem_of_atoi hread hbp with hdigit | rfl | rfl
    · simp only [isDigitByte, Bool.and_eq_true, decide_eq_true_eq] at hdigit
      omega
    · decide
    · decide

end ZaqorinCore.Agent
