import Mathlib

/-!
# Ring buffers

A ring of `n` places holds the last `n` items. An item goes to the place of the cursor, which then
moves on and wraps around; until every place is used the ring grows. `Ring n slots k xs` says that
the used places, in their order, hold the last items of `xs` when the cursor is at `k`: first those
since it was last at 0, then the ones before.
-/

namespace ZaqorinCore.Base

variable {α : Type}

/-- The used places of a ring hold the last items. -/
structure Ring (n : Nat) (slots : List α) (k : Nat) (xs : List α) : Prop where
  cursor : k < n
  filling : xs.length < n → k = xs.length
  parts : ∃ older newer, slots = newer ++ older ∧ xs.rtake n = older ++ newer ∧ newer.length = k

theorem rtake_of_length_le {n : Nat} {xs : List α} (h : xs.length ≤ n) : xs.rtake n = xs := by
  unfold List.rtake
  rw [Nat.sub_eq_zero_of_le h, List.drop_zero]

theorem rtake_length (n : Nat) (xs : List α) : (xs.rtake n).length = min n xs.length := by
  unfold List.rtake
  rw [List.length_drop]
  omega

/-- An item more on the last items. -/
theorem rtake_rtake_concat (n : Nat) (xs : List α) (x : α) :
    (xs.rtake n ++ [x]).rtake n = (xs ++ [x]).rtake n := by
  unfold List.rtake
  simp only [List.length_append, List.length_drop, List.length_singleton]
  by_cases h : xs.length < n
  · have hkeep : xs.length - n = 0 := by omega
    rw [hkeep, List.drop_zero, Nat.sub_zero]
  · have hone : xs.length - (xs.length - n) + 1 - n = 1 := by omega
    rw [hone, ← List.drop_append_of_le_length (Nat.sub_le _ _), List.drop_drop]
    congr 1
    omega

/-- The last of the last items. -/
theorem rtake_rtake (m n : Nat) (xs : List α) : (xs.rtake n).rtake m = xs.rtake (min m n) := by
  unfold List.rtake
  rw [List.length_drop, List.drop_drop]
  congr 1
  omega

namespace Ring

variable {n k : Nat} {slots xs : List α}

theorem empty (hn : 0 < n) : Ring n ([] : List α) 0 [] where
  cursor := hn
  filling _ := rfl
  parts := ⟨[], [], rfl, List.rtake_nil n, rfl⟩

/-- The used places hold the last items in some order. -/
theorem perm (h : Ring n slots k xs) : slots.Perm (xs.rtake n) := by
  obtain ⟨older, newer, hslots, hlast, -⟩ := h.parts
  rw [hslots, hlast]
  exact List.perm_append_comm

theorem size (h : Ring n slots k xs) : slots.length = min n xs.length := by
  rw [h.perm.length_eq, rtake_length]

/-- In a ring that grows the items stand in their order. -/
theorem slots_eq (h : Ring n slots k xs) (hfew : xs.length < n) : slots = xs := by
  obtain ⟨older, newer, hslots, hlast, hnewer⟩ := h.parts
  rw [rtake_of_length_le hfew.le] at hlast
  have hlength := congrArg List.length hlast
  rw [List.length_append, hnewer, h.filling hfew] at hlength
  have holder : older = [] := List.eq_nil_of_length_eq_zero (by omega)
  rw [hslots, hlast, holder, List.append_nil, List.nil_append]

/-- An item goes to a place that was not used. -/
theorem grow (h : Ring n slots k xs) (hfew : xs.length < n) (x : α) :
    Ring n (slots ++ [x]) ((k + 1) % n) (xs ++ [x]) := by
  have hk := h.filling hfew
  have hlast : (xs ++ [x]).rtake n = xs ++ [x] := by
    apply rtake_of_length_le
    rw [List.length_append, List.length_singleton]
    omega
  rw [h.slots_eq hfew]
  by_cases hend : k + 1 = n
  · rw [hend, Nat.mod_self]
    refine ⟨h.cursor.pos, ?_, xs ++ [x], [], rfl, ?_, rfl⟩
    · intro hlt
      rw [List.length_append, List.length_singleton] at hlt
      omega
    · rw [hlast, List.append_nil]
  · have hlt := h.cursor
    rw [Nat.mod_eq_of_lt (by omega)]
    refine ⟨by omega, ?_, [], xs ++ [x], (List.append_nil _).symm, ?_, ?_⟩
    · intro _
      rw [List.length_append, List.length_singleton, hk]
    · rw [hlast, List.nil_append]
    · rw [List.length_append, List.length_singleton, hk]

/-- An item takes the place of the oldest one. -/
theorem replace (h : Ring n slots k xs) (hfull : n ≤ xs.length) (x : α) :
    Ring n (slots.set k x) ((k + 1) % n) (xs ++ [x]) := by
  obtain ⟨older, newer, hslots, hlast, hnewer⟩ := h.parts
  have hlength := congrArg List.length hlast
  rw [rtake_length, List.length_append, hnewer] at hlength
  have hk := h.cursor
  have hlong : ¬ (xs ++ [x]).length < n := by
    rw [List.length_append, List.length_singleton]
    omega
  cases older with
  | nil =>
    rw [List.length_nil] at hlength
    omega
  | cons oldest older =>
    rw [List.length_cons] at hlength
    have hset : slots.set k x = newer ++ x :: older := by
      rw [hslots, ← hnewer, List.set_append_right _ _ (le_refl _), Nat.sub_self, List.set_cons_zero]
    have hlast' : (xs ++ [x]).rtake n = older ++ (newer ++ [x]) := by
      obtain ⟨m, rfl⟩ : ∃ m, n = m + 1 := ⟨n - 1, by omega⟩
      have htail : xs.rtake m = (xs.rtake (m + 1)).tail := by
        unfold List.rtake
        rw [List.tail_drop]
        congr 1
        omega
      rw [List.rtake_concat_succ, htail, hlast, List.cons_append, List.tail_cons, List.append_assoc]
    rw [hset]
    by_cases hend : k + 1 = n
    · have holder : older = [] := List.eq_nil_of_length_eq_zero (by omega)
      rw [hend, Nat.mod_self]
      refine ⟨by omega, fun hlt => absurd hlt hlong, newer ++ [x], [], ?_, ?_, rfl⟩
      · rw [holder, List.nil_append]
      · rw [hlast', holder, List.nil_append, List.append_nil]
    · rw [Nat.mod_eq_of_lt (by omega)]
      refine ⟨by omega, fun hlt => absurd hlt hlong, older, newer ++ [x], ?_, hlast', ?_⟩
      · rw [List.append_assoc]
        rfl
      · rw [List.length_append, List.length_singleton, hnewer]

end Ring

end ZaqorinCore.Base
