import Mathlib

/-!
# Edit distance

The least number of insertions, deletions and substitutions that turn one list into another, and the
recursion on the two lists that computes it: `isLeast_editDistance`. The recursion takes the lists
from their heads; read backwards it is the one on prefixes: `editDistance_reverse`.
-/

namespace ZaqorinCore.Base

variable {α : Type}

/-- One insertion, deletion or substitution. -/
inductive Edit : List α → List α → Prop
  | insert (u v : List α) (y : α) : Edit (u ++ v) (u ++ y :: v)
  | delete (u v : List α) (x : α) : Edit (u ++ x :: v) (u ++ v)
  | substitute (u v : List α) (x y : α) : Edit (u ++ x :: v) (u ++ y :: v)

/-- `n` edits turn the one list into the other. -/
inductive Edits : Nat → List α → List α → Prop
  | nil (a : List α) : Edits 0 a a
  | cons {n : Nat} {a b c : List α} (h : Edit a b) (rest : Edits n b c) : Edits (n + 1) a c

namespace Edit

theorem symm {a b : List α} (h : Edit a b) : Edit b a := by
  cases h with
  | insert u v y => exact .delete u v y
  | delete u v x => exact .insert u v x
  | substitute u v x y => exact .substitute u v y x

theorem cons {a b : List α} (z : α) (h : Edit a b) : Edit (z :: a) (z :: b) := by
  cases h with
  | insert u v y => exact .insert (z :: u) v y
  | delete u v x => exact .delete (z :: u) v x
  | substitute u v x y => exact .substitute (z :: u) v x y

theorem reverse {a b : List α} (h : Edit a b) : Edit a.reverse b.reverse := by
  cases h with
  | insert u v y => simpa using Edit.insert v.reverse u.reverse y
  | delete u v x => simpa using Edit.delete v.reverse u.reverse x
  | substitute u v x y => simpa using Edit.substitute v.reverse u.reverse x y

theorem length_le {a b : List α} (h : Edit a b) : a.length ≤ b.length + 1 := by
  cases h <;> simp <;> omega

end Edit

namespace Edits

theorem trans {m n : Nat} {a b c : List α} (h : Edits m a b) (h' : Edits n b c) :
    Edits (m + n) a c := by
  induction h with
  | nil a => rwa [Nat.zero_add]
  | cons h _ ih =>
    rw [Nat.add_right_comm]
    exact .cons h (ih h')

theorem symm {n : Nat} {a b : List α} (h : Edits n a b) : Edits n b a := by
  induction h with
  | nil a => exact .nil a
  | cons h _ ih => exact ih.trans (.cons h.symm (.nil _))

theorem under_cons {n : Nat} {a b : List α} (z : α) (h : Edits n a b) :
    Edits n (z :: a) (z :: b) := by
  induction h with
  | nil a => exact .nil _
  | cons h _ ih => exact .cons (h.cons z) ih

theorem reverse {n : Nat} {a b : List α} (h : Edits n a b) : Edits n a.reverse b.reverse := by
  induction h with
  | nil a => exact .nil _
  | cons h _ ih => exact .cons h.reverse ih

theorem zero_iff {a b : List α} : Edits 0 a b ↔ a = b := by
  constructor
  · intro h
    cases h
    rfl
  · rintro rfl
    exact .nil a

theorem length_le {n : Nat} {a b : List α} (h : Edits n a b) : a.length ≤ b.length + n := by
  induction h with
  | nil a => exact Nat.le_refl _
  | cons h _ ih =>
    have := h.length_le
    omega

/-- All elements can be deleted. -/
theorem to_nil (a : List α) : Edits a.length a [] := by
  induction a with
  | nil => exact .nil []
  | cons x a ih => exact .cons (.delete [] a x) ih

end Edits

variable [DecidableEq α]

def editDistance : List α → List α → Nat
  | [], b => b.length
  | x :: a, [] => a.length + 1
  | x :: a, y :: b =>
    min (min (editDistance (x :: a) b + 1) (editDistance a (y :: b) + 1))
      (editDistance a b + if x ≠ y then 1 else 0)
termination_by a b => a.length + b.length

theorem editDistance_nil_left (b : List α) : editDistance [] b = b.length := by
  rw [editDistance]

theorem editDistance_nil_right (a : List α) : editDistance a [] = a.length := by
  cases a with
  | nil => rw [editDistance]
  | cons x a => rw [editDistance, List.length_cons]

theorem editDistance_cons_cons (x : α) (a : List α) (y : α) (b : List α) :
    editDistance (x :: a) (y :: b) =
      min (min (editDistance (x :: a) b + 1) (editDistance a (y :: b) + 1))
        (editDistance a b + if x ≠ y then 1 else 0) := by
  rw [editDistance]

/-- The distance is reached. -/
theorem edits_editDistance (a b : List α) : Edits (editDistance a b) a b := by
  induction a, b using editDistance.induct with
  | case1 b =>
    rw [editDistance_nil_left]
    exact (Edits.to_nil b).symm
  | case2 x a =>
    rw [editDistance_nil_right]
    exact Edits.to_nil (x :: a)
  | case3 x a y b hinsert hdelete hsame =>
    rw [editDistance_cons_cons]
    rcases min_choice (min (editDistance (x :: a) b + 1) (editDistance a (y :: b) + 1))
      (editDistance a b + if x ≠ y then 1 else 0) with hmin | hmin
    · rw [hmin]
      rcases min_choice (editDistance (x :: a) b + 1) (editDistance a (y :: b) + 1) with h | h
      · rw [h]
        exact .cons (.insert [] (x :: a) y) (hinsert.under_cons y)
      · rw [h]
        exact .cons (.delete [] a x) hdelete
    · rw [hmin]
      split
      · exact .cons (.substitute [] a x y) (hsame.under_cons y)
      · rename_i heq
        rw [not_not.mp heq]
        exact hsame.under_cons y

theorem editDistance_insert_right (a : List α) (y : α) (b : List α) :
    editDistance a (y :: b) ≤ editDistance a b + 1 := by
  cases a with
  | nil => rw [editDistance_nil_left, editDistance_nil_left, List.length_cons]
  | cons x a =>
    rw [editDistance_cons_cons]
    exact (min_le_left _ _).trans (min_le_left _ _)

theorem editDistance_delete_left (x : α) (a b : List α) :
    editDistance (x :: a) b ≤ editDistance a b + 1 := by
  cases b with
  | nil => rw [editDistance_nil_right, editDistance_nil_right, List.length_cons]
  | cons y b =>
    rw [editDistance_cons_cons]
    exact (min_le_left _ _).trans (min_le_right _ _)

theorem editDistance_substitute (x : α) (a : List α) (y : α) (b : List α) :
    editDistance (x :: a) (y :: b) ≤ editDistance a b + if x ≠ y then 1 else 0 := by
  rw [editDistance_cons_cons]
  exact min_le_right _ _

/-- The three ways in which the distance of two lists that are not empty comes about. -/
theorem editDistance_cases (x : α) (a : List α) (y : α) (b : List α) :
    editDistance (x :: a) (y :: b) = editDistance (x :: a) b + 1 ∨
    editDistance (x :: a) (y :: b) = editDistance a (y :: b) + 1 ∨
    editDistance (x :: a) (y :: b) = editDistance a b + if x ≠ y then 1 else 0 := by
  rw [editDistance_cons_cons]
  omega

theorem editDistance_insert_left (y : α) (a c : List α) :
    editDistance a c ≤ editDistance (y :: a) c + 1 := by
  induction c with
  | nil =>
    rw [editDistance_nil_right, editDistance_nil_right, List.length_cons]
    omega
  | cons z c ih =>
    have hright := editDistance_insert_right a z c
    rcases editDistance_cases y a z c with h | h | h <;> rw [h]
    · omega
    · omega
    · omega

/-- An edit behind a common head moves the distance by one, if it does so without the head. -/
theorem editDistance_under_cons (z : α) {a b : List α}
    (h : ∀ c, editDistance a c ≤ editDistance b c + 1) (c : List α) :
    editDistance (z :: a) c ≤ editDistance (z :: b) c + 1 := by
  induction c with
  | nil =>
    have := h []
    rw [editDistance_nil_right, editDistance_nil_right] at this ⊢
    simpa using this
  | cons y c ih =>
    rcases editDistance_cases z b y c with heq | heq | heq <;> rw [heq]
    · have := editDistance_insert_right (z :: a) y c
      omega
    · have := editDistance_delete_left z a (y :: c)
      have := h (y :: c)
      omega
    · have := editDistance_substitute z a y c
      have := h c
      omega

theorem editDistance_le_of_edit {a b : List α} (h : Edit a b) (c : List α) :
    editDistance a c ≤ editDistance b c + 1 := by
  cases h with
  | insert u v y =>
    induction u generalizing c with
    | nil => exact editDistance_insert_left y v c
    | cons z u ih => exact editDistance_under_cons z ih c
  | delete u v x =>
    induction u generalizing c with
    | nil => exact editDistance_delete_left x v c
    | cons z u ih => exact editDistance_under_cons z ih c
  | substitute u v x y =>
    induction u generalizing c with
    | nil =>
      show editDistance (x :: v) c ≤ editDistance (y :: v) c + 1
      induction c with
      | nil =>
        rw [editDistance_nil_right, editDistance_nil_right, List.length_cons, List.length_cons]
        omega
      | cons z c ih =>
        rcases editDistance_cases y v z c with heq | heq | heq <;> rw [heq]
        · have := editDistance_insert_right (x :: v) z c
          omega
        · have := editDistance_delete_left x v (z :: c)
          omega
        · have := editDistance_substitute x v z c
          have hcost : (if x ≠ z then 1 else 0) ≤ 1 := by split <;> omega
          omega
    | cons z u ih => exact editDistance_under_cons z ih c

theorem editDistance_self (a : List α) : editDistance a a = 0 := by
  induction a with
  | nil => rw [editDistance_nil_left, List.length_nil]
  | cons x a ih =>
    have := editDistance_substitute x a x a
    simp only [ne_eq, not_true_eq_false, if_false] at this
    omega

/-- No fewer edits reach it. -/
theorem editDistance_le_of_edits {n : Nat} {a b : List α} (h : Edits n a b) :
    editDistance a b ≤ n := by
  induction h with
  | nil a => exact (editDistance_self a).le
  | @cons n a b c h _ ih =>
    have := editDistance_le_of_edit h c
    omega

theorem isLeast_editDistance (a b : List α) : IsLeast {n | Edits n a b} (editDistance a b) :=
  ⟨edits_editDistance a b, fun _ h => editDistance_le_of_edits h⟩

/-- The distance does not depend on the end from which the lists are taken. -/
theorem editDistance_reverse (a b : List α) :
    editDistance a.reverse b.reverse = editDistance a b := by
  apply le_antisymm
  · exact editDistance_le_of_edits (edits_editDistance a b).reverse
  · have h := (edits_editDistance a.reverse b.reverse).reverse
    rw [List.reverse_reverse, List.reverse_reverse] at h
    exact editDistance_le_of_edits h

/-- The recursion on prefixes. -/
theorem editDistance_concat (a : List α) (x : α) (b : List α) (y : α) :
    editDistance (a ++ [x]) (b ++ [y]) =
      min (min (editDistance (a ++ [x]) b + 1) (editDistance a (b ++ [y]) + 1))
        (editDistance a b + if x ≠ y then 1 else 0) := by
  rw [← editDistance_reverse, ← editDistance_reverse (a ++ [x]) b,
    ← editDistance_reverse a (b ++ [y]), ← editDistance_reverse a b]
  simp only [List.reverse_append, List.reverse_cons, List.reverse_nil, List.nil_append,
    List.singleton_append]
  exact editDistance_cons_cons x a.reverse y b.reverse

/-! ## A metric -/

theorem editDistance_eq_zero {a b : List α} : editDistance a b = 0 ↔ a = b := by
  constructor
  · intro h
    have hedits := edits_editDistance a b
    rw [h] at hedits
    exact Edits.zero_iff.mp hedits
  · rintro rfl
    exact editDistance_self a

theorem editDistance_comm (a b : List α) : editDistance a b = editDistance b a :=
  le_antisymm (editDistance_le_of_edits (edits_editDistance b a).symm)
    (editDistance_le_of_edits (edits_editDistance a b).symm)

theorem editDistance_triangle (a b c : List α) :
    editDistance a c ≤ editDistance a b + editDistance b c :=
  editDistance_le_of_edits ((edits_editDistance a b).trans (edits_editDistance b c))

theorem length_le_editDistance (a b : List α) : a.length ≤ b.length + editDistance a b :=
  (edits_editDistance a b).length_le

end ZaqorinCore.Base
