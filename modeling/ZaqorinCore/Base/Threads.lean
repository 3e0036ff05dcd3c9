import Mathlib

/-!
# Threads

Processes by index, each at a place of its own. A weight of the places gives the work that is left:
when one process moves, only its own part of the sum changes (`sum_update`). A mutex is locked
exactly while one process is at a place that holds it: `Guarded` is kept by locking a free mutex and
by unlocking it from such a place.
-/

namespace ZaqorinCore.Base

variable {ι π : Type}

/-- One process moves. -/
theorem sum_update [Fintype ι] [DecidableEq ι] (weight : π → Nat) (at_ : ι → π) (i : ι) (p : π) :
    ∑ j, weight (Function.update at_ i p j) + weight (at_ i) =
      ∑ j, weight (at_ j) + weight p := by
  have hrest : ∑ j ∈ Finset.univ.erase i, weight (Function.update at_ i p j) =
      ∑ j ∈ Finset.univ.erase i, weight (at_ j) := by
    refine Finset.sum_congr rfl fun j hj => ?_
    rw [Function.update_of_ne (Finset.ne_of_mem_erase hj)]
  rw [← Finset.add_sum_erase _ _ (Finset.mem_univ i), hrest, Function.update_self,
    ← Finset.add_sum_erase Finset.univ (fun j => weight (at_ j)) (Finset.mem_univ i)]
  ring

/-- What holds of every place still holds after a move to another such place. -/
theorem forall_update [DecidableEq ι] (q : π → Prop) {at_ : ι → π} (h : ∀ j, q (at_ j)) {i : ι}
    {p : π} (hp : q p) (j : ι) : q (Function.update at_ i p j) := by
  by_cases hj : j = i
  · subst hj
    rwa [Function.update_self]
  · rw [Function.update_of_ne hj]
    exact h j

/-! ## A mutex -/

/-- The mutex is locked exactly while a process holds it, and one process at most does. -/
structure Guarded (holds : π → Bool) (locked : Bool) (at_ : ι → π) : Prop where
  one : ∀ i j, holds (at_ i) = true → holds (at_ j) = true → i = j
  locked_iff : locked = true ↔ ∃ i, holds (at_ i) = true

namespace Guarded

variable {holds : π → Bool} {locked : Bool} {at_ : ι → π} {i : ι} {p : π}

theorem of_free (h : ∀ i, holds (at_ i) = false) : Guarded holds false at_ where
  one := fun i _ hi => by
    rw [h i] at hi
    cases hi
  locked_iff := iff_of_false Bool.false_ne_true fun ⟨i, hi⟩ => by
    rw [h i] at hi
    cases hi

/-- Nobody holds a free mutex. -/
theorem free (h : Guarded holds false at_) (i : ι) : holds (at_ i) = false := by
  by_contra hi
  exact Bool.false_ne_true (h.locked_iff.mpr ⟨i, eq_true_of_ne_false hi⟩)

theorem locked_of_holds (h : Guarded holds locked at_) (hi : holds (at_ i) = true) :
    locked = true := h.locked_iff.mpr ⟨i, hi⟩

variable [DecidableEq ι]

/-- A process locks the mutex. -/
theorem lock (h : Guarded holds false at_) (hp : holds p = true) :
    Guarded holds true (Function.update at_ i p) := by
  have honly : ∀ j, holds (Function.update at_ i p j) = true → j = i := by
    intro j hj
    by_contra hne
    rw [Function.update_of_ne hne, h.free j] at hj
    cases hj
  refine ⟨fun j k hj hk => (honly j hj).trans (honly k hk).symm, ?_⟩
  exact iff_of_true rfl ⟨i, by rw [Function.update_self, hp]⟩

/-- The process that holds the mutex unlocks it. -/
theorem unlock (h : Guarded holds locked at_) (hi : holds (at_ i) = true) (hp : holds p = false) :
    Guarded holds false (Function.update at_ i p) := by
  refine of_free fun j => ?_
  by_cases hj : j = i
  · subst hj
    rw [Function.update_self, hp]
  · rw [Function.update_of_ne hj]
    by_contra hne
    exact hj (h.one j i (eq_true_of_ne_false hne) hi)

/-- A process moves and goes on holding the mutex, or not holding it. -/
theorem move (h : Guarded holds locked at_) (hp : holds p = holds (at_ i)) :
    Guarded holds locked (Function.update at_ i p) := by
  have hsame : ∀ j, holds (Function.update at_ i p j) = holds (at_ j) := by
    intro j
    by_cases hj : j = i
    · subst hj
      rw [Function.update_self, hp]
    · rw [Function.update_of_ne hj]
  refine ⟨fun j k hj hk => h.one j k (hsame j ▸ hj) (hsame k ▸ hk), ?_⟩
  rw [h.locked_iff]
  simp only [hsame]

end Guarded

end ZaqorinCore.Base
