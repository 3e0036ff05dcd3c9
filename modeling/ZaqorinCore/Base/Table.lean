import Mathlib

/-!
# Relational tables

A table is a list of rows with a primary key that no two rows share. `updateWhere` is a
single `UPDATE ... SET ... WHERE ...`: it changes the rows the condition selects and leaves
every other row, and every key, as it is.
-/

namespace ZaqorinCore.Base

/-- Rows with distinct keys. -/
structure Table {ρ κ : Type} (key : ρ → κ) where
  rows : List ρ
  nodup : (rows.map key).Nodup

namespace Table

variable {ρ κ : Type} {key : ρ → κ}

def empty : Table key := ⟨[], List.nodup_nil⟩

/-- The row with key `k`. -/
def find [DecidableEq κ] (t : Table key) (k : κ) : Option ρ :=
  t.rows.find? fun r => key r == k

/-- `UPDATE ... SET f WHERE p` for an `f` that leaves the key alone. -/
def updateWhere (t : Table key) (p : ρ → Bool) (f : ρ → ρ) (hf : ∀ r, key (f r) = key r) :
    Table key where
  rows := t.rows.map fun r => if p r then f r else r
  nodup := by
    have hkey : key ∘ (fun r => if p r then f r else r) = key := by
      funext r
      simp only [Function.comp]
      split
      · exact hf r
      · rfl
    rw [List.map_map, hkey]
    exact t.nodup

/-- The number of rows an `UPDATE ... WHERE p` reports. -/
def rowcount (t : Table key) (p : ρ → Bool) : Nat := (t.rows.filter p).length

/-- `INSERT` of a row whose key is new. -/
def insert [DecidableEq κ] (t : Table key) (r : ρ) (h : t.find (key r) = none) : Table key where
  rows := t.rows ++ [r]
  nodup := by
    have hnew : key r ∉ t.rows.map key := by
      intro hm
      obtain ⟨r', hr', heq⟩ := List.mem_map.mp hm
      have := List.find?_eq_none.mp h r' hr'
      simp [heq] at this
    rw [List.map_append, List.nodup_append]
    refine ⟨t.nodup, by simp, ?_⟩
    intro a ha b hb hab
    rw [List.mem_map] at hb
    obtain ⟨r', hr', rfl⟩ := hb
    rw [List.mem_singleton] at hr'
    subst hr'
    exact hnew (hab ▸ ha)

variable [DecidableEq κ]

/-- `DELETE ... WHERE key = k`. -/
def remove (t : Table key) (k : κ) : Table key where
  rows := t.rows.filter fun r => key r ≠ k
  nodup := t.nodup.sublist (List.filter_sublist.map key)

theorem find_some {t : Table key} {k : κ} {r : ρ} (h : t.find k = some r) :
    r ∈ t.rows ∧ key r = k :=
  ⟨List.mem_of_find?_eq_some h, by simpa using List.find?_some h⟩

/-- A row is found under its own key. -/
theorem find_of_mem {t : Table key} {r : ρ} (h : r ∈ t.rows) : t.find (key r) = some r := by
  obtain ⟨rows, nodup⟩ := t
  simp only [find]
  induction rows with
  | nil => cases h
  | cons a rows ih =>
    rw [List.map_cons, List.nodup_cons] at nodup
    rcases List.mem_cons.mp h with rfl | h
    · simp
    · have hne : key a ≠ key r := by
        intro heq
        exact nodup.1 (heq ▸ List.mem_map_of_mem h)
      rw [List.find?_cons_of_neg (by simpa using hne)]
      exact ih nodup.2 h

/-- What an update does to one row. -/
theorem find_updateWhere (t : Table key) (p : ρ → Bool) (f : ρ → ρ)
    (hf : ∀ r, key (f r) = key r) (k : κ) :
    (t.updateWhere p f hf).find k = (t.find k).map fun r => if p r then f r else r := by
  simp only [find, updateWhere]
  rw [List.find?_map]
  congr 2
  funext r
  simp only [Function.comp]
  split
  · rw [hf]
  · rfl

theorem find_insert (t : Table key) (r : ρ) (h : t.find (key r) = none) (k : κ) :
    (t.insert r h).find k = if k = key r then some r else t.find k := by
  simp only [find, insert, List.find?_append]
  split
  · rename_i hk
    subst hk
    have hnone : t.rows.find? (fun r' => key r' == key r) = none := h
    rw [hnone]
    simp
  · rename_i hk
    have hlast : List.find? (fun r' => key r' == k) [r] = none := by
      simp [Ne.symm hk]
    rw [hlast, Option.or_none]

theorem find_remove (t : Table key) (k k' : κ) :
    (t.remove k).find k' = if k' = k then none else t.find k' := by
  simp only [find, remove]
  rw [List.find?_filter]
  split
  · rename_i hk
    apply List.find?_eq_none.mpr
    intro r _
    simp [hk]
  · rename_i hk
    congr 1
    funext r
    by_cases hr : key r = k'
    · simp [hr, hk]
    · simp [hr]

end Table

end ZaqorinCore.Base
