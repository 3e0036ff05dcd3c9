import Mathlib

/-!
# First occurrences

`firsts key seen l` runs through a list with a set of keys: an element whose key was seen is left
out, every other one is kept. What is kept is, for each key, the element that `find?` finds. Where
two lists are related element by element, so are the elements that `find?` finds in them.
-/

namespace ZaqorinCore.Base

variable {α κ : Type} [DecidableEq κ] (key : α → κ)

def firsts : List κ → List α → List α
  | _, [] => []
  | seen, a :: rest =>
    if key a ∈ seen then firsts seen rest else a :: firsts (key a :: seen) rest

/-- What is kept is found first under its key. -/
theorem mem_firsts_iff {seen : List κ} {l : List α} {a : α} : a ∈ firsts key seen l ↔
    key a ∉ seen ∧ l.find? (fun b => key b = key a) = some a := by
  induction l generalizing seen with
  | nil => simp [firsts]
  | cons b rest ih =>
    rw [firsts]
    by_cases hkey : key b = key a
    · rw [List.find?_cons_of_pos (by simpa using hkey)]
      by_cases hseen : key b ∈ seen
      · rw [if_pos hseen, ih]
        rw [hkey] at hseen
        exact iff_of_false (fun h => h.1 hseen) fun h => h.1 hseen
      · rw [if_neg hseen, List.mem_cons, ih, ← hkey]
        simp [hseen, eq_comm]
    · rw [List.find?_cons_of_neg (by simpa using hkey)]
      by_cases hseen : key b ∈ seen
      · rw [if_pos hseen, ih]
      · have hne : a ≠ b := fun h => hkey (by rw [h])
        rw [if_neg hseen, List.mem_cons, ih]
        simp [hne, Ne.symm hkey]

/-- No key is kept twice. -/
theorem firsts_nodup (seen : List κ) (l : List α) : ((firsts key seen l).map key).Nodup := by
  induction l generalizing seen with
  | nil => exact List.nodup_nil
  | cons a rest ih =>
    rw [firsts]
    split
    · exact ih seen
    · rw [List.map_cons, List.nodup_cons]
      refine ⟨fun hmem => ?_, ih _⟩
      obtain ⟨b, hb, heq⟩ := List.mem_map.mp hmem
      apply ((mem_firsts_iff key).mp hb).1
      rw [heq]
      exact List.mem_cons_self

/-- Every key is kept. -/
theorem exists_firsts {l : List α} {a : α} (h : a ∈ l) :
    ∃ b ∈ firsts key [] l, key b = key a := by
  obtain ⟨b, hb⟩ : ∃ b, l.find? (fun b => key b = key a) = some b := by
    rw [← Option.isSome_iff_exists, List.find?_isSome]
    exact ⟨a, h, by simp⟩
  have hkey : key b = key a := by simpa using List.find?_some hb
  refine ⟨b, (mem_firsts_iff key).mpr ⟨List.not_mem_nil, ?_⟩, hkey⟩
  rw [hkey]
  exact hb

/-! ## Related lists -/

section

variable {α β : Type} {R : α → β → Prop} {l : List α} {m : List β}

theorem exists_related_left (h : List.Forall₂ R l m) {b : β} (hb : b ∈ m) : ∃ a ∈ l, R a b := by
  induction h with
  | nil => cases hb
  | @cons first other l m hfirst hrest ih =>
    rcases List.mem_cons.mp hb with rfl | hb
    · exact ⟨first, List.mem_cons_self, hfirst⟩
    · obtain ⟨a, ha, hab⟩ := ih hb
      exact ⟨a, List.mem_cons_of_mem _ ha, hab⟩

theorem exists_related_right (h : List.Forall₂ R l m) {a : α} (ha : a ∈ l) : ∃ b ∈ m, R a b :=
  exists_related_left h.flip ha

theorem exists_related (h : ∀ a ∈ l, ∃ b, R a b) : ∃ m, List.Forall₂ R l m := by
  induction l with
  | nil => exact ⟨[], List.Forall₂.nil⟩
  | cons a rest ih =>
    obtain ⟨b, hab⟩ := h a List.mem_cons_self
    obtain ⟨m, hm⟩ := ih fun a' ha' => h a' (List.mem_cons_of_mem _ ha')
    exact ⟨b :: m, List.Forall₂.cons hab hm⟩

/-- Related tests find related elements. -/
theorem find?_related {p : α → Bool} {q : β → Bool} (h : List.Forall₂ R l m)
    (hpq : ∀ a b, R a b → p a = q b) : Option.Rel R (l.find? p) (m.find? q) := by
  induction h with
  | nil => exact Option.Rel.none
  | @cons a b l m hab hrest ih =>
    rw [List.find?_cons, List.find?_cons, hpq a b hab]
    cases q b with
    | true => exact Option.Rel.some hab
    | false => exact ih

end

end ZaqorinCore.Base
