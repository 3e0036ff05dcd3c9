import Mathlib

/-!
# Open addressing

A table of `n` slots, each free or taken by a key. The slots are probed in turn from the home of a
key, with wrap-around, up to the first one that is free or already the key's. Keys are never taken
out, so a key stays where it was put: `Placed` is the invariant behind it. As long as no more than
`n` keys are used, every one of them finds a slot of its own.
-/

namespace ZaqorinCore.Base

variable {n : Nat} {κ : Type}

/-- The slots in the order in which they are probed. -/
def probes (n home : Nat) (hn : 0 < n) : List (Fin n) :=
  (List.range n).map fun i => ⟨(home + i) % n, Nat.mod_lt _ hn⟩

theorem mem_probes (home : Nat) (hn : 0 < n) (s : Fin n) : s ∈ probes n home hn := by
  refine List.mem_map.mpr ⟨(s.val + (n - home % n)) % n, ?_, ?_⟩
  · exact List.mem_range.mpr (Nat.mod_lt _ hn)
  · apply Fin.ext
    have hlt : home % n < n := Nat.mod_lt _ hn
    have hsum : home % n + (s.val + (n - home % n)) = s.val + n := by omega
    simp only
    rw [Nat.add_mod_mod, ← Nat.mod_add_mod, hsum, Nat.add_mod_right,
      Nat.mod_eq_of_lt s.isLt]

variable [DecidableEq κ]

/-- The slot is free or holds the key. -/
def admits (taken : Fin n → Option κ) (key : κ) (s : Fin n) : Bool :=
  taken s = none ∨ taken s = some key

/-- The first slot that admits the key. -/
def locate (taken : Fin n → Option κ) (hn : 0 < n) (home : κ → Nat) (key : κ) : Option (Fin n) :=
  (probes n (home key) hn).find? (admits taken key)

/-- Every key that has a slot is found there. -/
def Placed (taken : Fin n → Option κ) (hn : 0 < n) (home : κ → Nat) : Prop :=
  ∀ s key, taken s = some key → locate taken hn home key = some s

section

variable {taken : Fin n → Option κ} {hn : 0 < n} {home : κ → Nat} {key : κ} {s : Fin n}

theorem admits_of_locate (h : locate taken hn home key = some s) :
    taken s = none ∨ taken s = some key := by
  have hs := List.find?_some h
  simpa [admits] using hs

/-- A key finds no slot only when every slot is taken by another key. -/
theorem taken_of_locate_eq_none (h : locate taken hn home key = none) (s : Fin n) :
    ∃ other, other ≠ key ∧ taken s = some other := by
  have hs := List.find?_eq_none.mp h s (mem_probes (home key) hn s)
  cases htaken : taken s with
  | none => simp [admits, htaken] at hs
  | some other =>
    refine ⟨other, ?_, rfl⟩
    rintro rfl
    simp [admits, htaken] at hs

/-- Taking the slot that a search found does not change where the search ends. -/
theorem locate_update_self (h : locate taken hn home key = some s) :
    locate (Function.update taken s (some key)) hn home key = some s := by
  obtain ⟨_, before, after, hsplit, hbefore⟩ := List.find?_eq_some_iff_append.mp h
  refine List.find?_eq_some_iff_append.mpr ⟨?_, before, after, hsplit, ?_⟩
  · simp [admits]
  · intro x hx
    have hold := hbefore x hx
    have hne : x ≠ s := by
      rintro rfl
      have hs := List.find?_some h
      rw [hs] at hold
      exact absurd hold (by decide)
    simpa [admits, Function.update_of_ne hne] using hold

/-- Where a key was put it stays, whatever free slot is taken. -/
theorem locate_update_of_ne {other : κ} {s' : Fin n} (h : locate taken hn home other = some s')
    (hput : taken s' = some other) (hfree : taken s = none) :
    locate (Function.update taken s (some key)) hn home other = some s' := by
  obtain ⟨_, before, after, hsplit, hbefore⟩ := List.find?_eq_some_iff_append.mp h
  have hss : s' ≠ s := by
    rintro rfl
    rw [hput] at hfree
    cases hfree
  refine List.find?_eq_some_iff_append.mpr ⟨?_, before, after, hsplit, ?_⟩
  · simp [admits, Function.update_of_ne hss, hput]
  · intro x hx
    have hold := hbefore x hx
    have hxs : x ≠ s := by
      rintro rfl
      simp [admits, hfree] at hold
    simpa [admits, Function.update_of_ne hxs] using hold

theorem placed_empty : Placed (fun _ : Fin n => (none : Option κ)) hn home := by
  intro s key h
  cases h

theorem Placed.slot_unique (hplaced : Placed taken hn home) {s' : Fin n}
    (h : taken s = some key) (h' : taken s' = some key) : s = s' := by
  have hs := hplaced s key h
  rw [hplaced s' key h'] at hs
  exact (Option.some.inj hs).symm

/-- Putting a key into the slot found for it keeps the table in order. -/
theorem Placed.update (hplaced : Placed taken hn home) (h : locate taken hn home key = some s) :
    Placed (Function.update taken s (some key)) hn home := by
  intro s' other hput
  by_cases hs : s' = s
  · subst hs
    rw [Function.update_self] at hput
    cases hput
    exact locate_update_self h
  · rw [Function.update_of_ne hs] at hput
    rcases admits_of_locate h with hfree | hown
    · exact locate_update_of_ne (hplaced s' other hput) hput hfree
    · -- the slot was the key's own already
      have hsame : Function.update taken s (some key) = taken := by
        rw [← hown, Function.update_eq_self]
      rw [hsame]
      exact hplaced s' other hput

/-- As long as the keys are at most as many as the slots, each finds one. -/
theorem Placed.locate_isSome (hplaced : Placed taken hn home) {keys : Finset κ}
    (hkeys : ∀ s key, taken s = some key → key ∈ keys) (hkey : key ∈ keys)
    (hcard : keys.card ≤ n) : ∃ s, locate taken hn home key = some s := by
  cases hlocate : locate taken hn home key with
  | some s => exact ⟨s, rfl⟩
  | none =>
    exfalso
    choose occupant hoccupant using taken_of_locate_eq_none hlocate
    have hinj : Function.Injective occupant := by
      intro s s' heq
      have h' := (hoccupant s').2
      rw [← heq] at h'
      exact hplaced.slot_unique (hoccupant s).2 h'
    have hsub : Finset.univ.image occupant ⊆ keys.erase key := by
      intro x hx
      obtain ⟨s, _, rfl⟩ := Finset.mem_image.mp hx
      exact Finset.mem_erase.mpr ⟨(hoccupant s).1, hkeys s _ (hoccupant s).2⟩
    have hle := Finset.card_le_card hsub
    rw [Finset.card_image_of_injective _ hinj, Finset.card_univ, Fintype.card_fin,
      Finset.card_erase_of_mem hkey] at hle
    have hpos : 0 < keys.card := Finset.card_pos.mpr ⟨key, hkey⟩
    omega

/-- A key finds no slot exactly when it has none and the keys that have one are as many as the
slots. -/
theorem Placed.locate_eq_none_iff (hplaced : Placed taken hn home) {keys : Finset κ}
    (hkeys : ∀ key, key ∈ keys ↔ ∃ s, taken s = some key) :
    locate taken hn home key = none ↔ key ∉ keys ∧ keys.card = n := by
  -- the keys are found in slots of their own
  have hinj : Set.InjOn (locate taken hn home) (keys : Set κ) := by
    intro k hk k' hk' heq
    obtain ⟨s, hs⟩ := (hkeys k).mp hk
    obtain ⟨s', hs'⟩ := (hkeys k').mp hk'
    rw [hplaced s k hs, hplaced s' k' hs'] at heq
    obtain rfl := Option.some.inj heq
    exact Option.some.inj (hs.symm.trans hs')
  have hfound : ∀ k ∈ keys, locate taken hn home k ∈ Finset.univ.image some := by
    intro k hk
    obtain ⟨s, hs⟩ := (hkeys k).mp hk
    rw [hplaced s k hs]
    exact Finset.mem_image_of_mem _ (Finset.mem_univ s)
  have hslots : (Finset.univ.image (some : Fin n → Option (Fin n))).card = n := by
    rw [Finset.card_image_of_injective _ (Option.some_injective _), Finset.card_univ,
      Fintype.card_fin]
  have hle := Finset.card_le_card_of_injOn _ hfound hinj
  constructor
  · intro hnone
    choose occupant hoccupant using taken_of_locate_eq_none hnone
    constructor
    · intro hkey
      obtain ⟨s, hs⟩ := (hkeys key).mp hkey
      rw [hplaced s key hs] at hnone
      cases hnone
    · have hocc : Set.InjOn occupant (Finset.univ : Finset (Fin n)) := by
        intro s _ s' _ heq
        have h' := (hoccupant s').2
        rw [← heq] at h'
        exact hplaced.slot_unique (hoccupant s).2 h'
      have hmem : ∀ s ∈ Finset.univ, occupant s ∈ keys := fun s _ =>
        (hkeys _).mpr ⟨s, (hoccupant s).2⟩
      have hge := Finset.card_le_card_of_injOn _ hmem hocc
      rw [Finset.card_univ, Fintype.card_fin] at hge
      omega
  · rintro ⟨hkey, hcard⟩
    -- every slot is that of a key, so none of them admits another
    have himage : keys.image (locate taken hn home) = Finset.univ.image some := by
      apply Finset.eq_of_subset_of_card_le
      · intro x hx
        obtain ⟨k, hk, rfl⟩ := Finset.mem_image.mp hx
        exact hfound k hk
      · rw [Finset.card_image_of_injOn hinj, hslots, hcard]
    by_contra hsome
    obtain ⟨s, hs⟩ := Option.ne_none_iff_exists'.mp hsome
    have hmem : some s ∈ keys.image (locate taken hn home) := by
      rw [himage]
      exact Finset.mem_image_of_mem _ (Finset.mem_univ s)
    obtain ⟨k, hk, hks⟩ := Finset.mem_image.mp hmem
    obtain ⟨s', hs'⟩ := (hkeys k).mp hk
    rw [hplaced s' k hs'] at hks
    obtain rfl := Option.some.inj hks
    rcases admits_of_locate hs with hfree | hown
    · rw [hs'] at hfree
      cases hfree
    · rw [hs'] at hown
      obtain rfl := Option.some.inj hown
      exact hkey hk

end

end ZaqorinCore.Base
