import Mathlib

/-!
# Walks

A walk asks yes-or-no questions in turn, each of which may raise. Each question says on which
answer the walk goes on and with which result it stops otherwise: `all`, `any` and their mixtures
are walks. `walk_raises_iff` says when a walk raises, `walk_congr` when two walks end alike.
-/

namespace ZaqorinCore.Base

variable {α ε : Type}

/-- A question, the answer on which the walk goes on, and the result with which it stops. -/
structure Stage (α : Type) where
  item : α
  goOn : Bool
  stopWith : Bool

/-- The questions are asked in turn. -/
def walk (ask : α → Except ε Bool) (final : Bool) : List (Stage α) → Except ε Bool
  | [] => pure final
  | s :: rest => do
    if (← ask s.item) = s.goOn then walk ask final rest else pure s.stopWith

/-- A question that is answered. -/
theorem walk_cons_ok {ask : α → Except ε Bool} {final answer : Bool} {s : Stage α}
    {rest : List (Stage α)} (h : ask s.item = .ok answer) :
    walk ask final (s :: rest) =
      if answer = s.goOn then walk ask final rest else .ok s.stopWith := by
  rw [walk, h]
  rfl

/-- The walk reaches an item when every item before it lets it go on. -/
def Reaches (ask : α → Except ε Bool) (stages : List (Stage α)) (item : α) : Prop :=
  ∃ before s after, stages = before ++ s :: after ∧ s.item = item ∧
    ∀ b ∈ before, ask b.item = .ok b.goOn

theorem reaches_cons {ask : α → Except ε Bool} {s : Stage α} {rest : List (Stage α)}
    {item : α} : Reaches ask (s :: rest) item ↔
      s.item = item ∨ (ask s.item = .ok s.goOn ∧ Reaches ask rest item) := by
  constructor
  · rintro ⟨before, t, after, heq, hitem, hbefore⟩
    cases before with
    | nil =>
      cases heq
      exact Or.inl hitem
    | cons b before =>
      obtain ⟨rfl, rfl⟩ := List.cons.inj heq
      exact Or.inr ⟨hbefore s List.mem_cons_self,
        before, t, after, rfl, hitem, fun b hb => hbefore b (List.mem_cons_of_mem _ hb)⟩
  · rintro (rfl | ⟨hask, before, t, after, rfl, hitem, hbefore⟩)
    · exact ⟨[], s, rest, rfl, rfl, by simp⟩
    · refine ⟨s :: before, t, after, rfl, hitem, ?_⟩
      intro b hb
      rcases List.mem_cons.mp hb with rfl | hb
      · exact hask
      · exact hbefore b hb

/-- A walk only reaches its own items. -/
theorem reaches_mem {ask : α → Except ε Bool} {stages : List (Stage α)} {item : α}
    (h : Reaches ask stages item) : ∃ stage ∈ stages, stage.item = item := by
  obtain ⟨before, stage, after, rfl, hitem, -⟩ := h
  exact ⟨stage, by simp, hitem⟩

/-- A walk raises exactly when it reaches an item that raises. -/
theorem walk_raises_iff {ask : α → Except ε Bool} {final : Bool} {stages : List (Stage α)} :
    (∃ err, walk ask final stages = .error err) ↔
      ∃ item err, Reaches ask stages item ∧ ask item = .error err := by
  induction stages with
  | nil =>
    constructor
    · rintro ⟨err, h⟩
      cases h
    · rintro ⟨item, err, ⟨before, s, after, heq, -⟩, -⟩
      simp at heq
  | cons s rest ih =>
    cases hask : ask s.item with
    | error err =>
      refine iff_of_true ⟨err, ?_⟩ ⟨s.item, err, reaches_cons.mpr (Or.inl rfl), hask⟩
      rw [walk, hask]
      rfl
    | ok answer =>
      by_cases hgo : answer = s.goOn
      · have hstep : walk ask final (s :: rest) = walk ask final rest := by
          rw [walk, hask]
          exact if_pos hgo
        rw [hstep, ih]
        constructor
        · rintro ⟨item, err, hreach, herr⟩
          exact ⟨item, err, reaches_cons.mpr (Or.inr ⟨hgo ▸ hask, hreach⟩), herr⟩
        · rintro ⟨item, err, hreach, herr⟩
          rcases reaches_cons.mp hreach with rfl | ⟨-, hreach⟩
          · rw [hask] at herr
            cases herr
          · exact ⟨item, err, hreach, herr⟩
      · have hstep : walk ask final (s :: rest) = .ok s.stopWith := by
          rw [walk, hask]
          exact if_neg hgo
        rw [hstep]
        constructor
        · rintro ⟨err, h⟩
          cases h
        · rintro ⟨item, err, hreach, herr⟩
          rcases reaches_cons.mp hreach with rfl | ⟨hok, -⟩
          · rw [hask] at herr
            cases herr
          · rw [hask] at hok
            cases hok
            exact absurd rfl hgo

/-- Two walks that get the same answers where the first one goes end alike. -/
theorem walk_congr {ask ask' : α → Except ε Bool} {final : Bool} {stages : List (Stage α)}
    (h : ∀ item, Reaches ask stages item → ask item = ask' item) :
    walk ask final stages = walk ask' final stages := by
  induction stages with
  | nil => rfl
  | cons s rest ih =>
    have hs : ask s.item = ask' s.item := h _ (reaches_cons.mpr (Or.inl rfl))
    rw [walk, walk, ← hs]
    cases hask : ask s.item with
    | error err => rfl
    | ok answer =>
      show (if answer = s.goOn then walk ask final rest else pure s.stopWith) =
        if answer = s.goOn then walk ask' final rest else pure s.stopWith
      by_cases hgo : answer = s.goOn
      · rw [if_pos hgo, if_pos hgo]
        exact ih fun item hreach => h item (reaches_cons.mpr (Or.inr ⟨hgo ▸ hask, hreach⟩))
      · rw [if_neg hgo, if_neg hgo]

end ZaqorinCore.Base
