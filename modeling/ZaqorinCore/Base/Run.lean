import Mathlib

/-!
# Runs of a concurrent system

A system is given by a step function: `step s a` is the state after the action `a`, and
`none` when `a` cannot happen in `s`. Interleaving is the choice of the actions, so a run
is a list of them. `Run step ok` restricts the runs to those whose every action meets the
condition `ok` in the state just before it; `fun _ _ => True` gives all runs.
-/

namespace ZaqorinCore.Base

variable {σ α : Type}

/-- The actions lead from the first state to the second, each meeting `ok` in the state it
is taken in. -/
inductive Run (step : σ → α → Option σ) (ok : σ → α → Prop) : σ → List α → σ → Prop
  | nil (s : σ) : Run step ok s [] s
  | snoc {s t u : σ} {as : List α} {a : α} (before : Run step ok s as t) (meets : ok t a)
      (taken : step t a = some u) : Run step ok s (as ++ [a]) u

/-- Every run, whatever its actions. -/
abbrev AnyRun (step : σ → α → Option σ) : σ → List α → σ → Prop := Run step fun _ _ => True

namespace Run

variable {step : σ → α → Option σ} {ok : σ → α → Prop} {s t u : σ} {as bs : List α}

/-- What holds at the start and is kept by every step holds at the end. -/
theorem invariant {I : σ → Prop} (start : I s)
    (keep : ∀ t a u, I t → ok t a → step t a = some u → I u) (h : Run step ok s as t) : I t := by
  induction h with
  | nil => exact start
  | snoc _ meets taken ih => exact keep _ _ _ ih meets taken

theorem any (h : Run step ok s as t) : AnyRun step s as t := by
  induction h with
  | nil => exact .nil _
  | snoc _ _ taken ih => exact .snoc ih trivial taken

theorem mono {ok' : σ → α → Prop} (hok : ∀ s a, ok s a → ok' s a) (h : Run step ok s as t) :
    Run step ok' s as t := by
  induction h with
  | nil => exact .nil _
  | snoc _ meets taken ih => exact .snoc ih (hok _ _ meets) taken

/-- The actions of a run are those of its list. -/
theorem mem (h : Run step ok s as t) : Run step (fun s a => ok s a ∧ a ∈ as) s as t := by
  induction h with
  | nil => exact .nil _
  | snoc _ meets taken ih =>
    refine .snoc (ih.mono fun s a h => ⟨h.1, List.mem_append_left _ h.2⟩) ⟨meets, ?_⟩ taken
    exact List.mem_append_right _ List.mem_cons_self

theorem trans (h₁ : Run step ok s as t) (h₂ : Run step ok t bs u) :
    Run step ok s (as ++ bs) u := by
  induction h₂ with
  | nil => simpa using h₁
  | snoc _ meets taken ih =>
    rw [← List.append_assoc]
    exact .snoc ih meets taken

theorem single {a : α} (meets : ok s a) (taken : step s a = some t) : Run step ok s [a] t :=
  .snoc (.nil s) meets taken

/-- A property of states that each step keeps exactly when its action meets the condition
holds at the end of a run exactly when all its actions met it. The steps may rely on an
invariant of the system. -/
theorem iff_of_step {I P : σ → Prop} (istart : I s)
    (ikeep : ∀ t a u, I t → step t a = some u → I u) (start : P s)
    (each : ∀ t a u, I t → step t a = some u → (P u ↔ P t ∧ ok t a)) (h : AnyRun step s as t) :
    P t ↔ Run step ok s as t := by
  have hI : ∀ {bs u}, AnyRun step s bs u → I u := fun hrun =>
    hrun.invariant istart fun t a u hI _ taken => ikeep t a u hI taken
  constructor
  · intro hP
    induction h with
    | nil => exact .nil _
    | snoc before _ taken ih =>
      obtain ⟨hbefore, hok⟩ := (each _ _ _ (hI before) taken).mp hP
      exact .snoc (ih hbefore) hok taken
  · intro hrun
    have hboth : I t ∧ P t := hrun.invariant (I := fun t => I t ∧ P t) ⟨istart, start⟩
      fun t a u hIP hok taken =>
        ⟨ikeep t a u hIP.1 taken, (each t a u hIP.1 taken).mpr ⟨hIP.2, hok⟩⟩
    exact hboth.2

/-- Two conditions that agree wherever an invariant holds, which the steps that meet them keep,
are met by the same runs. -/
theorem iff_of_agree {ok' : σ → α → Prop} {I : σ → Prop} (start : I s)
    (keep : ∀ t a u, I t → ok t a → step t a = some u → I u)
    (agree : ∀ t a u, I t → step t a = some u → (ok t a ↔ ok' t a)) :
    Run step ok s as t ↔ Run step ok' s as t := by
  constructor
  · intro h
    induction h with
    | nil => exact .nil _
    | snoc before meets taken ih =>
      have hI := before.invariant start keep
      exact .snoc ih ((agree _ _ _ hI taken).mp meets) taken
  · intro h
    have keep' : ∀ t a u, I t → ok' t a → step t a = some u → I u :=
      fun t a u hI meets taken => keep t a u hI ((agree t a u hI taken).mpr meets) taken
    induction h with
    | nil => exact .nil _
    | snoc before meets taken ih =>
      have hI := before.invariant start keep'
      exact .snoc ih ((agree _ _ _ hI taken).mpr meets) taken

/-- A run meets a condition that its actions meet in every state. -/
theorem of_all (h : AnyRun step s as t) (hok : ∀ a ∈ as, ∀ m, ok m a) : Run step ok s as t := by
  induction h with
  | nil => exact .nil _
  | snoc _ _ taken ih =>
    refine .snoc (ih fun a ha => hok a (List.mem_append_left _ ha)) (hok _ (by simp) _) taken

/-- A run is a run of a part of the system, when each step is a step of the part or leaves it
alone. -/
theorem part {τ β : Type} {step' : τ → β → Option τ} (view : σ → τ)
    (each : ∀ s a t, step s a = some t → view t = view s ∨ ∃ b, step' (view s) b = some (view t))
    (h : AnyRun step s as t) : ∃ bs, AnyRun step' (view s) bs (view t) := by
  induction h with
  | nil => exact ⟨[], .nil _⟩
  | snoc _ _ taken ih =>
    obtain ⟨bs, hbs⟩ := ih
    rcases each _ _ _ taken with hsame | ⟨b, hb⟩
    · exact ⟨bs, hsame ▸ hbs⟩
    · exact ⟨bs ++ [b], .snoc hbs trivial hb⟩

end Run

/-! ## Runs taken apart -/

section

variable {step : σ → α → Option σ} {ok : σ → α → Prop} {s t u : σ} {as : List α} {a : α}

theorem run_nil (h : Run step ok s [] t) : t = s := by
  generalize hl : ([] : List α) = l at h
  cases h with
  | nil => rfl
  | snoc _ _ _ => simp at hl

/-- The last step of a run. -/
theorem run_snoc (h : Run step ok s (as ++ [a]) t) :
    ∃ u, Run step ok s as u ∧ ok u a ∧ step u a = some t := by
  generalize hl : as ++ [a] = l at h
  cases h with
  | nil => simp at hl
  | snoc before meets taken =>
    obtain ⟨rfl, hlast⟩ := List.append_inj' hl rfl
    cases hlast
    exact ⟨_, before, meets, taken⟩

/-- The first step of a run. -/
theorem run_cons (h : Run step ok s (a :: as) t) :
    ∃ m, ok s a ∧ step s a = some m ∧ Run step ok m as t := by
  induction as using List.reverseRecOn generalizing t with
  | nil =>
    have hlast : Run step ok s ([] ++ [a]) t := h
    obtain ⟨u, hu, meets, taken⟩ := run_snoc hlast
    rw [run_nil hu] at meets taken
    exact ⟨t, meets, taken, .nil t⟩
  | append_singleton bs b ih =>
    have hlast : Run step ok s (a :: bs ++ [b]) t := h
    obtain ⟨u, hu, meets, taken⟩ := run_snoc hlast
    obtain ⟨m, hmeets, hm, hrun⟩ := ih hu
    exact ⟨m, hmeets, hm, .snoc hrun meets taken⟩

/-- A run in two parts. -/
theorem run_append {bs : List α} (h : Run step ok s (as ++ bs) t) :
    ∃ m, Run step ok s as m ∧ Run step ok m bs t := by
  induction bs using List.reverseRecOn generalizing t with
  | nil => exact ⟨t, by simpa using h, .nil t⟩
  | append_singleton bs b ih =>
    rw [← List.append_assoc] at h
    obtain ⟨u, hu, meets, taken⟩ := run_snoc h
    obtain ⟨m, hm, hrun⟩ := ih hu
    exact ⟨m, hm, .snoc hrun meets taken⟩

/-- The actions determine where a run ends. -/
theorem Run.unique {ok' : σ → α → Prop} (h : Run step ok s as t) (h' : Run step ok' s as u) :
    t = u := by
  induction h generalizing u with
  | nil => exact (run_nil h').symm
  | snoc _ _ taken ih =>
    obtain ⟨m, hm, _, taken'⟩ := run_snoc h'
    rw [ih hm, taken'] at taken
    exact (Option.some.inj taken).symm

end

/-! ## Processes by index -/

/-- After one process has moved, a process is the one that moved or is as it was. -/
theorem update_some_cases {ι π : Type} [DecidableEq ι] {f : ι → Option π} {i j : ι} {p q : π}
    (h : Function.update f i (some p) j = some q) : (j = i ∧ q = p) ∨ (j ≠ i ∧ f j = some q) := by
  by_cases hj : j = i
  · subst hj
    rw [Function.update_self] at h
    cases h
    exact Or.inl ⟨rfl, rfl⟩
  · rw [Function.update_of_ne hj] at h
    exact Or.inr ⟨hj, h⟩

/-! ## Executing runs -/

/-- Executing a list of actions. -/
def exec (step : σ → α → Option σ) : σ → List α → Option σ
  | s, [] => some s
  | s, a :: as => (step s a).bind fun t => exec step t as

theorem run_of_exec {step : σ → α → Option σ} {s t : σ} {as : List α}
    (h : exec step s as = some t) : AnyRun step s as t := by
  induction as generalizing s with
  | nil =>
    cases h
    exact .nil _
  | cons a as ih =>
    obtain ⟨m, hm, hrest⟩ := Option.bind_eq_some_iff.mp h
    exact (Run.single trivial hm).trans (ih hrest)

/-- A property of the state that a list of actions leads to, checked by executing them. -/
theorem run_of_check {step : σ → α → Option σ} {s : σ} {as : List α} {p : σ → Bool}
    (h : (exec step s as).any p = true) : ∃ t, AnyRun step s as t ∧ p t = true := by
  obtain ⟨t, ht, hp⟩ := (Option.any_eq_true _ _).mp h
  exact ⟨t, run_of_exec ht, hp⟩

/-- The same for a run whose actions meet a condition that can be checked. -/
theorem run_of_guarded_check {step : σ → α → Option σ} {ok : σ → α → Prop}
    [∀ s a, Decidable (ok s a)] {s : σ} {as : List α} {p : σ → Bool}
    (h : (exec (fun s a => if ok s a then step s a else none) s as).any p = true) :
    ∃ t, Run step ok s as t ∧ p t = true := by
  obtain ⟨t, hrun, hp⟩ := run_of_check h
  refine ⟨t, ?_, hp⟩
  clear h hp
  induction hrun with
  | nil => exact .nil _
  | snoc _ _ taken ih =>
    split at taken
    · rename_i hok
      exact .snoc ih hok taken
    · cases taken

end ZaqorinCore.Base
