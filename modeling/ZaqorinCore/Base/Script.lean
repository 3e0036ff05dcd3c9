import Mathlib

/-!
# Scripts

Code that changes a state and can raise. What a script has done before it raises stays done:
`exec` gives the state in both cases. The lemmas execute a script one statement at a time.
-/

namespace ZaqorinCore.Base

variable {σ τ ε ε' α β : Type}

/-! ## Results -/

/-- Two computations in a row succeed when the first one does and the second one does after it. -/
theorem bind_eq_ok {x : Except ε α} {f : α → Except ε β} {b : β} :
    (x >>= f) = .ok b ↔ ∃ a, x = .ok a ∧ f a = .ok b := by
  cases x with
  | error e =>
    constructor
    · intro h
      cases h
    · rintro ⟨a, ha, -⟩
      cases ha
  | ok a =>
    constructor
    · exact fun h => ⟨a, rfl, h⟩
    · rintro ⟨_, ha, h⟩
      cases ha
      exact h

/-- Two computations in a row fail when the first one does or the second one does after it. -/
theorem bind_eq_error {x : Except ε α} {f : α → Except ε β} {e : ε} :
    (x >>= f) = .error e ↔ x = .error e ∨ ∃ a, x = .ok a ∧ f a = .error e := by
  cases x with
  | error e' =>
    constructor
    · intro h
      cases h
      exact Or.inl rfl
    · rintro (h | ⟨a, ha, -⟩)
      · cases h
        rfl
      · cases ha
  | ok a =>
    constructor
    · exact fun h => Or.inr ⟨a, rfl, h⟩
    · rintro (h | ⟨_, ha, h⟩)
      · cases h
      · cases ha
        exact h

theorem mapError_eq_ok {x : Except ε α} {f : ε → ε'} {a : α} :
    x.mapError f = .ok a ↔ x = .ok a := by
  cases x with
  | error e => exact iff_of_false nofun nofun
  | ok b => exact (Except.ok.injEq b a).to_iff.trans (Except.ok.injEq b a).to_iff.symm

theorem toOption_eq_some {x : Except ε α} {a : α} : x.toOption = some a ↔ x = .ok a := by
  cases x with
  | error e => exact iff_of_false nofun nofun
  | ok b => exact Option.some_inj.trans (Except.ok.injEq b a).to_iff.symm

/-! ## Scripts -/

abbrev Script (σ ε : Type) := ExceptT ε (StateM σ)

namespace Script

def exec (m : Script σ ε α) (s : σ) : Except ε α × σ := m.run.run s

/-- A script over a part of the state. -/
def zoom (view : σ → τ) (write : τ → σ → σ) (m : Script τ ε α) : Script σ ε α :=
  ExceptT.mk fun s =>
    let (result, t) := m.exec (view s)
    (result, write t s)

@[simp]
theorem exec_get (s : σ) : (get : Script σ ε σ).exec s = (.ok s, s) := rfl

@[simp]
theorem exec_modify (f : σ → σ) (s : σ) :
    (modify f : Script σ ε PUnit).exec s = (.ok ⟨⟩, f s) := rfl

@[simp]
theorem exec_lift (x : Except ε α) (s : σ) : (liftM x : Script σ ε α).exec s = (x, s) := rfl

@[simp]
theorem exec_zoom (view : σ → τ) (write : τ → σ → σ) (m : Script τ ε α) (s : σ) :
    (zoom view write m).exec s = ((m.exec (view s)).1, write (m.exec (view s)).2 s) := rfl

theorem exec_bind (m : Script σ ε α) (f : α → Script σ ε β) (s : σ) :
    (m >>= f).exec s = match m.exec s with
      | (.ok a, t) => (f a).exec t
      | (.error e, t) => (.error e, t) := by
  simp only [exec, ExceptT.run_bind, StateT.run_bind]
  cases m.run.run s with
  | mk result t => cases result <;> rfl

/-- A statement that raises ends the script. -/
theorem exec_bind_error {m : Script σ ε α} {s t : σ} {e : ε} (h : m.exec s = (.error e, t))
    (f : α → Script σ ε β) : (m >>= f).exec s = (.error e, t) := by
  rw [exec_bind, h]

/-- After a statement the script goes on with its result. -/
theorem exec_bind_ok {m : Script σ ε α} {s t : σ} {a : α} (h : m.exec s = (.ok a, t))
    (f : α → Script σ ε β) : (m >>= f).exec s = (f a).exec t := by
  rw [exec_bind, h]

end Script

end ZaqorinCore.Base
