import ZaqorinCore.Base.Script

/-!
# Pre- and postconditions of scripts

A `Triple` says what holds after a script: one condition for the state and the result when it
returns, one for the state and the exception when it raises. The rules follow the statements of a
script; `attempt` is `try`, which keeps what was done before the exception.
-/

namespace ZaqorinCore.Base

variable {σ τ ε α β : Type}

namespace Script

/-- `try`: an exception that is caught becomes a result. -/
def attempt (caught : ε → Bool) (m : Script σ ε α) : Script σ ε (Except ε α) :=
  ExceptT.mk fun s =>
    match m.exec s with
    | (.ok a, t) => (.ok (.ok a), t)
    | (.error e, t) => if caught e then (.ok (.error e), t) else (.error e, t)

theorem exec_attempt (caught : ε → Bool) (m : Script σ ε α) (s : σ) :
    (attempt caught m).exec s = match m.exec s with
      | (.ok a, t) => (.ok (.ok a), t)
      | (.error e, t) => if caught e then (.ok (.error e), t) else (.error e, t) := rfl

theorem exec_attempt_ok {m : Script σ ε α} {s t : σ} {a : α} (caught : ε → Bool)
    (h : m.exec s = (.ok a, t)) : (attempt caught m).exec s = (.ok (.ok a), t) := by
  rw [exec_attempt, h]

/-- The outcome of a script meets the condition for its kind. -/
def Outcome (Q : α → σ → Prop) (E : ε → σ → Prop) : Except ε α × σ → Prop
  | (.ok a, t) => Q a t
  | (.error e, t) => E e t

def Triple (P : σ → Prop) (m : Script σ ε α) (Q : α → σ → Prop) (E : ε → σ → Prop) : Prop :=
  ∀ s, P s → Outcome Q E (m.exec s)

namespace Triple

variable {P P' : σ → Prop} {Q Q' : α → σ → Prop} {R : β → σ → Prop} {E E' : ε → σ → Prop}
  {m : Script σ ε α} {f : α → Script σ ε β}

theorem conseq (h : Triple P m Q E) (hpre : ∀ s, P' s → P s) (hpost : ∀ a s, Q a s → Q' a s)
    (hraise : ∀ e s, E e s → E' e s) : Triple P' m Q' E' := by
  intro s hs
  have hout := h s (hpre s hs)
  cases hexec : m.exec s with
  | mk result t =>
    rw [hexec] at hout
    cases result with
    | ok a => exact hpost a t hout
    | error e => exact hraise e t hout

theorem pre (h : Triple P m Q E) (hpre : ∀ s, P' s → P s) : Triple P' m Q E :=
  h.conseq hpre (fun _ _ h => h) fun _ _ h => h

theorem bind (h : Triple P m Q E) (hf : ∀ a, Triple (Q a) (f a) R E) : Triple P (m >>= f) R E := by
  intro s hs
  have hout := h s hs
  rw [exec_bind]
  cases hexec : m.exec s with
  | mk result t =>
    rw [hexec] at hout
    cases result with
    | ok a => exact hf a t hout
    | error e => exact hout

theorem pure {a : α} (h : ∀ s, P s → Q a s) : Triple P (Pure.pure a : Script σ ε α) Q E := h

theorem modify {g : σ → σ} {Q : PUnit → σ → Prop} (h : ∀ s, P s → Q ⟨⟩ (g s)) :
    Triple P (MonadState.modifyGet fun s => (⟨⟩, g s) : Script σ ε PUnit) Q E := h

theorem lift {x : Except ε α} (hok : ∀ a, x = .ok a → ∀ s, P s → Q a s)
    (hraise : ∀ e, x = .error e → ∀ s, P s → E e s) : Triple P (liftM x : Script σ ε α) Q E := by
  intro s hs
  rw [exec_lift]
  cases x with
  | ok a => exact hok a rfl s hs
  | error e => exact hraise e rfl s hs

/-- A script over a part of the state that the condition does not look at. -/
theorem zoom {view : σ → τ} {write : τ → σ → σ} {n : Script τ ε α}
    (h : ∀ t s, P s → P (write t s)) :
    Triple P (Script.zoom view write n) (fun _ => P) (fun _ => P) := by
  intro s hs
  rw [exec_zoom]
  cases (n.exec (view s)).1 with
  | ok a => exact h _ s hs
  | error e => exact h _ s hs

/-- What holds of a script over a part of the state holds of the part, beside what the rest of the
state meets. -/
theorem zoom_frame {n : Script τ ε α} {A : τ → Prop} {B : α → τ → Prop} {C : ε → τ → Prop}
    (view : σ → τ) (write : τ → σ → σ) (F : σ → Prop) (hview : ∀ t s, view (write t s) = t)
    (hrest : ∀ t s, F s → F (write t s)) (h : Triple A n B C) :
    Triple (fun s => A (view s) ∧ F s) (Script.zoom view write n) (fun a s => B a (view s) ∧ F s)
      fun e s => C e (view s) ∧ F s := by
  intro s hs
  have hout := h (view s) hs.1
  rw [exec_zoom]
  cases hexec : n.exec (view s) with
  | mk result t =>
    rw [hexec] at hout
    cases result with
    | ok a =>
      show B a (view (write t s)) ∧ F (write t s)
      rw [hview]
      exact ⟨hout, hrest t s hs.2⟩
    | error e =>
      show C e (view (write t s)) ∧ F (write t s)
      rw [hview]
      exact ⟨hout, hrest t s hs.2⟩

theorem zoom_view {view : σ → τ} {write : τ → σ → σ} {n : Script τ ε α} {A : τ → Prop}
    {B : α → τ → Prop} {C : ε → τ → Prop} (hview : ∀ t s, view (write t s) = t)
    (h : Triple A n B C) :
    Triple (fun s => A (view s)) (Script.zoom view write n) (fun a s => B a (view s))
      fun e s => C e (view s) := by
  refine (zoom_frame view write (fun _ => True) hview (fun _ _ h => h) h).conseq ?_ ?_ ?_
  · exact fun _ hs => ⟨hs, trivial⟩
  · exact fun _ _ hs => hs.1
  · exact fun _ _ hs => hs.1

theorem attempt {caught : ε → Bool} (h : Triple P m Q E) :
    Triple P (Script.attempt caught m)
      (fun r s => match r with
        | .ok a => Q a s
        | .error e => E e s) E := by
  intro s hs
  have hout := h s hs
  rw [exec_attempt]
  cases hm : m.exec s with
  | mk result t =>
    rw [hm] at hout
    cases result with
    | ok a => exact hout
    | error e =>
      dsimp only
      by_cases hcaught : caught e = true
      · rw [if_pos hcaught]
        exact hout
      · rw [if_neg hcaught]
        exact hout

/-- The same condition holds whether the script inside raises or not. -/
theorem attempt_same {caught : ε → Bool} {Q : σ → Prop} (h : Triple P m (fun _ => Q) fun _ => Q) :
    Triple P (Script.attempt caught m) (fun _ => Q) fun _ => Q := by
  refine (attempt h).conseq (fun _ hs => hs) ?_ fun _ _ hs => hs
  intro r s hs
  cases r with
  | ok a => exact hs
  | error e => exact hs

theorem state {Q : σ → Prop} (h : Triple P m (fun _ => Q) fun _ => Q) (s : σ) (hs : P s) :
    Q (m.exec s).2 := by
  have hout := h s hs
  cases hexec : m.exec s with
  | mk result t =>
    rw [hexec] at hout
    cases result with
    | ok a => exact hout
    | error e => exact hout

end Triple

end Script

end ZaqorinCore.Base
