import ZaqorinCore.Base.Run
import ZaqorinCore.Base.Threads

/-!
# Stopping the push backend

`SubscribePush` and `Close` of the push-mode event log backend, called by any number of threads. A
mutex of Go does not know who has locked it. On Windows `Close` calls `onStop` under the mutex, and
`closeHandle` locks it again: `close_hangs` says that no call of `Close` returns there, that the
handle is never released, and that whoever waits for the mutex afterwards waits for ever. On the
other platforms `onStop` does nothing, and `close_ends` says that all calls return and that the
channel is closed once.
-/

namespace ZaqorinCore.Agent.PushBackend

open ZaqorinCore.Base

variable {n : Nat}

/-! ## The calls -/

/-- The build tag. -/
inductive Platform
  | windows
  | other
  deriving DecidableEq

/-- Where a call stands. -/
inductive Pc
  | closing  -- before the `Lock` of `Close`
  | stopping  -- at `if b.stopped`
  | onStop
  | closeHandle  -- before the `Lock` of `closeHandle`
  | takeHandle
  | evtClose (handle : Nat)
  | closeDone  -- at `close(b.done)`
  | unlocking  -- the deferred `Unlock` of `Close`
  | closed
  | subscribing  -- before the first `Lock` of `SubscribePush`
  | checking
  | calling  -- at `EvtSubscribe`
  | storing (handle : Nat)  -- before its second `Lock`
  | stored (handle : Nat)
  | subscribed
  | refused  -- `SubscribePush` returned an error
  deriving DecidableEq

structure State (n : Nat) where
  /-- `mu` -/
  locked : Bool
  handle : Nat
  stopped : Bool
  /-- `done` is closed -/
  done : Bool
  /-- a second `close(b.done)`, or an `Unlock` of a free mutex -/
  crashed : Bool
  /-- the handles that were released -/
  evtClosed : List Nat
  calls : Fin n → Pc

def State.goto (s : State n) (i : Fin n) (pc : Pc) : State n :=
  { s with calls := Function.update s.calls i pc }

/-- `mu.Lock` waits while the mutex is locked, by whomever. -/
def State.lock (s : State n) (i : Fin n) (pc : Pc) : Option (State n) :=
  if s.locked then none else some ({ s with locked := true }.goto i pc)

def State.unlock (s : State n) (i : Fin n) (pc : Pc) : State n :=
  if s.locked then { s with locked := false }.goto i pc else { s with crashed := true }

/-- One step of a call; `result` is what `EvtSubscribe` returns. -/
def move (p : Platform) (s : State n) (i : Fin n) (result : Nat) : Pc → Option (State n)
  | .closing => s.lock i .stopping
  | .stopping =>
    if s.stopped then some (s.goto i .unlocking)
    else some ({ s with stopped := true }.goto i .onStop)
  | .onStop =>
    match p with
    | .windows => some (s.goto i .closeHandle)
    | .other => some (s.goto i .closeDone)
  | .closeHandle => s.lock i .takeHandle
  | .takeHandle => some ({ s with handle := 0 }.unlock i (.evtClose s.handle))
  | .evtClose handle =>
    some ({ s with
      evtClosed := if handle = 0 then s.evtClosed else s.evtClosed ++ [handle] }.goto i .closeDone)
  | .closeDone =>
    if s.done then some { s with crashed := true }
    else some ({ s with done := true }.goto i .unlocking)
  | .unlocking => some (s.unlock i .closed)
  | .subscribing =>
    match p with
    | .windows => s.lock i .checking
    | .other => some (s.goto i .refused)
  | .checking => some (s.unlock i (if s.handle = 0 then .calling else .refused))
  | .calling => some (s.goto i (if result = 0 then .refused else .storing result))
  | .storing handle => s.lock i (.stored handle)
  | .stored handle => some ({ s with handle := handle }.unlock i .subscribed)
  | .closed | .subscribed | .refused => none

/-- The call that moves, and what `EvtSubscribe` would return. -/
structure Act (n : Nat) where
  call : Fin n
  result : Nat

def step (p : Platform) (s : State n) (a : Act n) : Option (State n) :=
  if s.crashed then none else move p s a.call a.result (s.calls a.call)

/-- The calls are of `Close` or of `SubscribePush`. -/
def start (closes : Fin n → Bool) : State n where
  locked := false
  handle := 0
  stopped := false
  done := false
  crashed := false
  evtClosed := []
  calls := fun i => if closes i then .closing else .subscribing

/-! ## The mutex -/

/-- The call is between a `Lock` and its `Unlock`. -/
def Pc.holds : Pc → Bool
  | .stopping | .onStop | .closeHandle | .takeHandle | .closeDone | .unlocking | .checking
  | .stored _ => true
  | _ => false

/-- The call is at a `Lock`, without the mutex. -/
def Pc.waits : Pc → Bool
  | .closing | .subscribing | .storing _ => true
  | _ => false

def Pc.returned : Pc → Bool
  | .closed | .subscribed | .refused => true
  | _ => false

section

variable {p : Platform} {s t : State n} {a : Act n} {i : Fin n} {pc : Pc}

@[simp]
theorem goto_calls (s : State n) (i : Fin n) (pc : Pc) :
    (s.goto i pc).calls = Function.update s.calls i pc := rfl

/-- A locked mutex lets nobody in. -/
theorem lock_of_locked (h : s.locked = true) (i : Fin n) (pc : Pc) : s.lock i pc = none := if_pos h

theorem lock_eq_some (h : s.lock i pc = some t) :
    s.locked = false ∧ t = { s with locked := true }.goto i pc := by
  obtain ⟨hlocked, ht⟩ := Option.ite_none_left_eq_some.mp h
  exact ⟨Bool.eq_false_iff.mpr hlocked, (Option.some.inj ht).symm⟩

theorem unlock_of_locked (h : s.locked = true) (i : Fin n) (pc : Pc) :
    s.unlock i pc = { s with locked := false }.goto i pc := if_pos h

theorem move_of_step (h : step p s a = some t) :
    s.crashed = false ∧ move p s a.call a.result (s.calls a.call) = some t := by
  obtain ⟨hcrashed, hmove⟩ := Option.ite_none_left_eq_some.mp h
  exact ⟨Bool.eq_false_iff.mpr hcrashed, hmove⟩

/-! ## Windows -/

/-- The places that a call can get to when nothing releases the handle. -/
def Pc.early : Pc → Bool
  | .takeHandle | .evtClose _ | .closeDone | .unlocking | .closed => false
  | _ => true

/-- The call is inside `onStop`. -/
def Pc.releases : Pc → Bool
  | .onStop | .closeHandle => true
  | _ => false

/-- What holds of every state on Windows. -/
structure Hung (s : State n) : Prop where
  guarded : Guarded Pc.holds s.locked s.calls
  early : ∀ i, (s.calls i).early = true
  releasing : s.stopped = true → ∃ i, (s.calls i).releases = true
  evtClosed : s.evtClosed = []
  done : s.done = false
  crashed : s.crashed = false

theorem Pc.holds_of_releases {pc : Pc} (h : pc.releases = true) : pc.holds = true := by
  cases pc <;> first | rfl | cases h

/-- Once a call has stopped the backend, the mutex is locked. -/
theorem Hung.locked (hs : Hung s) (h : s.stopped = true) : s.locked = true := by
  obtain ⟨i, hi⟩ := hs.releasing h
  exact hs.guarded.locked_of_holds (Pc.holds_of_releases hi)

/-- Only one call can be inside, so the others that hold the mutex have not seen `stopped`. -/
theorem Hung.not_stopped (hs : Hung s) (hi : (s.calls i).holds = true)
    (hr : (s.calls i).releases = false) : s.stopped = false := by
  by_contra hstopped
  obtain ⟨j, hj⟩ := hs.releasing (eq_true_of_ne_false hstopped)
  obtain rfl := hs.guarded.one i j hi (Pc.holds_of_releases hj)
  rw [hr] at hj
  cases hj

theorem hung_start (closes : Fin n → Bool) : Hung (start closes) where
  guarded := Guarded.of_free fun i => by
    show Pc.holds (if closes i then .closing else .subscribing) = false
    split <;> rfl
  early := fun i => by
    show Pc.early (if closes i then .closing else .subscribing) = true
    split <;> rfl
  releasing := fun h => by cases h
  evtClosed := rfl
  done := rfl
  crashed := rfl

/-- A call that gets the mutex finds the backend running. -/
theorem hung_lock (hs : Hung s) (h : s.lock i pc = some t) (hpc : pc.holds = true)
    (he : pc.early = true) : Hung t := by
  obtain ⟨hlocked, rfl⟩ := lock_eq_some h
  refine ⟨(hlocked ▸ hs.guarded).lock hpc, forall_update (Pc.early · = true) hs.early he,
    fun hstopped => ?_, hs.evtClosed, hs.done, hs.crashed⟩
  rw [hs.locked hstopped] at hlocked
  cases hlocked

/-- A call gives the mutex back. -/
theorem hung_unlock (hs : Hung s) (hi : (s.calls i).holds = true)
    (hr : (s.calls i).releases = false) (hpc : pc.holds = false) (he : pc.early = true)
    (handle : Nat) : Hung ({ s with handle := handle }.unlock i pc) := by
  have hlocked : ({ s with handle := handle } : State n).locked = true :=
    hs.guarded.locked_of_holds hi
  rw [unlock_of_locked hlocked]
  refine ⟨hs.guarded.unlock hi hpc, forall_update (Pc.early · = true) hs.early he,
    fun hstopped => ?_, hs.evtClosed, hs.done, hs.crashed⟩
  rw [hs.not_stopped hi hr] at hstopped
  cases hstopped

/-- A call moves without the mutex. -/
theorem hung_goto (hs : Hung s) (hi : (s.calls i).holds = false) (hpc : pc.holds = false)
    (he : pc.early = true) : Hung (s.goto i pc) where
  guarded := hs.guarded.move (hpc.trans hi.symm)
  early := forall_update (Pc.early · = true) hs.early he
  releasing := fun hstopped => by
    obtain ⟨j, hj⟩ := hs.releasing hstopped
    have hne : j ≠ i := by
      rintro rfl
      rw [Pc.holds_of_releases hj] at hi
      cases hi
    exact ⟨j, by rw [goto_calls, Function.update_of_ne hne, hj]⟩
  evtClosed := hs.evtClosed
  done := hs.done
  crashed := hs.crashed

/-- A call stops the backend, or goes on inside `onStop`. -/
theorem hung_enter (hs : Hung s) (hi : (s.calls i).holds = true) (hpc : pc.releases = true)
    (he : pc.early = true) (stopped : Bool) : Hung ({ s with stopped := stopped }.goto i pc) where
  guarded := hs.guarded.move ((Pc.holds_of_releases hpc).trans hi.symm)
  early := forall_update (Pc.early · = true) hs.early he
  releasing := fun _ => ⟨i, by rw [goto_calls, Function.update_self, hpc]⟩
  evtClosed := hs.evtClosed
  done := hs.done
  crashed := hs.crashed

theorem hung_step (hs : Hung s) (h : step .windows s a = some t) : Hung t := by
  obtain ⟨-, hmove⟩ := move_of_step h
  have hearly := hs.early a.call
  cases hpc : s.calls a.call with
  | closing =>
    rw [hpc] at hmove
    exact hung_lock hs hmove rfl rfl
  | stopping =>
    have hstopped := hs.not_stopped (i := a.call) (by rw [hpc]; rfl) (by rw [hpc]; rfl)
    rw [hpc, move, if_neg (by simp [hstopped])] at hmove
    cases hmove
    exact hung_enter hs (by rw [hpc]; rfl) rfl rfl true
  | onStop =>
    rw [hpc] at hmove
    cases hmove
    exact hung_enter hs (by rw [hpc]; rfl) rfl rfl s.stopped
  | closeHandle =>
    have hlocked := hs.guarded.locked_of_holds (i := a.call) (by rw [hpc]; rfl)
    rw [hpc, move, lock_of_locked hlocked] at hmove
    cases hmove
  | subscribing =>
    rw [hpc] at hmove
    exact hung_lock hs hmove rfl rfl
  | checking =>
    rw [hpc] at hmove
    cases hmove
    have hi : (s.calls a.call).holds = true := by rw [hpc]; rfl
    have hr : (s.calls a.call).releases = false := by rw [hpc]; rfl
    by_cases hhandle : s.handle = 0
    · rw [if_pos hhandle]
      exact hung_unlock hs hi hr rfl rfl s.handle
    · rw [if_neg hhandle]
      exact hung_unlock hs hi hr rfl rfl s.handle
  | calling =>
    rw [hpc] at hmove
    cases hmove
    have hi : (s.calls a.call).holds = false := by rw [hpc]; rfl
    by_cases hresult : a.result = 0
    · rw [if_pos hresult]
      exact hung_goto hs hi rfl rfl
    · rw [if_neg hresult]
      exact hung_goto hs hi rfl rfl
  | storing handle =>
    rw [hpc] at hmove
    exact hung_lock hs hmove rfl rfl
  | stored handle =>
    rw [hpc] at hmove
    cases hmove
    exact hung_unlock hs (by rw [hpc]; rfl) (by rw [hpc]; rfl) rfl rfl handle
  | subscribed =>
    rw [hpc] at hmove
    cases hmove
  | refused =>
    rw [hpc] at hmove
    cases hmove
  -- the places behind the release of the handle
  | _ =>
    rw [hpc] at hearly
    cases hearly

theorem hung_run {closes : Fin n → Bool} {as : List (Act n)}
    (h : AnyRun (step .windows) (start closes) as s) : Hung s :=
  h.invariant (hung_start closes) fun _ _ _ hs _ taken => hung_step hs taken

/-- The call is at a `Lock`, be it that of `closeHandle`. -/
def Pc.blocked (pc : Pc) : Bool := pc.waits || pc == .closeHandle

/-- Nobody gets past a locked mutex. -/
theorem move_of_blocked (hlocked : s.locked = true) (hpc : pc.blocked = true) (i : Fin n)
    (result : Nat) : move .windows s i result pc = none := by
  cases pc with
  | closing => exact lock_of_locked hlocked i _
  | closeHandle => exact lock_of_locked hlocked i _
  | subscribing => exact lock_of_locked hlocked i _
  | storing handle => exact lock_of_locked hlocked i _
  | _ => cases hpc

/-- Only one call has moved, and a stopped backend is still stopped. -/
def Frame (s t : State n) (i : Fin n) : Prop :=
  (∀ j, j ≠ i → t.calls j = s.calls j) ∧ (s.stopped = true → t.stopped = true)

theorem frame_goto {u : State n} (hcalls : u.calls = s.calls)
    (hstopped : s.stopped = true → u.stopped = true) (i : Fin n) (pc : Pc) :
    Frame s (u.goto i pc) i :=
  ⟨fun j hj => by rw [goto_calls, Function.update_of_ne hj, hcalls], hstopped⟩

theorem frame_unlock {u : State n} (hcalls : u.calls = s.calls)
    (hstopped : s.stopped = true → u.stopped = true) (i : Fin n) (pc : Pc) :
    Frame s (u.unlock i pc) i := by
  unfold State.unlock
  split
  · exact frame_goto hcalls hstopped i pc
  · exact ⟨fun j _ => congrFun hcalls j, hstopped⟩

theorem frame_lock (h : s.lock i pc = some t) : Frame s t i := by
  obtain ⟨-, rfl⟩ := lock_eq_some h
  exact frame_goto rfl id i pc

theorem frame_step (h : step p s a = some t) : Frame s t a.call := by
  obtain ⟨-, hmove⟩ := move_of_step h
  cases hpc : s.calls a.call with
  | closing =>
    rw [hpc] at hmove
    exact frame_lock hmove
  | stopping =>
    rw [hpc, move] at hmove
    split at hmove
    · cases hmove
      exact frame_goto rfl id _ _
    · cases hmove
      exact frame_goto (s := s) (u := { s with stopped := true }) rfl (fun _ => rfl) _ _
  | onStop =>
    rw [hpc] at hmove
    cases p with
    | windows =>
      cases hmove
      exact frame_goto rfl id _ _
    | other =>
      cases hmove
      exact frame_goto rfl id _ _
  | closeHandle =>
    rw [hpc] at hmove
    exact frame_lock hmove
  | takeHandle =>
    rw [hpc] at hmove
    cases hmove
    exact frame_unlock rfl id _ _
  | evtClose handle =>
    rw [hpc] at hmove
    cases hmove
    exact frame_goto rfl id _ _
  | closeDone =>
    rw [hpc, move] at hmove
    split at hmove
    · cases hmove
      exact ⟨fun _ _ => rfl, id⟩
    · cases hmove
      exact frame_goto rfl id _ _
  | unlocking =>
    rw [hpc] at hmove
    cases hmove
    exact frame_unlock rfl id _ _
  | subscribing =>
    rw [hpc] at hmove
    cases p with
    | windows => exact frame_lock hmove
    | other =>
      cases hmove
      exact frame_goto rfl id _ _
  | checking =>
    rw [hpc] at hmove
    cases hmove
    exact frame_unlock rfl id _ _
  | calling =>
    rw [hpc] at hmove
    cases hmove
    exact frame_goto rfl id _ _
  | storing handle =>
    rw [hpc] at hmove
    exact frame_lock hmove
  | stored handle =>
    rw [hpc] at hmove
    cases hmove
    exact frame_unlock rfl id _ _
  -- the calls that have returned
  | _ =>
    rw [hpc] at hmove
    cases hmove

/-- Those at the mutex of a stopped backend stay there on Windows. -/
theorem blocked_step (hs : Hung s) (hstopped : s.stopped = true)
    (h : step .windows s a = some t) (hi : (s.calls i).blocked = true) :
    t.calls i = s.calls i := by
  refine (frame_step h).1 i ?_
  rintro rfl
  obtain ⟨-, hmove⟩ := move_of_step h
  rw [move_of_blocked (hs.locked hstopped) hi] at hmove
  cases hmove

/-- On Windows no call of `Close` returns and the handle is not released. Once a call has stopped
the backend, whoever is at the mutex stays there, that call itself included. -/
theorem close_hangs {closes : Fin n → Bool} {as : List (Act n)}
    (h : AnyRun (step .windows) (start closes) as s) :
    (∀ i, s.calls i ≠ .closed) ∧ s.evtClosed = [] ∧ s.done = false ∧
      (s.stopped = true → ∀ bs t, AnyRun (step .windows) s bs t →
        ∀ i, (s.calls i).blocked = true → t.calls i = s.calls i) := by
  have hs := hung_run h
  refine ⟨fun i hi => ?_, hs.evtClosed, hs.done, fun hstopped bs t hrun i hi => ?_⟩
  · have hearly := hs.early i
    rw [hi] at hearly
    cases hearly
  · have hboth : Hung t ∧ t.stopped = true ∧ t.calls i = s.calls i :=
      hrun.invariant (I := fun t => Hung t ∧ t.stopped = true ∧ t.calls i = s.calls i)
        ⟨hs, hstopped, rfl⟩ fun u a v hu _ taken =>
          ⟨hung_step hu.1 taken, (frame_step taken).2 hu.2.1,
            (blocked_step hu.1 hu.2.1 taken (by rw [hu.2.2, hi])).trans hu.2.2⟩
    exact hboth.2.2

/-! ## The other platforms -/

/-- The places that a call can get to without a handle. -/
def Pc.plain : Pc → Bool
  | .closing | .stopping | .onStop | .closeDone | .unlocking | .closed | .subscribing | .refused =>
    true
  | _ => false

/-- The call has stopped the backend and has yet to close the channel. -/
def Pc.stops : Pc → Bool
  | .onStop | .closeDone => true
  | _ => false

/-- A call of `Close`. -/
def Pc.ofClose : Pc → Bool
  | .closing | .stopping | .onStop | .closeHandle | .takeHandle | .evtClose _ | .closeDone
  | .unlocking | .closed => true
  | _ => false

/-- The call has found the backend stopped. -/
def Pc.after : Pc → Bool
  | .unlocking | .closed => true
  | _ => false

/-- What holds of every state on the other platforms. -/
structure Sound (closes : Fin n → Bool) (s : State n) : Prop where
  guarded : Guarded Pc.holds s.locked s.calls
  plain : ∀ i, (s.calls i).plain = true
  ofClose : ∀ i, (s.calls i).ofClose = closes i
  stopping : ∀ i, (s.calls i).stops = true → s.stopped = true ∧ s.done = false
  after : ∀ i, (s.calls i).after = true → s.stopped = true
  stopped : s.stopped = true → s.done = true ∨ ∃ i, (s.calls i).stops = true
  done : s.done = true → s.stopped = true
  crashed : s.crashed = false

variable {closes : Fin n → Bool}

theorem Pc.holds_of_stops {pc : Pc} (h : pc.stops = true) : pc.holds = true := by
  cases pc <;> first | rfl | cases h

theorem sound_start (closes : Fin n → Bool) : Sound closes (start closes) := by
  have hcalls : ∀ i, (start closes).calls i = .closing ∧ closes i = true ∨
      (start closes).calls i = .subscribing ∧ closes i = false := fun i => by
    show (if closes i then Pc.closing else .subscribing) = _ ∧ _ ∨
      (if closes i then Pc.closing else .subscribing) = _ ∧ _
    cases closes i
    · exact Or.inr ⟨rfl, rfl⟩
    · exact Or.inl ⟨rfl, rfl⟩
  refine ⟨Guarded.of_free fun i => ?_, fun i => ?_, fun i => ?_, fun i hi => ?_, fun i hi => ?_,
    fun h => ?_, fun h => ?_, rfl⟩
  · rcases hcalls i with ⟨h, -⟩ | ⟨h, -⟩ <;> rw [h] <;> rfl
  · rcases hcalls i with ⟨h, -⟩ | ⟨h, -⟩ <;> rw [h] <;> rfl
  · rcases hcalls i with ⟨h, hc⟩ | ⟨h, hc⟩ <;> rw [h, hc] <;> rfl
  · rcases hcalls i with ⟨h, -⟩ | ⟨h, -⟩ <;> rw [h] at hi <;> cases hi
  · rcases hcalls i with ⟨h, -⟩ | ⟨h, -⟩ <;> rw [h] at hi <;> cases hi
  · cases h
  · cases h

/-- A call moves to a place of the same kind of call. -/
theorem ofClose_update {calls : Fin n → Pc} (h : ∀ j, (calls j).ofClose = closes j)
    (hpc : pc.ofClose = (calls i).ofClose) (j : Fin n) :
    (Function.update calls i pc j).ofClose = closes j := by
  by_cases hj : j = i
  · subst hj
    rw [Function.update_self, hpc, h j]
  · rw [Function.update_of_ne hj, h j]

/-- A call that neither stops the backend nor closes the channel moves. -/
theorem sound_update (hs : Sound closes s) {locked : Bool}
    (hguarded : Guarded Pc.holds locked (Function.update s.calls i pc))
    (hplain : pc.plain = true) (hkind : pc.ofClose = (s.calls i).ofClose)
    (hstops : pc.stops = (s.calls i).stops) (hafter : pc.after = true → s.stopped = true) :
    Sound closes ({ s with locked := locked }.goto i pc) where
  guarded := hguarded
  plain := forall_update (Pc.plain · = true) hs.plain hplain
  ofClose := ofClose_update hs.ofClose hkind
  stopping := by
    refine forall_update (fun q : Pc => q.stops = true → _) hs.stopping fun h => ?_
    exact hs.stopping i (hstops ▸ h)
  after := forall_update (fun q : Pc => q.after = true → _) hs.after hafter
  stopped := fun h => by
    rcases hs.stopped h with hdone | ⟨j, hj⟩
    · exact Or.inl hdone
    · refine Or.inr ⟨j, ?_⟩
      rw [goto_calls]
      by_cases hji : j = i
      · subst hji
        rw [Function.update_self, hstops, hj]
      · rw [Function.update_of_ne hji, hj]
  done := hs.done
  crashed := hs.crashed

theorem sound_step (hs : Sound closes s) (h : step .other s a = some t) : Sound closes t := by
  obtain ⟨-, hmove⟩ := move_of_step h
  have hplain := hs.plain a.call
  cases hpc : s.calls a.call with
  | closing =>
    rw [hpc] at hmove
    obtain ⟨hlocked, rfl⟩ := lock_eq_some hmove
    exact sound_update hs ((hlocked ▸ hs.guarded).lock rfl) rfl (by rw [hpc]; rfl)
      (by rw [hpc]; rfl) fun h => by cases h
  | stopping =>
    rw [hpc, move] at hmove
    by_cases hstopped : s.stopped = true
    · rw [if_pos hstopped] at hmove
      cases hmove
      exact sound_update hs (hs.guarded.move (by rw [hpc]; rfl)) rfl (by rw [hpc]; rfl)
        (by rw [hpc]; rfl) fun _ => hstopped
    · rw [if_neg hstopped] at hmove
      cases hmove
      have hdone : s.done = false := by
        by_contra hd
        exact hstopped (hs.done (eq_true_of_ne_false hd))
      exact ⟨hs.guarded.move (by rw [hpc]; rfl), forall_update (Pc.plain · = true) hs.plain rfl,
        ofClose_update hs.ofClose (by rw [hpc]; rfl), fun _ _ => ⟨rfl, hdone⟩, fun _ _ => rfl,
        fun _ => Or.inr ⟨a.call, by rw [goto_calls, Function.update_self]; rfl⟩, fun _ => rfl,
        hs.crashed⟩
  | onStop =>
    rw [hpc] at hmove
    cases hmove
    exact sound_update hs (hs.guarded.move (by rw [hpc]; rfl)) rfl (by rw [hpc]; rfl)
      (by rw [hpc]; rfl) fun h => by cases h
  | closeDone =>
    have hi : (s.calls a.call).stops = true := by rw [hpc]; rfl
    obtain ⟨hstopped, hdone⟩ := hs.stopping a.call hi
    rw [hpc, move, if_neg (by simp [hdone])] at hmove
    cases hmove
    refine ⟨hs.guarded.move (by rw [hpc]; rfl), forall_update (Pc.plain · = true) hs.plain rfl,
      ofClose_update hs.ofClose (by rw [hpc]; rfl), fun j hj => ?_,
      forall_update (fun q : Pc => q.after = true → _) hs.after fun _ => hstopped,
      fun _ => Or.inl rfl, fun _ => hstopped, hs.crashed⟩
    -- only one call holds the mutex, so no other has yet to close the channel
    by_cases hji : j = a.call
    · rw [goto_calls, hji, Function.update_self] at hj
      cases hj
    · rw [goto_calls, Function.update_of_ne hji] at hj
      exact absurd (hs.guarded.one j a.call (Pc.holds_of_stops hj) (Pc.holds_of_stops hi)) hji
  | unlocking =>
    have hi : (s.calls a.call).holds = true := by rw [hpc]; rfl
    rw [hpc, move, unlock_of_locked (hs.guarded.locked_of_holds hi)] at hmove
    cases hmove
    exact sound_update hs (hs.guarded.unlock hi rfl) rfl (by rw [hpc]; rfl) (by rw [hpc]; rfl)
      fun _ => hs.after a.call (by rw [hpc]; rfl)
  | subscribing =>
    rw [hpc] at hmove
    cases hmove
    exact sound_update hs (hs.guarded.move (by rw [hpc]; rfl)) rfl (by rw [hpc]; rfl)
      (by rw [hpc]; rfl) fun h => by cases h
  | closed =>
    rw [hpc] at hmove
    cases hmove
  | refused =>
    rw [hpc] at hmove
    cases hmove
  | _ =>
    rw [hpc] at hplain
    cases hplain

/-- The steps that are left for a call. -/
def Pc.work : Pc → Nat
  | .closing => 5
  | .stopping => 4
  | .onStop => 3
  | .closeDone => 2
  | .unlocking => 1
  | .subscribing => 1
  | _ => 0

def work (s : State n) : Nat := ∑ i, (s.calls i).work

theorem work_goto {u : State n} (hcalls : u.calls = s.calls) (hpc : pc.work < (s.calls i).work) :
    work (u.goto i pc) + 1 ≤ work s := by
  have hsum := sum_update Pc.work s.calls i pc
  have hwork : work (u.goto i pc) = ∑ j, (Function.update s.calls i pc j).work := by
    rw [work, goto_calls, hcalls]
  rw [hwork, work]
  omega

theorem work_step (hs : Sound closes s) (h : step .other s a = some t) : work t + 1 ≤ work s := by
  obtain ⟨-, hmove⟩ := move_of_step h
  have hplain := hs.plain a.call
  cases hpc : s.calls a.call with
  | closing =>
    rw [hpc] at hmove
    obtain ⟨-, rfl⟩ := lock_eq_some hmove
    exact work_goto rfl (by rw [hpc]; decide)
  | stopping =>
    rw [hpc, move] at hmove
    split at hmove
    · cases hmove
      exact work_goto rfl (by rw [hpc]; decide)
    · cases hmove
      exact work_goto (u := { s with stopped := true }) rfl (by rw [hpc]; decide)
  | onStop =>
    rw [hpc] at hmove
    cases hmove
    exact work_goto rfl (by rw [hpc]; decide)
  | closeDone =>
    have hdone := (hs.stopping a.call (by rw [hpc]; rfl)).2
    rw [hpc, move, if_neg (by simp [hdone])] at hmove
    cases hmove
    exact work_goto (u := { s with done := true }) rfl (by rw [hpc]; decide)
  | unlocking =>
    have hlocked := hs.guarded.locked_of_holds (i := a.call) (by rw [hpc]; rfl)
    rw [hpc, move, unlock_of_locked hlocked] at hmove
    cases hmove
    exact work_goto (u := { s with locked := false }) rfl (by rw [hpc]; decide)
  | subscribing =>
    rw [hpc] at hmove
    cases hmove
    exact work_goto rfl (by rw [hpc]; decide)
  | closed =>
    rw [hpc] at hmove
    cases hmove
  | refused =>
    rw [hpc] at hmove
    cases hmove
  | _ =>
    rw [hpc] at hplain
    cases hplain

/-- The places inside the mutex and those outside. -/
theorem Pc.inside_cases {pc : Pc} (hplain : pc.plain = true) (h : pc.holds = true) :
    pc = .stopping ∨ pc = .onStop ∨ pc = .closeDone ∨ pc = .unlocking := by
  cases pc <;> simp_all [Pc.plain, Pc.holds]

theorem Pc.outside_cases {pc : Pc} (hplain : pc.plain = true) (h : pc.holds = false) :
    pc = .closing ∨ pc = .subscribing ∨ pc.returned = true := by
  cases pc <;> simp_all [Pc.plain, Pc.holds, Pc.returned]

theorem Pc.after_of_returned {pc : Pc} (hkind : pc.ofClose = true) (h : pc.returned = true) :
    pc.after = true := by
  cases pc <;> simp_all [Pc.ofClose, Pc.returned, Pc.after]

theorem Pc.not_returned_of_stops {pc : Pc} (h : pc.stops = true) : ¬ pc.returned = true := by
  cases pc <;> simp_all [Pc.stops, Pc.returned]

/-- Whoever holds the mutex can move. -/
theorem exists_step_of_holds (hs : Sound closes s) (hi : (s.calls i).holds = true) :
    ∃ t, step .other s ⟨i, 0⟩ = some t := by
  rw [step, if_neg (by simp [hs.crashed])]
  dsimp only
  rcases Pc.inside_cases (hs.plain i) hi with hpc | hpc | hpc | hpc
  · rw [hpc, move]
    split
    · exact ⟨_, rfl⟩
    · exact ⟨_, rfl⟩
  · rw [hpc]
    exact ⟨_, rfl⟩
  · rw [hpc, move]
    split
    · exact ⟨_, rfl⟩
    · exact ⟨_, rfl⟩
  · rw [hpc]
    exact ⟨_, rfl⟩

/-- When no call can move any more, all have returned. -/
theorem returned_of_stuck (hs : Sound closes s) (stuck : ∀ a, step .other s a = none) (i : Fin n) :
    (s.calls i).returned = true := by
  have hnone : ∀ j, (s.calls j).holds = false := fun j => by
    by_contra hj
    obtain ⟨t, ht⟩ := exists_step_of_holds hs (eq_true_of_ne_false hj)
    rw [stuck] at ht
    cases ht
  have hfree : s.locked = false := by
    by_contra hlocked
    obtain ⟨j, hj⟩ := hs.guarded.locked_iff.mp (eq_true_of_ne_false hlocked)
    rw [hnone j] at hj
    cases hj
  have hi := stuck ⟨i, 0⟩
  rw [step, if_neg (by simp [hs.crashed])] at hi
  dsimp only at hi
  rcases Pc.outside_cases (hs.plain i) (hnone i) with hpc | hpc | hpc
  · rw [hpc, move, State.lock, if_neg (by simp [hfree])] at hi
    cases hi
  · rw [hpc] at hi
    cases hi
  · exact hpc

theorem sound_run {as : List (Act n)} (h : AnyRun (step .other) (start closes) as s) :
    Sound closes s :=
  h.invariant (sound_start closes) fun _ _ _ hs _ taken => sound_step hs taken

theorem work_run {as : List (Act n)} (h : AnyRun (step .other) (start closes) as s) :
    as.length + work s ≤ work (start closes) := by
  induction h with
  | nil => exact (Nat.zero_add _).le
  | snoc before _ taken ih =>
    have hstep := work_step (sound_run before) taken
    rw [List.length_append, List.length_singleton]
    omega

/-- On the other platforms nothing panics, the calls come to an end whatever the order of their
steps, and then all have returned and the channel is closed if there was a call of `Close`. -/
theorem close_ends {as : List (Act n)} (h : AnyRun (step .other) (start closes) as s) :
    s.crashed = false ∧ as.length + work s ≤ work (start closes) ∧
      ((∀ a, step .other s a = none) →
        (∀ i, (s.calls i).returned = true) ∧ ((∃ i, closes i = true) → s.done = true)) := by
  have hs := sound_run h
  refine ⟨hs.crashed, work_run h, fun stuck => ⟨returned_of_stuck hs stuck, ?_⟩⟩
  rintro ⟨i, hi⟩
  have hafter : (s.calls i).after = true :=
    Pc.after_of_returned ((hs.ofClose i).trans hi) (returned_of_stuck hs stuck i)
  rcases hs.stopped (hs.after i hafter) with hdone | ⟨j, hj⟩
  · exact hdone
  · exact absurd (returned_of_stuck hs stuck j) (Pc.not_returned_of_stops hj)

end

/-! ## Two calls -/

/-- The steps of a call of `Close`, as far as it gets. -/
def closeSteps (k : Nat) : List (Act 2) := List.replicate k ⟨0, 0⟩

theorem hangs_sample : ∃ s : State 2,
    AnyRun (step .windows) (start fun _ => true) (closeSteps 3) s ∧
      (∀ i, s.calls i ≠ .closed) ∧ s.evtClosed = [] ∧ s.done = false ∧
        ∀ bs t, AnyRun (step .windows) s bs t → ∀ i, (s.calls i).blocked = true →
          t.calls i = s.calls i := by
  have hcheck : (exec (step .windows) (start fun _ => true) (closeSteps 3)).any
      (fun s => s.stopped) = true := by decide
  obtain ⟨s, hrun, hstopped⟩ := run_of_check hcheck
  obtain ⟨hclosed, hhandle, hdone, hwait⟩ := close_hangs hrun
  exact ⟨s, hrun, hclosed, hhandle, hdone, hwait hstopped⟩

/-- The second call gets the mutex when the first has let it go. -/
def bothSteps : List (Act 2) := closeSteps 5 ++ List.replicate 3 ⟨1, 0⟩

theorem ends_sample : ∃ s : State 2,
    AnyRun (step .other) (start fun _ => true) bothSteps s ∧ s.crashed = false ∧
      bothSteps.length + work s ≤ work (start fun _ : Fin 2 => true) ∧
        (∀ i, (s.calls i).returned = true) ∧ s.done = true := by
  have hcheck : (exec (step .other) (start fun _ => true) bothSteps).any
      (fun s => decide (∀ i, s.calls i = .closed)) = true := by decide
  obtain ⟨s, hrun, hs⟩ := run_of_check hcheck
  have hclosed := of_decide_eq_true hs
  have stuck : ∀ a, step .other s a = none := fun a => by
    rw [step, hclosed a.call, move, ite_self]
  obtain ⟨hcrashed, hwork, hends⟩ := close_ends hrun
  obtain ⟨hreturned, hdone⟩ := hends stuck
  exact ⟨s, hrun, hcrashed, hwork, hreturned, hdone ⟨0, rfl⟩⟩

end ZaqorinCore.Agent.PushBackend
