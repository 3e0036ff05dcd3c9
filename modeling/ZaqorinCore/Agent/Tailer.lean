import ZaqorinCore.Base.Run
import ZaqorinCore.Text.Bytes

/-!
# The tailer and its channel

`internal/tailer`: `Start` opens the file and forwards its lines in a goroutine, or leaves the
opening to `retryUntilReady`. Each of the three functions closes the channel when it returns, and
`retryUntilReady` calls `runFromOpened`. `closed_once_iff` says which runs end without a panic.
-/

namespace ZaqorinCore.Agent.Tailer

open ZaqorinCore.Base ZaqorinCore.Text

/-! ## The channel -/

/-- A line that is handed on. -/
structure Line where
  source : Str
  raw : Bytes
  deriving DecidableEq, Repr

/-- A line of the tail library; `err` stands for a rotation or a truncation. -/
structure TailLine where
  text : Bytes
  err : Bool
  deriving DecidableEq, Repr

/-- `make(chan Line, 64)` -/
def capacity : Nat := 64

/-- The channel; what was done to it is counted. -/
structure Out where
  queue : List Line := []
  closed : Bool := false
  closes : Nat := 0
  sendsAfterClose : Nat := 0
  deriving DecidableEq, Repr

/-! ## The goroutines -/

/-- The functions that defer `close(out)`. -/
inductive Frame
  | run
  | runFromOpened
  | retryUntilReady
  deriving DecidableEq, Repr

/-- The functions that forward the lines. -/
inductive Forwarder
  | run
  | runFromOpened
  deriving DecidableEq, Repr

/-- The functions that return, innermost first, when the loop over the lines ends. -/
def Forwarder.stack : Forwarder → List Frame
  | run => [.run]
  | runFromOpened => [.runFromOpened, .retryUntilReady]

/-- Where the goroutine of the tailer stands. -/
inductive Worker
  | idle
  | refused  -- `tailer: empty path`
  | checking (backoff : Nat)  -- `ctx.Err()`
  | opening (backoff : Nat)
  | waiting (backoff : Nat)  -- the backoff in milliseconds
  | receiving (fn : Forwarder)
  | sending (fn : Forwarder) (line : Line)
  | returning (frames : List Frame)
  | done
  | panicked
  deriving DecidableEq, Repr

/-- The goroutine that stops the library. -/
inductive Watcher
  | none
  | watching
  | stopped
  deriving DecidableEq, Repr

structure Source where
  name : Str
  path : Str
  deriving DecidableEq, Repr

structure State where
  ctxDone : Bool := false
  out : Out := {}
  worker : Worker := .idle
  watcher : Watcher := .none
  deriving DecidableEq, Repr

inductive Act
  | start (opened : Bool)  -- `Start`, and whether `TailFile` succeeds
  | cancel
  | check
  | reopen (opened : Bool)  -- `TailFile` in the retry loop
  | timer
  | doneWaiting
  | deliver (line : TailLine)
  | streamEnd
  | send
  | doneSending
  | deferred  -- the next deferred `close(out)`
  | stopTail
  | consume
  deriving DecidableEq, Repr

def initialBackoff : Nat := 250
def maxBackoff : Nat := 5000

def nextBackoff (backoff : Nat) : Nat :=
  if backoff < maxBackoff then min (backoff * 2) maxBackoff else backoff

/-- `close(out)`: it panics on a closed channel. -/
def closeOut (s : State) (frames : List Frame) : State :=
  let out := { s.out with closes := s.out.closes + 1 }
  if s.out.closed then { s with out := out, worker := .panicked }
  else
    { s with
      out := { out with closed := true }
      worker := if frames = [] then .done else .returning frames }

/-- `out <- line`: it panics on a closed channel and waits while the buffer is full. -/
def sendOut (s : State) (fn : Forwarder) (line : Line) : Option State :=
  if s.out.closed then
    some { s with
      out := { s.out with sendsAfterClose := s.out.sendsAfterClose + 1 }
      worker := .panicked }
  else if s.out.queue.length < capacity then
    some { s with out := { s.out with queue := s.out.queue ++ [line] }, worker := .receiving fn }
  else none

/-- One step of the goroutine of the tailer. -/
def work (src : Source) (s : State) : Worker → Act → Option State
  | .idle, .start opened =>
    if src.path = [] then some { s with worker := .refused }
    else if opened then some { s with worker := .receiving .run, watcher := .watching }
    else some { s with worker := .checking initialBackoff }
  | .checking backoff, .check =>
    if s.ctxDone then some { s with worker := .returning [.retryUntilReady] }
    else some { s with worker := .opening backoff }
  | .opening backoff, .reopen opened =>
    if opened then some { s with worker := .receiving .runFromOpened, watcher := .watching }
    else some { s with worker := .waiting backoff }
  | .waiting backoff, .timer => some { s with worker := .checking (nextBackoff backoff) }
  | .waiting _, .doneWaiting =>
    if s.ctxDone then some { s with worker := .returning [.retryUntilReady] } else none
  | .receiving fn, .deliver line =>
    if line.err then some s else some { s with worker := .sending fn ⟨src.name, line.text⟩ }
  | .receiving fn, .streamEnd => some { s with worker := .returning fn.stack }
  | .sending fn line, .send => sendOut s fn line
  | .sending fn _, .doneSending =>
    if s.ctxDone then some { s with worker := .returning fn.stack } else none
  | .returning (_ :: frames), .deferred => some (closeOut s frames)
  | _, _ => none

/-- The caller cancels the context, the watcher stops the library, the consumer takes a line, or the
tailer makes a step. After a panic the process is gone. -/
def step (src : Source) (s : State) (a : Act) : Option State :=
  if s.worker = .panicked then none
  else
    match a with
    | .cancel => some { s with ctxDone := true }
    | .stopTail =>
      if s.watcher = .watching ∧ s.ctxDone then some { s with watcher := .stopped } else none
    | .consume =>
      match s.out.queue with
      | [] => none
      | _ :: queue => some { s with out := { s.out with queue := queue } }
    | a => work src s s.worker a

def start : State := {}

/-! ## What the tailer promises -/

/-- The channel is closed at most once, nothing is sent after that, and no goroutine panics. -/
structure Fine (s : State) : Prop where
  closes : s.out.closes ≤ 1
  sends : s.out.sendsAfterClose = 0
  runs : s.worker ≠ .panicked

/-- The goroutine of the tailer is over. -/
def Ended (s : State) : Prop := s.worker = .done ∨ s.worker = .panicked

/-- The retry loop does not get the file open. -/
def NotReopened (_ : State) (a : Act) : Prop := a ≠ .reopen true

instance (s : State) (a : Act) : Decidable (NotReopened s a) :=
  inferInstanceAs (Decidable (a ≠ _))

/-! ## The invariant -/

/-- The channel is open. -/
def Out.Unclosed (out : Out) : Prop := out.closed = false ∧ out.closes = 0

/-- The channel has been closed once. -/
def Out.ClosedOnce (out : Out) : Prop := out.closed = true ∧ out.closes = 1

/-- The closes that were made, by where the tailer stands. -/
def Sound (s : State) : Prop :=
  s.out.sendsAfterClose = 0 ∧
  match s.worker with
  | .idle | .refused | .checking _ | .opening _ | .waiting _ | .receiving _ | .sending _ _ =>
    s.out.Unclosed
  | .returning frames =>
    s.out.Unclosed ∧
        (frames = [.run] ∨ frames = [.retryUntilReady] ∨
          frames = [.runFromOpened, .retryUntilReady]) ∨
      s.out.ClosedOnce ∧ frames = [.retryUntilReady]
  | .done => s.out.ClosedOnce
  | .panicked => True

/-- The retry loop has got the file open. -/
def Late (s : State) : Prop :=
  match s.worker with
  | .idle | .refused | .checking _ | .opening _ | .waiting _ | .done => False
  | .receiving fn | .sending fn _ => fn = .runFromOpened
  | .returning frames => frames = [.runFromOpened, .retryUntilReady] ∨ s.out.closed = true
  | .panicked => True

section

variable {src : Source} {s u : State} {a : Act}

/-- A step is one of the tailer, or leaves the tailer and what was done to the channel as it was. -/
theorem step_cases (h : step src s a = some u) :
    (work src s s.worker a = some u) ∨
    (a ≠ .reopen true ∧ u.worker = s.worker ∧ u.out.closed = s.out.closed ∧
      u.out.closes = s.out.closes ∧ u.out.sendsAfterClose = s.out.sendsAfterClose) := by
  unfold step at h
  split at h
  · cases h
  · split at h
    · cases h
      exact Or.inr ⟨nofun, rfl, rfl, rfl, rfl⟩
    · split at h
      · cases h
        exact Or.inr ⟨nofun, rfl, rfl, rfl, rfl⟩
      · cases h
    · split at h
      · cases h
      · cases h
        exact Or.inr ⟨nofun, rfl, rfl, rfl, rfl⟩
    · exact Or.inl h

theorem Sound.closeOut {frames : List Frame} {f : Frame} (hw : s.worker = .returning (f :: frames))
    (hs : Sound s) : Sound (closeOut s frames) ∧ (Late (closeOut s frames) ↔ Late s) := by
  simp only [Sound, hw] at hs
  obtain ⟨hsends, ⟨⟨hclosed, hcloses⟩, hframes⟩ | ⟨⟨hclosed, hcloses⟩, hframes⟩⟩ := hs
  · simp only [Tailer.closeOut, hclosed, Bool.false_eq_true, if_false]
    rcases hframes with h | h | h
    · cases h
      exact ⟨⟨hsends, rfl, by simp [hcloses]⟩, by simp [Late, hw, hclosed]⟩
    · cases h
      exact ⟨⟨hsends, rfl, by simp [hcloses]⟩, by simp [Late, hw, hclosed]⟩
    · -- the frame below has its own close to come
      cases h
      exact ⟨⟨hsends, Or.inr ⟨⟨rfl, by simp [hcloses]⟩, rfl⟩⟩, by simp [Late, hw]⟩
  · simp only [Tailer.closeOut, hclosed, if_true]
    exact ⟨⟨hsends, trivial⟩, by simp [Late, hw, hclosed]⟩

theorem Sound.sendOut {fn : Forwarder} {line : Line} (hw : s.worker = .sending fn line)
    (hs : Sound s) (h : sendOut s fn line = some u) : Sound u ∧ (Late u ↔ Late s) := by
  simp only [Sound, hw] at hs
  obtain ⟨hsends, hclosed, hcloses⟩ := hs
  simp only [Tailer.sendOut, hclosed, Bool.false_eq_true, if_false] at h
  split at h
  · cases h
    exact ⟨⟨hsends, rfl, hcloses⟩, by simp [Late, hw]⟩
  · cases h

/-- The loop over the lines ends. -/
theorem sound_leave (hsends : s.out.sendsAfterClose = 0) (hclosed : s.out.Unclosed)
    (fn : Forwarder) : Sound { s with worker := .returning fn.stack } ∧
      (Late { s with worker := .returning fn.stack } ↔ fn = .runFromOpened) := by
  cases fn with
  | run =>
    exact ⟨⟨hsends, Or.inl ⟨hclosed, Or.inl rfl⟩⟩, by simp [Late, Forwarder.stack, hclosed.1]⟩
  | runFromOpened =>
    exact ⟨⟨hsends, Or.inl ⟨hclosed, Or.inr (Or.inr rfl)⟩⟩, by simp [Late, Forwarder.stack]⟩

theorem Sound.work (hs : Sound s) (h : work src s s.worker a = some u) :
    Sound u ∧ (Late u ↔ Late s ∨ a = .reopen true) := by
  generalize hw : s.worker = w at h
  unfold Tailer.work at h
  split at h
  · -- `Start`
    simp only [Sound, hw] at hs
    split at h
    · cases h
      exact ⟨hs, by simp [Late, hw]⟩
    · split at h
      · cases h
        exact ⟨hs, by simp [Late, hw]⟩
      · cases h
        exact ⟨hs, by simp [Late, hw]⟩
  · simp only [Sound, hw] at hs
    split at h
    · cases h
      exact ⟨⟨hs.1, Or.inl ⟨hs.2, Or.inr (Or.inl rfl)⟩⟩, by simp [Late, hw, hs.2.1]⟩
    · cases h
      exact ⟨hs, by simp [Late, hw]⟩
  · simp only [Sound, hw] at hs
    split at h
    · rename_i hopened
      cases h
      exact ⟨hs, by simp [Late, hopened]⟩
    · rename_i hopened
      cases h
      exact ⟨hs, by simp [Late, hw, hopened]⟩
  · simp only [Sound, hw] at hs
    cases h
    exact ⟨hs, by simp [Late, hw]⟩
  · simp only [Sound, hw] at hs
    split at h
    · cases h
      exact ⟨⟨hs.1, Or.inl ⟨hs.2, Or.inr (Or.inl rfl)⟩⟩, by simp [Late, hw, hs.2.1]⟩
    · cases h
  · split at h
    · cases h
      exact ⟨hs, by simp⟩
    · simp only [Sound, hw] at hs
      cases h
      exact ⟨hs, by simp [Late, hw]⟩
  · -- the stream ends
    rename_i fn
    simp only [Sound, hw] at hs
    cases h
    obtain ⟨hu, hlate⟩ := sound_leave hs.1 hs.2 fn
    exact ⟨hu, hlate.trans (by simp [Late, hw])⟩
  · obtain ⟨hu, hlate⟩ := hs.sendOut hw h
    exact ⟨hu, by simp [hlate]⟩
  · rename_i fn _
    simp only [Sound, hw] at hs
    split at h
    · cases h
      obtain ⟨hu, hlate⟩ := sound_leave hs.1 hs.2 fn
      exact ⟨hu, hlate.trans (by simp [Late, hw])⟩
    · cases h
  · cases h
    obtain ⟨hu, hlate⟩ := hs.closeOut hw
    exact ⟨hu, by simp [hlate]⟩
  · cases h

/-- A step of the system keeps the invariant, and makes the tailer late exactly when the retry loop
opens the file. -/
theorem Sound.step (hs : Sound s) (h : step src s a = some u) :
    Sound u ∧ (Late u ↔ Late s ∨ a = .reopen true) := by
  rcases step_cases h with h | ⟨ha, hworker, hclosed, hcloses, hsends⟩
  · exact hs.work h
  · have hsound : Sound u := by
      simpa only [Sound, Out.Unclosed, Out.ClosedOnce, hworker, hclosed, hcloses, hsends] using hs
    have hlate : Late u ↔ Late s := by
      simp only [Late, hworker, hclosed]
    exact ⟨hsound, by simp [hlate, ha]⟩

theorem Sound.closes_le (hs : Sound s) (h : s.worker ≠ .panicked) : s.out.closes ≤ 1 := by
  obtain ⟨-, hs⟩ := hs
  cases hw : s.worker with
  | idle | refused | checking _ | opening _ | waiting _ | receiving _ | sending _ _ =>
    rw [hw] at hs
    exact hs.2.trans_le (Nat.zero_le 1)
  | returning frames =>
    rw [hw] at hs
    rcases hs with ⟨hunclosed, -⟩ | ⟨honce, -⟩
    · exact hunclosed.2.trans_le (Nat.zero_le 1)
    · exact honce.2.le
  | done =>
    rw [hw] at hs
    exact hs.2.le
  | panicked => exact absurd hw h

theorem Sound.fine (hs : Sound s) (h : ¬ Late s) : Fine s := by
  have hruns : s.worker ≠ .panicked := by
    intro hpanicked
    apply h
    rw [Late, hpanicked]
    trivial
  exact ⟨hs.closes_le hruns, hs.1, hruns⟩

/-- A late tailer does not end without a panic. -/
theorem not_fine_of_late (hended : Ended s) (h : Late s) : ¬ Fine s := by
  rcases hended with hdone | hpanicked
  · simp [Late, hdone] at h
  · exact fun hfine => hfine.runs hpanicked

end

/-! ## The runs -/

theorem late_iff {src : Source} {acts : List Act} {s : State}
    (h : AnyRun (step src) start acts s) :
    Sound s ∧ (¬ Late s ↔ Run (step src) NotReopened start acts s) := by
  have hstart : Sound start := ⟨rfl, rfl, rfl⟩
  have hkeep : ∀ t a u, Sound t → step src t a = some u → Sound u :=
    fun t a u ht htaken => (ht.step htaken).1
  refine ⟨h.invariant hstart fun t a u ht _ => hkeep t a u ht, ?_⟩
  apply Run.iff_of_step hstart hkeep (P := fun s => ¬ Late s) nofun ?_ h
  intro t a u ht htaken
  rw [(ht.step htaken).2, not_or]
  rfl

/-- A run in which the retry loop does not get the file open is fine, and one in which it does
cannot end without a panic. -/
theorem closed_once_iff (src : Source) (acts : List Act) (s : State)
    (h : AnyRun (step src) start acts s) :
    (Run (step src) NotReopened start acts s → Fine s) ∧
      (Ended s → (Fine s ↔ Run (step src) NotReopened start acts s)) := by
  obtain ⟨hsound, hlate⟩ := late_iff h
  rw [← hlate]
  refine ⟨hsound.fine, fun hended => ⟨?_, hsound.fine⟩⟩
  intro hfine hl
  exact not_fine_of_late hended hl hfine

def authLog : Source := ⟨"auth".toList, "/var/log/auth.log".toList⟩

/-- The file is there from the start, and a line is on its way when the agent shuts down. -/
def openedAtStart : List Act :=
  [.start true, .deliver ⟨lit "a", false⟩, .send, .deliver ⟨lit "b", false⟩, .cancel, .stopTail,
    .doneSending, .deferred, .consume]

theorem closed_once_opened_at_start : ∃ s, AnyRun (step authLog) start openedAtStart s ∧
    Ended s ∧ Fine s := by
  obtain ⟨s, hrun, hdone⟩ : ∃ s, Run (step authLog) NotReopened start openedAtStart s ∧
      decide (s.worker = .done) = true := run_of_guarded_check (by decide +kernel)
  have hended : Ended s := Or.inl (of_decide_eq_true hdone)
  exact ⟨s, hrun.any, hended, ((closed_once_iff authLog _ s hrun.any).2 hended).mpr hrun⟩

/-- The file appears after the start, and the stream ends. -/
def openedLater : List Act :=
  [.start false, .check, .reopen true, .streamEnd, .deferred, .deferred]

theorem closed_twice : ¬ ∀ src acts s, AnyRun (step src) start acts s → Fine s := by
  intro h
  obtain ⟨s, hrun, hcloses⟩ : ∃ s, AnyRun (step authLog) start openedLater s ∧
      decide (s.out.closes = 2 ∧ s.worker = .panicked) = true := run_of_check (by decide +kernel)
  exact (h _ _ _ hrun).runs (of_decide_eq_true hcloses).2

end ZaqorinCore.Agent.Tailer
