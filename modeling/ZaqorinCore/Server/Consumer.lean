import ZaqorinCore.Base.Run
import ZaqorinCore.Base.Triple
import ZaqorinCore.Server.Detect

/-!
# The consumer loop of the detectors

`_process_one` and the loop of `detectors/runner.py`. The calls to the database, to Redis and to the
detectors are `Services`: scripts over a state of their own, so that each of them can fail whenever
it is called. What the loop does is logged, the newest first. The loop acknowledges an entry on
purpose also when it cannot be processed; `acks_caused` lists when it does.
-/

namespace ZaqorinCore.Server

open Text Base

/-! ## Detectors -/

inductive Severity
  | low
  | medium
  | high
  | critical
  deriving DecidableEq

structure DetectionAction where
  kind : Str
  target : Str
  ttlSec : Option Int
  deriving DecidableEq

structure DetectionResult where
  detector : Str
  severity : Severity
  summary : Str
  detail : List (Str × Json)
  cooldownSec : Int
  dedupKey : Str
  action : Option DetectionAction

/-- The exception of a task that is cancelled, which `except Exception` does not catch. -/
def cancelled : PyError := .other "CancelledError"

/-- `try: ... except Exception`. -/
def attempt {σ α : Type} (m : Py σ α) : Py σ (Except PyError α) :=
  Script.attempt (fun e => decide (e ≠ cancelled)) m

/-- What the loop calls, over the state `σ` of the outside world; `δ` are the detectors. A detector
that runs out of time raises. -/
structure Services (σ δ : Type) where
  load : Uuid → Py σ (Option (Str × List (Str × Str)))
  onEvent : δ → ParsedEvent → Py σ (List DetectionResult)
  writeAlert : Uuid → DetectionResult → Py σ Uuid
  writeAction : Uuid → Uuid → DetectionAction → Py σ Uuid
  xack : Str → Py σ Unit

/-- What the loop has done with an entry of the stream. `sent` is an `XACK`, answered or not. -/
inductive Effect (δ : Type)
  | malformed (msgId : Str)
  | missing (msgId : Str)
  | detected (msgId : Str) (d : δ) (outcome : Except PyError (List DetectionResult))
  | alerted (msgId : Str) (r : DetectionResult) (alertId : Except PyError Uuid)
  | evaluated (msgId : Str)
  | raised (msgId : Str) (e : PyError)
  | sent (msgId : Str)

variable {σ δ ρ : Type}

structure Consumer (σ δ ρ : Type) where
  outside : σ
  sigma : SigmaWorld ρ
  log : List (Effect δ)

namespace Consumer

def call {α : Type} (m : Py σ α) : Py (Consumer σ δ ρ) α :=
  Script.zoom outside (fun outside s => { s with outside }) m

def note (e : Effect δ) : Py (Consumer σ δ ρ) Unit :=
  modify fun s => { s with log := e :: s.log }

variable (sv : Services σ δ)

def xack (msgId : Str) : Py (Consumer σ δ ρ) Unit := do
  note (.sent msgId)
  call (sv.xack msgId)

/-- The action of a result whose alert was written. -/
def enqueueAction (hostId : Uuid) (r : DetectionResult) :
    Except PyError Uuid → Py (Consumer σ δ ρ) Unit
  | .ok alertId =>
    match r.action with
    | some action => attempt (call (sv.writeAction hostId alertId action)) *> pure ()
    | none => pure ()
  | .error _ => pure ()

/-- The results of a detector: an alert for each, and its action. -/
def writeResults (msgId : Str) (hostId : Uuid) : List DetectionResult → Py (Consumer σ δ ρ) Unit
  | [] => pure ()
  | r :: rs => do
    let alertId ← attempt (call (sv.writeAlert hostId r))
    note (.alerted msgId r alertId)
    enqueueAction sv hostId r alertId
    writeResults msgId hostId rs

def writeOutcome (msgId : Str) (hostId : Uuid) :
    Except PyError (List DetectionResult) → Py (Consumer σ δ ρ) Unit
  | .ok results => writeResults sv msgId hostId results
  | .error _ => pure ()

/-- The detectors in order; one that raises is skipped. -/
def runDetectors (msgId : Str) (event : ParsedEvent) : List δ → Py (Consumer σ δ ρ) Unit
  | [] => pure ()
  | d :: ds => do
    let outcome ← attempt (call (sv.onEvent d event))
    writeOutcome sv msgId event.hostId outcome
    note (.detected msgId d outcome)
    runDetectors msgId event ds

def processOne (detectors : List δ) (msgId : Str) (fields : List (Str × Str)) :
    Py (Consumer σ δ ρ) Unit := do
  match ← parseEvent fields with
  | none =>
    note (.malformed msgId)
    xack sv msgId
  | some parsed =>
    match ← call (sv.load parsed.eventId) with
    | none =>
      note (.missing msgId)
      xack sv msgId
    | some (raw, metadata) =>
      runDetectors sv msgId { parsed with raw, metadata } detectors
      xack sv msgId

/-- `_process_sigma_one`, with a database that can fail. -/
def processSigma (env : SigmaEnv ρ) (msgId : Str) (fields : List (Str × Str)) :
    Py (Consumer σ δ ρ) Unit := do
  match ← parseEvent fields with
  | none => pure ()
  | some parsed =>
    match ← call (sv.load parsed.eventId) with
    | none => pure ()
    | some (raw, metadata) =>
      Script.zoom sigma (fun sigma s => { s with sigma })
        (runRules ruleEngine .str env { parsed with raw, metadata })
      note (.evaluated msgId)

/-- One entry in the loop; on an exception it is acknowledged as well, if that succeeds. -/
def handle (detectors : List δ) (env : SigmaEnv ρ) (msgId : Str) (fields : List (Str × Str)) :
    Py (Consumer σ δ ρ) Unit := do
  let result ← attempt (do
    processOne sv detectors msgId fields
    processSigma sv env msgId fields)
  match result with
  | .ok () => pure ()
  | .error e =>
    note (.raised msgId e)
    let _ ← attempt (xack sv msgId)

end Consumer

/-- An entry that is delivered, and how the outside world answers the calls that it leads to. -/
structure Delivery (σ δ ρ : Type) where
  msgId : Str
  fields : List (Str × Str)
  services : Services σ δ
  env : SigmaEnv ρ

def Consumer.deliver (detectors : List δ) (s : Consumer σ δ ρ) (d : Delivery σ δ ρ) :
    Consumer σ δ ρ :=
  ((Consumer.handle d.services detectors d.env d.msgId d.fields).exec s).2

/-- Every `XACK` of the log was sent when the condition held of what had been done before. -/
def SentWhen (P : Str → List (Effect δ) → Prop) (log : List (Effect δ)) : Prop :=
  ∀ msgId older, (.sent msgId :: older) <:+ log → P msgId older

/-- Both the detectors and the Sigma rules have been run on the entry. -/
def RunOnBoth (detectors : List δ) (msgId : Str) (log : List (Effect δ)) : Prop :=
  (∀ d ∈ detectors, ∃ outcome, .detected msgId d outcome ∈ log) ∧ .evaluated msgId ∈ log

/-- The detector has been run on the entry, and every alert it asked for has been written or has
failed. -/
def RunOn (msgId : Str) (log : List (Effect δ)) (d : δ) : Prop :=
  ∃ outcome, .detected msgId d outcome ∈ log ∧
    ∀ results, outcome = .ok results → ∀ r ∈ results, ∃ alertId, .alerted msgId r alertId ∈ log

/-- Why the loop acknowledges an entry: it is malformed, its event is gone, its processing raised,
or all detectors have been run on it. -/
def Cause (detectors : List δ) (msgId : Str) (log : List (Effect δ)) : Prop :=
  .malformed msgId ∈ log ∨ .missing msgId ∈ log ∨ (∃ e, .raised msgId e ∈ log) ∨
    ∀ d ∈ detectors, RunOn msgId log d

/-- For every cooldown key of a rule that has changed, an alert of the rule and the dedup key has
been saved. -/
def CooldownsAlerted (w w' : SigmaWorld ρ) : Prop :=
  ∀ ruleId dedup, w'.redis.entries (SigmaRuleRunner.cooldownKey ruleId dedup) ≠
      w.redis.entries (SigmaRuleRunner.cooldownKey ruleId dedup) →
    ∃ rows ∈ w'.saved, rows ∉ w.saved ∧ rows.1.detector = ruleId ∧ rows.1.dedupKey = dedup

/-! ## Logs -/

namespace Consumer

open Script

/-- A condition that a longer log still meets. -/
def Growing (F : List (Effect δ) → Prop) : Prop := ∀ e log, F log → F (e :: log)

/-- A condition on the log, with the state of the Sigma rules unchanged. -/
def OnLog (w : SigmaWorld ρ) (F : List (Effect δ) → Prop) (s : Consumer σ δ ρ) : Prop :=
  s.sigma = w ∧ F s.log

theorem growing_mem (e : Effect δ) : Growing (e ∈ ·) := fun _ _ h => List.mem_cons_of_mem _ h

theorem Growing.and {F G : List (Effect δ) → Prop} (hF : Growing F) (hG : Growing G) :
    Growing fun log => F log ∧ G log :=
  fun e log h => ⟨hF e log h.1, hG e log h.2⟩

theorem growing_runOn (msgId : Str) (d : δ) : Growing fun log => RunOn msgId log d := by
  rintro e log ⟨outcome, hmem, hresults⟩
  refine ⟨outcome, List.mem_cons_of_mem _ hmem, ?_⟩
  intro results hok r hr
  obtain ⟨alertId, halerted⟩ := hresults results hok r hr
  exact ⟨alertId, List.mem_cons_of_mem _ halerted⟩

variable {P : Str → List (Effect δ) → Prop} {F G : List (Effect δ) → Prop} {sv : Services σ δ}
  {msgId : Str} {w : SigmaWorld ρ}

theorem sentWhen_cons {e : Effect δ} {log : List (Effect δ)} (h : SentWhen P log)
    (he : ∀ id, e = .sent id → P id log) : SentWhen P (e :: log) := by
  intro id older hsuffix
  rcases List.suffix_cons_iff.mp hsuffix with heq | hsuffix
  · obtain ⟨rfl, rfl⟩ := List.cons.inj heq
    exact he id rfl
  · exact h id older hsuffix

theorem call_log {α : Type} (m : Py σ α) :
    Triple (OnLog w F) (call m : Py (Consumer σ δ ρ) α) (fun _ => OnLog w F) fun _ => OnLog w F :=
  Triple.zoom fun _ _ h => h

theorem note_log (e : Effect δ) (E : PyError → Consumer σ δ ρ → Prop)
    (h : ∀ log, F log → G (e :: log)) : Triple (OnLog w F) (note e) (fun _ => OnLog w G) E :=
  Triple.modify fun s hs => ⟨hs.1, h s.log hs.2⟩

/-- An `XACK` that is sent for a reason. -/
theorem xack_log (h : ∀ log, F log → SentWhen P log ∧ P msgId log) :
    Triple (OnLog w F) (xack sv msgId : Py (Consumer σ δ ρ) Unit) (fun _ => OnLog w (SentWhen P))
      fun _ => OnLog w (SentWhen P) := by
  refine Triple.bind (note_log _ _ ?_) fun _ => call_log _
  intro log hlog
  obtain ⟨hsent, hP⟩ := h log hlog
  refine sentWhen_cons hsent ?_
  rintro id ⟨⟩
  exact hP

/-- What is done besides an `XACK` keeps what is known of the log. -/
theorem note_quiet {e : Effect δ} (he : ∀ id, e ≠ .sent id) (hF : Growing F)
    (E : PyError → Consumer σ δ ρ → Prop) :
    Triple (OnLog w fun log => SentWhen P log ∧ F log) (note e)
      (fun _ => OnLog w fun log => SentWhen P log ∧ F log ∧ e ∈ log) E := by
  apply note_log
  rintro log ⟨hsent, hlog⟩
  exact ⟨sentWhen_cons hsent fun id h => absurd h (he id), hF e log hlog, List.mem_cons_self⟩

theorem enqueueAction_log (hostId : Uuid) (r : DetectionResult) (alertId : Except PyError Uuid) :
    Triple (OnLog w F) (enqueueAction sv hostId r alertId : Py (Consumer σ δ ρ) Unit)
      (fun _ => OnLog w F) fun _ => OnLog w F := by
  unfold enqueueAction
  split
  · split
    · rw [seqRight_eq_bind]
      refine Triple.bind (Triple.attempt_same (call_log _)) ?_
      intro _
      exact Triple.pure fun _ h => h
    · exact Triple.pure fun _ h => h
  · exact Triple.pure fun _ h => h

theorem writeResults_log (hostId : Uuid) (results : List DetectionResult) (hF : Growing F) :
    Triple (OnLog w fun log => SentWhen P log ∧ F log)
      (writeResults sv msgId hostId results : Py (Consumer σ δ ρ) Unit)
      (fun _ => OnLog w fun log => SentWhen P log ∧ F log ∧
        ∀ r ∈ results, ∃ alertId, .alerted msgId r alertId ∈ log)
      fun _ => OnLog w (SentWhen P) := by
  induction results generalizing F with
  | nil =>
    apply Triple.pure
    intro s hs
    exact ⟨hs.1, hs.2.1, hs.2.2, by simp⟩
  | cons r results ih =>
    have hweaken : ∀ (e : PyError) (s : Consumer σ δ ρ),
        OnLog w (fun log => SentWhen P log ∧ F log) s → OnLog w (SentWhen P) s :=
      fun _ _ h => ⟨h.1, h.2.1⟩
    unfold writeResults
    refine Triple.bind ((Triple.attempt_same (call_log _)).conseq (fun _ h => h) (fun _ _ h => h)
      hweaken) ?_
    intro alertId
    refine Triple.bind (note_quiet (e := .alerted msgId r alertId) nofun hF _) ?_
    intro _
    -- the alert of `r` is known from here on
    have hF' : Growing fun log => F log ∧ .alerted msgId r alertId ∈ log :=
      hF.and (growing_mem _)
    refine Triple.bind ((enqueueAction_log _ _ _).conseq (fun _ h => h) (fun _ _ h => h)
      fun _ _ h => ⟨h.1, h.2.1⟩) ?_
    intro _
    refine (ih hF').conseq (fun _ h => h) ?_ fun _ _ h => h
    rintro _ s ⟨hw, hsent, ⟨hlog, halerted⟩, hall⟩
    refine ⟨hw, hsent, hlog, ?_⟩
    intro r' hr'
    rcases List.mem_cons.mp hr' with rfl | hr'
    · exact ⟨alertId, halerted⟩
    · exact hall r' hr'

theorem runDetectors_log (event : ParsedEvent) (detectors : List δ) (hF : Growing F) :
    Triple (OnLog w fun log => SentWhen P log ∧ F log)
      (runDetectors sv msgId event detectors : Py (Consumer σ δ ρ) Unit)
      (fun _ => OnLog w fun log => SentWhen P log ∧ F log ∧ ∀ d ∈ detectors, RunOn msgId log d)
      fun _ => OnLog w (SentWhen P) := by
  induction detectors generalizing F with
  | nil =>
    apply Triple.pure
    intro s hs
    exact ⟨hs.1, hs.2.1, hs.2.2, by simp⟩
  | cons d detectors ih =>
    unfold runDetectors
    refine Triple.bind ((Triple.attempt_same (call_log _)).conseq (fun _ h => h) (fun _ _ h => h)
      fun _ _ h => ⟨h.1, h.2.1⟩) ?_
    intro outcome
    -- the alerts of the results, if there are any
    let Alerts (log : List (Effect δ)) : Prop := ∀ results, outcome = .ok results →
      ∀ r ∈ results, ∃ alertId, .alerted msgId r alertId ∈ log
    have hAlerts : Growing Alerts := by
      intro e log h results hok r hr
      obtain ⟨alertId, halerted⟩ := h results hok r hr
      exact ⟨alertId, List.mem_cons_of_mem _ halerted⟩
    refine Triple.bind (Q := fun _ => OnLog w fun log => SentWhen P log ∧ F log ∧ Alerts log) ?_ ?_
    · cases outcome with
      | ok results =>
        refine (writeResults_log _ results hF).conseq (fun _ h => h) ?_ fun _ _ h => h
        rintro _ s ⟨hw, hsent, hlog, halerts⟩
        refine ⟨hw, hsent, hlog, ?_⟩
        rintro _ ⟨⟩
        exact halerts
      | error e =>
        apply Triple.pure
        intro s hs
        exact ⟨hs.1, hs.2.1, hs.2.2, nofun⟩
    · intro _
      refine Triple.bind (note_quiet (e := .detected msgId d outcome) nofun (hF.and hAlerts) _) ?_
      intro _
      refine (ih (hF.and (growing_runOn msgId d))).conseq ?_ ?_ fun _ _ h => h
      · rintro s ⟨hw, hsent, ⟨hlog, halerts⟩, hmem⟩
        exact ⟨hw, hsent, hlog, outcome, hmem, halerts⟩
      · rintro _ s ⟨hw, hsent, ⟨hlog, hrun⟩, hall⟩
        exact ⟨hw, hsent, hlog, List.forall_mem_cons.mpr ⟨hrun, hall⟩⟩

/-! ## Acknowledgements -/

variable {detectors : List δ}

theorem note_first {e : Effect δ} (he : ∀ id, e ≠ .sent id)
    (E : PyError → Consumer σ δ ρ → Prop) :
    Triple (OnLog w (SentWhen P)) (note e)
      (fun _ => OnLog w fun log => SentWhen P log ∧ e ∈ log) E := by
  apply note_log
  intro log hsent
  exact ⟨sentWhen_cons hsent fun id h => absurd h (he id), List.mem_cons_self⟩

theorem processOne_log (fields : List (Str × Str)) :
    Triple (OnLog w (SentWhen (Cause detectors)))
      (processOne sv detectors msgId fields : Py (Consumer σ δ ρ) Unit)
      (fun _ => OnLog w (SentWhen (Cause detectors)))
      fun _ => OnLog w (SentWhen (Cause detectors)) := by
  unfold processOne
  refine Triple.bind (Triple.lift (fun _ _ _ h => h) fun _ _ _ h => h) ?_
  intro parsed
  cases parsed with
  | none =>
    refine Triple.bind (note_first (e := .malformed msgId) nofun _) ?_
    intro _
    apply xack_log
    intro log hlog
    exact ⟨hlog.1, Or.inl hlog.2⟩
  | some parsed =>
    refine Triple.bind (call_log _) ?_
    intro payload
    cases payload with
    | none =>
      refine Triple.bind (note_first (e := .missing msgId) nofun _) ?_
      intro _
      apply xack_log
      intro log hlog
      exact ⟨hlog.1, Or.inr (Or.inl hlog.2)⟩
    | some payload =>
      have hnothing : Growing fun _ : List (Effect δ) => True := fun _ _ _ => trivial
      refine Triple.bind ((runDetectors_log _ detectors hnothing).pre
        fun _ h => ⟨h.1, h.2, trivial⟩) ?_
      intro _
      apply xack_log
      intro log hlog
      exact ⟨hlog.1, Or.inr (Or.inr (Or.inr hlog.2.2))⟩

/-- The Sigma rules send no `XACK`, and are not reached. -/
theorem processSigma_log (env : SigmaEnv ρ) (fields : List (Str × Str)) :
    Triple (OnLog w (SentWhen P)) (processSigma sv env msgId fields : Py (Consumer σ δ ρ) Unit)
      (fun _ => OnLog w (SentWhen P)) fun _ => OnLog w (SentWhen P) := by
  unfold processSigma
  refine Triple.bind (Triple.lift (fun _ _ _ h => h) fun _ _ _ h => h) ?_
  intro parsed
  cases parsed with
  | none => exact Triple.pure fun _ h => h
  | some parsed =>
    refine Triple.bind (call_log _) ?_
    intro payload
    cases payload with
    | none => exact Triple.pure fun _ h => h
    | some payload =>
      refine Triple.bind (Q := fun _ _ => False) ?_ fun _ s h => absurd h id
      intro s hs
      rw [exec_zoom, runRules_import_error importFrom_ruleEngine]
      exact hs

theorem handle_log (env : SigmaEnv ρ) (fields : List (Str × Str)) :
    Triple (OnLog w (SentWhen (Cause detectors)))
      (handle sv detectors env msgId fields : Py (Consumer σ δ ρ) Unit)
      (fun _ => OnLog w (SentWhen (Cause detectors)))
      fun _ => OnLog w (SentWhen (Cause detectors)) := by
  unfold handle
  refine Triple.bind (Triple.attempt_same (Triple.bind (processOne_log fields) fun _ =>
    processSigma_log env fields)) ?_
  intro result
  cases result with
  | ok _ => exact Triple.pure fun _ h => h
  | error e =>
    refine Triple.bind (note_first (e := .raised msgId e) nofun _) ?_
    intro _
    refine Triple.bind (Triple.attempt_same (xack_log ?_)) fun _ => Triple.pure fun _ h => h
    intro log hlog
    exact ⟨hlog.1, Or.inr (Or.inr (Or.inl ⟨e, hlog.2⟩))⟩

theorem deliver_log (s : Consumer σ δ ρ) (d : Delivery σ δ ρ)
    (h : SentWhen (Cause detectors) s.log) :
    (s.deliver detectors d).sigma = s.sigma ∧
      SentWhen (Cause detectors) (s.deliver detectors d).log :=
  Triple.state (handle_log d.env d.fields) s ⟨rfl, h⟩

end Consumer

/-! ## Contracts -/

/-- What the calls promise each other over the outside world: `I` holds between them, `Due` while
the results of a detector are still to be written, `Written` when the alert of a result has been. -/
structure Contract (sv : Services σ δ) (I : σ → Prop) (Due : Uuid → List DetectionResult → σ → Prop)
    (Written : Uuid → Uuid → List DetectionResult → σ → Prop) : Prop where
  load : ∀ id, Script.Triple I (sv.load id) (fun _ => I) fun _ => I
  xack : ∀ id, Script.Triple I (sv.xack id) (fun _ => I) fun _ => I
  onEvent : ∀ d e, Script.Triple I (sv.onEvent d e) (fun results => Due e.hostId results) fun _ => I
  writeAlert : ∀ hostId r rs, Script.Triple (Due hostId (r :: rs)) (sv.writeAlert hostId r)
    (fun alertId => Written hostId alertId rs) fun _ => Due hostId rs
  writeAction : ∀ hostId alertId rs a, Script.Triple (Written hostId alertId rs)
    (sv.writeAction hostId alertId a) (fun _ => Due hostId rs) fun _ => Due hostId rs
  written : ∀ hostId alertId rs s, Written hostId alertId rs s → Due hostId rs s
  due : ∀ hostId rs s, Due hostId rs s → I s

namespace Contract

open Script Consumer

variable {sv : Services σ δ} {I : σ → Prop} {Due : Uuid → List DetectionResult → σ → Prop}
  {Written : Uuid → Uuid → List DetectionResult → σ → Prop} {msgId : Str} {detectors : List δ}

/-- A condition on the outside world. -/
def Outside (A : σ → Prop) (s : Consumer σ δ ρ) : Prop := A s.outside

theorem call_outside {α : Type} {m : Py σ α} {A : σ → Prop} {B : α → σ → Prop}
    {C : PyError → σ → Prop} (h : Triple A m B C) :
    Triple (Outside A) (call m : Py (Consumer σ δ ρ) α) (fun a => Outside (B a))
      fun e => Outside (C e) :=
  Triple.zoom_view (fun _ _ => rfl) h

theorem note_outside (e : Effect δ) (A : σ → Prop) (E : PyError → Consumer σ δ ρ → Prop) :
    Triple (Outside A) (note e) (fun _ => Outside A) E :=
  Triple.modify fun _ h => h

theorem xack_outside (c : Contract sv I Due Written) :
    Triple (Outside I) (Consumer.xack sv msgId : Py (Consumer σ δ ρ) Unit) (fun _ => Outside I)
      fun _ => Outside I :=
  Triple.bind (note_outside _ _ _) fun _ => call_outside (c.xack msgId)

theorem enqueueAction_outside (c : Contract sv I Due Written) (hostId : Uuid) (r : DetectionResult)
    (rs : List DetectionResult) (alertId : Except PyError Uuid) :
    Triple (fun s : Consumer σ δ ρ => match alertId with
        | .ok id => Outside (Written hostId id rs) s
        | .error _ => Outside (Due hostId rs) s)
      (enqueueAction sv hostId r alertId) (fun _ => Outside (Due hostId rs))
      fun _ => Outside (Due hostId rs) := by
  unfold enqueueAction
  cases alertId with
  | error e => exact Triple.pure fun _ h => h
  | ok alertId =>
    cases r.action with
    | none => exact Triple.pure fun s h => c.written hostId alertId rs s.outside h
    | some action =>
      dsimp only
      rw [seqRight_eq_bind]
      refine Triple.bind (Triple.attempt_same
        (call_outside (c.writeAction hostId alertId rs action))) ?_
      intro _
      exact Triple.pure fun _ h => h

theorem writeResults_outside (c : Contract sv I Due Written) (hostId : Uuid)
    (results : List DetectionResult) :
    Triple (Outside (Due hostId results))
      (writeResults sv msgId hostId results : Py (Consumer σ δ ρ) Unit) (fun _ => Outside I)
      fun _ => Outside I := by
  induction results with
  | nil => exact Triple.pure fun s h => c.due hostId [] s.outside h
  | cons r results ih =>
    unfold writeResults
    have hweaken : ∀ (e : PyError) (s : Consumer σ δ ρ), Outside (Due hostId results) s →
        Outside I s := fun _ s h => c.due hostId results s.outside h
    refine Triple.bind ((Triple.attempt (call_outside (c.writeAlert hostId r results))).conseq
      (fun _ h => h) (fun _ _ h => h) hweaken) ?_
    intro alertId
    refine Triple.bind (Q := fun _ s => match alertId with
        | .ok id => Outside (Written hostId id results) s
        | .error _ => Outside (Due hostId results) s) ?_ ?_
    · apply Triple.modify
      intro s h
      cases alertId with
      | ok _ => exact h
      | error _ => exact h
    · intro _
      refine Triple.bind ((c.enqueueAction_outside hostId r results alertId).conseq
        (fun _ h => h) (fun _ _ h => h) hweaken) ?_
      intro _
      exact ih

theorem runDetectors_outside (c : Contract sv I Due Written) (event : ParsedEvent)
    (detectors : List δ) :
    Triple (Outside I) (runDetectors sv msgId event detectors : Py (Consumer σ δ ρ) Unit)
      (fun _ => Outside I) fun _ => Outside I := by
  induction detectors with
  | nil => exact Triple.pure fun _ h => h
  | cons d detectors ih =>
    unfold runDetectors
    refine Triple.bind (Triple.attempt (call_outside (c.onEvent d event))) ?_
    intro outcome
    refine Triple.bind (Q := fun _ => Outside I) ?_ ?_
    · cases outcome with
      | ok results => exact c.writeResults_outside event.hostId results
      | error e => exact Triple.pure fun _ h => h
    · intro _
      refine Triple.bind (note_outside _ _ _) ?_
      intro _
      exact ih

theorem processOne_outside (c : Contract sv I Due Written) (fields : List (Str × Str)) :
    Triple (Outside I) (processOne sv detectors msgId fields : Py (Consumer σ δ ρ) Unit)
      (fun _ => Outside I) fun _ => Outside I := by
  unfold processOne
  refine Triple.bind (Triple.lift (fun _ _ _ h => h) fun _ _ _ h => h) ?_
  intro parsed
  cases parsed with
  | none => exact Triple.bind (note_outside _ _ _) fun _ => c.xack_outside
  | some parsed =>
    refine Triple.bind (call_outside (c.load parsed.eventId)) ?_
    intro payload
    cases payload with
    | none => exact Triple.bind (note_outside _ _ _) fun _ => c.xack_outside
    | some payload => exact Triple.bind (c.runDetectors_outside _ detectors) fun _ => c.xack_outside

theorem processSigma_outside (c : Contract sv I Due Written) (env : SigmaEnv ρ)
    (fields : List (Str × Str)) :
    Triple (Outside I) (processSigma sv env msgId fields : Py (Consumer σ δ ρ) Unit)
      (fun _ => Outside I) fun _ => Outside I := by
  unfold processSigma
  refine Triple.bind (Triple.lift (fun _ _ _ h => h) fun _ _ _ h => h) ?_
  intro parsed
  cases parsed with
  | none => exact Triple.pure fun _ h => h
  | some parsed =>
    refine Triple.bind (call_outside (c.load parsed.eventId)) ?_
    intro payload
    cases payload with
    | none => exact Triple.pure fun _ h => h
    | some payload =>
      refine Triple.bind (Triple.zoom fun _ _ h => h) ?_
      intro _
      exact note_outside _ _ _

/-- Whatever entry is handled, the invariant of the outside world is kept. -/
theorem handle_outside (c : Contract sv I Due Written) (env : SigmaEnv ρ)
    (fields : List (Str × Str)) :
    Triple (Outside I) (handle sv detectors env msgId fields : Py (Consumer σ δ ρ) Unit)
      (fun _ => Outside I) fun _ => Outside I := by
  unfold handle
  refine Triple.bind (Triple.attempt_same (Triple.bind (c.processOne_outside fields) fun _ =>
    c.processSigma_outside env fields)) ?_
  intro result
  cases result with
  | ok _ => exact Triple.pure fun _ h => h
  | error e =>
    refine Triple.bind (note_outside _ _ _) ?_
    intro _
    exact Triple.bind (Triple.attempt_same c.xack_outside) fun _ => Triple.pure fun _ h => h

end Contract

/-! ## Runs -/

/-- What the loop does by design: in every run, whatever calls fail, an entry is acknowledged when
it is malformed, when its event is gone, when its processing raised or when all detectors have been
run on it; and no step changes a cooldown key without an alert. -/
theorem acks_caused (detectors : List δ) (outside : σ) (sigma : SigmaWorld ρ)
    (deliveries : List (Delivery σ δ ρ)) (s : Consumer σ δ ρ)
    (h : AnyRun (fun s d => some (Consumer.deliver detectors s d)) ⟨outside, sigma, []⟩
      deliveries s) :
    SentWhen (Cause detectors) s.log ∧
      ∀ d, CooldownsAlerted s.sigma (s.deliver detectors d).sigma := by
  have hsent : SentWhen (Cause detectors) s.log := by
    refine h.invariant (I := fun s => SentWhen (Cause detectors) s.log) ?_ ?_
    · intro msgId older hsuffix
      cases List.suffix_nil.mp hsuffix
    · intro t d u ht _ hu
      cases hu
      exact (Consumer.deliver_log t d ht).2
  refine ⟨hsent, ?_⟩
  intro d ruleId dedup hchanged
  rw [(Consumer.deliver_log s d hsent).1] at hchanged
  exact absurd rfl hchanged

/-- Every call succeeds, and the only detector finds nothing. -/
def calmServices : Services Unit Unit where
  load _ := pure (some ("Failed password".toList, [("status".toList, "failed".toList)]))
  onEvent _ _ := pure []
  writeAlert _ _ := pure 1#128
  writeAction _ _ _ := pure 2#128
  xack _ := pure ()

/-- The database is away. -/
def lostServices : Services Unit Unit :=
  { calmServices with load := fun _ => throw (.other "OperationalError") }

def calmDelivery : Delivery Unit Unit Unit := ⟨"1-0".toList, storedFields, calmServices, eagerEnv⟩

def lostDelivery : Delivery Unit Unit Unit := ⟨"2-0".toList, storedFields, lostServices, eagerEnv⟩

theorem acks_caused_stored :
    ∃ s, AnyRun (fun s d => some (Consumer.deliver [()] s d)) ⟨(), storedWorld, []⟩
        [calmDelivery, lostDelivery] s ∧
      SentWhen (Cause [()]) s.log ∧ ∀ d, CooldownsAlerted s.sigma (s.deliver [()] d).sigma := by
  have hrun : AnyRun (fun s d => some (Consumer.deliver [()] s d))
      (⟨(), storedWorld, []⟩ : Consumer Unit Unit Unit) [calmDelivery, lostDelivery]
      (((⟨(), storedWorld, []⟩ : Consumer Unit Unit Unit).deliver [()] calmDelivery).deliver [()]
        lostDelivery) := run_of_exec rfl
  exact ⟨_, hrun, acks_caused [()] () storedWorld _ _ hrun⟩

/-- An entry that could not be read from the database is acknowledged; neither the detector nor the
rules have been run on it. -/
theorem unread_acked :
    ((⟨(), storedWorld, []⟩ : Consumer Unit Unit Unit).deliver [()] lostDelivery).log =
      [.sent "2-0".toList, .raised "2-0".toList (.other "OperationalError")] ∧
    ¬ SentWhen (RunOnBoth [()])
      ((⟨(), storedWorld, []⟩ : Consumer Unit Unit Unit).deliver [()] lostDelivery).log := by
  have hlog : ((⟨(), storedWorld, []⟩ : Consumer Unit Unit Unit).deliver [()] lostDelivery).log =
      [.sent "2-0".toList, .raised "2-0".toList (.other "OperationalError")] := rfl
  refine ⟨hlog, ?_⟩
  rw [hlog]
  intro h
  have hboth := h "2-0".toList _ (List.suffix_refl _)
  simpa using hboth.2

end ZaqorinCore.Server
