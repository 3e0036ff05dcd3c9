import ZaqorinCore.Server.SoarLoss

/-!
# The cooldown of the SOAR worker

The poller looks at the last successful delivery for a backend, a host and a detector when it puts a
pair into the queue, and a delivery is entered there when it has succeeded, so that what is still in
the queue does not hold back the next alert. The history keeps, beside the worker, every pair that
was put into the queue and every success, with their times. `cooldown_holds` says what follows for
any schedule of the tasks and any clock.
-/

namespace ZaqorinCore.Server.Soar

open Text Base

/-! ## The history -/

inductive Mark
  | accepted
  | succeeded
  deriving DecidableEq

/-- A pair that passed the filters, or a delivery that succeeded. -/
structure SoarEvent where
  mark : Mark
  pair : Str × Str
  key : Str × Str × Str
  time : Int
  deriving DecidableEq

/-- The key of the cooldown table. -/
def PendingDelivery.key (item : PendingDelivery) : Str × Str × Str :=
  (item.backendName, item.alert.hostId, item.alert.detector)

/-- What a step adds to the history. -/
def SoarWorker.event (ops : SoarOps) (s : SoarWorker) : SoarAct → Option SoarEvent
  | .turn _ =>
    match s.row with
    | some (alert, name :: _) =>
      match s.wants ops alert name with
      | some _ =>
        some ⟨.accepted, (alert.id, name), (name, alert.hostId, alert.detector), s.now⟩
      | none => none
    | _ => none
  | .persist i saved =>
    match s.tasks[i]? with
    | some ⟨item, .persisting outcome⟩ =>
      if saved = true ∧ outcome.result.deadLettered = false ∧
        SoarWorker.Successful outcome.result then
        some ⟨.succeeded, item.pair, item.key, s.now⟩
      else none
    | _ => none
  | _ => none

/-- The worker with the events so far, the last one first. -/
structure History where
  worker : SoarWorker
  events : List SoarEvent

def History.start (config : SoarConfig) (now : Int) (files : List (Str × Json)) : History :=
  ⟨.start config now files, []⟩

def History.step (ops : SoarOps) (h : History) (a : SoarAct) : Option History :=
  (h.worker.step ops a).map fun u => ⟨u, (h.worker.event ops a).toList ++ h.events⟩

/-! ## The two promises -/

/-- The pair passes every filter but the cooldown. -/
structure SoarWorker.Skips (ops : SoarOps) (s : SoarWorker) (alert : Alert) (name : Str)
    (cfg : BackendConfig) : Prop where
  configured : dictGet s.config.backends name = some cfg
  enabled : cfg.enabled = true
  severity : severityMeets ops alert.severity cfg.severityMin = true
  tags : cfg.tagsFilter = [] ∨ ∃ tag ∈ cfg.tagsFilter, tag ∈ alert.tags
  cooling : s.now - s.lastFire (name, alert.hostId, alert.detector) < cfg.cooldownSec * second

/-- A pair is skipped only after a recent success, and successes are apart. -/
structure StrictCooldown (ops : SoarOps) (h : History) : Prop where
  skipped : ∀ (alert : Alert) (name : Str) (names : List Str) (cfg : BackendConfig),
    h.worker.row = some (alert, name :: names) →
    h.worker.Skips ops alert name cfg → ∃ e ∈ h.events, e.mark = .succeeded ∧
      e.key = (name, alert.hostId, alert.detector) ∧ h.worker.now - e.time < cfg.cooldownSec * second
  apart : ∀ (post : List SoarEvent) (later : SoarEvent) (mid : List SoarEvent) (earlier : SoarEvent)
    (pre : List SoarEvent) (cfg : BackendConfig), h.events = post ++ later :: (mid ++ earlier :: pre) →
    later.mark = .succeeded → earlier.mark = .succeeded → later.key = earlier.key →
    dictGet h.worker.config.backends later.key.1 = some cfg →
    cfg.cooldownSec * second ≤ later.time - earlier.time

def SoarEvent.succeededFor (key : Str × Str × Str) (e : SoarEvent) : Bool :=
  e.mark = .succeeded && e.key == key

/-- Once the clock has reached the cooldown a pair is skipped only after a recent success, and at
any time the last success for a skipped pair, if there is one, is recent. Two successes are closer
than the cooldown only when the later one had been put into the queue before the earlier one. -/
structure Cooldown (ops : SoarOps) (h : History) : Prop where
  skipped : ∀ (alert : Alert) (name : Str) (names : List Str) (cfg : BackendConfig),
    h.worker.row = some (alert, name :: names) →
    h.worker.Skips ops alert name cfg → cfg.cooldownSec * second ≤ h.worker.now →
    ∃ e ∈ h.events, e.mark = .succeeded ∧ e.key = (name, alert.hostId, alert.detector) ∧
      h.worker.now - e.time < cfg.cooldownSec * second
  last : ∀ (alert : Alert) (name : Str) (names : List Str) (cfg : BackendConfig) (last : SoarEvent),
    h.worker.row = some (alert, name :: names) →
    h.worker.Skips ops alert name cfg →
    h.events.find? (SoarEvent.succeededFor (name, alert.hostId, alert.detector)) = some last →
    h.worker.now - last.time < cfg.cooldownSec * second
  apart : ∀ (post : List SoarEvent) (later : SoarEvent) (mid : List SoarEvent) (earlier : SoarEvent)
    (pre : List SoarEvent) (cfg : BackendConfig), h.events = post ++ later :: (mid ++ earlier :: pre) →
    later.mark = .succeeded → earlier.mark = .succeeded → later.key = earlier.key →
    dictGet h.worker.config.backends later.key.1 = some cfg →
    later.time - earlier.time < cfg.cooldownSec * second →
    (∃ e ∈ pre, e.mark = .accepted ∧ e.pair = later.pair ∧ e.key = later.key) ∧
      ∀ e ∈ mid, e.mark = .accepted → e.pair = later.pair → e.key ≠ later.key

/-! ## What a step does to the table, the clock and the items -/

section Steps

variable {ops : SoarOps} {s u : SoarWorker} {item : PendingDelivery} {outcome : DeliverOutcome}

namespace SoarWorker

/-- The entry of the table. -/
def entry (s : SoarWorker) (key : Str × Str × Str) : Option Int :=
  (s.cooldowns.find? fun c => c.1 == key).map Prod.snd

theorem lastFire_eq (key : Str × Str × Str) : s.lastFire key = (s.entry key).getD 0 := rfl

/-- The item is in the queue or a task works on it. -/
def Holds (s : SoarWorker) (pair : Str × Str) (key : Str × Str × Str) : Prop :=
  (∃ item ∈ s.queue, item.pair = pair ∧ item.key = key) ∨
    ∃ t ∈ s.tasks, t.item.pair = pair ∧ t.item.key = key

/-- The part of the worker that the cooldown is about. -/
structure SameTable (s u : SoarWorker) : Prop where
  config : u.config = s.config
  now : u.now = s.now
  cooldowns : u.cooldowns = s.cooldowns

theorem SameTable.refl (s : SoarWorker) : SameTable s s := ⟨rfl, rfl, rfl⟩

theorem SameTable.trans {v : SoarWorker} (h : SameTable s u) (h' : SameTable u v) :
    SameTable s v :=
  ⟨h'.config.trans h.config, h'.now.trans h.now, h'.cooldowns.trans h.cooldowns⟩

theorem sameTable_maybeDeadLetter (attempt : Nat) :
    SameTable s (s.maybeDeadLetter ops item outcome attempt) := by
  rw [maybeDeadLetter_frame]
  exact ⟨rfl, rfl, rfl⟩

theorem sameTable_queueFull (utc : Timestamp) : SameTable s (s.deadLetterQueueFull ops item utc) :=
  sameTable_maybeDeadLetter item.attempt

theorem queue_queueFull (utc : Timestamp) : (s.deadLetterQueueFull ops item utc).queue = s.queue :=
  maybeDeadLetter_queue item.attempt

theorem tasks_queueFull (utc : Timestamp) : (s.deadLetterQueueFull ops item utc).tasks = s.tasks :=
  maybeDeadLetter_tasks item.attempt

/-- The worker when the queue has given up its first item, if it has one. -/
def evicted (ops : SoarOps) (s : SoarWorker) (utc : Timestamp) : SoarWorker :=
  match s.queue with
  | dropped :: queue => deadLetterQueueFull ops { s with queue } dropped utc
  | [] => s

theorem enqueueItem_eq (utc : Timestamp) : s.enqueueItem ops item utc =
    if !s.full then s.put item
    else if !(s.evicted ops utc).full then (s.evicted ops utc).put item
    else (s.evicted ops utc).deadLetterQueueFull ops item utc := rfl

theorem evicted_spec (ops : SoarOps) (s : SoarWorker) (utc : Timestamp) :
    SameTable s (s.evicted ops utc) ∧
    (s.evicted ops utc).tasks = s.tasks ∧ ∀ other ∈ (s.evicted ops utc).queue, other ∈ s.queue := by
  unfold evicted
  cases hqueue : s.queue with
  | nil =>
    refine ⟨SameTable.refl s, rfl, ?_⟩
    intro other hother
    rw [hqueue] at hother
    exact hother
  | cons dropped queue =>
    have hdrop : SameTable s { s with queue } := ⟨rfl, rfl, rfl⟩
    refine ⟨hdrop.trans (sameTable_queueFull utc), tasks_queueFull utc, ?_⟩
    intro other hother
    rw [queue_queueFull] at hother
    exact List.mem_cons_of_mem _ hother

theorem sameTable_enqueueItem (utc : Timestamp) : SameTable s (s.enqueueItem ops item utc) := by
  have hput : ∀ v : SoarWorker, SameTable v (v.put item) := fun v => ⟨rfl, rfl, rfl⟩
  have hevicted := (evicted_spec ops s utc).1
  rw [enqueueItem_eq]
  split
  · exact hput s
  · split
    · exact hevicted.trans (hput _)
    · exact hevicted.trans (sameTable_queueFull utc)

theorem tasks_enqueueItem (utc : Timestamp) : (s.enqueueItem ops item utc).tasks = s.tasks := by
  have hput : ∀ v : SoarWorker, (v.put item).tasks = v.tasks := fun v => rfl
  have hevicted := (evicted_spec ops s utc).2.1
  rw [enqueueItem_eq]
  split
  · exact hput s
  · split
    · rw [hput, hevicted]
    · rw [tasks_queueFull, hevicted]

/-- The queue gets no item but the new one. -/
theorem queue_enqueueItem {utc : Timestamp} {other : PendingDelivery}
    (h : other ∈ (s.enqueueItem ops item utc).queue) : other = item ∨ other ∈ s.queue := by
  have hput : ∀ v : SoarWorker, other ∈ (v.put item).queue → other = item ∨ other ∈ v.queue := by
    intro v hmem
    rcases List.mem_append.mp hmem with hold | hnew
    · exact Or.inr hold
    · exact Or.inl (List.mem_singleton.mp hnew)
  have hevicted := (evicted_spec ops s utc).2.2 other
  rw [enqueueItem_eq] at h
  split at h
  · exact hput s h
  · split at h
    · exact (hput _ h).imp_right hevicted
    · rw [queue_queueFull] at h
      exact Or.inr (hevicted h)

/-- What a step does, with the event that it adds. -/
structure Ticks (s : SoarWorker) (event : Option SoarEvent) (u : SoarWorker) : Prop where
  config : u.config = s.config
  clock : s.now ≤ u.now
  table : ∀ key, u.entry key =
    ((event.filter (SoarEvent.succeededFor key)).map SoarEvent.time).or (s.entry key)
  items : ∀ pair key, u.Holds pair key →
    s.Holds pair key ∨ ∃ e ∈ event, e.mark = .accepted ∧ e.pair = pair ∧ e.key = key
  stamped : ∀ e ∈ event, e.time = s.now
  checked : ∀ e ∈ event, e.mark = .accepted → ∀ cfg, dictGet s.config.backends e.key.1 = some cfg →
    cfg.cooldownSec * second ≤ s.now - s.lastFire e.key
  backed : ∀ e ∈ event, e.mark = .succeeded → s.Holds e.pair e.key

/-- A step without an event. -/
theorem Ticks.quiet (config : u.config = s.config) (clock : s.now ≤ u.now)
    (cooldowns : u.cooldowns = s.cooldowns)
    (items : ∀ pair key, u.Holds pair key → s.Holds pair key) : Ticks s none u where
  config := config
  clock := clock
  table := by
    intro key
    unfold entry
    rw [cooldowns]
    rfl
  items := fun pair key h => Or.inl (items pair key h)
  stamped := nofun
  checked := nofun
  backed := nofun

section Tasks

variable {i : Nat} {t : Task} {pair : Str × Str} {key : Str × Str × Str}

theorem holds_of_task (ht : s.tasks[i]? = some t) : s.Holds t.item.pair t.item.key :=
  Or.inr ⟨t, List.mem_of_getElem? ht, rfl, rfl⟩

theorem holds_setTask {t' : Task} (ht : s.tasks[i]? = some t) (htasks : u.tasks = s.tasks.set i t')
    (hqueue : u.queue = s.queue) (hpair : t'.item.pair = t.item.pair)
    (hkey : t'.item.key = t.item.key) (h : u.Holds pair key) : s.Holds pair key := by
  rcases h with ⟨item, hitem, hsame⟩ | ⟨t'', ht'', hpair'', hkey''⟩
  · rw [hqueue] at hitem
    exact Or.inl ⟨item, hitem, hsame⟩
  · rw [htasks] at ht''
    rcases List.mem_or_eq_of_mem_set ht'' with hold | rfl
    · exact Or.inr ⟨t'', hold, hpair'', hkey''⟩
    · rw [hpair] at hpair''
      rw [hkey] at hkey''
      rw [← hpair'', ← hkey'']
      exact holds_of_task ht

theorem holds_removeTask (htasks : u.tasks = s.tasks.eraseIdx i) (hqueue : u.queue = s.queue)
    (h : u.Holds pair key) : s.Holds pair key := by
  rcases h with ⟨item, hitem, hsame⟩ | ⟨t, ht, hsame⟩
  · rw [hqueue] at hitem
    exact Or.inl ⟨item, hitem, hsame⟩
  · rw [htasks] at ht
    exact Or.inr ⟨t, List.mem_of_mem_eraseIdx ht, hsame⟩

theorem holds_drain (n : Nat) (hqueue : u.queue = s.queue.drop n)
    (htasks : u.tasks = s.tasks ++ (s.queue.take n).map fun item => ⟨item, .waiting⟩)
    (h : u.Holds pair key) : s.Holds pair key := by
  rcases h with ⟨item, hitem, hsame⟩ | ⟨t, ht, hsame⟩
  · rw [hqueue] at hitem
    exact Or.inl ⟨item, List.mem_of_mem_drop hitem, hsame⟩
  · rw [htasks] at ht
    rcases List.mem_append.mp ht with hold | hnew
    · exact Or.inr ⟨t, hold, hsame⟩
    · obtain ⟨item, hitem, rfl⟩ := List.mem_map.mp hnew
      exact Or.inl ⟨item, List.mem_of_mem_take hitem, hsame⟩

/-- A success is entered under the time of the step. -/
theorem entry_markCooldown (key : Str × Str × Str) :
    (s.markCooldown item).entry key = if item.key = key then some s.now else s.entry key := by
  unfold entry markCooldown
  by_cases hkey : item.key = key
  · rw [if_pos hkey, ← hkey]
    simp [PendingDelivery.key]
  · rw [if_neg hkey]
    have hne : ¬ (item.key == key) = true := by simpa using hkey
    simp only
    rw [List.find?_cons_of_neg (p := fun c : (Str × Str × Str) × Int => c.1 == key) hne,
      List.find?_filter]
    congr 2
    funext c
    by_cases hc : c.1 = key
    · have hother : (c.1 != item.key) = true := by
        rw [hc]
        simpa using Ne.symm hkey
      rw [Bool.decide_and, Bool.decide_eq_true, Bool.decide_eq_true]
      exact (congrArg (· && c.1 == key) hother).trans (Bool.true_and _)
    · simp [hc]

end Tasks

/-- What passes the filters has no recent entry in the table. -/
theorem wants_spec {alert : Alert} {name : Str} {cfg : BackendConfig}
    (h : s.wants ops alert name = some cfg) :
    dictGet s.config.backends name = some cfg ∧
      cfg.cooldownSec * second ≤ s.now - s.lastFire (name, alert.hostId, alert.detector) := by
  unfold wants at h
  split at h
  · cases h
  · rename_i cfg' hcfg
    split at h
    · cases h
    · split at h
      · cases h
      · split at h
        · cases h
        · split at h
          · cases h
          · rename_i hcool
            cases h
            exact ⟨hcfg, Int.not_lt.mp hcool⟩

/-- The row is not part of it. -/
theorem Ticks.withRow {event : Option SoarEvent} (h : Ticks s event u)
    (row : Option (Alert × List Str)) : Ticks s event { u with row } :=
  ⟨h.config, h.clock, h.table, h.items, h.stamped, h.checked, h.backed⟩

theorem accept_ticks {s' : SoarWorker} {alert : Alert} {name : Str} {cfg : BackendConfig}
    (utc : Timestamp) (hwants : s.wants ops alert name = some cfg) (hsame : SameTable s s')
    (hqueue : s'.queue = s.queue) (htasks : s'.tasks = s.tasks) :
    Ticks s (some ⟨.accepted, (alert.id, name), (name, alert.hostId, alert.detector), s.now⟩)
      (s'.enqueueItem ops ⟨alert, name, cfg, 1, s.now⟩ utc) := by
  obtain ⟨hcfg, hcool⟩ := wants_spec hwants
  have htable : SameTable s (s'.enqueueItem ops ⟨alert, name, cfg, 1, s.now⟩ utc) :=
    hsame.trans (sameTable_enqueueItem utc)
  refine ⟨htable.config, htable.now.ge, ?_, ?_, ?_, ?_, ?_⟩
  · intro key
    unfold entry
    rw [htable.cooldowns]
    rfl
  · intro pair key hholds
    rcases hholds with ⟨other, hother, hpair, hkey⟩ | ⟨t, ht, hsame⟩
    · rcases queue_enqueueItem hother with rfl | hold
      · exact Or.inr ⟨_, rfl, rfl, hpair, hkey⟩
      · exact Or.inl (Or.inl ⟨other, hqueue ▸ hold, hpair, hkey⟩)
    · rw [tasks_enqueueItem, htasks] at ht
      exact Or.inl (Or.inr ⟨t, ht, hsame⟩)
  · intro e he
    cases he
    rfl
  · intro e he _ cfg' hcfg'
    cases he
    rw [hcfg] at hcfg'
    cases hcfg'
    exact hcool
  · intro e he hmark
    cases he
    cases hmark

theorem turn_ticks {alert : Alert} {name : Str} {names : List Str} (utc : Timestamp)
    (hrow : s.row = some (alert, name :: names)) :
    Ticks s (s.event ops (.turn utc)) (s.turn ops alert name utc) := by
  simp only [event, hrow, turn]
  cases hwants : s.wants ops alert name with
  | none => exact Ticks.quiet rfl (Int.le_refl _) rfl fun _ _ h => h
  | some cfg => exact accept_ticks utc hwants ⟨rfl, rfl, rfl⟩ rfl rfl

/-- A success is entered and ends the task. -/
theorem success_ticks {i : Nat} {item : PendingDelivery} {stage : Stage} {v : SoarWorker}
    (ht : s.tasks[i]? = some ⟨item, stage⟩) (hsame : SameTable s v) (hqueue : v.queue = s.queue)
    (htasks : v.tasks = s.tasks) :
    Ticks s (some ⟨.succeeded, item.pair, item.key, s.now⟩)
      ((v.markCooldown item).finish i item) := by
  refine ⟨hsame.config, hsame.now.ge, ?_, ?_, ?_, ?_, ?_⟩
  · intro key
    have hentry : ((v.markCooldown item).finish i item).entry key =
        (v.markCooldown item).entry key := rfl
    have hv : v.entry key = s.entry key := by
      unfold entry
      rw [hsame.cooldowns]
    rw [hentry, entry_markCooldown, hsame.now, hv]
    by_cases hkey : item.key = key
    · have hfor : SoarEvent.succeededFor key ⟨.succeeded, item.pair, item.key, s.now⟩ = true := by
        simp [SoarEvent.succeededFor, hkey]
      rw [if_pos hkey, Option.filter_some_pos hfor]
      rfl
    · have hfor : SoarEvent.succeededFor key ⟨.succeeded, item.pair, item.key, s.now⟩ = false := by
        simp [SoarEvent.succeededFor, hkey]
      rw [if_neg hkey, Option.filter_some_neg hfor]
      rfl
  · intro pair key hholds
    have hremoved : ((v.markCooldown item).finish i item).tasks = s.tasks.eraseIdx i :=
      congrArg (·.eraseIdx i) htasks
    exact Or.inl (holds_removeTask hremoved hqueue hholds)
  · intro e he
    cases he
    rfl
  · intro e he hmark
    cases he
    cases hmark
  · intro e he _
    cases he
    exact holds_of_task ht

/-- What follows an attempt that is stored. -/
theorem afterAttempt_ticks {i : Nat} {stage : Stage} {v : SoarWorker}
    (ht : s.tasks[i]? = some ⟨item, stage⟩) (hsame : SameTable s v) (hqueue : v.queue = s.queue)
    (htasks : v.tasks = s.tasks) :
    Ticks s
      (if outcome.result.deadLettered = false ∧ Successful outcome.result then
        some ⟨.succeeded, item.pair, item.key, s.now⟩
      else none)
      (v.afterAttempt ops i item outcome) := by
  have hgiveUp :
      Ticks s none ((v.maybeDeadLetter ops item outcome item.attempt).finish i item) := by
    have hletter : SameTable s (v.maybeDeadLetter ops item outcome item.attempt) :=
      hsame.trans (sameTable_maybeDeadLetter _)
    refine Ticks.quiet hletter.config hletter.now.ge hletter.cooldowns fun _ _ => ?_
    refine holds_removeTask (i := i) ?_ ?_
    · exact congrArg (·.eraseIdx i) ((maybeDeadLetter_tasks _).trans htasks)
    · exact (maybeDeadLetter_queue _).trans hqueue
  unfold afterAttempt
  dsimp only
  by_cases hdead : outcome.result.deadLettered = true
  · rw [if_pos hdead, if_neg (by simp [hdead])]
    exact hgiveUp
  · have halive : outcome.result.deadLettered = false := by simpa using hdead
    rw [if_neg hdead]
    by_cases hok : Successful outcome.result
    · rw [if_pos (show 200 ≤ outcome.result.statusCode ∧ outcome.result.statusCode < 400 from hok),
        if_pos ⟨halive, hok⟩]
      exact success_ticks ht hsame hqueue htasks
    · rw [if_neg (show ¬ (200 ≤ outcome.result.statusCode ∧
        outcome.result.statusCode < 400) from hok), if_neg (fun h => hok h.2)]
      split
      · exact hgiveUp
      · refine Ticks.quiet hsame.config hsame.now.ge hsame.cooldowns fun _ _ => ?_
        exact holds_setTask ht (congrArg (List.set · i _) htasks) hqueue rfl rfl

/-- Every step. -/
theorem step_ticks {a : SoarAct} (h : s.step ops a = some u) : Ticks s (s.event ops a) u := by
  unfold step at h
  split at h
  · rename_i alert name names utc hrow
    cases h
    exact (turn_ticks utc hrow).withRow _
  · rename_i hrow
    cases h
    simp only [event, hrow]
    exact Ticks.quiet rfl (Int.le_refl _) rfl fun _ _ h => h
  · cases h
    refine Ticks.quiet rfl ?_ rfl fun _ _ h => h
    dsimp only
    omega
  · dsimp only at h
    split at h
    · cases h
      exact Ticks.quiet rfl (Int.le_refl _) rfl fun _ _ h => h
    · cases h
      exact Ticks.quiet rfl (Int.le_refl _) rfl fun _ _ h => h
  · cases h
    exact Ticks.quiet rfl (Int.le_refl _) rfl fun _ _ => holds_drain _ rfl rfl
  · obtain ⟨t, ht, hstep⟩ := Option.bind_eq_some_iff.mp h
    cases taskStep_move hstep
    exact Ticks.quiet rfl (Int.le_refl _) rfl fun _ _ => holds_setTask ht rfl rfl rfl rfl
  · obtain ⟨t, ht, hstep⟩ := Option.bind_eq_some_iff.mp h
    cases taskStep_move hstep with
    | exhausted _ _ => exact Ticks.quiet rfl (Int.le_refl _) rfl fun _ _ => holds_removeTask rfl rfl
    | loop _ =>
      exact Ticks.quiet rfl (Int.le_refl _) rfl fun _ _ => holds_setTask ht rfl rfl rfl rfl
  · obtain ⟨t, ht, hstep⟩ := Option.bind_eq_some_iff.mp h
    cases taskStep_move hstep
    exact Ticks.quiet rfl (Int.le_refl _) rfl fun _ _ => holds_setTask ht rfl rfl rfl rfl
  · obtain ⟨t, ht, hstep⟩ := Option.bind_eq_some_iff.mp h
    obtain ⟨item, stage⟩ := t
    cases taskStep_move hstep with
    | unsaved _ outcome hstage =>
      cases hstage
      simp only [event, ht, Bool.false_eq_true, false_and, if_false]
      exact Ticks.quiet rfl (Int.le_refl _) rfl fun _ _ => holds_removeTask rfl rfl
    | saved _ outcome hstage =>
      cases hstage
      simp only [event, ht, true_and]
      exact afterAttempt_ticks ht ⟨rfl, rfl, rfl⟩ rfl rfl
  · cases h

end SoarWorker

end Steps

/-! ## Runs -/

/-- Of two events the newer one is not earlier, and a pair that is put into the queue after a
success for its key comes a cooldown later. -/
def Spaced (config : SoarConfig) (newer older : SoarEvent) : Prop :=
  older.time ≤ newer.time ∧
    (newer.mark = .accepted → older.mark = .succeeded → newer.key = older.key →
      ∀ cfg, dictGet config.backends newer.key.1 = some cfg →
        cfg.cooldownSec * second ≤ newer.time - older.time)

/-- Every success is of a pair that was put into the queue before. -/
def Backed : List SoarEvent → Prop
  | [] => True
  | e :: older =>
    (e.mark = .succeeded → ∃ e' ∈ older, e'.mark = .accepted ∧ e'.pair = e.pair ∧ e'.key = e.key) ∧
      Backed older

structure HistoryInv (h : History) : Prop where
  past : ∀ e ∈ h.events, e.time ≤ h.worker.now
  spaced : h.events.Pairwise (Spaced h.worker.config)
  table : ∀ key, h.worker.entry key =
    (h.events.find? (SoarEvent.succeededFor key)).map SoarEvent.time
  backed : Backed h.events
  items : ∀ pair key, h.worker.Holds pair key →
    ∃ e ∈ h.events, e.mark = .accepted ∧ e.pair = pair ∧ e.key = key

namespace History

variable {ops : SoarOps} {h h' : History}

theorem start_inv (config : SoarConfig) (now : Int) (files : List (Str × Json)) :
    HistoryInv (.start config now files) where
  past := nofun
  spaced := List.Pairwise.nil
  table := fun _ => rfl
  backed := trivial
  items := by
    intro pair key hholds
    rcases hholds with ⟨item, hitem, _⟩ | ⟨t, ht, _⟩
    · exact absurd hitem List.not_mem_nil
    · exact absurd ht List.not_mem_nil

/-- The last success is the newest one, so every success is at least as old. -/
theorem le_of_last (hinv : HistoryInv h) {key : Str × Str × Str} {e : SoarEvent}
    (he : e ∈ h.events) (hmark : e.mark = .succeeded) (hkey : e.key = key) :
    e.time ≤ h.worker.lastFire key := by
  have hfor : SoarEvent.succeededFor key e = true := by simp [SoarEvent.succeededFor, hmark, hkey]
  have hspaced := hinv.spaced
  rw [SoarWorker.lastFire_eq, hinv.table]
  clear hinv
  generalize h.events = events at he hspaced
  induction events with
  | nil => exact absurd he List.not_mem_nil
  | cons first rest ih =>
    rw [List.pairwise_cons] at hspaced
    by_cases hfirst : SoarEvent.succeededFor key first = true
    · rw [List.find?_cons_of_pos hfirst]
      rcases List.mem_cons.mp he with rfl | hrest
      · exact Int.le_refl _
      · exact (hspaced.1 e hrest).1
    · rw [List.find?_cons_of_neg hfirst]
      rcases List.mem_cons.mp he with rfl | hrest
      · exact absurd hfor hfirst
      · exact ih hrest hspaced.2

theorem step_inv {a : SoarAct} (hinv : HistoryInv h) (hstep : h.step ops a = some h') :
    HistoryInv h' := by
  obtain ⟨u, hu, rfl⟩ := Option.map_eq_some_iff.mp hstep
  have hticks := SoarWorker.step_ticks hu
  generalize h.worker.event ops a = event at hticks
  cases event with
  | none =>
    refine ⟨?_, ?_, ?_, hinv.backed, ?_⟩
    · intro e he
      exact (hinv.past e he).trans hticks.clock
    · dsimp only
      rw [hticks.config]
      exact hinv.spaced
    · intro key
      dsimp only
      rw [hticks.table key, hinv.table key]
      rfl
    · intro pair key hholds
      rcases hticks.items pair key hholds with hold | ⟨e, he, _⟩
      · exact hinv.items pair key hold
      · cases he
  | some e =>
    have htime : e.time = h.worker.now := hticks.stamped e rfl
    refine ⟨?_, ?_, ?_, ⟨?_, hinv.backed⟩, ?_⟩
    · intro e' he'
      rcases List.mem_cons.mp he' with rfl | hold
      · rw [htime]
        exact hticks.clock
      · exact (hinv.past e' hold).trans hticks.clock
    · dsimp only
      rw [hticks.config]
      refine List.pairwise_cons.mpr ⟨?_, hinv.spaced⟩
      intro older holder
      refine ⟨htime ▸ hinv.past older holder, ?_⟩
      intro hmark hmark' hkey cfg hcfg
      have hcool := hticks.checked e rfl hmark cfg hcfg
      have hlast := le_of_last hinv holder hmark' hkey.symm
      rw [htime]
      omega
    · intro key
      dsimp only
      rw [hticks.table key, hinv.table key]
      by_cases hfor : SoarEvent.succeededFor key e = true
      · rw [Option.filter_some_pos hfor, Option.toList_some, List.singleton_append,
          List.find?_cons_of_pos hfor]
        rfl
      · rw [Option.filter_some_neg (by simpa using hfor), Option.toList_some, List.singleton_append,
          List.find?_cons_of_neg hfor]
        rfl
    · intro hmark
      exact hinv.items e.pair e.key (hticks.backed e rfl hmark)
    · intro pair key hholds
      rcases hticks.items pair key hholds with hold | ⟨e', he', hmark, hpair, hkey⟩
      · obtain ⟨e', he', hsame⟩ := hinv.items pair key hold
        exact ⟨e', List.mem_cons_of_mem _ he', hsame⟩
      · cases he'
        exact ⟨e, List.mem_cons_self, hmark, hpair, hkey⟩

end History

theorem backed_append {post older : List SoarEvent} (h : Backed (post ++ older)) :
    Backed older := by
  induction post with
  | nil => exact h
  | cons _ _ ih => exact ih h.2

/-- The cooldown, for any schedule and any clock. -/
theorem cooldown_holds (ops : SoarOps) (config : SoarConfig) (now : Int)
    (files : List (Str × Json)) (as : List SoarAct) (h : History)
    (hrun : AnyRun (History.step ops) (.start config now files) as h) : Cooldown ops h := by
  have hinv : HistoryInv h :=
    hrun.invariant (History.start_inv config now files) fun _ _ _ hinv _ => History.step_inv hinv
  constructor
  · intro alert name names cfg _ hskips hclock
    have hcooling := hskips.cooling
    rw [SoarWorker.lastFire_eq, hinv.table] at hcooling
    cases hfind : h.events.find?
        (SoarEvent.succeededFor (name, alert.hostId, alert.detector)) with
    | none =>
      -- a missing entry reads as zero, which is a cooldown ago
      rw [hfind] at hcooling
      change h.worker.now - 0 < _ at hcooling
      omega
    | some e =>
      rw [hfind] at hcooling
      have hfor := List.find?_some hfind
      rw [SoarEvent.succeededFor, Bool.and_eq_true, decide_eq_true_eq, beq_iff_eq] at hfor
      exact ⟨e, List.mem_of_find?_eq_some hfind, hfor.1, hfor.2, hcooling⟩
  · intro alert name names cfg last _ hskips hlast
    have hcooling := hskips.cooling
    rw [SoarWorker.lastFire_eq, hinv.table, hlast] at hcooling
    exact hcooling
  · intro post later mid earlier pre cfg hevents hlater hearlier hkey hcfg hclose
    have hspaced := hinv.spaced
    have hbacked := hinv.backed
    rw [hevents] at hspaced hbacked
    obtain ⟨haccepted, -⟩ := backed_append hbacked
    obtain ⟨hnewest, hrest⟩ := List.pairwise_cons.mp (List.pairwise_append.mp hspaced).2.1
    -- an entry into the queue between the two successes would have kept them apart
    have hmid : ∀ e ∈ mid, e.mark = .accepted → e.key ≠ later.key := by
      intro e he hmark hsame
      have horder := (hnewest e (List.mem_append_left _ he)).1
      have hcool := ((List.pairwise_append.mp hrest).2.2 e he earlier List.mem_cons_self).2 hmark
        hearlier (hsame.trans hkey) cfg (hsame ▸ hcfg)
      omega
    refine ⟨?_, fun e he hmark _ => hmid e he hmark⟩
    obtain ⟨e, he, hmark, hpair, hsame⟩ := haccepted hlater
    rcases List.mem_append.mp he with hin | hin
    · exact absurd hsame (hmid e hin hmark)
    · rcases List.mem_cons.mp hin with rfl | hpre
      · rw [hearlier] at hmark
        cases hmark
      · exact ⟨e, hpre, hmark, hpair, hsame⟩

/-! ## Two alerts of one host -/

def roomyConfig : SoarConfig := { sampleConfig with queueMax := 1000 }

def accepted200 (id : Uuid) : DeliverOutcome where
  result := ⟨"slack".toList, uuidStr id, 200, sampleTime, 3, none, false⟩
  payloadSha256 := List.replicate 64 '0'

/-- Two alerts of one host are put into the queue, and both are delivered. -/
def twoAlerts : List SoarAct :=
  pollRow 1#128 ++ pollRow 2#128 ++
    [.drain, .acquire 0, .acquire 1, .loop 0, .loop 1, .deliver 0 (.ok (accepted200 1#128)),
      .persist 0 true, .deliver 0 (.ok (accepted200 2#128)), .persist 0 true]

/-- An event of the run below. -/
def sampleEvent (mark : Mark) (id : Uuid) : SoarEvent :=
  ⟨mark, (uuidStr id, "slack".toList), ("slack".toList, uuidStr 7#128, "ssh_bruteforce".toList),
    1000000000000⟩

def twoAlertEvents : List SoarEvent :=
  [sampleEvent .succeeded 2#128, sampleEvent .succeeded 1#128, sampleEvent .accepted 2#128,
    sampleEvent .accepted 1#128]

theorem cooldown_holds_two_alerts :
    ∃ h, AnyRun (History.step sampleOps) (.start roomyConfig 1000000000000 []) twoAlerts h ∧
      h.events = twoAlertEvents ∧ Cooldown sampleOps h := by
  have hcheck : ∃ h, AnyRun (History.step sampleOps) (.start roomyConfig 1000000000000 []) twoAlerts
      h ∧ decide (h.events = twoAlertEvents) = true :=
    run_of_check (by decide +kernel)
  obtain ⟨h, hrun, hevents⟩ := hcheck
  exact ⟨h, hrun, of_decide_eq_true hevents,
    cooldown_holds sampleOps roomyConfig 1000000000000 [] twoAlerts h hrun⟩

/-- The second of them succeeds in the cooldown of the first. -/
theorem second_alert_in_cooldown :
    ∃ h, AnyRun (History.step sampleOps) (.start roomyConfig 1000000000000 []) twoAlerts h ∧
      ¬ StrictCooldown sampleOps h := by
  have hcheck : ∃ h, AnyRun (History.step sampleOps) (.start roomyConfig 1000000000000 []) twoAlerts
      h ∧ decide (h.events = twoAlertEvents ∧
        (dictGet h.worker.config.backends "slack".toList).map BackendConfig.cooldownSec = some 60) =
        true :=
    run_of_check (by decide +kernel)
  obtain ⟨h, hrun, hcheck⟩ := hcheck
  obtain ⟨hevents, hconfig⟩ := of_decide_eq_true hcheck
  obtain ⟨cfg, hcfg, hsec⟩ := Option.map_eq_some_iff.mp hconfig
  refine ⟨h, hrun, fun hstrict => ?_⟩
  have happart := hstrict.apart [] (sampleEvent .succeeded 2#128) [] (sampleEvent .succeeded 1#128)
    [sampleEvent .accepted 2#128, sampleEvent .accepted 1#128] cfg hevents rfl rfl rfl hcfg
  rw [hsec] at happart
  exact absurd happart (by decide)

end ZaqorinCore.Server.Soar
