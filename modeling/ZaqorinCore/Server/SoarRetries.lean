import ZaqorinCore.Server.SoarCooldown

/-!
# The attempts of one delivery

`_run_one` makes one attempt after the other until one succeeds, is dead-lettered or is the last.
`RunOne` follows one call of it through the runs of the worker: other tasks, the poller and the
clock go on meanwhile, and the place of the task among the others changes when one of them ends.
`retries_disciplined` says what the calls of the backend and the rows are, and when they come.
-/

namespace ZaqorinCore.Server.Soar

open Text Base SoarWorker

/-! ## One call of `_run_one` -/

/-- The task that an action is about. -/
def SoarAct.task : SoarAct → Option Nat
  | .acquire i | .loop i | .deliver i _ | .persist i _ => some i
  | _ => none

/-- Where a task is after an action that may have ended one: those behind that one move up. -/
def moved (a : SoarAct) (ended : Bool) (i : Nat) : Option Nat :=
  match a.task with
  | none => some i
  | some j => if !ended || i < j then some i else if i = j then none else some (i - 1)

/-- A call of `_run_one`: the place of its task, until it returns; the attempts for which it has
called the backend and the rows it has stored, with the times and the newest first; and how often it
has gone on. -/
structure RunOne where
  worker : SoarWorker
  index : Option Nat
  calls : List (Nat × Int)
  rows : List (SoarDelivery × Int)
  steps : Nat

namespace RunOne

def start (s : SoarWorker) (i : Nat) : RunOne := ⟨s, some i, [], [], 0⟩

/-- The attempt that the backend is called for. -/
def calling (u : SoarWorker) (index : Option Nat) : Option Nat :=
  match index.bind fun i => u.tasks[i]? with
  | some ⟨item, .delivering⟩ => some item.attempt
  | _ => none

/-- The task has gone on. -/
def went (r : RunOne) (u : SoarWorker) (index : Option Nat) : RunOne where
  worker := u
  index := index
  calls := ((calling u index).map fun n => (n, u.now)).toList ++ r.calls
  rows :=
    ((u.rows.take (u.rows.length - r.worker.rows.length)).map fun row => (row, u.now)) ++ r.rows
  steps := r.steps + 1

def step (ops : SoarOps) (r : RunOne) (a : SoarAct) : Option RunOne :=
  (r.worker.step ops a).map fun u =>
    match r.index with
    | none => { r with worker := u }
    | some i =>
      let index := moved a (u.tasks.length < r.worker.tasks.length) i
      if a.task = some i then r.went u index else { r with worker := u, index }

end RunOne

/-! ## What the attempts are to be -/

section

variable (item : PendingDelivery) (outcomes : Nat → Except (Str × Timestamp) DeliverOutcome)

/-- What comes of the attempt when the backend answers so. -/
def outcomeAt (n : Nat) : DeliverOutcome :=
  match outcomes n with
  | .ok outcome => outcome
  | .error (e, attemptedAt) => exceptionOutcome item attemptedAt e

/-- The attempt is dead-lettered or a success. -/
def final (n : Nat) : Bool :=
  let result := (outcomeAt item outcomes n).result
  result.deadLettered || decide (200 ≤ result.statusCode ∧ result.statusCode < 400)

/-- The first attempt that is dead-lettered or a success, or the one after the last retry. -/
def lastAttempt : Nat :=
  ((List.range' 1 item.config.maxRetries).find? (final item outcomes)).getD
    (item.config.maxRetries + 1)

/-- The row of an attempt. -/
def rowAt (n : Nat) : SoarDelivery :=
  deliveryRow { item with attempt := n } (outcomeAt item outcomes n)

/-- The backend answers each attempt as given, and the database stores every row. -/
def Unfailing (r : RunOne) : SoarAct → Prop
  | .deliver j reply => ∀ i t, r.index = some i → r.worker.tasks[i]? = some t → j = i →
    reply = outcomes t.item.attempt
  | .persist j saved => r.index = some j → saved = true
  | _ => True

/-- The backend is called for the attempts 1, 2, ... in this order, a row is stored for each, and a
call comes no sooner after the row before than the schedule says. At the end there is a row for
every attempt up to the last. Until then the call goes on, if it has a place at the semaphore and
the time has come, and it goes on a bounded number of times. -/
structure Disciplined (ops : SoarOps) (r : RunOne) : Prop where
  calls : ∃ m, r.calls.map Prod.fst = (List.range' 1 m).reverse ∧
    m ≤ lastAttempt item outcomes ∧ m ≤ r.rows.length + 1
  rows : r.rows.map Prod.fst =
    ((List.range' 1 r.rows.length).map (rowAt item outcomes)).reverse
  stored : r.rows.length ≤ r.calls.length
  waits : ∀ call ∈ r.calls, ∀ row ∈ r.rows, call.1 = row.1.attempt + 1 →
    row.2 + backoff row.1.attempt * second ≤ call.2
  returned : r.index = none → r.calls.length = lastAttempt item outcomes ∧
    r.rows.length = lastAttempt item outcomes
  bounded : r.steps ≤ 3 * lastAttempt item outcomes + 1
  goesOn : ∀ i t, r.index = some i → r.worker.tasks[i]? = some t → r.worker.row = none →
    (t.stage = .waiting → r.worker.inFlight < 10) →
    ∃ d a u v, r.step ops (.wait d) = some u ∧ a.task = some i ∧ Unfailing outcomes u a ∧
      u.step ops a = some v ∧ v.steps = r.steps + 1

end

/-! ## The last attempt -/

section Last

variable {item : PendingDelivery} {outcomes : Nat → Except (Str × Timestamp) DeliverOutcome}
  {n : Nat}

variable (item outcomes) in
theorem lastAttempt_cases :
    (lastAttempt item outcomes = item.config.maxRetries + 1 ∧
      ∀ n, 1 ≤ n → n ≤ item.config.maxRetries → final item outcomes n = false) ∨
    (lastAttempt item outcomes ≤ item.config.maxRetries ∧ 1 ≤ lastAttempt item outcomes ∧
      final item outcomes (lastAttempt item outcomes) = true ∧
      ∀ n, 1 ≤ n → n < lastAttempt item outcomes → final item outcomes n = false) := by
  unfold lastAttempt
  cases hfind : (List.range' 1 item.config.maxRetries).find? (final item outcomes) with
  | none =>
    refine Or.inl ⟨rfl, fun n hlow hhigh => ?_⟩
    have := List.find?_eq_none.mp hfind n (List.mem_range'_1.mpr ⟨hlow, by omega⟩)
    simpa using this
  | some k =>
    obtain ⟨hk, before, after, hsplit, hbefore⟩ := List.find?_eq_some_iff_append.mp hfind
    have hmem : k ∈ List.range' 1 item.config.maxRetries := by
      rw [hsplit]
      exact List.mem_append_right _ List.mem_cons_self
    obtain ⟨hlow, hhigh⟩ := List.mem_range'_1.mp hmem
    refine Or.inr ⟨by show k ≤ _; omega, hlow, hk, fun n hn hlt => ?_⟩
    -- what comes before `k` in the range is what is smaller
    have hnmem : n ∈ List.range' 1 item.config.maxRetries := by
      have : n < k := hlt
      exact List.mem_range'_1.mpr ⟨hn, by omega⟩
    have hsorted : (List.range' 1 item.config.maxRetries).Pairwise (· < ·) :=
      List.pairwise_lt_range'
    rw [hsplit] at hnmem hsorted
    rcases List.mem_append.mp hnmem with hin | hin
    · simpa using hbefore n hin
    · have hlt : n < k := hlt
      rcases List.mem_cons.mp hin with rfl | hin
      · omega
      · have := List.rel_of_pairwise_cons (List.pairwise_append.mp hsorted).2.1 hin
        omega

variable (item outcomes) in
theorem lastAttempt_le : lastAttempt item outcomes ≤ item.config.maxRetries + 1 := by
  rcases lastAttempt_cases item outcomes with h | h
  · omega
  · omega

/-- An attempt that is not final and has a retry left is not the last. -/
theorem lt_lastAttempt (hn : n ≤ lastAttempt item outcomes) (hfinal : final item outcomes n = false)
    (hretry : n ≤ item.config.maxRetries) : n < lastAttempt item outcomes := by
  rcases lastAttempt_cases item outcomes with h | ⟨-, -, hlast, -⟩
  · omega
  · rcases Nat.lt_or_eq_of_le hn with hlt | rfl
    · exact hlt
    · rw [hfinal] at hlast
      cases hlast

/-- An attempt that is final or has no retry left is the last. -/
theorem eq_lastAttempt (hone : 1 ≤ n) (hn : n ≤ lastAttempt item outcomes)
    (hend : final item outcomes n = true ∨ item.config.maxRetries < n) :
    n = lastAttempt item outcomes := by
  have hle := lastAttempt_le item outcomes
  rcases hend with hfinal | hretry
  · by_contra hne
    have hfalse : final item outcomes n = false := by
      rcases lastAttempt_cases item outcomes with ⟨-, h⟩ | ⟨-, -, -, h⟩
      · exact h n hone (by omega)
      · exact h n hone (by omega)
    rw [hfinal] at hfalse
    cases hfalse
  · omega

end Last

/-! ## Steps of the worker -/

section Steps

variable {ops : SoarOps} {s u : SoarWorker} {a : SoarAct} {i j : Nat} {t : Task}

/-- The queue stays, and the record of one task changes or the task ends. -/
structure OneTask (s u : SoarWorker) (j : Nat) : Prop where
  queue : u.queue = s.queue
  tasks : (∃ t', t'.stage ≠ .waiting ∧ u.tasks = s.tasks.set j t') ∨ u.tasks = s.tasks.eraseIdx j

theorem OneTask.set {t' : Task} (queue : u.queue = s.queue) (tasks : u.tasks = s.tasks.set j t')
    (hstage : t'.stage ≠ .waiting) : OneTask s u j :=
  ⟨queue, Or.inl ⟨t', hstage, tasks⟩⟩

theorem OneTask.erase (queue : u.queue = s.queue) (tasks : u.tasks = s.tasks.eraseIdx j) :
    OneTask s u j :=
  ⟨queue, Or.inr tasks⟩

theorem afterAttempt_oneTask {item : PendingDelivery} {outcome : DeliverOutcome}
    {v : SoarWorker} (hqueue : v.queue = s.queue) (htasks : v.tasks = s.tasks) :
    OneTask s (v.afterAttempt ops j item outcome) j := by
  have hgiveUp : OneTask s ((v.maybeDeadLetter ops item outcome item.attempt).finish j item) j := by
    refine .erase ((maybeDeadLetter_queue _).trans hqueue) ?_
    exact congrArg (List.eraseIdx · j) ((maybeDeadLetter_tasks _).trans htasks)
  unfold afterAttempt
  dsimp only
  split
  · exact hgiveUp
  · split
    · exact .erase hqueue (congrArg (List.eraseIdx · j) htasks)
    · split
      · exact hgiveUp
      · exact .set hqueue (congrArg (List.set · j _) htasks) nofun

theorem taskMove_oneTask (h : TaskMove ops s j t a u) : OneTask s u j := by
  cases h with
  | acquire _ _ => exact .set rfl rfl nofun
  | exhausted _ _ => exact .erase rfl rfl
  | loop _ => exact .set rfl rfl nofun
  | deliver _ _ _ => exact .set rfl rfl nofun
  | unsaved _ _ _ => exact .erase rfl rfl
  | saved _ _ _ => exact afterAttempt_oneTask rfl rfl

/-- What an action about no task does: the tasks there are stay, the new ones come from the queue,
and a new item in the queue has its first attempt before it. -/
theorem step_no_task (h : s.step ops a = some u) (ha : a.task = none) : ∃ ts,
    u.tasks = s.tasks ++ ts ∧ (∀ t ∈ ts, t.item ∈ s.queue) ∧
    ∀ item ∈ u.queue, item ∈ s.queue ∨ item.attempt = 1 := by
  have hsame (u : SoarWorker) (htasks : u.tasks = s.tasks) (hqueue : u.queue = s.queue) :
      ∃ ts, u.tasks = s.tasks ++ ts ∧ (∀ t ∈ ts, t.item ∈ s.queue) ∧
        ∀ item ∈ u.queue, item ∈ s.queue ∨ item.attempt = 1 := by
    refine ⟨[], by rw [htasks, List.append_nil], nofun, fun item hitem => ?_⟩
    rw [hqueue] at hitem
    exact Or.inl hitem
  unfold step at h
  split at h
  · rename_i alert name names utc hrow
    cases h
    show ∃ ts, (s.turn ops alert name utc).tasks = _ ∧ _ ∧
      ∀ item ∈ (s.turn ops alert name utc).queue, _
    unfold turn
    split
    · exact hsame s rfl rfl
    · refine ⟨[], ?_, nofun, fun item hitem => ?_⟩
      · rw [tasks_enqueueItem, List.append_nil]
      · rcases queue_enqueueItem hitem with rfl | hold
        · exact Or.inr rfl
        · exact Or.inl hold
  · cases h
    exact hsame _ rfl rfl
  · cases h
    exact hsame _ rfl rfl
  · dsimp only at h
    split at h
    · cases h
      exact hsame _ rfl rfl
    · cases h
      exact hsame _ rfl rfl
  · cases h
    refine ⟨_, rfl, fun t ht => ?_, fun item hitem => Or.inl (List.mem_of_mem_drop hitem)⟩
    obtain ⟨item, hitem, rfl⟩ := List.mem_map.mp ht
    exact List.mem_of_mem_take hitem
  · cases ha
  · cases ha
  · cases ha
  · cases ha
  · cases h

/-- An action of a task comes when no row is being put into the queue. -/
theorem step_task (h : s.step ops a = some u) (ha : a.task = some j) :
    ∃ t, s.tasks[j]? = some t ∧ s.taskStep ops j t a = some u := by
  unfold step at h
  split at h
  · cases ha
  · cases ha
  · cases ha
  · cases ha
  · cases ha
  · cases ha
    exact Option.bind_eq_some_iff.mp h
  · cases ha
    exact Option.bind_eq_some_iff.mp h
  · cases ha
    exact Option.bind_eq_some_iff.mp h
  · cases ha
    exact Option.bind_eq_some_iff.mp h
  · cases h

/-- What other tasks, the poller and the clock do leaves a task as it is. -/
theorem step_other (h : s.step ops a = some u) (ht : s.tasks[i]? = some t) (ha : a.task ≠ some i) :
    ∃ i', moved a (u.tasks.length < s.tasks.length) i = some i' ∧ u.tasks[i']? = some t := by
  have hi : i < s.tasks.length := (List.getElem?_eq_some_iff.mp ht).1
  cases hj : a.task with
  | none =>
    obtain ⟨ts, hts, -, -⟩ := step_no_task h hj
    refine ⟨i, by rw [moved, hj], ?_⟩
    rw [hts, List.getElem?_append_left hi, ht]
  | some j =>
    rw [hj] at ha
    have hne : i ≠ j := fun heq => ha (congrArg some heq.symm)
    obtain ⟨t', ht', hstep⟩ := step_task h hj
    have hjlt : j < s.tasks.length := (List.getElem?_eq_some_iff.mp ht').1
    rcases (taskMove_oneTask (taskStep_move hstep)).tasks with ⟨t'', -, hset⟩ | herase
    · have hended : ¬ u.tasks.length < s.tasks.length := by
        rw [hset, List.length_set]
        omega
      refine ⟨i, ?_, ?_⟩
      · simp [moved, hj, hended]
      · rw [hset, List.getElem?_set_ne hne.symm, ht]
    · have hended : u.tasks.length < s.tasks.length := by
        rw [herase, List.length_eraseIdx_of_lt hjlt]
        omega
      by_cases hlt : i < j
      · refine ⟨i, ?_, ?_⟩
        · simp [moved, hj, hlt]
        · rw [herase, List.getElem?_eraseIdx_of_lt hlt, ht]
      · refine ⟨i - 1, ?_, ?_⟩
        · simp [moved, hj, hlt, hne, hended]
        · rw [herase, List.getElem?_eraseIdx_of_ge (by omega), Nat.sub_add_cancel (by omega), ht]

/-- What a task does next, by the stage it is in. -/
inductive Next (ops : SoarOps) (s : SoarWorker) (i : Nat) (item : PendingDelivery) :
    Stage → SoarAct → SoarWorker → Prop
  | acquire : Next ops s i item .waiting (.acquire i) (s.setTask i ⟨item, .looping⟩)
  | exhausted (past : item.config.maxRetries + 1 < item.attempt) :
    Next ops s i item .looping (.loop i) (s.finish i item)
  | call (due : item.nextEligibleAt ≤ s.now) :
    Next ops s i item .looping (.loop i) (s.setTask i ⟨item, .delivering⟩)
  | answer (reply : Except (Str × Timestamp) DeliverOutcome) (outcome : DeliverOutcome)
    (answered : outcome = match reply with
      | .ok outcome => outcome
      | .error (e, attemptedAt) => exceptionOutcome item attemptedAt e) :
    Next ops s i item .delivering (.deliver i reply) { s.setTask i ⟨item, .persisting outcome⟩ with
      attempts := ⟨item.pair, outcome⟩ :: s.attempts }
  | fail (outcome : DeliverOutcome) :
    Next ops s i item (.persisting outcome) (.persist i false) (s.removeTask i)
  | save (outcome : DeliverOutcome) :
    Next ops s i item (.persisting outcome) (.persist i true)
      (afterAttempt ops { s with rows := deliveryRow item outcome :: s.rows } i item outcome)

theorem step_own {item : PendingDelivery} {stage : Stage} (h : s.step ops a = some u)
    (ht : s.tasks[i]? = some ⟨item, stage⟩) (ha : a.task = some i) :
    Next ops s i item stage a u := by
  obtain ⟨t, ht', hstep⟩ := step_task h ha
  obtain rfl : ⟨item, stage⟩ = t := Option.some.inj (ht.symm.trans ht')
  cases a with
  | wait _ => cases ha
  | poll _ => cases ha
  | turn _ => cases ha
  | drain => cases ha
  | acquire j =>
    cases ha
    cases stage <;> simp only [taskStep, reduceCtorEq] at hstep
    split at hstep
    · cases hstep
      exact .acquire
    · cases hstep
  | loop j =>
    cases ha
    cases stage <;> simp only [taskStep, reduceCtorEq] at hstep
    split at hstep
    · cases hstep
      exact .exhausted ‹_›
    · split at hstep
      · cases hstep
      · cases hstep
        exact .call (not_lt.mp ‹_›)
  | deliver j reply =>
    cases ha
    cases stage <;> simp only [taskStep, reduceCtorEq] at hstep
    cases hstep
    exact .answer reply _ rfl
  | persist j saved =>
    cases ha
    cases stage <;> simp only [taskStep, reduceCtorEq] at hstep
    cases saved with
    | false =>
      cases hstep
      exact .fail _
    | true =>
      cases hstep
      exact .save _

end Steps

/-! ## The invariant -/

section Followed

variable (item : PendingDelivery) (outcomes : Nat → Except (Str × Timestamp) DeliverOutcome)

/-- The item with the attempt that comes next and when it may come. -/
def PendingDelivery.at (item : PendingDelivery) (n : Nat) (eligibleAt : Int) : PendingDelivery :=
  { item with
    attempt := n
    nextEligibleAt := eligibleAt }

/-- The calls and the rows so far are those of the first attempts, in order. -/
structure Logged (r : RunOne) (calls rows : Nat) : Prop where
  calls : r.calls.map Prod.fst = (List.range' 1 calls).reverse
  rows : r.rows.map Prod.fst = ((List.range' 1 rows).map (rowAt item outcomes)).reverse
  waits : ∀ call ∈ r.calls, ∀ row ∈ r.rows, call.1 = row.1.attempt + 1 →
    row.2 + backoff row.1.attempt * second ≤ call.2

/-- The number of calls and of steps when the attempt `n` has come to a stage. -/
def Phase (n : Nat) : Stage → Nat → Nat → Prop
  | .waiting, calls, steps => n = 1 ∧ calls = 0 ∧ steps = 0
  | .looping, calls, steps => calls + 1 = n ∧ steps + 2 = 3 * n
  | .delivering, calls, steps => calls = n ∧ steps + 1 = 3 * n
  | .persisting outcome, calls, steps => calls = n ∧ steps = 3 * n ∧
    outcome = outcomeAt item outcomes n

inductive Followed (r : RunOne) : Prop
  | active (i n : Nat) (e : Int) (stage : Stage) (calls : Nat) (index : r.index = some i)
    (task : r.worker.tasks[i]? = some ⟨item.at n e, stage⟩) (one : 1 ≤ n)
    (le_last : n ≤ lastAttempt item outcomes) (logged : Logged item outcomes r calls (n - 1))
    (eligible : ∀ row ∈ r.rows, row.1.attempt + 1 = n →
      row.2 + backoff row.1.attempt * second ≤ e)
    (phase : Phase item outcomes n stage calls r.steps)
  | returned (index : r.index = none)
    (logged : Logged item outcomes r (lastAttempt item outcomes) (lastAttempt item outcomes))
    (steps : r.steps = 3 * lastAttempt item outcomes + 1)

variable {item outcomes} {ops : SoarOps} {r r' : RunOne} {a : SoarAct}

theorem Logged.congr {calls rows : Nat} (h : Logged item outcomes r calls rows)
    (hcalls : r'.calls = r.calls) (hrows : r'.rows = r.rows) :
    Logged item outcomes r' calls rows := by
  refine ⟨?_, ?_, ?_⟩
  · rw [hcalls]
    exact h.calls
  · rw [hrows]
    exact h.rows
  · rw [hcalls, hrows]
    exact h.waits

theorem Logged.calls_length {calls rows : Nat} (h : Logged item outcomes r calls rows) :
    r.calls.length = calls := by
  have := congrArg List.length h.calls
  simpa using this

theorem Logged.rows_length {calls rows : Nat} (h : Logged item outcomes r calls rows) :
    r.rows.length = rows := by
  have := congrArg List.length h.rows
  simpa using this

/-- The rows are those of the attempts up to their number. -/
theorem Logged.row_attempt {calls rows : Nat} (h : Logged item outcomes r calls rows)
    {row : SoarDelivery × Int} (hrow : row ∈ r.rows) : row.1.attempt ≤ rows := by
  have hmem : row.1 ∈ r.rows.map Prod.fst := List.mem_map_of_mem hrow
  rw [h.rows, List.mem_reverse] at hmem
  obtain ⟨n, hn, heq⟩ := List.mem_map.mp hmem
  have hattempt : row.1.attempt = n := by
    rw [← heq]
    rfl
  have := (List.mem_range'_1.mp hn).2
  omega

theorem Logged.call_attempt {calls rows : Nat} (h : Logged item outcomes r calls rows)
    {call : Nat × Int} (hcall : call ∈ r.calls) : call.1 ≤ calls := by
  have hmem : call.1 ∈ r.calls.map Prod.fst := List.mem_map_of_mem hcall
  rw [h.calls, List.mem_reverse] at hmem
  have := (List.mem_range'_1.mp hmem).2
  omega

/-! ### Own steps -/

section Own

variable {u : SoarWorker} {i n : Nat} {e : Int} {stage : Stage} {calls : Nat}

/-- The task goes on and stays. -/
theorem step_stays (hindex : r.index = some i) (ha : a.task = some i)
    (hu : r.worker.step ops a = some u) (hlength : u.tasks.length = r.worker.tasks.length)
    (h : r.step ops a = some r') : r' = r.went u (some i) := by
  have hmoved : moved a (u.tasks.length < r.worker.tasks.length) i = some i := by
    simp [moved, ha, hlength]
  unfold RunOne.step at h
  rw [hu, Option.map_some, hindex] at h
  dsimp only at h
  rw [if_pos ha, hmoved] at h
  exact (Option.some.inj h).symm

/-- The task goes on and ends. -/
theorem step_ends (hindex : r.index = some i) (ha : a.task = some i)
    (hu : r.worker.step ops a = some u) (hlength : u.tasks.length < r.worker.tasks.length)
    (h : r.step ops a = some r') : r' = r.went u none := by
  have hmoved : moved a (u.tasks.length < r.worker.tasks.length) i = none := by
    simp [moved, ha, hlength]
  unfold RunOne.step at h
  rw [hu, Option.map_some, hindex] at h
  dsimp only at h
  rw [if_pos ha, hmoved] at h
  exact (Option.some.inj h).symm

theorem went_rows_same {index : Option Nat} (hrows : u.rows = r.worker.rows) :
    (r.went u index).rows = r.rows := by
  simp [RunOne.went, hrows]

theorem eligible_same {index : Option Nat} (hrows : u.rows = r.worker.rows)
    (h : ∀ row ∈ r.rows, row.1.attempt + 1 = n → row.2 + backoff row.1.attempt * second ≤ e) :
    ∀ row ∈ (r.went u index).rows, row.1.attempt + 1 = n →
      row.2 + backoff row.1.attempt * second ≤ e := by
  rw [went_rows_same hrows]
  exact h

theorem went_rows_cons (index : Option Nat) {row : SoarDelivery}
    (hrows : u.rows = row :: r.worker.rows) :
    (r.went u index).rows = (row, u.now) :: r.rows := by
  simp [RunOne.went, hrows]

theorem went_calls {index : Option Nat} (h : RunOne.calling u index = none) :
    (r.went u index).calls = r.calls := by
  simp [RunOne.went, h]

/-- A call is logged. -/
theorem Logged.call (h : Logged item outcomes r calls (n - 1)) (hn : calls + 1 = n) (time : Int)
    (hcalls : r'.calls = (n, time) :: r.calls) (hrows : r'.rows = r.rows)
    (hwait : ∀ row ∈ r.rows, row.1.attempt + 1 = n →
      row.2 + backoff row.1.attempt * second ≤ time) :
    Logged item outcomes r' n (n - 1) := by
  refine ⟨?_, ?_, ?_⟩
  · rw [hcalls, List.map_cons, h.calls, ← hn, List.range'_concat, List.reverse_append]
    simp [Nat.add_comm]
  · rw [hrows]
    exact h.rows
  · rw [hcalls, hrows]
    intro call hcall row hrow heq
    rcases List.mem_cons.mp hcall with rfl | hcall
    · exact hwait row hrow heq.symm
    · exact h.waits call hcall row hrow heq

/-- A row is logged. -/
theorem Logged.row (h : Logged item outcomes r n (n - 1)) (hn : 1 ≤ n) {time : Int}
    (hcalls : r'.calls = r.calls) (hrows : r'.rows = (rowAt item outcomes n, time) :: r.rows) :
    Logged item outcomes r' n n := by
  refine ⟨?_, ?_, ?_⟩
  · rw [hcalls]
    exact h.calls
  · obtain ⟨m, rfl⟩ : ∃ m, n = m + 1 := ⟨n - 1, by omega⟩
    rw [hrows, List.map_cons, h.rows, List.range'_concat, List.map_append, List.reverse_append]
    simp [Nat.add_comm]
  · rw [hcalls, hrows]
    intro call hcall row hrow heq
    rcases List.mem_cons.mp hrow with rfl | hrow
    · -- no call is for a later attempt
      have hle := h.call_attempt hcall
      have hattempt : (rowAt item outcomes n).attempt = n := rfl
      dsimp only at heq
      omega
    · exact h.waits call hcall row hrow heq

theorem calling_of_task {t : Task} (ht : u.tasks[i]? = some t) :
    RunOne.calling u (some i) = match t.stage with
      | .delivering => some t.item.attempt
      | _ => none := by
  obtain ⟨item, stage⟩ := t
  unfold RunOne.calling
  rw [Option.bind_some, ht]
  cases stage <;> rfl

theorem set_task {s : SoarWorker} {t t' : Task} (ht : s.tasks[i]? = some t)
    (hset : u.tasks = s.tasks.set i t') :
    u.tasks[i]? = some t' ∧ u.tasks.length = s.tasks.length := by
  have hi : i < s.tasks.length := (List.getElem?_eq_some_iff.mp ht).1
  constructor
  · rw [hset, List.getElem?_set_self hi]
  · rw [hset, List.length_set]

theorem erase_task {s : SoarWorker} {t : Task} (ht : s.tasks[i]? = some t)
    (herase : u.tasks = s.tasks.eraseIdx i) : u.tasks.length < s.tasks.length := by
  have hi : i < s.tasks.length := (List.getElem?_eq_some_iff.mp ht).1
  rw [herase, List.length_eraseIdx_of_lt hi]
  omega

/-- After the row of the last attempt the call returns. -/
theorem followed_end (hindex : r.index = some i)
    (ht : r.worker.tasks[i]? = some ⟨item.at n e, stage⟩) (ha : a.task = some i)
    (hu : r.worker.step ops a = some u) (hone : 1 ≤ n)
    (hlogged : Logged item outcomes r n (n - 1)) (hsteps : r.steps = 3 * n)
    (hlast : n = lastAttempt item outcomes) (herase : u.tasks = r.worker.tasks.eraseIdx i)
    (hrows : u.rows = rowAt item outcomes n :: r.worker.rows) (h : r.step ops a = some r') :
    Followed item outcomes r' := by
  rw [step_ends hindex ha hu (erase_task ht herase) h]
  refine .returned rfl ?_ ?_
  · rw [← hlast]
    exact hlogged.row hone (went_calls rfl) (went_rows_cons none hrows)
  · show r.steps + 1 = _
    omega

/-- A row is stored: the attempt was the last, or the next one is due after the backoff. -/
theorem followed_save (hindex : r.index = some i)
    (ht : r.worker.tasks[i]? = some ⟨item.at n e, .persisting (outcomeAt item outcomes n)⟩)
    (ha : a.task = some i)
    (hu : r.worker.step ops a = some (afterAttempt ops { r.worker with
      rows := deliveryRow (item.at n e) (outcomeAt item outcomes n) :: r.worker.rows } i
      (item.at n e) (outcomeAt item outcomes n)))
    (hone : 1 ≤ n) (hle : n ≤ lastAttempt item outcomes)
    (hlogged : Logged item outcomes r n (n - 1)) (hsteps : r.steps = 3 * n)
    (h : r.step ops a = some r') : Followed item outcomes r' := by
  have hrow : deliveryRow (item.at n e) (outcomeAt item outcomes n) = rowAt item outcomes n := rfl
  have hlast {v : SoarWorker} (hv : r.worker.step ops a = some v)
      (hend : final item outcomes n = true ∨ item.config.maxRetries < n)
      (herase : v.tasks = r.worker.tasks.eraseIdx i)
      (hrows : v.rows = rowAt item outcomes n :: r.worker.rows) : Followed item outcomes r' :=
    followed_end hindex ht ha hv hone hlogged hsteps (eq_lastAttempt hone hle hend) herase hrows h
  unfold afterAttempt at hu
  dsimp only at hu
  rw [hrow] at hu
  have hfinal : final item outcomes n = ((outcomeAt item outcomes n).result.deadLettered ||
      decide (200 ≤ (outcomeAt item outcomes n).result.statusCode ∧
        (outcomeAt item outcomes n).result.statusCode < 400)) := rfl
  split at hu
  · rename_i hdead
    refine hlast hu (Or.inl (by rw [hfinal, hdead, Bool.true_or])) ?_ ?_
    · exact congrArg (List.eraseIdx · i) (maybeDeadLetter_tasks _)
    · rw [maybeDeadLetter_frame]
      rfl
  · rename_i hdead
    split at hu
    · rename_i hsuccess
      refine hlast hu (Or.inl ?_) rfl rfl
      rw [hfinal, decide_eq_true hsuccess, Bool.or_true]
    · rename_i hsuccess
      split at hu
      · rename_i hretries
        refine hlast hu (Or.inr hretries) ?_ ?_
        · exact congrArg (List.eraseIdx · i) (maybeDeadLetter_tasks _)
        · rw [maybeDeadLetter_frame]
          rfl
      · rename_i hretries
        -- another attempt, due after the backoff
        have hnotfinal : final item outcomes n = false := by
          rw [hfinal, Bool.or_eq_false_iff]
          exact ⟨by simpa using hdead, decide_eq_false hsuccess⟩
        have hlt := lt_lastAttempt hle hnotfinal (not_lt.mp hretries)
        obtain ⟨ht', hlength⟩ := set_task (u := SoarWorker.setTask { r.worker with
            rows := rowAt item outcomes n :: r.worker.rows } i
          ⟨item.at (n + 1) (r.worker.now + backoff n * second), .looping⟩) ht rfl
        rw [step_stays hindex ha hu hlength h]
        have hlogged' := hlogged.row hone (went_calls (calling_of_task ht'))
          (went_rows_cons (some i) rfl)
        refine .active i (n + 1) _ .looping n rfl ht' (by omega) hlt hlogged' ?_ ⟨rfl, ?_⟩
        · rw [went_rows_cons _ rfl]
          intro row hmem hnext
          rcases List.mem_cons.mp hmem with rfl | hmem
          · exact le_refl _
          · have := hlogged.row_attempt hmem
            omega
        · show r.steps + 1 + 2 = _
          omega

theorem followed_own (hindex : r.index = some i)
    (ht : r.worker.tasks[i]? = some ⟨item.at n e, stage⟩) (ha : a.task = some i)
    (hu : r.worker.step ops a = some u) (hone : 1 ≤ n) (hle : n ≤ lastAttempt item outcomes)
    (hlogged : Logged item outcomes r calls (n - 1))
    (heligible : ∀ row ∈ r.rows, row.1.attempt + 1 = n →
      row.2 + backoff row.1.attempt * second ≤ e)
    (hphase : Phase item outcomes n stage calls r.steps) (hok : Unfailing outcomes r a)
    (h : r.step ops a = some r') : Followed item outcomes r' := by
  have hnext := step_own hu ht ha
  cases hnext with
  | acquire =>
    obtain ⟨ht', hlength⟩ :=
      set_task (u := r.worker.setTask i ⟨item.at n e, .looping⟩) ht rfl
    obtain ⟨rfl, rfl, hsteps⟩ := hphase
    rw [step_stays hindex ha hu hlength h]
    refine .active i 1 e .looping 0 rfl ht' hone hle ?_ ?_ ⟨rfl, ?_⟩
    · exact hlogged.congr (went_calls (calling_of_task ht')) (went_rows_same rfl)
    · exact eligible_same rfl heligible
    · show r.steps + 1 + 2 = _
      omega
  | exhausted past =>
    -- the last attempt is within the retries
    have hpast : item.config.maxRetries + 1 < n := past
    have := lastAttempt_le item outcomes
    omega
  | call due =>
    obtain ⟨ht', hlength⟩ :=
      set_task (u := r.worker.setTask i ⟨item.at n e, .delivering⟩) ht rfl
    obtain ⟨hcalls, hsteps⟩ := hphase
    have hdue : e ≤ r.worker.now := due
    rw [step_stays hindex ha hu hlength h]
    refine .active i n e .delivering n rfl ht' hone hle ?_ ?_ ⟨rfl, ?_⟩
    · refine hlogged.call hcalls r.worker.now ?_ (went_rows_same rfl) ?_
      · unfold RunOne.went
        rw [calling_of_task ht']
        rfl
      · intro row hrow hn
        exact (heligible row hrow hn).trans hdue
    · exact eligible_same rfl heligible
    · show r.steps + 1 + 1 = _
      omega
  | answer reply outcome answered =>
    obtain ⟨ht', hlength⟩ :=
      set_task (u := { r.worker.setTask i ⟨item.at n e, .persisting outcome⟩ with
        attempts := ⟨(item.at n e).pair, outcome⟩ :: r.worker.attempts }) ht rfl
    obtain ⟨rfl, hsteps⟩ := hphase
    have hreply : reply = outcomes calls := hok i _ hindex ht rfl
    rw [step_stays hindex ha hu hlength h]
    refine .active i calls e (.persisting outcome) calls rfl ht' hone hle ?_ ?_ ⟨rfl, ?_, ?_⟩
    · exact hlogged.congr (went_calls (calling_of_task ht')) (went_rows_same rfl)
    · exact eligible_same rfl heligible
    · show r.steps + 1 = _
      omega
    · rw [answered, hreply]
      rfl
  | fail outcome => exact absurd (hok hindex) nofun
  | save outcome =>
    obtain ⟨rfl, hsteps, rfl⟩ := hphase
    exact followed_save hindex ht ha hu hone hle hlogged hsteps h

end Own

theorem followed_step (h : Followed item outcomes r) (hok : Unfailing outcomes r a)
    (hstep : r.step ops a = some r') : Followed item outcomes r' := by
  obtain ⟨u, hu, hr'⟩ := Option.map_eq_some_iff.mp hstep
  cases h with
  | returned index logged steps =>
    rw [index] at hr'
    rw [← hr']
    exact .returned rfl (logged.congr rfl rfl) steps
  | active i n e stage calls index task one le_last logged eligible phase =>
    by_cases ha : a.task = some i
    · exact followed_own index task ha hu one le_last logged eligible phase hok hstep
    · obtain ⟨i', hmoved, htask⟩ := step_other hu task ha
      rw [index] at hr'
      dsimp only at hr'
      rw [if_neg ha, hmoved] at hr'
      rw [← hr']
      exact .active i' n e stage calls rfl htask one le_last (logged.congr rfl rfl) eligible phase

/-! ## Going on -/

theorem goes_of_step {i : Nat} (hindex : r.index = some i) (ha : a.task = some i)
    (h : (r.worker.step ops a).isSome) : ∃ v, r.step ops a = some v ∧ v.steps = r.steps + 1 := by
  obtain ⟨u, hu⟩ := Option.isSome_iff_exists.mp h
  refine ⟨r.went u (moved a (u.tasks.length < r.worker.tasks.length) i), ?_, rfl⟩
  unfold RunOne.step
  rw [hu, Option.map_some, hindex]
  exact congrArg some (if_pos ha)

/-- The task of a call that has not returned can go on, once it is due. -/
theorem followed_goesOn (h : Followed item outcomes r) {i : Nat} {t : Task}
    (hindex : r.index = some i) (ht : r.worker.tasks[i]? = some t) (hrow : r.worker.row = none)
    (hsemaphore : t.stage = .waiting → r.worker.inFlight < 10) :
    ∃ d a u v, r.step ops (.wait d) = some u ∧ a.task = some i ∧ Unfailing outcomes u a ∧
      u.step ops a = some v ∧ v.steps = r.steps + 1 := by
  cases h with
  | returned index _ _ =>
    rw [index] at hindex
    cases hindex
  | active j n e stage calls index task one le_last _ _ _ =>
    obtain rfl : j = i := Option.some.inj (index.symm.trans hindex)
    obtain rfl : _ = t := Option.some.inj (task.symm.trans ht)
    have hwait (d : Nat) : r.step ops (.wait d) =
        some { r with worker := { r.worker with now := r.worker.now + d } } := by
      unfold RunOne.step
      simp [SoarWorker.step, hrow, index, moved, SoarAct.task]
    -- the clock goes on until the attempt is due
    let d := (e - r.worker.now).toNat
    let waited : RunOne := { r with worker := { r.worker with now := r.worker.now + d } }
    have hgo (a : SoarAct) (ha : a.task = some j) (hok : Unfailing outcomes waited a)
        (hstep : (waited.worker.step ops a).isSome) :
        ∃ d a u v, r.step ops (.wait d) = some u ∧ a.task = some j ∧ Unfailing outcomes u a ∧
          u.step ops a = some v ∧ v.steps = r.steps + 1 := by
      obtain ⟨v, hv, hsteps⟩ := goes_of_step (r := waited) index ha hstep
      exact ⟨d, a, waited, v, hwait d, ha, hok, hv, hsteps⟩
    cases stage with
    | waiting =>
      refine hgo (.acquire j) rfl trivial ?_
      have hfew : waited.worker.inFlight < 10 := hsemaphore rfl
      simpa [SoarWorker.step, waited, hrow, task, taskStep] using hfew
    | looping =>
      refine hgo (.loop j) rfl trivial ?_
      have hdue : ¬ r.worker.now + (d : Int) < e := by omega
      have hcount : ¬ item.config.maxRetries + 1 < n := by
        have := lastAttempt_le item outcomes
        omega
      simp [SoarWorker.step, waited, hrow, task, taskStep, PendingDelivery.at, hdue, hcount]
    | delivering =>
      refine hgo (.deliver j (outcomes n)) rfl ?_ ?_
      · intro i' t' hi' ht' _
        obtain rfl : j = i' := Option.some.inj (index.symm.trans hi')
        obtain rfl : _ = t' := Option.some.inj (task.symm.trans ht')
        rfl
      · simp [SoarWorker.step, waited, hrow, task, taskStep]
    | persisting outcome =>
      refine hgo (.persist j true) rfl (fun _ => rfl) ?_
      simp [SoarWorker.step, waited, hrow, task, taskStep]

end Followed

/-! ## Runs -/

/-- What waits for its first attempt has the number 1. -/
structure FirstAttempts (s : SoarWorker) : Prop where
  queued : ∀ item ∈ s.queue, item.attempt = 1
  waiting : ∀ t ∈ s.tasks, t.stage = .waiting → t.item.attempt = 1

theorem firstAttempts_step {ops : SoarOps} {s u : SoarWorker} {a : SoarAct} (h : FirstAttempts s)
    (hstep : s.step ops a = some u) : FirstAttempts u := by
  cases ha : a.task with
  | none =>
    obtain ⟨ts, htasks, hts, hqueue⟩ := step_no_task hstep ha
    refine ⟨fun item hitem => ?_, fun t ht hstage => ?_⟩
    · rcases hqueue item hitem with hold | hone
      · exact h.queued item hold
      · exact hone
    · rw [htasks] at ht
      rcases List.mem_append.mp ht with hold | hnew
      · exact h.waiting t hold hstage
      · exact h.queued _ (hts t hnew)
  | some j =>
    obtain ⟨t', -, htask⟩ := step_task hstep ha
    have hone := taskMove_oneTask (taskStep_move htask)
    refine ⟨fun item hitem => ?_, fun t ht hstage => ?_⟩
    · rw [hone.queue] at hitem
      exact h.queued item hitem
    · rcases hone.tasks with ⟨t'', hstage'', hset⟩ | herase
      · rw [hset] at ht
        rcases List.mem_or_eq_of_mem_set ht with hold | rfl
        · exact h.waiting t hold hstage
        · exact absurd hstage hstage''
      · rw [herase] at ht
        exact h.waiting t (List.mem_of_mem_eraseIdx ht) hstage

theorem followed_start {s : SoarWorker} (hs : FirstAttempts s) {i : Nat} {item : PendingDelivery}
    (hi : s.tasks[i]? = some ⟨item, .waiting⟩)
    (outcomes : Nat → Except (Str × Timestamp) DeliverOutcome) :
    Followed item outcomes (RunOne.start s i) := by
  have hone : item.attempt = 1 := hs.waiting _ (List.mem_of_getElem? hi) rfl
  have hitem : item = item.at 1 item.nextEligibleAt := by
    unfold PendingDelivery.at
    rw [← hone]
  have hlast : 1 ≤ lastAttempt item outcomes := by
    rcases lastAttempt_cases item outcomes with h | h
    · omega
    · omega
  refine .active i 1 item.nextEligibleAt .waiting 0 rfl ?_ (le_refl _) hlast ?_ nofun
    ⟨rfl, rfl, rfl⟩
  · rw [← hitem]
    exact hi
  · exact ⟨rfl, rfl, nofun⟩

theorem disciplined_of_followed {item : PendingDelivery}
    {outcomes : Nat → Except (Str × Timestamp) DeliverOutcome} {ops : SoarOps} {r : RunOne}
    (h : Followed item outcomes r) : Disciplined item outcomes ops r := by
  have hgoes := @followed_goesOn item outcomes ops r h
  cases h with
  | active i n e stage calls index task one le_last logged eligible phase =>
    have hcalls := logged.calls_length
    have hrows := logged.rows_length
    -- at most the call of the attempt that is under way has no row yet
    have hbounds : calls ≤ n ∧ n - 1 ≤ calls ∧ r.steps ≤ 3 * n := by
      cases stage with
      | waiting =>
        obtain ⟨hn, hc, hs⟩ := phase
        omega
      | looping =>
        obtain ⟨hc, hs⟩ := phase
        omega
      | delivering =>
        obtain ⟨hc, hs⟩ := phase
        omega
      | persisting outcome =>
        obtain ⟨hc, hs, -⟩ := phase
        omega
    refine ⟨⟨calls, logged.calls, by omega, by omega⟩, ?_, by omega, logged.waits, ?_, by omega,
      @hgoes⟩
    · rw [hrows]
      exact logged.rows
    · intro hnone
      rw [index] at hnone
      cases hnone
  | returned index logged steps =>
    have hcalls := logged.calls_length
    have hrows := logged.rows_length
    refine ⟨⟨_, logged.calls, le_refl _, by omega⟩, ?_, by omega, logged.waits, ?_, by omega,
      @hgoes⟩
    · rw [hrows]
      exact logged.rows
    · exact fun _ => ⟨hcalls, hrows⟩

/-- Every call of `_run_one` in every run of the worker, whatever the backend answers and whatever
else the worker does meanwhile: the attempts are 1, 2, ... up to the first that is final or the one
after the last retry, each has one row, they are spaced as the schedule says, and the call can
always go on until it returns, after a bounded number of steps. -/
theorem retries_disciplined (ops : SoarOps) (config : SoarConfig) (now : Int)
    (files : List (Str × Json)) (before : List SoarAct) (s : SoarWorker)
    (hs : AnyRun (SoarWorker.step ops) (.start config now files) before s) (i : Nat)
    (item : PendingDelivery) (hi : s.tasks[i]? = some ⟨item, .waiting⟩)
    (outcomes : Nat → Except (Str × Timestamp) DeliverOutcome) (acts : List SoarAct) (r : RunOne)
    (h : Run (RunOne.step ops) (Unfailing outcomes) (.start s i) acts r) :
    Disciplined item outcomes ops r := by
  have hstart : FirstAttempts (.start config now files) := ⟨nofun, nofun⟩
  have hfirst : FirstAttempts s :=
    hs.invariant hstart fun _ _ _ ht _ hu => firstAttempts_step ht hu
  have hfollowed : Followed item outcomes r :=
    h.invariant (followed_start hfirst hi outcomes) fun _ _ _ ht hok hu => followed_step ht hok hu
  exact disciplined_of_followed hfollowed

/-! ## A backend that is down -/

def unavailable : DeliverOutcome where
  result := ⟨"slack".toList, uuidStr 1#128, 503, sampleTime, 3, some "http 503".toList, false⟩
  payloadSha256 := List.replicate 64 '0'

/-- The attempts, each as soon as it is due. -/
def sixAttempts : List SoarAct :=
  .acquire 0 :: [0, 1, 5, 25, 125, 625].flatMap fun d =>
    [.wait (d * 1000000000), .loop 0, .deliver 0 (.ok unavailable), .persist 0 true]

def waitingFirst (s : SoarWorker) : Bool :=
  match s.tasks[0]?.map Task.stage with
  | some .waiting => true
  | _ => false

theorem unavailable_sixAttempts (m : RunOne) :
    ∀ a ∈ sixAttempts, Unfailing (fun _ => .ok unavailable) m a := by
  intro a ha
  rcases List.mem_cons.mp ha with rfl | ha
  · trivial
  · obtain ⟨d, -, hd⟩ := List.mem_flatMap.mp ha
    simp only [List.mem_cons, List.not_mem_nil, or_false] at hd
    rcases hd with rfl | rfl | rfl | rfl
    · trivial
    · trivial
    · exact fun _ _ _ _ _ => rfl
    · exact fun _ => rfl

theorem six_attempts_disciplined :
    ∃ s item r, AnyRun (SoarWorker.step sampleOps) sampleStart (pollRow 1#128 ++ [.drain]) s ∧
      s.tasks[0]? = some ⟨item, .waiting⟩ ∧
      Run (RunOne.step sampleOps) (Unfailing fun _ => .ok unavailable) (.start s 0) sixAttempts r ∧
      r.index = none ∧ r.rows.length = 6 ∧
      Disciplined item (fun _ => .ok unavailable) sampleOps r := by
  have hcheck : ((exec (SoarWorker.step sampleOps) sampleStart (pollRow 1#128 ++ [.drain])).any
      fun s => waitingFirst s && (exec (RunOne.step sampleOps) (.start s 0) sixAttempts).any
        fun r => r.index.isNone && r.rows.length == 6) = true := by decide +kernel
  obtain ⟨s, hs, hcheck⟩ := (Option.any_eq_true _ _).mp hcheck
  rw [Bool.and_eq_true] at hcheck
  obtain ⟨hwaiting, hcheck⟩ := hcheck
  obtain ⟨r, hr, hend⟩ := (Option.any_eq_true _ _).mp hcheck
  rw [Bool.and_eq_true, Option.isNone_iff_eq_none, beq_iff_eq] at hend
  unfold waitingFirst at hwaiting
  split at hwaiting
  · rename_i hstage
    obtain ⟨⟨item, stage⟩, hitem, rfl⟩ := Option.map_eq_some_iff.mp hstage
    have hrun : Run (RunOne.step sampleOps) (Unfailing fun _ => .ok unavailable) (.start s 0)
        sixAttempts r :=
      (run_of_exec hr).of_all fun a ha m => unavailable_sixAttempts m a ha
    exact ⟨s, item, r, run_of_exec hs, hitem, hrun, hend.1, hend.2,
      retries_disciplined sampleOps sampleConfig 1000000000000 [] _ s (run_of_exec hs) 0 item hitem
        _ _ r hrun⟩
  · cases hwaiting

end ZaqorinCore.Server.Soar
