import ZaqorinCore.Server.Soar

/-!
# Pairs that the SOAR worker gives up

Every accepted pair is to end with a successful attempt or with a dead letter. The worker writes a
dead letter only for some failures: an attempt that is `dead_lettered` with the status 0, such as
an exception, a broken configuration or a place in the queue that is lost, counts as a failure to
record only after the last retry. `Meets` says which steps lose nothing; `no_silent_loss` is the
promise for the runs of such steps.
-/

namespace ZaqorinCore.Server.Soar

open Text Base

namespace SoarWorker

/-- The pair is in the queue or a task works on it. -/
def Pending (s : SoarWorker) (p : Str × Str) : Prop :=
  (∃ item ∈ s.queue, item.pair = p) ∨ ∃ t ∈ s.tasks, t.item.pair = p

def Successful (result : DeliveryResult) : Prop :=
  200 ≤ result.statusCode ∧ result.statusCode < 400

def Delivered (s : SoarWorker) (p : Str × Str) : Prop :=
  ∃ a ∈ s.attempts, a.pair = p ∧ Successful a.outcome.result

def DeadLettered (s : SoarWorker) (p : Str × Str) : Prop :=
  ∃ f ∈ s.files, letterPair f.2 = some p

/-- Every accepted pair whose processing is over has been delivered or has a dead letter. -/
def NoSilentLoss (s : SoarWorker) : Prop :=
  ∀ p ∈ s.accepted, ¬ s.Pending p → s.Delivered p ∨ s.DeadLettered p

instance (result : DeliveryResult) : Decidable (Successful result) :=
  inferInstanceAs (Decidable (_ ∧ _))

instance (s : SoarWorker) (p : Str × Str) : Decidable (s.Pending p) :=
  inferInstanceAs (Decidable (_ ∨ _))

instance (s : SoarWorker) (p : Str × Str) : Decidable (s.Delivered p) :=
  inferInstanceAs (Decidable (∃ a ∈ s.attempts, _ ∧ _))

instance (s : SoarWorker) (p : Str × Str) : Decidable (s.DeadLettered p) :=
  inferInstanceAs (Decidable (∃ f ∈ s.files, _))

instance (s : SoarWorker) : Decidable s.NoSilentLoss :=
  inferInstanceAs (Decidable (∀ p ∈ s.accepted, _ → _ ∨ _))

/-! ## The condition -/

/-- The statuses of a final failure that the worker records. -/
def Recordable (result : DeliveryResult) (attempt maxRetries : Nat) : Prop :=
  (result.deadLettered = true ∧ 400 ≤ result.statusCode ∧ result.statusCode < 500) ∨
    (maxRetries < attempt ∧ (result.statusCode = 0 ∨ 500 ≤ result.statusCode))

/-- A file of this name replaces no dead letter of another pair. -/
def Free (s : SoarWorker) (name : Str) (p : Str × Str) : Prop :=
  ∀ f ∈ s.files, f.1 = name → ∀ q ∈ s.accepted, letterPair f.2 = some q → q = p

/-- The item that the turn of the next backend drops from the queue. -/
def evicts (ops : SoarOps) (s : SoarWorker) : Option PendingDelivery :=
  match s.row with
  | some (alert, name :: _) =>
    if (s.wants ops alert name).isSome && s.full then s.queue.head? else none
  | _ => none

/-- The attempt of a task was successful; or it is stored, and what ends the task is recorded. -/
def Covered (s : SoarWorker) (saved : Bool) (t : Task) : Prop :=
  match t.stage with
  | .persisting outcome =>
    Successful outcome.result ∨
      (saved = true ∧
        (outcome.result.deadLettered = true ∨ t.item.config.maxRetries < t.item.attempt →
          Recordable outcome.result t.item.attempt t.item.config.maxRetries ∧
          s.Free (fileName outcome.result.attemptedAt t.item.alert.id) t.item.pair))
  | _ => True

/-- The steps that lose nothing. -/
def Meets (ops : SoarOps) (s : SoarWorker) : SoarAct → Prop
  | .turn utc => ∀ dropped ∈ s.evicts ops,
    dropped.config.maxRetries < dropped.attempt ∧
      s.Free (fileName utc dropped.alert.id) dropped.pair
  | .persist i saved => ∀ t ∈ s.tasks[i]?, s.Covered saved t
  | _ => True

instance (result : DeliveryResult) (attempt maxRetries : Nat) :
    Decidable (Recordable result attempt maxRetries) :=
  inferInstanceAs (Decidable (_ ∧ _ ∧ _ ∨ _ ∧ (_ ∨ _)))

instance (s : SoarWorker) (name : Str) (p : Str × Str) : Decidable (s.Free name p) :=
  inferInstanceAs (Decidable (∀ f ∈ s.files, _ → ∀ q ∈ s.accepted, _ → _))

instance (s : SoarWorker) (saved : Bool) : (t : Task) → Decidable (s.Covered saved t)
  | ⟨_, .waiting⟩ => isTrue trivial
  | ⟨_, .looping⟩ => isTrue trivial
  | ⟨_, .delivering⟩ => isTrue trivial
  | ⟨_, .persisting _⟩ => inferInstanceAs (Decidable (_ ∨ _ ∧ (_ → _ ∧ _)))

instance (ops : SoarOps) (s : SoarWorker) : (a : SoarAct) → Decidable (s.Meets ops a)
  | .wait _ => isTrue trivial
  | .poll _ => isTrue trivial
  | .turn _ => inferInstanceAs (Decidable (∀ dropped ∈ s.evicts ops, _ ∧ _))
  | .drain => isTrue trivial
  | .acquire _ => isTrue trivial
  | .loop _ => isTrue trivial
  | .deliver _ _ => isTrue trivial
  | .persist _ _ => inferInstanceAs (Decidable (∀ t ∈ s.tasks[_]?, _))

/-! ## Dead letters -/

variable {ops : SoarOps} {s u : SoarWorker} {item : PendingDelivery} {outcome : DeliverOutcome}
  {q : Str × Str}

theorem letterPair_body (attempt : Nat) :
    letterPair (deadLetterBody ops item outcome attempt) = some item.pair :=
  rfl

theorem candidate_of_recordable {result : DeliveryResult} {attempt : Nat} {config : BackendConfig}
    (h : Recordable result attempt config.maxRetries) :
    isDeadLetterCandidate result attempt config = true := by
  unfold isDeadLetterCandidate
  rcases h with ⟨hdead, hlow, hhigh⟩ | ⟨hlast, hzero | hhigh⟩
  · simp [hdead, hlow, hhigh]
  · simp [hlast, hzero]
  · simp [hlast, hhigh]

theorem candidate_of_successful {result : DeliveryResult} (h : Successful result) (attempt : Nat)
    (config : BackendConfig) : isDeadLetterCandidate result attempt config = false := by
  obtain ⟨hlow, hhigh⟩ := h
  have hclient : ¬ 400 ≤ result.statusCode := by omega
  have hserver : ¬ 500 ≤ result.statusCode := by omega
  have hzero : ¬ result.statusCode = 0 := by omega
  simp [isDeadLetterCandidate, hclient, hserver, hzero]

/-- Only the files change. -/
theorem maybeDeadLetter_frame (attempt : Nat) :
    s.maybeDeadLetter ops item outcome attempt =
      { s with files := (s.maybeDeadLetter ops item outcome attempt).files } := by
  unfold maybeDeadLetter
  split
  · rfl
  · rfl

@[simp]
theorem maybeDeadLetter_queue (attempt : Nat) :
    (s.maybeDeadLetter ops item outcome attempt).queue = s.queue := by
  rw [maybeDeadLetter_frame]

@[simp]
theorem maybeDeadLetter_tasks (attempt : Nat) :
    (s.maybeDeadLetter ops item outcome attempt).tasks = s.tasks := by
  rw [maybeDeadLetter_frame]

@[simp]
theorem maybeDeadLetter_attempts (attempt : Nat) :
    (s.maybeDeadLetter ops item outcome attempt).attempts = s.attempts := by
  rw [maybeDeadLetter_frame]

@[simp]
theorem maybeDeadLetter_config (attempt : Nat) :
    (s.maybeDeadLetter ops item outcome attempt).config = s.config := by
  rw [maybeDeadLetter_frame]

@[simp]
theorem maybeDeadLetter_accepted (attempt : Nat) :
    (s.maybeDeadLetter ops item outcome attempt).accepted = s.accepted := by
  rw [maybeDeadLetter_frame]

theorem maybeDeadLetter_records {attempt : Nat}
    (h : Recordable outcome.result attempt item.config.maxRetries) :
    (s.maybeDeadLetter ops item outcome attempt).DeadLettered item.pair := by
  unfold maybeDeadLetter
  rw [if_pos (candidate_of_recordable h)]
  exact ⟨_, List.mem_cons_self, letterPair_body attempt⟩

theorem maybeDeadLetter_keeps (attempt : Nat)
    (hfree : ∀ f ∈ s.files, f.1 = fileName outcome.result.attemptedAt item.alert.id →
      letterPair f.2 = some q → q = item.pair) (h : s.DeadLettered q) :
    (s.maybeDeadLetter ops item outcome attempt).DeadLettered q := by
  obtain ⟨f, hf, hpair⟩ := h
  unfold maybeDeadLetter
  split
  · by_cases hname : f.1 = fileName outcome.result.attemptedAt item.alert.id
    · -- the file that is replaced was for the same pair
      obtain rfl := hfree f hf hname hpair
      exact ⟨_, List.mem_cons_self, letterPair_body attempt⟩
    · refine ⟨f, List.mem_cons_of_mem _ (List.mem_filter.mpr ⟨hf, ?_⟩), hpair⟩
      simpa using hname
  · exact ⟨f, hf, hpair⟩

/-! ## Pairs -/

/-- The pair is not lost. -/
def Safe (s : SoarWorker) (p : Str × Str) : Prop := s.Pending p ∨ s.Delivered p ∨ s.DeadLettered p

theorem pending_iff : s.Pending q ↔
    q ∈ s.queue.map PendingDelivery.pair ∨ q ∈ s.tasks.map fun t => t.item.pair := by
  simp [Pending]

theorem pending_set {i : Nat} {t t' : Task} (ht : s.tasks[i]? = some t)
    (hpair : t'.item.pair = t.item.pair) (hqueue : u.queue = s.queue)
    (htasks : u.tasks = s.tasks.set i t') (h : s.Pending q) : u.Pending q := by
  have hpairs : (s.tasks.set i t').map (fun t => t.item.pair) =
      s.tasks.map fun t => t.item.pair := by
    rw [List.map_set, hpair]
    apply List.ext_getElem?
    intro j
    by_cases hj : i = j
    · subst hj
      have hi : i < s.tasks.length := (List.getElem?_eq_some_iff.mp ht).1
      rw [List.getElem?_set_self (by simpa using hi), List.getElem?_map, ht]
      rfl
    · rw [List.getElem?_set_ne hj]
  rw [pending_iff] at h ⊢
  rw [hqueue, htasks, hpairs]
  exact h

theorem pending_erase {i : Nat} {t : Task} (ht : s.tasks[i]? = some t) (hqueue : u.queue = s.queue)
    (htasks : u.tasks = s.tasks.eraseIdx i) (h : s.Pending q) : q = t.item.pair ∨ u.Pending q := by
  rcases h with ⟨item, hitem, hpair⟩ | ⟨t', ht', hpair⟩
  · refine Or.inr (Or.inl ⟨item, ?_, hpair⟩)
    rw [hqueue]
    exact hitem
  · obtain ⟨j, hj⟩ := List.mem_iff_getElem?.mp ht'
    by_cases hij : j = i
    · subst hij
      obtain rfl : t = t' := Option.some.inj (ht.symm.trans hj)
      exact Or.inl hpair.symm
    · refine Or.inr (Or.inr ⟨t', ?_, hpair⟩)
      rw [htasks]
      exact List.mem_eraseIdx_iff_getElem?.mpr ⟨j, hij, hj⟩

/-- A task can end when its pair has been delivered or has a dead letter. -/
theorem safe_of_end {i : Nat} {t : Task} (ht : s.tasks[i]? = some t) (hqueue : u.queue = s.queue)
    (htasks : u.tasks = s.tasks.eraseIdx i) (hattempts : u.attempts = s.attempts)
    (hfiles : s.DeadLettered q → u.DeadLettered q)
    (hend : u.Delivered t.item.pair ∨ u.DeadLettered t.item.pair) (h : s.Safe q) : u.Safe q := by
  rcases h with hpending | hdelivered | hdead
  · rcases pending_erase ht hqueue htasks hpending with heq | hpending
    · subst heq
      exact Or.inr hend
    · exact Or.inl hpending
  · refine Or.inr (Or.inl ?_)
    unfold Delivered
    rw [hattempts]
    exact hdelivered
  · exact Or.inr (Or.inr (hfiles hdead))

/-! ## Steps -/

/-- What a task does in a step. -/
inductive TaskMove (ops : SoarOps) (s : SoarWorker) (i : Nat) (t : Task) :
    SoarAct → SoarWorker → Prop
  | acquire (j : Nat) (stage : t.stage = .waiting) :
    TaskMove ops s i t (.acquire j) (s.setTask i ⟨t.item, .looping⟩)
  | exhausted (j : Nat) (past : t.item.config.maxRetries + 1 < t.item.attempt) :
    TaskMove ops s i t (.loop j) (s.finish i t.item)
  | loop (j : Nat) : TaskMove ops s i t (.loop j) (s.setTask i ⟨t.item, .delivering⟩)
  | deliver (j : Nat) (reply : Except (Str × Timestamp) DeliverOutcome) (outcome : DeliverOutcome) :
    TaskMove ops s i t (.deliver j reply) { s.setTask i ⟨t.item, .persisting outcome⟩ with
      attempts := ⟨t.item.pair, outcome⟩ :: s.attempts }
  | unsaved (j : Nat) (outcome : DeliverOutcome) (stage : t.stage = .persisting outcome) :
    TaskMove ops s i t (.persist j false) (s.removeTask i)
  | saved (j : Nat) (outcome : DeliverOutcome) (stage : t.stage = .persisting outcome) :
    TaskMove ops s i t (.persist j true)
      (afterAttempt ops { s with rows := deliveryRow t.item outcome :: s.rows } i t.item outcome)

/-- What a step does. -/
inductive Move (ops : SoarOps) (s : SoarWorker) : SoarAct → SoarWorker → Prop
  | wait (d : Nat) : Move ops s (.wait d) { s with now := s.now + d }
  | seen (row : AlertRow) : Move ops s (.poll row) s
  | poll (row : AlertRow) :
    Move ops s (.poll row) { s with row := some (alertOf ops row, s.config.registry) }
  | turn (utc : Timestamp) (alert : Alert) (name : Str) (names : List Str)
    (row : s.row = some (alert, name :: names)) :
    Move ops s (.turn utc) { s.turn ops alert name utc with row := some (alert, names) }
  | turned (utc : Timestamp) : Move ops s (.turn utc) { s with row := none }
  | drain : Move ops s .drain { s with
      queue := s.queue.drop (min 16 s.queue.length)
      tasks := s.tasks ++ (s.queue.take (min 16 s.queue.length)).map fun item => ⟨item, .waiting⟩ }
  | task (i : Nat) (t : Task) (a : SoarAct) (u : SoarWorker) (found : s.tasks[i]? = some t)
    (moves : TaskMove ops s i t a u) (at_i : ∀ j saved, a = .persist j saved → j = i) :
    Move ops s a u

theorem taskStep_move {i : Nat} {t : Task} {a : SoarAct} (h : s.taskStep ops i t a = some u) :
    TaskMove ops s i t a u := by
  unfold taskStep at h
  split at h
  · split at h
    · split at h
      · cases h
        exact .acquire _ ‹_›
      · cases h
    · cases h
  · split at h
    · split at h
      · cases h
        exact .exhausted _ ‹_›
      · split at h
        · cases h
        · cases h
          exact .loop _
    · cases h
  · split at h
    · cases h
      exact .deliver _ _ _
    · cases h
  · rename_i saved
    split at h
    · cases saved with
      | false =>
        cases h
        exact .unsaved _ _ ‹_›
      | true =>
        cases h
        exact .saved _ _ ‹_›
    · cases h
  · cases h

theorem step_move {a : SoarAct} (h : s.step ops a = some u) : Move ops s a u := by
  unfold step at h
  split at h
  · rename_i hrow
    cases h
    exact .turn _ _ _ _ hrow
  · cases h
    exact .turned _
  · cases h
    exact .wait _
  · dsimp only at h
    split at h
    · cases h
      exact .seen _
    · cases h
      exact .poll _
  · cases h
    exact .drain
  · obtain ⟨t, ht, hstep⟩ := Option.bind_eq_some_iff.mp h
    exact .task _ t _ _ ht (taskStep_move hstep) nofun
  · obtain ⟨t, ht, hstep⟩ := Option.bind_eq_some_iff.mp h
    exact .task _ t _ _ ht (taskStep_move hstep) nofun
  · obtain ⟨t, ht, hstep⟩ := Option.bind_eq_some_iff.mp h
    exact .task _ t _ _ ht (taskStep_move hstep) nofun
  · obtain ⟨t, ht, hstep⟩ := Option.bind_eq_some_iff.mp h
    refine .task _ t _ _ ht (taskStep_move hstep) ?_
    intro j saved heq
    cases heq
    rfl
  · cases h

/-! ## The invariant -/

structure LossInv (s : SoarWorker) : Prop where
  safe : ∀ p ∈ s.accepted, s.Safe p
  logged : ∀ t ∈ s.tasks, ∀ outcome, t.stage = .persisting outcome →
    ⟨t.item.pair, outcome⟩ ∈ s.attempts
  first : ∀ item ∈ s.queue, item.attempt = 1
  counted : ∀ t ∈ s.tasks, t.item.attempt ≤ t.item.config.maxRetries + 1
  bounded : 0 < s.config.queueMax → s.queue.length ≤ s.config.queueMax

theorem start_inv (config : SoarConfig) (now : Int) (files : List (Str × Json)) :
    LossInv (start config now files) where
  safe := nofun
  logged := nofun
  first := nofun
  counted := nofun
  bounded := fun _ => Nat.zero_le _

/-- A queue that is full and gives up an item has a place. -/
theorem enqueueItem_cases (utc : Timestamp)
    (hbound : 0 < s.config.queueMax → s.queue.length ≤ s.config.queueMax) :
    (s.full = false ∧ s.enqueueItem ops item utc = s.put item) ∨
    ∃ dropped queue, s.full = true ∧ s.queue = dropped :: queue ∧
      s.enqueueItem ops item utc =
        (deadLetterQueueFull ops { s with queue } dropped utc).put item := by
  unfold enqueueItem
  cases hfull : s.full with
  | false => exact Or.inl ⟨rfl, rfl⟩
  | true =>
    have hlength : 0 < s.config.queueMax ∧ s.config.queueMax ≤ s.queue.length := by
      simpa [full] using hfull
    cases hqueue : s.queue with
    | nil =>
      rw [hqueue, List.length_nil] at hlength
      omega
    | cons dropped queue =>
      refine Or.inr ⟨dropped, queue, rfl, rfl, ?_⟩
      have hbounded := hbound hlength.1
      have hroom : (deadLetterQueueFull ops { s with queue } dropped utc).full = false := by
        unfold deadLetterQueueFull
        rw [maybeDeadLetter_frame]
        rw [hqueue, List.length_cons] at hbounded
        simp only [full, Bool.and_eq_false_iff, decide_eq_false_iff_not]
        omega
      simp only [Bool.not_true, Bool.false_eq_true, if_false]
      rw [hroom]
      rfl

/-- An item that is put into the queue is pending. -/
theorem put_inv (hsafe : ∀ p ∈ s.accepted, p = item.pair ∨ s.Safe p)
    (hlogged : ∀ t ∈ s.tasks, ∀ outcome, t.stage = .persisting outcome →
      ⟨t.item.pair, outcome⟩ ∈ s.attempts)
    (hfirst : ∀ item ∈ s.queue, item.attempt = 1) (hitem : item.attempt = 1)
    (hcounted : ∀ t ∈ s.tasks, t.item.attempt ≤ t.item.config.maxRetries + 1)
    (hroom : 0 < s.config.queueMax → s.queue.length < s.config.queueMax) :
    LossInv (s.put item) where
  safe := by
    intro p hp
    rcases hsafe p hp with rfl | hpending | hdone
    · exact Or.inl (Or.inl ⟨item, List.mem_append_right _ List.mem_cons_self, rfl⟩)
    · rcases hpending with ⟨item', hitem', hpair⟩ | htask
      · exact Or.inl (Or.inl ⟨item', List.mem_append_left _ hitem', hpair⟩)
      · exact Or.inl (Or.inr htask)
    · exact Or.inr hdone
  logged := hlogged
  first := by
    intro item' hitem'
    rcases List.mem_append.mp hitem' with hitem' | hitem'
    · exact hfirst item' hitem'
    · rw [List.mem_singleton.mp hitem']
      exact hitem
  counted := hcounted
  bounded := by
    intro hpos
    have := hroom hpos
    show (s.queue ++ [item]).length ≤ s.config.queueMax
    rw [List.length_append, List.length_singleton]
    omega

/-- The oldest item leaves the queue with a dead letter. -/
theorem evict_safe {dropped : PendingDelivery} {queue : List PendingDelivery} {utc : Timestamp}
    (hqueue : s.queue = dropped :: queue) (hlast : dropped.config.maxRetries < dropped.attempt)
    (hfree : ∀ f ∈ s.files, f.1 = fileName utc dropped.alert.id → letterPair f.2 = some q →
      q = dropped.pair) (h : s.Safe q) :
    (deadLetterQueueFull ops { s with queue } dropped utc).Safe q := by
  have hrecord : Recordable (queueFullOutcome dropped utc).result dropped.attempt
      dropped.config.maxRetries := Or.inr ⟨hlast, Or.inl rfl⟩
  rcases h with (⟨item, hitem, hpair⟩ | htask) | hdelivered | hdead
  · rw [hqueue] at hitem
    rcases List.mem_cons.mp hitem with rfl | hitem
    · rw [← hpair]
      exact Or.inr (Or.inr (maybeDeadLetter_records hrecord))
    · unfold deadLetterQueueFull
      rw [maybeDeadLetter_frame]
      exact Or.inl (Or.inl ⟨item, hitem, hpair⟩)
  · unfold deadLetterQueueFull
    rw [maybeDeadLetter_frame]
    exact Or.inl (Or.inr htask)
  · unfold deadLetterQueueFull
    rw [maybeDeadLetter_frame]
    exact Or.inr (Or.inl hdelivered)
  · exact Or.inr (Or.inr (maybeDeadLetter_keeps _ hfree hdead))

theorem enqueueItem_inv (h : LossInv s) (e : List Str) (utc : Timestamp) (hitem : item.attempt = 1)
    (hdrop : ∀ dropped ∈ s.queue.head?, s.full = true →
      dropped.config.maxRetries < dropped.attempt ∧
        s.Free (fileName utc dropped.alert.id) dropped.pair) :
    LossInv (enqueueItem ops { s with enqueued := e, accepted := item.pair :: s.accepted } item
      utc) := by
  rcases enqueueItem_cases utc (s := { s with enqueued := e, accepted := item.pair :: s.accepted })
    h.bounded with ⟨hfull, heq⟩ | ⟨dropped, queue, hfull, hqueue, heq⟩
  · rw [heq]
    apply put_inv
    · intro p hp
      rcases List.mem_cons.mp hp with rfl | hp
      · exact Or.inl rfl
      · exact Or.inr (h.safe p hp)
    · exact h.logged
    · exact h.first
    · exact hitem
    · exact h.counted
    · intro hpos
      have hroom : s.full = false := hfull
      simp only [full, Bool.and_eq_false_iff, decide_eq_false_iff_not] at hroom
      show s.queue.length < s.config.queueMax
      have : 0 < s.config.queueMax := hpos
      omega
  · rw [heq]
    have hhead : s.queue.head? = some dropped := by
      rw [show s.queue = dropped :: queue from hqueue]
      rfl
    obtain ⟨hlast, hfree⟩ := hdrop dropped hhead hfull
    have hmem : ∀ item ∈ queue, item ∈ s.queue := by
      intro item' hitem'
      rw [show s.queue = dropped :: queue from hqueue]
      exact List.mem_cons_of_mem _ hitem'
    unfold deadLetterQueueFull
    apply put_inv
    · rw [maybeDeadLetter_accepted]
      intro p hp
      rcases List.mem_cons.mp hp with rfl | hp
      · exact Or.inl rfl
      · exact Or.inr (evict_safe hqueue hlast (fun f hf hname => hfree f hf hname p hp)
          (h.safe p hp))
    · rw [maybeDeadLetter_tasks, maybeDeadLetter_attempts]
      exact h.logged
    · rw [maybeDeadLetter_queue]
      exact fun item' hitem' => h.first item' (hmem item' hitem')
    · exact hitem
    · rw [maybeDeadLetter_tasks]
      exact h.counted
    · rw [maybeDeadLetter_queue, maybeDeadLetter_config]
      intro hpos
      have hbound := h.bounded hpos
      rw [show s.queue = dropped :: queue from hqueue, List.length_cons] at hbound
      exact hbound

theorem turn_inv (h : LossInv s) {alert : Alert} {name : Str} {names : List Str} {utc : Timestamp}
    (hrow : s.row = some (alert, name :: names)) (hok : s.Meets ops (.turn utc)) :
    LossInv (s.turn ops alert name utc) := by
  unfold turn
  cases hwants : s.wants ops alert name with
  | none => exact h
  | some cfg =>
    apply enqueueItem_inv h
    · rfl
    · intro dropped hdropped hfull
      apply hok dropped
      unfold evicts
      rw [hrow]
      simp only [hwants, hfull, Option.isSome_some, Bool.and_self, if_true]
      exact hdropped

section Tasks

variable {i : Nat} {t : Task}

/-- A task goes on with its pair. -/
theorem set_inv (h : LossInv s) (ht : s.tasks[i]? = some t) (t' : Task)
    (hpair : t'.item.pair = t.item.pair)
    (hcount : t'.item.attempt ≤ t'.item.config.maxRetries + 1)
    (hlogged : ∀ outcome, t'.stage = .persisting outcome → ⟨t'.item.pair, outcome⟩ ∈ u.attempts)
    (hqueue : u.queue = s.queue) (htasks : u.tasks = s.tasks.set i t')
    (hattempts : ∀ a ∈ s.attempts, a ∈ u.attempts) (hfiles : u.files = s.files)
    (hconfig : u.config = s.config) (haccepted : u.accepted = s.accepted) : LossInv u where
  safe := by
    intro p hp
    rw [haccepted] at hp
    rcases h.safe p hp with hpending | ⟨a, ha, hdelivered⟩ | hdead
    · exact Or.inl (pending_set ht hpair hqueue htasks hpending)
    · exact Or.inr (Or.inl ⟨a, hattempts a ha, hdelivered⟩)
    · refine Or.inr (Or.inr ?_)
      unfold DeadLettered
      rw [hfiles]
      exact hdead
  logged := by
    intro t₁ ht₁ outcome hstage
    rw [htasks] at ht₁
    rcases List.mem_or_eq_of_mem_set ht₁ with ht₁ | rfl
    · exact hattempts _ (h.logged t₁ ht₁ outcome hstage)
    · exact hlogged outcome hstage
  first := by
    rw [hqueue]
    exact h.first
  counted := by
    intro t₁ ht₁
    rw [htasks] at ht₁
    rcases List.mem_or_eq_of_mem_set ht₁ with ht₁ | rfl
    · exact h.counted t₁ ht₁
    · exact hcount
  bounded := by
    rw [hqueue, hconfig]
    exact h.bounded

/-- A task ends with its pair delivered or recorded. -/
theorem end_inv (h : LossInv s) (ht : s.tasks[i]? = some t) (hqueue : u.queue = s.queue)
    (htasks : u.tasks = s.tasks.eraseIdx i) (hattempts : u.attempts = s.attempts)
    (hconfig : u.config = s.config) (haccepted : u.accepted = s.accepted)
    (hfiles : ∀ q ∈ s.accepted, s.DeadLettered q → u.DeadLettered q)
    (hend : u.Delivered t.item.pair ∨ u.DeadLettered t.item.pair) : LossInv u where
  safe := by
    intro p hp
    rw [haccepted] at hp
    exact safe_of_end ht hqueue htasks hattempts (hfiles p hp) hend (h.safe p hp)
  logged := by
    rw [htasks, hattempts]
    exact fun t₁ ht₁ => h.logged t₁ (List.mem_of_mem_eraseIdx ht₁)
  first := by
    rw [hqueue]
    exact h.first
  counted := by
    rw [htasks]
    exact fun t₁ ht₁ => h.counted t₁ (List.mem_of_mem_eraseIdx ht₁)
  bounded := by
    rw [hqueue, hconfig]
    exact h.bounded

/-- A successful attempt of a task is in the log. -/
theorem delivered_of_logged (h : LossInv s) (ht : s.tasks[i]? = some t)
    (hstage : t.stage = .persisting outcome) (hok : Successful outcome.result)
    (hattempts : u.attempts = s.attempts) : u.Delivered t.item.pair := by
  refine ⟨⟨t.item.pair, outcome⟩, ?_, rfl, hok⟩
  rw [hattempts]
  exact h.logged t (List.mem_of_getElem? ht) outcome hstage

/-- The end of a task whose last attempt failed or is `dead_lettered`. -/
theorem giveUp_inv (h : LossInv s) (ht : s.tasks[i]? = some t)
    (hstage : t.stage = .persisting outcome) (rows : List SoarDelivery)
    (hok : Successful outcome.result ∨
      (Recordable outcome.result t.item.attempt t.item.config.maxRetries ∧
        s.Free (fileName outcome.result.attemptedAt t.item.alert.id) t.item.pair)) :
    LossInv ((maybeDeadLetter ops { s with rows } t.item outcome t.item.attempt).finish i
      t.item) := by
  rcases hok with hsuccess | ⟨hrecord, hfree⟩
  · have hsame : maybeDeadLetter ops { s with rows } t.item outcome t.item.attempt =
        { s with rows } := by
      unfold maybeDeadLetter
      rw [candidate_of_successful hsuccess]
      rfl
    rw [hsame]
    exact end_inv h ht rfl rfl rfl rfl rfl (fun _ _ hdead => hdead)
      (Or.inl (delivered_of_logged h ht hstage hsuccess rfl))
  · apply end_inv h ht
    · exact maybeDeadLetter_queue _
    · exact congrArg (·.eraseIdx i) (maybeDeadLetter_tasks _)
    · exact maybeDeadLetter_attempts _
    · exact maybeDeadLetter_config _
    · exact maybeDeadLetter_accepted _
    · intro q hq hdead
      exact maybeDeadLetter_keeps _ (fun f hf hname => hfree f hf hname q hq) hdead
    · exact Or.inr (maybeDeadLetter_records hrecord)

theorem afterAttempt_inv (h : LossInv s) (ht : s.tasks[i]? = some t)
    (hstage : t.stage = .persisting outcome) (rows : List SoarDelivery)
    (hok : s.Covered true t) :
    LossInv (afterAttempt ops { s with rows } i t.item outcome) := by
  unfold Covered at hok
  rw [hstage] at hok
  unfold afterAttempt
  dsimp only
  split
  · rename_i hdead
    apply giveUp_inv h ht hstage
    rcases hok with hsuccess | ⟨_, hfinal⟩
    · exact Or.inl hsuccess
    · exact Or.inr (hfinal (Or.inl hdead))
  · split
    · rename_i hsuccess
      exact end_inv h ht rfl rfl rfl rfl rfl (fun _ _ hdead => hdead)
        (Or.inl (delivered_of_logged h ht hstage hsuccess rfl))
    · rename_i hfailed
      split
      · rename_i hlast
        apply giveUp_inv h ht hstage
        rcases hok with hsuccess | ⟨_, hfinal⟩
        · exact Or.inl hsuccess
        · exact Or.inr (hfinal (Or.inr hlast))
      · rename_i hretry
        refine set_inv h ht ⟨{ t.item with
          attempt := t.item.attempt + 1
          nextEligibleAt := s.now + backoff t.item.attempt * second }, .looping⟩ rfl ?_ nofun
          rfl rfl (fun _ ha => ha) rfl rfl rfl
        show t.item.attempt + 1 ≤ t.item.config.maxRetries + 1
        omega

theorem taskMove_inv (h : LossInv s) {a : SoarAct} (ht : s.tasks[i]? = some t)
    (hmove : TaskMove ops s i t a u) (hok : ∀ j saved, a = .persist j saved → s.Covered saved t) :
    LossInv u := by
  have hcount := h.counted t (List.mem_of_getElem? ht)
  cases hmove with
  | acquire j stage =>
    exact set_inv h ht ⟨t.item, .looping⟩ rfl hcount nofun rfl rfl (fun _ ha => ha) rfl rfl rfl
  | exhausted j past => omega
  | loop j =>
    exact set_inv h ht ⟨t.item, .delivering⟩ rfl hcount nofun rfl rfl (fun _ ha => ha) rfl rfl rfl
  | deliver j reply outcome =>
    refine set_inv h ht ⟨t.item, .persisting outcome⟩ rfl hcount ?_ rfl rfl
      (fun _ ha => List.mem_cons_of_mem _ ha) rfl rfl rfl
    intro outcome' hstage
    cases hstage
    exact List.mem_cons_self
  | unsaved j outcome stage =>
    have hcovered := hok j false rfl
    unfold Covered at hcovered
    rw [stage] at hcovered
    rcases hcovered with hsuccess | ⟨hsaved, _⟩
    · exact end_inv h ht rfl rfl rfl rfl rfl (fun _ _ hdead => hdead)
        (Or.inl (delivered_of_logged h ht stage hsuccess rfl))
    · cases hsaved
  | saved j outcome stage => exact afterAttempt_inv h ht stage _ (hok j true rfl)

end Tasks

theorem drain_inv (h : LossInv s) (n : Nat) : LossInv { s with
    queue := s.queue.drop n
    tasks := s.tasks ++ (s.queue.take n).map fun item => ⟨item, .waiting⟩ } where
  safe := by
    intro p hp
    rcases h.safe p hp with (⟨item, hitem, hpair⟩ | ⟨t, ht, hpair⟩) | hdone
    · rw [← List.take_append_drop n s.queue] at hitem
      rcases List.mem_append.mp hitem with hitem | hitem
      · refine Or.inl (Or.inr ⟨⟨item, .waiting⟩, ?_, hpair⟩)
        exact List.mem_append_right _ (List.mem_map_of_mem hitem)
      · exact Or.inl (Or.inl ⟨item, hitem, hpair⟩)
    · exact Or.inl (Or.inr ⟨t, List.mem_append_left _ ht, hpair⟩)
    · exact Or.inr hdone
  logged := by
    intro t ht outcome hstage
    rcases List.mem_append.mp ht with ht | ht
    · exact h.logged t ht outcome hstage
    · obtain ⟨item, _, rfl⟩ := List.mem_map.mp ht
      cases hstage
  first := fun item hitem => h.first item (List.mem_of_mem_drop hitem)
  counted := by
    intro t ht
    rcases List.mem_append.mp ht with ht | ht
    · exact h.counted t ht
    · obtain ⟨item, hitem, rfl⟩ := List.mem_map.mp ht
      have := h.first item (List.mem_of_mem_take hitem)
      show item.attempt ≤ item.config.maxRetries + 1
      omega
  bounded := by
    intro hpos
    have := h.bounded hpos
    show (s.queue.drop n).length ≤ s.config.queueMax
    rw [List.length_drop]
    omega

theorem step_inv {a : SoarAct} (h : LossInv s) (hok : s.Meets ops a)
    (hstep : s.step ops a = some u) : LossInv u := by
  cases step_move hstep with
  | wait d => exact ⟨h.safe, h.logged, h.first, h.counted, h.bounded⟩
  | seen row => exact h
  | poll row => exact ⟨h.safe, h.logged, h.first, h.counted, h.bounded⟩
  | turn utc alert name names row =>
    have hturn := turn_inv h row hok
    exact ⟨hturn.safe, hturn.logged, hturn.first, hturn.counted, hturn.bounded⟩
  | turned utc => exact ⟨h.safe, h.logged, h.first, h.counted, h.bounded⟩
  | drain => exact drain_inv h _
  | task i t _ _ found moves at_i =>
    apply taskMove_inv h found moves
    intro j saved heq
    subst heq
    obtain rfl := at_i j saved rfl
    exact hok t found

end SoarWorker

/-- In every run whose steps meet the condition, every accepted pair whose processing is over has
been delivered or has a dead letter. -/
theorem no_silent_loss (ops : SoarOps) (config : SoarConfig) (now : Int)
    (files : List (Str × Json)) (acts : List SoarAct) (s : SoarWorker)
    (h : Run (SoarWorker.step ops) (SoarWorker.Meets ops) (SoarWorker.start config now files)
      acts s) :
    s.NoSilentLoss := by
  have hinv : SoarWorker.LossInv s := h.invariant (I := SoarWorker.LossInv)
    (SoarWorker.start_inv config now files) fun _ _ _ ht hok hu => SoarWorker.step_inv ht hok hu
  intro p hp hover
  rcases hinv.safe p hp with hpending | hdone
  · exact absurd hpending hover
  · exact hdone

/-! ## Concrete runs -/

/-- `json.dumps` of the dead letter of the run below. -/
def letterText : Str :=
  (String.intercalate "\n" [
    "\x7b",
    "  \"alert\": \x7b",
    "    \"detector\": \"ssh_bruteforce\",",
    "    \"evidence\": null,",
    "    \"host_id\": \"00000000-0000-0000-0000-000000000007\",",
    "    \"id\": \"00000000-0000-0000-0000-000000000001\",",
    "    \"metadata\": \x7b\x7d,",
    "    \"severity\": \"high\",",
    "    \"summary\": \"SSH brute-force\",",
    "    \"tags\": []",
    "  \x7d,",
    "  \"attempt\": 1,",
    "  \"backend\": \"slack\",",
    "  \"error\": \"http 404: no_service\",",
    "  \"payload_sha256\": \"0000000000000000000000000000000000000000000000000000000000000000\",",
    "  \"status_code\": 404,",
    "  \"ts\": \"2026-01-02T03:04:05+00:00\"",
    "\x7d"]).toList

def sampleOps : SoarOps where
  finalSigma _ _ := false
  reprJson _ := []
  dumps _ := letterText

/-- One configured backend, with the default number of retries. -/
def sampleConfig : SoarConfig where
  queueMax := 1
  backends := [("slack".toList, ⟨true, 60, "medium".toList, [], 5⟩)]
  registry := ["generic_webhook", "slack", "discord", "pagerduty", "thehive", "jira"].map
    String.toList

def sampleTime : Timestamp := ⟨UtcTime.sample, 0, Timestamp.zero_micros⟩

def sampleRow (id : Uuid) : AlertRow :=
  ⟨id, some 7#128, "ssh_bruteforce".toList, "high".toList, "SSH brute-force".toList, .obj []⟩

/-- The poller takes a row and looks at the six backends. -/
def pollRow (id : Uuid) : List SoarAct :=
  .poll (sampleRow id) :: List.replicate 7 (.turn sampleTime)

/-- A thousand seconds after the start of the clock, with an empty directory. -/
def sampleStart : SoarWorker := .start sampleConfig 1000000000000 []

/-- The answer 404 of the backend to the only attempt. -/
def notFound : DeliverOutcome where
  result := ⟨"slack".toList, uuidStr 1#128, 404, sampleTime, 3, some "http 404: no_service".toList,
    true⟩
  payloadSha256 := List.replicate 64 '0'

theorem no_silent_loss_not_found :
    ∃ s, Run (SoarWorker.step sampleOps) (SoarWorker.Meets sampleOps) sampleStart
        (pollRow 1#128 ++ [.drain, .acquire 0, .loop 0, .deliver 0 (.ok notFound), .persist 0 true])
        s ∧
      s.accepted = [(uuidStr 1#128, "slack".toList)] ∧ s.queue.length = 0 ∧ s.tasks.length = 0 ∧
      s.NoSilentLoss := by
  have hcheck : ∃ s, Run (SoarWorker.step sampleOps) (SoarWorker.Meets sampleOps) sampleStart
      (pollRow 1#128 ++ [.drain, .acquire 0, .loop 0, .deliver 0 (.ok notFound), .persist 0 true])
      s ∧ decide (s.accepted = [(uuidStr 1#128, "slack".toList)] ∧ s.queue.length = 0 ∧
        s.tasks.length = 0) = true :=
    run_of_guarded_check (by decide +kernel)
  obtain ⟨s, hrun, hs⟩ := hcheck
  obtain ⟨haccepted, hqueue, htasks⟩ := of_decide_eq_true hs
  exact ⟨s, hrun, haccepted, hqueue, htasks,
    no_silent_loss sampleOps sampleConfig 1000000000000 [] _ s hrun⟩

/-- Two alerts and a queue of one place: the first one leaves the queue for the second, and no file
is written for it. -/
theorem evicted_without_letter :
    ∃ s, AnyRun (SoarWorker.step sampleOps) sampleStart (pollRow 1#128 ++ pollRow 2#128) s ∧
      s.files.length = 0 ∧ ¬ s.NoSilentLoss := by
  have hcheck : ∃ s, AnyRun (SoarWorker.step sampleOps) sampleStart
      (pollRow 1#128 ++ pollRow 2#128) s ∧
      decide (s.files.length = 0 ∧ ¬ s.NoSilentLoss) = true :=
    run_of_check (by decide +kernel)
  obtain ⟨s, hrun, hs⟩ := hcheck
  exact ⟨s, hrun, of_decide_eq_true hs⟩

end ZaqorinCore.Server.Soar
