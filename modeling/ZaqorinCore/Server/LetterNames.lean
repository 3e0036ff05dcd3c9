import ZaqorinCore.Server.DeadLetters

/-!
# The names of the dead letters

A letter's name has the second of the last attempt and eight hex digits of the alert's id, and
nothing of the backend: an alert that two backends refuse in one second leaves one file. The ledger
keeps every letter that the worker writes beside the worker, so that what the directory has lost can
be said. `one_entry_each` is the promise for the runs in which no two pairs meet in a name.
-/

namespace ZaqorinCore.Server.Soar

open Text Base

/-! ## Letters -/

deriving instance DecidableEq for UtcTime, Timestamp, Alert, BackendConfig, PendingDelivery,
  DeliveryResult, DeliverOutcome

/-- A delivery that the worker gives up with a dead letter. -/
structure GivenUp where
  item : PendingDelivery
  outcome : DeliverOutcome
  attempt : Nat
  deriving DecidableEq

namespace GivenUp

def pair (g : GivenUp) : Str × Str := g.item.pair

def name (g : GivenUp) : Str := letterName g.item g.outcome

def body (ops : SoarOps) (g : GivenUp) : Json := deadLetterBody ops g.item g.outcome g.attempt

/-- The second of the attempt. -/
def second (g : GivenUp) : Nat × Nat × Nat × Nat × Nat × Nat :=
  let utc := g.outcome.result.attemptedAt.utc
  (utc.year, utc.month, utc.day, utc.hour, utc.minute, utc.second)

/-- The digits of the alert's id in the name. -/
def short (g : GivenUp) : Str := shortId g.item.alert.id

end GivenUp

/-- The letter of `_maybe_dead_letter`. -/
def recorded (item : PendingDelivery) (outcome : DeliverOutcome) (attempt : Nat) : List GivenUp :=
  if isDeadLetterCandidate outcome.result attempt item.config then [⟨item, outcome, attempt⟩] else []

/-- The letters for a queue that is full. -/
def SoarWorker.overflow (s : SoarWorker) (item : PendingDelivery) (utc : Timestamp) :
    List GivenUp :=
  if !s.full then []
  else
    match s.queue with
    | dropped :: queue =>
      recorded dropped (queueFullOutcome dropped utc) dropped.attempt ++
        if !{ s with queue }.full then []
        else recorded item (queueFullOutcome item utc) item.attempt
    | [] => recorded item (queueFullOutcome item utc) item.attempt

/-- The letter after an attempt that is stored. -/
def ended (item : PendingDelivery) (outcome : DeliverOutcome) : List GivenUp :=
  let result := outcome.result
  if result.deadLettered then recorded item outcome item.attempt
  else if 200 ≤ result.statusCode ∧ result.statusCode < 400 then []
  else if item.config.maxRetries < item.attempt then recorded item outcome item.attempt
  else []

/-- The letters that a step writes, the first one first. -/
def SoarWorker.gaveUp (ops : SoarOps) (s : SoarWorker) : SoarAct → List GivenUp
  | .turn utc =>
    match s.row with
    | some (alert, name :: _) =>
      match s.wants ops alert name with
      | some cfg => s.overflow ⟨alert, name, cfg, 1, s.now⟩ utc
      | none => []
    | _ => []
  | .persist i saved =>
    match s.tasks[i]? with
    | some ⟨item, .persisting outcome⟩ => if saved then ended item outcome else []
    | _ => []
  | _ => []

/-- The directory after a letter. -/
def writeLetter (ops : SoarOps) (files : List (Str × Json)) (g : GivenUp) : List (Str × Json) :=
  (g.name, g.body ops) :: files.filter fun f => f.1 != g.name

/-- The directory after letters. -/
def writeLetters (ops : SoarOps) (files : List (Str × Json)) (letters : List GivenUp) :
    List (Str × Json) :=
  letters.foldl (writeLetter ops) files

/-! ## What a step does to the directory -/

section Files

variable {ops : SoarOps} {s u : SoarWorker} {item : PendingDelivery} {outcome : DeliverOutcome}

theorem files_maybeDeadLetter (attempt : Nat) :
    (s.maybeDeadLetter ops item outcome attempt).files =
      writeLetters ops s.files (recorded item outcome attempt) := by
  unfold SoarWorker.maybeDeadLetter recorded
  split
  · rfl
  · rfl

theorem full_maybeDeadLetter (attempt : Nat) :
    (s.maybeDeadLetter ops item outcome attempt).full = s.full := by
  unfold SoarWorker.full
  rw [SoarWorker.maybeDeadLetter_config, SoarWorker.maybeDeadLetter_queue]

theorem files_enqueueItem (utc : Timestamp) :
    (s.enqueueItem ops item utc).files = writeLetters ops s.files (s.overflow item utc) := by
  unfold SoarWorker.enqueueItem SoarWorker.overflow
  cases hfull : s.full with
  | false => rfl
  | true =>
    simp only [Bool.not_true, Bool.false_eq_true, if_false]
    cases hqueue : s.queue with
    | nil =>
      simp only [hfull, Bool.not_true, Bool.false_eq_true, if_false]
      exact files_maybeDeadLetter item.attempt
    | cons dropped queue =>
      simp only [SoarWorker.deadLetterQueueFull, full_maybeDeadLetter]
      cases hroom : SoarWorker.full { s with queue } with
      | false =>
        simp only [Bool.not_false, if_true, List.append_nil]
        exact files_maybeDeadLetter dropped.attempt
      | true =>
        simp only [Bool.not_true, Bool.false_eq_true, if_false]
        rw [files_maybeDeadLetter, files_maybeDeadLetter, writeLetters, writeLetters, writeLetters,
          List.foldl_append]

theorem files_afterAttempt (i : Nat) : (s.afterAttempt ops i item outcome).files =
    writeLetters ops s.files (ended item outcome) := by
  unfold SoarWorker.afterAttempt ended
  dsimp only
  split
  · exact files_maybeDeadLetter item.attempt
  · split
    · rfl
    · split
      · exact files_maybeDeadLetter item.attempt
      · rfl

/-- A step writes the letters of what it gives up, and no other file. -/
theorem step_files {a : SoarAct} (h : s.step ops a = some u) :
    u.files = writeLetters ops s.files (s.gaveUp ops a) := by
  unfold SoarWorker.step at h
  split at h
  · rename_i alert name names utc hrow
    cases h
    simp only [SoarWorker.gaveUp, hrow, SoarWorker.turn]
    cases hwants : s.wants ops alert name with
    | none => rfl
    | some cfg => exact files_enqueueItem utc
  · rename_i hrow
    cases h
    simp only [SoarWorker.gaveUp, hrow]
    rfl
  · cases h
    rfl
  · dsimp only at h
    split at h <;> cases h <;> rfl
  · cases h
    rfl
  · obtain ⟨t, ht, hstep⟩ := Option.bind_eq_some_iff.mp h
    cases SoarWorker.taskStep_move hstep
    rfl
  · obtain ⟨t, ht, hstep⟩ := Option.bind_eq_some_iff.mp h
    cases SoarWorker.taskStep_move hstep <;> rfl
  · obtain ⟨t, ht, hstep⟩ := Option.bind_eq_some_iff.mp h
    cases SoarWorker.taskStep_move hstep
    rfl
  · obtain ⟨t, ht, hstep⟩ := Option.bind_eq_some_iff.mp h
    obtain ⟨item, stage⟩ := t
    cases SoarWorker.taskStep_move hstep with
    | unsaved _ outcome hstage =>
      cases hstage
      simp only [SoarWorker.gaveUp, ht]
      rfl
    | saved _ outcome hstage =>
      cases hstage
      simp only [SoarWorker.gaveUp, ht, if_true]
      exact files_afterAttempt _
  · cases h

end Files

/-! ## What a name tells -/

theorem digitChar_injective {m n : Nat} (hm : m < 10) (hn : n < 10)
    (h : Nat.digitChar m = Nat.digitChar n) : m = n := by
  have hm16 : m % 16 = m := Nat.mod_eq_of_lt (by omega)
  have hn16 : n % 16 = n := Nat.mod_eq_of_lt (by omega)
  have hdigit : hexDigit m = hexDigit n := by
    unfold hexDigit
    rw [hm16, hn16, h]
  have hmod := hexDigit_injective hdigit
  omega

theorem padded_injective {w m n : Nat} (hm : m < 10 ^ w) (hn : n < 10 ^ w)
    (h : padded w m = padded w n) : m = n := by
  induction w generalizing m n with
  | zero =>
    rw [pow_zero] at hm hn
    omega
  | succ w ih =>
    have hsplit := List.append_inj' h rfl
    have hhigh := ih (by rw [pow_succ] at hm; omega) (by rw [pow_succ] at hn; omega) hsplit.1
    have hlow := digitChar_injective (Nat.mod_lt _ (by omega)) (Nat.mod_lt _ (by omega))
      (List.singleton_inj.mp hsplit.2)
    omega

/-- The last two digits of a longer numeral. -/
theorem cut_padded {a b : Str} {m n : Nat} (hm : m < 100) (hn : n < 100)
    (h : a ++ padded 2 m = b ++ padded 2 n) : a = b ∧ m = n := by
  obtain ⟨hab, hmn⟩ := List.append_inj' h (by rw [padded_length, padded_length])
  exact ⟨hab, padded_injective (by omega) (by omega) hmn⟩

theorem letter_not_mem_padded {c : Char} (hc : c.isDigit = false) (w n : Nat) : c ∉ padded w n := by
  intro hmem
  rw [mem_padded hmem] at hc
  exact absurd hc (by decide)

theorem letter_not_mem_itoa {c : Char} (hc : c.isDigit = false) (n : Nat) : c ∉ itoa (n : Int) := by
  intro hmem
  have hdigit : c.isDigit = true := isDigit_of_mem_toDigits hmem
  rw [hdigit] at hc
  exact absurd hc (by decide)

theorem days_lt (t : UtcTime) : t.day < 100 := by
  have hday := t.day_valid
  have hbound : daysIn t.month t.year ≤ 31 := by
    unfold daysIn
    split <;> try split
    all_goals omega
  omega

theorem stamp_injective {t t' : Timestamp} (h : t.stamp = t'.stamp) :
    (t.utc.year, t.utc.month, t.utc.day, t.utc.hour, t.utc.minute, t.utc.second) =
      (t'.utc.year, t'.utc.month, t'.utc.day, t'.utc.hour, t'.utc.minute, t'.utc.second) := by
  have hmonth := t.utc.month_valid
  have hmonth' := t'.utc.month_valid
  have hclock := t.utc.clock_valid
  have hclock' := t'.utc.clock_valid
  have hday := days_lt t.utc
  have hday' := days_lt t'.utc
  have hfree : ∀ u : Timestamp,
      'T' ∉ itoa u.utc.year ++ padded 2 u.utc.month ++ padded 2 u.utc.day := by
    intro u
    simp only [List.mem_append, not_or]
    exact ⟨⟨letter_not_mem_itoa (by decide) _, letter_not_mem_padded (by decide) _ _⟩,
      letter_not_mem_padded (by decide) _ _⟩
  have hsplit : (itoa t.utc.year ++ padded 2 t.utc.month ++ padded 2 t.utc.day) ++ 'T' ::
        (padded 2 t.utc.hour ++ padded 2 t.utc.minute ++ padded 2 t.utc.second ++ ['Z']) =
      (itoa t'.utc.year ++ padded 2 t'.utc.month ++ padded 2 t'.utc.day) ++ 'T' ::
        (padded 2 t'.utc.hour ++ padded 2 t'.utc.minute ++ padded 2 t'.utc.second ++ ['Z']) := by
    simpa [Timestamp.stamp] using h
  obtain ⟨hdate, htime⟩ := cut_first (hfree t) (hfree t') hsplit
  obtain ⟨hdate, hd⟩ := cut_padded hday hday' hdate
  obtain ⟨hdate, hm⟩ := cut_padded (by omega) (by omega) hdate
  have hy : t.utc.year = t'.utc.year := by
    have := itoa_injective hdate
    omega
  have htime := List.append_cancel_right htime
  obtain ⟨htime, hs⟩ := cut_padded (by omega) (by omega) htime
  obtain ⟨htime, hmin⟩ := cut_padded (by omega) (by omega) htime
  have hh := padded_injective (by omega) (by omega) htime
  rw [hy, hm, hd, hh, hmin, hs]

theorem dash_not_mem_stamp (t : Timestamp) : '-' ∉ t.stamp := by
  simp only [Timestamp.stamp, List.mem_append, List.mem_cons, List.not_mem_nil, or_false, not_or]
  have hpad : ∀ n, '-' ∉ padded 2 n := letter_not_mem_padded (by decide) 2
  exact ⟨⟨⟨⟨⟨⟨letter_not_mem_itoa (by decide) _, hpad _⟩, hpad _⟩, by decide, hpad _⟩, hpad _⟩,
    hpad _⟩, by decide⟩

/-- Letters of one name are of one second and of ids with the same eight digits. -/
theorem name_injective {g g' : GivenUp} (h : g.name = g'.name) :
    g.second = g'.second ∧ g.short = g'.short := by
  unfold GivenUp.name letterName at h
  rw [fileName_eq, fileName_eq] at h
  obtain ⟨hstamp, hshort⟩ := cut_first (dash_not_mem_stamp _) (dash_not_mem_stamp _)
    (List.append_cancel_right h)
  exact ⟨stamp_injective hstamp, hshort⟩

/-! ## The ledger -/

/-- The worker beside every letter that it has written, the last one first. -/
structure Ledger where
  worker : SoarWorker
  letters : List GivenUp

def Ledger.start (config : SoarConfig) (now : Int) (files : List (Str × Json)) : Ledger :=
  ⟨.start config now files, []⟩

def Ledger.step (ops : SoarOps) (l : Ledger) (a : SoarAct) : Option Ledger :=
  (l.worker.step ops a).map fun u => ⟨u, (l.worker.gaveUp ops a).reverse ++ l.letters⟩

/-- The directory as the file system has it. -/
def SoarWorker.letterDir (ops : SoarOps) (base : Str) (s : SoarWorker) : LetterDir :=
  ⟨base, s.files.map fun f => (f.1, utf8 (ops.dumps f.2))⟩

/-- Letters of different pairs have different files, and the list has an entry for each pair that
was given up. -/
structure OneEntryEach (ops : LetterOps) (base : Str) (l : Ledger) : Prop where
  apart : ∀ g ∈ l.letters, ∀ g' ∈ l.letters, g.pair ≠ g'.pair → g.name ≠ g'.name
  listed : ∃ entries, (l.worker.letterDir ops.toSoarOps base).listDeadLetters ops = .ok entries ∧
    ∀ g ∈ l.letters, ∃ entry ∈ entries,
      field entry "_file" = some (.str g.name) ∧ letterPair (.obj entry) = some g.pair

/-- Whatever the step gives up differs in the second or in the eight digits from the letters of
other pairs. -/
def Apart (ops : SoarOps) (l : Ledger) (a : SoarAct) : Prop :=
  ∀ w ∈ l.worker.gaveUp ops a, ∀ g ∈ l.worker.gaveUp ops a ++ l.letters, g.pair ≠ w.pair →
    g.second ≠ w.second ∨ g.short ≠ w.short

instance (ops : SoarOps) (l : Ledger) (a : SoarAct) : Decidable (Apart ops l a) :=
  inferInstanceAs (Decidable (∀ w ∈ l.worker.gaveUp ops a, ∀ g ∈ _, _ → _ ∨ _))

/-- The file of a name. -/
def fileOf (files : List (Str × Json)) (name : Str) : Option Json :=
  (files.find? fun f => f.1 == name).map Prod.snd

section Writing

variable {ops : SoarOps} {files : List (Str × Json)} {g w : GivenUp}

theorem fileOf_writeLetter_self : fileOf (writeLetter ops files g) g.name = some (g.body ops) := by
  simp [fileOf, writeLetter]

theorem fileOf_writeLetter {name : Str} (h : name ≠ w.name) :
    fileOf (writeLetter ops files w) name = fileOf files name := by
  have hne : ¬ (w.name == name) = true := by simpa using Ne.symm h
  unfold fileOf writeLetter
  rw [List.find?_cons_of_neg (p := fun f : Str × Json => f.1 == name) hne, List.find?_filter]
  congr 2
  funext f
  by_cases hf : f.1 = name
  · simp [hf, h]
  · simp [hf]

/-- The directory holds a letter of its pair under every name of the ledger. -/
def Kept (ops : SoarOps) (letters : List GivenUp) (files : List (Str × Json)) : Prop :=
  ∀ g ∈ letters, ∃ g' ∈ letters, g'.pair = g.pair ∧ g'.name = g.name ∧
    fileOf files g.name = some (g'.body ops)

theorem kept_writeLetter {letters : List GivenUp} (h : Kept ops letters files)
    (hw : ∀ g ∈ letters, g.name = w.name → g.pair = w.pair) :
    Kept ops (w :: letters) (writeLetter ops files w) := by
  intro g hg
  by_cases hname : g.name = w.name
  · have hpair : g.pair = w.pair := by
      rcases List.mem_cons.mp hg with rfl | hold
      · rfl
      · exact hw g hold hname
    refine ⟨w, List.mem_cons_self, hpair.symm, hname.symm, ?_⟩
    rw [hname, fileOf_writeLetter_self]
  · rcases List.mem_cons.mp hg with rfl | hold
    · exact absurd rfl hname
    · obtain ⟨g', hg', hpair, hsame, hfile⟩ := h g hold
      refine ⟨g', List.mem_cons_of_mem _ hg', hpair, hsame, ?_⟩
      rw [fileOf_writeLetter hname, hfile]

theorem kept_writeLetters {letters new : List GivenUp} (h : Kept ops letters files)
    (hnew : ∀ w ∈ new, ∀ g ∈ new ++ letters, g.name = w.name → g.pair = w.pair) :
    Kept ops (new.reverse ++ letters) (writeLetters ops files new) := by
  induction new generalizing letters files with
  | nil => exact h
  | cons w rest ih =>
    rw [List.reverse_cons, List.append_assoc]
    apply ih (kept_writeLetter h ?_)
    · intro v hv g hg hname
      refine hnew v (List.mem_cons_of_mem _ hv) g ?_ hname
      rcases List.mem_append.mp hg with hrest | hcons
      · exact List.mem_append_left _ (List.mem_cons_of_mem _ hrest)
      · rcases List.mem_cons.mp hcons with rfl | hold
        · exact List.mem_append_left _ List.mem_cons_self
        · exact List.mem_append_right _ hold
    · intro g hg hname
      exact hnew w List.mem_cons_self g (List.mem_append_right _ hg) hname

theorem mem_writeLetters {new : List GivenUp} {f : Str × Json}
    (h : f ∈ writeLetters ops files new) : f ∈ files ∨ ∃ g ∈ new, f = (g.name, g.body ops) := by
  induction new generalizing files with
  | nil => exact Or.inl h
  | cons w rest ih =>
    rcases ih h with hfirst | ⟨g, hg, rfl⟩
    · rcases List.mem_cons.mp hfirst with rfl | hold
      · exact Or.inr ⟨w, List.mem_cons_self, rfl⟩
      · exact Or.inl (List.mem_of_mem_filter hold)
    · exact Or.inr ⟨g, List.mem_cons_of_mem _ hg, rfl⟩

end Writing

/-! ## Runs -/

/-- The directory is what the letters of the ledger make of it. -/
theorem Ledger.files_of_run {ops : SoarOps} {ok : Ledger → SoarAct → Prop} {config : SoarConfig}
    {now : Int} {files : List (Str × Json)} {as : List SoarAct} {l : Ledger}
    (hrun : Run (Ledger.step ops) ok (.start config now files) as l) :
    l.worker.files = writeLetters ops files l.letters.reverse := by
  refine hrun.invariant (I := fun l => l.worker.files = writeLetters ops files l.letters.reverse)
    rfl ?_
  intro l a l' h _ hstep
  obtain ⟨u, hu, rfl⟩ := Option.map_eq_some_iff.mp hstep
  rw [step_files hu, h, writeLetters, writeLetters, writeLetters, List.reverse_append,
    List.reverse_reverse, List.foldl_append]

structure LedgerInv (ops : SoarOps) (l : Ledger) : Prop where
  apart : ∀ g ∈ l.letters, ∀ g' ∈ l.letters, g.name = g'.name → g.pair = g'.pair
  kept : Kept ops l.letters l.worker.files
  objects : ∀ f ∈ l.worker.files, ∃ members, f.2 = .obj members

theorem Ledger.start_inv {ops : SoarOps} {config : SoarConfig} {now : Int}
    {files : List (Str × Json)} (hfiles : ∀ f ∈ files, ∃ members, f.2 = .obj members) :
    LedgerInv ops (.start config now files) where
  apart := fun _ hg => absurd hg List.not_mem_nil
  kept := fun _ hg => absurd hg List.not_mem_nil
  objects := hfiles

theorem Ledger.step_inv {ops : SoarOps} {l l' : Ledger} {a : SoarAct} (h : LedgerInv ops l)
    (hok : Apart ops l a) (hstep : l.step ops a = some l') : LedgerInv ops l' := by
  obtain ⟨u, hu, rfl⟩ := Option.map_eq_some_iff.mp hstep
  have hnew : ∀ w ∈ l.worker.gaveUp ops a, ∀ g ∈ l.worker.gaveUp ops a ++ l.letters,
      g.name = w.name → g.pair = w.pair := by
    intro w hw g hg hname
    by_contra hpair
    obtain ⟨hsecond, hshort⟩ := name_injective hname
    rcases hok w hw g hg hpair with hne | hne
    · exact hne hsecond
    · exact hne hshort
  constructor
  · intro g hg g' hg' hname
    simp only [List.mem_append, List.mem_reverse] at hg hg'
    rcases hg with hg | hg
    · exact (hnew g hg g' (List.mem_append.mpr hg') hname.symm).symm
    · rcases hg' with hg' | hg'
      · exact hnew g' hg' g (List.mem_append_right _ hg) hname
      · exact h.apart g hg g' hg' hname
  · rw [step_files hu]
    exact kept_writeLetters h.kept hnew
  · intro f hf
    rw [step_files hu] at hf
    rcases mem_writeLetters hf with hold | ⟨g, _, rfl⟩
    · exact h.objects f hold
    · exact ⟨_, rfl⟩

/-! ## The list -/

theorem mapM_ok {α β ε : Type} {f : α → Except ε β} {xs : List α} (h : ∀ x ∈ xs, ∃ y, f x = .ok y) :
    ∃ ys, xs.mapM f = .ok ys ∧ ∀ x ∈ xs, ∀ y, f x = .ok y → y ∈ ys := by
  induction xs with
  | nil => exact ⟨[], rfl, nofun⟩
  | cons x xs ih =>
    obtain ⟨y, hy⟩ := h x List.mem_cons_self
    obtain ⟨ys, hys, hall⟩ := ih fun x hx => h x (List.mem_cons_of_mem _ hx)
    refine ⟨y :: ys, ?_, ?_⟩
    · rw [List.mapM_cons, hy, hys]
      rfl
    · intro x' hx' y' hy'
      rcases List.mem_cons.mp hx' with rfl | hrest
      · rw [hy] at hy'
        cases hy'
        exact List.mem_cons_self
      · exact List.mem_cons_of_mem _ (hall x' hrest y' hy')

section Listing

variable {ops : LetterOps} {base : Str} {s : SoarWorker} {name : Str} {g : GivenUp}

theorem read_letterDir : (s.letterDir ops.toSoarOps base).read name =
    (fileOf s.files name).map fun v => utf8 (ops.dumps v) := by
  unfold LetterDir.read SoarWorker.letterDir fileOf
  rw [List.find?_map, Option.map_map, Option.map_map]
  rfl

theorem loadLetter_letterDir {members : List (Str × Json)}
    (hfile : fileOf s.files name = some (.obj members))
    (hjson : ops.load (utf8 (ops.dumps (.obj members))) = .ok (sortKeys (.obj members))) :
    (s.letterDir ops.toSoarOps base).loadLetter ops name =
      .ok (some ((s.letterDir ops.toSoarOps base).located name (sortMembers members))) := by
  unfold LetterDir.loadLetter
  rw [read_letterDir, hfile]
  simp only [Option.map_some, hjson, sortKeys]

theorem fileOf_mem {v : Json} (h : fileOf s.files name = some v) : (name, v) ∈ s.files := by
  obtain ⟨f, hf, rfl⟩ := Option.map_eq_some_iff.mp h
  have hname : f.1 = name := by simpa using List.find?_some hf
  rw [← hname]
  exact List.mem_of_find?_eq_some hf

theorem fileOf_of_mem {f : Str × Json} (h : f ∈ s.files) : ∃ v, fileOf s.files f.1 = some v := by
  unfold fileOf
  cases hfind : s.files.find? fun f' => f'.1 == f.1 with
  | none => exact absurd (List.find?_eq_none.mp hfind f h) (by simp)
  | some f' => exact ⟨f'.2, rfl⟩

theorem mem_newestFirst {names : List Str} : name ∈ LetterDir.newestFirst names ↔ name ∈ names :=
  (List.mergeSort_perm _ _).mem_iff

/-- The list has the letter of every file. -/
theorem listDeadLetters_ok (base : Str) (hobjects : ∀ f ∈ s.files, ∃ members, f.2 = .obj members)
    (hjson : ∀ f ∈ s.files, ops.load (utf8 (ops.dumps f.2)) = .ok (sortKeys f.2)) :
    ∃ entries, (s.letterDir ops.toSoarOps base).listDeadLetters ops = .ok entries ∧
      ∀ name members, fileOf s.files name = some (.obj members) →
        ops.fnmatch "*.json".toList name = true →
        (s.letterDir ops.toSoarOps base).located name (sortMembers members) ∈ entries := by
  have hnames : (s.letterDir ops.toSoarOps base).files.map Prod.fst = s.files.map Prod.fst := by
    simp [SoarWorker.letterDir, Function.comp_def]
  have hload : ∀ name ∈ LetterDir.newestFirst ((s.letterDir ops.toSoarOps base).glob ops
      "*.json".toList), ∃ y, (s.letterDir ops.toSoarOps base).loadLetter ops name = .ok y := by
    intro name hname
    have hmem := List.mem_of_mem_filter (mem_newestFirst.mp hname)
    rw [hnames] at hmem
    obtain ⟨f, hf, rfl⟩ := List.mem_map.mp hmem
    obtain ⟨v, hv⟩ := fileOf_of_mem hf
    obtain ⟨members, hobj⟩ := hobjects _ (fileOf_mem hv)
    cases hobj
    exact ⟨_, loadLetter_letterDir hv (hjson _ (fileOf_mem hv))⟩
  obtain ⟨bodies, hbodies, hall⟩ := mapM_ok hload
  refine ⟨bodies.filterMap id, ?_, ?_⟩
  · unfold LetterDir.listDeadLetters
    rw [hbodies]
    rfl
  · intro name members hfile hglob
    have hmem : name ∈ (s.letterDir ops.toSoarOps base).glob ops "*.json".toList := by
      apply List.mem_filter.mpr
      rw [hnames]
      exact ⟨List.mem_map.mpr ⟨_, fileOf_mem hfile, rfl⟩, hglob⟩
    have hbody := hall name (mem_newestFirst.mpr hmem) _
      (loadLetter_letterDir hfile (hjson _ (fileOf_mem hfile)))
    exact List.mem_filterMap.mpr ⟨_, hbody, rfl⟩

/-- The entry of a letter names its file and its pair. -/
theorem located_letter (dir : LetterDir) :
    field (dir.located name (sortMembers (letterMembers ops g.item g.outcome g.attempt))) "_file" =
        some (.str name) ∧
      letterPair (.obj (dir.located name
        (sortMembers (letterMembers ops g.item g.outcome g.attempt)))) = some g.pair := by
  have hkeys : ((letterMembers ops g.item g.outcome g.attempt).map Prod.fst).Nodup :=
    (by decide : (["ts", "backend", "alert", "status_code", "error", "attempt", "payload_sha256",
      "file_sha256"].map String.toList).Nodup)
  constructor
  · unfold LetterDir.located
    rw [field_dictSet_of_ne (by decide), field_dictSet_self]
  · have halert : field (sortMembers (letterMembers ops g.item g.outcome g.attempt)) "alert" =
        some (sortKeys (alertBody g.item.alert)) := field_sortMembers hkeys rfl
    have hbackend : field (sortMembers (letterMembers ops g.item g.outcome g.attempt)) "backend" =
        some (.str g.item.backendName) :=
      field_sortMembers (v := .str g.item.backendName) hkeys rfl
    have hid : ∀ members, alertBody g.item.alert = .obj members →
        field (sortMembers members) "id" = some (.str g.item.alert.id) := by
      intro members hmembers
      cases hmembers
      apply field_sortMembers (v := .str g.item.alert.id)
      · exact (by decide : (["id", "host_id", "detector", "severity", "tags", "summary", "evidence",
          "metadata"].map String.toList).Nodup)
      · rfl
    unfold letterPair
    simp only [field_located "alert" (by decide) (by decide),
      field_located "backend" (by decide) (by decide), halert, hbackend, alertBody, sortKeys]
    rw [hid _ rfl]
    rfl

end Listing

/-- In a run in which the pairs that are given up do not meet in a name, the directory has an entry
for each of them. -/
theorem one_entry_each (ops : LetterOps) (base : Str) (config : SoarConfig) (now : Int)
    (files : List (Str × Json)) (hfiles : ∀ f ∈ files, ∃ members, f.2 = .obj members)
    (hglob : ∀ name, ops.fnmatch "*.json".toList name = ".json".toList.isSuffixOf name)
    (as : List SoarAct) (l : Ledger)
    (hrun : Run (Ledger.step ops.toSoarOps) (Apart ops.toSoarOps) (.start config now files) as l)
    (hjson : ∀ f ∈ l.worker.files, ops.load (utf8 (ops.dumps f.2)) = .ok (sortKeys f.2)) :
    OneEntryEach ops base l := by
  have hinv : LedgerInv ops.toSoarOps l :=
    hrun.invariant (Ledger.start_inv hfiles) fun _ _ _ h hok hstep => Ledger.step_inv h hok hstep
  constructor
  · intro g hg g' hg' hpair hname
    exact hpair (hinv.apart g hg g' hg' hname)
  · obtain ⟨entries, hentries, hall⟩ := listDeadLetters_ok base hinv.objects hjson
    refine ⟨entries, hentries, ?_⟩
    intro g hg
    obtain ⟨g', hg', hpair, hname, hfile⟩ := hinv.kept g hg
    have hsuffix : ops.fnmatch "*.json".toList g.name = true := by
      rw [hglob, List.isSuffixOf_iff_suffix]
      unfold GivenUp.name letterName
      rw [fileName_eq]
      exact List.suffix_append _ _
    refine ⟨_, hall g.name _ hfile hsuffix, ?_⟩
    rw [← hpair]
    exact located_letter _

/-! ## Two backends -/

/-- Two configured backends. -/
def pairConfig : SoarConfig where
  queueMax := 1000
  backends := [("slack".toList, ⟨true, 60, "medium".toList, [], 5⟩),
    ("discord".toList, ⟨true, 60, "medium".toList, [], 5⟩)]
  registry := ["slack".toList, "discord".toList]

/-- A second later. -/
def laterTime : Timestamp :=
  ⟨{ UtcTime.sample with second := 6, clock_valid := by decide }, 0, Timestamp.zero_micros⟩

def refusal (backend : String) (attemptedAt : Timestamp) : DeliverOutcome where
  result := ⟨backend.toList, uuidStr 1#128, 404, attemptedAt, 3, none, true⟩
  payloadSha256 := []

/-- Both backends answer 404 to the one alert, the second one at the given time. -/
def twoRefusals (t : Timestamp) : List SoarAct :=
  [.poll letterRow, .turn sampleTime, .turn sampleTime, .turn sampleTime, .drain, .acquire 0,
    .acquire 1, .loop 0, .loop 1, .deliver 0 (.ok (refusal "slack" sampleTime)), .persist 0 true,
    .deliver 0 (.ok (refusal "discord" t)), .persist 0 true]

def pairItem (backend : String) : PendingDelivery :=
  ⟨alertOf sampleOps letterRow, backend.toList, ⟨true, 60, "medium".toList, [], 5⟩, 1,
    1000000000000⟩

def firstRefusal : GivenUp := ⟨pairItem "slack", refusal "slack" sampleTime, 1⟩

def secondRefusal : GivenUp := ⟨pairItem "discord", refusal "discord" laterTime, 1⟩

/-- `json.load` of the two letters, which differ in the first letter of the backend. -/
def pairLoad (bytes : Bytes) : Except LoadError Json :=
  if bytes[248]? = some 100 then
    .ok (sortKeys (secondRefusal.body { sampleOps with dumps := sampleDumps }))
  else .ok (sortKeys (firstRefusal.body { sampleOps with dumps := sampleDumps }))

def pairOps : LetterOps where
  finalSigma := sampleOps.finalSigma
  reprJson := sampleOps.reprJson
  dumps := sampleDumps
  load := pairLoad
  fnmatch pattern name :=
    if pattern = "*.json".toList then ".json".toList.isSuffixOf name else pattern == name

theorem fnmatch_pairOps (name : Str) :
    pairOps.fnmatch "*.json".toList name = ".json".toList.isSuffixOf name := by
  unfold pairOps
  dsimp only
  rw [if_pos rfl]

theorem pairLoad_first : pairLoad (utf8 (sampleDumps (firstRefusal.body pairOps.toSoarOps))) =
    .ok (sortKeys (firstRefusal.body pairOps.toSoarOps)) :=
  if_neg (by decide +kernel)

theorem pairLoad_second : pairLoad (utf8 (sampleDumps (secondRefusal.body pairOps.toSoarOps))) =
    .ok (sortKeys (secondRefusal.body pairOps.toSoarOps)) :=
  if_pos (by decide +kernel)

/-- Answers in two seconds leave two letters. -/
theorem one_entry_each_two_seconds :
    ∃ l, Run (Ledger.step pairOps.toSoarOps) (Apart pairOps.toSoarOps)
        (.start pairConfig 1000000000000 []) (twoRefusals laterTime) l ∧
      l.letters = [secondRefusal, firstRefusal] ∧ OneEntryEach pairOps "/srv/letters".toList l := by
  have hcheck : ∃ l, Run (Ledger.step pairOps.toSoarOps) (Apart pairOps.toSoarOps)
      (.start pairConfig 1000000000000 []) (twoRefusals laterTime) l ∧
      decide (l.letters = [secondRefusal, firstRefusal]) = true :=
    run_of_guarded_check (by decide +kernel)
  obtain ⟨l, hrun, hl⟩ := hcheck
  have hletters := of_decide_eq_true hl
  refine ⟨l, hrun, hletters, ?_⟩
  refine one_entry_each pairOps "/srv/letters".toList pairConfig 1000000000000 [] nofun
    fnmatch_pairOps _ l hrun ?_
  intro f hf
  rw [Ledger.files_of_run hrun, hletters] at hf
  rcases mem_writeLetters hf with hnone | ⟨g, hg, rfl⟩
  · exact absurd hnone List.not_mem_nil
  · have hg : g = firstRefusal ∨ g = secondRefusal := by simpa using hg
    rcases hg with rfl | rfl
    · exact pairLoad_first
    · exact pairLoad_second

/-- Answers in one second leave one letter. -/
theorem second_refusal_overwrites :
    ∃ l, AnyRun (Ledger.step pairOps.toSoarOps) (.start pairConfig 1000000000000 [])
        (twoRefusals sampleTime) l ∧
      l.worker.files.length = 1 ∧ ¬ OneEntryEach pairOps "/srv/letters".toList l := by
  have hcheck : ∃ l, AnyRun (Ledger.step pairOps.toSoarOps) (.start pairConfig 1000000000000 [])
      (twoRefusals sampleTime) l ∧
      decide (l.worker.files.length = 1 ∧
        ∃ g ∈ l.letters, ∃ g' ∈ l.letters, g.pair ≠ g'.pair ∧ g.name = g'.name) = true :=
    run_of_check (by decide +kernel)
  obtain ⟨l, hrun, hl⟩ := hcheck
  obtain ⟨hlength, g, hg, g', hg', hpair, hname⟩ := of_decide_eq_true hl
  exact ⟨l, hrun, hlength, fun h => h.apart g hg g' hg' hpair hname⟩

end ZaqorinCore.Server.Soar
