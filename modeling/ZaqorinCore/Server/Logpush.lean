import ZaqorinCore.Base.Run
import ZaqorinCore.Text.Hex

/-!
# Publishing of Logpush batches

A batch of Cloudflare events is stored in one transaction and published afterwards: the endpoint
asks the database for the newest rows of the Logpush host, as many as the batch has stored, and
publishes those. The rows of a transaction all carry the time at which it began, so a batch that
began later, or at the same time, and has committed in between can take the place of the rows of
this one. A batch publishes its own rows whatever the database answers exactly when the rows of
the other batches are all older: `newest_own_iff`.
-/

namespace ZaqorinCore.Server.Logpush

open Text Base

/-! ## Newest rows -/

section

variable {α : Type} {p : α → Bool} {l : List α}

/-- If what has the property comes first, it is found by its number. -/
theorem take_length_filter (h : l.Pairwise fun a b => p b = true → p a = true) :
    l.take (l.filter p).length = l.filter p := by
  induction l with
  | nil => rfl
  | cons a l ih =>
    rw [List.pairwise_cons] at h
    by_cases ha : p a = true
    · rw [List.filter_cons_of_pos ha, List.length_cons, List.take_succ_cons, ih h.2]
    · have hnone : l.filter p = [] := by
        apply List.filter_eq_nil_iff.mpr
        intro b hb hpb
        exact ha (h.1 b hb hpb)
      rw [List.filter_cons_of_neg ha, hnone]
      rfl

end

/-! ## System -/

/-- `_LOGPUSH_HOST_ID`. -/
def logpushHostId : Uuid := 0xb1f4b3e0000000000000000000000001

/-- `SourceCloudflareLogpush`. -/
def sourceCloudflareLogpush : String := "cloudflare_logpush"

/-- A row of the table `events`. The batch that has stored it is not in the table; a row of
another endpoint has none. -/
structure Row where
  id : Uuid
  hostId : Uuid
  source : String
  occurredAt : Int
  receivedAt : Int
  batch : Option Nat
  deriving DecidableEq, Repr

/-- The two conditions of the query. -/
def Row.Selected (row : Row) : Prop :=
  row.hostId = logpushHostId ∧ row.source = sourceCloudflareLogpush

instance : DecidablePred Row.Selected := fun _ => inferInstanceAs (Decidable (_ ∧ _))

/-- The way of a batch through `_ingest_ndjson`: its transaction has begun, it is committed with
so many rows, it has the answer of its query and publishes it row by row. A batch with nothing
left to publish has returned. -/
inductive Phase
  | begun (now : Int)
  | committed (now : Int) (accepted : Nat)
  | publishing (rows : List Row)
  deriving DecidableEq, Repr

structure State where
  rows : List Row
  batches : Nat → Option Phase
  /-- The stream, with the batch that has published each event. -/
  stream : List (Nat × Row)

def start : State := ⟨[], fun _ => none, []⟩

/-- What the database can answer, before the limit. Rows of the same time come in any order. -/
structure Newest (rows answer : List Row) : Prop where
  perm : answer.Perm (rows.filter fun row => decide row.Selected)
  sorted : answer.Pairwise fun a b => b.receivedAt ≤ a.receivedAt

instance (rows answer : List Row) : Decidable (Newest rows answer) :=
  decidable_of_iff (answer.Perm (rows.filter fun row => decide row.Selected) ∧
    answer.Pairwise fun a b => b.receivedAt ≤ a.receivedAt)
    ⟨fun h => ⟨h.1, h.2⟩, fun h => ⟨h.1, h.2⟩⟩

/-- The rows that `_publish_accepted` goes through. -/
def publishAccepted (answer : List Row) (accepted : Nat) : List Row :=
  (answer.take accepted).reverse

inductive Act
  /-- The first statement of the transaction, `_ensure_logpush_host`. -/
  | begin (batch : Nat) (now : Int)
  /-- The accepted lines, by the id and the time of their events. -/
  | commit (batch : Nat) (events : List (Uuid × Int))
  | rollback (batch : Nat)
  /-- Another endpoint stores an event. -/
  | store (row : Row)
  | query (batch : Nat) (answer : List Row)
  | publish (batch : Nat)
  deriving Repr

/-- The rows of a commit. The column `received_at` has the default `now()`, which is the time at
which the transaction began. -/
def inserted (batch : Nat) (now : Int) (events : List (Uuid × Int)) : List Row :=
  events.map fun event =>
    ⟨event.1, logpushHostId, sourceCloudflareLogpush, event.2, now, some batch⟩

/-- The batch goes on, and so do the table and the stream. -/
def State.move (s : State) (batch : Nat) (phase : Phase) (rows : List Row)
    (events : List (Nat × Row)) : State :=
  ⟨s.rows ++ rows, Function.update s.batches batch (some phase), s.stream ++ events⟩

def step (s : State) : Act → Option State
  | .begin batch now =>
    match s.batches batch with
    | none => some (s.move batch (.begun now) [] [])
    | some _ => none
  | .commit batch events =>
    match s.batches batch with
    | some (.begun now) =>
      -- ids are the primary key
      if ((s.rows ++ inserted batch now events).map Row.id).Nodup then
        let phase := if events = [] then .publishing [] else .committed now events.length
        some (s.move batch phase (inserted batch now events) [])
      else none
    | _ => none
  | .rollback batch =>
    match s.batches batch with
    | some (.begun _) => some (s.move batch (.publishing []) [] [])
    | _ => none
  | .store row =>
    if row.batch = none ∧ ¬ row.Selected ∧ ((s.rows ++ [row]).map Row.id).Nodup then
      some { s with rows := s.rows ++ [row] }
    else none
  | .query batch answer =>
    match s.batches batch with
    | some (.committed _ accepted) =>
      if Newest s.rows answer then
        some (s.move batch (.publishing (publishAccepted answer accepted)) [] [])
      else none
    | _ => none
  | .publish batch =>
    match s.batches batch with
    | some (.publishing (row :: rest)) => some (s.move batch (.publishing rest) [] [(batch, row)])
    | _ => none

/-- The rows that the batch has stored. -/
def State.own (s : State) (batch : Nat) : List Row :=
  s.rows.filter fun row => row.batch = some batch

/-- The rows that the batch has published. -/
def State.published (s : State) (batch : Nat) : List Row :=
  (s.stream.filter fun event => event.1 = batch).map Prod.snd

/-- Every other row that the query can see is older than the batch. -/
def State.Latest (s : State) (batch : Nat) (now : Int) : Prop :=
  ∀ row ∈ s.rows, row.Selected → row.batch ≠ some batch → row.receivedAt < now

/-- The condition on a step: a batch asks for its rows while it is the latest. -/
def Undisturbed (s : State) : Act → Prop
  | .query batch _ =>
    match s.batches batch with
    | some (.committed now _) => s.Latest batch now
    | _ => True
  | _ => True

instance (s : State) (batch : Nat) (now : Int) : Decidable (s.Latest batch now) :=
  inferInstanceAs (Decidable (∀ row ∈ s.rows, row.Selected → row.batch ≠ some batch →
    row.receivedAt < now))

instance (s : State) : DecidablePred (Undisturbed s)
  | .query batch _ =>
    match h : s.batches batch with
    | some (.committed now _) => decidable_of_iff (s.Latest batch now) (by simp [Undisturbed, h])
    | some (.begun _) => isTrue (by simp [Undisturbed, h])
    | some (.publishing _) => isTrue (by simp [Undisturbed, h])
    | none => isTrue (by simp [Undisturbed, h])
  | .begin _ _ => isTrue trivial
  | .commit _ _ => isTrue trivial
  | .rollback _ => isTrue trivial
  | .store _ => isTrue trivial
  | .publish _ => isTrue trivial

/-! ## Steps -/

section

variable {s t : State} {a : Act} {batch other : Nat} {phase : Phase} {rows : List Row}
  {events : List (Nat × Row)}

/-- What a step can be. -/
theorem step_cases (h : step s a = some t) :
    (∃ batch now, a = .begin batch now ∧ s.batches batch = none ∧
      t = s.move batch (.begun now) [] []) ∨
    (∃ batch events now, a = .commit batch events ∧ s.batches batch = some (.begun now) ∧
      ((s.rows ++ inserted batch now events).map Row.id).Nodup ∧
      t = s.move batch (if events = [] then .publishing [] else .committed now events.length)
        (inserted batch now events) []) ∨
    (∃ batch now, a = .rollback batch ∧ s.batches batch = some (.begun now) ∧
      t = s.move batch (.publishing []) [] []) ∨
    (∃ row, a = .store row ∧ row.batch = none ∧ ¬ row.Selected ∧
      ((s.rows ++ [row]).map Row.id).Nodup ∧ t = { s with rows := s.rows ++ [row] }) ∨
    (∃ batch answer now accepted, a = .query batch answer ∧
      s.batches batch = some (.committed now accepted) ∧ Newest s.rows answer ∧
      t = s.move batch (.publishing (publishAccepted answer accepted)) [] []) ∨
    (∃ batch row rest, a = .publish batch ∧ s.batches batch = some (.publishing (row :: rest)) ∧
      t = s.move batch (.publishing rest) [] [(batch, row)]) := by
  cases a with
  | begin batch now =>
    left
    simp only [step] at h
    split at h
    · exact ⟨batch, now, rfl, ‹_›, (Option.some.inj h).symm⟩
    · cases h
  | commit batch events =>
    right; left
    simp only [step] at h
    split at h
    · split at h
      · exact ⟨batch, events, _, rfl, ‹_›, ‹_›, (Option.some.inj h).symm⟩
      · cases h
    · cases h
  | rollback batch =>
    right; right; left
    simp only [step] at h
    split at h
    · exact ⟨batch, _, rfl, ‹_›, (Option.some.inj h).symm⟩
    · cases h
  | store row =>
    right; right; right; left
    simp only [step] at h
    split at h
    · rename_i hrow
      exact ⟨row, rfl, hrow.1, hrow.2.1, hrow.2.2, (Option.some.inj h).symm⟩
    · cases h
  | query batch answer =>
    right; right; right; right; left
    simp only [step] at h
    split at h
    · split at h
      · exact ⟨batch, answer, _, _, rfl, ‹_›, ‹_›, (Option.some.inj h).symm⟩
      · cases h
    · cases h
  | publish batch =>
    right; right; right; right; right
    simp only [step] at h
    split at h
    · exact ⟨batch, _, _, rfl, ‹_›, (Option.some.inj h).symm⟩
    · cases h

@[simp] theorem move_rows : (s.move batch phase rows events).rows = s.rows ++ rows := rfl

@[simp] theorem move_stream : (s.move batch phase rows events).stream = s.stream ++ events := rfl

@[simp] theorem move_batches_self : (s.move batch phase rows events).batches batch = some phase :=
  Function.update_self ..

theorem move_batches_of_ne (h : other ≠ batch) :
    (s.move batch phase rows events).batches other = s.batches other :=
  Function.update_of_ne h ..

/-- The batch that moves gets its new rows. -/
theorem own_move_self (h : ∀ row ∈ rows, row.batch = some batch) :
    (s.move batch phase rows events).own batch = s.own batch ++ rows := by
  unfold State.own
  rw [move_rows, List.filter_append]
  congr 1
  apply List.filter_eq_self.mpr
  intro row hrow
  exact decide_eq_true (h row hrow)

theorem own_move_of_ne (hne : other ≠ batch) (h : ∀ row ∈ rows, row.batch = some batch) :
    (s.move batch phase rows events).own other = s.own other := by
  have hnone : rows.filter (fun row => decide (row.batch = some other)) = [] := by
    apply List.filter_eq_nil_iff.mpr
    intro row hrow hother
    have : some batch = some other := (h row hrow).symm.trans (of_decide_eq_true hother)
    exact hne (Option.some.inj this).symm
  unfold State.own
  rw [move_rows, List.filter_append, hnone, List.append_nil]

theorem published_move_self (h : ∀ event ∈ events, event.1 = batch) :
    (s.move batch phase rows events).published batch =
      s.published batch ++ events.map Prod.snd := by
  have hall : events.filter (fun event => decide (event.1 = batch)) = events := by
    apply List.filter_eq_self.mpr
    intro event hevent
    exact decide_eq_true (h event hevent)
  unfold State.published
  rw [move_stream, List.filter_append, List.map_append, hall]

theorem published_move_of_ne (hne : other ≠ batch) (h : ∀ event ∈ events, event.1 = batch) :
    (s.move batch phase rows events).published other = s.published other := by
  have hnone : events.filter (fun event => decide (event.1 = other)) = [] := by
    apply List.filter_eq_nil_iff.mpr
    intro event hevent hother
    exact hne ((of_decide_eq_true hother).symm.trans (h event hevent))
  unfold State.published
  rw [move_stream, List.filter_append, hnone, List.append_nil]

/-- A row of another endpoint belongs to no batch. -/
theorem own_store {row : Row} (h : row.batch = none) :
    State.own { s with rows := s.rows ++ [row] } batch = s.own batch := by
  unfold State.own
  rw [List.filter_append]
  simp [h]

theorem batch_inserted {now : Int} {events : List (Uuid × Int)} :
    ∀ row ∈ inserted batch now events, row.batch = some batch := by
  intro row hrow
  obtain ⟨event, _, rfl⟩ := List.mem_map.mp hrow
  rfl

end

/-! ## Invariants -/

/-- The rows of a batch in a phase: none before the commit, then those of the commit. -/
def Phase.Holds : Option Phase → List Row → Prop
  | none, own => own = []
  | some (.begun _), own => own = []
  | some (.committed now accepted), own =>
    own.length = accepted ∧ own ≠ [] ∧ ∀ row ∈ own, row.receivedAt = now
  | some (.publishing _), _ => True

/-- What a batch has published and has in hand are its rows; before its query it is nothing. -/
def Phase.Fair : Option Phase → List Row → List Row → Prop
  | some (.publishing rest), own, published => (published ++ rest).Perm own
  | _, _, published => published = []

/-- What holds of the table whatever the order of the steps. -/
structure Consistent (s : State) : Prop where
  ids : (s.rows.map Row.id).Nodup
  selected : ∀ row ∈ s.rows, row.batch ≠ none → row.Selected
  holds : ∀ batch, Phase.Holds (s.batches batch) (s.own batch)

def Fair (s : State) : Prop :=
  ∀ batch, Phase.Fair (s.batches batch) (s.own batch) (s.published batch)

theorem consistent_start : Consistent start where
  ids := List.nodup_nil
  selected := by
    intro row hrow
    cases hrow
  holds := fun _ => rfl

section

variable {s t : State} {a : Act} {batch : Nat} {phase : Phase} {rows : List Row}
  {events : List (Nat × Row)}

/-- A move is judged by the batch that moves. -/
theorem Consistent.move (h : Consistent s) (hids : ((s.rows ++ rows).map Row.id).Nodup)
    (hbatch : ∀ row ∈ rows, row.batch = some batch) (hselected : ∀ row ∈ rows, row.Selected)
    (hholds : Phase.Holds (some phase) (s.own batch ++ rows)) :
    Consistent (s.move batch phase rows events) where
  ids := hids
  selected := by
    intro row hrow hsome
    obtain hold | hnew := List.mem_append.mp hrow
    · exact h.selected row hold hsome
    · exact hselected row hnew
  holds := by
    intro other
    by_cases hne : other = batch
    · subst hne
      rw [move_batches_self, own_move_self hbatch]
      exact hholds
    · rw [move_batches_of_ne hne, own_move_of_ne hne hbatch]
      exact h.holds other

/-- A move that stores nothing. -/
theorem Consistent.stay (h : Consistent s) (hholds : Phase.Holds (some phase) (s.own batch)) :
    Consistent (s.move batch phase [] events) := by
  apply h.move
  · rw [List.append_nil]
    exact h.ids
  · simp
  · simp
  · rw [List.append_nil]
    exact hholds

theorem consistent_step (h : Consistent s) (htaken : step s a = some t) : Consistent t := by
  rcases step_cases htaken with ⟨batch, now, -, hphase, rfl⟩ |
    ⟨batch, events, now, -, hphase, hids, rfl⟩ | ⟨batch, now, -, hphase, rfl⟩ |
    ⟨row, -, hbatch, -, hids, rfl⟩ | ⟨batch, answer, now, accepted, -, hphase, -, rfl⟩ |
    ⟨batch, row, rest, -, hphase, rfl⟩
  · have hown := h.holds batch
    rw [hphase] at hown
    exact h.stay hown
  · have hown := h.holds batch
    rw [hphase] at hown
    have hown : s.own batch = [] := hown
    apply h.move hids batch_inserted
    · intro row hrow
      obtain ⟨event, _, rfl⟩ := List.mem_map.mp hrow
      exact ⟨rfl, rfl⟩
    · rw [hown, List.nil_append]
      split
      · trivial
      · rename_i hevents
        refine ⟨List.length_map .., ?_, ?_⟩
        · simpa [inserted] using hevents
        · intro row hrow
          obtain ⟨event, _, rfl⟩ := List.mem_map.mp hrow
          rfl
  · exact h.stay trivial
  · refine ⟨hids, ?_, ?_⟩
    · intro other hother hsome
      obtain hold | hnew := List.mem_append.mp hother
      · exact h.selected other hold hsome
      · rw [List.mem_singleton.mp hnew] at hsome
        exact absurd hbatch hsome
    · intro batch
      rw [own_store hbatch]
      exact h.holds batch
  · exact h.stay trivial
  · exact h.stay trivial

/-- A move is fair if it is for the batch that moves. -/
theorem Fair.move (h : Fair s) (hbatch : ∀ row ∈ rows, row.batch = some batch)
    (hevents : ∀ event ∈ events, event.1 = batch)
    (hfair : Phase.Fair (some phase) (s.own batch ++ rows)
      (s.published batch ++ events.map Prod.snd)) : Fair (s.move batch phase rows events) := by
  intro other
  by_cases hne : other = batch
  · subst hne
    rw [move_batches_self, own_move_self hbatch, published_move_self hevents]
    exact hfair
  · rw [move_batches_of_ne hne, own_move_of_ne hne hbatch, published_move_of_ne hne hevents]
    exact h other

end

/-! ## Answer of the query -/

section

variable {s : State} {batch : Nat} {now : Int} {accepted : Nat}

/-- The rows of the batch are among those that the query can see. -/
theorem filter_answer_perm (h : Consistent s) (batch : Nat) {answer : List Row}
    (hanswer : Newest s.rows answer) :
    (answer.filter fun row => row.batch = some batch).Perm (s.own batch) := by
  have hperm := hanswer.perm.filter fun row => decide (row.batch = some batch)
  rw [List.filter_filter] at hperm
  refine hperm.trans (List.Perm.of_eq ?_)
  apply List.filter_congr
  intro row hrow
  by_cases hbatch : row.batch = some batch
  · have : row.Selected := h.selected row hrow (by rw [hbatch]; simp)
    simp [hbatch, this]
  · simp [hbatch]

/-- The latest batch finds its rows. -/
theorem newest_own (h : Consistent s) (hphase : s.batches batch = some (.committed now accepted))
    (hlatest : s.Latest batch now) {answer : List Row} (hanswer : Newest s.rows answer) :
    (publishAccepted answer accepted).Perm (s.own batch) := by
  have hholds := h.holds batch
  rw [hphase] at hholds
  obtain ⟨hlength, -, hnow⟩ := hholds
  have hfilter := filter_answer_perm h batch hanswer
  have hfirst : answer.Pairwise fun a b =>
      decide (b.batch = some batch) = true → decide (a.batch = some batch) = true := by
    apply hanswer.sorted.imp_of_mem
    intro a b ha hb hle hown
    have hown : b.batch = some batch := of_decide_eq_true hown
    by_contra hother
    have hother : a.batch ≠ some batch := by simpa using hother
    obtain ⟨hrow, hselected⟩ := List.mem_filter.mp (hanswer.perm.mem_iff.mp ha)
    have hold := hlatest a hrow (of_decide_eq_true hselected) hother
    have hb : b ∈ s.own batch := by
      apply hfilter.mem_iff.mp
      exact List.mem_filter.mpr ⟨hb, decide_eq_true hown⟩
    have := hnow b hb
    omega
  have htake := take_length_filter hfirst
  rw [hfilter.length_eq, hlength] at htake
  unfold publishAccepted
  rw [htake]
  exact (List.reverse_perm _).trans hfilter

/-- The order in which the rows of the batch come after the others of their time. -/
def Before (batch : Nat) (a b : Row) : Prop :=
  b.receivedAt < a.receivedAt ∨
    (a.receivedAt = b.receivedAt ∧ (a.batch = some batch → b.batch = some batch))

instance (batch : Nat) : DecidableRel (Before batch) := fun _ _ =>
  inferInstanceAs (Decidable (_ ∨ _ ∧ (_ → _)))

instance (batch : Nat) : Std.Total (Before batch) where
  total a b := by
    unfold Before
    rcases lt_trichotomy a.receivedAt b.receivedAt with hlt | heq | hgt
    · exact Or.inr (Or.inl hlt)
    · by_cases ha : a.batch = some batch
      · exact Or.inr (Or.inr ⟨heq.symm, fun _ => ha⟩)
      · exact Or.inl (Or.inr ⟨heq, fun h => absurd h ha⟩)
    · exact Or.inl (Or.inl hgt)

instance (batch : Nat) : IsTrans Row (Before batch) where
  trans a b c hab hbc := by
    unfold Before at *
    rcases hab with hab | ⟨hab, hown⟩
    · rcases hbc with hbc | ⟨hbc, _⟩
      · left
        omega
      · left
        omega
    · rcases hbc with hbc | ⟨hbc, hown'⟩
      · left
        omega
      · right
        exact ⟨hab.trans hbc, fun h => hown' (hown h)⟩

/-- An answer that puts the rows of the batch as late as it can. -/
def latestOthers (s : State) (batch : Nat) : List Row :=
  (s.rows.filter fun row => decide row.Selected).insertionSort (Before batch)

theorem newest_latestOthers (s : State) (batch : Nat) : Newest s.rows (latestOthers s batch) where
  perm := List.perm_insertionSort ..
  sorted := by
    have hsorted := List.pairwise_insertionSort (Before batch)
      (s.rows.filter fun row => decide row.Selected)
    apply hsorted.imp
    intro a b hab
    unfold Before at hab
    omega

/-- A batch publishes its own rows, whatever the database answers, exactly when it is the
latest. -/
theorem newest_own_iff (h : Consistent s)
    (hphase : s.batches batch = some (.committed now accepted)) :
    (∀ answer, Newest s.rows answer → (publishAccepted answer accepted).Perm (s.own batch)) ↔
      s.Latest batch now := by
  constructor
  · intro hown row hrow hselected hother
    have hholds := h.holds batch
    rw [hphase] at hholds
    obtain ⟨hlength, hne, hnow⟩ := hholds
    have hperm := hown _ (newest_latestOthers s batch)
    have hmem : row ∈ latestOthers s batch := by
      apply (newest_latestOthers s batch).perm.mem_iff.mpr
      exact List.mem_filter.mpr ⟨hrow, decide_eq_true hselected⟩
    have hsorted : (latestOthers s batch).Pairwise (Before batch) :=
      List.pairwise_insertionSort ..
    -- the first row of the answer is published, so it belongs to the batch
    cases hanswer : latestOthers s batch with
    | nil =>
      rw [hanswer] at hmem
      cases hmem
    | cons first rest =>
      rw [hanswer] at hmem hsorted hperm
      have hfirst : first ∈ s.own batch := by
        apply hperm.mem_iff.mp
        unfold publishAccepted
        rw [List.mem_reverse]
        have : accepted ≠ 0 := by
          rw [← hlength]
          simpa using hne
        obtain ⟨n, rfl⟩ := Nat.exists_eq_succ_of_ne_zero this
        rw [List.take_succ_cons]
        exact List.mem_cons_self
      have hbatch : first.batch = some batch := of_decide_eq_true (List.mem_filter.mp hfirst).2
      have hbefore : Before batch first row := by
        obtain rfl | hrest := List.mem_cons.mp hmem
        · exact absurd hbatch hother
        · exact (List.pairwise_cons.mp hsorted).1 row hrest
      have := hnow first hfirst
      rcases hbefore with hlt | ⟨_, himp⟩
      · omega
      · exact absurd (himp hbatch) hother
  · intro hlatest answer hanswer
    exact newest_own h hphase hlatest hanswer

end

/-! ## Exactly once -/

/-- What the endpoint is for: a batch publishes nothing but its own rows, and when it has returned
every row of it is in the stream once. -/
structure ExactlyOnce (s : State) : Prop where
  own : ∀ batch, ∀ row ∈ s.published batch, row ∈ s.rows ∧ row.batch = some batch
  all : ∀ batch, s.batches batch = some (.publishing []) →
    (s.published batch).Perm (s.own batch)
  once : ∀ batch, s.batches batch = some (.publishing []) → ∀ row ∈ s.own batch,
    (s.stream.filter fun event => event.2.id = row.id).length = 1

section

variable {s t : State} {a : Act} {batch : Nat}

theorem fair_step (hconsistent : Consistent s) (h : Fair s) (hmeets : Undisturbed s a)
    (htaken : step s a = some t) : Fair t := by
  rcases step_cases htaken with ⟨batch, now, -, hphase, rfl⟩ |
    ⟨batch, events, now, -, hphase, -, rfl⟩ | ⟨batch, now, -, hphase, rfl⟩ |
    ⟨row, -, hbatch, -, -, rfl⟩ | ⟨batch, answer, now, accepted, rfl, hphase, hanswer, rfl⟩ |
    ⟨batch, row, rest, -, hphase, rfl⟩
  · have hfair := h batch
    rw [hphase] at hfair
    have hfair : s.published batch = [] := hfair
    apply h.move
    · simp
    · simp
    · simp [Phase.Fair, hfair]
  · have hfair := h batch
    have hholds := hconsistent.holds batch
    rw [hphase] at hfair hholds
    have hfair : s.published batch = [] := hfair
    have hholds : s.own batch = [] := hholds
    apply h.move batch_inserted
    · simp
    · split
      · rename_i hevents
        simp [Phase.Fair, hfair, hholds, hevents, inserted]
      · simp [Phase.Fair, hfair]
  · have hfair := h batch
    have hholds := hconsistent.holds batch
    rw [hphase] at hfair hholds
    have hfair : s.published batch = [] := hfair
    have hholds : s.own batch = [] := hholds
    apply h.move
    · simp
    · simp
    · simp [Phase.Fair, hfair, hholds]
  · intro batch
    rw [own_store hbatch]
    exact h batch
  · have hfair := h batch
    rw [hphase] at hfair
    have hfair : s.published batch = [] := hfair
    simp only [Undisturbed, hphase] at hmeets
    have hown := newest_own hconsistent hphase hmeets hanswer
    apply h.move
    · simp
    · simp
    · simpa [Phase.Fair, hfair] using hown
  · have hfair := h batch
    rw [hphase] at hfair
    have hfair : (s.published batch ++ row :: rest).Perm (s.own batch) := hfair
    apply h.move
    · simp
    · simp
    · simpa [Phase.Fair] using hfair

theorem fair_start : Fair start := fun _ => rfl

/-- A batch publishes its own rows only. -/
theorem Fair.mem_own (h : Fair s) {row : Row} (hrow : row ∈ s.published batch) :
    row ∈ s.own batch := by
  have hfair := h batch
  cases hphase : s.batches batch with
  | none =>
    rw [hphase] at hfair
    have hfair : s.published batch = [] := hfair
    rw [hfair] at hrow
    cases hrow
  | some phase =>
    rw [hphase] at hfair
    cases phase with
    | begun now =>
      have hfair : s.published batch = [] := hfair
      rw [hfair] at hrow
      cases hrow
    | committed now accepted =>
      have hfair : s.published batch = [] := hfair
      rw [hfair] at hrow
      cases hrow
    | publishing rest =>
      have hfair : (s.published batch ++ rest).Perm (s.own batch) := hfair
      exact hfair.mem_iff.mp (List.mem_append_left _ hrow)

/-- In a fair state the events of a row are those of its batch. -/
theorem filter_stream_eq (hids : (s.rows.map Row.id).Nodup) (h : Fair s) {row : Row}
    (hrow : row ∈ s.own batch) :
    ((s.stream.filter fun event => event.2.id = row.id).map Prod.snd) =
      (s.published batch).filter fun other => other.id = row.id := by
  unfold State.published
  rw [List.filter_map, List.filter_filter]
  congr 1
  apply List.filter_congr
  intro event hevent
  obtain ⟨hrow, hbatch⟩ := List.mem_filter.mp hrow
  by_cases hid : event.2.id = row.id
  · have hpub : event.2 ∈ s.published event.1 :=
      List.mem_map.mpr ⟨event, List.mem_filter.mpr ⟨hevent, decide_eq_true rfl⟩, rfl⟩
    obtain ⟨hstored, hown⟩ := List.mem_filter.mp (h.mem_own hpub)
    have heq : event.2 = row := List.inj_on_of_nodup_map hids hstored hrow hid
    have hsame : some event.1 = some batch := by
      rw [← of_decide_eq_true hown, heq]
      exact of_decide_eq_true hbatch
    simp [hid, Option.some.inj hsame]
  · simp [hid]

theorem exactlyOnce_of_fair (hconsistent : Consistent s) (h : Fair s) : ExactlyOnce s := by
  have hall : ∀ batch, s.batches batch = some (.publishing []) →
      (s.published batch).Perm (s.own batch) := by
    intro batch hphase
    have hfair := h batch
    rw [hphase] at hfair
    have hfair : (s.published batch ++ []).Perm (s.own batch) := hfair
    rwa [List.append_nil] at hfair
  refine ⟨?_, hall, ?_⟩
  · intro batch row hrow
    obtain ⟨hstored, hown⟩ := List.mem_filter.mp (h.mem_own hrow)
    exact ⟨hstored, of_decide_eq_true hown⟩
  · intro batch hphase row hrow
    have hnodup : (s.own batch).Nodup := (List.Nodup.of_map _ hconsistent.ids).filter _
    have hsame : (s.published batch).filter (fun other => decide (other.id = row.id)) =
        (s.published batch).filter fun other => decide (other = row) := by
      apply List.filter_congr
      intro other hother
      obtain ⟨hstored, _⟩ := List.mem_filter.mp ((hall batch hphase).mem_iff.mp hother)
      obtain ⟨hrow, _⟩ := List.mem_filter.mp hrow
      rw [decide_eq_decide]
      constructor
      · exact List.inj_on_of_nodup_map hconsistent.ids hstored hrow
      · intro heq
        rw [heq]
    rw [← List.length_map Prod.snd, filter_stream_eq hconsistent.ids h hrow, hsame,
      ← List.countP_eq_length_filter]
    have hcount : (s.published batch).count row = 1 := by
      rw [(hall batch hphase).count_eq]
      exact List.count_eq_one_of_mem hnodup hrow
    simpa [List.count, beq_eq_decide] using hcount

end

/-- The batches of a run that each make their query while they are the latest publish every
committed event exactly once; and in any reachable state the query of a batch is sure to
return its own rows exactly when it is the latest. -/
theorem exactly_once_when_latest (acts : List Act) (s : State) :
    (Run step Undisturbed start acts s → ExactlyOnce s) ∧
    (AnyRun step start acts s → ∀ batch now accepted,
      s.batches batch = some (.committed now accepted) →
      ((∀ answer, Newest s.rows answer → (publishAccepted answer accepted).Perm (s.own batch)) ↔
        s.Latest batch now)) := by
  constructor
  · intro hrun
    have hboth : Consistent s ∧ Fair s := hrun.invariant (I := fun s => Consistent s ∧ Fair s)
      ⟨consistent_start, fair_start⟩ fun t a u h hmeets htaken =>
        ⟨consistent_step h.1 htaken, fair_step h.1 h.2 hmeets htaken⟩
    exact exactlyOnce_of_fair hboth.1 hboth.2
  · intro hrun batch now accepted hphase
    have hconsistent : Consistent s := hrun.invariant (I := Consistent) consistent_start
      fun t a u h _ htaken => consistent_step h htaken
    exact newest_own_iff hconsistent hphase

/-- The row of a batch of one event. -/
def loneRow (batch : Nat) (id : Uuid) (now : Int) : Row :=
  ⟨id, logpushHostId, sourceCloudflareLogpush, 0, now, some batch⟩

/-- Two batches one after the other. -/
def successive : List Act :=
  [.begin 1 10, .commit 1 [(100, 0)], .query 1 [loneRow 1 100 10], .publish 1,
    .begin 2 11, .commit 2 [(200, 0)], .query 2 [loneRow 2 200 11, loneRow 1 100 10], .publish 2]

theorem successive_exactly_once :
    (∃ s, Run step Undisturbed start successive s ∧ s.batches 2 = some (.publishing []) ∧
      ExactlyOnce s) ∧
    ∃ s, AnyRun step start (successive.take 2) s ∧
      ((∀ answer, Newest s.rows answer → (publishAccepted answer 1).Perm (s.own 1)) ↔
        s.Latest 1 10) := by
  constructor
  · obtain ⟨s, hrun, hend⟩ : ∃ s, Run step Undisturbed start successive s ∧
        decide (s.batches 2 = some (.publishing [])) = true :=
      run_of_guarded_check (by decide +kernel)
    exact ⟨s, hrun, of_decide_eq_true hend, (exactly_once_when_latest _ _).1 hrun⟩
  · obtain ⟨s, hrun, hphase⟩ : ∃ s, AnyRun step start (successive.take 2) s ∧
        decide (s.batches 1 = some (.committed 10 1)) = true := run_of_check (by decide +kernel)
    exact ⟨s, hrun, (exactly_once_when_latest _ _).2 hrun 1 10 1 (of_decide_eq_true hphase)⟩

/-- Both batches have committed when the first one makes its query, and both publish the event
of the second. -/
def overlapping : List Act :=
  [.begin 1 10, .begin 2 11, .commit 1 [(100, 0)], .commit 2 [(200, 0)],
    .query 1 [loneRow 2 200 11, loneRow 1 100 10], .publish 1,
    .query 2 [loneRow 2 200 11, loneRow 1 100 10], .publish 2]

theorem overlapping_not_exactly_once :
    ¬ ∀ acts s, AnyRun step start acts s → ExactlyOnce s := by
  intro h
  obtain ⟨s, hrun, hend⟩ : ∃ s, AnyRun step start overlapping s ∧
      decide (s.published 1 = [loneRow 2 200 11]) = true := run_of_check (by decide +kernel)
  have hstream : s.published 1 = [loneRow 2 200 11] := of_decide_eq_true hend
  have hown := ((h _ _ hrun).own 1 (loneRow 2 200 11) (by rw [hstream]; simp)).2
  exact absurd hown (by decide)

end ZaqorinCore.Server.Logpush
