import ZaqorinCore.Base.Probe
import ZaqorinCore.Base.Run
import ZaqorinCore.Agent.Engine

/-!
# Adaptive timing

`pkg/timing` keeps a ring of round-trip times for each subject and derives a budget from it;
`TimedProcess` of `pkg/engine` records the time of an event and hands the event to the engine, as
a rate-limit trip, when the time is over the budget. While a subject has fewer than `minSamples`
samples, or finds no place in the table, the budget is the default one, and an event over the
default moves the engine. `timing_justified_iff` says exactly when no event does so without
enough samples. An event within the budget is absorbed, and `TimedProcess` then returns the status
`Nominal`, whatever the store holds: `status_reported_iff`.
-/

namespace ZaqorinCore.Agent.Timing

open ZaqorinCore.Base ZaqorinCore.Agent.Engine

def sampleCap : Nat := 32

def minSamples : Nat := 4

/-- `DefaultBudgetMicrosec` -/
def defaultBudget : Int64 := 250000

/-! ## One subject -/

/-- The ring of a subject with its cached mean and deviation. -/
structure PerSubject where
  samples : Fin sampleCap → Int64 := fun _ => 0
  cursor : UInt32 := 0
  count : Nat := 0
  lastSeenNS : UInt64 := 0
  mu100 : Int64 := 0
  sigma100 : Int64 := 0
  dirty : Bool := false
  count_le : count ≤ sampleCap := by exact Nat.zero_le _

namespace PerSubject

def record (p : PerSubject) (rttUS : Int64) (nowNS : UInt64) : PerSubject where
  samples := Function.update p.samples ⟨p.cursor.toNat % sampleCap, Nat.mod_lt _ (by decide)⟩ rttUS
  cursor := p.cursor + 1
  count := if p.count < sampleCap then p.count + 1 else p.count
  lastSeenNS := nowNS
  mu100 := p.mu100
  sigma100 := p.sigma100
  dirty := true
  count_le := by
    split
    · omega
    · exact p.count_le

/-- The samples that the loops of `recompute` visit. -/
def window (p : PerSubject) : List Int64 := (List.ofFn p.samples).take p.count

end PerSubject

/-- The search loop of `intSqrt`. Its argument is a variance, 0 for one sample and below `2 ^ 62`
for more, so the products of the source do not overflow: `PerSubject.returns_recompute`. -/
def sqrtSearch (n x : Int) : Int :=
  if (x + 1) * (x + 1) ≤ n then sqrtSearch n (x + 1) else x
termination_by (n - x).toNat
decreasing_by
  have hle : x + 1 ≤ (x + 1) * (x + 1) := by nlinarith [sq_nonneg x, sq_nonneg (x + 1)]
  omega

/-- The rounds of Newton's method. -/
def newton (n : Int64) : Nat → Int64 → Int64
  | 0, x => x
  | rounds + 1, x =>
    if x = 0 then 0
    else
      let next := (x + n / x) / 2
      if next ≥ x then x else newton n rounds next

def intSqrt (n : Int64) : Int64 :=
  if n ≤ 0 then 0 else newton n 16 (Int64.ofInt (sqrtSearch n.toInt 1))

namespace PerSubject

def recompute (p : PerSubject) : PerSubject :=
  let count := Int64.ofNat p.count
  let mu := p.window.foldl (· + ·) 0 / count
  let sqsum := p.window.foldl (fun acc x => acc + (x - mu) * (x - mu)) 0
  { p with mu100 := mu * 100, sigma100 := intSqrt (sqsum / count) * 100, dirty := false }

/-- `Budget`, with the record it leaves. -/
def budget (p : PerSubject) : PerSubject × Int64 :=
  if p.count < minSamples then (p, defaultBudget)
  else
    let p := if p.dirty then p.recompute else p
    if p.mu100 = 0 then (p, defaultBudget)
    else if p.sigma100 * 100 / p.mu100 > 150 then (p, defaultBudget)
    else
      let b := p.mu100 + 300 * p.sigma100 / 100
      (p, (if b < defaultBudget * 100 then defaultBudget * 100 else b) / 100)

end PerSubject

/-! ## The table -/

def tableSize : Nat := 4096

theorem tableSize_pos : 0 < tableSize := by decide

/-- A slot that is not used holds the zero record. -/
structure Table where
  tbl : Fin tableSize → PerSubject
  keys : Fin tableSize → UInt32
  used : Fin tableSize → Bool
  fresh : ∀ s, used s = false → tbl s = {}

namespace Table

/-- The subject that a slot is used for. -/
def taken (t : Table) (s : Fin tableSize) : Option UInt32 :=
  if t.used s then some (t.keys s) else none

/-- The slot where the probing for a subject stops. -/
@[irreducible]
def slotOf (t : Table) (subject : UInt32) : Option (Fin tableSize) :=
  locate t.taken tableSize_pos (fun k => k.toNat % tableSize) subject

/-- The slot becomes the subject's, if it was free. -/
def claim (t : Table) (s : Fin tableSize) (subject : UInt32) : Table :=
  if t.used s then t
  else
    { t with
      keys := Function.update t.keys s subject
      used := Function.update t.used s true
      fresh := by
        intro s' h
        by_cases hs : s' = s
        · subst hs
          simp at h
        · rw [Function.update_of_ne hs] at h
          exact t.fresh s' h }

/-- `GetOrCreate`: the slot of the subject, or none in a full table. -/
def getOrCreate (t : Table) (subject : UInt32) : Table × Option (Fin tableSize) :=
  match t.slotOf subject with
  | none => (t, none)
  | some s => (t.claim s subject, some s)

/-- The record of a used slot is written. -/
def write (t : Table) (s : Fin tableSize) (p : PerSubject) (h : t.used s = true) : Table :=
  { t with
    tbl := Function.update t.tbl s p
    fresh := by
      intro s' hfree
      by_cases hs : s' = s
      · subst hs
        rw [h] at hfree
        cases hfree
      · rw [Function.update_of_ne hs]
        exact t.fresh s' hfree }

theorem used_claim (t : Table) (s : Fin tableSize) (subject : UInt32) :
    (t.claim s subject).used s = true := by
  unfold claim
  split
  · assumption
  · simp

/-- `Record`: false when the table is full. -/
def record (t : Table) (subject : UInt32) (rttUS : Int64) (nowNS : UInt64) : Table × Bool :=
  match t.slotOf subject with
  | none => (t, false)
  | some s =>
    let t' := t.claim s subject
    (t'.write s ((t'.tbl s).record rttUS nowNS) (t.used_claim s subject), true)

/-- `BudgetFor` -/
def budgetFor (t : Table) (subject : UInt32) : Table × Int64 :=
  match t.slotOf subject with
  | none => (t, defaultBudget)
  | some s =>
    let t' := t.claim s subject
    (t'.write s (t'.tbl s).budget.1 (t.used_claim s subject), (t'.tbl s).budget.2)

/-- The samples recorded for a subject. -/
def samples (t : Table) (subject : UInt32) : Nat :=
  match t.slotOf subject with
  | none => 0
  | some s => (t.tbl s).count

/-- The zero value of a table. -/
def empty : Table where
  tbl _ := {}
  keys _ := 0
  used _ := false
  fresh _ _ := rfl

end Table

/-! ## The timed engine -/

def isTimingEvent (kind : UInt8) : Bool :=
  kind == eventHTTPRequest || kind == eventHTTP2Frame || kind == eventWebSocketFrame

/-- The round-trip time that a timing event carries. -/
def rttOf (ev : Event) : Int64 := Int64.ofNat ev.payload0.toNat

section

variable {σ : Type} (store : StateStore σ)

/-- `TimedProcess` under a policy with a table, if there is one: the state, the alerts, and the
status with the two flags. -/
def timedProcess (m : σ) (policy : Option Table) (ev : Event) (nowNS : UInt64) :
    (σ × Option Table) × List Alert × Status × Bool × Bool :=
  match policy with
  | none =>
    let (m, alerts, status, moved) := process store m ev
    ((m, none), alerts, status, moved, false)
  | some t =>
    if ev.subject ≠ 0 ∧ isTimingEvent ev.kind then
      let t := (t.record ev.subject (rttOf ev) nowNS).1
      let (t, budget) := t.budgetFor ev.subject
      if rttOf ev > budget then
        let (m, alerts, status, moved) := process store m { ev with kind := eventRateLimitTrip }
        ((m, some t), alerts, status, moved, false)
      else ((m, some t), [], statusNominal, false, true)
    else
      let (m, alerts, status, moved) := process store m ev
      ((m, some t), alerts, status, moved, false)

/-- The event moved the engine: the second value that `TimedProcess` returns. -/
def moves (m : σ) (policy : Option Table) (ev : Event) (nowNS : UInt64) : Bool :=
  (timedProcess store m policy ev nowNS).2.2.2.1

/-- One event, with the clock reading made for it. -/
def timedStep (s : σ × Option Table) (a : Event × UInt64) : Option (σ × Option Table) :=
  some (timedProcess store s.1 s.2 a.1 a.2).1

/-- A timing event moves the engine only when its subject has enough samples in the table by then
and its time is over the budget of the subject. -/
def Justified (s : σ × Option Table) (a : Event × UInt64) : Prop :=
  ∀ t, s.2 = some t → isTimingEvent a.1.kind = true →
    moves store s.1 s.2 a.1 a.2 = true →
    let recorded := (t.record a.1.subject (rttOf a.1) a.2).1
    minSamples ≤ recorded.samples a.1.subject ∧
      rttOf a.1 > (recorded.budgetFor a.1.subject).2

/-- Not the time of a nominal subject that is over the default budget, while the subject has no
place in the table or, with this event, fewer than `minSamples` samples. -/
def Absorbed (s : σ × Option Table) (a : Event × UInt64) : Prop :=
  ∀ t, s.2 = some t → ¬ (isTimingEvent a.1.kind = true ∧ a.1.subject ≠ 0 ∧
    current store s.1 a.1.subject = statusNominal ∧ rttOf a.1 > defaultBudget ∧
    (t.slotOf a.1.subject = none ∨ t.samples a.1.subject + 1 < minSamples))

end

/-! ## What recording does -/

section

variable {t : Table} {subject : UInt32} {s : Fin tableSize}

theorem taken_claim (h : t.slotOf subject = some s) :
    (t.claim s subject).taken = Function.update t.taken s (some subject) := by
  unfold Table.slotOf at h
  funext s'
  unfold Table.claim
  by_cases hused : t.used s = true
  · rw [if_pos hused]
    by_cases hs : s' = s
    · subst hs
      rcases admits_of_locate h with hfree | hown
      · simp [Table.taken, hused] at hfree
      · rw [hown, Function.update_self]
    · rw [Function.update_of_ne hs]
  · rw [if_neg hused]
    by_cases hs : s' = s
    · subst hs
      simp [Table.taken]
    · simp [Table.taken, Function.update_of_ne hs]

theorem tbl_claim (t : Table) (s : Fin tableSize) (subject : UInt32) :
    (t.claim s subject).tbl = t.tbl := by
  unfold Table.claim
  split <;> rfl

theorem taken_write (t : Table) (s : Fin tableSize) (p : PerSubject) (h : t.used s = true) :
    (t.write s p h).taken = t.taken := rfl

theorem record_of_full (h : t.slotOf subject = none) (rtt : Int64) (now : UInt64) :
    (t.record subject rtt now).1 = t := by
  simp only [Table.record, h]

/-- The sample goes into the slot where the probing stops, and the subject is found there from
then on. -/
theorem record_spec (h : t.slotOf subject = some s) (rtt : Int64) (now : UInt64) :
    (t.record subject rtt now).1.slotOf subject = some s ∧
      (t.record subject rtt now).1.tbl s = (t.tbl s).record rtt now := by
  have htaken := taken_claim h
  simp only [Table.record, h]
  constructor
  · unfold Table.slotOf at h ⊢
    exact (congrArg (fun f => locate f _ _ subject) htaken).trans (locate_update_self h)
  · simp only [Table.write, Function.update_self, tbl_claim]

theorem samples_record (h : t.slotOf subject = some s) (rtt : Int64) (now : UInt64) :
    (t.record subject rtt now).1.samples subject =
      if t.samples subject < sampleCap then t.samples subject + 1 else t.samples subject := by
  obtain ⟨hslot, hrecord⟩ := record_spec h rtt now
  simp only [Table.samples, hslot, hrecord, h, PerSubject.record]

/-- In the warm-up the budget is the default. -/
theorem budgetFor_of_warmup (h : t.samples subject < minSamples) :
    (t.budgetFor subject).2 = defaultBudget := by
  unfold Table.samples at h
  unfold Table.budgetFor
  cases hslot : t.slotOf subject with
  | none => rfl
  | some s =>
    simp only [hslot] at h
    simp only [tbl_claim, PerSubject.budget, if_pos h]

end

/-! ## When the engine moves -/

section

variable {σ : Type} {store : StateStore σ} {m : σ} {t : Table} {ev : Event} {now : UInt64}

theorem current_lt (store : StateStore σ) (m : σ) (subject : UInt32) :
    current store m subject < 4 := by
  simp only [current]
  split
  · decide
  · rename_i h
    exact UInt8.not_le.mp h

/-- A rate-limit trip moves a subject exactly from nominal. -/
theorem process_rateLimitTrip (hsubject : ev.subject ≠ 0) :
    (process store m { ev with kind := eventRateLimitTrip }).2.2.2 = true ↔
      current store m ev.subject = statusNominal := by
  obtain ⟨p, hp⟩ := exists_code (current_lt store m ev.subject)
  have hkind : ¬ (16 : UInt8) ≤ eventRateLimitTrip := by decide
  have htable := defaultTable_eq p (UInt8.not_le.mp hkind) { ev with kind := eventRateLimitTrip }
  unfold process
  simp only [hsubject, if_false, hkind, ← hp, htable]
  cases p with
  | nominal => exact iff_of_true rfl rfl
  | challenge => exact iff_of_false Bool.false_ne_true (by decide)
  | deception => exact iff_of_false Bool.false_ne_true (by decide)
  | containment => exact iff_of_false Bool.false_ne_true (by decide)

/-- A timing event moves the engine when its time is over the budget and its subject nominal. -/
theorem moves_iff (htiming : isTimingEvent ev.kind = true) (hsubject : ev.subject ≠ 0) :
    moves store m (some t) ev now = true ↔
      rttOf ev > ((t.record ev.subject (rttOf ev) now).1.budgetFor ev.subject).2 ∧
        current store m ev.subject = statusNominal := by
  unfold moves timedProcess
  simp only [hsubject, htiming, ne_eq, not_false_eq_true, and_self, if_true]
  split
  · rename_i hlate
    rw [process_rateLimitTrip hsubject]
    exact (and_iff_right hlate).symm
  · rename_i hearly
    exact iff_of_false Bool.false_ne_true (fun h => hearly h.1)

theorem not_moves_of_subject_zero (hsubject : ev.subject = 0) :
    moves store m (some t) ev now = false := by
  simp [moves, timedProcess, process, hsubject]

/-- One event is justified exactly when it is not the one that a warm-up lets through. -/
theorem justified_iff (s : σ × Option Table) (a : Event × UInt64) :
    Justified store s a ↔ Absorbed store s a := by
  obtain ⟨m, policy⟩ := s
  obtain ⟨ev, now⟩ := a
  constructor
  · rintro hjust t rfl ⟨htiming, hsubject, hnominal, hlate, hfew⟩
    -- the budget is the default one, so the event moves the engine with too few samples
    have hshort : (t.record ev.subject (rttOf ev) now).1.samples ev.subject < minSamples := by
      cases hslot : t.slotOf ev.subject with
      | none =>
        rw [record_of_full hslot]
        simp only [Table.samples, hslot]
        decide
      | some s =>
        rcases hfew with hnone | hfew
        · rw [hslot] at hnone
          cases hnone
        · rw [samples_record hslot]
          split
          · exact hfew
          · exact lt_trans (Nat.lt_succ_self _) hfew
    have hmoves : moves store m (some t) ev now = true := by
      rw [moves_iff htiming hsubject, budgetFor_of_warmup hshort]
      exact ⟨hlate, hnominal⟩
    exact absurd (hjust t rfl htiming hmoves).1 (not_le.mpr hshort)
  · rintro habs t rfl htiming hmoves
    have hsubject : ev.subject ≠ 0 := by
      intro hzero
      rw [not_moves_of_subject_zero hzero] at hmoves
      cases hmoves
    obtain ⟨hlate, hnominal⟩ := (moves_iff htiming hsubject).mp hmoves
    refine ⟨?_, hlate⟩
    by_contra hshort
    rw [not_le] at hshort
    rw [budgetFor_of_warmup hshort] at hlate
    refine habs t rfl ⟨htiming, hsubject, hnominal, hlate, ?_⟩
    cases hslot : t.slotOf ev.subject with
    | none => exact Or.inl rfl
    | some s =>
      right
      rw [samples_record hslot] at hshort
      have hcap : sampleCap = 32 := rfl
      have hmin : minSamples = 4 := rfl
      split at hshort
      · exact hshort
      · omega

end

/-- In every run from any store and any table, each timing event is justified exactly when each
is absorbed where its subject is still unknown. -/
theorem timing_justified_iff {σ : Type} (store : StateStore σ) (start final : σ × Option Table)
    (events : List (Event × UInt64)) :
    Run (timedStep store) (Justified store) start events final ↔
      Run (timedStep store) (Absorbed store) start events final := by
  constructor
  · exact fun hrun => hrun.mono fun s a => (justified_iff s a).mp
  · exact fun hrun => hrun.mono fun s a => (justified_iff s a).mpr

/-- A first request of 300 ms moves a subject of an empty table. -/
theorem timing_moves_fresh_subject :
    ¬ Justified functionStore (fun _ => none, some Table.empty)
      (⟨eventHTTPRequest, 5, 0, 300000, 0⟩, 0) := by
  rw [justified_iff]
  intro habs
  refine habs Table.empty rfl ⟨rfl, by decide, rfl, by decide, Or.inr ?_⟩
  have hzero : Table.empty.samples 5 = 0 := by
    unfold Table.samples
    cases Table.empty.slotOf 5 <;> rfl
  rw [hzero]
  decide

/-! ## The status that is reported -/

section

variable {σ : Type} (store : StateStore σ)

/-- The status and the flag that a call returns are those of the store: the status that it holds
for the subject after the call, and whether the call changed it. -/
def Reports (m m' : σ) (subject : UInt32) (status : Status) (moved : Bool) : Prop :=
  status = (store.get m' subject).1 ∧
    (moved = true ↔ (store.get m' subject).1 ≠ (store.get m subject).1)

/-- `TimedProcess` reports the store's status. -/
def ReportsStatus (s : σ × Option Table) (ev : Event) (nowNS : UInt64) : Prop :=
  let called := timedProcess store s.1 s.2 ev nowNS
  Reports store s.1 called.1.1 ev.subject called.2.2.1 called.2.2.2.1

/-- No time within the budget, unless it is that of a nominal subject. -/
def NominalIfEarly (s : σ × Option Table) (ev : Event) (nowNS : UInt64) : Prop :=
  ∀ t, s.2 = some t → isTimingEvent ev.kind = true →
    rttOf ev ≤ ((t.record ev.subject (rttOf ev) nowNS).1.budgetFor ev.subject).2 →
      (store.get s.1 ev.subject).1 = statusNominal

variable {store} {m : σ} {ev : Event} {nowNS : UInt64}

/-- `Process` reports the status, where the store holds one. -/
theorem process_reports (laws : MapLike store) (hheld : (store.get m ev.subject).1 < 4)
    (hsubject : ev.subject ≠ 0) :
    Reports store m (process store m ev).1 ev.subject (process store m ev).2.2.1
      (process store m ev).2.2.2 := by
  have hcurrent : current store m ev.subject = (store.get m ev.subject).1 :=
    if_neg (UInt8.not_le.mpr hheld)
  have hstays : Reports store m m ev.subject (current store m ev.subject) false :=
    ⟨hcurrent, iff_of_false Bool.false_ne_true (fun h => h rfl)⟩
  unfold process
  rw [if_neg hsubject]
  dsimp only
  split
  · exact hstays
  · split
    · exact hstays
    · rename_i hnext
      unfold Reports
      dsimp only
      rw [laws.get_set_self, ← hcurrent]
      exact ⟨rfl, iff_of_true rfl hnext⟩

/-- A call reports the status exactly when it absorbs the time of a nominal subject or nothing. -/
theorem reportsStatus_iff (laws : MapLike store) {policy : Option Table}
    (hheld : (store.get m ev.subject).1 < 4) (hsubject : ev.subject ≠ 0) :
    ReportsStatus store (m, policy) ev nowNS ↔ NominalIfEarly store (m, policy) ev nowNS := by
  unfold ReportsStatus NominalIfEarly
  cases policy with
  | none => exact iff_of_true (process_reports laws hheld hsubject) nofun
  | some t =>
    have hsome : (∀ t', some t = some t' → isTimingEvent ev.kind = true →
        rttOf ev ≤ ((t'.record ev.subject (rttOf ev) nowNS).1.budgetFor ev.subject).2 →
          (store.get m ev.subject).1 = statusNominal) ↔
        (isTimingEvent ev.kind = true →
          rttOf ev ≤ ((t.record ev.subject (rttOf ev) nowNS).1.budgetFor ev.subject).2 →
            (store.get m ev.subject).1 = statusNominal) := by
      constructor
      · exact fun h => h t rfl
      · rintro h t' ⟨⟩
        exact h
    refine Iff.trans ?_ hsome.symm
    unfold timedProcess
    by_cases htiming : isTimingEvent ev.kind = true
    · simp only [hsubject, htiming, ne_eq, not_false_eq_true, and_self, if_true, true_implies]
      split
      · rename_i hlate
        refine iff_of_true ?_ fun hearly => absurd hlate (Int64.not_lt.mpr hearly)
        exact @process_reports σ store m { ev with kind := eventRateLimitTrip } laws hheld hsubject
      · rename_i hearly
        -- the time is absorbed: the call reports `Nominal` and leaves the store as it is
        constructor
        · exact fun h _ => h.1.symm
        · intro h
          exact ⟨(h (Int64.not_lt.mp hearly)).symm,
            iff_of_false Bool.false_ne_true (fun h => h rfl)⟩
    · refine iff_of_true ?_ fun h => absurd h htiming
      dsimp only
      rw [if_neg (fun h : ev.subject ≠ 0 ∧ isTimingEvent ev.kind = true => htiming h.2)]
      exact process_reports laws hheld hsubject

/-- In every reachable state the store holds a status. -/
theorem held_of_run (laws : MapLike store) {m₀ : σ} (hempty : store.Empty m₀)
    {policy : Option Table} {events : List (Event × UInt64)} {s : σ × Option Table}
    (hrun : AnyRun (timedStep store) (m₀, policy) events s) (subject : UInt32) :
    (store.get s.1 subject).1 < 4 := by
  have hstart : ∃ posture, Tracks store m₀ posture := by
    refine ⟨fun _ => .nominal, fun subject => ?_⟩
    rw [hempty subject]
    rfl
  have hprocess (m : σ) (ev : Event) (h : ∃ posture, Tracks store m posture) :
      ∃ posture, Tracks store (process store m ev).1 posture := by
    obtain ⟨posture, htracks⟩ := h
    by_cases hzero : ev.subject = 0
    · rw [(process_ignored store m (Or.inl hzero)).1]
      exact ⟨posture, htracks⟩
    · exact ⟨_, (htracks.process laws hzero).1⟩
  obtain ⟨posture, htracks⟩ := hrun.invariant (I := fun s => ∃ posture, Tracks store s.1 posture)
    hstart (fun t a u ht _ hu => by
      cases hu
      unfold timedProcess
      split
      · exact hprocess _ _ ht
      · split
        · dsimp only
          split
          · exact hprocess _ _ ht
          · exact ht
        · exact hprocess _ _ ht)
  rw [htracks subject]
  exact code_lt _

end

/-- In every reachable state and for every event with a subject, `TimedProcess` reports the status
of the store exactly when it does not absorb the time of a subject that is not nominal. -/
theorem status_reported_iff {σ : Type} (store : StateStore σ) (laws : MapLike store) (m₀ : σ)
    (hempty : store.Empty m₀) (policy : Option Table) (events : List (Event × UInt64))
    (s : σ × Option Table) (hrun : AnyRun (timedStep store) (m₀, policy) events s) (ev : Event)
    (hsubject : ev.subject ≠ 0) (nowNS : UInt64) :
    ReportsStatus store s ev nowNS ↔ NominalIfEarly store s ev nowNS :=
  reportsStatus_iff laws (held_of_run laws hempty hrun ev.subject) hsubject

theorem samples_empty (subject : UInt32) : Table.empty.samples subject = 0 := by
  unfold Table.samples
  cases Table.empty.slotOf subject <;> rfl

/-- The first time of a subject is within the default budget. -/
theorem budgetFor_first (subject : UInt32) (rtt : Int64) (nowNS : UInt64) :
    ((Table.empty.record subject rtt nowNS).1.budgetFor subject).2 = defaultBudget := by
  apply budgetFor_of_warmup
  cases hslot : Table.empty.slotOf subject with
  | none =>
    rw [record_of_full hslot, samples_empty]
    decide
  | some s =>
    rw [samples_record hslot, samples_empty]
    decide

/-- A canary touch has moved the subject 5. -/
def touched : (UInt32 → Option Status) × Option Table :=
  (Function.update (fun _ => none) 5 (some statusChallenge), some Table.empty)

theorem touched_reached : AnyRun (timedStep functionStore) (fun _ => none, some Table.empty)
    [(⟨eventCanaryTouch, 5, 0, 0, 0⟩, 0)] touched :=
  Run.single trivial rfl

/-- A rate-limit trip leaves it where it is. -/
theorem status_reported_trip :
    functionStore.get touched.1 5 = (statusChallenge, true) ∧
      (ReportsStatus functionStore touched ⟨eventRateLimitTrip, 5, 0, 0, 0⟩ 0 ↔
        NominalIfEarly functionStore touched ⟨eventRateLimitTrip, 5, 0, 0, 0⟩ 0) :=
  ⟨rfl, status_reported_iff functionStore functionStore_mapLike _ (fun _ => rfl) _ _ _
    touched_reached _ (by decide) 0⟩

/-- Its request, which takes a microsecond, is reported as that of a nominal subject. -/
theorem absorbed_reports_nominal :
    AnyRun (timedStep functionStore) (fun _ => none, some Table.empty)
        [(⟨eventCanaryTouch, 5, 0, 0, 0⟩, 0)] touched ∧
      ¬ ReportsStatus functionStore touched ⟨eventHTTPRequest, 5, 0, 1, 0⟩ 0 := by
  refine ⟨touched_reached, ?_⟩
  unfold touched
  rw [reportsStatus_iff functionStore_mapLike (by decide) (by decide)]
  intro hnominal
  have hearly : rttOf ⟨eventHTTPRequest, 5, 0, 1, 0⟩ ≤
      ((Table.empty.record 5 (rttOf ⟨eventHTTPRequest, 5, 0, 1, 0⟩) 0).1.budgetFor 5).2 := by
    rw [budgetFor_first]
    decide
  exact absurd (hnominal Table.empty rfl rfl hearly) (by decide)

end ZaqorinCore.Agent.Timing
