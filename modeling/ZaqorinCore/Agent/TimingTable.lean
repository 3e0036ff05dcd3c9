import ZaqorinCore.Agent.Budget

/-!
# The timing table as a bounded map

The table hands a slot to every subject that asks for one, until `tableSize` subjects have theirs.
A slot stays with its subject, and its ring holds the samples that were recorded for the subject
and no others: `bounded_map`. The rings are compared up to their caches and the times at which they
were written, which no budget depends on.
-/

namespace ZaqorinCore.Agent.Timing

open ZaqorinCore.Base

/-! ## Calls on the table -/

inductive TableCall
  | getOrCreate (subject : UInt32)
  | record (subject : UInt32) (rttUS : Int64) (nowNS : UInt64)
  | budgetFor (subject : UInt32)

/-- What `GetOrCreate` returned for which subject, also when `Record` or `BudgetFor` called it. -/
abbrev Handed : Type := List (UInt32 × Option (Fin tableSize))

/-- A table with the slots it handed out, the samples it recorded for each subject, and the budgets
it returned, each with the samples of its subject by then. -/
structure TableRun where
  table : Table
  handed : Handed
  samples : UInt32 → List Int64
  budgets : List (List Int64 × Int64)

def TableRun.start : TableRun := ⟨Table.empty, [], fun _ => [], []⟩

def TableRun.step (r : TableRun) : TableCall → Option TableRun
  | .getOrCreate subject => some { r with
      table := (r.table.getOrCreate subject).1
      handed := (subject, (r.table.getOrCreate subject).2) :: r.handed }
  | .record subject rttUS nowNS =>
    let result := r.table.record subject rttUS nowNS
    some { r with
      table := result.1
      handed := (subject, (r.table.getOrCreate subject).2) :: r.handed
      samples :=
        if result.2 then Function.update r.samples subject (r.samples subject ++ [rttUS])
        else r.samples }
  | .budgetFor subject => some { r with
      table := (r.table.budgetFor subject).1
      handed := (subject, (r.table.getOrCreate subject).2) :: r.handed
      budgets := (r.samples subject, (r.table.budgetFor subject).2) :: r.budgets }

/-- The record of a subject for which these samples were recorded. -/
def recordAll (samples : List Int64) : PerSubject :=
  samples.foldl (fun p rttUS => p.record rttUS 0) {}

/-- The budget after these samples. -/
def budgetOf (samples : List Int64) : Int64 := (recordAll samples).budget.2

/-- The subjects that were handed a slot. -/
def seated (handed : Handed) : Finset UInt32 :=
  (handed.filterMap fun h => h.2.map fun _ => h.1).toFinset

/-- A map from subjects to rings with room for `tableSize` subjects. -/
structure BoundedMap (r : TableRun) : Prop where
  same : ∀ h ∈ r.handed, ∀ h' ∈ r.handed, h.1 = h'.1 → h.2 = h'.2
  apart : ∀ h ∈ r.handed, ∀ h' ∈ r.handed, h.1 ≠ h'.1 → ∀ s, h.2 = some s → h'.2 ≠ some s
  none_iff : ∀ subject, (r.table.getOrCreate subject).2 = none ↔
    subject ∉ seated r.handed ∧ (seated r.handed).card = tableSize
  own : ∀ subject s, (r.table.getOrCreate subject).2 = some s →
    Alike (r.table.tbl s) (recordAll (r.samples subject))
  budget : ∀ b ∈ r.budgets, b.2 = budgetOf b.1

/-! ## The invariant -/

theorem mem_seated {handed : Handed} {subject : UInt32} :
    subject ∈ seated handed ↔ ∃ s, (subject, some s) ∈ handed := by
  unfold seated
  rw [List.mem_toFinset, List.mem_filterMap]
  constructor
  · rintro ⟨⟨other, slot⟩, hmem, hslot⟩
    obtain ⟨s, rfl, rfl⟩ := Option.map_eq_some_iff.mp hslot
    exact ⟨s, hmem⟩
  · rintro ⟨s, hmem⟩
    exact ⟨(subject, some s), hmem, rfl⟩

theorem recordAll_snoc (samples : List Int64) (rttUS : Int64) :
    recordAll (samples ++ [rttUS]) = (recordAll samples).record rttUS 0 := by
  unfold recordAll
  rw [List.foldl_append, List.foldl_cons, List.foldl_nil]

theorem cached_recordAll (samples : List Int64) : Cached (recordAll samples) := by
  induction samples using List.reverseRecOn with
  | nil => exact Cached.zero
  | append_singleton samples rttUS _ =>
    rw [recordAll_snoc]
    exact Cached.record _ _ _

/-- The time at which a sample is recorded does not show in the ring. -/
theorem alike_record_snoc {p : PerSubject} {samples : List Int64}
    (h : Alike p (recordAll samples)) (rttUS : Int64) (nowNS : UInt64) :
    Alike (p.record rttUS nowNS) (recordAll (samples ++ [rttUS])) := by
  rw [recordAll_snoc]
  exact (h.record rttUS nowNS).trans ⟨rfl, rfl, rfl⟩

/-- The probing starts at the subject's number. -/
def home (subject : UInt32) : Nat := subject.toNat % tableSize

/-- The slots are those that were handed out, each with the samples of its subject. -/
structure Tracks (t : Table) (handed : Handed) (samples : UInt32 → List Int64) : Prop where
  placed : Placed t.taken tableSize_pos home
  slot : ∀ subject s, t.taken s = some subject ↔ (subject, some s) ∈ handed
  turned : ∀ subject, (subject, none) ∈ handed → t.slotOf subject = none
  ring : ∀ subject s, t.taken s = some subject →
    Alike (t.tbl s) (recordAll (samples subject))
  cached : ∀ s, Cached (t.tbl s)
  unseated : ∀ subject, (∀ s, t.taken s ≠ some subject) → samples subject = []

theorem slotOf_eq (t : Table) (subject : UInt32) :
    t.slotOf subject = locate t.taken tableSize_pos home subject := by
  unfold Table.slotOf
  rfl

theorem getOrCreate_slot (t : Table) (subject : UInt32) :
    (t.getOrCreate subject).2 = t.slotOf subject := by
  unfold Table.getOrCreate
  cases h : t.slotOf subject with
  | none => rfl
  | some s => rfl

namespace Tracks

variable {t : Table} {handed : Handed} {samples : UInt32 → List Int64} {subject : UInt32}
  {s : Fin tableSize}

theorem start : Tracks Table.empty [] fun _ => [] where
  placed := placed_empty
  slot _ _ := by
    show none = some _ ↔ _
    simp
  turned _ h := nomatch h
  ring _ _ h := nomatch h
  cached _ := Cached.zero
  unseated _ _ := rfl

/-- A free slot holds nothing, and the subject that finds it has no samples yet. -/
theorem ring_found (h : Tracks t handed samples) (hslot : t.slotOf subject = some s) :
    Alike (t.tbl s) (recordAll (samples subject)) := by
  rw [slotOf_eq] at hslot
  rcases admits_of_locate hslot with hfree | hown
  · have hunused : t.used s = false := by
      unfold Table.taken at hfree
      split at hfree
      · cases hfree
      · simpa using ‹¬ t.used s = true›
    have hnone : samples subject = [] := by
      apply h.unseated
      intro s' hs'
      have hfound := h.placed s' subject hs'
      rw [hslot] at hfound
      obtain rfl := Option.some.inj hfound
      rw [hfree] at hs'
      cases hs'
    rw [t.fresh s hunused, hnone]
    exact Alike.refl _
  · exact h.ring subject s hown

/-- A subject that finds no place changes nothing. -/
theorem full (h : Tracks t handed samples) (hslot : t.slotOf subject = none) :
    Tracks t ((subject, none) :: handed) samples where
  placed := h.placed
  slot other s := by
    rw [h.slot, List.mem_cons]
    constructor
    · exact Or.inr
    · rintro (heq | hmem)
      · cases heq
      · exact hmem
  turned other hmem := by
    rcases List.mem_cons.mp hmem with heq | hmem
    · cases heq
      exact hslot
    · exact h.turned other hmem
  ring := h.ring
  cached := h.cached
  unseated := h.unseated

/-- The slot that a subject finds becomes its own. -/
theorem claim (h : Tracks t handed samples) (hslot : t.slotOf subject = some s) :
    Tracks (t.claim s subject) ((subject, some s) :: handed) samples where
  placed := by
    rw [taken_claim hslot]
    rw [slotOf_eq] at hslot
    exact h.placed.update hslot
  slot other s' := by
    rw [taken_claim hslot, Function.update_apply, List.mem_cons]
    by_cases hs : s' = s
    · subst hs
      rw [if_pos rfl]
      constructor
      · rintro heq
        cases heq
        exact Or.inl rfl
      · rintro (heq | hmem)
        · cases heq
          rfl
        · have htaken := (h.slot other s').mpr hmem
          rw [slotOf_eq] at hslot
          rcases admits_of_locate hslot with hfree | hown
          · rw [hfree] at htaken
            cases htaken
          · rwa [hown] at htaken
    · rw [if_neg hs, h.slot]
      constructor
      · exact Or.inr
      · rintro (heq | hmem)
        · cases heq
          exact absurd rfl hs
        · exact hmem
  turned other hmem := by
    have hnone : t.slotOf other = none := by
      rcases List.mem_cons.mp hmem with heq | hmem
      · cases heq
      · exact h.turned other hmem
    -- a full table has no slot left to take
    have hsame : (t.claim s subject).taken = t.taken := by
      rw [slotOf_eq] at hnone
      obtain ⟨occupant, -, hoccupant⟩ := taken_of_locate_eq_none hnone s
      have hfound := hslot
      rw [slotOf_eq] at hfound
      rcases admits_of_locate hfound with hfree | hown
      · rw [hfree] at hoccupant
        cases hoccupant
      · rw [taken_claim hslot, ← hown, Function.update_eq_self]
    rw [slotOf_eq] at hnone ⊢
    rw [hsame]
    exact hnone
  ring other s' htaken := by
    rw [tbl_claim]
    rw [taken_claim hslot, Function.update_apply] at htaken
    by_cases hs : s' = s
    · rw [if_pos hs] at htaken
      cases htaken
      rw [hs]
      exact h.ring_found hslot
    · rw [if_neg hs] at htaken
      exact h.ring other s' htaken
  cached s' := by
    rw [tbl_claim]
    exact h.cached s'
  unseated other hother := by
    rw [taken_claim hslot] at hother
    apply h.unseated
    intro s' hs'
    apply hother s'
    rw [Function.update_apply]
    split
    · rename_i hs
      subst hs
      rw [slotOf_eq] at hslot
      rcases admits_of_locate hslot with hfree | hown
      · rw [hfree] at hs'
        cases hs'
      · exact hown.symm.trans hs'
    · exact hs'

/-- The record of a subject in its slot is replaced. -/
theorem write (h : Tracks t handed samples) (htaken : t.taken s = some subject) {p : PerSubject}
    (hused : t.used s = true) {xs : List Int64} (hp : Alike p (recordAll xs)) (hcached : Cached p) :
    Tracks (t.write s p hused) handed (Function.update samples subject xs) where
  placed := h.placed
  slot := h.slot
  turned other hmem := by
    have hnone := h.turned other hmem
    rw [slotOf_eq] at hnone ⊢
    exact hnone
  ring other s' hother := by
    rw [taken_write] at hother
    show Alike (Function.update t.tbl s p s') _
    by_cases hs : s' = s
    · subst hs
      rw [htaken] at hother
      cases hother
      rw [Function.update_self, Function.update_self]
      exact hp
    · have hne : other ≠ subject := by
        rintro rfl
        exact hs (h.placed.slot_unique hother htaken)
      rw [Function.update_of_ne hs, Function.update_of_ne hne]
      exact h.ring other s' hother
  cached s' := by
    show Cached (Function.update t.tbl s p s')
    by_cases hs : s' = s
    · subst hs
      rw [Function.update_self]
      exact hcached
    · rw [Function.update_of_ne hs]
      exact h.cached s'
  unseated other hother := by
    have hne : other ≠ subject := by
      rintro rfl
      exact hother s htaken
    rw [Function.update_of_ne hne]
    exact h.unseated other hother

/-- A subject that found its slot has the record in it replaced. -/
theorem claim_write (h : Tracks t handed samples) (hslot : t.slotOf subject = some s)
    {p : PerSubject} {xs : List Int64} (hp : Alike p (recordAll xs)) (hcached : Cached p) :
    Tracks ((t.claim s subject).write s p (t.used_claim s subject)) ((subject, some s) :: handed)
      (Function.update samples subject xs) := by
  have htaken : (t.claim s subject).taken s = some subject := by
    rw [taken_claim hslot, Function.update_self]
  exact (h.claim hslot).write htaken _ hp hcached

/-- What a subject was handed is what it is handed now. -/
theorem handed_eq (h : Tracks t handed samples) {slot : Option (Fin tableSize)}
    (hmem : (subject, slot) ∈ handed) : t.slotOf subject = slot := by
  cases slot with
  | none => exact h.turned subject hmem
  | some s =>
    rw [slotOf_eq]
    exact h.placed s subject ((h.slot subject s).mpr hmem)

theorem budget_eq (h : Tracks t handed samples) (subject : UInt32) :
    (t.budgetFor subject).2 = budgetOf (samples subject) := by
  unfold Table.budgetFor
  cases hslot : t.slotOf subject with
  | none =>
    have hnone : samples subject = [] := by
      apply h.unseated
      intro s hs
      have hfound := h.placed s subject hs
      rw [← slotOf_eq, hslot] at hfound
      cases hfound
    rw [hnone]
    rfl
  | some s =>
    dsimp only
    rw [tbl_claim]
    exact (h.cached s).budget_congr (cached_recordAll _) (h.ring_found hslot)

end Tracks

/-! ## Runs of the table -/

/-- The slots are those that were handed out, and every budget is that of the samples by then. -/
def TableRun.Sound (r : TableRun) : Prop :=
  Tracks r.table r.handed r.samples ∧ ∀ b ∈ r.budgets, b.2 = budgetOf b.1

theorem TableRun.Sound.bounded {r : TableRun} (h : r.Sound) : BoundedMap r where
  same := by
    rintro ⟨subject, slot⟩ hmem ⟨_, slot'⟩ hmem' rfl
    exact (h.1.handed_eq hmem).symm.trans (h.1.handed_eq hmem')
  apart := by
    rintro ⟨subject, slot⟩ hmem ⟨other, slot'⟩ hmem' hne s rfl rfl
    have htaken := (h.1.slot subject s).mpr hmem
    rw [(h.1.slot other s).mpr hmem'] at htaken
    exact hne (Option.some.inj htaken).symm
  none_iff subject := by
    rw [getOrCreate_slot, slotOf_eq]
    apply h.1.placed.locate_eq_none_iff
    intro other
    rw [mem_seated]
    simp only [h.1.slot]
  own subject s hslot := by
    rw [getOrCreate_slot] at hslot
    exact h.1.ring_found hslot
  budget := h.2

/-- What one call keeps. -/
theorem TableRun.Sound.step {r r' : TableRun} {call : TableCall} (h : r.Sound)
    (hstep : r.step call = some r') : r'.Sound := by
  obtain ⟨htracks, hbudgets⟩ := h
  cases call with
  | getOrCreate subject =>
    cases hstep
    refine ⟨?_, hbudgets⟩
    unfold Table.getOrCreate
    cases hslot : r.table.slotOf subject with
    | none => exact htracks.full hslot
    | some s => exact htracks.claim hslot
  | record subject rttUS nowNS =>
    cases hstep
    refine ⟨?_, hbudgets⟩
    dsimp only
    rw [getOrCreate_slot]
    unfold Table.record
    cases hslot : r.table.slotOf subject with
    | none => exact htracks.full hslot
    | some s =>
      have hring := htracks.ring_found hslot
      rw [← tbl_claim r.table s subject] at hring
      exact htracks.claim_write hslot (alike_record_snoc hring rttUS nowNS) (Cached.record _ _ _)
  | budgetFor subject =>
    have hbudget := htracks.budget_eq subject
    cases hstep
    constructor
    · dsimp only
      rw [getOrCreate_slot]
      unfold Table.budgetFor
      cases hslot : r.table.slotOf subject with
      | none => exact htracks.full hslot
      | some s =>
        have hring := htracks.ring_found hslot
        have hcached := htracks.cached s
        rw [← tbl_claim r.table s subject] at hring hcached
        have hwritten := htracks.claim_write hslot (hcached.budget.1.symm.trans hring)
          hcached.budget.2
        rwa [Function.update_eq_self] at hwritten
    · intro b hb
      rcases List.mem_cons.mp hb with rfl | hb
      · exact hbudget
      · exact hbudgets b hb

/-- After every sequence of calls the table is a bounded map. -/
theorem bounded_map (calls : List TableCall) (r : TableRun)
    (h : AnyRun TableRun.step TableRun.start calls r) : BoundedMap r := by
  have hstart : TableRun.start.Sound := ⟨Tracks.start, nofun⟩
  have hsound : r.Sound := h.invariant hstart fun _ _ _ hs _ hstep => hs.step hstep
  exact hsound.bounded

/-- Two subjects with one home, and the budget of the second. -/
def collidingCalls : List TableCall :=
  [.record 1 300000 1, .record 4097 900000 2, .getOrCreate 1, .budgetFor 4097]

theorem bounded_map_colliding :
    ∃ r, AnyRun TableRun.step TableRun.start collidingCalls r ∧
      r.handed.map (fun h => h.2.map Fin.val) = [some 2, some 1, some 2, some 1] ∧
      BoundedMap r := by
  have hcheck : ∃ r, AnyRun TableRun.step TableRun.start collidingCalls r ∧
      decide (r.handed.map (fun h => h.2.map Fin.val) = [some 2, some 1, some 2, some 1]) = true :=
    run_of_check (by decide +kernel)
  obtain ⟨r, hrun, hr⟩ := hcheck
  exact ⟨r, hrun, of_decide_eq_true hr, bounded_map collidingCalls r hrun⟩

end ZaqorinCore.Agent.Timing
