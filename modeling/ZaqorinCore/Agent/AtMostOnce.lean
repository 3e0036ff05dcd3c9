import ZaqorinCore.Agent.Handler

/-!
# At most once

An id that is in flight or remembered is not executed again, and the memory holds the ids whose
record is latest. `applied_at_most_once` says what that gives for every interleaving: when an
executor of an id succeeds a second time, at least `maxAppliedCommandIDs` other ids have been
recorded at a clock reading not earlier than the record of the first success. Counting instead
the successes since the first one is not enough: the clock may stand still, and then the map's
walk, not the age, decides which entry goes (`second_success_after_one_other`).
-/

namespace ZaqorinCore.Agent

open Text Base

namespace Handler

/-- The other ids recorded at `reading` or later. -/
def recordedSince (log : List Entry) (id : Bytes) (reading : Int) : Finset Bytes :=
  (log.filterMap fun
    | .recorded k at_ => if k ≠ id ∧ reading ≤ at_ then some k else none
    | _ => none).toFinset

/-- The other ids with a successful executor in a part of the log. -/
def succeededIn (log : List Entry) (id : Bytes) : Finset Bytes :=
  (log.filterMap fun
    | .succeeded k => if k ≠ id then some k else none
    | _ => none).toFinset

/-- Between two successes of an id, the executors of many other ids succeeded. -/
def OnceBySuccesses (log : List Entry) : Prop :=
  ∀ l₁ l₂ l₃ id, log = l₁ ++ .succeeded id :: (l₂ ++ .succeeded id :: l₃) →
    maxAppliedCommandIDs ≤ (succeededIn l₂ id).card

/-- Before a second success of an id, the first one was recorded, and many other ids were
recorded no earlier. -/
def OnceByRecords (log : List Entry) : Prop :=
  ∀ l₁ l₂ l₃ id, log = l₁ ++ .succeeded id :: (l₂ ++ .succeeded id :: l₃) →
    ∃ reading, .recorded id reading ∈ l₂ ∧
      maxAppliedCommandIDs ≤ (recordedSince (l₁ ++ .succeeded id :: l₂) id reading).card

/-- No two executors run for one id. -/
def ExecutorsDisjoint (h : Handler) : Prop :=
  ∀ i j cmd cmd', h.calls i = some ⟨cmd, .running⟩ → h.calls j = some ⟨cmd', .running⟩ →
    cmd.id = cmd'.id → i = j

/-! ## The log -/

theorem mem_recordedSince {log : List Entry} {id k : Bytes} {reading : Int} :
    k ∈ recordedSince log id reading ↔
      k ≠ id ∧ ∃ at_, reading ≤ at_ ∧ Entry.recorded k at_ ∈ log := by
  unfold recordedSince
  rw [List.mem_toFinset, List.mem_filterMap]
  constructor
  · rintro ⟨e, he, hk⟩
    cases e with
    | recorded k' at_ =>
      dsimp only at hk
      split at hk
      · rename_i hcond
        cases hk
        exact ⟨hcond.1, at_, hcond.2, he⟩
      · cases hk
    | succeeded _ => cases hk
    | returned _ _ => cases hk
  · rintro ⟨hne, at_, hle, he⟩
    refine ⟨_, he, ?_⟩
    dsimp only
    rw [if_pos ⟨hne, hle⟩]

theorem card_recordedSince_mono {log log' : List Entry} {id : Bytes} {reading : Int}
    (h : ∀ e ∈ log, e ∈ log') :
    (recordedSince log id reading).card ≤ (recordedSince log' id reading).card := by
  refine Finset.card_le_card fun k hk => ?_
  obtain ⟨hne, at_, hle, he⟩ := mem_recordedSince.mp hk
  exact mem_recordedSince.mpr ⟨hne, at_, hle, h _ he⟩

/-- An entry that is no success adds no second success. -/
theorem OnceByRecords.snoc {log : List Entry} (h : OnceByRecords log) {e : Entry}
    (he : ∀ id, e ≠ .succeeded id) : OnceByRecords (log ++ [e]) := by
  intro l₁ l₂ l₃ id hlog
  rw [← List.cons_append, ← List.append_assoc] at hlog
  rcases split_snoc hlog with ⟨-, rfl, -⟩ | ⟨l₃', -, hlog'⟩
  · exact absurd rfl (he id)
  · refine h l₁ l₂ l₃' id ?_
    rw [hlog', List.append_assoc, List.cons_append]

/-! ## The invariant -/

/-- What the calls and the two maps have to do with each other. -/
structure Reserved (h : Handler) : Prop where
  holds : ∀ i call, h.calls i = some call → call.pc.holds = true → call.cmd.id ∈ h.inFlight
  alone : ∀ i j ci cj, h.calls i = some ci → h.calls j = some cj → ci.pc.holds = true →
    cj.pc.holds = true → ci.cmd.id = cj.cmd.id → i = j
  fresh : ∀ i call, h.calls i = some call → call.pc.holds = true → call.pc ≠ .remembered →
    ∀ reading, (call.cmd.id, reading) ∉ h.appliedAt
  named : ∀ i call, h.calls i = some call → (∀ b, call.pc ≠ .returned b) → call.cmd.id ≠ []

/-- What `appliedAt` holds. -/
structure Remembered (h : Handler) : Prop where
  keys : (h.appliedAt.map Prod.fst).Nodup
  named : ∀ e ∈ h.appliedAt, e.1 ≠ []
  bounded : h.appliedAt.length ≤ maxAppliedCommandIDs
  logged : ∀ e ∈ h.appliedAt, Entry.recorded e.1 e.2 ∈ h.log
  past : ∀ e ∈ h.appliedAt, e.2 ≤ h.clock

/-- Every success is about to be recorded, or has been and is remembered or overrun. -/
def Tracked (h : Handler) : Prop :=
  ∀ l₁ l₂ id, h.log = l₁ ++ .succeeded id :: l₂ →
    (∃ i cmd, h.calls i = some ⟨cmd, .executed⟩ ∧ cmd.id = id) ∨
      ∃ reading, .recorded id reading ∈ l₂ ∧ ((id, reading) ∈ h.appliedAt ∨
        maxAppliedCommandIDs ≤ (recordedSince h.log id reading).card)

structure Inv (h : Handler) : Prop where
  reserved : Reserved h
  remembered : Remembered h
  tracked : Tracked h
  once : OnceByRecords h.log

theorem Inv.new (clock : Int) : Inv (new clock) where
  reserved := ⟨nofun, nofun, nofun, nofun⟩
  remembered := ⟨List.nodup_nil, nofun, Nat.zero_le _, nofun, nofun⟩
  tracked := by
    intro l₁ l₂ id h
    cases l₁ <;> cases h
  once := by
    intro l₁ l₂ l₃ id h
    cases l₁ <;> cases h

/-! ## Steps -/

/-- One call moves; the others keep what they rely on. -/
theorem Reserved.move {h h' : Handler} (hR : Reserved h) {i : Nat} {call : Call}
    (hcalls : h'.calls = Function.update h.calls i (some call))
    (hflight : ∀ j other, j ≠ i → h.calls j = some other → other.pc.holds = true →
      other.cmd.id ∈ h'.inFlight)
    (happlied : ∀ j other, j ≠ i → h.calls j = some other → other.pc.holds = true →
      other.pc ≠ .remembered → ∀ reading, (other.cmd.id, reading) ∉ h'.appliedAt)
    (hself : call.pc.holds = true → call.cmd.id ∈ h'.inFlight ∧
      (∀ j other, j ≠ i → h.calls j = some other → other.pc.holds = true →
        other.cmd.id ≠ call.cmd.id) ∧
      (call.pc ≠ .remembered → ∀ reading, (call.cmd.id, reading) ∉ h'.appliedAt))
    (hnamed : (∀ b, call.pc ≠ .returned b) → call.cmd.id ≠ []) : Reserved h' where
  holds := by
    intro j other hj hholds
    rw [hcalls] at hj
    rcases update_some_cases hj with ⟨rfl, rfl⟩ | ⟨hne, hj⟩
    · exact (hself hholds).1
    · exact hflight j other hne hj hholds
  alone := by
    intro j k cj ck hj hk hjh hkh hid
    rw [hcalls] at hj hk
    rcases update_some_cases hj with ⟨rfl, rfl⟩ | ⟨hji, hj'⟩
    · rcases update_some_cases hk with ⟨rfl, -⟩ | ⟨hki, hk'⟩
      · rfl
      · exact absurd hid.symm ((hself hjh).2.1 k ck hki hk' hkh)
    · rcases update_some_cases hk with ⟨rfl, rfl⟩ | ⟨hki, hk'⟩
      · exact absurd hid ((hself hkh).2.1 j cj hji hj' hjh)
      · exact hR.alone j k cj ck hj' hk' hjh hkh hid
  fresh := by
    intro j other hj hholds hpc
    rw [hcalls] at hj
    rcases update_some_cases hj with ⟨rfl, rfl⟩ | ⟨hne, hj⟩
    · exact (hself hholds).2.2 hpc
    · exact happlied j other hne hj hholds hpc
  named := by
    intro j other hj hpc
    rw [hcalls] at hj
    rcases update_some_cases hj with ⟨rfl, rfl⟩ | ⟨-, hj⟩
    · exact hnamed hpc
    · exact hR.named j other hj hpc

/-- A call that holds nothing afterwards, with both maps as they were. -/
theorem Reserved.quiet {h h' : Handler} (hR : Reserved h) {i : Nat} {call : Call}
    (hcalls : h'.calls = Function.update h.calls i (some call))
    (hflight : h'.inFlight = h.inFlight) (happlied : h'.appliedAt = h.appliedAt)
    (hquiet : call.pc.holds = false)
    (hnamed : (∀ b, call.pc ≠ .returned b) → call.cmd.id ≠ []) : Reserved h' := by
  refine hR.move hcalls ?_ ?_ ?_ hnamed
  · intro j other _ hj hholds
    rw [hflight]
    exact hR.holds j other hj hholds
  · intro j other _ hj hholds hpc
    rw [happlied]
    exact hR.fresh j other hj hholds hpc
  · intro hholds
    rw [hquiet] at hholds
    cases hholds

/-- A call that goes on holding its id, before it is remembered. -/
theorem Reserved.hold {h h' : Handler} (hR : Reserved h) {i : Nat} {cmd : Command} {pc pc' : Pc}
    (here : h.calls i = some ⟨cmd, pc⟩) (hpc : pc.holds = true) (hrem : pc ≠ .remembered)
    (hcalls : h'.calls = Function.update h.calls i (some ⟨cmd, pc'⟩))
    (hflight : h'.inFlight = h.inFlight) (happlied : h'.appliedAt = h.appliedAt) :
    Reserved h' := by
  refine hR.move hcalls ?_ ?_ ?_ ?_
  · intro j other _ hj hholds
    rw [hflight]
    exact hR.holds j other hj hholds
  · intro j other _ hj hholds hpc'
    rw [happlied]
    exact hR.fresh j other hj hholds hpc'
  · intro _
    refine ⟨?_, ?_, ?_⟩
    · rw [hflight]
      exact hR.holds i ⟨cmd, pc⟩ here hpc
    · intro j other hne hj hholds hid
      exact hne (hR.alone j i other _ hj here hholds hpc hid)
    · intro _
      rw [happlied]
      exact hR.fresh i ⟨cmd, pc⟩ here hpc hrem
  · intro _
    refine hR.named i ⟨cmd, pc⟩ here ?_
    intro b hb
    rw [show pc = .returned b from hb] at hpc
    cases hpc

theorem Reserved.release {h : Handler} (hR : Reserved h) {i : Nat} {cmd : Command} {pc : Pc}
    (here : h.calls i = some ⟨cmd, pc⟩) (hpc : pc.holds = true) (applied : Bool) :
    Reserved (h.release i cmd applied) := by
  refine hR.move rfl ?_ ?_ nofun ?_
  · intro j other hne hj hholds
    refine List.mem_filter.mpr ⟨hR.holds j other hj hholds, ?_⟩
    rw [decide_eq_true_iff]
    exact fun hid => hne (hR.alone j i other _ hj here hholds hpc hid)
  · intro j other _ hj hholds hpc'
    exact hR.fresh j other hj hholds hpc'
  · intro hret
    exact absurd rfl (hret applied)

theorem Remembered.grow {h h' : Handler} (hM : Remembered h)
    (happlied : h'.appliedAt = h.appliedAt) (hlog : ∀ e ∈ h.log, e ∈ h'.log)
    (hclock : h.clock ≤ h'.clock) : Remembered h' := by
  obtain ⟨hkeys, hnamed, hbounded, hlogged, hpast⟩ := hM
  refine ⟨?_, ?_, ?_, ?_, ?_⟩
  · rw [happlied]
    exact hkeys
  · rw [happlied]
    exact hnamed
  · rw [happlied]
    exact hbounded
  · rw [happlied]
    exact fun e he => hlog _ (hlogged e he)
  · rw [happlied]
    exact fun e he => le_trans (hpast e he) hclock

theorem Tracked.same {h h' : Handler} (hT : Tracked h) (hlog : h'.log = h.log)
    (happlied : h'.appliedAt = h.appliedAt)
    (hcalls : ∀ j cmd, h.calls j = some ⟨cmd, .executed⟩ → h'.calls j = some ⟨cmd, .executed⟩) :
    Tracked h' := by
  intro l₁ l₂ id hsplit
  rw [hlog] at hsplit ⊢
  rw [happlied]
  rcases hT l₁ l₂ id hsplit with ⟨j, cmd, hj, hid⟩ | hrecorded
  · exact Or.inl ⟨j, cmd, hcalls j cmd hj, hid⟩
  · exact Or.inr hrecorded

/-- A log that grows by an entry that is no success. -/
theorem Tracked.grow {h h' : Handler} (hT : Tracked h) {e : Entry}
    (hlog : h'.log = h.log ++ [e]) (he : ∀ id, e ≠ .succeeded id)
    (happlied : h'.appliedAt = h.appliedAt)
    (hcalls : ∀ j cmd, h.calls j = some ⟨cmd, .executed⟩ → h'.calls j = some ⟨cmd, .executed⟩) :
    Tracked h' := by
  intro l₁ l₂ id hsplit
  rw [hlog] at hsplit
  rcases split_snoc hsplit with ⟨-, hsucceeded, -⟩ | ⟨l₂', rfl, hold⟩
  · exact absurd hsucceeded.symm (he id)
  · rcases hT l₁ l₂' id hold with ⟨j, cmd, hj, hid⟩ | ⟨reading, hmem, hrest⟩
    · exact Or.inl ⟨j, cmd, hcalls j cmd hj, hid⟩
    · refine Or.inr ⟨reading, List.mem_append_left _ hmem, ?_⟩
      rw [happlied]
      rcases hrest with hin | hmany
      · exact Or.inl hin
      · refine Or.inr (le_trans hmany (card_recordedSince_mono ?_))
        intro x hx
        rw [hlog]
        exact List.mem_append_left _ hx

/-- Moving a call that is not between its executor and its record leaves those calls alone. -/
theorem executed_of_update {h : Handler} {i : Nat} {call call' : Call}
    (here : h.calls i = some call) (hpc : call.pc ≠ .executed) (j : Nat) (cmd : Command)
    (hj : h.calls j = some ⟨cmd, .executed⟩) :
    Function.update h.calls i (some call') j = some ⟨cmd, .executed⟩ := by
  have hne : j ≠ i := by
    rintro rfl
    rw [here] at hj
    cases hj
    exact hpc rfl
  rw [Function.update_of_ne hne]
  exact hj

/-! ## Eviction -/

/-- The loop ends with an entry of the map that no other precedes, whatever the walk. -/
theorem foldl_oldest {acc : Bytes × Int} (hacc : acc.1 ≠ []) {order : List (Bytes × Int)}
    (hnamed : ∀ e ∈ order, e.1 ≠ []) :
    order.foldl (fun old e => if old.1 = [] ∨ e.2 < old.2 then e else old) acc ∈ acc :: order ∧
      ∀ e ∈ acc :: order,
        (order.foldl (fun old e => if old.1 = [] ∨ e.2 < old.2 then e else old) acc).2 ≤ e.2 := by
  induction order generalizing acc with
  | nil =>
    refine ⟨List.mem_cons_self, ?_⟩
    intro e he
    rw [List.mem_singleton.mp he]
    exact le_refl _
  | cons x order ih =>
    rw [List.foldl_cons]
    have hx : x.1 ≠ [] := hnamed x List.mem_cons_self
    have htail : ∀ e ∈ order, e.1 ≠ [] := fun e he => hnamed e (List.mem_cons_of_mem _ he)
    by_cases hlt : x.2 < acc.2
    · rw [if_pos (Or.inr hlt)]
      obtain ⟨hmem, hmin⟩ := ih hx htail
      refine ⟨List.mem_cons_of_mem _ hmem, ?_⟩
      intro e he
      rcases List.mem_cons.mp he with rfl | he
      · exact le_trans (hmin x List.mem_cons_self) hlt.le
      · exact hmin e he
    · rw [if_neg (not_or.mpr ⟨hacc, hlt⟩)]
      obtain ⟨hmem, hmin⟩ := ih hacc htail
      refine ⟨?_, ?_⟩
      · rcases List.mem_cons.mp hmem with h | h
        · rw [h]
          exact List.mem_cons_self
        · exact List.mem_cons_of_mem _ (List.mem_cons_of_mem _ h)
      · intro e he
        rcases List.mem_cons.mp he with rfl | he
        · exact hmin e List.mem_cons_self
        · rcases List.mem_cons.mp he with rfl | he
          · exact le_trans (hmin acc List.mem_cons_self) (not_lt.mp hlt)
          · exact hmin e (List.mem_cons_of_mem _ he)

theorem oldest_spec {order : List (Bytes × Int)} (hne : order ≠ [])
    (hnamed : ∀ e ∈ order, e.1 ≠ []) :
    oldest order ∈ order ∧ ∀ e ∈ order, (oldest order).2 ≤ e.2 := by
  cases order with
  | nil => exact absurd rfl hne
  | cons x order =>
    unfold oldest
    rw [List.foldl_cons, if_pos (Or.inl rfl)]
    exact foldl_oldest (hnamed x List.mem_cons_self)
      fun e he => hnamed e (List.mem_cons_of_mem _ he)

/-- An entry that goes is the oldest of a full map. -/
theorem evicted_spec {h : Handler} (hM : Remembered h) {order : List (Bytes × Int)}
    (walk : order.Perm h.appliedAt) {e : Bytes × Int} (he : e ∈ h.appliedAt)
    (hgone : e ∉ evict h.appliedAt order) :
    maxAppliedCommandIDs ≤ h.appliedAt.length ∧ ∀ x ∈ h.appliedAt, e.2 ≤ x.2 := by
  unfold evict at hgone
  split at hgone
  · rename_i hfull
    refine ⟨hfull, ?_⟩
    split at hgone
    · exact absurd he hgone
    · have hne : order ≠ [] := by
        rintro rfl
        have hnil := walk.symm.subset he
        cases hnil
      obtain ⟨hmem, hmin⟩ := oldest_spec hne fun x hx => hM.named x (walk.subset hx)
      have hkey : e.1 = (oldest order).1 := by
        by_contra hkey
        exact hgone (List.mem_filter.mpr ⟨he, by simpa using hkey⟩)
      have heq : e = oldest order :=
        List.inj_on_of_nodup_map hM.keys he (walk.subset hmem) hkey
      intro x hx
      rw [heq]
      exact hmin x (walk.symm.subset hx)
  · exact absurd he hgone

theorem evict_length {h : Handler} (hM : Remembered h) {order : List (Bytes × Int)}
    (walk : order.Perm h.appliedAt) :
    (evict h.appliedAt order).length < maxAppliedCommandIDs := by
  unfold evict
  split
  · rename_i hfull
    have hne : order ≠ [] := by
      rintro rfl
      rw [← walk.length_eq] at hfull
      cases hfull
    obtain ⟨hmem, -⟩ := oldest_spec hne fun x hx => hM.named x (walk.subset hx)
    have hold := walk.subset hmem
    rw [if_neg (hM.named _ hold)]
    refine lt_of_lt_of_le (List.length_filter_lt_length_iff_exists.mpr ?_) hM.bounded
    exact ⟨oldest order, hold, by simp⟩
  · omega

/-- When the oldest entry goes, the rest of the full map and the id now recorded are other ids
recorded no earlier. -/
theorem overrun_of_evicted {h : Handler} (hM : Remembered h) {id : Bytes} {now : Int}
    (later : h.clock ≤ now) (hnew : ∀ reading, (id, reading) ∉ h.appliedAt)
    {e : Bytes × Int} (he : e ∈ h.appliedAt) (hfull : maxAppliedCommandIDs ≤ h.appliedAt.length)
    (hold : ∀ x ∈ h.appliedAt, e.2 ≤ x.2) :
    maxAppliedCommandIDs ≤ (recordedSince (h.log ++ [.recorded id now]) e.1 e.2).card := by
  have hid : id ∉ (h.appliedAt.map Prod.fst).toFinset := by
    rw [List.mem_toFinset, List.mem_map]
    rintro ⟨x, hx, rfl⟩
    exact hnew x.2 hx
  have hkey : e.1 ∈ (h.appliedAt.map Prod.fst).toFinset :=
    List.mem_toFinset.mpr (List.mem_map_of_mem he)
  have hcard : (insert id ((h.appliedAt.map Prod.fst).toFinset.erase e.1)).card =
      h.appliedAt.length := by
    rw [Finset.card_insert_of_notMem fun hm => hid (Finset.mem_of_mem_erase hm),
      Finset.card_erase_add_one hkey, List.toFinset_card_of_nodup hM.keys, List.length_map]
  rw [← hcard] at hfull
  refine le_trans hfull (Finset.card_le_card fun k hk => ?_)
  rw [mem_recordedSince]
  rcases Finset.mem_insert.mp hk with rfl | hk
  · refine ⟨?_, now, le_trans (hM.past e he) later, by simp⟩
    rintro rfl
    exact hid hkey
  · obtain ⟨hne, hk⟩ := Finset.mem_erase.mp hk
    obtain ⟨x, hx, rfl⟩ := List.mem_map.mp (List.mem_toFinset.mp hk)
    exact ⟨hne, x.2, hold x hx, List.mem_append_left _ (hM.logged x hx)⟩

theorem Remembered.remember {h : Handler} (hM : Remembered h) {i : Nat} {cmd : Command}
    {now : Int} {order : List (Bytes × Int)} (later : h.clock ≤ now)
    (walk : order.Perm h.appliedAt) (hnamed : cmd.id ≠ []) :
    Remembered (h.remember i cmd now order) := by
  have hsub : List.Sublist ((evict h.appliedAt order).filter fun e => e.1 ≠ cmd.id) h.appliedAt :=
    List.filter_sublist.trans (evict_sublist _ _)
  refine ⟨?_, ?_, ?_, ?_, ?_⟩
  · refine List.nodup_cons.mpr ⟨?_, hM.keys.sublist (hsub.map _)⟩
    intro hmem
    obtain ⟨e, he, heq⟩ := List.mem_map.mp hmem
    have := (List.mem_filter.mp he).2
    rw [decide_eq_true_iff] at this
    exact this heq
  · intro e he
    rcases List.mem_cons.mp he with rfl | he
    · exact hnamed
    · exact hM.named e (hsub.subset he)
  · have hlen := evict_length hM walk
    have hle : ((evict h.appliedAt order).filter fun e => e.1 ≠ cmd.id).length ≤
        (evict h.appliedAt order).length := List.length_filter_le _ _
    show ((evict h.appliedAt order).filter fun e => e.1 ≠ cmd.id).length + 1 ≤ _
    omega
  · intro e he
    rcases List.mem_cons.mp he with rfl | he
    · exact List.mem_append_right _ List.mem_cons_self
    · exact List.mem_append_left _ (hM.logged e (hsub.subset he))
  · intro e he
    rcases List.mem_cons.mp he with rfl | he
    · exact le_refl _
    · exact le_trans (hM.past e (hsub.subset he)) later

theorem Tracked.remember {h : Handler} (hT : Tracked h) (hM : Remembered h) {i : Nat}
    {cmd : Command} {now : Int} {order : List (Bytes × Int)}
    (here : h.calls i = some ⟨cmd, .executed⟩) (later : h.clock ≤ now)
    (walk : order.Perm h.appliedAt) (hnew : ∀ reading, (cmd.id, reading) ∉ h.appliedAt) :
    Tracked (h.remember i cmd now order) := by
  intro l₁ l₂ id hsplit
  rcases split_snoc hsplit with ⟨-, hsucceeded, -⟩ | ⟨l₂', rfl, hold⟩
  · cases hsucceeded
  · by_cases hid : id = cmd.id
    · -- the success that is recorded now
      subst hid
      exact Or.inr ⟨now, List.mem_append_right _ List.mem_cons_self, Or.inl List.mem_cons_self⟩
    · rcases hT l₁ l₂' id hold with ⟨j, other, hj, rfl⟩ | ⟨reading, hmem, hrest⟩
      · refine Or.inl ⟨j, other, ?_, rfl⟩
        have hne : j ≠ i := by
          rintro rfl
          rw [here] at hj
          cases hj
          exact hid rfl
        exact (setCall_of_ne h hne _).trans hj
      · refine Or.inr ⟨reading, List.mem_append_left _ hmem, ?_⟩
        rcases hrest with hin | hmany
        · by_cases hkept : (id, reading) ∈ evict h.appliedAt order
          · refine Or.inl (List.mem_cons_of_mem _ (List.mem_filter.mpr ⟨hkept, ?_⟩))
            simpa using hid
          · obtain ⟨hfull, holdest⟩ := evicted_spec hM walk hin hkept
            exact Or.inr (overrun_of_evicted hM later hnew hin hfull holdest)
        · refine Or.inr (le_trans hmany (card_recordedSince_mono ?_))
          exact fun x hx => List.mem_append_left _ hx

theorem Reserved.remember {h : Handler} (hR : Reserved h) {i : Nat} {cmd : Command} {now : Int}
    {order : List (Bytes × Int)} (here : h.calls i = some ⟨cmd, .executed⟩) :
    Reserved (h.remember i cmd now order) := by
  have halone : ∀ j other, j ≠ i → h.calls j = some other → other.pc.holds = true →
      other.cmd.id ≠ cmd.id :=
    fun j other hne hj hholds hid => hne (hR.alone j i other _ hj here hholds rfl hid)
  refine hR.move rfl ?_ ?_ ?_ ?_
  · intro j other _ hj hholds
    exact hR.holds j other hj hholds
  · intro j other hne hj hholds hpc reading hmem
    rcases List.mem_cons.mp hmem with heq | hmem
    · exact halone j other hne hj hholds (Prod.mk.inj heq).1
    · exact hR.fresh j other hj hholds hpc reading
        ((List.filter_sublist.trans (evict_sublist _ _)).subset hmem)
  · intro _
    exact ⟨hR.holds i ⟨cmd, .executed⟩ here rfl, halone, fun hpc => absurd rfl hpc⟩
  · intro _
    exact hR.named i ⟨cmd, .executed⟩ here nofun

/-! ## Runs -/

theorem trimSpace_nil : trimSpace [] = [] := rfl

theorem id_ne_nil_of_admit {cfg : ResponseConfig} {secret : Option Bytes} {now : Int}
    {cmd : Command} (h : admitCommand cfg secret now cmd = .ok ()) : cmd.id ≠ [] := by
  intro hid
  unfold admitCommand at h
  cases secret with
  | none => cases h
  | some secret =>
    cases hcheck : checkCommand (some secret) now cmd with
    | error err =>
      rw [hcheck] at h
      cases h
    | ok u =>
      have hne := (checkCommand_ok_iff.mp hcheck).1
      rw [hid] at hne
      exact hne trimSpace_nil

theorem Inv.reserve {h : Handler} (hI : Inv h) {i : Nat} {cmd : Command}
    (here : h.calls i = some ⟨cmd, .admitted⟩) (new : h.duplicate cmd.id = false) :
    Inv { h.setCall i ⟨cmd, .running⟩ with inFlight := cmd.id :: h.inFlight } := by
  have hnew : ¬ ((∃ reading, (cmd.id, reading) ∈ h.appliedAt) ∨ cmd.id ∈ h.inFlight) := by
    rw [← duplicate_iff, new]
    exact Bool.false_ne_true
  rw [not_or, not_exists] at hnew
  refine ⟨?_, hI.remembered.grow rfl (fun _ h => h) (le_refl _), ?_, hI.once⟩
  · refine hI.reserved.move rfl ?_ ?_ ?_ ?_
    · intro j other _ hj hholds
      exact List.mem_cons_of_mem _ (hI.reserved.holds j other hj hholds)
    · intro j other _ hj hholds hpc
      exact hI.reserved.fresh j other hj hholds hpc
    · intro _
      refine ⟨List.mem_cons_self, ?_, fun _ => hnew.1⟩
      intro j other _ hj hholds hid
      exact hnew.2 (hid ▸ hI.reserved.holds j other hj hholds)
    · intro _
      exact hI.reserved.named i ⟨cmd, .admitted⟩ here nofun
  · exact hI.tracked.same rfl rfl (executed_of_update here nofun)

/-- The executor of an id succeeds; if it did so before, that success has been overrun. -/
theorem Inv.succeed {h : Handler} (hI : Inv h) {i : Nat} {cmd : Command}
    (here : h.calls i = some ⟨cmd, .running⟩) :
    Inv { h.setCall i ⟨cmd, .executed⟩ with log := h.log ++ [.succeeded cmd.id] } := by
  refine ⟨hI.reserved.hold here rfl nofun rfl rfl rfl,
    hI.remembered.grow rfl (fun _ he => List.mem_append_left _ he) (le_refl _), ?_, ?_⟩
  · intro l₁ l₂ id hsplit
    rcases split_snoc hsplit with ⟨-, hid, -⟩ | ⟨l₂', rfl, hold⟩
    · cases hid
      exact Or.inl ⟨i, cmd, setCall_self h i _, rfl⟩
    · rcases hI.tracked l₁ l₂' id hold with ⟨j, other, hj, rfl⟩ | ⟨reading, hmem, hrest⟩
      · exact Or.inl ⟨j, other, executed_of_update here nofun j other hj, rfl⟩
      · refine Or.inr ⟨reading, List.mem_append_left _ hmem, ?_⟩
        rcases hrest with hin | hmany
        · exact Or.inl hin
        · refine Or.inr (le_trans hmany (card_recordedSince_mono ?_))
          exact fun x hx => List.mem_append_left _ hx
  · intro l₁ l₂ l₃ id hsplit
    rw [← List.cons_append, ← List.append_assoc] at hsplit
    rcases split_snoc hsplit with ⟨-, hid, hold⟩ | ⟨l₃', -, hold⟩
    · cases hid
      rcases hI.tracked l₁ l₂ cmd.id hold with ⟨j, other, hj, hid⟩ | ⟨reading, hmem, hrest⟩
      · -- another call would hold the same id
        have hji := hI.reserved.alone j i _ _ hj here rfl rfl hid
        subst hji
        rw [here] at hj
        cases hj
      · rcases hrest with hin | hmany
        · exact absurd hin (hI.reserved.fresh i _ here rfl nofun reading)
        · rw [hold] at hmany
          exact ⟨reading, hmem, hmany⟩
    · refine hI.once l₁ l₂ l₃' id ?_
      rw [hold, List.append_assoc, List.cons_append]

theorem Inv.release {h : Handler} (hI : Inv h) {i : Nat} {cmd : Command} {pc : Pc}
    (here : h.calls i = some ⟨cmd, pc⟩) (hpc : pc.holds = true) (hexec : pc ≠ .executed)
    (applied : Bool) : Inv (h.release i cmd applied) where
  reserved := hI.reserved.release here hpc applied
  remembered := hI.remembered.grow rfl (fun _ he => List.mem_append_left _ he) (le_refl _)
  tracked := hI.tracked.grow rfl nofun rfl (executed_of_update here hexec)
  once := hI.once.snoc nofun

theorem Inv.step {cfg : ResponseConfig} {h h' : Handler} {a : Act} (hI : Inv h)
    (hs : Handler.step cfg h a = some h') : Inv h' := by
  cases step_cases hs with
  | refuse fresh later _ =>
    refine ⟨hI.reserved.quiet rfl rfl rfl rfl fun hret => absurd rfl (hret false),
      hI.remembered.grow rfl (fun _ he => List.mem_append_left _ he) later,
      hI.tracked.grow rfl nofun rfl ?_, hI.once.snoc nofun⟩
    intro j cmd hj
    refine (setCall_of_ne h ?_ _).trans hj
    rintro rfl
    rw [fresh] at hj
    cases hj
  | accept fresh later admitted =>
    refine ⟨hI.reserved.quiet rfl rfl rfl rfl fun _ => id_ne_nil_of_admit admitted,
      hI.remembered.grow rfl (fun _ he => he) later, hI.tracked.same rfl rfl ?_, hI.once⟩
    intro j cmd hj
    refine (setCall_of_ne h ?_ _).trans hj
    rintro rfl
    rw [fresh] at hj
    cases hj
  | duplicate here _ =>
    exact ⟨hI.reserved.quiet rfl rfl rfl rfl fun hret => absurd rfl (hret true),
      hI.remembered.grow rfl (fun _ he => List.mem_append_left _ he) (le_refl _),
      hI.tracked.grow rfl nofun rfl (executed_of_update here nofun), hI.once.snoc nofun⟩
  | reserve here new => exact hI.reserve here new
  | succeed here => exact hI.succeed here
  | fail here =>
    exact ⟨hI.reserved.hold here rfl nofun rfl rfl rfl,
      hI.remembered.grow rfl (fun _ he => he) (le_refl _),
      hI.tracked.same rfl rfl (executed_of_update here nofun), hI.once⟩
  | remember here later walk =>
    have hfresh := hI.reserved.fresh _ _ here rfl nofun
    exact ⟨hI.reserved.remember here,
      hI.remembered.remember later walk (hI.reserved.named _ _ here nofun),
      hI.tracked.remember hI.remembered here later walk hfresh, hI.once.snoc nofun⟩
  | releaseApplied here => exact hI.release here rfl nofun true
  | releaseFailed here => exact hI.release here rfl nofun false

/-- **At-most-once execution.** In every interleaving of calls: a second success of an executor
for an id comes only after `maxAppliedCommandIDs` other ids have been recorded no earlier than
the first, no two executors run for one id at the same time, and the memory stays bounded. -/
theorem applied_at_most_once (cfg : ResponseConfig) (clock : Int) (h : Handler) (as : List Act)
    (run : AnyRun (step cfg) (new clock) as h) :
    OnceByRecords h.log ∧ ExecutorsDisjoint h ∧ h.appliedAt.length ≤ maxAppliedCommandIDs := by
  have hI : Inv h := run.invariant (Inv.new clock) fun _ _ _ hI _ hs => hI.step hs
  refine ⟨hI.once, ?_, hI.remembered.bounded⟩
  intro i j cmd cmd' hi hj hid
  exact hI.reserved.alone i j _ _ hi hj rfl rfl hid

/-! ## A clock that stands still -/

/-- One call from its arrival to its return, with an executor that succeeds. -/
def callRun (i n : Nat) (order : List (Bytes × Int)) : List Act :=
  [.handle i (some (lit "host-secret")) standing (signedCanary n), .reserve i, .execute i true,
    .remember i standing order, .release i]

/-- What such a call leaves in the log. -/
def callLog (n : Nat) : List Entry :=
  [.succeeded (commandId n), .recorded (commandId n) standing, .returned (commandId n) true]

theorem exec_callRun {h : Handler} {i n : Nat} {order : List (Bytes × Int)}
    (fresh : h.calls i = none) (hclock : h.clock = standing)
    (new : h.duplicate (commandId n) = false) (walk : order.Perm h.appliedAt) :
    ∃ h', AnyRun (step standingConfig) h (callRun i n order) h' ∧
      h'.appliedAt = (commandId n, standing) ::
        (evict h.appliedAt order).filter (fun e => e.1 ≠ commandId n) ∧
      h'.inFlight = (commandId n :: h.inFlight).filter (fun id => id ≠ commandId n) ∧
      (∀ j, j ≠ i → h'.calls j = h.calls j) ∧ h'.clock = standing ∧
      h'.log = h.log ++ callLog n := by
  have hadmit := signedCanary_admitted n
  let h₁ : Handler := { h.setCall i ⟨signedCanary n, .admitted⟩ with clock := standing }
  let h₂ : Handler :=
    { h₁.setCall i ⟨signedCanary n, .running⟩ with inFlight := commandId n :: h₁.inFlight }
  let h₃ : Handler :=
    { h₂.setCall i ⟨signedCanary n, .executed⟩ with log := h₂.log ++ [.succeeded (commandId n)] }
  let h₄ : Handler := h₃.remember i (signedCanary n) standing order
  let h₅ : Handler := h₄.release i (signedCanary n) true
  have s₁ : step standingConfig h (.handle i (some (lit "host-secret")) standing (signedCanary n)) =
      some h₁ := by
    simp only [step, fresh, hclock, le_refl, if_true, handle, hadmit]
    rfl
  have s₂ : step standingConfig h₁ (.reserve i) = some h₂ := by
    have hcall : h₁.calls i = some ⟨signedCanary n, .admitted⟩ := setCall_self h i _
    have hdup : h₁.duplicate (signedCanary n).id = false := new
    simp only [step, hcall, reserve, hdup]
    rfl
  have s₃ : step standingConfig h₂ (.execute i true) = some h₃ := by
    have hcall : h₂.calls i = some ⟨signedCanary n, .running⟩ := setCall_self h₁ i _
    simp only [step, hcall]
    rfl
  have s₄ : step standingConfig h₃ (.remember i standing order) = some h₄ := by
    have hcall : h₃.calls i = some ⟨signedCanary n, .executed⟩ := setCall_self h₂ i _
    have hguard : h₃.clock ≤ standing ∧ order.Perm h₃.appliedAt := ⟨le_refl _, walk⟩
    simp only [step, hcall, if_pos hguard]
    rfl
  have s₅ : step standingConfig h₄ (.release i) = some h₅ := by
    have hcall : h₄.calls i = some ⟨signedCanary n, .remembered⟩ := setCall_self h₃ i _
    simp only [step, hcall]
    rfl
  have hrun : exec (step standingConfig) h (callRun i n order) = some h₅ := by
    simp only [exec, callRun, s₁, s₂, s₃, s₄, s₅, Option.bind_some]
  refine ⟨h₅, run_of_exec hrun, rfl, rfl, ?_, rfl, ?_⟩
  · intro j hj
    have hkeep : ∀ (k : Handler) (call : Call), (k.setCall i call).calls j = k.calls j :=
      fun k call => setCall_of_ne k hj call
    exact (hkeep h₄ _).trans ((hkeep h₃ _).trans ((hkeep h₂ _).trans ((hkeep h₁ _).trans
      (hkeep h _))))
  · show ((h.log ++ _) ++ _) ++ _ = _
    rw [List.append_assoc, List.append_assoc]
    rfl

/-- The entries of the first `n` ids, newest first. -/
def standingEntries (n : Nat) : List (Bytes × Int) :=
  ((List.range n).map fun k => (commandId k, standing)).reverse

theorem standingEntries_succ (n : Nat) :
    standingEntries (n + 1) = (commandId n, standing) :: standingEntries n := by
  simp [standingEntries, List.range_succ]

theorem standingEntries_length (n : Nat) : (standingEntries n).length = n := by
  simp [standingEntries]

theorem mem_standingEntries {n : Nat} {e : Bytes × Int} :
    e ∈ standingEntries n ↔ ∃ k, k < n ∧ e = (commandId k, standing) := by
  simp only [standingEntries, List.mem_reverse, List.mem_map, List.mem_range]
  constructor
  · rintro ⟨k, hk, rfl⟩
    exact ⟨k, hk, rfl⟩
  · rintro ⟨k, hk, rfl⟩
    exact ⟨k, hk, rfl⟩

theorem filter_standingEntries {m n : Nat} (h : n ≤ m) :
    (standingEntries n).filter (fun e => e.1 ≠ commandId m) = standingEntries n := by
  rw [List.filter_eq_self]
  intro e he
  obtain ⟨k, hk, rfl⟩ := mem_standingEntries.mp he
  rw [decide_eq_true_iff]
  intro heq
  have := commandId_injective heq
  omega

/-- After the calls of the first `n` ids, while the map is not full. -/
structure Filled (h : Handler) (n : Nat) : Prop where
  applied : h.appliedAt = standingEntries n
  flight : h.inFlight = []
  calls : ∀ j, n ≤ j → h.calls j = none
  clock : h.clock = standing

theorem Filled.not_duplicate {h : Handler} {n : Nat} (hF : Filled h n) :
    h.duplicate (commandId n) = false := by
  rw [← Bool.not_eq_true, duplicate_iff, hF.applied, hF.flight]
  rintro (⟨reading, hmem⟩ | hmem)
  · obtain ⟨k, hk, heq⟩ := mem_standingEntries.mp hmem
    have := commandId_injective (Prod.mk.inj heq).1
    omega
  · cases hmem

/-- One more call: its entry joins the map. -/
theorem Filled.next {h : Handler} {n : Nat} (hF : Filled h n) (hn : n < maxAppliedCommandIDs) :
    ∃ h', AnyRun (step standingConfig) h (callRun n n h.appliedAt) h' ∧ Filled h' (n + 1) ∧
      h'.log = h.log ++ callLog n := by
  obtain ⟨h', hrun, happlied, hflight, hcalls, hclock, hlog⟩ :=
    exec_callRun (hF.calls n (le_refl n)) hF.clock hF.not_duplicate (List.Perm.refl h.appliedAt)
  refine ⟨h', hrun, ⟨?_, ?_, ?_, hclock⟩, hlog⟩
  · have hevict : evict h.appliedAt h.appliedAt = h.appliedAt := by
      unfold evict
      rw [if_neg]
      rw [hF.applied, standingEntries_length]
      omega
    rw [happlied, hevict, hF.applied, filter_standingEntries (le_refl n), standingEntries_succ]
  · rw [hflight, hF.flight]
    simp
  · intro j hj
    rw [hcalls j (by omega)]
    exact hF.calls j (by omega)

theorem exists_filled (n : Nat) (hn : n ≤ maxAppliedCommandIDs) :
    ∃ as h, AnyRun (step standingConfig) (new standing) as h ∧ Filled h n := by
  induction n with
  | zero => exact ⟨[], new standing, .nil _, ⟨rfl, rfl, fun _ _ => rfl, rfl⟩⟩
  | succ n ih =>
    obtain ⟨as, h, hrun, hF⟩ := ih (by omega)
    obtain ⟨h', hnext, hF', -⟩ := hF.next (by omega)
    exact ⟨_, h', hrun.trans hnext, hF'⟩

/-- Among entries of one age the walk decides: the first one stays the oldest. -/
theorem oldest_standing (n : Nat) (m : Nat) :
    oldest ((commandId m, standing) :: standingEntries n) = (commandId m, standing) := by
  unfold oldest
  rw [List.foldl_cons, if_pos (Or.inl rfl)]
  generalize hl : standingEntries n = l
  have hl' : ∀ e ∈ l, e.2 = standing := by
    intro e he
    rw [← hl] at he
    obtain ⟨k, -, rfl⟩ := mem_standingEntries.mp he
    rfl
  clear hl
  induction l with
  | nil => rfl
  | cons x l ih =>
    have hx := hl' x List.mem_cons_self
    rw [List.foldl_cons, if_neg]
    · exact ih fun e he => hl' e (List.mem_cons_of_mem _ he)
    · rintro (hnil | hlt)
      · cases hnil
      · rw [hx] at hlt
        exact lt_irrefl _ hlt

/-- With a clock that stands still, an id is executed again after one other id. -/
theorem exists_repeated : ∃ as h log, AnyRun (step standingConfig) (new standing) as h ∧
    h.log = log ++ callLog 9999 ++ callLog 10000 ++ callLog 9999 := by
  -- the map is full, and the last id is the newest
  obtain ⟨as, h₀, hrun₀, hF₀⟩ := exists_filled 9999 (by decide)
  obtain ⟨h₁, hrun₁, hF₁, hlog₁⟩ := hF₀.next (by decide)
  have happlied₁ := hF₁.applied
  rw [standingEntries_succ] at happlied₁
  -- one more id, and the walk meets the newest entry first
  obtain ⟨h₂, hrun₂, happlied₂, hflight₂, hcalls₂, hclock₂, hlog₂⟩ :=
    exec_callRun (hF₁.calls 10000 (le_refl _)) hF₁.clock hF₁.not_duplicate
      (List.Perm.refl h₁.appliedAt)
  have hevict : evict h₁.appliedAt h₁.appliedAt =
      h₁.appliedAt.filter fun e => e.1 ≠ commandId 9999 := by
    unfold evict
    rw [if_pos, happlied₁, oldest_standing, if_neg nofun]
    rw [hF₁.applied, standingEntries_length]
    decide
  have hnew : h₂.duplicate (commandId 9999) = false := by
    rw [← Bool.not_eq_true, duplicate_iff, happlied₂, hevict, hflight₂, hF₁.flight]
    rintro (⟨reading, hmem⟩ | hmem)
    · rcases List.mem_cons.mp hmem with heq | hmem
      · have := commandId_injective (Prod.mk.inj heq).1
        omega
      · have hkept := (List.mem_filter.mp (List.mem_of_mem_filter hmem)).2
        simp at hkept
    · simp at hmem
  obtain ⟨h₃, hrun₃, -, -, -, -, hlog₃⟩ := exec_callRun
    ((hcalls₂ 10001 (by decide)).trans (hF₁.calls 10001 (by decide))) hclock₂ hnew
    (List.Perm.refl h₂.appliedAt)
  exact ⟨_, h₃, h₀.log, ((hrun₀.trans hrun₁).trans hrun₂).trans hrun₃, by
    rw [hlog₃, hlog₂, hlog₁]⟩

/-- The two successes of the id, and the entries between them. -/
theorem repeated_split (log : List Entry) :
    log ++ callLog 9999 ++ callLog 10000 ++ callLog 9999 =
      log ++ .succeeded (commandId 9999) ::
        (((callLog 9999).tail ++ callLog 10000) ++
          .succeeded (commandId 9999) :: (callLog 9999).tail) := by
  simp [callLog]

/-- The id comes twice, and ten thousand ids have been recorded since its first record. -/
theorem applied_at_most_once_repeated : ∃ as h l₁ l₂ l₃ reading,
    AnyRun (step standingConfig) (new standing) as h ∧
      h.log = l₁ ++ .succeeded (commandId 9999) :: (l₂ ++ .succeeded (commandId 9999) :: l₃) ∧
      .recorded (commandId 9999) reading ∈ l₂ ∧ maxAppliedCommandIDs ≤
        (recordedSince (l₁ ++ .succeeded (commandId 9999) :: l₂) (commandId 9999) reading).card := by
  obtain ⟨as, h, log, hrun, hlog⟩ := exists_repeated
  obtain ⟨honce, -, -⟩ := applied_at_most_once standingConfig standing h as hrun
  have hsplit := hlog.trans (repeated_split log)
  obtain ⟨reading, hmem, hmany⟩ := honce _ _ _ _ hsplit
  exact ⟨as, h, _, _, _, reading, hrun, hsplit, hmem, hmany⟩

theorem second_success_after_one_other :
    ∃ as h, AnyRun (step standingConfig) (new standing) as h ∧ ¬ OnceBySuccesses h.log := by
  obtain ⟨as, h, log, hrun, hlog⟩ := exists_repeated
  refine ⟨as, h, hrun, fun honce => ?_⟩
  have hmany := honce _ _ _ _ (hlog.trans (repeated_split log))
  have hfew : (succeededIn ((callLog 9999).tail ++ callLog 10000) (commandId 9999)).card ≤ 1 := by
    refine le_trans (List.toFinset_card_le _) ?_
    simp only [callLog, List.tail_cons, List.cons_append, List.nil_append, List.filterMap_cons,
      List.filterMap_nil]
    split
    · simp
    · simp
  have hmax : maxAppliedCommandIDs = 10000 := rfl
  omega

end Handler

end ZaqorinCore.Agent
