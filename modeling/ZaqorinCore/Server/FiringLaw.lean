import ZaqorinCore.Server.Firing

/-!
# The firing law

The law of `LawAt` holds in every run in which no rule raises, no event comes twice into a window
of a rule, and no window reaches back over an event that was evaluated in a cooldown: `firing_law`.
Without these conditions it fails: an event that is delivered again is counted twice
(`redelivery_counts_twice`).
-/

namespace ZaqorinCore.Server

open Text Base SigmaRuleRunner

variable {ρ : Type}

section Run

variable {ops : RuleOps ρ} {rules : List ρ} {events : List ParsedEvent}

/-! ## The fires of one call -/

theorem turn_fire {event : ParsedEvent} {eventTime : Int} {rule : ρ} {r : Redis}
    {f : RuleFire ρ} (h : (turn ops event eventTime rule r).1 = .ok (some f)) :
    f.rule = rule ∧ f.dedupKey = dedupOf ops rule event := by
  unfold turn at h
  split at h
  · cases h
  · split at h
    · cases h
    · dsimp only at h
      split at h
      · cases h
      · split at h
        · cases h
        · cases haction : ops.renderAction rule event with
          | error err =>
            rw [haction] at h
            cases h
          | ok action =>
            rw [haction] at h
            cases h
            exact ⟨rfl, rfl⟩

theorem turn_fires_iff {event : ParsedEvent} {eventTime : Int} {rule : ρ} {r : Redis}
    {members : List (Str × Int)} (hpos : 0 < ops.cooldownSec rule)
    (haction : ∃ a, ops.renderAction rule event = .ok a)
    (hwindow : r.window (windowKeyOf ops rule event) = some members) :
    (∃ f, (turn ops event eventTime rule r).1 = .ok (some f)) ↔
      ¬ (r.find (cooldownKeyOf ops rule event)).isSome = true ∧
      ops.count rule ≤ (kept ops rule eventTime members).length + 1 := by
  obtain ⟨a, ha⟩ := haction
  unfold turn
  rw [hwindow]
  by_cases hcool : (r.find (cooldownKeyOf ops rule event)).isSome = true
  · rw [if_pos hcool]
    exact iff_of_false (fun ⟨f, h⟩ => nomatch h) (fun h => h.1 hcool)
  · rw [if_neg hcool]
    dsimp only
    by_cases hcount : ((kept ops rule eventTime members).length : Int) + 1 < ops.count rule
    · rw [if_pos hcount]
      refine iff_of_false (fun ⟨f, h⟩ => nomatch h) (fun h => ?_)
      omega
    · rw [if_neg hcount, if_neg (not_le.mpr hpos), ha]
      exact iff_of_true ⟨_, rfl⟩ ⟨hcool, by omega⟩

/-- The two keys after the turn of a rule that is not in cooldown. -/
theorem turn_entries (eventTime : Int) {event : ParsedEvent} {rule : ρ} {r : Redis}
    {members : List (Str × Int)} (hpos : 0 < ops.cooldownSec rule)
    (haction : ∃ a, ops.renderAction rule event = .ok a)
    (hwindow : r.window (windowKeyOf ops rule event) = some members)
    (hawake : ¬ (r.find (cooldownKeyOf ops rule event)).isSome = true) :
    (turn ops event eventTime rule r).2.entries (windowKeyOf ops rule event) =
      some ⟨.sorted ((uuidStr event.eventId, eventTime) ::
        (kept ops rule eventTime members).filter fun m => m.1 != uuidStr event.eventId),
        some (r.now + max (ops.timeframeSec rule * 10) 60 * second)⟩ ∧
    ((¬ (∃ f, (turn ops event eventTime rule r).1 = .ok (some f)) ∧
        (turn ops event eventTime rule r).2.entries (cooldownKeyOf ops rule event) =
          r.entries (cooldownKeyOf ops rule event)) ∨
      ((∃ f, (turn ops event eventTime rule r).1 = .ok (some f)) ∧
        (turn ops event eventTime rule r).2.entries (cooldownKeyOf ops rule event) =
          some ⟨.text "1".toList, some (r.now + ops.cooldownSec rule * second)⟩)) := by
  have hne : windowKeyOf ops rule event ≠ cooldownKeyOf ops rule event :=
    eventsKey_ne_cooldownKey _ _
  have hrecorded : (recorded ops rule event eventTime members r).entries
      (windowKeyOf ops rule event) = some ⟨.sorted ((uuidStr event.eventId, eventTime) ::
        (kept ops rule eventTime members).filter fun m => m.1 != uuidStr event.eventId),
        some (r.now + max (ops.timeframeSec rule * 10) 60 * second)⟩ :=
    Function.update_self _ _ _
  obtain ⟨a, ha⟩ := haction
  unfold turn
  rw [if_neg hawake, hwindow]
  dsimp only
  by_cases hcount : ((kept ops rule eventTime members).length : Int) + 1 < ops.count rule
  · rw [if_pos hcount]
    refine ⟨hrecorded, Or.inl ⟨(fun ⟨f, h⟩ => nomatch h), ?_⟩⟩
    exact Function.update_of_ne hne.symm _ _
  · rw [if_neg hcount, if_neg (not_le.mpr hpos), ha]
    refine ⟨?_, Or.inr ⟨⟨_, rfl⟩, Function.update_self _ _ _⟩⟩
    exact (Function.update_of_ne hne _ _).trans hrecorded

theorem turn_asleep (eventTime : Int) {event : ParsedEvent} {rule : ρ} {r : Redis}
    (h : (r.find (cooldownKeyOf ops rule event)).isSome = true) :
    turn ops event eventTime rule r = (.ok none, r) := by
  rw [turn, if_pos h]

theorem rule_of_id (hids : (rules.map ops.id).Nodup) {a b : ρ} (ha : a ∈ rules) (hb : b ∈ rules)
    (h : ops.id a = ops.id b) : a = b := List.inj_on_of_nodup_map hids ha hb h

theorem keysApart_of_distinct (hids : (rules.map ops.id).Nodup)
    (hkeys : KeysDistinct ops rules events) {e : ParsedEvent} (he : e ∈ events) :
    rules.Pairwise (KeysApart ops e) := by
  have hne : rules.Pairwise fun a b => ops.id a ≠ ops.id b := List.pairwise_map.mp hids
  refine hne.imp_of_mem ?_
  intro a b ha hb hab happlies happlies'
  obtain ⟨hww, hcc, hwc⟩ := hkeys a ha b hb e he e he happlies happlies'
  obtain ⟨-, -, hwc'⟩ := hkeys b hb a ha e he e he happlies' happlies
  exact ⟨fun h => hab (hww h).1, hwc, fun h => hwc' h.symm, fun h => hab (hcc h).1⟩

/-- A call fires for a pair exactly when it concerns the pair and the rule's turn fires. -/
theorem fired_iff (hids : (rules.map ops.id).Nodup) {c : Call} {r r' : Redis}
    {fires : List (RuleFire ρ)} (hall : AllTurns ops c.event c.time rules r r' fires) {rule : ρ}
    (hrule : rule ∈ rules) {dedup : Str} :
    (⟨c, fires⟩ : Record ρ).Fired ops rule dedup ↔
      c.Concerns ops rule dedup ∧ ∃ f, (turn ops c.event c.time rule r).1 = .ok (some f) := by
  constructor
  · rintro ⟨f, hf, hid, hdedup⟩
    obtain ⟨other, hother, happlies, hturn⟩ := (hall.fires f).mp hf
    obtain ⟨hfr, hfd⟩ := turn_fire hturn
    have hsame : other = rule := rule_of_id hids hother hrule (hfr ▸ hid)
    subst hsame
    exact ⟨⟨happlies, hfd.symm.trans hdedup⟩, f, hturn⟩
  · rintro ⟨⟨happlies, hdedup⟩, f, hturn⟩
    obtain ⟨hfr, hfd⟩ := turn_fire hturn
    exact ⟨f, (hall.fires f).mpr ⟨rule, hrule, happlies, hturn⟩, congrArg ops.id hfr,
      hfd.trans hdedup⟩

/-! ## The invariant of a run -/

structure RunnerInv (ops : RuleOps ρ) (rules : List ρ) (events : List ParsedEvent) (s : Runner ρ) :
    Prop where
  lawful : Lawful ops rules s.log
  sorted : s.log.Pairwise fun a b => b.time ≤ a.time
  past : ∀ rec ∈ s.log, 0 ≤ rec.time
  pairs : ∀ rule ∈ rules, ∀ e ∈ events, ops.applies rule e = .ok true →
    PairInv ops rule (dedupOf ops rule e) s.log s.redis

theorem RunnerInv.start : RunnerInv ops rules events Runner.start where
  lawful := trivial
  sorted := List.Pairwise.nil
  past _ h := nomatch h
  pairs _ _ _ _ _ := PairInv.start

/-- The invariant of a pair does not depend on the clock. -/
theorem PairInv.at_time {rule : ρ} {dedup : Str} {log : List (Record ρ)} {r : Redis}
    (inv : PairInv ops rule dedup log r) (time : Int) :
    PairInv ops rule dedup log { r with now := time } :=
  ⟨inv.kind, inv.nodup, inv.sound, inv.complete, inv.awake, inv.asleep⟩

theorem RunnerInv.le_of_call {s : Runner ρ} (inv : RunnerInv ops rules events s) {c : Call}
    (hclock : s.log.head?.all (fun rec => decide (rec.time ≤ c.time)) = true) :
    ∀ rec ∈ s.log, rec.time ≤ c.time := by
  have hsorted := inv.sorted
  cases hlog : s.log with
  | nil => simp
  | cons newest older =>
    rw [hlog] at hclock hsorted
    have hnewest : newest.time ≤ c.time := by simpa using hclock
    intro rec hrec
    rcases List.mem_cons.mp hrec with rfl | hrec
    · exact hnewest
    · have := (List.pairwise_cons.mp hsorted).1 rec hrec
      omega

section Step

variable {s : Runner ρ} {c : Call} {r' : Redis} {fires : List (RuleFire ρ)}

/-- One pair, after a call that concerns it. -/
theorem RunnerInv.pair_concerned (hids : (rules.map ops.id).Nodup)
    (inv : RunnerInv ops rules events s) (hreg : Regular ops rules s c) (hmem : c.event ∈ events)
    (hpast : ∀ rec ∈ s.log, rec.time ≤ c.time)
    (hall : AllTurns ops c.event c.time rules { s.redis with now := c.time } r' fires)
    {rule : ρ} (hrule : rule ∈ rules) (happlies : ops.applies rule c.event = .ok true) :
    PairInv ops rule (dedupOf ops rule c.event) (⟨c, fires⟩ :: s.log) r' := by
  obtain ⟨hpos, haction⟩ := (hreg.returns rule hrule).2 happlies
  have hinv := (inv.pairs rule hrule c.event hmem happlies).at_time c.time
  have hfired : (⟨c, fires⟩ : Record ρ).Fired ops rule (dedupOf ops rule c.event) ↔
      ∃ f, (turn ops c.event c.time rule { s.redis with now := c.time }).1 = .ok (some f) :=
    (fired_iff hids hall hrule).trans (and_iff_right ⟨happlies, rfl⟩)
  have hcool := hall.cooldown rule hrule happlies
  have hwin := hall.window rule hrule happlies
  by_cases hsleep : (({ s.redis with now := c.time } : Redis).find
      (cooldownKeyOf ops rule c.event)).isSome = true
  · -- in cooldown the call is passed over
    have hturn := turn_asleep c.time hsleep
    rw [hturn] at hcool hwin hfired
    refine hinv.keep hwin hcool (fun h => ?_) (fun h => h.2 (hinv.find_cooldown.mp hsleep))
    obtain ⟨f, hf⟩ := hfired.mp h
    cases hf
  · obtain ⟨members, hwindow, hnodup, hkept⟩ := hinv.window inv.past
    obtain ⟨hentry, hcases⟩ := turn_entries c.time hpos haction hwindow hsleep
    refine hinv.record rfl hnodup hkept hpast ⟨happlies, rfl⟩
      (fun h => hsleep (hinv.find_cooldown.mpr h)) (hwin.trans hentry) ?_
    rcases hcases with ⟨hnot, hsame⟩ | ⟨hyes, hset⟩
    · exact Or.inl ⟨fun h => hnot (hfired.mp h), hcool.trans hsame⟩
    · exact Or.inr ⟨hfired.mpr hyes, hcool.trans hset⟩

/-- One pair, after a call that does not concern it. -/
theorem RunnerInv.pair_other (hids : (rules.map ops.id).Nodup)
    (hkeys : KeysDistinct ops rules events) (inv : RunnerInv ops rules events s)
    (hmem : c.event ∈ events)
    (hall : AllTurns ops c.event c.time rules { s.redis with now := c.time } r' fires)
    {rule : ρ} (hrule : rule ∈ rules) {e : ParsedEvent} (he : e ∈ events)
    (happlies : ops.applies rule e = .ok true)
    (hother : ¬ c.Concerns ops rule (dedupOf ops rule e)) :
    PairInv ops rule (dedupOf ops rule e) (⟨c, fires⟩ :: s.log) r' := by
  have hinv := inv.pairs rule hrule e he happlies
  have hapart : ∀ third ∈ rules, ops.applies third c.event = .ok true →
      (windowKeyOf ops rule e ≠ windowKeyOf ops third c.event ∧
        windowKeyOf ops rule e ≠ cooldownKeyOf ops third c.event) ∧
      (cooldownKeyOf ops rule e ≠ windowKeyOf ops third c.event ∧
        cooldownKeyOf ops rule e ≠ cooldownKeyOf ops third c.event) := by
    intro third hthird happlies'
    obtain ⟨hww, hcc, hwc⟩ := hkeys rule hrule third hthird e he c.event hmem happlies happlies'
    obtain ⟨-, -, hcw⟩ := hkeys third hthird rule hrule c.event hmem e he happlies' happlies
    -- equal keys would make the call concern the pair
    have hsame : ¬ (ops.id rule = ops.id third ∧
        dedupOf ops rule e = dedupOf ops third c.event) := by
      rintro ⟨hid, hdedup⟩
      have := rule_of_id hids hrule hthird hid
      subst this
      exact hother ⟨happlies', hdedup.symm⟩
    exact ⟨⟨fun h => hsame (hww h), hwc⟩, fun h => hcw h.symm, fun h => hsame (hcc h)⟩
  refine hinv.keep ?_ ?_ ?_ (fun h => hother h.1)
  · exact hall.frame _ fun third hthird happlies' => (hapart third hthird happlies').1
  · exact hall.frame _ fun third hthird happlies' => (hapart third hthird happlies').2
  · intro h
    exact hother ((fired_iff hids hall hrule).mp h).1

/-- The law at a call that meets the condition. -/
theorem RunnerInv.law (hids : (rules.map ops.id).Nodup) (inv : RunnerInv ops rules events s)
    (hreg : Regular ops rules s c) (hmem : c.event ∈ events)
    (hpast : ∀ rec ∈ s.log, rec.time ≤ c.time)
    (hall : AllTurns ops c.event c.time rules { s.redis with now := c.time } r' fires) :
    LawAt ops rules s.log ⟨c, fires⟩ := by
  intro rule hrule happlies
  obtain ⟨hpos, haction⟩ := (hreg.returns rule hrule).2 happlies
  have hinv := (inv.pairs rule hrule c.event hmem happlies).at_time c.time
  obtain ⟨members, hwindow, hnodup, hkept⟩ := hinv.window inv.past
  have hfired : (⟨c, fires⟩ : Record ρ).Fired ops rule (dedupOf ops rule c.event) ↔
      ∃ f, (turn ops c.event c.time rule { s.redis with now := c.time }).1 = .ok (some f) :=
    (fired_iff hids hall hrule).trans (and_iff_right ⟨happlies, rfl⟩)
  show (⟨c, fires⟩ : Record ρ).Fired ops rule (dedupOf ops rule c.event) ↔ _
  rw [hfired, turn_fires_iff hpos haction hwindow]
  have hcool : (({ s.redis with now := c.time } : Redis).find
      (cooldownKeyOf ops rule c.event)).isSome = true ↔
      InCooldown ops rule (dedupOf ops rule c.event) s.log c.time := hinv.find_cooldown
  rw [hcool, and_comm]
  refine and_congr_left fun hawake => ?_
  have hcount := hinv.count hnodup hkept hpast (hreg.fresh rule hrule happlies hawake)
  show ops.count rule ≤ ((kept ops rule c.time members).length : Int) + 1 ↔ _
  rw [← hcount]
  push_cast
  rfl

theorem RunnerInv.keep {s' : Runner ρ} (hids : (rules.map ops.id).Nodup)
    (hkeys : KeysDistinct ops rules events) (inv : RunnerInv ops rules events s)
    (hreg : Regular ops rules s c) (hmem : c.event ∈ events)
    (h : Runner.call ops rules s c = some s') : RunnerInv ops rules events s' := by
  unfold Runner.call at h
  split at h
  · rename_i hclock
    have hpast := inv.le_of_call hclock
    have hty : Typed ops c.event rules { s.redis with now := c.time } := by
      intro rule hrule happlies
      obtain ⟨members, hwindow, -⟩ :=
        ((inv.pairs rule hrule c.event hmem happlies).at_time c.time).window inv.past
      show Redis.window _ (windowKeyOf ops rule c.event) ≠ none
      unfold windowKeyOf
      rw [hwindow]
      exact nofun
    obtain ⟨fires, r', hexec, hall⟩ := evaluate_turns (keysApart_of_distinct hids hkeys hmem)
      hreg.returns hty
    rw [hexec] at h
    cases h
    refine ⟨⟨inv.law hids hreg hmem hpast hall, inv.lawful⟩, ?_, ?_, ?_⟩
    · exact List.pairwise_cons.mpr ⟨hpast, inv.sorted⟩
    · intro rec hrec
      rcases List.mem_cons.mp hrec with rfl | hrec
      · exact hreg.clock
      · exact inv.past rec hrec
    · intro rule hrule e he happlies
      by_cases hconcerns : c.Concerns ops rule (dedupOf ops rule e)
      · rw [← hconcerns.2]
        exact inv.pair_concerned hids hreg hmem hpast hall hrule hconcerns.1
      · exact inv.pair_other hids hkeys hmem hall hrule he happlies hconcerns
  · cases h

end Step

/-- In every run whose calls meet the condition, every rule fires by the law at every call. -/
theorem firing_law (ops : RuleOps ρ) (rules : List ρ) (calls : List Call) (s : Runner ρ)
    (hids : (rules.map ops.id).Nodup) (hkeys : KeysDistinct ops rules (calls.map Call.event))
    (hrun : Run (Runner.call ops rules) (Regular ops rules) Runner.start calls s) :
    Lawful ops rules s.log := by
  have hinv : RunnerInv ops rules (calls.map Call.event) s :=
    hrun.mem.invariant RunnerInv.start fun t c u inv hok taken =>
      inv.keep hids hkeys hok.1 (List.mem_map_of_mem hok.2) taken
  exact hinv.lawful

end Run

/-! ## Two deliveries -/

/-- A rule that fires on the second event within a minute. -/
def pairOps : RuleOps Unit where
  id _ := "pair".toList
  title _ := "Two events".toList
  level _ := "high".toList
  count _ := 2
  timeframeSec _ := 60
  cooldownSec _ := 300
  applies _ _ := pure true
  renderDedupKey _ _ := []
  renderAction _ _ := pure none

def loginAt (id : Uuid) (time : Int) : Call := ⟨{ failedLogin with eventId := id }, time⟩

theorem pairOps_keys (calls : List Call) : KeysDistinct pairOps [()] (calls.map Call.event) := by
  intro a _ b _ e _ f _ _ _
  exact ⟨fun _ => ⟨rfl, rfl⟩, fun _ => ⟨rfl, rfl⟩, eventsKey_ne_cooldownKey _ _⟩

/-- The same event, delivered twice, makes the rule fire, which wants two events. -/
theorem redelivery_counts_twice :
    ∃ s, AnyRun (Runner.call pairOps [()]) Runner.start
        [loginAt 3#128 0, loginAt 3#128 second] s ∧
      ([()].map pairOps.id).Nodup ∧
      KeysDistinct pairOps [()] ([loginAt 3#128 0, loginAt 3#128 second].map Call.event) ∧
      ¬ Lawful pairOps [()] s.log := by
  have hlog : (exec (Runner.call pairOps [()]) Runner.start
      [loginAt 3#128 0, loginAt 3#128 second]).any (fun s => decide (s.log =
        [⟨loginAt 3#128 second, [⟨(), { failedLogin with eventId := 3#128 }, "pair".toList, 2, none⟩]⟩,
          ⟨loginAt 3#128 0, []⟩])) = true := by decide +kernel
  obtain ⟨s, hrun, hs⟩ := run_of_check hlog
  refine ⟨s, hrun, by decide, pairOps_keys _, ?_⟩
  rw [decide_eq_true_eq] at hs
  rw [hs]
  rintro ⟨hlaw, -⟩
  have hfired := (hlaw () List.mem_cons_self rfl).mp
    ⟨_, List.mem_cons_self, rfl, rfl⟩
  have hcard : (insert (3#128 : Uuid) (windowIds pairOps () "pair".toList
      [⟨loginAt 3#128 0, []⟩] second)).card = 1 := by decide +kernel
  have htwo : (2 : Int) ≤ ((insert (3#128 : Uuid) (windowIds pairOps () "pair".toList
      [⟨loginAt 3#128 0, []⟩] second)).card : Int) := hfired.1
  rw [hcard] at htwo
  omega

/-- Two different events do. -/
theorem firing_law_pair :
    ∃ s, Run (Runner.call pairOps [()]) (Regular pairOps [()]) Runner.start
        [loginAt 3#128 0, loginAt 4#128 second] s ∧ Lawful pairOps [()] s.log := by
  have hreturns : ∀ c : Call, ∀ rule ∈ [()], Returns pairOps c.event rule :=
    fun c rule _ => ⟨⟨true, rfl⟩, fun _ => ⟨show (0 : Int) < 300 by decide, none, rfl⟩⟩
  have hfirst : Regular pairOps [()] Runner.start (loginAt 3#128 0) := by
    refine ⟨by decide, hreturns _, ?_⟩
    intro rule _ _ _ rec older hsuffix
    have := List.suffix_nil.mp hsuffix
    cases this
  have hexec : (Runner.call pairOps [()] Runner.start (loginAt 3#128 0)).any (fun s =>
      decide (s.log = [⟨loginAt 3#128 0, []⟩]) &&
        (Runner.call pairOps [()] s (loginAt 4#128 second)).isSome) = true := by decide +kernel
  obtain ⟨s₁, hs₁, hcheck⟩ := (Option.any_eq_true _ _).mp hexec
  rw [Bool.and_eq_true, decide_eq_true_eq] at hcheck
  obtain ⟨hlog, hsome⟩ := hcheck
  obtain ⟨s₂, hs₂⟩ := Option.isSome_iff_exists.mp hsome
  have hsecond : Regular pairOps [()] s₁ (loginAt 4#128 second) := by
    refine ⟨by decide, hreturns _, ?_⟩
    intro rule _ _ _ rec older hsuffix _ _
    rw [hlog] at hsuffix
    rcases List.suffix_cons_iff.mp hsuffix with heq | hnil
    · cases heq
      refine ⟨by decide, ?_⟩
      rintro ⟨old, hold, -⟩
      cases hold
    · have := List.suffix_nil.mp hnil
      cases this
  have hrun : Run (Runner.call pairOps [()]) (Regular pairOps [()]) Runner.start
      [loginAt 3#128 0, loginAt 4#128 second] s₂ :=
    (Run.single hfirst hs₁).trans (Run.single hsecond hs₂)
  exact ⟨s₂, hrun, firing_law pairOps [()] _ s₂ (by decide) (pairOps_keys _) hrun⟩

end ZaqorinCore.Server
