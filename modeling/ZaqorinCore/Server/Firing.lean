import ZaqorinCore.Base.Run
import ZaqorinCore.Server.Faults

/-!
# When a rule fires

The calls of `evaluate` on one runner, as runs over the state of Redis with a log of what was
evaluated and what fired. `LawAt` is the law of the module's docstring: a rule fires when enough
distinct events matched within its timeframe and it is not in cooldown. The code counts the members
of a sorted set before it adds the event, and records nothing during a cooldown. `PairInv` says how
the two keys of a rule and a dedup key reflect the log, and `PairInv.count` when the code's count is
the law's.
-/

namespace ZaqorinCore.Server

open Text Base SigmaRuleRunner

variable {ρ : Type}

/-! ## The rules of one call -/

section Call

variable {ops : RuleOps ρ} {event : ParsedEvent} {eventTime : Int} {rules : List ρ} {r : Redis}

/-- No key of the one rule is a key of the other, if both match the event. -/
def KeysApart (ops : RuleOps ρ) (event : ParsedEvent) (a b : ρ) : Prop :=
  ops.applies a event = .ok true → ops.applies b event = .ok true →
    windowKeyOf ops a event ≠ windowKeyOf ops b event ∧
    windowKeyOf ops a event ≠ cooldownKeyOf ops b event ∧
    cooldownKeyOf ops a event ≠ windowKeyOf ops b event ∧
    cooldownKeyOf ops a event ≠ cooldownKeyOf ops b event

/-- The rule returns from its turn, whatever the state. -/
def Returns (ops : RuleOps ρ) (event : ParsedEvent) (rule : ρ) : Prop :=
  (∃ b, ops.applies rule event = .ok b) ∧
  (ops.applies rule event = .ok true →
    0 < ops.cooldownSec rule ∧ ∃ a, ops.renderAction rule event = .ok a)

/-- Every rule has had its turn as if it were alone. -/
structure AllTurns (ops : RuleOps ρ) (event : ParsedEvent) (eventTime : Int) (rules : List ρ)
    (r r' : Redis) (fires : List (RuleFire ρ)) : Prop where
  now : r'.now = r.now
  window : ∀ rule ∈ rules, ops.applies rule event = .ok true →
    r'.entries (windowKeyOf ops rule event) =
      (turn ops event eventTime rule r).2.entries (windowKeyOf ops rule event)
  cooldown : ∀ rule ∈ rules, ops.applies rule event = .ok true →
    r'.entries (cooldownKeyOf ops rule event) =
      (turn ops event eventTime rule r).2.entries (cooldownKeyOf ops rule event)
  frame : ∀ key, (∀ rule ∈ rules, ops.applies rule event = .ok true →
      key ≠ windowKeyOf ops rule event ∧ key ≠ cooldownKeyOf ops rule event) →
    r'.entries key = r.entries key
  fires : ∀ fire, fire ∈ fires ↔ ∃ rule ∈ rules, ops.applies rule event = .ok true ∧
    (turn ops event eventTime rule r).1 = .ok (some fire)

theorem evaluate_turns (hapart : rules.Pairwise (KeysApart ops event))
    (hreturns : ∀ rule ∈ rules, Returns ops event rule) (hty : Typed ops event rules r) :
    ∃ fires r', (evaluate ops event eventTime rules).exec r = (.ok fires, r') ∧
      AllTurns ops event eventTime rules r r' fires := by
  induction rules generalizing r with
  | nil =>
    refine ⟨[], r, rfl, rfl, ?_, ?_, fun _ _ => rfl, ?_⟩ <;> simp
  | cons rule rules ih =>
    obtain ⟨hhead, htail⟩ := List.pairwise_cons.mp hapart
    obtain ⟨⟨b, hb⟩, hgood⟩ := hreturns rule List.mem_cons_self
    have hreturns' := fun other h => hreturns other (List.mem_cons_of_mem _ h)
    cases b with
    | false =>
      -- the rule does not match, and is none of those the statement speaks of
      have hno : ops.applies rule event ≠ .ok true := by rw [hb]; exact nofun
      obtain ⟨fires, r', hexec, hall⟩ := ih htail hreturns'
        (fun other h => hty other (List.mem_cons_of_mem _ h))
      refine ⟨fires, r', ?_, hall.now, ?_, ?_, ?_, ?_⟩
      · rw [evaluate_cons_ok (evaluateRule_exec_false hb), Script.exec_bind_ok hexec]
        rfl
      · intro other hother happlies
        rcases List.mem_cons.mp hother with rfl | hother
        · exact absurd happlies hno
        · exact hall.window other hother happlies
      · intro other hother happlies
        rcases List.mem_cons.mp hother with rfl | hother
        · exact absurd happlies hno
        · exact hall.cooldown other hother happlies
      · intro key hkey
        exact hall.frame key fun other hother => hkey other (List.mem_cons_of_mem _ hother)
      · intro fire
        rw [hall.fires]
        constructor
        · rintro ⟨other, hother, h⟩
          exact ⟨other, List.mem_cons_of_mem _ hother, h⟩
        · rintro ⟨other, hother, happlies, h⟩
          rcases List.mem_cons.mp hother with rfl | hother
          · exact absurd happlies hno
          · exact ⟨other, hother, happlies, h⟩
    | true =>
      obtain ⟨hpos, haction⟩ := hgood hb
      obtain ⟨fire, hfire⟩ := turn_ok eventTime hpos haction (hty rule List.mem_cons_self hb)
      have hexec₁ : (evaluateRule ops event eventTime rule).exec r =
          (.ok fire, (turn ops event eventTime rule r).2) :=
        (evaluateRule_exec hb).trans (Prod.ext hfire rfl)
      -- the other rules see their keys as they were
      have hother : ∀ other ∈ rules, ops.applies other event = .ok true →
          (turn ops event eventTime other (turn ops event eventTime rule r).2).1 =
            (turn ops event eventTime other r).1 ∧
          (turn ops event eventTime other (turn ops event eventTime rule r).2).2.entries
            (windowKeyOf ops other event) =
            (turn ops event eventTime other r).2.entries (windowKeyOf ops other event) ∧
          (turn ops event eventTime other (turn ops event eventTime rule r).2).2.entries
            (cooldownKeyOf ops other event) =
            (turn ops event eventTime other r).2.entries (cooldownKeyOf ops other event) := by
        intro other hmem happlies
        obtain ⟨hww, hwc, hcw, hcc⟩ := hhead other hmem hb happlies
        exact turn_congr turn_now (turn_frame hww.symm hcw.symm) (turn_frame hwc.symm hcc.symm)
      have hty' : Typed ops event rules (turn ops event eventTime rule r).2 := by
        intro other hmem happlies
        obtain ⟨hww, hwc, hcw, hcc⟩ := hhead other hmem hb happlies
        exact turn_window hcw.symm (hty other (List.mem_cons_of_mem _ hmem) happlies)
      obtain ⟨fires, r', hexec, hall⟩ := ih htail hreturns' hty'
      refine ⟨fire.toList ++ fires, r', ?_, hall.now.trans turn_now, ?_, ?_, ?_, ?_⟩
      · rw [evaluate_cons_ok hexec₁, Script.exec_bind_ok hexec]
        rfl
      · intro other hmem happlies
        rcases List.mem_cons.mp hmem with rfl | hmem
        · refine hall.frame _ fun third hthird happlies' => ?_
          obtain ⟨hww, hwc, -, -⟩ := hhead third hthird hb happlies'
          exact ⟨hww, hwc⟩
        · rw [hall.window other hmem happlies]
          exact (hother other hmem happlies).2.1
      · intro other hmem happlies
        rcases List.mem_cons.mp hmem with rfl | hmem
        · refine hall.frame _ fun third hthird happlies' => ?_
          obtain ⟨-, -, hcw, hcc⟩ := hhead third hthird hb happlies'
          exact ⟨hcw, hcc⟩
        · rw [hall.cooldown other hmem happlies]
          exact (hother other hmem happlies).2.2
      · intro key hkey
        obtain ⟨hw, hc⟩ := hkey rule List.mem_cons_self hb
        rw [hall.frame key fun other hmem => hkey other (List.mem_cons_of_mem _ hmem)]
        exact turn_frame hw hc
      · intro f
        rw [List.mem_append, Option.mem_toList, hall.fires]
        constructor
        · rintro (hf | ⟨other, hmem, happlies, h⟩)
          · exact ⟨rule, List.mem_cons_self, hb, by rw [hfire, hf]⟩
          · exact ⟨other, List.mem_cons_of_mem _ hmem, happlies,
              by rw [← (hother other hmem happlies).1, h]⟩
        · rintro ⟨other, hmem, happlies, h⟩
          rcases List.mem_cons.mp hmem with rfl | hmem
          · rw [hfire] at h
            exact Or.inl (Except.ok.inj h)
          · exact Or.inr ⟨other, hmem, happlies, by rw [(hother other hmem happlies).1, h]⟩

end Call

/-! ## Runs of calls -/

/-- A call of `evaluate`: the event, and the clock reading. -/
structure Call where
  event : ParsedEvent
  time : Int
  deriving DecidableEq

/-- A call that was made, and the fires it returned. -/
structure Record (ρ : Type) extends Call where
  fires : List (RuleFire ρ)
  deriving DecidableEq

/-- The calls are logged, the newest first. -/
structure Runner (ρ : Type) where
  redis : Redis
  log : List (Record ρ)

def Runner.start : Runner ρ := ⟨emptyRedis 0, []⟩

/-- One call; the clock does not go back. A call that raises returns no fires. -/
def Runner.call (ops : RuleOps ρ) (rules : List ρ) (s : Runner ρ) (c : Call) : Option (Runner ρ) :=
  if s.log.head?.all (fun rec => decide (rec.time ≤ c.time)) then
    let (result, redis) := (evaluate ops c.event c.time rules).exec { s.redis with now := c.time }
    let fires := match result with
      | .ok fires => fires
      | .error _ => []
    some ⟨redis, ⟨c, fires⟩ :: s.log⟩
  else none

section Law

variable (ops : RuleOps ρ)

/-- The call's event matches the rule with this dedup key. -/
def Call.Concerns (rule : ρ) (dedup : Str) (c : Call) : Prop :=
  ops.applies rule c.event = .ok true ∧ dedupOf ops rule c.event = dedup

/-- The call returned a fire of the rule with this dedup key. -/
def Record.Fired (rule : ρ) (dedup : Str) (rec : Record ρ) : Prop :=
  ∃ f ∈ rec.fires, ops.id f.rule = ops.id rule ∧ f.dedupKey = dedup

/-- The rule fired with this dedup key less than its cooldown ago. -/
def InCooldown (rule : ρ) (dedup : Str) (log : List (Record ρ)) (time : Int) : Prop :=
  ∃ rec ∈ log, rec.Fired ops rule dedup ∧ time < rec.time + ops.cooldownSec rule * second

/-- The ids of the matching events that were evaluated within the timeframe. -/
def windowIds (rule : ρ) (dedup : Str) (log : List (Record ρ)) (time : Int) : Finset Uuid :=
  ((log.filter fun rec => decide (ops.applies rule rec.event = .ok true ∧
      dedupOf ops rule rec.event = dedup ∧ time - ops.timeframeSec rule * second < rec.time)).map
    fun rec => rec.event.eventId).toFinset

/-- The law for one call, whose predecessors are in `log`. -/
def LawAt (rules : List ρ) (log : List (Record ρ)) (rec : Record ρ) : Prop :=
  ∀ rule ∈ rules, ops.applies rule rec.event = .ok true →
    let dedup := dedupOf ops rule rec.event
    rec.Fired ops rule dedup ↔
      ops.count rule ≤ (insert rec.event.eventId (windowIds ops rule dedup log rec.time)).card ∧
      ¬ InCooldown ops rule dedup log rec.time

/-- The law holds at every call. -/
def Lawful (rules : List ρ) : List (Record ρ) → Prop
  | [] => True
  | rec :: log => LawAt ops rules log rec ∧ Lawful rules log

/-- What a call must meet for the law: the clock is not before its epoch, no rule raises, and for
every rule that matches and is not in cooldown the events of its window are other events, none of
which was evaluated while the rule was in cooldown. -/
structure Regular (rules : List ρ) (s : Runner ρ) (c : Call) : Prop where
  clock : 0 ≤ c.time
  returns : ∀ rule ∈ rules, Returns ops c.event rule
  fresh : ∀ rule ∈ rules, ops.applies rule c.event = .ok true →
    ¬ InCooldown ops rule (dedupOf ops rule c.event) s.log c.time →
    ∀ rec older, (rec :: older) <:+ s.log →
      rec.Concerns ops rule (dedupOf ops rule c.event) →
      c.time - ops.timeframeSec rule * second < rec.time →
        rec.event.eventId ≠ c.event.eventId ∧
        ¬ InCooldown ops rule (dedupOf ops rule c.event) older rec.time

/-- The keys of distinct pairs of a rule and a dedup key are distinct. -/
def KeysDistinct (rules : List ρ) (events : List ParsedEvent) : Prop :=
  ∀ a ∈ rules, ∀ b ∈ rules, ∀ e ∈ events, ∀ f ∈ events,
    ops.applies a e = .ok true → ops.applies b f = .ok true →
      (windowKeyOf ops a e = windowKeyOf ops b f →
        ops.id a = ops.id b ∧ dedupOf ops a e = dedupOf ops b f) ∧
      (cooldownKeyOf ops a e = cooldownKeyOf ops b f →
        ops.id a = ops.id b ∧ dedupOf ops a e = dedupOf ops b f) ∧
      windowKeyOf ops a e ≠ cooldownKeyOf ops b f

end Law

/-! ## What is recorded -/

section Recorded

variable (ops : RuleOps ρ) (rule : ρ) (dedup : Str)

/-- The calls of a log that were recorded in the window: those that match outside a cooldown. -/
inductive Recorded : List (Record ρ) → Record ρ → Prop
  | here {rec : Record ρ} {log : List (Record ρ)} (concerns : rec.Concerns ops rule dedup)
      (awake : ¬ InCooldown ops rule dedup log rec.time) : Recorded (rec :: log) rec
  | there {rec newer : Record ρ} {log : List (Record ρ)} (before : Recorded log rec) :
      Recorded (newer :: log) rec

variable {ops rule dedup}

theorem recorded_cons_iff {rec newer : Record ρ} {log : List (Record ρ)} :
    Recorded ops rule dedup (newer :: log) rec ↔
      (rec = newer ∧ newer.Concerns ops rule dedup ∧ ¬ InCooldown ops rule dedup log newer.time) ∨
        Recorded ops rule dedup log rec := by
  constructor
  · intro h
    cases h with
    | here concerns awake => exact Or.inl ⟨rfl, concerns, awake⟩
    | there before => exact Or.inr before
  · rintro (⟨rfl, concerns, awake⟩ | before)
    · exact .here concerns awake
    · exact .there before

theorem Recorded.mem {rec : Record ρ} {log : List (Record ρ)}
    (h : Recorded ops rule dedup log rec) : rec ∈ log ∧ rec.Concerns ops rule dedup := by
  induction h with
  | here concerns _ => exact ⟨List.mem_cons_self, concerns⟩
  | there _ ih => exact ⟨List.mem_cons_of_mem _ ih.1, ih.2⟩

theorem recorded_of_suffix {rec : Record ρ} {log older : List (Record ρ)}
    (h : (rec :: older) <:+ log) (concerns : rec.Concerns ops rule dedup)
    (awake : ¬ InCooldown ops rule dedup older rec.time) : Recorded ops rule dedup log rec := by
  obtain ⟨newer, rfl⟩ := h
  induction newer with
  | nil => exact .here concerns awake
  | cons x newer ih => exact .there ih

theorem exists_suffix_of_mem {α : Type} {x : α} {l : List α} (h : x ∈ l) :
    ∃ older, (x :: older) <:+ l := by
  obtain ⟨newer, older, rfl⟩ := List.append_of_mem h
  exact ⟨older, newer, rfl⟩

end Recorded

/-! ## What Redis holds for one pair -/

/-- The members stored at a key, expired or not. -/
def Redis.stored (r : Redis) (key : Str) : List (Str × Int) :=
  match r.entries key with
  | some ⟨.sorted members, _⟩ => members
  | _ => []

/-- How the two keys of a rule and a dedup key reflect the log. Every stored member is a recorded
call; a recorded call that can still be in the window is stored, unless it came again later; the
window expires no sooner than its members leave it. The cooldown key goes back to the last fire. -/
structure PairInv (ops : RuleOps ρ) (rule : ρ) (dedup : Str) (log : List (Record ρ)) (r : Redis) :
    Prop where
  kind : ∀ e, r.entries (eventsKey (ops.id rule) dedup) = some e →
    ∃ members expiresAt, e = ⟨.sorted members, some expiresAt⟩ ∧
      ∀ m ∈ members, m.2 + ops.timeframeSec rule * second ≤ expiresAt
  nodup : ((r.stored (eventsKey (ops.id rule) dedup)).map Prod.fst).Nodup
  sound : ∀ m ∈ r.stored (eventsKey (ops.id rule) dedup), ∃ rec, Recorded ops rule dedup log rec ∧
    m = (uuidStr rec.event.eventId, rec.time)
  complete : ∀ rec, Recorded ops rule dedup log rec → ∀ time, (∀ old ∈ log, old.time ≤ time) →
    time - ops.timeframeSec rule * second < rec.time →
      ∃ m ∈ r.stored (eventsKey (ops.id rule) dedup), m.1 = uuidStr rec.event.eventId ∧
        rec.time ≤ m.2
  awake : (∀ rec ∈ log, ¬ rec.Fired ops rule dedup) →
    r.entries (cooldownKey (ops.id rule) dedup) = none
  asleep : ∀ rec ∈ log, rec.Fired ops rule dedup →
    ∃ last ∈ log, last.Fired ops rule dedup ∧
      (∀ other ∈ log, other.Fired ops rule dedup → other.time ≤ last.time) ∧
      r.entries (cooldownKey (ops.id rule) dedup) =
        some ⟨.text "1".toList, some (last.time + ops.cooldownSec rule * second)⟩

section Pair

variable {ops : RuleOps ρ} {rule : ρ} {dedup : Str} {log : List (Record ρ)} {r r' : Redis}

theorem PairInv.start : PairInv ops rule dedup [] (emptyRedis 0) where
  kind _ h := nomatch h
  nodup := List.nodup_nil
  sound _ h := nomatch h
  complete _ h := nomatch h
  awake _ := rfl
  asleep _ h := nomatch h

theorem stored_congr {key : Str} (h : r'.entries key = r.entries key) :
    r'.stored key = r.stored key := by
  rw [Redis.stored, Redis.stored, h]

/-- The cooldown key is there exactly while the rule is in cooldown. -/
theorem PairInv.find_cooldown (inv : PairInv ops rule dedup log r) :
    (r.find (cooldownKey (ops.id rule) dedup)).isSome = true ↔
      InCooldown ops rule dedup log r.now := by
  by_cases hfired : ∃ rec ∈ log, rec.Fired ops rule dedup
  · obtain ⟨rec, hrec, hf⟩ := hfired
    obtain ⟨last, hlast, hlf, hmax, hentry⟩ := inv.asleep rec hrec hf
    have hfind : (r.find (cooldownKey (ops.id rule) dedup)).isSome = true ↔
        r.now < last.time + ops.cooldownSec rule * second := by
      rw [Redis.find, hentry, Option.filter_some]
      simp
    rw [hfind]
    constructor
    · intro h
      exact ⟨last, hlast, hlf, h⟩
    · rintro ⟨other, hother, hof, h⟩
      have := hmax other hother hof
      omega
  · have hnone := inv.awake fun rec hrec hf => hfired ⟨rec, hrec, hf⟩
    refine iff_of_false ?_ ?_
    · rw [Redis.find, hnone]
      simp
    · rintro ⟨rec, hrec, hf, -⟩
      exact hfired ⟨rec, hrec, hf⟩

/-- What is kept of the window at the time of a call. -/
theorem PairInv.window (inv : PairInv ops rule dedup log r)
    (hpast : ∀ old ∈ log, 0 ≤ old.time) :
    ∃ members, r.window (eventsKey (ops.id rule) dedup) = some members ∧
      ((kept ops rule r.now members).map Prod.fst).Nodup ∧
      ∀ m, m ∈ kept ops rule r.now members ↔
        m ∈ r.stored (eventsKey (ops.id rule) dedup) ∧
          r.now - ops.timeframeSec rule * second < m.2 := by
  have hempty : kept ops rule r.now [] = [] := rfl
  cases hentry : r.entries (eventsKey (ops.id rule) dedup) with
  | none =>
    have hstored : r.stored (eventsKey (ops.id rule) dedup) = [] := by rw [Redis.stored, hentry]
    refine ⟨[], ?_, ?_, ?_⟩
    · rw [Redis.window, Redis.find, hentry]
      rfl
    · simp [hempty]
    · simp [hempty, hstored]
  | some e =>
    obtain ⟨members, expiresAt, rfl, hexpires⟩ := inv.kind e hentry
    have hstored : r.stored (eventsKey (ops.id rule) dedup) = members := by
      rw [Redis.stored, hentry]
    have hpos : ∀ m ∈ members, 0 ≤ m.2 := by
      intro m hm
      obtain ⟨rec, hrec, rfl⟩ := inv.sound m (hstored ▸ hm)
      exact hpast rec hrec.mem.1
    by_cases hlive : r.now < expiresAt
    · refine ⟨members, ?_, ?_, ?_⟩
      · rw [Redis.window, Redis.find, hentry, Option.filter_some, if_pos (by simpa using hlive)]
      · have hnodup := inv.nodup
        rw [hstored] at hnodup
        exact hnodup.sublist ((List.filter_sublist).map _)
      · intro m
        rw [hstored, kept, List.mem_filter]
        refine and_congr_right fun hm => ?_
        have := hpos m hm
        simp only [Bool.not_eq_true', Bool.and_eq_false_iff, decide_eq_false_iff_not, not_le]
        constructor
        · rintro (h | h) <;> omega
        · intro h
          exact Or.inr h
    · refine ⟨[], ?_, ?_, ?_⟩
      · rw [Redis.window, Redis.find, hentry, Option.filter_some, if_neg (by simpa using hlive)]
      · simp [hempty]
      · intro m
        rw [hempty, hstored]
        refine iff_of_false List.not_mem_nil ?_
        rintro ⟨hm, h⟩
        have := hexpires m hm
        omega

theorem mem_windowIds {time : Int} {id : Uuid} :
    id ∈ windowIds ops rule dedup log time ↔ ∃ rec ∈ log, rec.Concerns ops rule dedup ∧
      time - ops.timeframeSec rule * second < rec.time ∧ rec.event.eventId = id := by
  simp [windowIds, Call.Concerns, and_assoc]

/-- The count of the code is the count of the law, when every event of the window was recorded and
none of them is the present one. -/
theorem PairInv.count (inv : PairInv ops rule dedup log r) {members : List (Str × Int)}
    (hnodup : ((kept ops rule r.now members).map Prod.fst).Nodup)
    (hkept : ∀ m, m ∈ kept ops rule r.now members ↔
      m ∈ r.stored (eventsKey (ops.id rule) dedup) ∧
        r.now - ops.timeframeSec rule * second < m.2)
    (hpast : ∀ old ∈ log, old.time ≤ r.now) {id : Uuid}
    (hfresh : ∀ rec older, (rec :: older) <:+ log → rec.Concerns ops rule dedup →
      r.now - ops.timeframeSec rule * second < rec.time →
        rec.event.eventId ≠ id ∧ ¬ InCooldown ops rule dedup older rec.time) :
    (kept ops rule r.now members).length + 1 =
      (insert id (windowIds ops rule dedup log r.now)).card := by
  have hids : ((kept ops rule r.now members).map Prod.fst).toFinset =
      (windowIds ops rule dedup log r.now).image uuidStr := by
    ext name
    rw [List.mem_toFinset, List.mem_map, Finset.mem_image]
    constructor
    · rintro ⟨m, hm, rfl⟩
      obtain ⟨hstored, hin⟩ := (hkept m).mp hm
      obtain ⟨rec, hrec, rfl⟩ := inv.sound m hstored
      obtain ⟨hmem, hconcerns⟩ := hrec.mem
      exact ⟨_, mem_windowIds.mpr ⟨rec, hmem, hconcerns, hin, rfl⟩, rfl⟩
    · rintro ⟨i, hi, rfl⟩
      obtain ⟨rec, hmem, hconcerns, hin, rfl⟩ := mem_windowIds.mp hi
      obtain ⟨older, hsuffix⟩ := exists_suffix_of_mem hmem
      have hrec := recorded_of_suffix hsuffix hconcerns (hfresh rec older hsuffix hconcerns hin).2
      obtain ⟨m, hm, hname, htime⟩ := inv.complete rec hrec r.now hpast hin
      exact ⟨m, (hkept m).mpr ⟨hm, by omega⟩, hname⟩
  have hnew : id ∉ windowIds ops rule dedup log r.now := by
    intro hi
    obtain ⟨rec, hmem, hconcerns, hin, hid⟩ := mem_windowIds.mp hi
    obtain ⟨older, hsuffix⟩ := exists_suffix_of_mem hmem
    exact (hfresh rec older hsuffix hconcerns hin).1 hid
  have hcard : (kept ops rule r.now members).length =
      (windowIds ops rule dedup log r.now).card := by
    calc (kept ops rule r.now members).length
        = ((kept ops rule r.now members).map Prod.fst).toFinset.card := by
          rw [List.toFinset_card_of_nodup hnodup, List.length_map]
      _ = (windowIds ops rule dedup log r.now).card := by
          rw [hids]
          exact Finset.card_image_of_injective _ fun u v h => uuidStr_injective h
  rw [Finset.card_insert_of_notMem hnew, hcard]

/-- A call that neither records nor fires for the pair, and leaves its keys as they are. -/
theorem PairInv.keep (inv : PairInv ops rule dedup log r) {rec : Record ρ}
    (hwindow : r'.entries (eventsKey (ops.id rule) dedup) =
      r.entries (eventsKey (ops.id rule) dedup))
    (hcool : r'.entries (cooldownKey (ops.id rule) dedup) =
      r.entries (cooldownKey (ops.id rule) dedup))
    (hfired : ¬ rec.Fired ops rule dedup)
    (hskip : ¬ (rec.Concerns ops rule dedup ∧ ¬ InCooldown ops rule dedup log rec.time)) :
    PairInv ops rule dedup (rec :: log) r' := by
  have hrecorded : ∀ old, Recorded ops rule dedup (rec :: log) old ↔
      Recorded ops rule dedup log old := by
    intro old
    rw [recorded_cons_iff]
    exact or_iff_right fun h => hskip h.2
  have hstored := stored_congr hwindow
  refine ⟨?_, ?_, ?_, ?_, ?_, ?_⟩
  · rw [hwindow]
    exact inv.kind
  · rw [hstored]
    exact inv.nodup
  · intro m hm
    obtain ⟨old, hold, heq⟩ := inv.sound m (hstored ▸ hm)
    exact ⟨old, (hrecorded old).mpr hold, heq⟩
  · intro old hold time hpast hin
    rw [hstored]
    exact inv.complete old ((hrecorded old).mp hold) time
      (fun o ho => hpast o (List.mem_cons_of_mem _ ho)) hin
  · intro hnone
    rw [hcool]
    exact inv.awake fun old hold => hnone old (List.mem_cons_of_mem _ hold)
  · intro old hold hf
    rcases List.mem_cons.mp hold with rfl | hold
    · exact absurd hf hfired
    obtain ⟨last, hlast, hlf, hmax, hentry⟩ := inv.asleep old hold hf
    refine ⟨last, List.mem_cons_of_mem _ hlast, hlf, ?_, hcool.trans hentry⟩
    intro other hother hof
    rcases List.mem_cons.mp hother with rfl | hother
    · exact absurd hof hfired
    · exact hmax other hother hof

/-- A call that records the event, and perhaps fires. -/
theorem PairInv.record (inv : PairInv ops rule dedup log r) {rec : Record ρ}
    {members : List (Str × Int)} (hnow : r.now = rec.time)
    (hnodup : ((kept ops rule r.now members).map Prod.fst).Nodup)
    (hkept : ∀ m, m ∈ kept ops rule r.now members ↔
      m ∈ r.stored (eventsKey (ops.id rule) dedup) ∧
        r.now - ops.timeframeSec rule * second < m.2)
    (hpast : ∀ old ∈ log, old.time ≤ rec.time) (hconcerns : rec.Concerns ops rule dedup)
    (hawake : ¬ InCooldown ops rule dedup log rec.time)
    (hwindow : r'.entries (eventsKey (ops.id rule) dedup) =
      some ⟨.sorted ((uuidStr rec.event.eventId, rec.time) ::
        (kept ops rule r.now members).filter fun m => m.1 != uuidStr rec.event.eventId),
        some (rec.time + max (ops.timeframeSec rule * 10) 60 * second)⟩)
    (hcool : (¬ rec.Fired ops rule dedup ∧ r'.entries (cooldownKey (ops.id rule) dedup) =
        r.entries (cooldownKey (ops.id rule) dedup)) ∨
      (rec.Fired ops rule dedup ∧ r'.entries (cooldownKey (ops.id rule) dedup) =
        some ⟨.text "1".toList, some (rec.time + ops.cooldownSec rule * second)⟩)) :
    PairInv ops rule dedup (rec :: log) r' := by
  have hstored : r'.stored (eventsKey (ops.id rule) dedup) =
      (uuidStr rec.event.eventId, rec.time) ::
        (kept ops rule r.now members).filter fun m => m.1 != uuidStr rec.event.eventId := by
    rw [Redis.stored, hwindow]
  have hold : ∀ m ∈ (kept ops rule r.now members).filter fun m => m.1 != uuidStr rec.event.eventId,
      ∃ old, Recorded ops rule dedup log old ∧ m = (uuidStr old.event.eventId, old.time) := by
    intro m hm
    exact inv.sound m ((hkept m).mp (List.mem_of_mem_filter hm)).1
  have hlong : ops.timeframeSec rule * second ≤ max (ops.timeframeSec rule * 10) 60 * second := by
    unfold second
    omega
  refine ⟨?_, ?_, ?_, ?_, ?_, ?_⟩
  · intro e he
    rw [hwindow] at he
    cases he
    refine ⟨_, _, rfl, ?_⟩
    intro m hm
    rcases List.mem_cons.mp hm with rfl | hm
    · show rec.time + _ ≤ _
      omega
    · obtain ⟨old, hrec, rfl⟩ := hold m hm
      have := hpast old hrec.mem.1
      show old.time + _ ≤ _
      omega
  · rw [hstored, List.map_cons, List.nodup_cons]
    constructor
    · intro hmem
      obtain ⟨m, hm, heq⟩ := List.mem_map.mp hmem
      have := (List.mem_filter.mp hm).2
      rw [heq] at this
      simp at this
    · exact hnodup.sublist ((List.filter_sublist).map _)
  · intro m hm
    rw [hstored] at hm
    rcases List.mem_cons.mp hm with rfl | hm
    · exact ⟨rec, .here hconcerns hawake, rfl⟩
    · obtain ⟨old, hrec, heq⟩ := hold m hm
      exact ⟨old, .there hrec, heq⟩
  · intro old hrec time hall hin
    rw [hstored]
    rcases recorded_cons_iff.mp hrec with ⟨rfl, -, -⟩ | hrec
    · exact ⟨_, List.mem_cons_self, rfl, le_refl _⟩
    have htime := hall rec List.mem_cons_self
    obtain ⟨m, hm, hname, hle⟩ := inv.complete old hrec rec.time hpast (by omega)
    by_cases hsame : m.1 = uuidStr rec.event.eventId
    · refine ⟨_, List.mem_cons_self, ?_, hpast old hrec.mem.1⟩
      rw [← hname, hsame]
    · refine ⟨m, List.mem_cons_of_mem _ (List.mem_filter.mpr ⟨(hkept m).mpr ⟨hm, ?_⟩, ?_⟩),
        hname, hle⟩
      · omega
      · simpa using hsame
  · intro hnone
    rcases hcool with ⟨-, hentry⟩ | ⟨hf, -⟩
    · rw [hentry]
      exact inv.awake fun o ho => hnone o (List.mem_cons_of_mem _ ho)
    · exact absurd hf (hnone rec List.mem_cons_self)
  · intro o ho hof
    rcases hcool with ⟨hnot, hentry⟩ | ⟨hf, hentry⟩
    · rcases List.mem_cons.mp ho with rfl | ho
      · exact absurd hof hnot
      obtain ⟨last, hlast, hlf, hmax, hlentry⟩ := inv.asleep o ho hof
      refine ⟨last, List.mem_cons_of_mem _ hlast, hlf, ?_, hentry.trans hlentry⟩
      intro other hother hotherf
      rcases List.mem_cons.mp hother with rfl | hother
      · exact absurd hotherf hnot
      · exact hmax other hother hotherf
    · refine ⟨rec, List.mem_cons_self, hf, ?_, hentry⟩
      intro other hother _
      rcases List.mem_cons.mp hother with rfl | hother
      · exact le_refl _
      · exact hpast other hother

end Pair

end ZaqorinCore.Server
