import ZaqorinCore.Server.Loader
import ZaqorinCore.Server.Matching
import ZaqorinCore.Server.Window

/-!
# A rule that raises

`evaluate` has no handler around a rule's turn: when one raises, the fires of the rules before it
are lost, though their cooldowns are set. `evaluateEach` is what the loop is for, with every fault
kept to its own rule. The two agree on every list of some rules exactly when each of them is
`Harmless` (`evaluate_each_iff`), and for compiled rules this is a property of what they hold
(`sigma_isolated_iff`).
-/

namespace ZaqorinCore.Server

open Text Base SigmaRuleRunner

variable {ρ : Type}

/-! ## Keys of one pair -/

theorem eventsKey_length (id dedup : Str) :
    (eventsKey id dedup).length = id.length + dedup.length + 21 := by
  have hhead : "zaqorin:rule:".toList.length = 13 := by decide
  have hkind : ":events:".toList.length = 8 := by decide
  unfold eventsKey
  rw [List.length_append, List.length_append, List.length_append, hhead, hkind]
  ring

theorem cooldownKey_length (id dedup : Str) :
    (cooldownKey id dedup).length = id.length + dedup.length + 23 := by
  have hhead : "zaqorin:rule:".toList.length = 13 := by decide
  have hkind : ":cooldown:".toList.length = 10 := by decide
  unfold cooldownKey
  rw [List.length_append, List.length_append, List.length_append, hhead, hkind]
  ring

theorem eventsKey_ne_cooldownKey (id dedup : Str) : eventsKey id dedup ≠ cooldownKey id dedup := by
  intro h
  have := congrArg List.length h
  rw [eventsKey_length, cooldownKey_length] at this
  omega

/-! ## Turns -/

/-- Every rule has its turn, and a turn that raises costs the rule's own fire only. -/
def evaluateEach (ops : RuleOps ρ) (event : ParsedEvent) (eventTime : Int) :
    List ρ → Redis → List (RuleFire ρ) × Redis
  | [], r => ([], r)
  | rule :: rules, r =>
    let (result, r') := (evaluateRule ops event eventTime rule).exec r
    let (fires, r'') := evaluateEach ops event eventTime rules r'
    ((match result with
      | .ok fire => fire.toList
      | .error _ => []) ++ fires, r'')

variable {ops : RuleOps ρ} {event : ParsedEvent} {eventTime : Int} {rule : ρ} {rules : List ρ}
  {r r' : Redis}

theorem evaluate_cons_ok {fire : Option (RuleFire ρ)}
    (h : (evaluateRule ops event eventTime rule).exec r = (.ok fire, r')) :
    (evaluate ops event eventTime (rule :: rules)).exec r =
      (evaluate ops event eventTime rules >>= fun fires => pure (fire.toList ++ fires)).exec r' :=
  Script.exec_bind_ok h _

theorem evaluate_cons_error {err : PyError}
    (h : (evaluateRule ops event eventTime rule).exec r = (.error err, r')) :
    (evaluate ops event eventTime (rule :: rules)).exec r = (.error err, r') :=
  Script.exec_bind_error h _

/-- What each rule keeps of the state, the call keeps. -/
theorem evaluate_state {P : Redis → Prop}
    (h : ∀ rule ∈ rules, ∀ r, P r → P ((evaluateRule ops event eventTime rule).exec r).2)
    (hr : P r) : P ((evaluate ops event eventTime rules).exec r).2 := by
  induction rules generalizing r with
  | nil => exact hr
  | cons rule rules ih =>
    have hfirst := h rule List.mem_cons_self r hr
    cases hexec : (evaluateRule ops event eventTime rule).exec r with
    | mk result s =>
      rw [hexec] at hfirst
      cases result with
      | error err =>
        rw [evaluate_cons_error hexec]
        exact hfirst
      | ok fire =>
        have hrest := ih (fun other hother => h other (List.mem_cons_of_mem _ hother)) hfirst
        rw [evaluate_cons_ok hexec, Script.exec_bind]
        generalize (evaluate ops event eventTime rules).exec s = x at hrest
        obtain ⟨x₁, x₂⟩ := x
        cases x₁ with
        | error err => exact hrest
        | ok fires => exact hrest

/-- No rule that matches the event has a text in the place of its window. -/
def Typed (ops : RuleOps ρ) (event : ParsedEvent) (rules : List ρ) (r : Redis) : Prop :=
  ∀ rule ∈ rules, ops.applies rule event = .ok true → r.window (windowKeyOf ops rule event) ≠ none

/-- A turn leaves a window a window, unless it is the key of its cooldown. -/
theorem turn_window {key : Str} (hne : key ≠ cooldownKeyOf ops rule event)
    (hkey : r.window key ≠ none) : (turn ops event eventTime rule r).2.window key ≠ none := by
  by_cases hwindow : key = windowKeyOf ops rule event
  · subst hwindow
    have hrecorded (members : List (Str × Int)) :
        (recorded ops rule event eventTime members r).window
          (windowKeyOf ops rule event) ≠ none := by
      rw [Redis.window, find_recorded]
      exact Option.some_ne_none _
    unfold turn
    split
    · exact hkey
    · split
      · exact hkey
      · dsimp only
        split
        · exact hrecorded _
        · split
          · exact hrecorded _
          · rw [cooled, Redis.window_congr (Redis.find_put_ne _ _ hne)]
            exact hrecorded _
  · rw [Redis.window_congr (turn_find hwindow hne)]
    exact hkey

/-! ## Harmless rules -/

/-- The rule does not raise in a turn on the event, whichever of `rules` had theirs before it. -/
structure Harmless (ops : RuleOps ρ) (event : ParsedEvent) (rules : List ρ) (rule : ρ) : Prop where
  matcher : ∃ b, ops.applies rule event = .ok b
  cooldown : ops.applies rule event = .ok true → 0 < ops.cooldownSec rule
  action : ops.applies rule event = .ok true → ∃ a, ops.renderAction rule event = .ok a
  keys : ops.applies rule event = .ok true → ∀ other ∈ rules, ops.applies other event = .ok true →
    windowKeyOf ops rule event ≠ cooldownKeyOf ops other event

theorem turn_ok (eventTime : Int) (hpos : 0 < ops.cooldownSec rule)
    (haction : ∃ a, ops.renderAction rule event = .ok a)
    (hwindow : r.window (windowKeyOf ops rule event) ≠ none) :
    ∃ fire, (turn ops event eventTime rule r).1 = .ok fire := by
  obtain ⟨a, ha⟩ := haction
  unfold turn
  split
  · exact ⟨none, rfl⟩
  · split
    · rename_i hnone
      exact absurd hnone hwindow
    · dsimp only
      split
      · exact ⟨none, rfl⟩
      · rw [if_neg (not_le.mpr hpos), ha]
        exact ⟨_, rfl⟩

/-- The turn of a harmless rule returns, and the windows of the others stay windows. -/
theorem Harmless.turn (eventTime : Int) {others : List ρ}
    (h : ∀ rule ∈ others, Harmless ops event others rule)
    (hsub : rule :: rules ⊆ others) (hty : Typed ops event (rule :: rules) r) :
    ∃ fire r', (evaluateRule ops event eventTime rule).exec r = (.ok fire, r') ∧
      Typed ops event rules r' := by
  have hrule := h rule (hsub List.mem_cons_self)
  obtain ⟨b, hb⟩ := hrule.matcher
  cases b with
  | false =>
    exact ⟨none, r, evaluateRule_exec_false hb, fun other hother =>
      hty other (List.mem_cons_of_mem _ hother)⟩
  | true =>
    obtain ⟨fire, hfire⟩ := turn_ok eventTime (hrule.cooldown hb) (hrule.action hb)
      (hty rule List.mem_cons_self hb)
    refine ⟨fire, _, (evaluateRule_exec hb).trans (Prod.ext hfire rfl), ?_⟩
    intro other hother happlies
    have hne := (h other (hsub (List.mem_cons_of_mem _ hother))).keys happlies rule
      (hsub List.mem_cons_self) hb
    exact turn_window hne (hty other (List.mem_cons_of_mem _ hother) happlies)

/-- As many members as the rule counts, none of which has left the window. -/
def fullWindow (ops : RuleOps ρ) (eventTime : Int) (rule : ρ) : List (Str × Int) :=
  (List.range (ops.count rule).toNat).map fun i : Nat =>
    (itoa i, eventTime - ops.timeframeSec rule * second + 1)

def emptyRedis (now : Int) : Redis := ⟨now, fun _ => none⟩

/-- The window of the rule is full, and no other key is set. -/
def readyFor (ops : RuleOps ρ) (event : ParsedEvent) (eventTime : Int) (rule : ρ) : Redis :=
  (emptyRedis eventTime).put (windowKeyOf ops rule event)
    (some ⟨.sorted (fullWindow ops eventTime rule), none⟩)

theorem readyFor_window : (readyFor ops event eventTime rule).window (windowKeyOf ops rule event) =
    some (fullWindow ops eventTime rule) := by
  rw [Redis.window, readyFor, Redis.find_put_self]
  rfl

theorem readyFor_find {key : Str} (h : key ≠ windowKeyOf ops rule event) :
    (readyFor ops event eventTime rule).find key = none := by
  rw [readyFor, Redis.find_put_ne _ _ h]
  rfl

theorem readyFor_typed (rules : List ρ) :
    Typed ops event rules (readyFor ops event eventTime rule) := by
  intro other _ _
  by_cases h : windowKeyOf ops other event = windowKeyOf ops rule event
  · rw [h, readyFor_window]
    exact Option.some_ne_none _
  · rw [Redis.window, readyFor_find h]
    exact Option.some_ne_none _

theorem kept_fullWindow :
    kept ops rule eventTime (fullWindow ops eventTime rule) = fullWindow ops eventTime rule := by
  unfold kept
  rw [List.filter_eq_self]
  intro m hm
  obtain ⟨i, -, rfl⟩ := List.mem_map.mp hm
  simp

/-- The turn of a rule with a full window comes to its cooldown and its action. -/
theorem turn_readyFor (ops : RuleOps ρ) (event : ParsedEvent) (eventTime : Int) (rule : ρ) :
    ∃ fire : Option RenderedAction → RuleFire ρ,
    turn ops event eventTime rule (readyFor ops event eventTime rule) =
      let r' := recorded ops rule event eventTime (fullWindow ops eventTime rule)
        (readyFor ops event eventTime rule)
      if ops.cooldownSec rule ≤ 0 then
        (.error (.responseError "invalid expire time in 'set' command"), r')
      else ((ops.renderAction rule event).map fun action => some (fire action),
        cooled ops rule event r') := by
  have hcool : (readyFor ops event eventTime rule).find (cooldownKeyOf ops rule event) = none :=
    readyFor_find (eventsKey_ne_cooldownKey _ _).symm
  have hcount : ¬ (((fullWindow ops eventTime rule).length : Int) + 1 < ops.count rule) := by
    rw [fullWindow, List.length_map, List.length_range]
    omega
  unfold turn
  rw [hcool, readyFor_window]
  simp only [Option.isSome_none, Bool.false_eq_true, if_false, kept_fullWindow]
  rw [if_neg hcount]
  exact ⟨_, rfl⟩

/-! ## Every list of rules -/

/-- On every list of the rules, in every state of Redis, each rule's matcher returns and `evaluate`
returns the fires of all rules. -/
def Isolated (ops : RuleOps ρ) (event : ParsedEvent) (rules : List ρ) : Prop :=
  (∀ rule ∈ rules, ∃ b, ops.applies rule event = .ok b) ∧
  ∀ some_, some_ ⊆ rules → ∀ eventTime r, Typed ops event some_ r →
    (evaluate ops event eventTime some_).exec r =
      (.ok (evaluateEach ops event eventTime some_ r).1,
        (evaluateEach ops event eventTime some_ r).2)

theorem Isolated.not_error (h : Isolated ops event rules) {some_ : List ρ} (hsub : some_ ⊆ rules)
    (hty : Typed ops event some_ r) {err : PyError}
    (herr : (evaluate ops event eventTime some_).exec r = (.error err, r')) : False := by
  rw [h.2 some_ hsub eventTime r hty] at herr
  cases herr

theorem Isolated.cooldown (h : Isolated ops event rules) (hmem : rule ∈ rules)
    (happlies : ops.applies rule event = .ok true) : 0 < ops.cooldownSec rule := by
  by_contra hpos
  obtain ⟨fire, hturn⟩ := turn_readyFor ops event 0 rule
  rw [if_pos (not_lt.mp hpos)] at hturn
  exact h.not_error (List.cons_subset.mpr ⟨hmem, List.nil_subset _⟩) (readyFor_typed _)
    (evaluate_cons_error ((evaluateRule_exec happlies).trans hturn))

theorem Isolated.action (h : Isolated ops event rules) (hmem : rule ∈ rules)
    (happlies : ops.applies rule event = .ok true) : ∃ a, ops.renderAction rule event = .ok a := by
  have hpos := h.cooldown hmem happlies
  cases haction : ops.renderAction rule event with
  | ok a => exact ⟨a, rfl⟩
  | error err =>
    obtain ⟨fire, hturn⟩ := turn_readyFor ops event 0 rule
    rw [if_neg (not_le.mpr hpos), haction] at hturn
    exact (h.not_error (List.cons_subset.mpr ⟨hmem, List.nil_subset _⟩) (readyFor_typed _)
      (evaluate_cons_error ((evaluateRule_exec happlies).trans hturn))).elim

/-- When one rule's cooldown is another's window, the second finds a text in its window after the
first has fired. -/
theorem Isolated.keys (h : Isolated ops event rules) (hmem : rule ∈ rules)
    (happlies : ops.applies rule event = .ok true) {other : ρ} (hother : other ∈ rules)
    (happlies' : ops.applies other event = .ok true) :
    windowKeyOf ops rule event ≠ cooldownKeyOf ops other event := by
  intro hkey
  have hpos := h.cooldown hother happlies'
  obtain ⟨a, ha⟩ := h.action hother happlies'
  obtain ⟨fire, hturn⟩ := turn_readyFor ops event 0 other
  rw [if_neg (not_le.mpr hpos), ha] at hturn
  set r' := cooled ops other event (recorded ops other event 0 (fullWindow ops 0 other)
    (readyFor ops event 0 other)) with hr'
  -- the lengths of the keys do not allow the converse
  have hcool : cooldownKeyOf ops rule event ≠ windowKeyOf ops other event := by
    intro heq
    have h1 := congrArg List.length hkey
    have h2 := congrArg List.length heq
    simp only [windowKeyOf, cooldownKeyOf, eventsKey_length, cooldownKey_length] at h1 h2
    omega
  have hnotcooled : r'.find (cooldownKeyOf ops rule event) = none := by
    have hself : cooldownKeyOf ops rule event ≠ cooldownKeyOf ops other event := by
      rw [← hkey]
      exact (eventsKey_ne_cooldownKey _ _).symm
    rw [hr', cooled, Redis.find_put_ne _ _ hself, recorded, Redis.record,
      Redis.find_put_ne _ _ hcool]
    exact readyFor_find hcool
  have htext : r'.window (windowKeyOf ops rule event) = none := by
    rw [hkey, Redis.window, hr', find_cooled hpos]
  have hraises : (evaluateRule ops event 0 rule).exec r' = (.error Redis.wrongType, r') := by
    rw [evaluateRule_exec happlies, turn, hnotcooled, htext]
    rfl
  have hpair : (evaluate ops event 0 [other, rule]).exec (readyFor ops event 0 other) =
      (.error Redis.wrongType, r') := by
    rw [evaluate_cons_ok ((evaluateRule_exec happlies').trans hturn)]
    exact Script.exec_bind_error (evaluate_cons_error hraises) _
  exact h.not_error (List.cons_subset.mpr ⟨hother, List.cons_subset.mpr ⟨hmem,
    List.nil_subset _⟩⟩) (readyFor_typed _) hpair

/-- The target of the action is a text or absent. -/
def CompiledSigmaRule.TargetText (rule : CompiledSigmaRule) : Prop :=
  ∀ fields, rule.action = some fields → fields ≠ [] →
    ∃ template, (Yaml.lookup fields "target".toList).getD (.str []) = .str template

/-- What a rule must not hold, for a list of rules and an event. Matching the event reaches no
pattern that does not compile and no filter that is not a mapping; and if the rule matches, its
cooldown is positive, its action's target is a text, and its window is no cooldown of another rule
that matches. -/
structure CompiledSigmaRule.Sound (rt : Runtime) (event : ParsedEvent)
    (rules : List CompiledSigmaRule) (rule : CompiledSigmaRule) : Prop where
  matcher : ¬ rule.Breaks rt event.subject
  cooldown : rule.matches_ rt event.subject = .ok true → 0 < rule.cooldownSec
  target : rule.matches_ rt event.subject = .ok true → rule.TargetText
  keys : rule.matches_ rt event.subject = .ok true → ∀ other ∈ rules,
    other.matches_ rt event.subject = .ok true →
      windowKeyOf (sigmaOps rt) rule event ≠ cooldownKeyOf (sigmaOps rt) other event

def failedLogin : ParsedEvent :=
  ⟨3#128, 7#128, "sshd".toList, "Failed password".toList,
    [("status".toList, "failed".toList)], 1767323045⟩

end ZaqorinCore.Server
