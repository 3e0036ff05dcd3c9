import ZaqorinCore.Server.Firing

/-!
# The keys of a rule and a dedup key

The runner joins the rule's id, the word `events` or `cooldown` and the dedup key with colons, and
escapes none of them. Two pairs of an id and a dedup key share a key exactly when one `Collides`
with the other (`keys_apart_iff`), and pairs without a common key do not interfere: what the calls
that concern the one pair return does not depend on the calls that concern the other
(`pairs_isolated_iff`).
-/

namespace ZaqorinCore.Server

open Text Base SigmaRuleRunner

/-! ## Joined words -/

section Join

variable {α : Type} [DecidableEq α] {sep : α}

/-- Two ways to read a text of three joined fields whose middle field is free of the separator: the
readings are the same, or the head of the one goes on into the rest of the other. -/
theorem join_three_cases {a b w v x y : List α} (hw : sep ∉ w) (hv : sep ∉ v)
    (h : a ++ sep :: (w ++ sep :: x) = b ++ sep :: (v ++ sep :: y)) :
    (a = b ∧ w = v ∧ x = y) ∨
      (∃ t, b ++ [sep] = a ++ sep :: (w ++ sep :: t) ∧ x = t ++ v ++ sep :: y) ∨
      ∃ t, a ++ [sep] = b ++ sep :: (v ++ sep :: t) ∧ y = t ++ w ++ sep :: x := by
  -- what follows the shorter head, when the longer one goes on after it
  have hlonger : ∀ {w v x y c : List α}, sep ∉ w → w ++ sep :: x = c ++ sep :: (v ++ sep :: y) →
      ∃ t, c ++ [sep] = w ++ sep :: t ∧ x = t ++ v ++ sep :: y := by
    intro w v x y c hw heq
    have hassoc : (w ++ [sep]) ++ x = (c ++ [sep]) ++ (v ++ sep :: y) := by simpa using heq
    rcases List.append_eq_append_iff.mp hassoc with ⟨t, hc, hx⟩ | ⟨d, hwd, hx⟩
    · exact ⟨t, by simpa using hc, by simpa using hx⟩
    · have hcount := congrArg (List.count sep) hwd
      simp only [List.count_append, List.count_cons_self, List.count_nil,
        List.count_eq_zero_of_not_mem hw] at hcount
      have hd : sep ∉ d := List.count_eq_zero.mp (by omega)
      have hc : sep ∉ c := List.count_eq_zero.mp (by omega)
      obtain ⟨hcw, hdn⟩ := cut_first hw hc (by simpa using hwd : w ++ sep :: [] = c ++ sep :: d)
      subst hcw
      refine ⟨[], rfl, ?_⟩
      rw [← hdn] at hx
      simpa using hx.symm
  rcases List.append_eq_append_iff.mp h with ⟨c, hb, htail⟩ | ⟨c, ha, htail⟩
  · cases c with
    | nil =>
      obtain ⟨hwv, hxy⟩ := cut_first hw hv (List.cons.inj htail).2
      exact Or.inl ⟨by simpa using hb.symm, hwv, hxy⟩
    | cons z c =>
      obtain ⟨rfl, hrest⟩ := List.cons.inj htail
      obtain ⟨t, hc, hx⟩ := hlonger hw hrest
      refine Or.inr (Or.inl ⟨t, ?_, hx⟩)
      rw [hb, List.append_assoc, List.cons_append, hc]
  · cases c with
    | nil =>
      obtain ⟨hvw, hyx⟩ := cut_first hv hw (List.cons.inj htail).2
      exact Or.inl ⟨by simpa using ha, hvw.symm, hyx.symm⟩
    | cons z c =>
      obtain ⟨rfl, hrest⟩ := List.cons.inj htail
      obtain ⟨t, hc, hy⟩ := hlonger hv hrest
      refine Or.inr (Or.inr ⟨t, ?_, hy⟩)
      rw [ha, List.append_assoc, List.cons_append, hc]

end Join

/-! ## Collisions -/

inductive KeyKind
  | events
  | cooldown
  deriving DecidableEq

def KeyKind.word : KeyKind → Str
  | .events => "events".toList
  | .cooldown => "cooldown".toList

/-- A key of a rule's id and a dedup key. -/
def keyOf : KeyKind → Str × Str → Str
  | .events, p => eventsKey p.1 p.2
  | .cooldown, p => cooldownKey p.1 p.2

theorem keyOf_eq (k : KeyKind) (p : Str × Str) :
    keyOf k p = "zaqorin:rule:".toList ++ (p.1 ++ ':' :: (k.word ++ ':' :: p.2)) := by
  have hjoin : ∀ head word : Str, head ++ p.1 ++ (':' :: (word ++ [':'])) ++ p.2 =
      head ++ (p.1 ++ ':' :: (word ++ ':' :: p.2)) := by
    intro head word
    simp
  have hevents : ":events:".toList = ':' :: ("events".toList ++ [':']) := by decide
  have hcooldown : ":cooldown:".toList = ':' :: ("cooldown".toList ++ [':']) := by decide
  have hkey : ∀ word word' : Str, word = word' →
      "zaqorin:rule:".toList ++ p.1 ++ word ++ p.2 = "zaqorin:rule:".toList ++ p.1 ++ word' ++ p.2 :=
    fun _ _ h => congrArg (fun w => "zaqorin:rule:".toList ++ p.1 ++ w ++ p.2) h
  cases k with
  | events => exact (hkey _ _ hevents).trans (hjoin _ _)
  | cooldown => exact (hkey _ _ hcooldown).trans (hjoin _ _)

theorem colon_not_mem_word (k : KeyKind) : ':' ∉ k.word := by
  cases k <;> decide

/-- The id of `q` goes on where the id of `p` ends, with `:events` or `:cooldown`, and the dedup key
of `p` ends with what is left of a key of `q`. -/
def Collides (p q : Str × Str) : Prop :=
  ∃ k k' : KeyKind, ∃ t, q.1 ++ [':'] = p.1 ++ ':' :: (k.word ++ ':' :: t) ∧
    p.2 = t ++ k'.word ++ ':' :: q.2

theorem Collides.keyOf_eq {p q : Str × Str} (h : Collides p q) :
    ∃ k k', keyOf k p = keyOf k' q := by
  obtain ⟨k, k', t, hid, hdedup⟩ := h
  refine ⟨k, k', ?_⟩
  rw [Server.keyOf_eq, Server.keyOf_eq, hdedup]
  congr 1
  calc p.1 ++ ':' :: (k.word ++ ':' :: (t ++ k'.word ++ ':' :: q.2))
      = (p.1 ++ ':' :: (k.word ++ ':' :: t)) ++ (k'.word ++ ':' :: q.2) := by simp
    _ = (q.1 ++ [':']) ++ (k'.word ++ ':' :: q.2) := by rw [hid]
    _ = q.1 ++ ':' :: (k'.word ++ ':' :: q.2) := by simp

/-- The keys of the two pairs are pairwise distinct. -/
def KeysAllApart (p q : Str × Str) : Prop := ∀ k k' : KeyKind, keyOf k p ≠ keyOf k' q

theorem keys_apart_iff {p q : Str × Str} (hne : p ≠ q) :
    KeysAllApart p q ↔ ¬ Collides p q ∧ ¬ Collides q p := by
  constructor
  · intro h
    constructor
    · intro hc
      obtain ⟨k, k', heq⟩ := hc.keyOf_eq
      exact h k k' heq
    · intro hc
      obtain ⟨k, k', heq⟩ := hc.keyOf_eq
      exact h k' k heq.symm
  · rintro ⟨hpq, hqp⟩ k k' heq
    rw [keyOf_eq, keyOf_eq] at heq
    rcases join_three_cases (colon_not_mem_word k) (colon_not_mem_word k')
      (List.append_cancel_left heq) with ⟨hid, -, hdedup⟩ | ⟨t, hid, hdedup⟩ | ⟨t, hid, hdedup⟩
    · exact hne (Prod.ext hid hdedup)
    · exact hpq ⟨k, k', t, hid, hdedup⟩
    · exact hqp ⟨k', k, t, hid, hdedup⟩

/-! ## Calls that concern one pair -/

section Calls

variable {ρ : Type} {ops : RuleOps ρ} {rules : List ρ} {event : ParsedEvent} {eventTime : Int}
  {p q : Str × Str} {r r' : Redis}

/-- Every rule that matches the event has this id and renders this dedup key. -/
def ConcernsOnly (ops : RuleOps ρ) (rules : List ρ) (p : Str × Str) (event : ParsedEvent) : Prop :=
  ∀ rule ∈ rules, ops.applies rule event = .ok true → (ops.id rule, dedupOf ops rule event) = p

/-- The two states agree on the clock and on the keys of the pair. -/
def AgreeOn (p : Str × Str) (r r' : Redis) : Prop :=
  r.now = r'.now ∧ ∀ k, r.entries (keyOf k p) = r'.entries (keyOf k p)

theorem AgreeOn.turn (eventTime : Int) {rule : ρ}
    (hrule : (ops.id rule, dedupOf ops rule event) = p) (h : AgreeOn p r r') :
    (turn ops event eventTime rule r).1 = (turn ops event eventTime rule r').1 ∧
      AgreeOn p (turn ops event eventTime rule r).2 (turn ops event eventTime rule r').2 := by
  subst hrule
  have hresult : (SigmaRuleRunner.turn ops event eventTime rule r).1 =
      (SigmaRuleRunner.turn ops event eventTime rule r').1 ∧ _ ∧ _ :=
    turn_congr h.1 (h.2 .events) (h.2 .cooldown)
  obtain ⟨hresult, hwindow, hcool⟩ := hresult
  refine ⟨hresult, turn_now.trans (h.1.trans turn_now.symm), ?_⟩
  intro k
  cases k with
  | events => exact hwindow
  | cooldown => exact hcool

/-- A call depends on the keys of the pair that it concerns. -/
theorem evaluate_agree (hrules : ConcernsOnly ops rules p event) (h : AgreeOn p r r') :
    ((evaluate ops event eventTime rules).exec r).1 =
        ((evaluate ops event eventTime rules).exec r').1 ∧
      AgreeOn p ((evaluate ops event eventTime rules).exec r).2
        ((evaluate ops event eventTime rules).exec r').2 := by
  induction rules generalizing r r' with
  | nil => exact ⟨rfl, h⟩
  | cons rule rules ih =>
    have hrest : ConcernsOnly ops rules p event :=
      fun other hother => hrules other (List.mem_cons_of_mem _ hother)
    have hgo : ∀ {fire : Option (RuleFire ρ)} {s s' : Redis}, AgreeOn p s s' →
        (evaluateRule ops event eventTime rule).exec r = (.ok fire, s) →
        (evaluateRule ops event eventTime rule).exec r' = (.ok fire, s') →
        ((evaluate ops event eventTime (rule :: rules)).exec r).1 =
            ((evaluate ops event eventTime (rule :: rules)).exec r').1 ∧
          AgreeOn p ((evaluate ops event eventTime (rule :: rules)).exec r).2
            ((evaluate ops event eventTime (rule :: rules)).exec r').2 := by
      intro fire s s' hagree hs hs'
      obtain ⟨hres, hstate⟩ := ih hrest hagree
      rw [evaluate_cons_ok hs, evaluate_cons_ok hs', Script.exec_bind, Script.exec_bind]
      generalize (evaluate ops event eventTime rules).exec s = x at hres hstate
      generalize (evaluate ops event eventTime rules).exec s' = y at hres hstate
      obtain ⟨x₁, x₂⟩ := x
      obtain ⟨y₁, y₂⟩ := y
      obtain rfl : x₁ = y₁ := hres
      cases x₁ with
      | error err => exact ⟨rfl, hstate⟩
      | ok fires => exact ⟨rfl, hstate⟩
    cases happlies : ops.applies rule event with
    | error err =>
      rw [evaluate_cons_error (evaluateRule_exec_error happlies),
        evaluate_cons_error (evaluateRule_exec_error happlies)]
      exact ⟨rfl, h⟩
    | ok b =>
      cases b with
      | false => exact hgo h (evaluateRule_exec_false happlies) (evaluateRule_exec_false happlies)
      | true =>
        obtain ⟨hres, hstate⟩ :=
          AgreeOn.turn eventTime (hrules rule List.mem_cons_self happlies) h
        cases hturn : (turn ops event eventTime rule r).1 with
        | error err =>
          rw [evaluate_cons_error ((evaluateRule_exec happlies).trans (Prod.ext hturn rfl)),
            evaluate_cons_error ((evaluateRule_exec happlies).trans
              (Prod.ext (hres.symm.trans hturn) rfl))]
          exact ⟨rfl, hstate⟩
        | ok fire =>
          exact hgo hstate ((evaluateRule_exec happlies).trans (Prod.ext hturn rfl))
            ((evaluateRule_exec happlies).trans (Prod.ext (hres.symm.trans hturn) rfl))

/-- A rule that does not match changes nothing, and one that does only the keys of its pair. -/
theorem evaluateRule_frame {rule : ρ}
    (hrule : ops.applies rule event = .ok true → (ops.id rule, dedupOf ops rule event) = p)
    {key : Str} (hkey : ∀ k, key ≠ keyOf k p) (r : Redis) :
    ((evaluateRule ops event eventTime rule).exec r).2.entries key = r.entries key := by
  cases happlies : ops.applies rule event with
  | error err => rw [evaluateRule_exec_error happlies]
  | ok b =>
    cases b with
    | false => rw [evaluateRule_exec_false happlies]
    | true =>
      have hp := hrule happlies
      subst hp
      rw [evaluateRule_exec happlies]
      exact turn_frame (hkey .events) (hkey .cooldown)

/-- A call changes no key but those of the pair that it concerns. -/
theorem evaluate_frame (hrules : ConcernsOnly ops rules p event) {key : Str}
    (hkey : ∀ k, key ≠ keyOf k p) :
    ((evaluate ops event eventTime rules).exec r).2.entries key = r.entries key := by
  apply evaluate_state (P := fun r' => r'.entries key = r.entries key)
  · intro rule hrule r' hr'
    exact (evaluateRule_frame (hrules rule hrule) hkey r').trans hr'
  · rfl

/-- The calls with what they return, from a state of Redis on. -/
def outcomes (ops : RuleOps ρ) (rules : List ρ) :
    Redis → List (Bool × Call) → List (Bool × Call × Except PyError (List (RuleFire ρ)))
  | _, [] => []
  | r, (mine, c) :: calls =>
    let (result, r') := (evaluate ops c.event c.time rules).exec { r with now := c.time }
    (mine, c, result) :: outcomes ops rules r' calls

end Calls

/-- Calls that concern only `p` change nothing about what the calls that concern only `q` return;
the flag of a call says that it is one of the latter. -/
def NonInterfering (p q : Str × Str) : Prop :=
  ∀ (ρ : Type) (ops : RuleOps ρ) (rules : List ρ) (r : Redis) (calls : List (Bool × Call)),
    (∀ c ∈ calls, ConcernsOnly ops rules (if c.1 then q else p) c.2.event) →
    (outcomes ops rules r calls).filter Prod.fst = outcomes ops rules r (calls.filter Prod.fst)

theorem nonInterfering_of_apart {p q : Str × Str} (h : KeysAllApart p q) : NonInterfering p q := by
  intro ρ ops rules r calls hcalls
  -- the run without the calls of `p` is in a state that agrees on the keys of `q`
  suffices hmain : ∀ r r' : Redis, (∀ k, r.entries (keyOf k q) = r'.entries (keyOf k q)) →
      (outcomes ops rules r calls).filter Prod.fst =
        outcomes ops rules r' (calls.filter Prod.fst) from hmain r r fun _ => rfl
  induction calls with
  | nil => exact fun _ _ _ => rfl
  | cons call calls ih =>
    intro r r' hagree
    have hrest := ih fun c hc => hcalls c (List.mem_cons_of_mem _ hc)
    have hconcerns := hcalls call List.mem_cons_self
    obtain ⟨mine, c⟩ := call
    rw [outcomes]
    cases mine with
    | true =>
      rw [List.filter_cons_of_pos rfl, List.filter_cons_of_pos rfl, outcomes]
      have hnow : AgreeOn q { r with now := c.time } { r' with now := c.time } := ⟨rfl, hagree⟩
      obtain ⟨hres, hstate⟩ := evaluate_agree hconcerns hnow
      refine congrArg₂ List.cons ?_ (hrest _ _ hstate.2)
      exact congrArg (fun x => (true, c, x)) hres
    | false =>
      rw [List.filter_cons_of_neg (by simp), List.filter_cons_of_neg (by simp)]
      refine hrest _ _ fun k => ?_
      refine (evaluate_frame hconcerns fun k' heq => h k' k heq.symm).trans ?_
      exact hagree k

/-- The window and the cooldown of the one pair, then those of the other. -/
def fourKeys (p q : Str × Str) : List Str :=
  [eventsKey p.1 p.2, cooldownKey p.1 p.2, eventsKey q.1 q.2, cooldownKey q.1 q.2]

theorem fourKeys_nodup_iff {p q : Str × Str} : (fourKeys p q).Nodup ↔ KeysAllApart p q := by
  have hp := eventsKey_ne_cooldownKey p.1 p.2
  have hq := eventsKey_ne_cooldownKey q.1 q.2
  unfold fourKeys
  simp only [List.nodup_cons, List.mem_cons, List.not_mem_nil, not_or, not_false_eq_true, or_false,
    List.nodup_nil, and_true]
  constructor
  · rintro ⟨⟨-, hee, hec⟩, ⟨hce, hcc⟩, -⟩ k k'
    cases k <;> cases k'
    · exact hee
    · exact hec
    · exact hce
    · exact hcc
  · intro h
    exact ⟨⟨hp, h .events .events, h .events .cooldown⟩,
      ⟨h .cooldown .events, h .cooldown .cooldown⟩, hq⟩

/-- Two pairs have four distinct keys and do not interfere exactly when neither collides with the
other. -/
theorem pairs_isolated_iff (p q : Str × Str) (hne : p ≠ q) :
    ((fourKeys p q).Nodup ∧ NonInterfering p q) ↔ ¬ Collides p q ∧ ¬ Collides q p := by
  rw [← keys_apart_iff hne, fourKeys_nodup_iff]
  constructor
  · intro h
    exact h.1
  · intro h
    exact ⟨h, nonInterfering_of_apart h⟩

theorem pairs_isolated_plain :
    ((fourKeys ("a".toList, "x".toList) ("b".toList, "x".toList)).Nodup ∧
        NonInterfering ("a".toList, "x".toList) ("b".toList, "x".toList)) ↔
      ¬ Collides ("a".toList, "x".toList) ("b".toList, "x".toList) ∧
        ¬ Collides ("b".toList, "x".toList) ("a".toList, "x".toList) :=
  pairs_isolated_iff _ _ (by decide)

/-- Two rules, one with a dedup key from the event. -/
def splitRules : List CompiledSigmaRule :=
  match compileRules plainRuntime "rules.yml".toList
    [.map [(.ofString "id", .ofString "a"), (.ofString "dedup_key", .ofString "\x7b\x7buser\x7d\x7d"),
      (.ofString "detection", .map [(.ofString "selection", .map [(.ofString "kind", .ofString "p")])])],
    .map [(.ofString "id", .ofString "a:events:b"), (.ofString "dedup_key", .ofString "c"),
      (.ofString "detection", .map [(.ofString "selection", .map [(.ofString "kind", .ofString "q")]),
        (.ofString "count", .int 2)])]] with
  | .ok rules => rules
  | .error _ => []

/-- An event of the first rule, whose user an attacker chose, and one of the second. -/
def splitCalls : List (Bool × Call) :=
  [(false, ⟨{ failedLogin with metadata :=
      [("kind".toList, "p".toList), ("user".toList, "b:events:c".toList)] }, 0⟩),
    (true, ⟨{ failedLogin with eventId := 4#128, metadata := [("kind".toList, "q".toList)] }, second⟩)]

/-- The number of fires of each call. -/
def fireCounts (os : List (Bool × Call × Except PyError (List (RuleFire CompiledSigmaRule)))) :
    List (Option Nat) :=
  os.map fun o => match o.2.2 with
    | .ok fires => some fires.length
    | .error _ => none

/-- The event of the first rule counts for the second, which fires on its first event. -/
theorem split_keys_interfere :
    eventsKey "a".toList "b:events:c".toList = eventsKey "a:events:b".toList "c".toList ∧
    fireCounts ((outcomes (sigmaOps plainRuntime) splitRules (emptyRedis 0) splitCalls).filter
      Prod.fst) = [some 1] ∧
    fireCounts (outcomes (sigmaOps plainRuntime) splitRules (emptyRedis 0)
      (splitCalls.filter Prod.fst)) = [some 0] ∧
    ¬ ((fourKeys ("a".toList, "b:events:c".toList) ("a:events:b".toList, "c".toList)).Nodup ∧
      NonInterfering ("a".toList, "b:events:c".toList) ("a:events:b".toList, "c".toList)) := by
  have hkeys : eventsKey "a".toList "b:events:c".toList =
      eventsKey "a:events:b".toList "c".toList := by decide +kernel
  refine ⟨hkeys, by decide +kernel, by decide +kernel, ?_⟩
  rintro ⟨hnodup, -⟩
  exact (fourKeys_nodup_iff.mp hnodup) .events .events hkeys

end ZaqorinCore.Server
