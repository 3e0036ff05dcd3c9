import ZaqorinCore.Base.Run
import ZaqorinCore.Agent.Command

/-!
# Concurrent command handling

Any number of calls of `Handler.Handle` in `response.go`, as one transition system. The locked
sections `reserveCommand`, `rememberApplied` and `releaseCommand` are one action each, and the
executor runs between them without the lock. How an executor ends, the clock readings and the
order in which Go walks a map are part of the actions. The executors themselves are not
modelled; the clock never goes back.

The log records what has happened; no code reads it.
-/

namespace ZaqorinCore.Agent

open Text Base

def maxAppliedCommandIDs : Nat := 10000

/-- Where a call stands: before `reserveCommand`, in its executor, between the executor and
`rememberApplied` or the deferred `releaseCommand`, and after that. -/
inductive Pc
  | admitted
  | running
  | executed
  | failed
  | remembered
  | returned (applied : Bool)
  deriving DecidableEq

structure Call where
  cmd : Command
  pc : Pc

/-- The call has reserved its id and not released it. -/
def Pc.holds : Pc → Bool
  | .running | .executed | .failed | .remembered => true
  | .admitted | .returned _ => false

inductive Entry
  | succeeded (id : Bytes)
  | recorded (id : Bytes) (reading : Int)
  | returned (id : Bytes) (applied : Bool)
  deriving DecidableEq

/-- The maps of `Handler`, the calls, and the last clock reading. -/
structure Handler where
  appliedAt : List (Bytes × Int)
  inFlight : List Bytes
  calls : Nat → Option Call
  clock : Int
  log : List Entry

inductive Act
  | handle (i : Nat) (secret : Option Bytes) (now : Int) (cmd : Command)
  | reserve (i : Nat)
  | execute (i : Nat) (ok : Bool)
  | remember (i : Nat) (now : Int) (order : List (Bytes × Int))
  | release (i : Nat)

namespace Handler

def new (clock : Int) : Handler := ⟨[], [], fun _ => none, clock, []⟩

def setCall (h : Handler) (i : Nat) (call : Call) : Handler :=
  { h with calls := Function.update h.calls i (some call) }

/-- A call ends with status `"applied"` or `"failed"`. -/
def ret (h : Handler) (i : Nat) (cmd : Command) (applied : Bool) : Handler :=
  { h.setCall i ⟨cmd, .returned applied⟩ with log := h.log ++ [.returned cmd.id applied] }

/-- `Handle` up to `reserveCommand`. -/
def handle (cfg : ResponseConfig) (h : Handler) (i : Nat) (secret : Option Bytes) (now : Int)
    (cmd : Command) : Handler :=
  match admitCommand cfg secret now cmd with
  | .error _ => { h.ret i cmd false with clock := now }
  | .ok () => { h.setCall i ⟨cmd, .admitted⟩ with clock := now }

/-- Whether `reserveCommand` reports a duplicate. -/
def duplicate (h : Handler) (id : Bytes) : Bool :=
  (h.appliedAt.map Prod.fst).contains id || h.inFlight.contains id

/-- `reserveCommand` and the branch on its result: a duplicate is reported as applied. -/
def reserve (h : Handler) (i : Nat) (cmd : Command) : Handler :=
  if h.duplicate cmd.id then h.ret i cmd true
  else { h.setCall i ⟨cmd, .running⟩ with inFlight := cmd.id :: h.inFlight }

def execute (h : Handler) (i : Nat) (cmd : Command) (ok : Bool) : Handler :=
  if ok then { h.setCall i ⟨cmd, .executed⟩ with log := h.log ++ [.succeeded cmd.id] }
  else h.setCall i ⟨cmd, .failed⟩

/-- The loop over `appliedAt` in `rememberApplied`, in the order Go walks the map. -/
def oldest (order : List (Bytes × Int)) : Bytes × Int :=
  order.foldl (fun old e => if old.1 = [] ∨ e.2 < old.2 then e else old) ([], 0)

/-- The map after `delete` of the oldest entry, when it is full. -/
def evict (appliedAt order : List (Bytes × Int)) : List (Bytes × Int) :=
  if maxAppliedCommandIDs ≤ appliedAt.length then
    if (oldest order).1 = [] then appliedAt
    else appliedAt.filter fun e => e.1 ≠ (oldest order).1
  else appliedAt

/-- `rememberApplied`. -/
def remember (h : Handler) (i : Nat) (cmd : Command) (now : Int) (order : List (Bytes × Int)) :
    Handler :=
  { h.setCall i ⟨cmd, .remembered⟩ with
    appliedAt := (cmd.id, now) :: (evict h.appliedAt order).filter fun e => e.1 ≠ cmd.id
    clock := now
    log := h.log ++ [.recorded cmd.id now] }

/-- The deferred `releaseCommand`, and the return of the call. -/
def release (h : Handler) (i : Nat) (cmd : Command) (applied : Bool) : Handler :=
  { h.ret i cmd applied with inFlight := h.inFlight.filter fun id => id ≠ cmd.id }

/-! ## Steps -/

def step (cfg : ResponseConfig) (h : Handler) : Act → Option Handler
  | .handle i secret now cmd =>
    match h.calls i with
    | some _ => none
    | none => if h.clock ≤ now then some (h.handle cfg i secret now cmd) else none
  | .reserve i =>
    match h.calls i with
    | some ⟨cmd, .admitted⟩ => some (h.reserve i cmd)
    | _ => none
  | .execute i ok =>
    match h.calls i with
    | some ⟨cmd, .running⟩ => some (h.execute i cmd ok)
    | _ => none
  | .remember i now order =>
    match h.calls i with
    | some ⟨cmd, .executed⟩ =>
      if h.clock ≤ now ∧ order.Perm h.appliedAt then some (h.remember i cmd now order) else none
    | _ => none
  | .release i =>
    match h.calls i with
    | some ⟨cmd, .remembered⟩ => some (h.release i cmd true)
    | some ⟨cmd, .failed⟩ => some (h.release i cmd false)
    | _ => none

/-- The steps, with their guards. -/
inductive Step (cfg : ResponseConfig) (h : Handler) : Act → Handler → Prop
  | refuse {i secret now cmd err} (fresh : h.calls i = none) (later : h.clock ≤ now)
      (refused : admitCommand cfg secret now cmd = .error err) :
      Step cfg h (.handle i secret now cmd) { h.ret i cmd false with clock := now }
  | accept {i secret now cmd} (fresh : h.calls i = none) (later : h.clock ≤ now)
      (admitted : admitCommand cfg secret now cmd = .ok ()) :
      Step cfg h (.handle i secret now cmd) { h.setCall i ⟨cmd, .admitted⟩ with clock := now }
  | duplicate {i cmd} (here : h.calls i = some ⟨cmd, .admitted⟩)
      (dup : h.duplicate cmd.id = true) : Step cfg h (.reserve i) (h.ret i cmd true)
  | reserve {i cmd} (here : h.calls i = some ⟨cmd, .admitted⟩)
      (new : h.duplicate cmd.id = false) :
      Step cfg h (.reserve i)
        { h.setCall i ⟨cmd, .running⟩ with inFlight := cmd.id :: h.inFlight }
  | succeed {i cmd} (here : h.calls i = some ⟨cmd, .running⟩) :
      Step cfg h (.execute i true)
        { h.setCall i ⟨cmd, .executed⟩ with log := h.log ++ [.succeeded cmd.id] }
  | fail {i cmd} (here : h.calls i = some ⟨cmd, .running⟩) :
      Step cfg h (.execute i false) (h.setCall i ⟨cmd, .failed⟩)
  | remember {i now order cmd} (here : h.calls i = some ⟨cmd, .executed⟩)
      (later : h.clock ≤ now) (walk : order.Perm h.appliedAt) :
      Step cfg h (.remember i now order) (h.remember i cmd now order)
  | releaseApplied {i cmd} (here : h.calls i = some ⟨cmd, .remembered⟩) :
      Step cfg h (.release i) (h.release i cmd true)
  | releaseFailed {i cmd} (here : h.calls i = some ⟨cmd, .failed⟩) :
      Step cfg h (.release i) (h.release i cmd false)

theorem step_cases {cfg : ResponseConfig} {h h' : Handler} {a : Act}
    (hs : step cfg h a = some h') : Step cfg h a h' := by
  cases a with
  | handle i secret now cmd =>
    simp only [step] at hs
    split at hs
    · cases hs
    · rename_i hfresh
      split at hs
      · rename_i hlater
        cases hs
        unfold handle
        cases hadmit : admitCommand cfg secret now cmd with
        | error err => exact .refuse hfresh hlater hadmit
        | ok u => exact .accept hfresh hlater hadmit
      · cases hs
  | reserve i =>
    simp only [step] at hs
    split at hs
    · rename_i cmd hhere
      cases hs
      unfold reserve
      split
      · exact .duplicate hhere ‹_›
      · exact .reserve hhere (Bool.not_eq_true _ ▸ ‹_›)
    · cases hs
  | execute i ok =>
    simp only [step] at hs
    split at hs
    · rename_i cmd hhere
      cases hs
      cases ok with
      | true => exact .succeed hhere
      | false => exact .fail hhere
    · cases hs
  | remember i now order =>
    simp only [step] at hs
    split at hs
    · rename_i cmd hhere
      split at hs
      · rename_i hguard
        cases hs
        exact .remember hhere hguard.1 hguard.2
      · cases hs
    · cases hs
  | release i =>
    simp only [step] at hs
    split at hs
    · cases hs
      exact .releaseApplied ‹_›
    · cases hs
      exact .releaseFailed ‹_›
    · cases hs

theorem setCall_self (h : Handler) (i : Nat) (call : Call) :
    (h.setCall i call).calls i = some call := by
  simp [setCall]

theorem setCall_of_ne (h : Handler) {i j : Nat} (hj : j ≠ i) (call : Call) :
    (h.setCall i call).calls j = h.calls j := by
  simp [setCall, hj]

/-- A duplicate is an id that is remembered or in flight. -/
theorem duplicate_iff {h : Handler} {id : Bytes} :
    h.duplicate id = true ↔ (∃ reading, (id, reading) ∈ h.appliedAt) ∨ id ∈ h.inFlight := by
  unfold duplicate
  rw [Bool.or_eq_true, List.contains_iff_mem, List.contains_iff_mem, List.mem_map]
  constructor
  · rintro (⟨e, he, rfl⟩ | hflight)
    · exact Or.inl ⟨e.2, he⟩
    · exact Or.inr hflight
  · rintro (⟨reading, he⟩ | hflight)
    · exact Or.inl ⟨_, he, rfl⟩
    · exact Or.inr hflight

theorem evict_sublist (appliedAt order : List (Bytes × Int)) :
    List.Sublist (evict appliedAt order) appliedAt := by
  unfold evict
  split
  · split
    · exact List.Sublist.refl _
    · exact List.filter_sublist
  · exact List.Sublist.refl _

/-- Where an entry stands in a log that has grown by one. -/
theorem split_snoc {l l₁ l₂ : List Entry} {e x : Entry} (h : l ++ [e] = l₁ ++ x :: l₂) :
    (l₂ = [] ∧ x = e ∧ l = l₁) ∨ ∃ l₂', l₂ = l₂' ++ [e] ∧ l = l₁ ++ x :: l₂' := by
  rcases List.eq_nil_or_concat l₂ with rfl | ⟨l₂', y, rfl⟩
  · obtain ⟨hl, he⟩ := List.append_inj' h rfl
    cases he
    exact Or.inl ⟨rfl, rfl, hl⟩
  · rw [List.concat_eq_append, ← List.cons_append, ← List.append_assoc] at h
    obtain ⟨hl, he⟩ := List.append_inj' h rfl
    cases he
    exact Or.inr ⟨l₂', List.concat_eq_append, hl⟩

/-! ## Signed commands at one reading of the clock -/

/-- All calls of the run see this reading. -/
def standing : Int := UtcTime.sample.instant

def standingConfig : ResponseConfig :=
  ⟨false, false, false, true, false, false, false, false, false⟩

/-- The `n`-th id: the letter `c` and a numeral. -/
def commandId (n : Nat) : Bytes := 99 :: utf8 (itoa n)

/-- A canary alert that carries the signature of its fields. -/
def signedCanary (n : Nat) : Command where
  id := commandId n
  kind := lit "canary_alert"
  target := lit "/x"
  ttlSec := 0
  issuedAt := utf8 UtcTime.sample.issuedAt
  hmac := utf8 (hexdigest (hmacSha256 (lit "host-secret") (canonical (commandId n)
    (lit "canary_alert") (lit "/x") 0 (utf8 UtcTime.sample.issuedAt))))

theorem commandId_injective {m n : Nat} (h : commandId m = commandId n) : m = n :=
  Int.ofNat_inj.mp (utf8_itoa_injective (List.cons.inj h).2)

theorem signedCanary_admitted (n : Nat) :
    admitCommand standingConfig (some (lit "host-secret")) standing (signedCanary n) =
      .ok () := by
  have hcheck : checkCommand (some (lit "host-secret")) standing (signedCanary n) = .ok () := by
    rw [checkCommand_ok_iff]
    refine ⟨trimSpace_ne_nil (by decide) (by decide) _, trimSpace_ne_nil (by decide) (by decide) _,
      ⟨standing, parseRFC3339_issuedAt _, ?_, ?_⟩, verify_hexdigest _ _ _ _ _ _⟩
    · unfold maxCommandClockSkew
      omega
    · unfold maxCommandClockSkew
      omega
  unfold admitCommand
  rw [hcheck]
  rfl

end Handler

end ZaqorinCore.Agent
