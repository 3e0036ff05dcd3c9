import ZaqorinCore.Base.SlidingWindow
import ZaqorinCore.Text.Bytes

/-!
# The throttle of the CSP reports

`self_defense/csp_violation_reporter.py` keeps the times of the admitted reports of every source,
drops those that have left the window from the front of a deque, and forgets the sources whose last
report has left it. `throttle_is_sliding_window` says that this is the window it means to be, and
which sources are remembered.
-/

namespace ZaqorinCore.Server.CspThrottle

open Text Base

/-- A call of `_throttle_allowed`. -/
structure Call where
  srcIp : Str
  now : Rat
  deriving DecidableEq

def throttleWindowSec : Rat := 60

def throttleBudget : Nat := 10

/-- `_recent` -/
abbrev Recent := Str → Option (List Rat)

/-- The sources whose deque is not empty and ends in the window are kept. -/
def evictStale (recent : Recent) (now : Rat) : Recent := fun ip =>
  (recent ip).filter fun bucket =>
    bucket.getLast?.any fun last => !decide (last < now - throttleWindowSec)

/-- `_throttle_allowed` after the eviction. -/
def admitCall (recent : Recent) (call : Call) : Bool × Recent :=
  let bucket := (recent call.srcIp).getD []
  let bucket := bucket.dropWhile fun hit => decide (hit < call.now - throttleWindowSec)
  if throttleBudget ≤ bucket.length then
    (false, Function.update recent call.srcIp (some bucket))
  else (true, Function.update recent call.srcIp (some (bucket ++ [call.now])))

/-- `_throttle_allowed`; without `evicts` no source is forgotten. -/
def throttleAllowed (evicts : Bool) (recent : Recent) (call : Call) : Bool × Recent :=
  admitCall (if evicts then evictStale recent call.now else recent) call

/-- The calls one after the other, with what each returned. -/
def serve (evicts : Bool) (calls : List Call) : List (Call × Bool) × Recent :=
  calls.foldl (fun (log, recent) call =>
    let (allowed, recent) := throttleAllowed evicts recent call
    (log ++ [(call, allowed)], recent)) ([], fun _ => none)

/-- The times at which reports of the source were admitted. -/
def admittedTimes (ip : Str) (log : List (Call × Bool)) : List Rat :=
  (log.filter fun e => decide (e.1.srcIp = ip) && e.2).map fun e => e.1.now

/-- The sliding window that the throttle stands for. -/
def limiter : Limiter Call Str Rat Bool where
  bucket call := some call.srcIp
  time := Call.now
  width := throttleWindowSec
  limit := throttleBudget
  exempt := true
  reply _ hits := decide (hits.length < throttleBudget)
  passes allowed := allowed
  passes_reply _ _ := rfl

theorem admitted_eq (ip : Str) (log : List (Call × Bool)) :
    limiter.admitted ip log = admittedTimes ip log := by
  unfold Limiter.admitted admittedTimes limiter
  simp only [Option.some.injEq]

/-! ## The deques follow the ledger -/

/-- The times that are kept of a source. -/
def kept (recent : Recent) (ip : Str) : List Rat := (recent ip).getD []

section

variable {recent : Recent} {past : Str → List Rat} {call : Call}

theorem kept_update (recent : Recent) (ip other : Str) (bucket : List Rat) :
    kept (Function.update recent ip (some bucket)) other =
      if other = ip then bucket else kept recent other := by
  unfold kept
  by_cases h : other = ip
  · subst h
    rw [if_pos rfl, Function.update_self]
    rfl
  · rw [if_neg h, Function.update_of_ne h]

/-- A source is forgotten only when all that is kept of it has left the window. -/
theorem follows_evictStale {now : Rat}
    (h : ∀ ip, Limiter.Follows throttleWindowSec now (kept recent ip) (past ip)) (ip : Str) :
    Limiter.Follows throttleWindowSec now (kept (evictStale recent now) ip) (past ip) := by
  have hip := h ip
  unfold kept evictStale at *
  cases hbucket : recent ip with
  | none =>
    rw [hbucket] at hip
    exact hip
  | some bucket =>
    rw [hbucket] at hip
    dsimp only [Option.getD_some] at hip
    rw [Option.filter_some]
    cases hlast : bucket.getLast? with
    | none =>
      rw [List.getLast?_eq_none_iff.mp hlast] at hip
      exact hip
    | some last =>
      by_cases hstale : last < now - throttleWindowSec
      · have hnil := Limiter.recent_eq_nil hip.sorted hlast hstale
        have hexpired := hip.expire
        rw [hnil] at hexpired
        simpa [hstale] using hexpired
      · simpa [hstale] using hip

theorem exists_admitCall (recent : Recent) (call : Call) :
    ∃ bucket, (admitCall recent call).2 = Function.update recent call.srcIp (some bucket) := by
  unfold admitCall
  dsimp only
  split <;> exact ⟨_, rfl⟩

/-- The admissions of every source after one more call. -/
def admittedAfter (past : Str → List Rat) (call : Call) (allowed : Bool) (ip : Str) : List Rat :=
  past ip ++ if some call.srcIp = some ip ∧ allowed = true then [call.now] else []

theorem admittedAfter_self (past : Str → List Rat) (call : Call) :
    admittedAfter past call true call.srcIp = past call.srcIp ++ [call.now] := by
  rw [admittedAfter, if_pos ⟨rfl, rfl⟩]

theorem admittedAfter_of_ne (past : Str → List Rat) {call : Call} {ip : Str}
    (h : ip ≠ call.srcIp) (allowed : Bool) : admittedAfter past call allowed ip = past ip := by
  rw [admittedAfter, if_neg fun hsame => h (Option.some.inj hsame.1).symm, List.append_nil]

theorem admittedAfter_refused (past : Str → List Rat) (call : Call) (ip : Str) :
    admittedAfter past call false ip = past ip := by
  rw [admittedAfter, if_neg fun hsame => Bool.false_ne_true hsame.2, List.append_nil]

theorem admit_follows
    (h : ∀ ip, Limiter.Follows throttleWindowSec call.now (kept recent ip) (past ip)) :
    (admitCall recent call).1 = decide ((Limiter.recent throttleWindowSec call.now
        (past call.srcIp)).length < throttleBudget) ∧
      ∀ ip, Limiter.Follows throttleWindowSec call.now (kept (admitCall recent call).2 ip)
        (admittedAfter past call (admitCall recent call).1 ip) := by
  have hbucket : ((recent call.srcIp).getD []).dropWhile
        (fun hit => decide (hit < call.now - throttleWindowSec)) =
      Limiter.recent throttleWindowSec call.now (kept recent call.srcIp) :=
    Limiter.dropWhile_eq_recent throttleWindowSec call.now (h call.srcIp).sorted
  have hwindow := (h call.srcIp).recent_eq call.now le_rfl
  have hexpired := (h call.srcIp).expire
  unfold admitCall
  dsimp only
  rw [hbucket, ← hwindow]
  split
  · rename_i hfull
    refine ⟨(decide_eq_false (by omega)).symm, fun ip => ?_⟩
    rw [kept_update, admittedAfter_refused]
    by_cases hip : ip = call.srcIp
    · subst hip
      rw [if_pos rfl]
      exact hexpired
    · rw [if_neg hip]
      exact h ip
  · rename_i hroom
    refine ⟨(decide_eq_true (by omega)).symm, fun ip => ?_⟩
    rw [kept_update]
    by_cases hip : ip = call.srcIp
    · subst hip
      rw [if_pos rfl, admittedAfter_self]
      exact hexpired.append
    · rw [if_neg hip, admittedAfter_of_ne past hip]
      exact h ip

theorem throttle_follows (evicts : Bool)
    (h : ∀ ip, Limiter.Follows throttleWindowSec call.now (kept recent ip) (past ip)) :
    (throttleAllowed evicts recent call).1 = decide ((Limiter.recent throttleWindowSec call.now
        (past call.srcIp)).length < throttleBudget) ∧
      ∀ ip, Limiter.Follows throttleWindowSec call.now
        (kept (throttleAllowed evicts recent call).2 ip)
        (admittedAfter past call (throttleAllowed evicts recent call).1 ip) := by
  cases evicts with
  | false => exact admit_follows h
  | true => exact admit_follows (follows_evictStale h)

end

theorem serve_snoc (evicts : Bool) (calls : List Call) (call : Call) :
    serve evicts (calls ++ [call]) =
      ((serve evicts calls).1 ++ [(call, (throttleAllowed evicts (serve evicts calls).2 call).1)],
        (throttleAllowed evicts (serve evicts calls).2 call).2) :=
  List.foldl_append ..

/-- A whole run writes the ledger of the sliding window, whether it forgets sources or not. -/
theorem serve_follows (evicts : Bool) {calls : List Call}
    (hclock : (calls.map Call.now).Pairwise (· ≤ ·)) :
    (serve evicts calls).1 = limiter.ledger calls ∧
      ∀ t, (∀ c ∈ calls, c.now ≤ t) → ∀ ip, Limiter.Follows throttleWindowSec t
        (kept (serve evicts calls).2 ip) (limiter.admitted ip (limiter.ledger calls)) := by
  induction calls using List.reverseRecOn with
  | nil => exact ⟨rfl, fun t _ ip => Limiter.follows_nil _ t⟩
  | append_singleton calls call ih =>
    rw [List.map_append, List.pairwise_append] at hclock
    obtain ⟨hlog, hkept⟩ := ih hclock.1
    have hbefore : ∀ c ∈ calls, c.now ≤ call.now := fun c hc =>
      hclock.2.2 c.now (List.mem_map_of_mem hc) call.now (by simp)
    obtain ⟨hallowed, hnext⟩ := throttle_follows evicts (hkept call.now hbefore)
    have hjudge : limiter.judge (limiter.ledger calls) call =
        (throttleAllowed evicts (serve evicts calls).2 call).1 := hallowed.symm
    rw [serve_snoc, Limiter.ledger_snoc, hlog, hjudge]
    refine ⟨rfl, fun t ht ip => ?_⟩
    rw [Limiter.admitted_snoc]
    exact (hnext ip).later (ht call (by simp))

/-! ## The sources that are remembered -/

/-- After a call the table holds its own source, and sources that were admitted in the window. -/
theorem remembered {recent : Recent} {past : Str → List Rat} {call : Call}
    (h : ∀ ip, Limiter.Follows throttleWindowSec call.now (kept recent ip) (past ip)) {ip : Str}
    (hip : (throttleAllowed true recent call).2 ip ≠ none) : ip = call.srcIp ∨
      ∃ t ∈ past ip, call.now - throttleWindowSec ≤ t := by
  by_cases hown : ip = call.srcIp
  · exact Or.inl hown
  right
  have hold : evictStale recent call.now ip ≠ none := by
    obtain ⟨bucket, hbucket⟩ := exists_admitCall (evictStale recent call.now) call
    rw [throttleAllowed, if_pos rfl, hbucket, Function.update_of_ne hown] at hip
    exact hip
  obtain ⟨bucket, hbucket⟩ := Option.ne_none_iff_exists'.mp hold
  obtain ⟨hkept, hlast⟩ := Option.filter_eq_some_iff.mp hbucket
  obtain ⟨last, hlast, hin⟩ := (Option.any_eq_true _ _).mp hlast
  have hfollows := h ip
  rw [kept, hkept, Option.getD_some] at hfollows
  have hle : call.now - throttleWindowSec ≤ last := by simpa using hin
  have hmem : last ∈ Limiter.recent throttleWindowSec call.now bucket :=
    List.mem_filter.mpr ⟨List.mem_of_getLast? hlast, decide_eq_true hle⟩
  rw [hfollows.recent_eq call.now le_rfl] at hmem
  exact ⟨last, List.mem_of_mem_filter hmem, hle⟩

/-! ## The throttle -/

/-- In every closed minute at most ten reports of a source are admitted; a report is refused only
after ten of its source in the minute up to it; forgetting sources changes no answer; and after each
call the table holds the source of the call and sources that were admitted in the last minute. -/
theorem throttle_is_sliding_window {calls : List Call}
    (hclock : (calls.map Call.now).Pairwise (· ≤ ·)) :
    let log := (serve true calls).1
    (∀ ip x, ((admittedTimes ip log).filter fun t =>
        decide (x ≤ t ∧ t ≤ x + throttleWindowSec)).length ≤ throttleBudget) ∧
      (∀ before call after, log = before ++ (call, false) :: after →
        throttleBudget ≤ ((admittedTimes call.srcIp before).filter fun t =>
          decide (call.now - throttleWindowSec ≤ t ∧ t ≤ call.now)).length) ∧
      log = (serve false calls).1 ∧
      ∀ before call after, calls = before ++ call :: after → ∀ ip,
        (serve true (before ++ [call])).2 ip ≠ none → ip = call.srcIp ∨
          ∃ t ∈ admittedTimes ip (serve true (before ++ [call])).1,
            call.now - throttleWindowSec ≤ t ∧ t ≤ call.now := by
  intro log
  have hlog : log = limiter.ledger calls := (serve_follows true hclock).1
  refine ⟨?_, ?_, ?_, ?_⟩
  · intro ip
    rw [hlog, ← admitted_eq]
    exact limiter.sparse_admitted ip calls
  · intro before call after hsplit
    rw [hlog] at hsplit
    rw [← admitted_eq]
    exact limiter.window_full hclock hsplit rfl rfl
  · rw [hlog, (serve_follows false hclock).1]
  · intro before call after hsplit ip hip
    rw [hsplit, List.map_append, List.pairwise_append] at hclock
    have hearlier : ∀ c ∈ before, c.now ≤ call.now := fun c hc =>
      hclock.2.2 c.now (List.mem_map_of_mem hc) call.now (by simp)
    obtain ⟨hbefore, hfollows⟩ := serve_follows true hclock.1
    rw [serve_snoc] at hip ⊢
    refine (remembered (hfollows call.now hearlier) hip).imp_right ?_
    rintro ⟨t, ht, hin⟩
    obtain ⟨c, hc, hct⟩ := limiter.exists_of_mem_admitted (limiter.ledger_map_fst before) ht
    refine ⟨t, ?_, hin, hct ▸ hearlier c hc⟩
    rw [admitted_eq, ← hbefore] at ht
    unfold admittedTimes at ht ⊢
    rw [List.filter_append, List.map_append]
    exact List.mem_append_left _ ht

/-- Eleven reports of one source in a second, between two of another. -/
def burst : List Call :=
  ⟨"10.0.0.7".toList, 0⟩ ::
    (List.replicate 11 ⟨"203.0.113.5".toList, 1⟩ ++ [⟨"10.0.0.7".toList, 61⟩])

theorem burst_throttled : (burst.map Call.now).Pairwise (· ≤ ·) ∧
    ((admittedTimes "203.0.113.5".toList (serve true burst).1).filter fun t =>
      decide (0 ≤ t ∧ t ≤ 0 + throttleWindowSec)).length ≤ throttleBudget := by
  have hclock : (burst.map Call.now).Pairwise (· ≤ ·) := by decide +kernel
  exact ⟨hclock, (throttle_is_sliding_window hclock).1 _ 0⟩

end ZaqorinCore.Server.CspThrottle
