import ZaqorinCore.Server.RateLimit

/-!
# The advertised wait

A refused request is told to come back after `retry_after_sec` seconds. The wait is rounded up from
a millisecond on, and a hit leaves the window only after its last instant. `retry_admitted_iff` says
for which waits a client that comes back at the advertised time, and not before, is admitted.
-/

namespace ZaqorinCore.Server.RateLimit

open Text Base

/-- The integer that is advertised for a wait. -/
def advertised (wait : Rat) : Int := max 1 ⌊wait + 999 / 1000⌋

/-- The wait is shorter than a second, or it is not a whole number of seconds and less than a
millisecond. -/
def RoundsUp (wait : Rat) : Prop := wait < 1 ∨ 1 / 1000 ≤ Int.fract wait

theorem lt_advertised_iff (wait : Rat) : wait < advertised wait ↔ RoundsUp wait := by
  have hfloor := Int.floor_add_fract wait
  have hnonneg := Int.fract_nonneg wait
  have hlt := Int.fract_lt_one wait
  unfold advertised RoundsUp
  rw [Int.cast_max, Int.cast_one, lt_max_iff]
  apply or_congr_right
  by_cases hfract : 1 / 1000 ≤ Int.fract wait
  · apply iff_of_true _ hfract
    have hle : ((⌊wait⌋ + 1 : Int) : Rat) ≤ wait + 999 / 1000 := by
      push_cast
      linarith
    have hceil := Int.cast_le (R := Rat).mpr (Int.le_floor.mpr hle)
    push_cast at hceil
    linarith
  · apply iff_of_false _ hfract
    have hsame : ⌊wait + 999 / 1000⌋ = ⌊wait⌋ := by
      rw [Int.floor_eq_iff]
      constructor
      · linarith
      · linarith
    rw [hsame, not_lt]
    exact Int.floor_le wait

/-- How long the oldest hit that is in the window at a time stays in it. -/
def waitAt (hits : List Rat) (now : Rat) : Option Rat :=
  (Limiter.recent windowSec now hits).head?.map fun oldest => oldest + windowSec - now

/-- What is advertised to a request that finds the window full. -/
theorem answerTo_limited {limit : Nat} {request : Request} {hits : List Rat} {s : Int}
    (h : answerTo limit request hits = .limited limit s) : limit ≤ hits.length ∧
      ∃ oldest later, hits = oldest :: later ∧
        s = advertised (max 0 (oldest + windowSec - request.now)) := by
  unfold answerTo Bucket.verdict at h
  dsimp only at h
  split at h
  · rename_i hfull
    refine ⟨hfull, ?_⟩
    cases hits with
    | nil => cases h
    | cons oldest later =>
      cases h
      exact ⟨oldest, later, rfl, rfl⟩
  · cases h

/-! ## The window at the retry -/

section

variable {w u oldest : Rat} {later : List Rat}

/-- A window in order loses a hit exactly when it loses its oldest one. -/
theorem length_recent_lt_iff (hsorted : (oldest :: later).Pairwise (· ≤ ·)) :
    (Limiter.recent w u (oldest :: later)).length < (oldest :: later).length ↔ oldest < u - w := by
  constructor
  · intro hlt
    by_contra hstays
    rw [not_lt] at hstays
    have hall : Limiter.recent w u (oldest :: later) = oldest :: later := by
      apply List.filter_eq_self.mpr
      intro t ht
      rcases List.mem_cons.mp ht with rfl | ht
      · exact decide_eq_true hstays
      · exact decide_eq_true (hstays.trans ((List.pairwise_cons.mp hsorted).1 t ht))
    rw [hall] at hlt
    omega
  · intro hlt
    have hgone : Limiter.recent w u (oldest :: later) = Limiter.recent w u later :=
      List.filter_cons_of_neg (by rw [decide_eq_true_eq, not_le]; exact hlt)
    rw [hgone, List.length_cons]
    exact Nat.lt_succ_of_le (List.length_filter_le _ _)

end

section

variable {enabled : Bool} {limit : Nat} {requests before others : List Request}
  {request retry : Request} {key : Str} {s : Int}

/-- The admissions of a key are in the order of the clock. -/
theorem admitted_sorted (key : Str) (hclock : (requests.map Request.now).Pairwise (· ≤ ·)) :
    ((limiter enabled limit).admitted key ((limiter enabled limit).ledger requests)).Pairwise
      (· ≤ ·) := by
  have hall : (requests.map Request.now) =
      ((limiter enabled limit).ledger requests).map fun e => e.1.now := by
    rw [← (limiter enabled limit).ledger_map_fst requests, List.map_map,
      (limiter enabled limit).ledger_map_fst requests]
    rfl
  rw [hall] at hclock
  exact hclock.sublist (List.filter_sublist.map _)

/-- The window that ends at a request holds no more than the limit. -/
theorem length_window_le (hclock : ((requests ++ [request]).map Request.now).Pairwise (· ≤ ·)) :
    (Limiter.recent windowSec request.now ((limiter enabled limit).admitted key
      ((limiter enabled limit).ledger requests))).length ≤ limit := by
  have hsparse := (limiter enabled limit).sparse_admitted key requests (request.now - windowSec)
  have hsame : ((limiter enabled limit).admitted key
        ((limiter enabled limit).ledger requests)).filter (fun u => decide (request.now - windowSec ≤ u ∧
          u ≤ request.now - windowSec + (limiter enabled limit).width)) =
      Limiter.recent windowSec request.now ((limiter enabled limit).admitted key
        ((limiter enabled limit).ledger requests)) := by
    apply List.filter_congr
    intro u hu
    obtain ⟨r, hr, rfl⟩ := (limiter enabled limit).exists_of_mem_admitted
      ((limiter enabled limit).ledger_map_fst requests) hu
    have hle : (limiter enabled limit).time r ≤
        request.now - windowSec + (limiter enabled limit).width := by
      rw [List.map_append, List.pairwise_append] at hclock
      have hlast := hclock.2.2 r.now (List.mem_map_of_mem hr) request.now (by simp)
      show r.now ≤ request.now - windowSec + windowSec
      linarith
    simp [hle]
  rw [hsame] at hsparse
  exact hsparse

/-- What a key was admitted for does not change while it sends nothing. -/
theorem admitted_others (hothers : ∀ r ∈ others, bucketOf enabled r ≠ some key) :
    (limiter enabled limit).admitted key ((limiter enabled limit).ledger (before ++ others)) =
      (limiter enabled limit).admitted key ((limiter enabled limit).ledger before) := by
  induction others using List.reverseRecOn with
  | nil => rw [List.append_nil]
  | append_singleton others other ih =>
    have hother : ¬ ((limiter enabled limit).bucket other = some key ∧
        (limiter enabled limit).passes ((limiter enabled limit).judge
          ((limiter enabled limit).ledger (before ++ others)) other) = true) :=
      fun h => hothers other (by simp) h.1
    rw [← List.append_assoc, Limiter.ledger_snoc, Limiter.admitted_snoc, if_neg hother,
      List.append_nil]
    exact ih fun r hr => hothers r (List.mem_append_left _ hr)

/-- The last answer of a run. -/
theorem serve_last (every : Option Nat)
    (hclock : ((requests ++ [request]).map Request.now).Pairwise (· ≤ ·))
    (hkey : bucketOf enabled request = some key) :
    (serve every enabled limit (requests ++ [request])).1.getLast? =
      some (request, answerTo limit request (Limiter.recent windowSec request.now
        ((limiter enabled limit).admitted key ((limiter enabled limit).ledger requests)))) := by
  rw [(serve_tracks every enabled limit hclock).1, Limiter.ledger_snoc, List.getLast?_concat,
    (limiter enabled limit).judge_of_bucket hkey]
  rfl

/-- A refused caller that is admitted for nothing more is let in after the advertised wait if and
only if that wait was rounded up. -/
theorem answerTo_retry_iff {past : List Rat} (hsorted : past.Pairwise (· ≤ ·))
    (hbound : (Limiter.recent windowSec request.now past).length ≤ limit)
    (hlimited : answerTo limit request (Limiter.recent windowSec request.now past) =
      .limited limit s) (hnow : retry.now = request.now + s) :
    answerTo limit retry (Limiter.recent windowSec retry.now past) = .passed ↔
      ∀ wait ∈ waitAt past request.now, RoundsUp wait := by
  obtain ⟨hfull, oldest, later, hhits, hs⟩ := answerTo_limited hlimited
  have hwait : 0 ≤ oldest + windowSec - request.now := by
    have hmem : oldest ∈ Limiter.recent windowSec request.now past := by
      rw [hhits]
      exact List.mem_cons_self
    have hin := of_decide_eq_true (List.mem_filter.mp hmem).2
    linarith
  rw [max_eq_right hwait] at hs
  have hlater : request.now ≤ retry.now := by
    have hone : (1 : Int) ≤ s := by
      rw [hs]
      exact le_max_left _ _
    have hcast := Int.cast_le (R := Rat).mpr hone
    push_cast at hcast
    linarith
  have hwindow : Limiter.recent windowSec retry.now past =
      Limiter.recent windowSec retry.now (oldest :: later) := by
    rw [← hhits, Limiter.recent_recent hlater]
  have hlength : limit = (oldest :: later).length := by
    rw [← hhits]
    omega
  have hordered : (oldest :: later).Pairwise (· ≤ ·) := by
    rw [← hhits]
    exact hsorted.sublist List.filter_sublist
  calc answerTo limit retry (Limiter.recent windowSec retry.now past) = .passed
      ↔ (Limiter.recent windowSec retry.now (oldest :: later)).length <
          (oldest :: later).length := by
        rw [← beq_iff_eq, passed_answerTo, decide_eq_true_eq, hwindow, hlength]
    _ ↔ oldest < retry.now - windowSec := length_recent_lt_iff hordered
    _ ↔ oldest + windowSec - request.now < advertised (oldest + windowSec - request.now) := by
        rw [hnow, hs]
        constructor <;> intro h <;> linarith
    _ ↔ RoundsUp (oldest + windowSec - request.now) := lt_advertised_iff _
    _ ↔ ∀ wait ∈ waitAt past request.now, RoundsUp wait := by
        rw [waitAt, hhits]
        simp

/-- A refused request that is repeated after the advertised time is admitted exactly when its wait
was rounded up, whatever other callers have sent in between. -/
theorem retry_admitted_iff (every : Option Nat)
    (hclock : ((before ++ request :: (others ++ [retry])).map Request.now).Pairwise (· ≤ ·))
    (hrequest : bucketOf enabled request = some key) (hretry : bucketOf enabled retry = some key)
    (hothers : ∀ r ∈ others, bucketOf enabled r ≠ some key)
    (hlimited : (serve every enabled limit (before ++ [request])).1.getLast? =
      some (request, .limited limit s)) (hnow : retry.now = request.now + s) :
    (serve every enabled limit (before ++ request :: (others ++ [retry]))).1.getLast? =
        some (retry, .passed) ↔
      ∀ wait ∈ waitAt ((serve every enabled limit before).2.hits key) request.now,
        RoundsUp wait := by
  have hrun : before ++ request :: (others ++ [retry]) =
      ((before ++ [request]) ++ others) ++ [retry] := by simp
  rw [hrun] at hclock ⊢
  have hfirst : ((before ++ [request]).map Request.now).Pairwise (· ≤ ·) :=
    hclock.sublist (((List.sublist_append_left _ _).trans (List.sublist_append_left _ _)).map _)
  have hbefore : (before.map Request.now).Pairwise (· ≤ ·) :=
    hfirst.sublist ((List.sublist_append_left _ _).map _)
  rw [serve_last every hfirst hrequest] at hlimited
  have hanswer := (Prod.mk.inj (Option.some.inj hlimited)).2
  -- the refused request is no admission, and the others are not of this key
  have hpast : (limiter enabled limit).admitted key
        ((limiter enabled limit).ledger ((before ++ [request]) ++ others)) =
      (limiter enabled limit).admitted key ((limiter enabled limit).ledger before) := by
    rw [admitted_others hothers, Limiter.ledger_snoc, Limiter.admitted_snoc, if_neg,
      List.append_nil]
    intro h
    rw [(limiter enabled limit).judge_of_bucket hrequest] at h
    have hpassed := hanswer.symm.trans (eq_of_beq h.2)
    cases hpassed
  have hhits := (serve_tracks every enabled limit hbefore).2.recent key request.now fun r hr => by
    rw [List.map_append, List.pairwise_append] at hfirst
    exact hfirst.2.2 r.now (List.mem_map_of_mem hr) request.now (by simp)
  have hwait : waitAt ((serve every enabled limit before).2.hits key) request.now =
      waitAt ((limiter enabled limit).admitted key ((limiter enabled limit).ledger before))
        request.now := by
    rw [waitAt, hhits, waitAt]
  rw [serve_last every hclock hretry, hpast, hwait,
    ← answerTo_retry_iff (admitted_sorted key hbefore) (length_window_le hfirst) hanswer hnow]
  simp

end

def fromAlpha (now : Rat) : Request := ⟨"/api/v1/events".toList, some "alpha".toList, none, now⟩

def fromBeta (now : Rat) : Request := ⟨"/api/v1/events".toList, some "beta".toList, none, now⟩

theorem retry_admitted_half_second :
    (serve (some pruneEvery) true 1 ([fromAlpha 0] ++ fromAlpha (119 / 2) ::
      ([fromBeta 60] ++ [fromAlpha (121 / 2)]))).1.getLast? =
      some (fromAlpha (121 / 2), .passed) := by
  have hlimited : (serve (some pruneEvery) true 1
      ([fromAlpha 0] ++ [fromAlpha (119 / 2)])).1.getLast? =
      some (fromAlpha (119 / 2), .limited 1 1) := by decide +kernel
  have hwait : waitAt ((serve (some pruneEvery) true 1 [fromAlpha 0]).2.hits
      (bucketKey (fromAlpha (119 / 2)))) (fromAlpha (119 / 2)).now = some (1 / 2) := by
    decide +kernel
  apply (retry_admitted_iff (some pruneEvery) (by decide +kernel) rfl rfl (by decide +kernel)
    hlimited (by decide +kernel)).mpr
  intro wait hmem
  rw [hwait, Option.mem_some_iff] at hmem
  subst hmem
  exact Or.inl (by norm_num)

/-- The caller comes back when its hit has been in the window for exactly a minute. -/
theorem retry_refused_whole_seconds :
    (serve (some pruneEvery) true 1
      [fromAlpha 0, fromAlpha 10, fromAlpha (10 + 50)]).1.map Prod.snd =
        [.passed, .limited 1 50, .limited 1 1] := by
  decide +kernel

end ZaqorinCore.Server.RateLimit
