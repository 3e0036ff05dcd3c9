import ZaqorinCore.Base.Run
import ZaqorinCore.Base.SlidingWindow
import ZaqorinCore.Server.Value

/-!
# The HTTP rate limit

`RateLimitMiddleware` keeps a deque of the recent hits of every caller, drops what has left the
window from its front, and every 256 requests throws away the buckets that have run empty.
`rate_limit_is_sliding_window` says that none of this can be observed: the decisions are those of
`Base.Limiter.ledger`, which judges every request on everything its caller was ever admitted for.
-/

namespace ZaqorinCore.Server.RateLimit

open Text Base

/-! ## The middleware -/

structure Request where
  path : Str
  /-- The `X-API-Key` header. -/
  apiKey : Option Str
  /-- `request.client.host`. -/
  client : Option Str
  /-- `time.monotonic()` when the request is dispatched. -/
  now : Rat
  deriving DecidableEq

def excludedPrefixes : List String := ["/healthz", "/readyz", "/static/"]

def isExcluded (path : Str) : Bool :=
  path == "/".toList || path == "/index.html".toList ||
    excludedPrefixes.any fun p => p.toList.isPrefixOf path

def bucketKey (request : Request) : Str :=
  let presented := strip (request.apiKey.getD [])
  if presented ≠ [] then "key:".toList ++ presented
  else match request.client with
    | some (c :: host) => "ip:".toList ++ c :: host
    | _ => "anonymous".toList

structure Bucket where
  hits : List Rat
  windowSec : Rat
  limit : Nat

/-- The loop that pops the hits before the cutoff. -/
def Bucket.expire (b : Bucket) (cutoff : Rat) : Bucket :=
  { b with hits := b.hits.dropWhile fun hit => decide (hit < cutoff) }

/-- The rest of `_Bucket.allow`: `none` when `self.hits[0]` raises, else `allowed` and
`retry_after`. -/
def Bucket.verdict (b : Bucket) (now : Rat) : Option (Bool × Rat) × Bucket :=
  if b.limit ≤ b.hits.length then
    (b.hits.head?.map fun oldest => (false, max 0 (oldest + b.windowSec - now)), b)
  else (some (true, 0), { b with hits := b.hits ++ [now] })

/-- `_Bucket.allow`. -/
def Bucket.allow (b : Bucket) (now : Rat) : Option (Bool × Rat) × Bucket :=
  (b.expire (now - b.windowSec)).verdict now

def windowSec : Rat := 60

def pruneEvery : Nat := 256

structure Middleware where
  buckets : Str → Option Bucket
  acceptedSincePrune : Nat
  enabled : Bool
  limit : Nat

/-- `__init__`, with the two settings that it reads. -/
def Middleware.init (enabled : Bool) (limit : Nat) : Middleware :=
  ⟨fun _ => none, 0, enabled, limit⟩

/-- `_prune`. -/
def Middleware.prune (m : Middleware) (now : Rat) : Middleware :=
  { m with buckets := fun key =>
      ((m.buckets key).map fun b => b.expire (now - windowSec)).filter fun b => !b.hits.isEmpty }

inductive Outcome
  /-- `call_next(request)`. -/
  | passed
  /-- 429 with `limit_per_min` and `retry_after_sec`. -/
  | limited (limitPerMin : Nat) (retryAfterSec : Int)
  /-- The `IndexError` of `self.hits[0]`. -/
  | indexError
  deriving DecidableEq

/-- The answer to what `allow` returned. -/
def respond (limit : Nat) : Option (Bool × Rat) → Outcome
  | some (true, _) => .passed
  | some (false, retryAfter) => .limited limit (max 1 ⌊retryAfter + 999 / 1000⌋)
  | none => .indexError

/-- The part of `dispatch` after `allow`: `every` is `PRUNE_EVERY`, and `none` never prunes. -/
def Middleware.counted (every : Option Nat) (m : Middleware) (now : Rat) : Middleware :=
  let m := { m with acceptedSincePrune := m.acceptedSincePrune + 1 }
  if every.any (· ≤ m.acceptedSincePrune) then { m.prune now with acceptedSincePrune := 0 } else m

def Middleware.dispatch (every : Option Nat) (m : Middleware) (request : Request) :
    Outcome × Middleware :=
  if !m.enabled || isExcluded request.path then (.passed, m)
  else
    let key := bucketKey request
    let bucket := (m.buckets key).getD ⟨[], windowSec, m.limit⟩
    let (answer, bucket) := bucket.allow request.now
    let m := { m with buckets := Function.update m.buckets key (some bucket) }
    -- an exception leaves the critical section before the count
    match answer with
    | none => (.indexError, m)
    | some _ => (respond m.limit answer, m.counted every request.now)

/-- The requests one after the other, with what each was answered. -/
def serve (every : Option Nat) (enabled : Bool) (limit : Nat) (requests : List Request) :
    List (Request × Outcome) × Middleware :=
  requests.foldl (fun (log, m) request =>
    let (outcome, m) := m.dispatch every request
    (log ++ [(request, outcome)], m)) ([], .init enabled limit)

/-! ## The specification -/

/-- The bucket of a request, and `none` for one that bypasses the limiter. -/
def bucketOf (enabled : Bool) (request : Request) : Option Str :=
  if !enabled || isExcluded request.path then none else some (bucketKey request)

/-- The times at which requests of the bucket were admitted. -/
def admittedTimes (enabled : Bool) (key : Str) (log : List (Request × Outcome)) : List Rat :=
  (log.filter fun e => bucketOf enabled e.1 = some key && e.2 == .passed).map fun e => e.1.now

/-- The answer to a request whose caller has the given hits in its window. -/
def answerTo (limit : Nat) (request : Request) (hits : List Rat) : Outcome :=
  respond limit (Bucket.verdict ⟨hits, windowSec, limit⟩ request.now).1

theorem passed_answerTo (limit : Nat) (request : Request) (hits : List Rat) :
    (answerTo limit request hits == .passed) = decide (hits.length < limit) := by
  unfold answerTo Bucket.verdict
  by_cases h : limit ≤ hits.length
  · rw [if_pos h, decide_eq_false (by omega)]
    cases hits with
    | nil => rfl
    | cons oldest hits => rfl
  · rw [if_neg h, decide_eq_true (by omega)]
    rfl

/-- The sliding window that the middleware stands for. -/
def limiter (enabled : Bool) (limit : Nat) : Limiter Request Str Rat Outcome where
  bucket := bucketOf enabled
  time := Request.now
  width := windowSec
  limit := limit
  exempt := .passed
  reply := answerTo limit
  passes o := o == .passed
  passes_reply := passed_answerTo limit

/-! ## The buckets follow the ledger -/

/-- The hits that are kept for a key. -/
def Middleware.hits (m : Middleware) (key : Str) : List Rat :=
  ((m.buckets key).map Bucket.hits).getD []

/-- After the requests, the kept hits of a key are in order and give every later window what the
admissions of the key give it. -/
structure Tracks (enabled : Bool) (limit : Nat) (requests : List Request) (past : Str → List Rat)
    (m : Middleware) : Prop where
  enabled_eq : m.enabled = enabled
  limit_eq : m.limit = limit
  settings : ∀ key b, m.buckets key = some b → b.windowSec = windowSec ∧ b.limit = limit
  sorted : ∀ key, (m.hits key).Pairwise (· ≤ ·)
  before : ∀ key, ∀ s ∈ m.hits key, ∃ r ∈ requests, s = r.now
  recent : ∀ key t, (∀ r ∈ requests, r.now ≤ t) →
    Limiter.recent windowSec t (m.hits key) = Limiter.recent windowSec t (past key)

variable {enabled : Bool} {limit : Nat} {requests : List Request} {past : Str → List Rat}
  {m : Middleware} {every : Option Nat} {request : Request}

theorem tracks_init : Tracks enabled limit [] (fun _ => []) (.init enabled limit) where
  enabled_eq := rfl
  limit_eq := rfl
  settings := by
    intro key b h
    cases h
  sorted _ := List.Pairwise.nil
  before := by
    intro key s h
    cases h
  recent _ _ _ := rfl

/-- Pruning is not seen by any later window. -/
theorem Tracks.prune (h : Tracks enabled limit requests past m) {now : Rat}
    (hnow : ∃ r ∈ requests, r.now = now) : Tracks enabled limit requests past (m.prune now) := by
  have hhits : ∀ key, (m.prune now).hits key = Limiter.recent windowSec now (m.hits key) := by
    intro key
    rw [← Limiter.dropWhile_eq_recent windowSec now (h.sorted key)]
    unfold Middleware.hits Middleware.prune
    dsimp only
    cases m.buckets key with
    | none => rfl
    | some b =>
      simp only [Option.map_some, Option.filter_some, Option.getD_some]
      by_cases hnil : (b.expire (now - windowSec)).hits = []
      · rw [hnil, if_neg (by simp)]
        exact hnil.symm
      · rw [if_pos (by simpa using hnil)]
        rfl
  have hsub : ∀ key, ((m.prune now).hits key).Sublist (m.hits key) := by
    intro key
    rw [hhits]
    exact List.filter_sublist
  refine ⟨h.enabled_eq, h.limit_eq, ?_, fun key => (h.sorted key).sublist (hsub key),
    fun key s hs => h.before key s ((hsub key).subset hs), ?_⟩
  · intro key b hb
    obtain ⟨hmap, -⟩ := Option.filter_eq_some_iff.mp hb
    obtain ⟨b', hb', rfl⟩ := Option.map_eq_some_iff.mp hmap
    exact h.settings key b' hb'
  · intro key t ht
    obtain ⟨r, hr, rfl⟩ := hnow
    rw [hhits, Limiter.recent_recent (ht r hr)]
    exact h.recent key t ht

theorem Tracks.counted (h : Tracks enabled limit requests past m) {now : Rat}
    (hnow : ∃ r ∈ requests, r.now = now) :
    Tracks enabled limit requests past (m.counted every now) := by
  have hcount : ∀ {m : Middleware} (n : Nat), Tracks enabled limit requests past m →
      Tracks enabled limit requests past { m with acceptedSincePrune := n } :=
    fun _ h => ⟨h.enabled_eq, h.limit_eq, h.settings, h.sorted, h.before, h.recent⟩
  unfold Middleware.counted
  dsimp only
  split
  · exact hcount _ ((hcount _ h).prune hnow)
  · exact hcount _ h

/-- The bucket that `dispatch` works on. -/
theorem Tracks.bucket (h : Tracks enabled limit requests past m) (key : Str) :
    (m.buckets key).getD ⟨[], windowSec, m.limit⟩ = ⟨m.hits key, windowSec, limit⟩ := by
  unfold Middleware.hits
  cases hb : m.buckets key with
  | none => rw [h.limit_eq]; rfl
  | some b =>
    obtain ⟨hwindow, hlimit⟩ := h.settings key b hb
    rw [← hwindow, ← hlimit]
    rfl

/-- `allow` answers from the hits in the window, and keeps these and the new one. -/
theorem allow_eq {hits : List Rat} (h : hits.Pairwise (· ≤ ·)) (now : Rat) :
    Bucket.allow ⟨hits, windowSec, limit⟩ now =
      Bucket.verdict ⟨Limiter.recent windowSec now hits, windowSec, limit⟩ now := by
  rw [← Limiter.dropWhile_eq_recent windowSec now h]
  rfl

/-- The hits after `verdict`: the new one is recorded exactly when the answer is to pass. -/
theorem verdict_hits (request : Request) (hits : List Rat) :
    (Bucket.verdict ⟨hits, windowSec, limit⟩ request.now).2 =
      ⟨hits ++ if answerTo limit request hits = .passed then [request.now] else [],
        windowSec, limit⟩ := by
  have hpassed := passed_answerTo limit request hits
  unfold Bucket.verdict
  by_cases h : limit ≤ hits.length
  · rw [decide_eq_false (by omega)] at hpassed
    rw [if_pos h, if_neg (ne_of_beq_false hpassed), List.append_nil]
  · rw [decide_eq_true (by omega)] at hpassed
    rw [if_neg h, if_pos (eq_of_beq hpassed)]

/-- A request that bypasses the limiter changes nothing. -/
theorem dispatch_bypassed (h : m.enabled = enabled) (hb : bucketOf enabled request = none) :
    m.dispatch every request = (.passed, m) := by
  unfold bucketOf at hb
  split at hb
  · rename_i hskip
    unfold Middleware.dispatch
    rw [h, if_pos hskip]
  · cases hb

/-- The hits of a key after its bucket was replaced. -/
theorem hits_put (m : Middleware) (key other : Str) (b : Bucket) :
    Middleware.hits { m with buckets := Function.update m.buckets key (some b) } other =
      if other = key then b.hits else m.hits other := by
  unfold Middleware.hits
  dsimp only
  by_cases h : other = key
  · subst h
    rw [if_pos rfl, Function.update_self]
    rfl
  · rw [if_neg h, Function.update_of_ne h]

/-- The admissions of every key after one more request. -/
def admittedAfter (enabled : Bool) (past : Str → List Rat) (request : Request) (outcome : Outcome)
    (key : Str) : List Rat :=
  past key ++ if bucketOf enabled request = some key ∧ (outcome == .passed) = true
    then [request.now] else []

/-- Recording the answer to a request. -/
theorem Tracks.put (h : Tracks enabled limit requests past m) {key : Str}
    (hclock : ∀ r ∈ requests, r.now ≤ request.now) (hb : bucketOf enabled request = some key)
    {hits : List Rat} (hhits : hits = Limiter.recent windowSec request.now (m.hits key)) :
    Tracks enabled limit (requests ++ [request])
      (admittedAfter enabled past request (answerTo limit request hits))
      { m with
        buckets := Function.update m.buckets key
          (some (Bucket.verdict ⟨hits, windowSec, limit⟩ request.now).2) } := by
  rw [verdict_hits]
  set new := if answerTo limit request hits = .passed then [request.now] else [] with hnew
  have hnow : ∀ s ∈ new, s = request.now := by
    intro s hs
    rw [hnew] at hs
    split at hs
    · exact List.mem_singleton.mp hs
    · cases hs
  have hkept : ∀ s ∈ hits, s ∈ m.hits key := by
    intro s hs
    rw [hhits] at hs
    exact List.mem_of_mem_filter hs
  refine ⟨h.enabled_eq, h.limit_eq, ?_, ?_, ?_, ?_⟩
  · intro other b hother
    rcases update_some_cases hother with ⟨-, rfl⟩ | ⟨-, hold⟩
    · exact ⟨rfl, rfl⟩
    · exact h.settings other b hold
  · intro other
    rw [hits_put]
    split
    · apply List.pairwise_append.mpr
      refine ⟨?_, ?_, ?_⟩
      · rw [hhits]
        exact (h.sorted key).sublist List.filter_sublist
      · rw [hnew]
        split
        · exact List.pairwise_singleton _ _
        · exact List.Pairwise.nil
      · intro s hs t ht
        obtain ⟨r, hr, rfl⟩ := h.before key s (hkept s hs)
        rw [hnow t ht]
        exact hclock r hr
    · exact h.sorted other
  · intro other s hs
    rw [hits_put] at hs
    split at hs
    · obtain hs | hs := List.mem_append.mp hs
      · obtain ⟨r, hr, rfl⟩ := h.before key s (hkept s hs)
        exact ⟨r, List.mem_append_left _ hr, rfl⟩
      · exact ⟨request, by simp, hnow s hs⟩
    · obtain ⟨r, hr, rfl⟩ := h.before other s hs
      exact ⟨r, List.mem_append_left _ hr, rfl⟩
  · intro other t ht
    have hold := h.recent other t fun r hr => ht r (List.mem_append_left _ hr)
    rw [hits_put, admittedAfter, hb, Limiter.recent_append, ← hold]
    by_cases hother : other = key
    · subst hother
      rw [if_pos rfl, Limiter.recent_append, hhits, Limiter.recent_recent (ht request (by simp)),
        ← hhits, hnew]
      simp only [true_and, beq_iff_eq]
    · have hne : ¬ (some key = some other ∧
          (answerTo limit request hits == .passed) = true) := fun hsame =>
        hother (Option.some.inj hsame.1).symm
      rw [if_neg hother, if_neg hne]
      exact (List.append_nil _).symm

/-- One request: it is answered from the admissions of its key, and the buckets follow. -/
theorem Tracks.dispatch (every : Option Nat) (h : Tracks enabled limit requests past m)
    (hclock : ∀ r ∈ requests, r.now ≤ request.now) {key : Str}
    (hb : bucketOf enabled request = some key) :
    (m.dispatch every request).1 =
        answerTo limit request (Limiter.recent windowSec request.now (past key)) ∧
      Tracks enabled limit (requests ++ [request])
        (admittedAfter enabled past request (m.dispatch every request).1)
        (m.dispatch every request).2 := by
  have henabled := h.enabled_eq
  have hlimit := h.limit_eq
  subst henabled hlimit
  have hput := h.put hclock hb rfl
  have hkey : bucketKey request = key ∧ ¬ (!m.enabled || isExcluded request.path) = true := by
    unfold bucketOf at hb
    split at hb
    · cases hb
    · rename_i hlimited
      exact ⟨Option.some.inj hb, hlimited⟩
  unfold Middleware.dispatch
  rw [if_neg hkey.2, hkey.1]
  dsimp only
  rw [h.bucket, allow_eq (h.sorted key), ← h.recent key request.now hclock]
  set hits := Limiter.recent windowSec request.now (m.hits key)
  unfold answerTo at hput ⊢
  cases hverdict : Bucket.verdict ⟨hits, windowSec, m.limit⟩ request.now with
  | mk answer bucket =>
    rw [hverdict] at hput
    dsimp only at hput ⊢
    cases answer with
    | none => exact ⟨rfl, hput⟩
    | some answer =>
      exact ⟨rfl, hput.counted ⟨request, by simp, rfl⟩⟩

/-- A request that bypasses the limiter admits nobody. -/
theorem Tracks.bypassed (h : Tracks enabled limit requests past m) {outcome : Outcome}
    (hb : bucketOf enabled request = none) :
    Tracks enabled limit (requests ++ [request])
      (admittedAfter enabled past request outcome) m := by
  have hsame : admittedAfter enabled past request outcome = past := by
    funext key
    rw [admittedAfter, hb, if_neg (by simp), List.append_nil]
  rw [hsame]
  refine ⟨h.enabled_eq, h.limit_eq, h.settings, h.sorted, ?_, ?_⟩
  · intro key s hs
    obtain ⟨r, hr, hs⟩ := h.before key s hs
    exact ⟨r, List.mem_append_left _ hr, hs⟩
  · intro key t ht
    exact h.recent key t fun r hr => ht r (List.mem_append_left _ hr)

theorem serve_snoc (every : Option Nat) (enabled : Bool) (limit : Nat) (requests : List Request)
    (request : Request) :
    serve every enabled limit (requests ++ [request]) =
      ((serve every enabled limit requests).1 ++
          [(request, ((serve every enabled limit requests).2.dispatch every request).1)],
        ((serve every enabled limit requests).2.dispatch every request).2) :=
  List.foldl_append ..

/-- A whole run writes the ledger of the sliding window, whether it prunes or not. -/
theorem serve_tracks (every : Option Nat) (enabled : Bool) (limit : Nat)
    (hclock : (requests.map Request.now).Pairwise (· ≤ ·)) :
    (serve every enabled limit requests).1 = (limiter enabled limit).ledger requests ∧
      Tracks enabled limit requests
        (fun key => (limiter enabled limit).admitted key ((limiter enabled limit).ledger requests))
        (serve every enabled limit requests).2 := by
  induction requests using List.reverseRecOn with
  | nil => exact ⟨rfl, tracks_init⟩
  | append_singleton requests request ih =>
    rw [List.map_append, List.pairwise_append] at hclock
    obtain ⟨hlog, htracks⟩ := ih hclock.1
    have hbefore : ∀ r ∈ requests, r.now ≤ request.now := fun r hr =>
      hclock.2.2 r.now (List.mem_map_of_mem hr) request.now (by simp)
    rw [serve_snoc, Limiter.ledger_snoc, hlog]
    simp only [Limiter.admitted_snoc]
    cases hb : bucketOf enabled request with
    | none =>
      have hjudge : (limiter enabled limit).judge ((limiter enabled limit).ledger requests) request =
          .passed := by
        rw [Limiter.judge, show (limiter enabled limit).bucket request = none from hb]
        rfl
      rw [dispatch_bypassed htracks.enabled_eq hb, hjudge]
      exact ⟨rfl, htracks.bypassed hb⟩
    | some key =>
      obtain ⟨houtcome, hnext⟩ := htracks.dispatch every hbefore hb
      have hjudge : (limiter enabled limit).judge ((limiter enabled limit).ledger requests) request =
          ((serve every enabled limit requests).2.dispatch every request).1 := by
        rw [(limiter enabled limit).judge_of_bucket hb, houtcome]
        rfl
      rw [hjudge]
      exact ⟨rfl, hnext⟩

/-! ## The limit -/

/-- With a limit of at least one, `self.hits[0]` is only read when there are hits. -/
theorem answerTo_cases (hlimit : 1 ≤ limit) (request : Request) (hits : List Rat) :
    answerTo limit request hits = .passed ∨
      ∃ retry, answerTo limit request hits = .limited limit retry := by
  unfold answerTo Bucket.verdict
  dsimp only
  split
  · rename_i hfull
    cases hits with
    | nil =>
      rw [List.length_nil] at hfull
      omega
    | cons oldest hits => exact Or.inr ⟨_, rfl⟩
  · exact Or.inl rfl

/-- A refusal names the window that was full. -/
theorem limited_of_ledger (hlimit : 1 ≤ limit) {before after : List (Request × Outcome)}
    {outcome : Outcome}
    (hclock : (requests.map Request.now).Pairwise (· ≤ ·))
    (hlog : (limiter enabled limit).ledger requests = before ++ (request, outcome) :: after)
    (hrefused : outcome ≠ .passed) : (∃ retry, outcome = .limited limit retry) ∧
      ∃ key, bucketOf enabled request = some key ∧
        limit ≤ ((admittedTimes enabled key before).filter fun t =>
          decide (request.now - windowSec ≤ t ∧ t ≤ request.now)).length := by
  have hjudge := (limiter enabled limit).judge_of_ledger_eq hlog
  cases hb : bucketOf enabled request with
  | none =>
    rw [Limiter.judge, show (limiter enabled limit).bucket request = none from hb] at hjudge
    exact absurd hjudge hrefused
  | some key =>
    rw [(limiter enabled limit).judge_of_bucket hb] at hjudge
    have hcases := (answerTo_cases hlimit request _).resolve_left (hjudge ▸ hrefused)
    refine ⟨hjudge ▸ hcases, key, rfl, ?_⟩
    exact (limiter enabled limit).window_full hclock hlog hb (beq_false_of_ne hrefused)

/-- The limit as a sliding window: in every closed minute at most `limit` requests of a key are
admitted, a refusal means that `limit` requests of the same key were admitted in the minute up to
it, and neither pruning nor the requests of other keys change any answer. -/
theorem rate_limit_is_sliding_window (enabled : Bool) {limit : Nat} (hlimit : 1 ≤ limit)
    {requests : List Request} (hclock : (requests.map Request.now).Pairwise (· ≤ ·)) :
    let log := (serve (some pruneEvery) enabled limit requests).1
    (∀ key x, ((admittedTimes enabled key log).filter fun t =>
        decide (x ≤ t ∧ t ≤ x + windowSec)).length ≤ limit) ∧
      (∀ before request outcome after, log = before ++ (request, outcome) :: after →
        outcome ≠ .passed → (∃ retry, outcome = .limited limit retry) ∧
          ∃ key, bucketOf enabled request = some key ∧
            limit ≤ ((admittedTimes enabled key before).filter fun t =>
              decide (request.now - windowSec ≤ t ∧ t ≤ request.now)).length) ∧
      log = (serve none enabled limit requests).1 ∧
      ∀ key, log.filter (fun e => bucketOf enabled e.1 = some key) =
        (serve (some pruneEvery) enabled limit
          (requests.filter fun r => bucketOf enabled r = some key)).1 := by
  intro log
  have hlog : log = (limiter enabled limit).ledger requests :=
    (serve_tracks (some pruneEvery) enabled limit hclock).1
  refine ⟨?_, ?_, ?_, ?_⟩
  · intro key
    rw [hlog]
    exact (limiter enabled limit).sparse_admitted key requests
  · intro before request outcome after hsplit hrefused
    rw [hlog] at hsplit
    exact limited_of_ledger hlimit hclock hsplit hrefused
  · rw [hlog, (serve_tracks none enabled limit hclock).1]
  · intro key
    have hown := hclock.sublist
      ((List.filter_sublist (p := fun r => decide (bucketOf enabled r = some key))).map Request.now)
    rw [hlog, (serve_tracks (some pruneEvery) enabled limit hown).1]
    exact (limiter enabled limit).ledger_filter key requests

/-- Two callers who share the limiter, with more requests of the first than it is allowed. -/
def twoCallers : List Request := [
  ⟨"/api/v1/events".toList, some "alpha".toList, none, 0⟩,
  ⟨"/api/v1/events".toList, some "alpha".toList, none, 20⟩,
  ⟨"/api/v1/events".toList, none, some "10.0.0.7".toList, 30⟩,
  ⟨"/api/v1/events".toList, some "alpha".toList, none, 60⟩,
  ⟨"/api/v1/events".toList, some "alpha".toList, none, 61⟩]

theorem twoCallers_limited :
    (twoCallers.map Request.now).Pairwise (· ≤ ·) ∧
      ((admittedTimes true "key:alpha".toList
        (serve (some pruneEvery) true 2 twoCallers).1).filter fun t =>
          decide (0 ≤ t ∧ t ≤ 0 + windowSec)).length ≤ 2 := by
  have hclock : (twoCallers.map Request.now).Pairwise (· ≤ ·) := by
    simp [twoCallers]
    norm_num
  exact ⟨hclock, (rate_limit_is_sliding_window true (by decide) hclock).1 _ 0⟩

end ZaqorinCore.Server.RateLimit
