import ZaqorinCore.Base.Ring
import ZaqorinCore.Server.CspThrottle
import ZaqorinCore.Server.Sources

/-!
# The self-defense stream

The endpoint for CSP reports, `ZaqorinEvent.from_csp_report` and the in-process stream that `emit`
fills. The stream holds the last 4096 events, so that an event is lost when others push it out; the
throttle in front of it is what makes that hard. `stream_eq` says what the stream holds after any
requests, and `report_survives` that no report is pushed out within a minute unless 410 sources take
part.

A handler does not wait between the throttle and `emit`, so that a request is served in one step.
-/

namespace ZaqorinCore.Server.SelfDefense

open Text Base CspThrottle

/-! ## Events -/

structure ZaqorinEvent where
  ts : Str
  eventType : Str
  srcIp : Option Str
  route : Option Str
  status : Option Int
  violatedDirective : Option Str
  deriving DecidableEq

/-- `a or b`, of two values that `dict.get` returned. -/
def firstTruthy (a b : Option Json) : Option Json := if a.any Sources.truthy then a else b

/-- The legacy envelope, or the body itself. -/
def innerReport (body : List (Str × Json)) : List (Str × Json) :=
  match field body "csp-report" with
  | some (.obj inner) => inner
  | _ => body

/-- The directive as the browser has sent it; another type than a text counts as none. -/
def sentDirective (inner : List (Str × Json)) : Str :=
  match firstTruthy (field inner "violated-directive") (field inner "effective-directive") with
  | some (.str s) => s
  | _ => []

/-- The name of the directive. -/
def bareDirective (violated : Str) : Str :=
  let violated := strip (partition ';' violated).1
  if ' ' ∈ violated then strip (partition ' ' violated).1 else violated

/-- `ZaqorinEvent.from_csp_report` -/
def fromCspReport (body : List (Str × Json)) (srcIp : Str) (status : Int) (now : Str) :
    ZaqorinEvent :=
  let violated := bareDirective (sentDirective (innerReport body))
  ⟨now, "csp.violation".toList, some srcIp, some "/api/v1/_csp-report".toList, some status,
    if violated = [] then none else some violated⟩

/-! ## The stream -/

/-- The `maxlen` of `_STREAM`. -/
def streamLen : Nat := 4096

/-- `emit`: the oldest event makes room. -/
def emit (stream : List ZaqorinEvent) (event : ZaqorinEvent) : List ZaqorinEvent :=
  (stream ++ [event]).rtake streamLen

/-- `drain`: the slice `[-max_items:]` of the stream. -/
def drain (stream : List ZaqorinEvent) (maxItems : Int) : List ZaqorinEvent :=
  if 0 < maxItems then stream.rtake maxItems.toNat else stream.drop (-maxItems).toNat

/-! ## The endpoint -/

/-- A request whose body is a JSON object. -/
structure Request where
  transferEncoding : Str
  te : Str
  xTransferEncoding : Str
  contentLength : Option Str
  /-- the header that `ZAQORIN_SRC_IP_HEADER` names, if it names one -/
  forwarded : Option Str
  client : Option Str
  payload : List (Str × Json)
  /-- `time.time()` and `_now_iso()` -/
  now : Rat
  nowIso : Str

/-- `_MAX_BODY_BYTES` -/
def maxBodyBytes : Int := 16 * 1024

/-- `"chunked" in te.lower()`; a header is Latin-1, which has no sigma. -/
def chunked (te : Str) : Bool := contains "chunked".toList (lower (fun _ _ => false) te)

def unknownIp : Str := "<unknown>".toList

def clientIp (request : Request) : Str :=
  match request.client with
  | some host => if host = [] then unknownIp else host
  | none => unknownIp

/-- `_resolve_src_ip` -/
def resolveSrcIp (request : Request) : Str :=
  match request.forwarded with
  | some raw =>
    if raw = [] then clientIp request
    else
      let first := strip (partition ',' raw).1
      if first = [] then unknownIp else first
  | none => clientIp request

/-- The answer to a request whose headers are refused. -/
def refusal (request : Request) : Option Nat :=
  if [request.transferEncoding, request.te, request.xTransferEncoding].any chunked then some 411
  else
    match request.contentLength with
    | none => none
    | some length =>
      match pyInt length with
      | none => some 400
      | some n => if maxBodyBytes < n then some 413 else none

/-- What the process keeps. -/
structure State where
  recent : Recent
  stream : List ZaqorinEvent

def callOf (request : Request) : CspThrottle.Call := ⟨resolveSrcIp request, request.now⟩

def eventOf (request : Request) : ZaqorinEvent :=
  fromCspReport request.payload (resolveSrcIp request) 204 request.nowIso

/-- `receive_csp_report`: the status and the state behind it. -/
def receiveCspReport (s : State) (request : Request) : Nat × State :=
  match refusal request with
  | some status => (status, s)
  | none =>
    let (allowed, recent) := throttleAllowed true s.recent (callOf request)
    if allowed then (204, ⟨recent, emit s.stream (eventOf request)⟩)
    else (429, ⟨recent, s.stream⟩)

def initial : State := ⟨fun _ => none, []⟩

/-- The requests one after the other, with their statuses. -/
def serveAll (requests : List Request) : List (Request × Nat) × State :=
  requests.foldl (fun (log, s) request =>
    let (status, s) := receiveCspReport s request
    (log ++ [(request, status)], s)) ([], initial)

/-- The requests that were accepted. -/
def accepted (log : List (Request × Nat)) : List Request :=
  (log.filter fun e => e.2 == 204).map Prod.fst

/-! ## What one request does -/

section

variable {s : State} {request : Request}

theorem receive_refused {status : Nat} (h : refusal request = some status) :
    receiveCspReport s request = (status, s) := by
  rw [receiveCspReport, h]

theorem receive_throttled (h : refusal request = none)
    (hfull : (throttleAllowed true s.recent (callOf request)).1 = false) :
    receiveCspReport s request =
      (429, ⟨(throttleAllowed true s.recent (callOf request)).2, s.stream⟩) := by
  rw [receiveCspReport, h]
  simp only [hfull, Bool.false_eq_true, if_false]

theorem receive_accepted (h : refusal request = none)
    (hroom : (throttleAllowed true s.recent (callOf request)).1 = true) :
    receiveCspReport s request =
      (204, ⟨(throttleAllowed true s.recent (callOf request)).2,
        emit s.stream (eventOf request)⟩) := by
  rw [receiveCspReport, h]
  simp only [hroom, if_true]

theorem refusal_ne {status : Nat} (h : refusal request = some status) :
    status ≠ 204 ∧ status ≠ 429 := by
  unfold refusal at h
  split at h
  · cases h
    decide
  · split at h
    · cases h
    · split at h
      · cases h
        decide
      · split at h
        · cases h
          decide
        · cases h

end

theorem serveAll_snoc (requests : List Request) (request : Request) :
    serveAll (requests ++ [request]) =
      ((serveAll requests).1 ++ [(request, (receiveCspReport (serveAll requests).2 request).1)],
        (receiveCspReport (serveAll requests).2 request).2) := by
  unfold serveAll
  rw [List.foldl_append]
  rfl

theorem accepted_snoc (log : List (Request × Nat)) (request : Request) (status : Nat) :
    accepted (log ++ [(request, status)]) =
      accepted log ++ if status = 204 then [request] else [] := by
  unfold accepted
  rw [List.filter_append, List.map_append]
  by_cases h : status = 204
  · simp [h]
  · simp [h]

/-- A request that reached the throttle, with whether it was let through. -/
def throttled (e : Request × Nat) : Option (CspThrottle.Call × Bool) :=
  if e.2 = 204 then some (callOf e.1, true)
  else if e.2 = 429 then some (callOf e.1, false)
  else none

/-- The calls of the throttle that the requests make. -/
def throttleLog (log : List (Request × Nat)) : List (CspThrottle.Call × Bool) :=
  log.filterMap throttled

theorem throttleLog_snoc (log : List (Request × Nat)) (e : Request × Nat) :
    throttleLog (log ++ [e]) = throttleLog log ++ (throttled e).toList := by
  rw [throttleLog, List.filterMap_append]
  cases h : throttled e with
  | none => rw [List.filterMap_cons_none h]; rfl
  | some x => rw [List.filterMap_cons_some h]; rfl

/-! ## What the stream holds -/

theorem emit_stream {stream events : List ZaqorinEvent} (h : stream = events.rtake streamLen)
    (event : ZaqorinEvent) : emit stream event = (events ++ [event]).rtake streamLen := by
  unfold emit
  rw [h, rtake_rtake_concat]

/-- The invariant of a run. -/
structure Spec (requests : List Request) : Prop where
  requests_eq : (serveAll requests).1.map Prod.fst = requests
  throttle : serve true ((throttleLog (serveAll requests).1).map Prod.fst) =
    (throttleLog (serveAll requests).1, (serveAll requests).2.recent)
  stream : (serveAll requests).2.stream =
    ((accepted (serveAll requests).1).map eventOf).rtake streamLen

/-- A request that reaches the throttle. -/
theorem spec_throttled {requests : List Request} (h : Spec requests) {request : Request}
    {allowed : Bool} {recent : Recent}
    (hcall : throttleAllowed true (serveAll requests).2.recent (callOf request) =
      (allowed, recent)) :
    serve true ((throttleLog (serveAll requests).1 ++ [(callOf request, allowed)]).map Prod.fst) =
      (throttleLog (serveAll requests).1 ++ [(callOf request, allowed)], recent) := by
  rw [List.map_append, List.map_singleton, serve_snoc, h.throttle, hcall]

theorem spec_serveAll (requests : List Request) : Spec requests := by
  induction requests using List.reverseRecOn with
  | nil => exact ⟨rfl, rfl, rfl⟩
  | append_singleton requests request ih =>
    have hfst : ∀ status, ((serveAll requests).1 ++ [(request, status)]).map Prod.fst =
        requests ++ [request] := fun status => by
      rw [List.map_append, ih.requests_eq]
      rfl
    rcases hrefusal : refusal request with _ | status
    · rcases hcall : throttleAllowed true (serveAll requests).2.recent (callOf request) with
        ⟨_ | _, recent⟩
      · have hreceive := receive_throttled hrefusal (congrArg Prod.fst hcall)
        constructor
        · rw [serveAll_snoc]
          exact hfst _
        · rw [serveAll_snoc, hreceive, throttleLog_snoc, hcall]
          exact spec_throttled ih hcall
        · rw [serveAll_snoc, hreceive, accepted_snoc, if_neg (by decide : (429 : Nat) ≠ 204),
            List.append_nil]
          exact ih.stream
      · have hreceive := receive_accepted hrefusal (congrArg Prod.fst hcall)
        constructor
        · rw [serveAll_snoc]
          exact hfst _
        · rw [serveAll_snoc, hreceive, throttleLog_snoc, hcall]
          exact spec_throttled ih hcall
        · rw [serveAll_snoc, hreceive, accepted_snoc, if_pos rfl, List.map_append,
            List.map_singleton, ← emit_stream ih.stream]
    · have hreceive := receive_refused (s := (serveAll requests).2) hrefusal
      obtain ⟨hother, hthrottled⟩ := refusal_ne hrefusal
      have hnone : throttled (request, status) = none := by
        rw [throttled, if_neg hother, if_neg hthrottled]
      constructor
      · rw [serveAll_snoc]
        exact hfst _
      · rw [serveAll_snoc, hreceive, throttleLog_snoc, hnone, Option.toList_none, List.append_nil]
        exact ih.throttle
      · rw [serveAll_snoc, hreceive, accepted_snoc, if_neg hother, List.append_nil]
        exact ih.stream

/-- The stream holds the last 4096 of the reports that were answered with 204, in their order. -/
theorem stream_eq (requests : List Request) :
    (serveAll requests).2.stream =
      ((accepted (serveAll requests).1).map eventOf).rtake streamLen :=
  (spec_serveAll requests).stream

/-- A snapshot of a positive size is of the last of these reports; that of size 0 is all of them. -/
theorem drain_eq (requests : List Request) (maxItems : Int) (h : 0 ≤ maxItems) :
    drain (serveAll requests).2.stream maxItems =
      ((accepted (serveAll requests).1).map eventOf).rtake
        (if maxItems = 0 then streamLen else min maxItems.toNat streamLen) := by
  rw [stream_eq, drain]
  by_cases hzero : maxItems = 0
  · subst hzero
    rw [if_neg (lt_irrefl _), if_pos rfl, neg_zero, Int.toNat_zero, List.drop_zero]
  · rw [if_pos (lt_of_le_of_ne h (Ne.symm hzero)), if_neg hzero, rtake_rtake]

/-! ## How long an event stays -/

/-- At most `k` items of each kind make at most `k` times as many items as kinds. -/
theorem length_le_mul_card {α κ : Type} [DecidableEq κ] (kind : α → κ) (k : Nat) (xs : List α)
    (h : ∀ a, (xs.filter fun x => decide (kind x = a)).length ≤ k) :
    xs.length ≤ k * (xs.map kind).toFinset.card := by
  have hcount : ∀ a, (xs.map kind).count a ≤ k := fun a => by
    rw [List.count_eq_countP, List.countP_map, List.countP_eq_length_filter]
    exact h a
  calc xs.length = ∑ a ∈ (xs.map kind).toFinset, (xs.map kind).count a := by
        rw [List.sum_toFinset_count_eq_length, List.length_map]
    _ ≤ ∑ _a ∈ (xs.map kind).toFinset, k := Finset.sum_le_sum fun a _ => hcount a
    _ = k * (xs.map kind).toFinset.card := by rw [Finset.sum_const, smul_eq_mul, Nat.mul_comm]

theorem accepted_append (a b : List (Request × Nat)) :
    accepted (a ++ b) = accepted a ++ accepted b := by
  unfold accepted
  rw [List.filter_append, List.map_append]

/-- The accepted requests of a source are the calls that the throttle let through for it. -/
theorem admittedTimes_throttleLog (ip : Str) (log : List (Request × Nat)) :
    admittedTimes ip (throttleLog log) =
      ((accepted log).filter fun r => decide (resolveSrcIp r = ip)).map Request.now := by
  induction log using List.reverseRecOn with
  | nil => rfl
  | append_singleton log e ih =>
    obtain ⟨request, status⟩ := e
    have hsplit : ∀ x, admittedTimes ip (throttleLog log ++ x) =
        admittedTimes ip (throttleLog log) ++ admittedTimes ip x := fun x => by
      unfold admittedTimes
      rw [List.filter_append, List.map_append]
    rw [throttleLog_snoc, accepted_snoc, hsplit, ih, List.filter_append, List.map_append]
    congr 1
    by_cases haccepted : status = 204
    · by_cases hip : resolveSrcIp request = ip
      · simp [throttled, haccepted, admittedTimes, callOf, hip]
      · simp [throttled, haccepted, admittedTimes, callOf, hip]
    · by_cases hthrottled : status = 429
      · simp [throttled, hthrottled, admittedTimes]
      · simp [throttled, haccepted, hthrottled, admittedTimes]

/-- The calls of the throttle come in the order of the requests. -/
theorem throttle_times (log : List (Request × Nat)) :
    (((throttleLog log).map Prod.fst).map CspThrottle.Call.now).Sublist
      (log.map fun e => e.1.now) := by
  induction log with
  | nil => exact List.Sublist.slnil
  | cons e log ih =>
    unfold throttleLog at ih ⊢
    cases h : throttled e with
    | none =>
      rw [List.filterMap_cons_none h]
      exact ih.cons _
    | some call =>
      have hnow : call.1.now = e.1.now := by
        unfold throttled at h
        split at h
        · cases h
          rfl
        · split at h
          · cases h
            rfl
          · cases h
      rw [List.filterMap_cons_some h, List.map_cons, List.map_cons, List.map_cons, hnow]
      exact ih.cons_cons _

theorem times_eq (requests : List Request) :
    (serveAll requests).1.map (fun e => e.1.now) = requests.map Request.now := by
  rw [← congrArg (List.map Request.now) (spec_serveAll requests).requests_eq, List.map_map]
  rfl

/-- A minute lets at most ten reports of a source through. -/
theorem accepted_sparse {requests : List Request}
    (hclock : (requests.map Request.now).Pairwise (· ≤ ·)) (ip : Str) :
    Limiter.Sparse throttleWindowSec throttleBudget
      (((accepted (serveAll requests).1).filter fun r => decide (resolveSrcIp r = ip)).map
        Request.now) := by
  have hspec := spec_serveAll requests
  have htimes :
      (((throttleLog (serveAll requests).1).map Prod.fst).map CspThrottle.Call.now).Pairwise
        (· ≤ ·) := by
    refine List.Pairwise.sublist (throttle_times _) ?_
    rw [times_eq]
    exact hclock
  have hledger := (serve_follows true htimes).1
  rw [hspec.throttle] at hledger
  dsimp only at hledger
  rw [← admittedTimes_throttleLog, hledger, ← admitted_eq]
  exact limiter.sparse_admitted ip _

/-- The accepted requests of a minute are at most ten times as many as their sources. -/
theorem accepted_le {requests : List Request}
    (hclock : (requests.map Request.now).Pairwise (· ≤ ·)) {before after : List (Request × Nat)}
    (hlog : (serveAll requests).1 = before ++ after) {x : Rat}
    (hminute : ∀ e ∈ after, x ≤ e.1.now ∧ e.1.now ≤ x + throttleWindowSec) :
    (accepted after).length ≤
      throttleBudget * ((accepted after).map resolveSrcIp).toFinset.card := by
  refine length_le_mul_card resolveSrcIp throttleBudget _ fun ip => ?_
  have hsparse := accepted_sparse hclock ip x
  rw [hlog, accepted_append, List.filter_append, List.map_append, List.filter_append,
    List.length_append] at hsparse
  have hall : ((((accepted after).filter fun r => decide (resolveSrcIp r = ip)).map
      Request.now).filter fun t => decide (x ≤ t ∧ t ≤ x + throttleWindowSec)).length =
      ((accepted after).filter fun r => decide (resolveSrcIp r = ip)).length := by
    rw [List.filter_eq_self.mpr, List.length_map]
    intro t ht
    obtain ⟨r, hr, rfl⟩ := List.mem_map.mp ht
    obtain ⟨e, he, rfl⟩ := List.mem_map.mp (List.mem_of_mem_filter hr)
    exact decide_eq_true (hminute e (List.mem_of_mem_filter he))
  omega

/-- The last items of a list keep a short end of it. -/
theorem suffix_rtake {α : Type} {n : Nat} (xs : List α) {ys : List α} (h : ys.length ≤ n) :
    ys <:+ (xs ++ ys).rtake n := by
  unfold List.rtake
  rw [List.drop_append_of_le_length (by rw [List.length_append]; omega)]
  exact List.suffix_append _ _

/-- A report that was accepted is still in the stream, with all that came after it, for a minute, as
long as fewer than 410 sources report in it. -/
theorem report_survives {requests : List Request}
    (hclock : (requests.map Request.now).Pairwise (· ≤ ·)) {before after : List (Request × Nat)}
    {request : Request} (hlog : (serveAll requests).1 = before ++ (request, 204) :: after)
    (hminute : ∀ e ∈ after, e.1.now ≤ request.now + throttleWindowSec)
    (hfew : ((accepted ((request, 204) :: after)).map resolveSrcIp).toFinset.card < 410) :
    (accepted ((request, 204) :: after)).map eventOf <:+ (serveAll requests).2.stream := by
  have hlater : ∀ e ∈ (request, 204) :: after,
      request.now ≤ e.1.now ∧ e.1.now ≤ request.now + throttleWindowSec := by
    have hsorted : ((serveAll requests).1.map fun e => e.1.now).Pairwise (· ≤ ·) := by
      rw [times_eq]
      exact hclock
    rw [hlog, List.map_append, List.map_cons] at hsorted
    have hafter := (List.pairwise_cons.mp (List.pairwise_append.mp hsorted).2.1).1
    intro e he
    rcases List.mem_cons.mp he with rfl | he
    · refine ⟨le_refl _, ?_⟩
      have hwidth : (0 : Rat) ≤ throttleWindowSec := by decide
      linarith
    · exact ⟨hafter _ (List.mem_map_of_mem he), hminute e he⟩
  have hcount := accepted_le hclock hlog hlater
  have hbudget : throttleBudget = 10 := rfl
  have hlength : ((accepted ((request, 204) :: after)).map eventOf).length ≤ streamLen := by
    rw [List.length_map]
    rw [hbudget] at hcount
    have hstream : streamLen = 4096 := rfl
    omega
  rw [stream_eq, hlog, accepted_append, List.map_append]
  exact suffix_rtake _ hlength

def sampleRequest (client : String) (now : Rat) : Request :=
  ⟨[], [], [], some "2".toList, none, some client.toList, [], now, []⟩

def sampleRequests : List Request :=
  [sampleRequest "203.0.113.5" 0, sampleRequest "198.51.100.7" 60]

theorem survives_sample :
    (accepted ((sampleRequest "203.0.113.5" 0, 204) ::
        [(sampleRequest "198.51.100.7" 60, 204)])).map eventOf <:+
      (serveAll sampleRequests).2.stream := by
  have hlog : (serveAll sampleRequests).1 = [] ++ (sampleRequest "203.0.113.5" 0, 204) ::
      [(sampleRequest "198.51.100.7" 60, 204)] := rfl
  refine report_survives ?_ hlog ?_ (by decide)
  · simp [sampleRequests, sampleRequest]
  · intro e he
    rw [List.mem_singleton.mp he]
    norm_num [sampleRequest, throttleWindowSec]

end ZaqorinCore.Server.SelfDefense
