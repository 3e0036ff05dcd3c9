import ZaqorinCore.Agent.EfsmIsolation

/-!
# The HTTP events of a connection

A connection shows a `CanaryTouch` at its request line and an `HTTPRequest` when it closes. Its
record never goes back to the initial state, so each of them comes once at most, and the request
last: `http_events_once`.
-/

namespace ZaqorinCore.Agent.Efsm

open ZaqorinCore.Base ZaqorinCore.Text ZaqorinCore.Agent.Decode ZaqorinCore.Agent.Engine

/-! ## At most one of each -/

/-- The kinds of the HTTP events, in order. -/
def httpKinds (events : List Event) : List UInt8 :=
  (events.map Event.kind).filter fun k => k == eventCanaryTouch || k == eventHTTPRequest

/-- The HTTP events that a connection may still show. -/
def remaining : ConnState → List UInt8
  | .init => [eventCanaryTouch, eventHTTPRequest]
  | .httpRequest => [eventCanaryTouch, eventHTTPRequest]
  | .httpHeaders => [eventHTTPRequest]
  | .httpBody => [eventHTTPRequest]
  | .wsFrame => []
  | .closed => []

/-- The events about a connection that a sequence of calls emits, from an empty table. -/
def eventsAbout (conn : ConnKey) (calls : List Packet) : List Event :=
  ((feedAll emptyTable calls).flatMap fun o => o.2.events).filter fun e => e.subject = conn

/-- At most one touch and one request, the touch before the request, and neither after it. -/
structure HttpOnce (events : List Event) : Prop where
  touch : (events.filter fun e => e.kind = eventCanaryTouch).length ≤ 1
  request : (events.filter fun e => e.kind = eventHTTPRequest).length ≤ 1
  first : ∀ before e after, events = before ++ e :: after → e.kind = eventHTTPRequest →
    (∃ e' ∈ events, e'.kind = eventCanaryTouch) → ∃ e' ∈ before, e'.kind = eventCanaryTouch
  last : ∀ before e after, events = before ++ e :: after → e.kind = eventHTTPRequest →
    ∀ e' ∈ after, e'.kind ≠ eventCanaryTouch ∧ e'.kind ≠ eventHTTPRequest

theorem httpKinds_append (a b : List Event) : httpKinds (a ++ b) = httpKinds a ++ httpKinds b := by
  unfold httpKinds
  rw [List.map_append, List.filter_append]

theorem count_httpKinds {events : List Event} {k : UInt8}
    (hk : k = eventCanaryTouch ∨ k = eventHTTPRequest) :
    (events.filter fun e => e.kind = k).length = (httpKinds events).count k := by
  have hkind : (k == eventCanaryTouch || k == eventHTTPRequest) = true := by simpa using hk
  induction events with
  | nil => rfl
  | cons e rest ih =>
    have hsplit : httpKinds (e :: rest) = httpKinds [e] ++ httpKinds rest :=
      httpKinds_append [e] rest
    rw [hsplit, List.count_append, ← ih, List.filter_cons]
    by_cases he : e.kind = k
    · have hone : httpKinds [e] = [k] := by
        show List.filter _ [e.kind] = [k]
        simp only [he, List.filter_cons, hkind, if_true, List.filter_nil]
      rw [hone, if_pos (by simpa using he), List.length_cons, List.count_singleton_self]
      omega
    · have hnone : (httpKinds [e]).count k = 0 := by
        apply List.count_eq_zero_of_not_mem
        intro hmem
        obtain ⟨hmem, -⟩ := List.mem_filter.mp hmem
        exact he (List.mem_singleton.mp hmem).symm
      rw [hnone, if_neg (by simpa using he), Nat.zero_add]

theorem mem_httpKinds {events : List Event} {e : Event} (he : e ∈ events)
    (hkind : e.kind = eventCanaryTouch ∨ e.kind = eventHTTPRequest) :
    e.kind ∈ httpKinds events := by
  unfold httpKinds
  rw [List.mem_filter]
  exact ⟨List.mem_map_of_mem he, by simpa using hkind⟩

/-- What is left to show is at most one of each. -/
theorem HttpOnce.of_sublist {events : List Event}
    (h : (httpKinds events).Sublist [eventCanaryTouch, eventHTTPRequest]) : HttpOnce events := by
  have htouch : [eventCanaryTouch, eventHTTPRequest].count eventCanaryTouch = 1 := rfl
  have hrequest : [eventCanaryTouch, eventHTTPRequest].count eventHTTPRequest = 1 := rfl
  -- nothing of either kind comes after a request
  have hlast : ∀ before e after, events = before ++ e :: after → e.kind = eventHTTPRequest →
      httpKinds after = [] := by
    rintro before e after rfl he
    have hsplit : httpKinds (before ++ e :: after) =
        httpKinds before ++ eventHTTPRequest :: httpKinds after := by
      rw [httpKinds_append]
      show _ ++ List.filter _ (e.kind :: _) = _
      rw [he]
      rfl
    rw [hsplit] at h
    have hlong := h.length_le
    have htail : (eventHTTPRequest :: httpKinds after).Sublist
        [eventCanaryTouch, eventHTTPRequest] := (List.sublist_append_right _ _).trans h
    have hshort : (eventHTTPRequest :: httpKinds after).Sublist [eventHTTPRequest] := by
      cases htail with
      | cons _ hskip => exact hskip
    have := hshort.length_le
    rw [List.length_cons, List.length_singleton] at this
    exact List.eq_nil_of_length_eq_zero (by omega)
  refine ⟨?_, ?_, ?_, ?_⟩
  · rw [count_httpKinds (Or.inl rfl), ← htouch]
    exact h.count_le _
  · rw [count_httpKinds (Or.inr rfl), ← hrequest]
    exact h.count_le _
  · intro before e after hsplit he htouched
    obtain ⟨e', hmem, he'⟩ := htouched
    have hafter := hlast before e after hsplit he
    rw [hsplit] at hmem
    rcases List.mem_append.mp hmem with hmem | hmem
    · exact ⟨e', hmem, he'⟩
    · rcases List.mem_cons.mp hmem with rfl | hmem
      · rw [he] at he'
        cases he'
      · have := mem_httpKinds hmem (Or.inl he')
        rw [hafter] at this
        cases this
  · intro before e after hsplit he e' hmem
    have hafter := hlast before e after hsplit he
    constructor
    · intro hkind
      have := mem_httpKinds hmem (Or.inl hkind)
      rw [hafter] at this
      cases this
    · intro hkind
      have := mem_httpKinds hmem (Or.inr hkind)
      rw [hafter] at this
      cases this

/-! ## What one packet uses up -/

/-- The header block shows nothing itself, and ends in the headers or in the body. -/
theorem feedHeaders_remaining {record : ConnRecord} (hstate : record.state = .httpHeaders)
    (payload : Bytes) (emitted : List Event) :
    (feedHeaders record payload emitted).2.events = emitted ∧
      remaining (feedHeaders record payload emitted).1.state = [eventHTTPRequest] := by
  unfold feedHeaders endHeaders
  split
  · exact ⟨rfl, by rw [hstate]; rfl⟩
  · refine ⟨rfl, ?_⟩
    split
    · rfl
    · rw [hstate]
      rfl
  · split
    · exact ⟨rfl, by rw [hstate]; rfl⟩
    · refine ⟨rfl, ?_⟩
      split <;> rfl

theorem feedHeaders_touched {record : ConnRecord} (hstate : record.state = .httpHeaders)
    (payload : Bytes) {touch : Event} (htouch : touch.kind = eventCanaryTouch) :
    (httpKinds (feedHeaders record payload [touch]).2.events ++
      remaining (feedHeaders record payload [touch]).1.state).Sublist
        [eventCanaryTouch, eventHTTPRequest] := by
  obtain ⟨hevents, hleft⟩ := feedHeaders_remaining hstate payload [touch]
  have hkinds : httpKinds [touch] = [eventCanaryTouch] := by
    show List.filter _ [touch.kind] = _
    rw [htouch]
    rfl
  rw [hevents, hleft, hkinds]
  exact List.Sublist.refl _

theorem feedRequest_remaining {record : ConnRecord} (hwait : record.Waiting) (payload : Bytes) :
    (httpKinds (feedRequest record payload).2.events ++
      remaining (feedRequest record payload).1.state).Sublist
        [eventCanaryTouch, eventHTTPRequest] := by
  have hfull : remaining record.state = [eventCanaryTouch, eventHTTPRequest] := by
    rcases hwait with hstate | hstate
    · rw [hstate]
      rfl
    · rw [hstate]
      rfl
  unfold feedRequest
  split
  · exact List.Sublist.cons _ (List.Sublist.refl _)
  · split
    · rw [hfull]
      exact List.Sublist.refl _
    · split
      · rw [hfull]
        exact List.Sublist.refl _
      · dsimp only
        split
        · rw [hfull]
          exact List.Sublist.refl _
        · exact feedHeaders_touched rfl payload rfl

/-- The events of a packet and those that its connection may show after it are among those that it
might have shown before. -/
theorem serve_remaining (record : ConnRecord) (ev : L4Event) :
    (httpKinds (serve record ev).2.events ++ remaining (serve record ev).1.state).Sublist
      (remaining record.state) := by
  unfold serve
  split
  · exact List.Sublist.refl _
  split
  · exact List.Sublist.refl _
  unfold feedProto
  split
  · by_cases hpayload : ev.payload = []
    · unfold feedHTTP
      rw [if_pos hpayload]
      exact List.Sublist.refl _
    cases hstate : record.state with
    | init =>
      rw [feedHTTP_of_waiting (Or.inl hstate) hpayload]
      exact feedRequest_remaining (Or.inl hstate) ev.payload
    | httpRequest =>
      rw [feedHTTP_of_waiting (Or.inr hstate) hpayload]
      exact feedRequest_remaining (Or.inr hstate) ev.payload
    | httpHeaders =>
      obtain ⟨hevents, hleft⟩ := feedHeaders_remaining hstate ev.payload []
      unfold feedHTTP
      rw [if_neg hpayload, hstate]
      dsimp only
      rw [hevents, hleft]
      exact List.Sublist.refl _
    | httpBody =>
      unfold feedHTTP
      rw [if_neg hpayload, hstate]
      dsimp only
      split
      · exact List.Sublist.refl _
      · rw [hstate]
        exact List.Sublist.refl _
    | wsFrame =>
      unfold feedHTTP
      rw [if_neg hpayload, hstate]
      dsimp only
      rw [hstate]
      exact List.Sublist.refl _
    | closed =>
      unfold feedHTTP
      rw [if_neg hpayload, hstate]
      dsimp only
      rw [hstate]
      exact List.Sublist.refl _
  · unfold feedWS
    split
    · exact List.Sublist.refl _
    · exact List.nil_sublist _
  · exact List.Sublist.refl _

/-! ## Whole sequences of calls -/

/-- In a run from any sound table, a connection shows no more than its record allows. -/
theorem Sound.feedAll_remaining {t : Table} (h : Sound t) (calls : List Packet) (conn : ConnKey) :
    (httpKinds (((Efsm.feedAll t calls).flatMap fun o => o.2.events).filter fun e =>
      e.subject = conn)).Sublist (remaining (view t conn).state) := by
  rw [filter_events conn fun o ho e he => h.feedAll_subject ho he]
  induction calls generalizing t with
  | nil => exact List.nil_sublist _
  | cons call rest ih =>
    obtain ⟨key, ev⟩ := call
    rw [Efsm.feedAll]
    rcases h.feed_or_full key ev with ⟨hsound, hout, hself, hother⟩ | hfull
    · have hrest := ih hsound
      by_cases hown : key = conn
      · subst hown
        rw [hself] at hrest
        simp only [List.filter_cons, decide_true, if_true, List.map_cons, List.flatMap_cons,
          httpKinds_append]
        rw [hout]
        exact ((List.Sublist.refl _).append hrest).trans (serve_remaining _ ev)
      · rw [hother conn (Ne.symm hown)] at hrest
        simpa only [List.filter_cons, hown, decide_false, Bool.false_eq_true, if_false] using hrest
    · rw [hfull]
      have hrest := ih h
      by_cases hown : key = conn
      · simpa only [List.filter_cons, hown, decide_true, if_true, List.map_cons, List.flatMap_cons,
          List.nil_append] using hrest
      · simpa only [List.filter_cons, hown, decide_false, Bool.false_eq_true, if_false] using hrest

/-- In every sequence of calls of `Feed`, whatever the packets and the other connections, at most
one `CanaryTouch` and one `HTTPRequest` are emitted about a connection, the touch first, and
neither of them after the request. -/
theorem http_events_once (conn : ConnKey) (calls : List Packet) :
    HttpOnce (eventsAbout conn calls) := by
  have habsent : view emptyTable conn = freshRecord conn :=
    sound_emptyTable.view_of_absent fun s h => nomatch h
  have hrun := sound_emptyTable.feedAll_remaining calls conn
  rw [habsent] at hrun
  exact HttpOnce.of_sublist hrun

end ZaqorinCore.Agent.Efsm
