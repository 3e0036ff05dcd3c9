import ZaqorinCore.Agent.Efsm

/-!
# Malformed packets

The package comment promises that malformed input "produces ErrMalformedInput and clears the
connection state". The request line is checked before anything is emitted or moved on, so a bad
request line leaves the connection as a fresh one. A bad `Content-Length` is found after the
connection has reached its headers: `feed_strict_iff` says that this is the one exception.
-/

namespace ZaqorinCore.Agent.Efsm

open ZaqorinCore.Base ZaqorinCore.Text ZaqorinCore.Agent.Decode ZaqorinCore.Agent.Engine

/-! ## Finding the record again -/

/-- The record of a connection that was not seen before. -/
def freshRecord (conn : ConnKey) : ConnRecord := { key := conn, used := true }

theorem taken_update {t : Table} {s : Fin tableSize} {record : ConnRecord}
    (hused : record.used = true) :
    taken (Function.update t s record) = Function.update (taken t) s (some record.key) := by
  funext s'
  by_cases hs : s' = s
  · subst hs
    simp [taken, hused]
  · simp [taken, Function.update_of_ne hs]

theorem admits_of_slotOf {t : Table} {conn : ConnKey} {s : Fin tableSize}
    (h : slotOf t conn = some s) : taken t s = none ∨ taken t s = some conn := by
  unfold slotOf at h
  exact admits_of_locate h

theorem claimed_key {t : Table} {conn : ConnKey} {s : Fin tableSize}
    (h : slotOf t conn = some s) :
    (claimed (t s) conn).key = conn ∧ (claimed (t s) conn).used = true := by
  have hadmits := admits_of_slotOf h
  unfold claimed
  by_cases hused : (t s).used = true
  · simp only [taken, hused, if_true, reduceCtorEq, Option.some.injEq, false_or] at hadmits
    rw [if_pos hused]
    exact ⟨hadmits, hused⟩
  · rw [if_neg hused]
    exact ⟨rfl, rfl⟩

/-- A record that was written for a connection is found in its slot. -/
theorem slotOf_update_self {t : Table} {conn : ConnKey} {s : Fin tableSize} {record : ConnRecord}
    (h : slotOf t conn = some s) (hkey : record.key = conn) (hused : record.used = true) :
    slotOf (Function.update t s record) conn = some s := by
  unfold slotOf at h ⊢
  rw [taken_update hused, hkey]
  exact locate_update_self h

theorem slotOf_emptyTable (conn : ConnKey) : ∃ s, slotOf emptyTable conn = some s := by
  cases h : slotOf emptyTable conn with
  | some s => exact ⟨s, rfl⟩
  | none =>
    unfold slotOf at h
    obtain ⟨other, _, htaken⟩ := taken_of_locate_eq_none h ⟨0, tableSize_pos⟩
    cases htaken

/-! ## What a record is for -/

theorem endHeaders_key (record : ConnRecord) (payload : Bytes) :
    (endHeaders record payload).key = record.key ∧
      (endHeaders record payload).used = record.used := by
  unfold endHeaders
  split <;> exact ⟨rfl, rfl⟩

theorem feedHeaders_key (record : ConnRecord) (payload : Bytes) (emitted : List Event) :
    (feedHeaders record payload emitted).1.key = record.key ∧
      (feedHeaders record payload emitted).1.used = record.used := by
  unfold feedHeaders
  split
  · exact ⟨rfl, rfl⟩
  · exact endHeaders_key record payload
  · split
    · exact ⟨rfl, rfl⟩
    · exact endHeaders_key _ payload

theorem feedRequest_key (record : ConnRecord) (payload : Bytes) :
    (feedRequest record payload).1.key = record.key ∧
      (feedRequest record payload).1.used = record.used := by
  unfold feedRequest
  split
  · exact ⟨rfl, rfl⟩
  · split
    · exact ⟨rfl, rfl⟩
    · split
      · exact ⟨rfl, rfl⟩
      · dsimp only
        split
        · exact ⟨rfl, rfl⟩
        · exact feedHeaders_key _ payload _

/-- A packet leaves the key of its record as it is. -/
theorem feedProto_key (record : ConnRecord) (ev : L4Event) :
    (feedProto record ev).1.key = record.key ∧ (feedProto record ev).1.used = record.used := by
  unfold feedProto
  split
  · unfold feedHTTP
    split
    · exact ⟨rfl, rfl⟩
    · split
      · exact feedRequest_key record ev.payload
      · exact feedRequest_key record ev.payload
      · exact feedHeaders_key record ev.payload []
      · split <;> exact ⟨rfl, rfl⟩
      · exact ⟨rfl, rfl⟩
      · exact ⟨rfl, rfl⟩
  · unfold feedWS
    split <;> exact ⟨rfl, rfl⟩
  · exact ⟨rfl, rfl⟩

/-! ## Connections that wait for a request -/

/-- The connection waits for a request line. -/
def ConnRecord.Waiting (record : ConnRecord) : Prop :=
  record.state = .init ∨ record.state = .httpRequest

theorem feedHeaders_output (record other : ConnRecord) (payload : Bytes) (emitted : List Event) :
    (feedHeaders record payload emitted).2 = (feedHeaders other payload emitted).2 := by
  unfold feedHeaders
  split
  · rfl
  · rfl
  · split <;> rfl

theorem feedRequest_output {record other : ConnRecord} (hkey : record.key = other.key)
    (payload : Bytes) : (feedRequest record payload).2 = (feedRequest other payload).2 := by
  unfold feedRequest
  split
  · rw [hkey]
  · split
    · rfl
    · split
      · rfl
      · dsimp only
        split
        · rfl
        · rw [hkey]
          exact feedHeaders_output _ _ payload _

theorem feedHTTP_of_waiting {record : ConnRecord} (hwait : record.Waiting) {ev : L4Event}
    (hpayload : ev.payload ≠ []) : feedHTTP record ev = feedRequest record ev.payload := by
  unfold feedHTTP
  rw [if_neg hpayload]
  rcases hwait with hstate | hstate
  · rw [hstate]
  · rw [hstate]

/-- Two connections of one key that wait for a request answer a packet alike. -/
theorem feedProto_output_of_waiting {record other : ConnRecord} (hkey : record.key = other.key)
    (hwait : record.Waiting) (hother : other.Waiting) (ev : L4Event) :
    (feedProto record ev).2 = (feedProto other ev).2 := by
  unfold feedProto
  split
  · by_cases hpayload : ev.payload = []
    · simp only [feedHTTP, hpayload, if_true]
    · rw [feedHTTP_of_waiting hwait hpayload, feedHTTP_of_waiting hother hpayload]
      exact feedRequest_output hkey ev.payload
  · unfold feedWS
    rw [hkey]
    split <;> rfl
  · rfl

/-! ## Where malformed input is found -/

theorem readDigits_eq_none_iff (n : UInt32) (digits : Bytes) :
    readDigits n digits = none ↔ ∃ c ∈ digits, c < 48 ∨ 57 < c := by
  induction digits generalizing n with
  | nil => simp [readDigits]
  | cons c rest ih =>
    rw [readDigits]
    split
    · rename_i hbad
      exact iff_of_true rfl ⟨c, List.mem_cons_self, hbad⟩
    · rename_i hgood
      rw [ih]
      simp [hgood]

/-- The value of `Content-Length` is there and is no number. -/
def BadLength (payload : Bytes) : Prop :=
  ∃ digits, lengthField payload = .value digits ∧ ∃ c ∈ digits, c < 48 ∨ 57 < c

theorem feedHeaders_malformed_iff (record : ConnRecord) (payload : Bytes) (emitted : List Event) :
    (feedHeaders record payload emitted).2.fault = some .malformedInput ↔ BadLength payload := by
  unfold feedHeaders BadLength
  cases hfield : lengthField payload with
  | absent => simp
  | cut => simp
  | value digits =>
    simp only [LengthField.value.injEq, exists_eq_left', ← readDigits_eq_none_iff 0]
    cases readDigits 0 digits <;> simp

/-- A bad length leaves the record alone and takes nothing back. -/
theorem feedHeaders_of_badLength (record : ConnRecord) {payload : Bytes} (h : BadLength payload)
    (emitted : List Event) :
    feedHeaders record payload emitted =
      (record, ⟨emitted, emitted.length, some .malformedInput⟩) := by
  obtain ⟨digits, hfield, hbad⟩ := h
  have hnone := (readDigits_eq_none_iff 0 digits).mpr hbad
  simp only [feedHeaders, hfield, hnone]

/-- The request line is complete: a method of at most eight bytes and a second space. -/
def CompleteLine (payload : Bytes) : Prop :=
  looksLikeHTTPRequestLine payload = true ∧ ∃ sp ≤ 8, indexByte space payload = some sp ∧
    (indexByte space (payload.drop (sp + 1))).isSome = true

/-- A bad request line leaves a waiting connection waiting and emits nothing; a complete one puts
the connection into its headers. -/
theorem feedRequest_cases {record : ConnRecord} (hwait : record.Waiting) (payload : Bytes) :
    (¬ CompleteLine payload ∧
      ((feedRequest record payload).2.fault = some .malformedInput →
        (feedRequest record payload).2.events = [] ∧ (feedRequest record payload).1.Waiting)) ∨
    (CompleteLine payload ∧ ∃ headers touch, headers.state = .httpHeaders ∧
      feedRequest record payload = feedHeaders headers payload [touch]) := by
  unfold feedRequest
  by_cases hlooks : looksLikeHTTPRequestLine payload = true
  · simp only [hlooks, not_true_eq_false, if_false]
    cases hsp : indexByte space payload with
    | none =>
      left
      refine ⟨?_, fun _ => ⟨rfl, hwait⟩⟩
      rintro ⟨_, sp, _, hsp', _⟩
      rw [hsp] at hsp'
      cases hsp'
    | some sp =>
      dsimp only
      by_cases hlong : 8 < sp
      · left
        rw [if_pos hlong]
        refine ⟨?_, fun _ => ⟨rfl, hwait⟩⟩
        rintro ⟨_, sp', hle, hsp', _⟩
        rw [hsp] at hsp'
        cases hsp'
        omega
      · rw [if_neg hlong]
        cases hsp2 : indexByte space (payload.drop (sp + 1)) with
        | none =>
          left
          refine ⟨?_, fun _ => ⟨rfl, hwait⟩⟩
          rintro ⟨_, sp', _, hsp', hsome⟩
          rw [hsp] at hsp'
          cases hsp'
          rw [hsp2] at hsome
          cases hsome
        | some sp2 =>
          right
          refine ⟨⟨hlooks, sp, by omega, hsp, by rw [hsp2]; rfl⟩, _, _, ?_, rfl⟩
          rfl
  · left
    simp only [hlooks, not_false_eq_true, if_true, reduceCtorEq, false_imp_iff, and_true]
    exact fun hline => hlooks hline.1

/-! ## Strictness -/

section

variable {t : Table} {conn : ConnKey} {ev : L4Event} {s : Fin tableSize}

/-- Only a packet that reaches a record passes both checks of `Feed`. -/
theorem carriesL7_iff : carriesL7 ev = true ↔
    ¬ (ev.l4Proto ≠ l4TCP ∧ ev.l4Proto ≠ l4UDP) ∧ classify ev ≠ .unknown := by
  simp only [carriesL7, Bool.and_eq_true, Bool.or_eq_true, beq_iff_eq, bne_iff_ne, ne_eq,
    not_and_or, not_not]

theorem feed_of_slot (hl7 : carriesL7 ev = true) (hslot : slotOf t conn = some s) :
    feed t conn ev = (Function.update t s (feedProto (claimed (t s) conn) ev).1,
      (feedProto (claimed (t s) conn) ev).2) := by
  obtain ⟨hproto, hknown⟩ := carriesL7_iff.mp hl7
  simp only [feed, if_neg hproto, if_neg hknown, hslot]

/-- A packet that does not reach a record changes nothing and is not malformed. -/
theorem feed_of_not_l7 (hl7 : carriesL7 ev = false) :
    (feed t conn ev).1 = t ∧ (feed t conn ev).2 = (feed emptyTable conn ev).2 ∧
      (feed t conn ev).2.fault = none := by
  unfold feed
  split
  · exact ⟨rfl, rfl, rfl⟩
  · rename_i hproto
    have hunknown : classify ev = .unknown := by
      by_contra hknown
      rw [carriesL7_iff.mpr ⟨hproto, hknown⟩] at hl7
      cases hl7
    simp only [if_pos hunknown, and_self]

theorem feed_of_full (hl7 : carriesL7 ev = true) (hslot : slotOf t conn = none) :
    feed t conn ev = (t, ⟨[], 0, some .tableFull⟩) := by
  obtain ⟨hproto, hknown⟩ := carriesL7_iff.mp hl7
  simp only [feed, if_neg hproto, if_neg hknown, hslot]

/-- A fresh connection answers as its fresh record does. -/
theorem feed_emptyTable (hl7 : carriesL7 ev = true) :
    (feed emptyTable conn ev).2 = (feedProto (freshRecord conn) ev).2 := by
  obtain ⟨s, hs⟩ := slotOf_emptyTable conn
  rw [feed_of_slot hl7 hs]
  rfl

/-- After a packet, the connection answers as the record that the packet left. -/
theorem feed_feed (hl7 : carriesL7 ev = true) (hslot : slotOf t conn = some s) {next : L4Event}
    (hnext : carriesL7 next = true) :
    (feed (feed t conn ev).1 conn next).2 =
      (feedProto (feedProto (claimed (t s) conn) ev).1 next).2 := by
  obtain ⟨hkey, hused⟩ := claimed_key hslot
  obtain ⟨hkey', hused'⟩ := feedProto_key (claimed (t s) conn) ev
  rw [hkey] at hkey'
  rw [hused] at hused'
  have hagain := slotOf_update_self hslot hkey' hused'
  rw [feed_of_slot hl7 hslot, feed_of_slot hnext hagain]
  have hclaimed : claimed (Function.update t s (feedProto (claimed (t s) conn) ev).1 s) conn =
      (feedProto (claimed (t s) conn) ev).1 := by
    rw [Function.update_self, claimed, if_pos hused']
  rw [hclaimed]

end

/-- A packet that is reported as malformed emits nothing and clears its connection: whatever comes
next for the key is answered as on a fresh connection. -/
def Strict (t : Table) (conn : ConnKey) (ev : L4Event) : Prop :=
  (feed t conn ev).2.fault = some .malformedInput →
    (feed t conn ev).2.events = [] ∧
      ∀ next, (feed (feed t conn ev).1 conn next).2 = (feed emptyTable conn next).2

/-- The packet is HTTP with a bad length, and its connection is in its headers or gets there by
the request line of this packet. -/
def BadLengthInHeaders (t : Table) (conn : ConnKey) (ev : L4Event) : Prop :=
  carriesL7 ev = true ∧ classify ev = .http ∧ BadLength ev.payload ∧
    ∃ s, slotOf t conn = some s ∧
      ((claimed (t s) conn).state = .httpHeaders ∨
        ((claimed (t s) conn).Waiting ∧ CompleteLine ev.payload))

/-- A packet on which a waiting connection and one in its headers differ. -/
def plainRequest : L4Event := { l4Proto := l4TCP, dstPort := 80, payload := lit "GET / x" }

theorem plainRequest_l7 : carriesL7 plainRequest = true := by decide

/-- A connection in its headers does not answer a request as a fresh one does. -/
theorem headers_ne_fresh {record : ConnRecord} (hstate : record.state = .httpHeaders)
    (conn : ConnKey) :
    (feedProto record plainRequest).2 ≠ (feedProto (freshRecord conn) plainRequest).2 := by
  have hhttp : classify plainRequest = .http := by decide
  have hpayload : plainRequest.payload ≠ [] := by decide
  have habsent : lengthField plainRequest.payload = .absent := by decide
  have hfresh : (feedProto (freshRecord conn) plainRequest).2.count = 1 := by
    simp only [feedProto, hhttp, feedHTTP, if_neg hpayload, freshRecord]
    rfl
  have hheaders : (feedProto record plainRequest).2.count = 0 := by
    simp only [feedProto, hhttp, feedHTTP, if_neg hpayload, hstate, feedHeaders, habsent,
      List.length_nil]
  intro heq
  rw [heq, hfresh] at hheaders
  cases hheaders

theorem badLength_ne_nil {payload : Bytes} (h : BadLength payload) : payload ≠ [] := by
  rintro rfl
  obtain ⟨digits, hfield, _⟩ := h
  have habsent : lengthField [] = .absent := by decide
  rw [habsent] at hfield
  cases hfield

/-- Feeding a bad length in the headers is reported, and leaves the connection in its headers. -/
theorem feedProto_of_badLength {record : ConnRecord} {ev : L4Event} (hhttp : classify ev = .http)
    (hbad : BadLength ev.payload)
    (hstate : record.state = .httpHeaders ∨ (record.Waiting ∧ CompleteLine ev.payload)) :
    (feedProto record ev).2.fault = some .malformedInput ∧
      (feedProto record ev).1.state = .httpHeaders := by
  have hpayload := badLength_ne_nil hbad
  simp only [feedProto, hhttp]
  rcases hstate with hheaders | ⟨hwait, hline⟩
  · simp only [feedHTTP, if_neg hpayload, hheaders, feedHeaders_of_badLength record hbad,
      and_self]
  · rw [feedHTTP_of_waiting hwait hpayload]
    rcases feedRequest_cases hwait ev.payload with ⟨hnot, _⟩ | ⟨_, headers, touch, hst, heq⟩
    · exact absurd hline hnot
    · rw [heq, feedHeaders_of_badLength headers hbad]
      exact ⟨rfl, hst⟩

/-- Every other report of malformed input comes from a bad request line. -/
theorem feedProto_of_malformed {record : ConnRecord} {ev : L4Event}
    (hfault : (feedProto record ev).2.fault = some .malformedInput)
    (hnot : ¬ (classify ev = .http ∧ BadLength ev.payload ∧
      (record.state = .httpHeaders ∨ (record.Waiting ∧ CompleteLine ev.payload)))) :
    (feedProto record ev).2.events = [] ∧ (feedProto record ev).1.Waiting := by
  have hhttp : classify ev = .http := by
    cases hproto : classify ev with
    | http => rfl
    | ws =>
      simp only [feedProto, hproto, feedWS] at hfault
      split at hfault <;> cases hfault
    | unknown =>
      simp only [feedProto, hproto] at hfault
      cases hfault
  simp only [feedProto, hhttp] at hfault ⊢
  by_cases hpayload : ev.payload = []
  · simp only [feedHTTP, hpayload, if_true, reduceCtorEq] at hfault
  · by_cases hwait : record.Waiting
    · rw [feedHTTP_of_waiting hwait hpayload] at hfault ⊢
      rcases feedRequest_cases hwait ev.payload with ⟨_, hbad⟩ | ⟨hline, headers, touch, _, heq⟩
      · exact hbad hfault
      · rw [heq, feedHeaders_malformed_iff] at hfault
        exact absurd ⟨hhttp, hfault, Or.inr ⟨hwait, hline⟩⟩ hnot
    · simp only [feedHTTP, if_neg hpayload] at hfault
      cases hstate : record.state with
      | init => exact absurd (Or.inl hstate) hwait
      | httpRequest => exact absurd (Or.inr hstate) hwait
      | httpHeaders =>
        simp only [hstate, feedHeaders_malformed_iff] at hfault
        exact absurd ⟨hhttp, hfault, Or.inl hstate⟩ hnot
      | httpBody =>
        simp only [hstate] at hfault
        split at hfault <;> cases hfault
      | wsFrame => simp [hstate] at hfault
      | closed => simp [hstate] at hfault

/-- In every table and for every packet, `Feed` is strict exactly when the packet is not a bad
length that is found in the headers. -/
theorem feed_strict_iff (t : Table) (conn : ConnKey) (ev : L4Event) :
    Strict t conn ev ↔ ¬ BadLengthInHeaders t conn ev := by
  constructor
  · rintro hstrict ⟨hl7, hhttp, hbad, s, hslot, hstate⟩
    obtain ⟨hfault, hheaders⟩ := feedProto_of_badLength hhttp hbad hstate
    have hfeed : (feed t conn ev).2.fault = some .malformedInput := by
      rw [feed_of_slot hl7 hslot]
      exact hfault
    have hnext := (hstrict hfeed).2 plainRequest
    rw [feed_feed hl7 hslot plainRequest_l7, feed_emptyTable plainRequest_l7] at hnext
    exact headers_ne_fresh hheaders conn hnext
  · intro hnot hfault
    cases hl7 : carriesL7 ev with
    | false =>
      rw [(feed_of_not_l7 hl7).2.2] at hfault
      cases hfault
    | true =>
      cases hslot : slotOf t conn with
      | none =>
        rw [feed_of_full hl7 hslot] at hfault
        cases hfault
      | some s =>
        have hfeed := feed_of_slot hl7 hslot
        rw [hfeed] at hfault
        obtain ⟨hevents, hwait⟩ := feedProto_of_malformed hfault fun ⟨hhttp, hbad, hstate⟩ =>
          hnot ⟨hl7, hhttp, hbad, s, hslot, hstate⟩
        refine ⟨by rw [hfeed]; exact hevents, ?_⟩
        intro next
        cases hnext : carriesL7 next with
        | false => exact (feed_of_not_l7 hnext).2.1
        | true =>
          rw [feed_feed hl7 hslot hnext, feed_emptyTable hnext]
          have hkey := (feedProto_key (claimed (t s) conn) ev).1
          rw [(claimed_key hslot).1] at hkey
          exact feedProto_output_of_waiting hkey hwait (Or.inl rfl) next

/-- A request with a bad length. -/
def badRequest : L4Event :=
  { l4Proto := l4TCP, dstPort := 80, payload := lit "GET / HTTP/1.1\r\nContent-Length: x\r\n\r\n" }

/-- The request is reported as malformed after its event was emitted. -/
theorem feed_not_strict : ¬ Strict emptyTable 7 badRequest := by
  obtain ⟨s, hslot⟩ := slotOf_emptyTable 7
  have hl7 : carriesL7 badRequest = true := by decide
  have hrecord : feedProto (claimed (emptyTable s) 7) badRequest =
      feedProto (freshRecord 7) badRequest := rfl
  have hfeed := feed_of_slot hl7 hslot
  rw [hrecord] at hfeed
  intro hstrict
  have hfault : (feedProto (freshRecord 7) badRequest).2.fault = some .malformedInput := by
    decide +kernel
  have hemitted : (feedProto (freshRecord 7) badRequest).2.events ≠ [] := by
    decide +kernel
  have hevents := (hstrict (by rw [hfeed]; exact hfault)).1
  rw [hfeed] at hevents
  exact hemitted hevents

end ZaqorinCore.Agent.Efsm
