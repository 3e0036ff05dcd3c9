import ZaqorinCore.Agent.EfsmIsolation

/-!
# From the ring buffer to the state machine

`pkg/bridge`: each read of the driver is cut into records of 64 bytes, and each record that decodes
is fed to the protocol state machine under a key of 32 bits, its IPv4 source address. The records of
IPv6 leave that field empty, so they all have one key. What a run shows is what the machine shows for
the packets of the records (`run_eq`), so that keys do not see each other's records, the malformed
ones or the bounds of the reads: `bridge_noninterference`.

A record has room for six bytes of payload. The state machine never sees more than that, whatever
the kernel has sent: `bridge_short`.
-/

namespace ZaqorinCore.Agent.Bridge

open ZaqorinCore.Text ZaqorinCore.Agent.Decode ZaqorinCore.Agent.Efsm ZaqorinCore.Agent.Engine

/-- The stride of the loop. -/
def recordSize : Nat := 64

/-- `binaryU32` -/
def binaryU32 (b : Bytes) : UInt32 :=
  if b.length < 4 then 0
  else (b.getD 0 0).toUInt32 <<< 24 ||| (b.getD 1 0).toUInt32 <<< 16 |||
    (b.getD 2 0).toUInt32 <<< 8 ||| (b.getD 3 0).toUInt32

/-- The key of an event, of its IPv4 source address. -/
def keyOf (ev : L4Event) : ConnKey := binaryU32 (Decode.slice ev.srcIP 0 4)

/-- What a read of `n` bytes is cut into; bytes behind the last whole record are not looked at. -/
def recordsOf (batch : Bytes) : List Bytes :=
  (List.range (batch.length / recordSize)).map fun i =>
    Decode.slice batch (recordSize * i) (recordSize * i + recordSize)

/-- The body of the loop over a read. -/
def feedRecord (t : Table) (record : Bytes) : Table × List (ConnKey × Output) :=
  match parse record with
  | .error _ => (t, [])
  | .ok ev =>
    let (t, out) := feed t (keyOf ev) ev
    (t, [(keyOf ev, out)])

def feedRecords (t : Table) : List Bytes → Table × List (ConnKey × Output)
  | [] => (t, [])
  | record :: rest =>
    let (t, shown) := feedRecord t record
    let (t, others) := feedRecords t rest
    (t, shown ++ others)

/-- `Run`, with the reads that the driver answers before it ends or the context is cancelled. -/
def run (t : Table) : List Bytes → List (ConnKey × Output)
  | [] => []
  | batch :: rest =>
    let (t, shown) := feedRecords t (recordsOf batch)
    shown ++ run t rest

/-! ## The packets of a run -/

/-- The packet of a record that decodes. -/
def packetOf (record : Bytes) : Option Efsm.Packet :=
  match parse record with
  | .error _ => none
  | .ok ev => some (keyOf ev, ev)

def packetsOf (reads : List Bytes) : List Efsm.Packet :=
  (reads.flatMap recordsOf).filterMap packetOf

/-- The tables that the calls of `Feed` lead to. -/
def tableAfter (t : Table) (calls : List Efsm.Packet) : Table :=
  calls.foldl (fun t c => (feed t c.1 c.2).1) t

theorem feedAll_append (t : Table) (calls more : List Efsm.Packet) :
    feedAll t (calls ++ more) = feedAll t calls ++ feedAll (tableAfter t calls) more := by
  induction calls generalizing t with
  | nil => rfl
  | cons call calls ih =>
    rw [List.cons_append, feedAll, feedAll, ih]
    rfl

theorem feedRecord_eq (t : Table) (record : Bytes) :
    feedRecord t record =
      (tableAfter t (packetOf record).toList, feedAll t (packetOf record).toList) := by
  unfold feedRecord packetOf
  split
  · rfl
  · rfl

theorem feedRecords_eq (t : Table) (records : List Bytes) :
    feedRecords t records =
      (tableAfter t (records.filterMap packetOf), feedAll t (records.filterMap packetOf)) := by
  induction records generalizing t with
  | nil => rfl
  | cons record records ih =>
    have hcons : (record :: records).filterMap packetOf =
        (packetOf record).toList ++ records.filterMap packetOf := by
      rw [List.filterMap_cons]
      cases packetOf record <;> rfl
    rw [feedRecords, feedRecord_eq]
    dsimp only
    rw [ih, hcons, feedAll_append]
    unfold tableAfter
    rw [List.foldl_append]

/-- The bridge feeds the packets of its records, one after the other. -/
theorem run_eq (t : Table) (reads : List Bytes) : run t reads = feedAll t (packetsOf reads) := by
  induction reads generalizing t with
  | nil => rfl
  | cons batch rest ih =>
    have hcons : packetsOf (batch :: rest) =
        (recordsOf batch).filterMap packetOf ++ packetsOf rest := by
      unfold packetsOf
      rw [List.flatMap_cons, List.filterMap_append]
    rw [run, feedRecords_eq, hcons, feedAll_append]
    dsimp only
    rw [ih]

/-! ## One key does not see another -/

/-- The events about a connection key. -/
def eventsAbout (conn : ConnKey) (shown : List (ConnKey × Output)) : List Event :=
  (shown.flatMap fun o => o.2.events).filter fun e => e.subject = conn

/-- The records of one key. -/
def ownRecords (conn : ConnKey) (reads : List Bytes) : List Bytes :=
  (reads.flatMap recordsOf).filter fun record => (packetOf record).any fun p => p.1 = conn

theorem filter_packets (conn : ConnKey) (records : List Bytes) :
    (records.filterMap packetOf).filter (fun p => p.1 = conn) =
      (records.filter fun record => (packetOf record).any fun p => p.1 = conn).filterMap
        packetOf := by
  induction records with
  | nil => rfl
  | cons record records ih =>
    cases hpacket : packetOf record with
    | none =>
      rw [List.filterMap_cons_none hpacket, ih, List.filter_cons_of_neg]
      rw [hpacket]
      exact Bool.false_ne_true
    | some p =>
      have hany : ((packetOf record).any fun p => p.1 = conn) = decide (p.1 = conn) := by
        rw [hpacket]
        rfl
      rw [List.filterMap_cons_some hpacket, List.filter_cons, List.filter_cons, hany, ih]
      split
      · rw [List.filterMap_cons_some hpacket]
      · rfl

theorem eventsAbout_run {reads : List Bytes}
    (room : (l7Keys (packetsOf reads)).card ≤ tableSize) (conn : ConnKey) :
    eventsAbout conn (run emptyTable reads) =
      (serveAll (freshRecord conn)
        (((ownRecords conn reads).filterMap packetOf).map Prod.snd)).flatMap Output.events := by
  unfold eventsAbout ownRecords
  rw [run_eq, filter_events conn fun o ho e he => sound_emptyTable.feedAll_subject ho he,
    feedAll_own room conn, ← filter_packets]
  rfl

/-- What is shown about a key depends on its own records only: not on the records of other keys, on
those that do not decode, or on how the records come in reads. -/
theorem bridge_noninterference (conn : ConnKey) (reads reads' : List Bytes)
    (room : (l7Keys (packetsOf reads)).card ≤ tableSize)
    (room' : (l7Keys (packetsOf reads')).card ≤ tableSize)
    (same : ownRecords conn reads = ownRecords conn reads') :
    eventsAbout conn (run emptyTable reads) = eventsAbout conn (run emptyTable reads') := by
  rw [eventsAbout_run room, eventsAbout_run room', same]

theorem l7Keys_card_le (calls : List Efsm.Packet) : (l7Keys calls).card ≤ calls.length := by
  unfold l7Keys
  refine (List.toFinset_card_le _).trans ?_
  rw [List.length_map]
  exact List.length_filter_le _ _

/-- A record of the IPv4 source 203.0.113.`last`. -/
def plainRecord (last : UInt8) : Bytes :=
  [203, 0, 113, last] ++ List.replicate 38 0 ++ [0, 80, 4, 6, 0, 0, 0, 6] ++ List.replicate 8 0 ++
    lit "GET / "

/-- The records of one key, between a record that is malformed and one of another key. -/
theorem noninterference_sample :
    eventsAbout 3405803783 (run emptyTable
        [plainRecord 7 ++ List.replicate 64 0 ++ plainRecord 8, plainRecord 7]) =
      eventsAbout 3405803783 (run emptyTable [plainRecord 7, plainRecord 7 ++ [1, 2, 3]]) :=
  bridge_noninterference 3405803783 _ _ ((l7Keys_card_le _).trans (by decide +kernel))
    ((l7Keys_card_le _).trans (by decide +kernel)) (by decide +kernel)

/-! ## Six bytes of payload -/

/-- What a record has room for behind its header. -/
def payloadRoom : Nat := recordSize - wireSize

theorem length_slice_le (b : Bytes) (lo hi : Nat) : (Decode.slice b lo hi).length ≤ hi - lo :=
  List.length_take_le _ _

theorem parse_payload {record : Bytes} {ev : L4Event} (h : parse record = .ok ev) :
    ev.payload.length ≤ record.length - wireSize := by
  unfold parse at h
  split at h
  · cases h
  · dsimp only at h
    split at h
    · cases h
    · split at h
      · cases h
      · cases h
        refine (length_slice_le _ _ _).trans ?_
        rw [Nat.add_sub_cancel_left]
        exact Nat.min_le_right _ _

theorem length_of_mem_recordsOf {batch record : Bytes} (h : record ∈ recordsOf batch) :
    record.length ≤ recordSize := by
  obtain ⟨i, -, rfl⟩ := List.mem_map.mp h
  refine (length_slice_le _ _ _).trans ?_
  rw [Nat.add_sub_cancel_left]

theorem payload_of_mem_packetsOf {reads : List Bytes} {p : Efsm.Packet}
    (h : p ∈ packetsOf reads) : p.2.payload.length ≤ payloadRoom := by
  obtain ⟨record, hrecord, hpacket⟩ := List.mem_filterMap.mp h
  obtain ⟨batch, -, hbatch⟩ := List.mem_flatMap.mp hrecord
  unfold packetOf at hpacket
  split at hpacket
  · cases hpacket
  · rename_i ev hparse
    cases hpacket
    exact (parse_payload hparse).trans
      (Nat.sub_le_sub_right (length_of_mem_recordsOf hbatch) wireSize)

/-- An event of a payload of six bytes: a request line has room for a path of one byte, no header
fits, and a request that is reported has the length of a payload or of an empty body. -/
structure Brief (e : Event) : Prop where
  touch : e.kind = eventCanaryTouch → e.payload1.toNat ≤ 1
  request : e.kind = eventHTTPRequest → e.payload0.toNat ≤ payloadRoom
  frame : e.kind = eventWebSocketFrame → e.payload1.toNat ≤ payloadRoom

section

variable {record : ConnRecord} {payload : Bytes} {e : Event}

theorem brief_touch (hkind : e.kind = eventCanaryTouch) (h : e.payload1.toNat ≤ 1) : Brief e where
  touch _ := h
  request hother := absurd (hkind.symm.trans hother) (by decide)
  frame hother := absurd (hkind.symm.trans hother) (by decide)

theorem brief_request (hkind : e.kind = eventHTTPRequest) (h : e.payload0.toNat ≤ payloadRoom) :
    Brief e where
  touch hother := absurd (hkind.symm.trans hother) (by decide)
  request _ := h
  frame hother := absurd (hkind.symm.trans hother) (by decide)

theorem brief_frame (hkind : e.kind = eventWebSocketFrame) (h : e.payload1.toNat ≤ payloadRoom) :
    Brief e where
  touch hother := absurd (hkind.symm.trans hother) (by decide)
  request hother := absurd (hkind.symm.trans hother) (by decide)
  frame _ := h

theorem brief_traffic (hkind : e.kind = eventTCPSYN) : Brief e where
  touch hother := absurd (hkind.symm.trans hother) (by decide)
  request hother := absurd (hkind.symm.trans hother) (by decide)
  frame hother := absurd (hkind.symm.trans hother) (by decide)

/-- Each method is a word of at least three letters before the space. -/
theorem method_word : ∀ m ∈ requestMethods, m.dropLast ++ [space] = m ∧ space ∉ m.dropLast ∧
    3 ≤ m.dropLast.length := by
  decide

theorem first_space (h : looksLikeHTTPRequestLine payload = true) {sp : Nat}
    (hsp : indexByte space payload = some sp) : 3 ≤ sp := by
  obtain ⟨m, hm, hprefix⟩ := List.any_eq_true.mp h
  obtain ⟨rest, rfl⟩ := List.isPrefixOf_iff_prefix.mp hprefix
  obtain ⟨hword, hfree, hlong⟩ := method_word m hm
  rw [← hword, List.append_assoc, List.singleton_append, indexByte_append hfree] at hsp
  exact Option.some.inj hsp ▸ hlong

theorem lengthField_short (h : payload.length ≤ payloadRoom) : lengthField payload = .absent := by
  have hnone : indexOf (lit "Content-Length: ") payload = none := by
    rw [← Option.not_isSome_iff_eq_none]
    intro hsome
    have hlong := (contains_iff.mp hsome).length_le
    exact absurd (hlong.trans h) (by decide)
  unfold lengthField
  rw [hnone]

theorem endHeaders_bodyLen (record : ConnRecord) (payload : Bytes) :
    (endHeaders record payload).bodyLen = record.bodyLen := by
  unfold endHeaders
  split <;> rfl

theorem feedHeaders_short (h : payload.length ≤ payloadRoom) (emitted : List Event) :
    (feedHeaders record payload emitted).1.bodyLen = record.bodyLen ∧
      (feedHeaders record payload emitted).2.events = emitted := by
  unfold feedHeaders
  rw [lengthField_short h]
  exact ⟨endHeaders_bodyLen record payload, rfl⟩

theorem toNat_ofNat_le (n : Nat) : (UInt32.ofNat n).toNat ≤ n := by
  rw [UInt32.toNat_ofNat']
  exact Nat.mod_le _ _

theorem feedRequest_short (h : payload.length ≤ payloadRoom) :
    (feedRequest record payload).1.bodyLen = record.bodyLen ∧
      ∀ e ∈ (feedRequest record payload).2.events, Brief e := by
  unfold feedRequest
  split
  · refine ⟨rfl, fun e he => ?_⟩
    rw [List.mem_singleton.mp he]
    exact brief_request rfl ((toNat_ofNat_le _).trans h)
  · rename_i hline
    rw [not_not] at hline
    split
    · exact ⟨rfl, fun e he => absurd he List.not_mem_nil⟩
    · rename_i sp hsp
      split
      · exact ⟨rfl, fun e he => absurd he List.not_mem_nil⟩
      · dsimp only
        split
        · exact ⟨rfl, fun e he => absurd he List.not_mem_nil⟩
        · rename_i sp2 hsp2
          have hfirst := first_space hline hsp
          have hsecond : sp2 < (payload.drop (sp + 1)).length :=
            (List.findIdx?_eq_some_iff_getElem.mp hsp2).1
          rw [List.length_drop] at hsecond
          have hroom : payload.length ≤ 6 := h
          have hpath : min sp2 128 ≤ 1 := by omega
          refine ⟨(feedHeaders_short h _).1, fun e he => ?_⟩
          rw [(feedHeaders_short h _).2] at he
          rw [List.mem_singleton.mp he]
          exact brief_touch rfl ((toNat_ofNat_le _).trans hpath)

theorem feedHTTP_short {ev : L4Event} (hempty : record.bodyLen = 0)
    (h : ev.payload.length ≤ payloadRoom) :
    (feedHTTP record ev).1.bodyLen = 0 ∧ ∀ e ∈ (feedHTTP record ev).2.events, Brief e := by
  have hquiet : ∀ e ∈ ([] : List Event), Brief e := fun e he => absurd he List.not_mem_nil
  unfold feedHTTP
  split
  · exact ⟨hempty, hquiet⟩
  · split
    · exact ⟨(feedRequest_short h).1.trans hempty, (feedRequest_short h).2⟩
    · exact ⟨(feedRequest_short h).1.trans hempty, (feedRequest_short h).2⟩
    · refine ⟨(feedHeaders_short h []).1.trans hempty, ?_⟩
      rw [(feedHeaders_short h []).2]
      exact hquiet
    · split
      · refine ⟨hempty, fun e he => ?_⟩
        rw [List.mem_singleton.mp he]
        refine brief_request rfl ?_
        dsimp only
        rw [hempty]
        exact Nat.zero_le _
      · exact ⟨hempty, hquiet⟩
    · exact ⟨hempty, hquiet⟩
    · exact ⟨hempty, hquiet⟩

theorem feedWS_short {ev : L4Event} (hempty : record.bodyLen = 0)
    (h : ev.payload.length ≤ payloadRoom) :
    (feedWS record ev).1.bodyLen = 0 ∧ ∀ e ∈ (feedWS record ev).2.events, Brief e := by
  unfold feedWS
  split
  · exact ⟨hempty, fun e he => absurd he List.not_mem_nil⟩
  · refine ⟨hempty, fun e he => ?_⟩
    rw [List.mem_singleton.mp he]
    exact brief_frame rfl ((toNat_ofNat_le _).trans h)

theorem feedProto_short {ev : L4Event} (hempty : record.bodyLen = 0)
    (h : ev.payload.length ≤ payloadRoom) :
    (feedProto record ev).1.bodyLen = 0 ∧ ∀ e ∈ (feedProto record ev).2.events, Brief e := by
  unfold feedProto
  split
  · exact feedHTTP_short hempty h
  · exact feedWS_short hempty h
  · exact ⟨hempty, fun e he => absurd he List.not_mem_nil⟩

end

/-- No record of the table has a body. -/
def Bodyless (t : Table) : Prop := ∀ s, (t s).bodyLen = 0

theorem claimed_bodyLen {record : ConnRecord} (key : ConnKey) :
    (claimed record key).bodyLen = record.bodyLen := by
  unfold claimed
  split <;> rfl

/-- A packet with a short payload keeps the table without bodies and shows brief events. -/
theorem feed_short {t : Table} (ht : Bodyless t) (conn : ConnKey) {ev : L4Event}
    (h : ev.payload.length ≤ payloadRoom) :
    Bodyless (feed t conn ev).1 ∧ ∀ e ∈ (feed t conn ev).2.events, Brief e := by
  unfold feed
  split
  · exact ⟨ht, fun e he => absurd he List.not_mem_nil⟩
  · split
    · refine ⟨ht, fun e he => ?_⟩
      rw [List.mem_singleton.mp he]
      exact brief_traffic rfl
    · split
      · exact ⟨ht, fun e he => absurd he List.not_mem_nil⟩
      · rename_i s hslot
        have hproto := feedProto_short ((claimed_bodyLen conn).trans (ht s)) h
        refine ⟨fun s' => ?_, hproto.2⟩
        show (Function.update t s (feedProto (claimed (t s) conn) ev).1 s').bodyLen = 0
        by_cases hs : s' = s
        · subst hs
          rw [Function.update_self]
          exact hproto.1
        · rw [Function.update_of_ne hs]
          exact ht s'

theorem feedAll_short {t : Table} (ht : Bodyless t) {calls : List Efsm.Packet}
    (h : ∀ p ∈ calls, p.2.payload.length ≤ payloadRoom) :
    ∀ o ∈ feedAll t calls, ∀ e ∈ o.2.events, Brief e := by
  induction calls generalizing t with
  | nil => exact fun o ho => absurd ho List.not_mem_nil
  | cons call calls ih =>
    obtain ⟨conn, ev⟩ := call
    rw [List.forall_mem_cons] at h
    obtain ⟨hnext, hevents⟩ := feed_short ht conn h.1
    rw [feedAll, List.forall_mem_cons]
    exact ⟨hevents, ih hnext h.2⟩

/-- Whatever the driver reads: the machine reports no path of more than one byte, no body, and no
WebSocket frame of more than six bytes. -/
theorem bridge_short (reads : List Bytes) :
    ∀ o ∈ run emptyTable reads, ∀ e ∈ o.2.events, Brief e := by
  rw [run_eq]
  exact feedAll_short (fun _ => rfl) fun p hp => payload_of_mem_packetsOf hp

/-- The request line of one record is reported as a touch of a path of one byte at most. -/
theorem bridge_short_sample :
    ∃ o ∈ run emptyTable [plainRecord 7], ∃ e ∈ o.2.events,
      e.kind = eventCanaryTouch ∧ Brief e := by
  have htouch : (run emptyTable [plainRecord 7]).any
      (fun o => o.2.events.any fun e => e.kind == eventCanaryTouch) = true := by
    decide +kernel
  obtain ⟨o, ho, hevents⟩ := List.any_eq_true.mp htouch
  obtain ⟨e, he, hkind⟩ := List.any_eq_true.mp hevents
  exact ⟨o, ho, e, he, eq_of_beq hkind, bridge_short [plainRecord 7] o ho e he⟩

end ZaqorinCore.Agent.Bridge
