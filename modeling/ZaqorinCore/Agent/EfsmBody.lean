import ZaqorinCore.Text.Numeral
import ZaqorinCore.Agent.EfsmHttp

/-!
# The end of a request body

A connection whose headers announced a length shows an `HTTPRequest` with that length at its `FIN`.
`feedHTTP` returns before it looks at the flags of a packet without payload, it reads the length
from the first text that looks like it, and it computes the length in 32 bits without a check.
`body_completed_iff` says when the length that a packet announced is shown all the same.
-/

namespace ZaqorinCore.Agent.Efsm

open ZaqorinCore.Base ZaqorinCore.Text ZaqorinCore.Agent.Decode ZaqorinCore.Agent.Engine

/-! ## One exchange -/

/-- The table after the packets of one connection. -/
def tableAfter (conn : ConnKey) (packets : List L4Event) : Table :=
  packets.foldl (fun t ev => (feed t conn ev).1) emptyTable

/-- The record after the packets of its connection. -/
def recordAfter (conn : ConnKey) (packets : List L4Event) : ConnRecord :=
  packets.foldl (fun record ev => (serve record ev).1) (freshRecord conn)

/-- A packet on an HTTP port. -/
def OnHTTP (ev : L4Event) : Prop := carriesL7 ev = true ∧ classify ev = .http

instance (ev : L4Event) : Decidable (OnHTTP ev) := inferInstanceAs (Decidable (_ ∧ _))

/-- A header line with a length, whole. -/
def Announces (payload : Bytes) (n : Nat) : Prop :=
  ∃ front digits rest, payload = front ++ lit "Content-Length: " ++ digits ++ lit "\r\n" ++ rest ∧
    atoiDigits digits = some n

/-- The packets of one connection up to a `FIN`: there is a request line, in the packet of the
header line at the latest. All the other packets are arbitrary. -/
structure Exchange (before : List L4Event) (header : L4Event) (between : List L4Event)
    (fin : L4Event) (n : Nat) : Prop where
  http : ∀ ev ∈ before ++ header :: (between ++ [fin]), OnHTTP ev
  request : ∃ ev ∈ before ++ [header], CompleteLine ev.payload
  announced : Announces header.payload n
  fin : fin.isFIN = true

/-- The `FIN` shows the length; one that does not fit is an error of its header line. -/
def BodyCompleted (conn : ConnKey) (before : List L4Event) (header : L4Event)
    (between : List L4Event) (fin : L4Event) (n : Nat) : Prop :=
  if n < 2 ^ 32 then
    (feed (tableAfter conn (before ++ header :: between)) conn fin).2.events =
      [{ kind := eventHTTPRequest, subject := conn, payload0 := UInt32.ofNat n }]
  else (feed (tableAfter conn before) conn header).2.fault = some .malformedInput

/-! ## The exact condition -/

/-- The packet leaves a connection without a request line as it is. -/
def Stalls (ev : L4Event) : Prop :=
  ev.payload = [] ∨ (looksLikeHTTPRequestLine ev.payload = true ∧ ¬ CompleteLine ev.payload)

def decimalOf (digits : Bytes) : Nat := digits.foldl (fun n b => n * 10 + digitOf b) 0

/-- The length with which a payload ends the headers: that of the first text that looks like a
`Content-Length` line, and 0 at the end of the block if there is none. -/
def lengthLeft (payload : Bytes) : Option Nat :=
  match lengthField payload with
  | .absent => if (indexOf (lit "\r\n\r\n") payload).isSome then some 0 else none
  | .cut => none
  | .value digits => if digits.all isDigitByte then some (decimalOf digits) else none

/-- The packets start with a request line. -/
def Opened (packets : List L4Event) : Prop :=
  ∃ opening rest, packets = opening :: rest ∧ CompleteLine opening.payload

/-- The headers have begun, and no packet has ended them. -/
def InHeaders (packets : List L4Event) : Prop :=
  ∃ idle headers, packets = idle ++ headers ∧ (∀ ev ∈ idle, Stalls ev) ∧ Opened headers ∧
    ∀ ev ∈ headers, lengthLeft ev.payload = none

/-- The headers have ended with a length that is `n` in 32 bits, and no `FIN` with a payload has
come since. -/
def InBody (packets : List L4Event) (n : Nat) : Prop :=
  ∃ idle headers last body, packets = idle ++ (headers ++ [last]) ++ body ∧
    (∀ ev ∈ idle, Stalls ev) ∧ Opened (headers ++ [last]) ∧
    (∀ ev ∈ headers, lengthLeft ev.payload = none) ∧
    (∃ m, lengthLeft last.payload = some m ∧ m % 2 ^ 32 = n) ∧
    ∀ ev ∈ body, ev.payload = [] ∨ ev.isFIN = false

/-- A length that fits is shown when it is the one the headers ended with, and the `FIN` has a
payload. One that does not fit is an error only of a packet in which another text, that looks like
a `Content-Length` line and is none, comes first. -/
def LengthKept (before : List L4Event) (header : L4Event) (between : List L4Event) (fin : L4Event)
    (n : Nat) : Prop :=
  if n < 2 ^ 32 then fin.payload ≠ [] ∧ InBody (before ++ header :: between) n
  else ((∀ ev ∈ before, Stalls ev) ∨ InHeaders before) ∧ BadLength header.payload

/-! ## The length in 32 bits -/

theorem readDigits_eq (v : Nat) (digits : Bytes) :
    readDigits (UInt32.ofNat v) digits =
      if digits.all isDigitByte then
        some (UInt32.ofNat (digits.foldl (fun n b => n * 10 + digitOf b) v))
      else none := by
  induction digits generalizing v with
  | nil => rfl
  | cons c rest ih =>
    rw [readDigits, List.all_cons, List.foldl_cons]
    have hdigit : isDigitByte c = true ↔ ¬ (c < 48 ∨ 57 < c) := by
      simp only [isDigitByte, Bool.and_eq_true, decide_eq_true_eq, UInt8.lt_iff_toNat_lt, not_or,
        not_lt]
      rfl
    by_cases hbad : c < 48 ∨ 57 < c
    · have hno : isDigitByte c = false := by
        rw [← Bool.not_eq_true, hdigit, not_not]
        exact hbad
      rw [if_pos hbad, hno, Bool.false_and, if_neg (by decide)]
    · have hle : (48 : UInt8) ≤ c := by
        rw [not_or] at hbad
        exact UInt8.not_lt.mp hbad.1
      have hstep : UInt32.ofNat v * 10 + (c - 48).toUInt32 = UInt32.ofNat (v * 10 + digitOf c) := by
        rw [UInt32.ofNat_add, UInt32.ofNat_mul]
        congr 1
        apply UInt32.toNat_inj.mp
        rw [UInt8.toNat_toUInt32, UInt8.toNat_sub_of_le _ _ hle]
        have hc := c.toNat_lt
        show c.toNat - 48 = (c.toNat - 48) % 2 ^ 32
        omega
      rw [if_neg hbad, hdigit.mpr hbad, Bool.true_and, hstep]
      exact ih _

theorem ofNat_eq_iff {m n : Nat} (hn : n < 2 ^ 32) :
    UInt32.ofNat m = UInt32.ofNat n ↔ m % 2 ^ 32 = n := by
  rw [← UInt32.toNat_inj]
  show m % 2 ^ 32 = n % 2 ^ 32 ↔ _
  rw [Nat.mod_eq_of_lt hn]

/-! ## Stages -/

instance (payload : Bytes) : Decidable (CompleteLine payload) :=
  inferInstanceAs (Decidable (_ ∧ _))

instance (ev : L4Event) : Decidable (Stalls ev) := inferInstanceAs (Decidable (_ ∨ _))

/-- How far a connection is; `done` when it shows no more. -/
inductive Stage
  | waiting
  | headers
  | body (bodyLen : UInt32)
  | done
  deriving DecidableEq

/-- The stage after a payload that is read as headers. -/
def stageEnded (payload : Bytes) : Stage :=
  match lengthLeft payload with
  | none => .headers
  | some m => .body (UInt32.ofNat m)

def Stage.next : Stage → L4Event → Stage
  | .waiting, ev =>
    if CompleteLine ev.payload then stageEnded ev.payload else if Stalls ev then .waiting else .done
  | .headers, ev => stageEnded ev.payload
  | .body n, ev => if ev.payload = [] ∨ ev.isFIN = false then .body n else .done
  | .done, _ => .done

def stageAfter (packets : List L4Event) : Stage := packets.foldl Stage.next .waiting

/-- The record is at the stage. -/
def ConnRecord.At (record : ConnRecord) : Stage → Prop
  | .waiting => record.Waiting ∧ record.bodyLen = 0
  | .headers => record.state = .httpHeaders ∧ record.bodyLen = 0
  | .body n => record.state = .httpBody ∧ record.bodyLen = n
  | .done => record.state = .wsFrame ∨ record.state = .closed

theorem stageAfter_snoc (packets : List L4Event) (ev : L4Event) :
    stageAfter (packets ++ [ev]) = (stageAfter packets).next ev := by
  unfold stageAfter
  rw [List.foldl_append, List.foldl_cons, List.foldl_nil]

theorem recordAfter_snoc (conn : ConnKey) (packets : List L4Event) (ev : L4Event) :
    recordAfter conn (packets ++ [ev]) = (serve (recordAfter conn packets) ev).1 := by
  unfold recordAfter
  rw [List.foldl_append, List.foldl_cons, List.foldl_nil]

theorem serve_http {ev : L4Event} (h : OnHTTP ev) (record : ConnRecord) :
    serve record ev = feedHTTP record ev := by
  rw [serve_of_l7 h.1, feedProto, h.2]

theorem lengthLeft_nil : lengthLeft [] = none := by decide

theorem completeLine_ne_nil {payload : Bytes} (h : CompleteLine payload) : payload ≠ [] := by
  rintro rfl
  exact absurd h.1 (by decide)

theorem not_stalls_of_completeLine {ev : L4Event} (h : CompleteLine ev.payload) : ¬ Stalls ev := by
  rintro (hnil | ⟨-, hnot⟩)
  · exact completeLine_ne_nil h hnil
  · exact hnot h

/-- What a header block does to a record in its headers. -/
theorem feedHeaders_at {record : ConnRecord} (hat : record.At .headers) (payload : Bytes)
    (emitted : List Event) :
    (feedHeaders record payload emitted).1.At (stageEnded payload) := by
  obtain ⟨hstate, hzero⟩ := hat
  have hread (digits : Bytes) : readDigits 0 digits =
      if digits.all isDigitByte then some (UInt32.ofNat (decimalOf digits)) else none :=
    readDigits_eq 0 digits
  unfold feedHeaders stageEnded lengthLeft
  cases lengthField payload with
  | absent =>
    dsimp only
    unfold endHeaders
    by_cases hend : (indexOf (lit "\r\n\r\n") payload).isSome = true
    · rw [if_pos hend, if_pos hend]
      exact ⟨rfl, hzero⟩
    · rw [if_neg hend, if_neg hend]
      exact ⟨hstate, hzero⟩
  | cut => exact ⟨hstate, hzero⟩
  | value digits =>
    dsimp only
    rw [hread]
    by_cases hdigits : digits.all isDigitByte = true
    · rw [if_pos hdigits, if_pos hdigits]
      dsimp only
      unfold endHeaders
      split
      · exact ⟨rfl, rfl⟩
      · exact ⟨rfl, rfl⟩
    · rw [if_neg hdigits, if_neg hdigits]
      exact ⟨hstate, hzero⟩

/-- What a packet with a payload does to a connection without a request line. -/
theorem feedRequest_at {record : ConnRecord} (hat : record.At .waiting) {ev : L4Event}
    (hpayload : ev.payload ≠ []) :
    (feedRequest record ev.payload).1.At (Stage.next .waiting ev) := by
  obtain ⟨hwait, hzero⟩ := hat
  show ConnRecord.At _ (if CompleteLine ev.payload then _ else if Stalls ev then _ else _)
  unfold feedRequest
  by_cases hlooks : looksLikeHTTPRequestLine ev.payload = true
  · rw [if_neg (not_not.mpr hlooks)]
    -- a line that is cut leaves the connection waiting
    have hcut : ¬ CompleteLine ev.payload → ∀ m : Bytes,
        ConnRecord.At { record with method := m }
          (if CompleteLine ev.payload then stageEnded ev.payload
            else if Stalls ev then .waiting else .done) := by
      intro hline m
      have hstalls : Stalls ev := Or.inr ⟨hlooks, hline⟩
      rw [if_neg hline, if_pos hstalls]
      exact ⟨hwait, hzero⟩
    cases hsp : indexByte space ev.payload with
    | none =>
      apply hcut _ record.method
      rintro ⟨-, sp, -, hsp', -⟩
      rw [hsp] at hsp'
      cases hsp'
    | some sp =>
      dsimp only
      by_cases hlong : 8 < sp
      · rw [if_pos hlong]
        apply hcut _ record.method
        rintro ⟨-, sp', hle, hsp', -⟩
        rw [hsp] at hsp'
        cases hsp'
        omega
      rw [if_neg hlong]
      cases hsp2 : indexByte space (ev.payload.drop (sp + 1)) with
      | none =>
        apply hcut
        rintro ⟨-, sp', -, hsp', hsome⟩
        rw [hsp] at hsp'
        cases hsp'
        rw [hsp2] at hsome
        cases hsome
      | some sp2 =>
        have hline : CompleteLine ev.payload := ⟨hlooks, sp, by omega, hsp, by rw [hsp2]; rfl⟩
        rw [if_pos hline]
        apply feedHeaders_at
        exact ⟨rfl, hzero⟩
  · rw [if_pos hlooks, if_neg (fun hline => hlooks hline.1), if_neg]
    · exact Or.inr rfl
    · rintro (hnil | hstall)
      · exact hpayload hnil
      · exact hlooks hstall.1

/-- A packet takes a record from stage to stage. -/
theorem serve_at {record : ConnRecord} {s : Stage} (hat : record.At s) {ev : L4Event}
    (h : OnHTTP ev) : (serve record ev).1.At (s.next ev) := by
  rw [serve_http h]
  by_cases hpayload : ev.payload = []
  · have hsame : s.next ev = s := by
      have hline : ¬ CompleteLine ev.payload := fun hline => completeLine_ne_nil hline hpayload
      have hended : stageEnded ev.payload = .headers := by
        rw [stageEnded, hpayload, lengthLeft_nil]
      cases s with
      | waiting => exact (if_neg hline).trans (if_pos (Or.inl hpayload))
      | headers => exact hended
      | body n => exact if_pos (Or.inl hpayload)
      | done => rfl
    unfold feedHTTP
    rw [if_pos hpayload, hsame]
    exact hat
  cases s with
  | waiting =>
    rw [feedHTTP_of_waiting hat.1 hpayload]
    exact feedRequest_at hat hpayload
  | headers =>
    unfold feedHTTP
    rw [if_neg hpayload, hat.1]
    exact feedHeaders_at hat ev.payload []
  | body n =>
    unfold feedHTTP
    rw [if_neg hpayload, hat.1]
    show ConnRecord.At _ (if ev.payload = [] ∨ ev.isFIN = false then _ else _)
    by_cases hfin : ev.isFIN = true
    · rw [if_pos hfin, if_neg (by simp [hpayload, hfin])]
      exact Or.inr rfl
    · rw [if_neg hfin, if_pos (Or.inr (by simpa using hfin))]
      exact hat
  | done =>
    unfold feedHTTP
    rw [if_neg hpayload]
    rcases hat with hstate | hstate
    · rw [hstate]
      exact Or.inl hstate
    · rw [hstate]
      exact Or.inr hstate

theorem recordAfter_at (conn : ConnKey) {packets : List L4Event} (h : ∀ ev ∈ packets, OnHTTP ev) :
    (recordAfter conn packets).At (stageAfter packets) := by
  induction packets using List.reverseRecOn with
  | nil => exact ⟨Or.inl rfl, rfl⟩
  | append_singleton packets ev ih =>
    rw [recordAfter_snoc, stageAfter_snoc]
    apply serve_at
    · exact ih fun ev hev => h ev (List.mem_append_left _ hev)
    · exact h ev (by simp)

/-! ## Stages in terms of the packets -/

/-- The packet is read as headers at this stage. -/
def Stage.Reads (s : Stage) (ev : L4Event) : Prop :=
  s = .headers ∨ (s = .waiting ∧ CompleteLine ev.payload)

theorem stageEnded_ne (payload : Bytes) :
    stageEnded payload ≠ .waiting ∧ stageEnded payload ≠ .done := by
  unfold stageEnded
  cases lengthLeft payload with
  | none => exact ⟨nofun, nofun⟩
  | some m => exact ⟨nofun, nofun⟩

theorem stageEnded_headers_iff (payload : Bytes) :
    stageEnded payload = .headers ↔ lengthLeft payload = none := by
  unfold stageEnded
  cases lengthLeft payload with
  | none => exact iff_of_true rfl rfl
  | some m => exact iff_of_false nofun nofun

theorem stageEnded_body_iff (payload : Bytes) (k : UInt32) :
    stageEnded payload = .body k ↔ ∃ m, lengthLeft payload = some m ∧ UInt32.ofNat m = k := by
  unfold stageEnded
  cases lengthLeft payload with
  | none => exact iff_of_false nofun nofun
  | some m => simp

theorem next_of_reads {s : Stage} {ev : L4Event} (h : s.Reads ev) :
    s.next ev = stageEnded ev.payload := by
  rcases h with rfl | ⟨rfl, hline⟩
  · rfl
  · exact if_pos hline

/-- A packet that is not read as headers leaves the connection at its stage or ends it. -/
theorem next_of_not_reads {s : Stage} {ev : L4Event} (h : ¬ s.Reads ev) :
    (s.next ev = s ∨ s.next ev = .done) ∧ s.next ev ≠ .headers := by
  cases s with
  | waiting =>
    have hline : ¬ CompleteLine ev.payload := fun hline => h (Or.inr ⟨rfl, hline⟩)
    have hnext : Stage.next .waiting ev = if Stalls ev then .waiting else .done := if_neg hline
    rw [hnext]
    split
    · exact ⟨Or.inl rfl, nofun⟩
    · exact ⟨Or.inr rfl, nofun⟩
  | headers => exact absurd (Or.inl rfl) h
  | body n =>
    unfold Stage.next
    dsimp only
    split
    · exact ⟨Or.inl rfl, nofun⟩
    · exact ⟨Or.inr rfl, nofun⟩
  | done => exact ⟨Or.inl rfl, nofun⟩

theorem next_waiting_iff (s : Stage) (ev : L4Event) :
    s.next ev = .waiting ↔ s = .waiting ∧ Stalls ev := by
  cases s with
  | waiting =>
    unfold Stage.next
    dsimp only
    by_cases hline : CompleteLine ev.payload
    · rw [if_pos hline]
      exact iff_of_false (stageEnded_ne _).1 fun h => not_stalls_of_completeLine hline h.2
    · rw [if_neg hline]
      by_cases hstalls : Stalls ev
      · rw [if_pos hstalls]
        exact iff_of_true rfl ⟨rfl, hstalls⟩
      · rw [if_neg hstalls]
        exact iff_of_false nofun fun h => hstalls h.2
  | headers => exact iff_of_false (stageEnded_ne _).1 nofun
  | body n =>
    unfold Stage.next
    dsimp only
    split
    · exact iff_of_false nofun nofun
    · exact iff_of_false nofun nofun
  | done => exact iff_of_false nofun nofun

theorem next_headers_iff (s : Stage) (ev : L4Event) :
    s.next ev = .headers ↔ s.Reads ev ∧ lengthLeft ev.payload = none := by
  by_cases hreads : s.Reads ev
  · rw [next_of_reads hreads, stageEnded_headers_iff]
    exact (and_iff_right hreads).symm
  · exact iff_of_false (next_of_not_reads hreads).2 fun h => hreads h.1

theorem next_body_iff (s : Stage) (ev : L4Event) (k : UInt32) :
    s.next ev = .body k ↔ (s = .body k ∧ (ev.payload = [] ∨ ev.isFIN = false)) ∨
      (s.Reads ev ∧ ∃ m, lengthLeft ev.payload = some m ∧ UInt32.ofNat m = k) := by
  by_cases hreads : s.Reads ev
  · have hbody : s ≠ .body k := by
      rcases hreads with rfl | ⟨rfl, -⟩
      · nofun
      · nofun
    rw [next_of_reads hreads, stageEnded_body_iff]
    simp only [hreads, hbody, true_and, false_and, false_or]
  · simp only [hreads, false_and, or_false]
    by_cases hbody : s = .body k
    · subst hbody
      unfold Stage.next
      dsimp only
      split
      · rename_i hrests
        exact iff_of_true rfl ⟨rfl, hrests⟩
      · rename_i hends
        exact iff_of_false nofun fun h => hends h.2
    · refine iff_of_false ?_ fun h => hbody h.1
      rcases (next_of_not_reads hreads).1 with hsame | hover
      · rw [hsame]
        exact hbody
      · rw [hover]
        nofun

/-- The packet ends a block of packets that starts with a request line and is still headers. -/
def ReadsAfter (packets : List L4Event) (ev : L4Event) : Prop :=
  ∃ idle headers, packets = idle ++ headers ∧ (∀ ev ∈ idle, Stalls ev) ∧
    Opened (headers ++ [ev]) ∧ ∀ ev ∈ headers, lengthLeft ev.payload = none

theorem readsAfter_iff (packets : List L4Event) (ev : L4Event) : ReadsAfter packets ev ↔
    InHeaders packets ∨ ((∀ ev ∈ packets, Stalls ev) ∧ CompleteLine ev.payload) := by
  constructor
  · rintro ⟨idle, headers, rfl, hidle, ⟨opening, rest, hopened, hline⟩, hheaders⟩
    cases headers with
    | nil =>
      right
      rw [List.append_nil]
      obtain rfl : ev = opening := (List.cons_eq_cons.mp hopened).1
      exact ⟨hidle, hline⟩
    | cons first headers =>
      left
      obtain rfl : first = opening := (List.cons_eq_cons.mp hopened).1
      exact ⟨idle, first :: headers, rfl, hidle, ⟨first, headers, rfl, hline⟩, hheaders⟩
  · rintro (⟨idle, headers, rfl, hidle, ⟨opening, rest, rfl, hline⟩, hheaders⟩ | ⟨hidle, hline⟩)
    · exact ⟨idle, opening :: rest, rfl, hidle, ⟨opening, rest ++ [ev], rfl, hline⟩, hheaders⟩
    · exact ⟨packets, [], (List.append_nil _).symm, hidle, ⟨ev, [], rfl, hline⟩, nofun⟩

theorem inHeaders_snoc (packets : List L4Event) (ev : L4Event) :
    InHeaders (packets ++ [ev]) ↔ ReadsAfter packets ev ∧ lengthLeft ev.payload = none := by
  constructor
  · rintro ⟨idle, headers, hsplit, hidle, hopened, hheaders⟩
    obtain ⟨front, last, rfl⟩ : ∃ front last, headers = front ++ [last] := by
      obtain ⟨opening, rest, rfl, -⟩ := hopened
      exact ⟨_, _, (List.dropLast_append_getLast (List.cons_ne_nil opening rest)).symm⟩
    rw [← List.append_assoc] at hsplit
    obtain ⟨rfl, hlast⟩ := List.append_inj' hsplit rfl
    obtain rfl := List.singleton_inj.mp hlast
    refine ⟨⟨idle, front, rfl, hidle, hopened, fun e he => ?_⟩, hheaders ev (by simp)⟩
    exact hheaders e (List.mem_append_left _ he)
  · rintro ⟨⟨idle, headers, rfl, hidle, hopened, hheaders⟩, hnone⟩
    refine ⟨idle, headers ++ [ev], List.append_assoc _ _ _, hidle, hopened, fun e he => ?_⟩
    rcases List.mem_append.mp he with he | he
    · exact hheaders e he
    · rw [List.mem_singleton.mp he]
      exact hnone

theorem inBody_snoc (packets : List L4Event) (ev : L4Event) (n : Nat) :
    InBody (packets ++ [ev]) n ↔ (InBody packets n ∧ (ev.payload = [] ∨ ev.isFIN = false)) ∨
      (ReadsAfter packets ev ∧ ∃ m, lengthLeft ev.payload = some m ∧ m % 2 ^ 32 = n) := by
  constructor
  · rintro ⟨idle, headers, last, body, hsplit, hidle, hopened, hheaders, hlast, hbody⟩
    rcases List.eq_nil_or_concat body with rfl | ⟨front, final, rfl⟩
    · right
      rw [List.append_nil, ← List.append_assoc] at hsplit
      obtain ⟨rfl, hend⟩ := List.append_inj' hsplit rfl
      obtain rfl := List.singleton_inj.mp hend
      exact ⟨⟨idle, headers, rfl, hidle, hopened, hheaders⟩, hlast⟩
    · left
      rw [List.concat_eq_append] at hsplit hbody
      rw [← List.append_assoc] at hsplit
      obtain ⟨rfl, hend⟩ := List.append_inj' hsplit rfl
      obtain rfl := List.singleton_inj.mp hend
      refine ⟨⟨idle, headers, last, front, rfl, hidle, hopened, hheaders, hlast, ?_⟩, ?_⟩
      · exact fun e he => hbody e (List.mem_append_left _ he)
      · exact hbody ev (by simp)
  · rintro (⟨⟨idle, headers, last, body, rfl, hidle, hopened, hheaders, hlast, hbody⟩, hrests⟩ |
      ⟨⟨idle, headers, rfl, hidle, hopened, hheaders⟩, hlast⟩)
    · refine ⟨idle, headers, last, body ++ [ev], List.append_assoc _ _ _, hidle, hopened, hheaders,
        hlast, fun e he => ?_⟩
      rcases List.mem_append.mp he with he | he
      · exact hbody e he
      · rw [List.mem_singleton.mp he]
        exact hrests
    · refine ⟨idle, headers, ev, [], ?_, hidle, hopened, hheaders, hlast, nofun⟩
      rw [List.append_nil, List.append_assoc]

theorem stageAfter_waiting_iff (packets : List L4Event) :
    stageAfter packets = .waiting ↔ ∀ ev ∈ packets, Stalls ev := by
  induction packets using List.reverseRecOn with
  | nil => exact iff_of_true rfl nofun
  | append_singleton packets ev ih =>
    rw [stageAfter_snoc, next_waiting_iff, ih]
    simp only [List.mem_append, List.mem_singleton, or_imp, forall_and, forall_eq]

theorem stageAfter_headers_iff (packets : List L4Event) :
    stageAfter packets = .headers ↔ InHeaders packets := by
  induction packets using List.reverseRecOn with
  | nil =>
    refine iff_of_false nofun ?_
    rintro ⟨idle, headers, hsplit, -, ⟨opening, rest, rfl, -⟩, -⟩
    simp at hsplit
  | append_singleton packets ev ih =>
    rw [stageAfter_snoc, next_headers_iff, inHeaders_snoc, readsAfter_iff, Stage.Reads, ih,
      stageAfter_waiting_iff]

theorem stageAfter_body_iff (packets : List L4Event) {n : Nat} (hn : n < 2 ^ 32) :
    stageAfter packets = .body (UInt32.ofNat n) ↔ InBody packets n := by
  induction packets using List.reverseRecOn with
  | nil =>
    refine iff_of_false nofun ?_
    rintro ⟨idle, headers, last, body, hsplit, -⟩
    simp at hsplit
  | append_singleton packets ev ih =>
    rw [stageAfter_snoc, next_body_iff, inBody_snoc, readsAfter_iff, Stage.Reads, ih,
      stageAfter_headers_iff, stageAfter_waiting_iff]
    simp only [ofNat_eq_iff hn]

/-! ## The packets on the table -/

/-- A table with one connection at most has room for it. -/
theorem Sound.room_for_one {t : Table} {conn : ConnKey} (h : Sound t)
    (honly : ∀ s key, taken t s = some key → key = conn) : ∃ s, Efsm.slotOf t conn = some s := by
  have hkeys : ∀ s key, taken t s = some key → key ∈ ({conn} : Finset ConnKey) := fun s key h =>
    Finset.mem_singleton.mpr (honly s key h)
  have hcard : ({conn} : Finset ConnKey).card ≤ tableSize := by
    rw [Finset.card_singleton]
    exact tableSize_pos
  have hsome := h.placed.locate_isSome hkeys (Finset.mem_singleton_self conn) hcard
  unfold Efsm.slotOf
  exact hsome

/-- The table knows the connection only, by the record that its packets leave. -/
theorem tableAfter_view (conn : ConnKey) (packets : List L4Event) :
    Sound (tableAfter conn packets) ∧
      (∀ s key, taken (tableAfter conn packets) s = some key → key = conn) ∧
      view (tableAfter conn packets) conn = recordAfter conn packets := by
  induction packets using List.reverseRecOn with
  | nil => exact ⟨sound_emptyTable, nofun, sound_emptyTable.view_of_absent nofun⟩
  | append_singleton packets ev ih =>
    obtain ⟨hsound, honly, hview⟩ := ih
    have hsnoc : tableAfter conn (packets ++ [ev]) =
        (feed (tableAfter conn packets) conn ev).1 := by
      unfold tableAfter
      rw [List.foldl_append, List.foldl_cons, List.foldl_nil]
    obtain ⟨hsound', -, hself, -⟩ := hsound.feed fun _ => hsound.room_for_one honly
    rw [hsnoc, recordAfter_snoc, ← hview]
    refine ⟨hsound', fun s key htaken => ?_, hself⟩
    rcases feed_taken htaken with hold | ⟨-, rfl⟩
    · exact honly s key hold
    · rfl

theorem recordAfter_key (conn : ConnKey) (packets : List L4Event) :
    (recordAfter conn packets).key = conn := by
  obtain ⟨hsound, -, hview⟩ := tableAfter_view conn packets
  rw [← hview]
  exact hsound.view_key conn

theorem feed_tableAfter (conn : ConnKey) (packets : List L4Event) {ev : L4Event} (h : OnHTTP ev) :
    (feed (tableAfter conn packets) conn ev).2 = (feedHTTP (recordAfter conn packets) ev).2 := by
  obtain ⟨hsound, honly, hview⟩ := tableAfter_view conn packets
  have hroom : carriesL7 ev = true → ∃ s, slotOf (tableAfter conn packets) conn = some s :=
    fun _ => hsound.room_for_one honly
  rw [(hsound.feed hroom).2.1, hview, serve_http h]

/-- What a `FIN` shows, on a connection that has seen its request line. -/
theorem fin_events_iff {record : ConnRecord} {s : Stage} (hat : record.At s) (hs : s ≠ .waiting)
    {fin : L4Event} (hfin : fin.isFIN = true) (k : UInt32) :
    (feedHTTP record fin).2.events =
        [{ kind := eventHTTPRequest, subject := record.key, payload0 := k }] ↔
      fin.payload ≠ [] ∧ s = .body k := by
  unfold feedHTTP
  by_cases hpayload : fin.payload = []
  · rw [if_pos hpayload]
    exact iff_of_false nofun fun h => h.1 hpayload
  rw [if_neg hpayload]
  simp only [hpayload, ne_eq, not_false_eq_true, true_and]
  cases s with
  | waiting => exact absurd rfl hs
  | headers =>
    obtain ⟨hstate, -⟩ := hat
    obtain ⟨hevents, -⟩ := feedHeaders_remaining hstate fin.payload []
    rw [hstate]
    dsimp only
    rw [hevents]
    exact iff_of_false nofun nofun
  | body n =>
    obtain ⟨hstate, rfl⟩ := hat
    rw [hstate]
    dsimp only
    rw [if_pos hfin]
    simp
  | done =>
    rcases hat with hstate | hstate
    · rw [hstate]
      exact iff_of_false nofun nofun
    · rw [hstate]
      exact iff_of_false nofun nofun

/-- When a header line is reported as malformed. -/
theorem header_fault_iff {record : ConnRecord} {s : Stage} (hat : record.At s) {ev : L4Event}
    (hline : s = .waiting → CompleteLine ev.payload) :
    (feedHTTP record ev).2.fault = some .malformedInput ↔
      (s = .waiting ∨ s = .headers) ∧ BadLength ev.payload := by
  by_cases hpayload : ev.payload = []
  · unfold feedHTTP
    rw [if_pos hpayload]
    exact iff_of_false nofun fun h => badLength_ne_nil h.2 hpayload
  cases s with
  | waiting =>
    rw [feedHTTP_of_waiting hat.1 hpayload]
    rcases feedRequest_cases hat.1 ev.payload with ⟨hnot, -⟩ | ⟨-, headers, touch, -, heq⟩
    · exact absurd (hline rfl) hnot
    · rw [heq, feedHeaders_malformed_iff]
      simp
  | headers =>
    unfold feedHTTP
    rw [if_neg hpayload, hat.1]
    dsimp only
    rw [feedHeaders_malformed_iff]
    simp
  | body n =>
    unfold feedHTTP
    rw [if_neg hpayload, hat.1]
    dsimp only
    refine iff_of_false ?_ fun h => by simp at h
    split
    · nofun
    · nofun
  | done =>
    unfold feedHTTP
    rw [if_neg hpayload]
    refine iff_of_false ?_ fun h => by simp at h
    rcases hat with hstate | hstate
    · rw [hstate]
      nofun
    · rw [hstate]
      nofun

/-! ## When the length is kept -/

section

variable {before : List L4Event} {header : L4Event} {between : List L4Event} {fin : L4Event}
  {n : Nat}

/-- After the request line the connection does not wait for one. -/
theorem Exchange.not_waiting (h : Exchange before header between fin n) :
    stageAfter (before ++ header :: between) ≠ .waiting := by
  rw [Ne, stageAfter_waiting_iff]
  intro hall
  obtain ⟨ev, hev, hline⟩ := h.request
  apply not_stalls_of_completeLine hline
  apply hall
  rcases List.mem_append.mp hev with hev | hev
  · exact List.mem_append_left _ hev
  · rw [List.mem_singleton.mp hev]
    simp

theorem Exchange.header_line (h : Exchange before header between fin n)
    (hwaiting : stageAfter before = .waiting) : CompleteLine header.payload := by
  rw [stageAfter_waiting_iff] at hwaiting
  obtain ⟨ev, hev, hline⟩ := h.request
  rcases List.mem_append.mp hev with hev | hev
  · exact absurd (hwaiting ev hev) (not_stalls_of_completeLine hline)
  · rwa [List.mem_singleton.mp hev] at hline

end

/-- For all packets of a connection on an HTTP port with a request line, a header line that
announces a length, and a `FIN` later: the `FIN` shows the length, or the header line is an error
when its number does not fit, exactly when the length is kept. -/
theorem body_completed_iff (conn : ConnKey) (before : List L4Event) (header : L4Event)
    (between : List L4Event) (fin : L4Event) (n : Nat)
    (h : Exchange before header between fin n) :
    BodyCompleted conn before header between fin n ↔ LengthKept before header between fin n := by
  have hbefore : ∀ ev ∈ before, OnHTTP ev := fun ev hev => h.http ev (List.mem_append_left _ hev)
  have hheader : OnHTTP header := h.http header (by simp)
  unfold BodyCompleted LengthKept
  by_cases hn : n < 2 ^ 32
  · have hall : ∀ ev ∈ before ++ header :: between, OnHTTP ev := by
      intro ev hev
      apply h.http
      rw [← List.cons_append, ← List.append_assoc]
      exact List.mem_append_left _ hev
    have hfin : OnHTTP fin := h.http fin (by simp)
    have hevents := fin_events_iff (recordAfter_at conn hall) h.not_waiting h.fin (UInt32.ofNat n)
    rw [recordAfter_key] at hevents
    rw [if_pos hn, if_pos hn, feed_tableAfter conn _ hfin, hevents, stageAfter_body_iff _ hn]
  · rw [if_neg hn, if_neg hn, feed_tableAfter conn _ hheader,
      header_fault_iff (recordAfter_at conn hbefore) h.header_line, stageAfter_waiting_iff,
      stageAfter_headers_iff]

/-- A whole request in one packet. -/
def postRequest : L4Event :=
  { l4Proto := l4TCP, dstPort := 80
    payload := lit "POST / HTTP/1.1\r\nContent-Length: 5\r\n\r\n" }

/-- A `FIN` with the body, and one without a payload. -/
def lastPacket : L4Event :=
  { l4Proto := l4TCP, dstPort := 80, tcpFlags := 1, payload := lit "hello" }

def bareFin : L4Event := { l4Proto := l4TCP, dstPort := 80, tcpFlags := 1 }

theorem exchange_post {fin : L4Event} (hhttp : OnHTTP fin) (hfin : fin.isFIN = true) :
    Exchange [] postRequest [] fin 5 where
  http := by
    intro ev hev
    rw [List.nil_append, List.nil_append] at hev
    rcases List.mem_cons.mp hev with rfl | hev
    · decide
    · rw [List.mem_singleton.mp hev]
      exact hhttp
  request := ⟨postRequest, List.mem_singleton_self _, by decide +kernel⟩
  announced := ⟨lit "POST / HTTP/1.1\r\n", lit "5", lit "\r\n", by decide +kernel,
    by decide +kernel⟩
  fin := hfin

theorem body_completed_post : BodyCompleted 7 [] postRequest [] lastPacket 5 := by
  have hexchange : Exchange [] postRequest [] lastPacket 5 := exchange_post (by decide) (by decide)
  apply (body_completed_iff 7 [] postRequest [] lastPacket 5 hexchange).mpr
  refine ⟨by decide, [], [], postRequest, [], rfl, nofun, ?_, nofun, ?_, nofun⟩
  · exact ⟨postRequest, [], rfl, by decide +kernel⟩
  · exact ⟨5, by decide +kernel, rfl⟩

/-- The `FIN` without a payload shows nothing. -/
theorem bare_fin_shows_nothing :
    Exchange [] postRequest [] bareFin 5 ∧ ¬ BodyCompleted 7 [] postRequest [] bareFin 5 := by
  have hexchange : Exchange [] postRequest [] bareFin 5 := exchange_post (by decide) (by decide)
  refine ⟨hexchange, fun hcompleted => ?_⟩
  have hbare : bareFin.payload = [] := rfl
  unfold BodyCompleted at hcompleted
  rw [if_pos (by decide), feed_tableAfter 7 _ (by decide), feedHTTP, if_pos hbare] at hcompleted
  cases hcompleted

end ZaqorinCore.Agent.Efsm
