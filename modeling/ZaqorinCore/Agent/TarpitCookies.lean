import ZaqorinCore.Agent.TarpitLru

/-!
# Which cookies verify

A pair of id and cookie verifies exactly when some `Accept` call returned it, no later call ended
that connection, and the connection is not older than the TTL. The ids repeat, so the cookie of
an earlier connection has to be told from that of a later one in the same slot: it is, when the
clock moves on between `Accept` calls and the HMAC separates the inputs it was given.
-/

namespace ZaqorinCore.Agent.Deception

open ZaqorinCore.Base ZaqorinCore.Text

/-! ## Two cookies for one id -/

/-- The id of subject 7 in the first slot. -/
def sampleID : UInt64 := connIDOf slotZero 7

/-- The cookie of a connection with this id. -/
def sampleCookie (now : Int64) : Bytes := (newTarpit [1] 0).computeCookie sampleID 7 now

/-- The HMAC tells two times of one connection apart. -/
theorem sampleCookie_ne : sampleCookie 100 ≠ sampleCookie 200 := by decide +kernel

/-! ## The key and the TTL never change -/

theorem sweepFrom_config {now : Int64} {fuel reaped n : Nat} {t t' : Tarpit} {curr : Option Slot}
    (h : Tarpit.sweepFrom now fuel t curr reaped = some (t', n)) :
    t'.ttl = t.ttl ∧ t'.key = t.key := by
  induction fuel generalizing t curr reaped with
  | zero =>
    cases curr with
    | none =>
      cases h
      exact ⟨rfl, rfl⟩
    | some i => cases h
  | succ fuel ih =>
    cases curr with
    | none =>
      cases h
      exact ⟨rfl, rfl⟩
    | some i =>
      simp only [Tarpit.sweepFrom] at h
      split at h
      · have hrest := ih h
        exact hrest
      · exact ih h

theorem accept_config {t : Tarpit} {l : List Slot} (h : Held t l) (subject : UInt32)
    (now : Int64) :
    (t.accept subject now).1.ttl = t.ttl ∧ (t.accept subject now).1.key = t.key := by
  obtain ⟨i, base, m, _, _, hcase, heq⟩ := h.accept subject now
  rw [heq]
  rcases hcase with ⟨rfl, _⟩ | ⟨rfl, _⟩
  · exact ⟨rfl, rfl⟩
  · exact ⟨rfl, rfl⟩

theorem take_config {t t' : Tarpit} {l : List Slot} {e : Event} (h : Held t l)
    (htake : t.take e = some t') : t'.ttl = t.ttl ∧ t'.key = t.key := by
  have hserve := take_eq_some htake
  obtain ⟨call, reply⟩ := e
  cases call with
  | accept subject now =>
    rw [serve_accept, Option.some.injEq, Prod.mk.injEq] at hserve
    obtain ⟨rfl, _⟩ := hserve
    exact accept_config h subject now
  | verify connID cookie now later =>
    rw [serve_verify, Option.some.injEq, Prod.mk.injEq] at hserve
    obtain ⟨rfl, _⟩ := hserve
    rcases h.verify connID cookie now later with ⟨_, heq⟩ | ⟨i, a, b, rfl, _, hcases⟩
    · rw [heq]
      exact ⟨rfl, rfl⟩
    · rcases hcases with ⟨_, heq⟩ | ⟨_, _, heq⟩ | ⟨_, _, heq⟩
      all_goals
        rw [heq]
        exact ⟨rfl, rfl⟩
  | release connID =>
    rw [serve_release, Option.some.injEq, Prod.mk.injEq] at hserve
    obtain ⟨rfl, _⟩ := hserve
    rcases h.releaseConn connID with ⟨_, heq⟩ | ⟨i, a, b, rfl, _, heq⟩
    all_goals
      rw [heq]
      exact ⟨rfl, rfl⟩
  | sweep now =>
    obtain ⟨p, hp, heq⟩ := Option.map_eq_some_iff.mp hserve
    cases heq
    exact sweepFrom_config hp

theorem run_config {key : Bytes} {ttl : Int64} {history : List Event} {t : Tarpit}
    (hrun : AnyRun Tarpit.take (newTarpit key ttl) history t) :
    t.ttl = (newTarpit key ttl).ttl ∧ t.key = key := by
  induction hrun with
  | nil => exact ⟨rfl, rfl⟩
  | snoc before _ taken ih =>
    obtain ⟨l, h⟩ := recorded_of_run before
    obtain ⟨httl, hkey⟩ := take_config h.held taken
    exact ⟨httl.trans ih.1, hkey.trans ih.2⟩

/-! ## Connections and the calls that opened them -/

theorem opened_eq_some {n : Nat} {e : Event} {c : Connection} (h : opened n e = some c) :
    c.number = n ∧ ∃ subject, e = (.accept subject c.openedAt, .accepted c.id c.cookie) := by
  obtain ⟨call, reply⟩ := e
  cases call <;> cases reply <;> cases h
  exact ⟨rfl, _, rfl⟩

/-- The call that opened the last connection with an id. -/
theorem exists_opened {past : List Event} {id : UInt64} {c : Connection}
    (h : lastOpened past id = some c) :
    ∃ newer e older, past = newer ++ e :: older ∧ opened (older.length + 1) e = some c := by
  induction past with
  | nil => cases h
  | cons e older ih =>
    rw [lastOpened] at h
    split at h
    · rename_i c' hopen
      split at h
      · cases h
        exact ⟨[], e, older, rfl, hopen⟩
      · obtain ⟨newer, f, rest, rfl, hf⟩ := ih h
        exact ⟨e :: newer, f, rest, rfl, hf⟩
    · obtain ⟨newer, f, rest, rfl, hf⟩ := ih h
      exact ⟨e :: newer, f, rest, rfl, hf⟩

/-- None of the calls since the opening one released, evicted, swept or replaced the connection. -/
def Kept (key : Bytes) (ttl : Int64) (earlier : List Event) (opening : Event) (c : Connection)
    (since : List Event) : Prop :=
  ∀ before e after m, since = before ++ e :: after →
    AnyRun Tarpit.take (newTarpit key ttl) (earlier ++ opening :: before) m →
    ¬ Removes m (earlier ++ opening :: before).reverse c e

section

variable {key : Bytes} {ttl : Int64} {earlier since : List Event} {opening : Event}
  {c : Connection} {t : Tarpit}

theorem kept_snoc {e : Event} {m : Tarpit}
    (hm : AnyRun Tarpit.take (newTarpit key ttl) (earlier ++ opening :: since) m) :
    Kept key ttl earlier opening c (since ++ [e]) ↔
      Kept key ttl earlier opening c since ∧
        ¬ Removes m (earlier ++ opening :: since).reverse c e := by
  constructor
  · intro hkept
    constructor
    · rintro before f after m' rfl hm'
      exact hkept before f (after ++ [e]) m' (by simp) hm'
    · exact hkept since e [] m rfl hm
  · rintro ⟨hkept, hlast⟩ before f after m' heq hm'
    cases after using List.reverseRecOn with
    | nil =>
      obtain ⟨rfl, hef⟩ := List.append_inj' heq rfl
      cases hef
      rw [hm'.unique hm]
      exact hlast
    | append_singleton after g _ =>
      rw [← List.cons_append, ← List.append_assoc] at heq
      obtain ⟨rfl, _⟩ := List.append_inj' heq rfl
      exact hkept before f after m' rfl hm'

/-- A connection is live exactly while no call has ended it. -/
theorem mem_connections_iff_kept
    (hrun : AnyRun Tarpit.take (newTarpit key ttl) (earlier ++ opening :: since) t)
    (hopen : opened (earlier.length + 1) opening = some c) :
    c ∈ t.connections (earlier ++ opening :: since).reverse ↔
      Kept key ttl earlier opening c since := by
  induction since using List.reverseRecOn generalizing t with
  | nil =>
    obtain ⟨m, hm, _, taken⟩ := run_snoc hrun
    obtain ⟨l, h⟩ := recorded_of_run hm
    obtain ⟨_, hadv⟩ := h.take taken
    have hmem := (hadv.connections c).mpr (Or.inl (by rw [List.length_reverse]; exact hopen))
    rw [List.reverse_append]
    refine iff_of_true hmem ?_
    intro before e after m' heq
    simp at heq
  | append_singleton since e ih =>
    rw [← List.cons_append, ← List.append_assoc] at hrun
    obtain ⟨m, hm, _, taken⟩ := run_snoc hrun
    obtain ⟨l, h⟩ := recorded_of_run hm
    obtain ⟨_, hadv⟩ := h.take taken
    have hpast : (earlier ++ opening :: (since ++ [e])).reverse =
        e :: (earlier ++ opening :: since).reverse := by simp
    rw [hpast, hadv.connections c, ih hm, kept_snoc hm]
    have hother : ¬ opened ((earlier ++ opening :: since).reverse.length + 1) e = some c := by
      intro hagain
      have hn := (opened_eq_some hagain).1
      rw [(opened_eq_some hopen).1, List.length_reverse, List.length_append,
        List.length_cons] at hn
      omega
    simp only [hother, false_or]

end

/-! ## Verification -/

theorem Recorded.verify_iff {t : Tarpit} {past : List Event} {l : List Slot}
    (h : Recorded t past l) (connID : UInt64) (cookie : Bytes) (now later : Int64) :
    (t.verify connID cookie now later).2 = .ok () ↔
      ∃ c ∈ t.connections past, c.id = connID ∧ c.cookie = cookie ∧
        timeSub now c.openedAt ≤ t.ttl.toInt := by
  constructor
  · intro hok
    rcases h.held.verify connID cookie now later with ⟨_, heq⟩ | ⟨i, a, b, rfl, hid, hcases⟩
    · rw [heq] at hok
      cases hok
    · obtain ⟨c, hlast, hcookie, hopened⟩ := h.opening i (by simp)
      rcases hcases with ⟨_, heq⟩ | ⟨_, _, heq⟩ | ⟨hsame, hexp, heq⟩
      · rw [heq] at hok
        cases hok
      · rw [heq] at hok
        cases hok
      · refine ⟨c, h.mem_connections_iff.mpr ⟨i, by simp, hlast⟩,
          (id_of_lastOpened hlast).trans hid, hcookie.symm.trans hsame, ?_⟩
        rw [← Bool.not_eq_true, h.expired_iff (by simp) hlast] at hexp
        exact not_lt.mp hexp
  · rintro ⟨c, hc, rfl, rfl, hage⟩
    obtain ⟨hlast, i, hne, hid, hcookie⟩ := hc
    have hi := (h.held.used i).mpr hne
    rw [← hid] at hlast
    have hexp : ¬ t.expired now i = true := by
      rw [h.expired_iff hi hlast]
      exact not_lt.mpr hage
    rcases h.held.verify c.id c.cookie now later with ⟨hnone, _⟩ | ⟨j, a, b, _, hid', hcases⟩
    · rw [h.held.find_iff.mpr ⟨hi, hid⟩] at hnone
      cases hnone
    · obtain rfl : i = j := h.held.slot_eq hne (hid.trans hid'.symm)
      rcases hcases with ⟨hdiff, _⟩ | ⟨_, hold, _⟩ | ⟨_, _, heq⟩
      · exact absurd hcookie hdiff
      · exact absurd hold hexp
      · rw [heq]

/-- The `Accept` calls with their ids, subjects and clock readings: the inputs of the HMAC. -/
def cookieInput : Event → Option (UInt64 × UInt32 × Int64)
  | (.accept subject now, .accepted connID _) => some (connID, subject, now)
  | _ => none

/-- The clock moves on between any two `Accept` calls. -/
def StrictClock (history : List Event) : Prop :=
  (history.filterMap cookieInput).Pairwise fun p q => p.2.2 < q.2.2

/-- The HMAC separates the inputs of the history. -/
def Separates (key : Bytes) (ttl : Int64) (history : List Event) : Prop :=
  Set.InjOn (fun p => (newTarpit key ttl).computeCookie p.1 p.2.1 p.2.2)
    {p | p ∈ history.filterMap cookieInput}

section

variable {key : Bytes} {ttl : Int64} {history : List Event} {t : Tarpit}

/-- The cookie of an `Accept` call is the HMAC of its inputs under the key. -/
theorem cookie_of_run (hrun : AnyRun Tarpit.take (newTarpit key ttl) history t)
    {subject : UInt32} {now : Int64} {connID : UInt64} {cookie : Bytes}
    (hmem : (.accept subject now, .accepted connID cookie) ∈ history) :
    cookie = (newTarpit key ttl).computeCookie connID subject now := by
  induction hrun with
  | nil => cases hmem
  | @snoc m u as e before _ taken ih =>
    rcases List.mem_append.mp hmem with hmem | hlast
    · exact ih hmem
    · rw [List.mem_singleton] at hlast
      subst hlast
      obtain ⟨l, h⟩ := recorded_of_run before
      obtain ⟨i, base, _, _, _, hcase, heq⟩ := h.held.accept subject now
      have hserve := take_eq_some taken
      rw [serve_accept, heq] at hserve
      simp only [Option.some.injEq, Prod.mk.injEq, Reply.accepted.injEq] at hserve
      obtain ⟨_, rfl, rfl⟩ := hserve
      have hkey : base.key = key := by
        rcases hcase with ⟨rfl, _⟩ | ⟨rfl, _⟩
        · exact (run_config before).2
        · exact (run_config before).2
      unfold Tarpit.computeCookie
      rw [hkey]
      rfl

/-- A pair verifies exactly when an `Accept` call returned it, the connection was kept since, and
it is not older than the TTL. -/
theorem verify_iff_kept (hrun : AnyRun Tarpit.take (newTarpit key ttl) history t)
    (connID : UInt64) (cookie : Bytes) (now later : Int64) :
    (t.verify connID cookie now later).2 = .ok () ↔
      ∃ earlier subject openedAt since,
        history = earlier ++ (.accept subject openedAt, .accepted connID cookie) :: since ∧
        Kept key ttl earlier (.accept subject openedAt, .accepted connID cookie)
          ⟨earlier.length + 1, connID, cookie, openedAt⟩ since ∧
        timeSub now openedAt ≤ (newTarpit key ttl).ttl.toInt := by
  obtain ⟨l, h⟩ := recorded_of_run hrun
  rw [h.verify_iff, (run_config hrun).1]
  constructor
  · rintro ⟨c, hc, rfl, rfl, hage⟩
    obtain ⟨newer, e, older, hpast, hopen⟩ := exists_opened hc.1
    have hhistory : history = older.reverse ++ e :: newer.reverse := by
      rw [← List.reverse_reverse history, hpast]
      simp
    obtain ⟨hnumber, subject, rfl⟩ := opened_eq_some hopen
    have hc' : c = ⟨older.reverse.length + 1, c.id, c.cookie, c.openedAt⟩ := by
      rw [List.length_reverse, ← hnumber]
    refine ⟨older.reverse, subject, c.openedAt, newer.reverse, hhistory, ?_, hage⟩
    rw [← hc']
    rw [hhistory] at hrun hc
    apply (mem_connections_iff_kept hrun _).mp hc
    rwa [List.length_reverse]
  · rintro ⟨earlier, subject, openedAt, since, rfl, hkept, hage⟩
    exact ⟨_, (mem_connections_iff_kept hrun rfl).mpr hkept, rfl, rfl, hage⟩

/-- Two places of a history are the same, or one comes after the other. -/
theorem split_cases {p q p' q' : List Event} {e e' : Event}
    (h : p ++ e :: q = p' ++ e' :: q') : (p = p' ∧ e = e' ∧ q = q') ∨ e' ∈ q ∨ e ∈ q' := by
  rcases List.append_eq_append_iff.mp h with ⟨mid, rfl, hmid⟩ | ⟨mid, rfl, hmid⟩
  · cases mid with
    | nil =>
      obtain ⟨rfl, rfl⟩ := List.cons.inj hmid
      exact Or.inl ⟨(List.append_nil p).symm, rfl, rfl⟩
    | cons f mid =>
      obtain ⟨rfl, rfl⟩ := List.cons.inj hmid
      exact Or.inr (Or.inl (List.mem_append_right _ List.mem_cons_self))
  · cases mid with
    | nil =>
      obtain ⟨rfl, rfl⟩ := List.cons.inj hmid
      exact Or.inl ⟨List.append_nil p', rfl, rfl⟩
    | cons f mid =>
      obtain ⟨rfl, rfl⟩ := List.cons.inj hmid
      exact Or.inr (Or.inr (List.mem_append_right _ List.mem_cons_self))

/-- Two `Accept` calls of a history with a strict clock return different cookies for one id. -/
theorem cookie_ne (hrun : AnyRun Tarpit.take (newTarpit key ttl) history t)
    (hclock : StrictClock history) (hmac : Separates key ttl history)
    {before after : List Event} {subject subject' : UInt32} {now now' : Int64} {connID : UInt64}
    {cookie cookie' : Bytes}
    (hsplit : history = before ++ (.accept subject now, .accepted connID cookie) :: after)
    (hlater : (.accept subject' now', .accepted connID cookie') ∈ after) : cookie ≠ cookie' := by
  subst hsplit
  have hmem : ∀ e ∈ after, e ∈ before ++ (.accept subject now, .accepted connID cookie) :: after :=
    fun e he => List.mem_append_right _ (List.mem_cons_of_mem _ he)
  intro hsame
  have hcookie := cookie_of_run hrun (List.mem_append_right before List.mem_cons_self)
  have hcookie' := cookie_of_run hrun (hmem _ hlater)
  rw [hcookie, hcookie'] at hsame
  have hfirst : (connID, subject, now) ∈ (before ++
      (.accept subject now, .accepted connID cookie) :: after).filterMap cookieInput :=
    List.mem_filterMap.mpr ⟨_, List.mem_append_right _ List.mem_cons_self, rfl⟩
  have hsecond : (connID, subject', now') ∈ (before ++
      (.accept subject now, .accepted connID cookie) :: after).filterMap cookieInput :=
    List.mem_filterMap.mpr ⟨_, hmem _ hlater, rfl⟩
  have heq := hmac hfirst hsecond hsame
  simp only [StrictClock, List.filterMap_append, List.filterMap_cons, cookieInput] at hclock
  have htail := (List.pairwise_append.mp hclock).2.1
  have hlt := (List.pairwise_cons.mp htail).1 (connID, subject', now')
    (List.mem_filterMap.mpr ⟨_, hlater, rfl⟩)
  simp only [Prod.mk.injEq, true_and] at heq
  rw [heq.2] at hlt
  exact Int64.lt_irrefl hlt

/-- The cookie of a connection whose id was given out again does not verify. -/
theorem reused_not_verified (hrun : AnyRun Tarpit.take (newTarpit key ttl) history t)
    (hclock : StrictClock history) (hmac : Separates key ttl history)
    {before after : List Event} {subject subject' : UInt32} {opened opened' : Int64}
    {connID : UInt64} {cookie cookie' : Bytes}
    (hsplit : history = before ++ (.accept subject opened, .accepted connID cookie) :: after)
    (hlater : (.accept subject' opened', .accepted connID cookie') ∈ after) (now later : Int64) :
    (t.verify connID cookie now later).2 ≠ .ok () := by
  intro hok
  obtain ⟨earlier, s, at', since, hsplit', hkept, _⟩ :=
    (verify_iff_kept hrun connID cookie now later).mp hok
  -- the pair was returned once: a second call would have returned another cookie
  rcases split_cases (hsplit.symm.trans hsplit') with ⟨rfl, heq, rfl⟩ | hmem | hmem
  · cases heq
    obtain ⟨between, rest, rfl⟩ := List.append_of_mem hlater
    rw [hsplit, ← List.cons_append, ← List.append_assoc] at hrun
    obtain ⟨m, hm, _⟩ := run_append hrun
    exact hkept between _ rest m rfl hm (.replaced rfl)
  · exact cookie_ne hrun hclock hmac hsplit hmem rfl
  · exact cookie_ne hrun hclock hmac hsplit' hmem rfl

end

/-- Validity of cookies over whole histories: what verifies, and that the cookie of an earlier
connection never passes for a later one with the same id. -/
theorem tarpit_cookie_validity {key : Bytes} {ttl : Int64} {history : List Event} {t : Tarpit}
    (hrun : AnyRun Tarpit.take (newTarpit key ttl) history t) (hclock : StrictClock history)
    (hmac : Separates key ttl history) (connID : UInt64) (cookie : Bytes) (now later : Int64) :
    ((t.verify connID cookie now later).2 = .ok () ↔
      ∃ earlier subject openedAt since,
        history = earlier ++ (.accept subject openedAt, .accepted connID cookie) :: since ∧
        Kept key ttl earlier (.accept subject openedAt, .accepted connID cookie)
          ⟨earlier.length + 1, connID, cookie, openedAt⟩ since ∧
        timeSub now openedAt ≤ (newTarpit key ttl).ttl.toInt) ∧
    ∀ before subject openedAt between subject' openedAt' cookie' after,
      history = before ++ (.accept subject openedAt, .accepted connID cookie) :: between ++
        (.accept subject' openedAt', .accepted connID cookie') :: after →
      (t.verify connID cookie now later).2 ≠ .ok () := by
  refine ⟨verify_iff_kept hrun connID cookie now later, ?_⟩
  intro before subject openedAt between subject' openedAt' cookie' after hsplit
  rw [List.append_assoc, List.cons_append] at hsplit
  exact reused_not_verified hrun hclock hmac hsplit
    (List.mem_append_right between List.mem_cons_self) now later

/-! ## A slot that is used again -/

theorem find_finRange_zero {n : Nat} (hn : 0 < n) {p : Fin n → Bool} (h : p ⟨0, hn⟩ = true) :
    (List.finRange n).find? p = some ⟨0, hn⟩ := by
  cases n with
  | zero => exact absurd hn (Nat.lt_irrefl 0)
  | succ n => exact List.finRange_succ ▸ List.find?_cons_of_pos h

/-- With the first slot free `Accept` takes it. -/
theorem accept_of_free {t : Tarpit} (h : t.isFree slotZero = true) (subject : UInt32)
    (now : Int64) : t.accept subject now = (t.occupy slotZero subject now,
      connIDOf slotZero subject, t.computeCookie (connIDOf slotZero subject) subject now) := by
  have hfind : (List.finRange maxEntries).find? t.isFree = some slotZero :=
    find_finRange_zero (by decide) h
  have hslot : t.acquireSlot = (t, slotZero) := by
    unfold Tarpit.acquireSlot
    rw [hfind]
  rw [Tarpit.accept, hslot]
  rfl

/-- Subject 7 is accepted, released, and accepted again in the same slot. -/
def reusedSlot : List Event :=
  [(.accept 7 100, .accepted sampleID (sampleCookie 100)), (.release sampleID, .released (.ok ())),
    (.accept 7 200, .accepted sampleID (sampleCookie 200))]

theorem exists_reusedSlot : ∃ t, AnyRun Tarpit.take (newTarpit [1] 0) reusedSlot t := by
  let t₀ := newTarpit [1] 0
  let t₁ := t₀.occupy slotZero 7 100
  let t₂ := t₁.release slotZero
  have hfirst : t₀.take (.accept 7 100, .accepted sampleID (sampleCookie 100)) = some t₁ := by
    rw [Tarpit.take, serve_accept, accept_of_free rfl]
    exact if_pos rfl
  have hrelease : t₁.take (.release sampleID, .released (.ok ())) = some t₂ := by
    have hfind : t₁.findByConnID sampleID = some slotZero := rfl
    rw [Tarpit.take, serve_release, Tarpit.releaseConn, hfind]
    exact if_pos rfl
  have hsecond : t₂.take (.accept 7 200, .accepted sampleID (sampleCookie 200)) =
      some (t₂.occupy slotZero 7 200) := by
    rw [Tarpit.take, serve_accept, accept_of_free (by decide)]
    exact if_pos rfl
  exact ⟨_, .snoc (.snoc (.single trivial hfirst) trivial hrelease) trivial hsecond⟩

/-- The new cookie verifies, the one of the released connection with the same id does not. -/
theorem tarpit_cookie_of_reused :
    ∃ t, AnyRun Tarpit.take (newTarpit [1] 0) reusedSlot t ∧
      (t.verify sampleID (sampleCookie 200) 250 250).2 = .ok () ∧
      (t.verify sampleID (sampleCookie 100) 250 250).2 ≠ .ok () := by
  obtain ⟨t, hrun⟩ := exists_reusedSlot
  have hinputs : reusedSlot.filterMap cookieInput = [(sampleID, 7, 100), (sampleID, 7, 200)] := rfl
  have hclock : StrictClock reusedSlot := by
    rw [StrictClock, hinputs]
    decide
  have hmac : Separates [1] 0 reusedSlot := by
    intro p hp q hq hsame
    rw [Set.mem_ofPred_eq, hinputs, List.mem_pair] at hp hq
    rcases hp with rfl | rfl <;> rcases hq with rfl | rfl
    · rfl
    · exact absurd hsame sampleCookie_ne
    · exact absurd hsame.symm sampleCookie_ne
    · rfl
  have hvalid := tarpit_cookie_validity hrun hclock hmac
  refine ⟨t, hrun, ?_, ?_⟩
  · refine (hvalid _ _ 250 250).1.mpr ⟨reusedSlot.take 2, 7, 200, [], rfl, ?_, by decide⟩
    intro before e after m heq
    simp at heq
  · exact (hvalid _ _ 250 250).2 [] 7 100 [(.release sampleID, .released (.ok ()))] 7 200 _ [] rfl

end ZaqorinCore.Agent.Deception
