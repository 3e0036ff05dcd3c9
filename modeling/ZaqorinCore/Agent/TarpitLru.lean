import ZaqorinCore.Agent.Tarpit

/-!
# The eviction policy of the tarpit

A history is the list of the calls and the replies they got. A connection is named by the number
of the `Accept` call that opened it: connection ids are used again whenever a subject lands in
the same slot. `lastUse` is the number of the last call that accepted or verified an id, so the
policy "least recently used" is a statement about the history alone. `Recorded t past l` ties the
LRU list to it, and `Recorded.take` says which connections each call opens and removes.
-/

namespace ZaqorinCore.Agent.Deception

open ZaqorinCore.Base ZaqorinCore.Text

/-- A call with its reply. -/
abbrev Event := Call × Reply

/-- The state after a call that got the given reply. -/
def Tarpit.take (t : Tarpit) (e : Event) : Option Tarpit :=
  match t.serve e.1 with
  | some (t', reply) => if reply = e.2 then some t' else none
  | none => none

theorem take_eq_some {t t' : Tarpit} {e : Event} (h : t.take e = some t') :
    t.serve e.1 = some (t', e.2) := by
  unfold Tarpit.take at h
  cases hserve : t.serve e.1 with
  | none => simp [hserve] at h
  | some p =>
    obtain ⟨t₁, reply⟩ := p
    simp only [hserve] at h
    split at h
    · rename_i hreply
      cases h
      rw [hreply]
    · cases h

theorem serve_accept (t : Tarpit) (subject : UInt32) (now : Int64) :
    t.serve (.accept subject now) = some ((t.accept subject now).1,
      .accepted (t.accept subject now).2.1 (t.accept subject now).2.2) := by
  rw [Tarpit.serve]

theorem serve_verify (t : Tarpit) (connID : UInt64) (cookie : Bytes) (now later : Int64) :
    t.serve (.verify connID cookie now later) = some ((t.verify connID cookie now later).1,
      .verified (t.verify connID cookie now later).2) := by
  rw [Tarpit.serve]

theorem serve_release (t : Tarpit) (connID : UInt64) :
    t.serve (.release connID) =
      some ((t.releaseConn connID).1, .released (t.releaseConn connID).2) := by
  rw [Tarpit.serve]

/-- An `Accept` with the reply it gets. -/
def Tarpit.acceptEvent (t : Tarpit) (subject : UInt32) (now : Int64) : Event :=
  (.accept subject now, .accepted (t.accept subject now).2.1 (t.accept subject now).2.2)

theorem take_acceptEvent (t : Tarpit) (subject : UInt32) (now : Int64) :
    t.take (t.acceptEvent subject now) = some (t.accept subject now).1 := by
  unfold Tarpit.take
  rw [Tarpit.acceptEvent, serve_accept]
  exact if_pos rfl

/-! ## What a history says, newest call first -/

/-- A connection as its `Accept` call returned it. -/
structure Connection where
  number : Nat
  id : UInt64
  cookie : Bytes
  openedAt : Int64

/-- The call accepted the id or verified it. -/
def uses : Event → UInt64 → Bool
  | (.accept _ _, .accepted connID _), id => connID == id
  | (.verify connID _ _ _, .verified (.ok _)), id => connID == id
  | _, _ => false

/-- The number of the last call that accepted or verified the id. -/
def lastUse : List Event → UInt64 → Nat
  | [], _ => 0
  | e :: older, id => if uses e id then older.length + 1 else lastUse older id

/-- The connection that a call opens. -/
def opened (number : Nat) : Event → Option Connection
  | (.accept _ now, .accepted connID cookie) => some ⟨number, connID, cookie, now⟩
  | _ => none

/-- The connection that an `Accept` opens. -/
def Tarpit.acceptConnection (t : Tarpit) (past : List Event) (subject : UInt32) (now : Int64) :
    Connection :=
  ⟨past.length + 1, (t.accept subject now).2.1, (t.accept subject now).2.2, now⟩

/-- The last connection that was opened with the id. -/
def lastOpened : List Event → UInt64 → Option Connection
  | [], _ => none
  | e :: older, id =>
    match opened (older.length + 1) e with
    | some c => if c.id = id then some c else lastOpened older id
    | none => lastOpened older id

/-- The connections that are live: the table holds their id with their cookie. -/
def Tarpit.connections (t : Tarpit) (past : List Event) : Set Connection :=
  {c | lastOpened past c.id = some c ∧
    ∃ i, (t.entries i).connID ≠ 0 ∧ (t.entries i).connID = c.id ∧
      (t.entries i).cookie = c.cookie}

def Tarpit.Full (t : Tarpit) : Prop := ∀ i, (t.entries i).connID ≠ 0

/-- Every other id in the table was used later. -/
def Tarpit.LeastRecent (t : Tarpit) (past : List Event) (id : UInt64) : Prop :=
  ∀ i, (t.entries i).connID ≠ 0 → (t.entries i).connID ≠ id →
    lastUse past id < lastUse past (t.entries i).connID

/-- The ways in which a call ends a connection. -/
inductive Removes (t : Tarpit) (past : List Event) (c : Connection) : Event → Prop
  | released : Removes t past c (.release c.id, .released (.ok ()))
  | lapsed {cookie : Bytes} {now later : Int64} :
    Removes t past c (.verify c.id cookie now later, .verified (.error .expiredConn))
  | swept {now : Int64} {reaped : Nat} (old : timeSub now c.openedAt > t.ttl.toInt) :
    Removes t past c (.sweep now, .swept reaped)
  | evicted {subject : UInt32} {now : Int64} {reply : Reply} (full : t.Full)
    (least : t.LeastRecent past c.id) : Removes t past c (.accept subject now, reply)
  | replaced {subject : UInt32} {now : Int64} {id : UInt64} {cookie : Bytes}
    (slot : id.toNat / 2 ^ 32 = c.id.toNat / 2 ^ 32) :
    Removes t past c (.accept subject now, .accepted id cookie)

theorem lastUse_le (past : List Event) (id : UInt64) : lastUse past id ≤ past.length := by
  induction past with
  | nil => exact le_rfl
  | cons e older ih =>
    rw [lastUse, List.length_cons]
    split
    · exact le_rfl
    · exact le_trans ih (Nat.le_succ _)

theorem id_of_lastOpened {past : List Event} {id : UInt64} {c : Connection}
    (h : lastOpened past id = some c) : c.id = id := by
  induction past with
  | nil => cases h
  | cons e older ih =>
    rw [lastOpened] at h
    split at h
    · split at h
      · cases h
        assumption
      · exact ih h
    · exact ih h

theorem number_le_of_lastOpened {past : List Event} {id : UInt64} {c : Connection}
    (h : lastOpened past id = some c) : c.number ≤ past.length := by
  induction past with
  | nil => cases h
  | cons e older ih =>
    have hrest : lastOpened older id = some c → c.number ≤ (e :: older).length :=
      fun hlast => (ih hlast).trans (Nat.le_succ _)
    rw [lastOpened] at h
    cases hopen : opened (older.length + 1) e with
    | none =>
      rw [hopen] at h
      exact hrest h
    | some c' =>
      rw [hopen] at h
      dsimp only at h
      split at h
      · cases h
        obtain ⟨call, reply⟩ := e
        cases call <;> cases reply <;> cases hopen
        exact le_rfl
      · exact hrest h

theorem lastOpened_of_not_opened {past : List Event} {e : Event} (id : UInt64)
    (h : opened (past.length + 1) e = none) : lastOpened (e :: past) id = lastOpened past id := by
  rw [lastOpened, h]

theorem lastOpened_of_ne {past : List Event} {e : Event} {id : UInt64} {c : Connection}
    (h : opened (past.length + 1) e = some c) (hne : c.id ≠ id) :
    lastOpened (e :: past) id = lastOpened past id := by
  rw [lastOpened, h]
  exact if_neg hne

theorem lastOpened_of_opened {past : List Event} {e : Event} {c : Connection}
    (h : opened (past.length + 1) e = some c) : lastOpened (e :: past) c.id = some c := by
  rw [lastOpened, h]
  exact if_pos rfl

/-! ## The LRU list and the history -/

/-- The list is in the order of the last uses, and each entry is the connection that was last
opened with its id. -/
structure Recorded (t : Tarpit) (past : List Event) (l : List Slot) : Prop where
  held : Held t l
  sorted : l.Pairwise fun i j =>
    lastUse past (t.entries j).connID < lastUse past (t.entries i).connID
  opening : ∀ i ∈ l, ∃ c, lastOpened past (t.entries i).connID = some c ∧
    (t.entries i).cookie = c.cookie ∧ (t.entries i).createdAt = c.openedAt

theorem recorded_newTarpit (key : Bytes) (ttl : Int64) : Recorded (newTarpit key ttl) [] [] where
  held := held_newTarpit key ttl
  sorted := .nil
  opening i hi := by cases hi

namespace Recorded

variable {t t' : Tarpit} {past : List Event} {l m : List Slot} {e : Event}

theorem mem_connections_iff (h : Recorded t past l) {c : Connection} :
    c ∈ t.connections past ↔ ∃ i ∈ l, lastOpened past (t.entries i).connID = some c := by
  constructor
  · rintro ⟨hlast, i, hne, hid, _⟩
    exact ⟨i, (h.held.used i).mpr hne, by rw [hid, hlast]⟩
  · rintro ⟨i, hi, hlast⟩
    have hid := id_of_lastOpened hlast
    obtain ⟨c', hlast', hcookie, _⟩ := h.opening i hi
    rw [hlast] at hlast'
    cases hlast'
    exact ⟨hid ▸ hlast, i, (h.held.used i).mp hi, hid.symm, hcookie⟩

/-- A call that uses no id and leaves the slots of `l'` alone keeps their order. -/
theorem shrink {l' : List Slot} (h : Recorded t past l) (held' : Held t' l')
    (hsub : l'.Sublist l) (hentries : ∀ j ∈ l', t'.entries j = t.entries j)
    (huse : ∀ id, uses e id = false) (hopen : opened (past.length + 1) e = none) :
    Recorded t' (e :: past) l' := by
  constructor
  · exact held'
  · apply List.Pairwise.imp_of_mem _ (h.sorted.sublist hsub)
    intro i j hi hj hlt
    rw [hentries i hi, hentries j hj, lastUse, lastUse, huse, huse]
    exact hlt
  · intro j hj
    rw [hentries j hj, lastOpened_of_not_opened _ hopen]
    exact h.opening j (hsub.subset hj)

/-- A call that uses the id of the slot `i` puts it in front of the slots of `m`. -/
theorem front {i : Slot} (h : Recorded t past l) (held' : Held t' (i :: m)) (hsub : m.Sublist l)
    (hentries : ∀ j ∈ m, t'.entries j = t.entries j)
    (huse : ∀ id, uses e id = ((t'.entries i).connID == id))
    (hfront : ∃ c, lastOpened (e :: past) (t'.entries i).connID = some c ∧
      (t'.entries i).cookie = c.cookie ∧ (t'.entries i).createdAt = c.openedAt)
    (hkeep : ∀ j ∈ m, lastOpened (e :: past) (t.entries j).connID =
      lastOpened past (t.entries j).connID) :
    Recorded t' (e :: past) (i :: m) := by
  have hi := List.nodup_cons.mp held'.lists.nodup
  have hother : ∀ j ∈ m, uses e (t.entries j).connID = false := by
    intro j hj
    rw [huse, beq_eq_false_iff_ne]
    intro hsame
    rw [← hentries j hj] at hsame
    have hused := (held'.used i).mp List.mem_cons_self
    exact hi.1 (held'.slot_eq hused hsame ▸ hj)
  constructor
  · exact held'
  · rw [List.pairwise_cons]
    constructor
    · intro j hj
      rw [hentries j hj, lastUse, hother j hj, lastUse, huse, beq_self_eq_true, if_pos rfl,
        if_neg Bool.false_ne_true]
      exact Nat.lt_succ_of_le (lastUse_le past _)
    · apply List.Pairwise.imp_of_mem _ (h.sorted.sublist hsub)
      intro j k hj hk hlt
      rw [hentries j hj, hentries k hk, lastUse, lastUse, hother j hj, hother k hk]
      exact hlt
  · intro j hj
    rcases List.mem_cons.mp hj with rfl | hj
    · exact hfront
    · rw [hentries j hj, hkeep j hj]
      exact h.opening j (hsub.subset hj)

/-- The connections of the slots that stay are those that were live and are not removed. -/
theorem exists_mem_iff {p : Connection → Prop} (h : Recorded t past l) (hsub : m.Sublist l)
    (hstay : ∀ i ∈ l, ∀ c, lastOpened past (t.entries i).connID = some c → (i ∈ m ↔ ¬ p c))
    {c : Connection} : (∃ i ∈ m, lastOpened past (t.entries i).connID = some c) ↔
      c ∈ t.connections past ∧ ¬ p c := by
  rw [h.mem_connections_iff]
  constructor
  · rintro ⟨i, hi, hlast⟩
    have hl := hsub.subset hi
    exact ⟨⟨i, hl, hlast⟩, (hstay i hl c hlast).mp hi⟩
  · rintro ⟨⟨i, hi, hlast⟩, hp⟩
    exact ⟨i, (hstay i hi c hlast).mpr hp, hlast⟩

/-- The connections after a call that uses no id. -/
theorem mem_connections_shrink {l' : List Slot} (h : Recorded t past l)
    (h' : Recorded t' (e :: past) l') (hsub : l'.Sublist l)
    (hentries : ∀ j ∈ l', t'.entries j = t.entries j)
    (hopen : opened (past.length + 1) e = none)
    (hstay : ∀ i ∈ l, ∀ c, lastOpened past (t.entries i).connID = some c →
      (i ∈ l' ↔ ¬ Removes t past c e)) (c : Connection) :
    c ∈ t'.connections (e :: past) ↔
      opened (past.length + 1) e = some c ∨ (c ∈ t.connections past ∧ ¬ Removes t past c e) := by
  rw [h'.mem_connections_iff, hopen, ← h.exists_mem_iff hsub hstay]
  simp only [reduceCtorEq, false_or]
  constructor
  · rintro ⟨i, hi, hlast⟩
    refine ⟨i, hi, ?_⟩
    rwa [hentries i hi, lastOpened_of_not_opened _ hopen] at hlast
  · rintro ⟨i, hi, hlast⟩
    refine ⟨i, hi, ?_⟩
    rwa [hentries i hi, lastOpened_of_not_opened _ hopen]

end Recorded

/-- What a call does: the list is `l'` afterwards, and the live connections are the one it opened
and those it did not remove. -/
structure Advances (t : Tarpit) (past : List Event) (e : Event) (t' : Tarpit) (l' : List Slot) :
    Prop where
  recorded : Recorded t' (e :: past) l'
  connections : ∀ c, c ∈ t'.connections (e :: past) ↔
    opened (past.length + 1) e = some c ∨ (c ∈ t.connections past ∧ ¬ Removes t past c e)

namespace Recorded

variable {t t' : Tarpit} {past : List Event} {l m : List Slot} {e : Event}

theorem advances_shrink {l' : List Slot} (h : Recorded t past l) (held' : Held t' l')
    (hsub : l'.Sublist l) (hentries : ∀ j ∈ l', t'.entries j = t.entries j)
    (huse : ∀ id, uses e id = false) (hopen : opened (past.length + 1) e = none)
    (hstay : ∀ i ∈ l, ∀ c, lastOpened past (t.entries i).connID = some c →
      (i ∈ l' ↔ ¬ Removes t past c e)) :
    Advances t past e t' l' := by
  have h' := h.shrink held' hsub hentries huse hopen
  exact ⟨h', h.mem_connections_shrink h' hsub hentries hopen hstay⟩

/-- A call that removes nothing and uses nothing. -/
theorem advances_idle (h : Recorded t past l) (huse : ∀ id, uses e id = false)
    (hopen : opened (past.length + 1) e = none) (hnone : ∀ c, ¬ Removes t past c e) :
    Advances t past e t l :=
  h.advances_shrink h.held (List.Sublist.refl l) (fun _ _ => rfl) huse hopen
    fun _ hi c _ => iff_of_true hi (hnone c)

/-- A call that releases one slot. -/
theorem advances_release {a b : List Slot} {i : Slot} (h : Recorded t past (a ++ i :: b))
    (huse : ∀ id, uses e id = false) (hopen : opened (past.length + 1) e = none)
    (hremoves : ∀ c, Removes t past c e ↔ c.id = (t.entries i).connID) :
    Advances t past e (t.release i) (a ++ b) := by
  have hnot := h.held.lists.not_mem_split rfl
  have hne : ∀ j ∈ a ++ b, j ≠ i := by
    rintro j hj rfl
    exact (List.mem_append.mp hj).elim hnot.1 hnot.2
  apply h.advances_shrink h.held.release _ (fun j hj => release_entries_of_ne (hne j hj)) huse hopen
  · intro j hj c hlast
    rw [hremoves, id_of_lastOpened hlast]
    constructor
    · intro hmem hsame
      have hused := (h.held.used j).mp hj
      exact hne j hmem (h.held.slot_eq hused hsame)
    · intro hdiff
      have hji : j ≠ i := fun hji => hdiff (hji ▸ rfl)
      simpa [hji] using hj
  · exact (List.Sublist.refl a).append (List.sublist_cons_self i b)

/-- A successful verification removes nothing and puts its slot in front. -/
theorem advances_renew {a b : List Slot} {i : Slot} {connID : UInt64} {cookie : Bytes}
    {now later : Int64} (h : Recorded t past (a ++ i :: b))
    (hid : (t.entries i).connID = connID) :
    Advances t past (.verify connID cookie now later, .verified (.ok ())) (t.renew i later)
      (i :: (a ++ b)) := by
  have hnot := h.held.lists.not_mem_split rfl
  have hopen : opened (past.length + 1)
      (.verify connID cookie now later, .verified (.ok ())) = none := rfl
  have hentries : ∀ j ∈ a ++ b, (t.renew i later).entries j = t.entries j := by
    intro j hj
    apply renew_entries_of_ne
    rintro rfl
    exact (List.mem_append.mp hj).elim hnot.1 hnot.2
  have h' : Recorded (t.renew i later)
      ((.verify connID cookie now later, .verified (.ok ())) :: past) (i :: (a ++ b)) := by
    apply h.front (h.held.renew later) _ hentries
    · intro id
      rw [renew_connID, hid]
      rfl
    · obtain ⟨c, hlast, hsame⟩ := h.opening i (by simp)
      obtain ⟨seen, heq⟩ := renew_entries (t := t) (i := i) i later
      rw [heq, lastOpened_of_not_opened _ hopen]
      exact ⟨c, hlast, hsame⟩
    · exact fun j _ => lastOpened_of_not_opened _ hopen
    · exact (List.Sublist.refl a).append (List.sublist_cons_self i b)
  refine ⟨h', fun c => ?_⟩
  have hnone : ¬ Removes t past c (.verify connID cookie now later, .verified (.ok ())) := by
    intro hr
    cases hr
  rw [h'.mem_connections_iff, h.mem_connections_iff, hopen]
  simp only [renew_connID, lastOpened_of_not_opened _ hopen, reduceCtorEq, false_or, hnone,
    not_false_eq_true, and_true]
  have hmem : ∀ j, j ∈ i :: (a ++ b) ↔ j ∈ a ++ i :: b := by
    intro j
    simp only [List.mem_cons, List.mem_append]
    tauto
  simp only [hmem]

theorem advances_verify (h : Recorded t past l) (connID : UInt64) (cookie : Bytes)
    (now later : Int64) :
    ∃ l', Advances t past
      (.verify connID cookie now later, .verified (t.verify connID cookie now later).2)
      (t.verify connID cookie now later).1 l' := by
  rcases h.held.verify connID cookie now later with ⟨_, heq⟩ | ⟨i, a, b, rfl, hid, hcases⟩
  · rw [heq]
    exact ⟨l, h.advances_idle (fun _ => rfl) rfl (fun c hr => by cases hr)⟩
  · rcases hcases with ⟨_, heq⟩ | ⟨_, _, heq⟩ | ⟨_, _, heq⟩
    · rw [heq]
      exact ⟨_, h.advances_idle (fun _ => rfl) rfl (fun c hr => by cases hr)⟩
    · rw [heq]
      refine ⟨a ++ b, h.advances_release (fun _ => rfl) rfl fun c => ?_⟩
      rw [hid]
      constructor
      · intro hr
        cases hr
        rfl
      · rintro rfl
        exact .lapsed
    · rw [heq]
      exact ⟨i :: (a ++ b), h.advances_renew hid⟩

theorem advances_releaseConn (h : Recorded t past l) (connID : UInt64) :
    ∃ l', Advances t past (.release connID, .released (t.releaseConn connID).2)
      (t.releaseConn connID).1 l' := by
  rcases h.held.releaseConn connID with ⟨_, heq⟩ | ⟨i, a, b, rfl, hid, heq⟩
  · rw [heq]
    exact ⟨l, h.advances_idle (fun _ => rfl) rfl (fun c hr => by cases hr)⟩
  · rw [heq]
    refine ⟨a ++ b, h.advances_release (fun _ => rfl) rfl fun c => ?_⟩
    rw [hid]
    constructor
    · intro hr
      cases hr
      rfl
    · rintro rfl
      exact .released

/-- An entry is expired when its connection is older than the TTL. -/
theorem expired_iff (h : Recorded t past l) {i : Slot} (hi : i ∈ l) {c : Connection}
    (hlast : lastOpened past (t.entries i).connID = some c) (now : Int64) :
    t.expired now i = true ↔ timeSub now c.openedAt > t.ttl.toInt := by
  obtain ⟨c', hlast', _, hopened⟩ := h.opening i hi
  rw [hlast] at hlast'
  cases hlast'
  rw [Tarpit.expired, hopened, decide_eq_true_iff]

theorem advances_sweep (h : Recorded t past l) (now : Int64) :
    ∃ t', t.sweep now = some (t', (l.filter (t.expired now)).length) ∧
      Advances t past (.sweep now, .swept (l.filter (t.expired now)).length) t'
        (l.filter fun i => !t.expired now i) := by
  obtain ⟨t', hrun, held', hentries⟩ := h.held.sweep now le_rfl
  refine ⟨t', hrun, h.advances_shrink held' List.filter_sublist hentries (fun _ => rfl) rfl ?_⟩
  intro i hi c hlast
  have hexp := h.expired_iff hi hlast now
  rw [List.mem_filter, Bool.not_eq_true', ← Bool.not_eq_true, hexp]
  constructor
  · rintro ⟨_, hfresh⟩ hr
    cases hr with
    | swept old => exact hfresh old
  · intro hr
    exact ⟨hi, fun old => hr (.swept old)⟩

/-- The slot of an id is its upper half. -/
theorem connID_div (h : Held t l) {i : Slot} (hi : i ∈ l) :
    (t.entries i).connID.toNat / 2 ^ 32 = i.val + 1 := by
  have hlt : (t.entries i).subject.toNat < 2 ^ 32 := (t.entries i).subject.toNat_lt
  rw [h.coded i ((h.used i).mp hi), toNat_connIDOf]
  omega

theorem connIDOf_div (i : Slot) (subject : UInt32) :
    (connIDOf i subject).toNat / 2 ^ 32 = i.val + 1 := by
  have hlt : subject.toNat < 2 ^ 32 := subject.toNat_lt
  rw [toNat_connIDOf]
  omega

/-- The slots that `Accept` leaves alone are those of the connections it does not remove: in a
full table the last of the list goes, and the order of the list is that of the last uses. -/
theorem stays_iff {i : Slot} {base : Tarpit} {subject : UInt32} {now : Int64} {cookie : Bytes}
    (h : Recorded t past l) (hi : i ∉ m)
    (hcase : (base = t ∧ m = l ∧ l.length < maxEntries) ∨
      (base = t.release i ∧ l = m ++ [i] ∧ l.length = maxEntries)) :
    ∀ j ∈ l, ∀ c, lastOpened past (t.entries j).connID = some c →
      (j ∈ m ↔
        ¬ Removes t past c (.accept subject now, .accepted (connIDOf i subject) cookie)) := by
  intro j hj c hlast
  have hid := id_of_lastOpened hlast
  have hslot : j = i → j ∉ m := fun hji => hji ▸ hi
  have hreplaced : (connIDOf i subject).toNat / 2 ^ 32 = c.id.toNat / 2 ^ 32 → j ∉ m := by
    intro hsame
    rw [hid, connIDOf_div, connID_div h.held hj] at hsame
    exact hslot (Fin.ext (by omega))
  constructor
  · intro hm hr
    cases hr with
    | evicted full least =>
      rcases hcase with ⟨_, rfl, hlt⟩ | ⟨_, rfl, hlen⟩
      · exact absurd (h.held.full_iff.mp full) (by omega)
      · -- the last of the list was used before this one
        have hlast_i : i ∈ m ++ [i] := by simp
        have hsorted := (List.pairwise_append.mp h.sorted).2.2 j hm i (by simp)
        have hne : (t.entries i).connID ≠ c.id := by
          rw [hid]
          intro hsame
          have hij := h.held.slot_eq ((h.held.used i).mp hlast_i) hsame
          exact hi (hij ▸ hm)
        have hleast := least i ((h.held.used i).mp hlast_i) hne
        rw [hid] at hleast
        omega
    | replaced slot => exact hreplaced slot hm
  · intro hr
    rcases hcase with ⟨_, rfl, _⟩ | ⟨_, rfl, hlen⟩
    · exact hj
    · rcases List.mem_append.mp hj with hm | hlast_j
      · exact hm
      · obtain rfl : j = i := by simpa using hlast_j
        refine absurd (.evicted (h.held.full_iff.mpr hlen) ?_) hr
        intro k hk hne
        rw [hid] at hne ⊢
        have hk' := (h.held.used k).mpr hk
        rcases List.mem_append.mp hk' with hkm | hkj
        · exact (List.pairwise_append.mp h.sorted).2.2 k hkm j (by simp)
        · obtain rfl : k = j := by simpa using hkj
          exact absurd rfl hne

theorem advances_accept (h : Recorded t past l) (subject : UInt32) (now : Int64) :
    ∃ l', Advances t past (t.acceptEvent subject now) (t.accept subject now).1 l' := by
  obtain ⟨i, base, m, hbase, hi, hcase, heq⟩ := h.held.accept subject now
  rw [Tarpit.acceptEvent, heq]
  have hne : ∀ j ∈ m, j ≠ i := fun j hj hji => hi (hji ▸ hj)
  have hsub : m.Sublist l := by
    rcases hcase with ⟨_, rfl, _⟩ | ⟨_, rfl, _⟩
    · exact List.Sublist.refl m
    · exact List.sublist_append_left m [i]
  have hentries : ∀ j ∈ m, (base.occupy i subject now).entries j = t.entries j := by
    intro j hj
    rw [occupy_entries_of_ne (hne j hj)]
    rcases hcase with ⟨rfl, _⟩ | ⟨rfl, _⟩
    · rfl
    · exact release_entries_of_ne (hne j hj)
  have hself := occupy_entries_self (t := base) (i := i) subject now
  let c₀ : Connection := ⟨past.length + 1, connIDOf i subject,
    base.computeCookie (connIDOf i subject) subject now, now⟩
  have hopen : opened (past.length + 1) (.accept subject now, .accepted (connIDOf i subject)
      (base.computeCookie (connIDOf i subject) subject now)) = some c₀ := rfl
  have hkeep : ∀ j ∈ m, c₀.id ≠ (t.entries j).connID := by
    intro j hj hsame
    have hj' := hsub.subset hj
    have hdiv := congrArg (fun id => id.toNat / 2 ^ 32) hsame
    simp only [c₀, connIDOf_div, connID_div h.held hj'] at hdiv
    exact hne j hj (Fin.ext (by omega))
  have h' : Recorded (base.occupy i subject now) ((.accept subject now,
      .accepted (connIDOf i subject) (base.computeCookie (connIDOf i subject) subject now)) :: past)
      (i :: m) := by
    apply h.front (hbase.occupy hi subject now) hsub hentries
    · intro id
      rw [hself]
      rfl
    · rw [hself]
      exact ⟨c₀, lastOpened_of_opened hopen, rfl, rfl⟩
    · exact fun j hj => lastOpened_of_ne hopen (hkeep j hj)
  refine ⟨i :: m, h', fun c => ?_⟩
  rw [h'.mem_connections_iff, hopen, ← h.exists_mem_iff hsub (h.stays_iff hi hcase)]
  constructor
  · rintro ⟨j, hj, hlast⟩
    rcases List.mem_cons.mp hj with rfl | hj
    · rw [hself] at hlast
      exact Or.inl ((lastOpened_of_opened hopen).symm.trans hlast)
    · rw [hentries j hj, lastOpened_of_ne hopen (hkeep j hj)] at hlast
      exact Or.inr ⟨j, hj, hlast⟩
  · rintro (hc | ⟨j, hj, hlast⟩)
    · refine ⟨i, List.mem_cons_self, ?_⟩
      rw [hself]
      exact (lastOpened_of_opened hopen).trans hc
    · refine ⟨j, List.mem_cons_of_mem _ hj, ?_⟩
      rw [hentries j hj, lastOpened_of_ne hopen (hkeep j hj)]
      exact hlast

/-- What each call does, to the list and to the connections. -/
theorem take (h : Recorded t past l) (htake : t.take e = some t') :
    ∃ l', Advances t past e t' l' := by
  have hserve := take_eq_some htake
  obtain ⟨call, reply⟩ := e
  cases call with
  | accept subject now =>
    rw [serve_accept, Option.some.injEq, Prod.mk.injEq] at hserve
    obtain ⟨rfl, rfl⟩ := hserve
    exact h.advances_accept subject now
  | verify connID cookie now later =>
    rw [serve_verify, Option.some.injEq, Prod.mk.injEq] at hserve
    obtain ⟨rfl, rfl⟩ := hserve
    exact h.advances_verify connID cookie now later
  | release connID =>
    rw [serve_release, Option.some.injEq, Prod.mk.injEq] at hserve
    obtain ⟨rfl, rfl⟩ := hserve
    exact h.advances_releaseConn connID
  | sweep now =>
    obtain ⟨t₁, hrun, hadv⟩ := h.advances_sweep now
    rw [Tarpit.serve, hrun] at hserve
    cases hserve
    exact ⟨_, hadv⟩

/-- The number of slots that a sweep clears is the number of the connections it removes. -/
theorem length_expired (h : Recorded t past l) (now : Int64) :
    (l.filter (t.expired now)).length =
      {c ∈ t.connections past | timeSub now c.openedAt > t.ttl.toInt}.ncard := by
  have hslots : (l.filter (t.expired now)).length =
      {i | i ∈ l ∧ t.expired now i = true}.ncard := by
    have hcoe : {i | i ∈ l ∧ t.expired now i = true} =
        ((l.filter (t.expired now)).toFinset : Set Slot) := by
      ext i
      simp
    rw [hcoe, Set.ncard_coe_finset,
      List.toFinset_card_of_nodup (h.held.lists.nodup.filter _)]
  rw [hslots]
  have hget : ∀ i, i ∈ l → ∃ c, lastOpened past (t.entries i).connID = some c := by
    intro i hi
    obtain ⟨c, hlast, _⟩ := h.opening i hi
    exact ⟨c, hlast⟩
  apply Set.ncard_congr fun i hi => (hget i hi.1).choose
  · intro i hi
    have hlast := (hget i hi.1).choose_spec
    exact ⟨h.mem_connections_iff.mpr ⟨i, hi.1, hlast⟩, (h.expired_iff hi.1 hlast now).mp hi.2⟩
  · intro i j hi hj hsame
    have hlast := (hget i hi.1).choose_spec
    have hlast' := (hget j hj.1).choose_spec
    rw [← hsame] at hlast'
    apply h.held.slot_eq ((h.held.used i).mp hi.1)
    rw [← id_of_lastOpened hlast, id_of_lastOpened hlast']
  · rintro c ⟨hc, hold⟩
    obtain ⟨i, hi, hlast⟩ := h.mem_connections_iff.mp hc
    refine ⟨i, ⟨hi, (h.expired_iff hi hlast now).mpr hold⟩, ?_⟩
    exact Option.some.inj ((hget i hi).choose_spec.symm.trans hlast)

end Recorded

/-! ## Over whole histories -/

/-- The list is the recency order of the history, after every run. -/
theorem recorded_of_run {key : Bytes} {ttl : Int64} {history : List Event} {t : Tarpit}
    (hrun : AnyRun Tarpit.take (newTarpit key ttl) history t) :
    ∃ l, Recorded t history.reverse l := by
  induction hrun with
  | nil => exact ⟨[], recorded_newTarpit key ttl⟩
  | snoc _ _ taken ih =>
    obtain ⟨l, h⟩ := ih
    obtain ⟨l', hadv⟩ := h.take taken
    rw [List.reverse_append]
    exact ⟨l', hadv.recorded⟩

namespace Recorded

variable {t : Tarpit} {past : List Event} {l : List Slot}

/-- In a full table one live connection was used before all the others. -/
theorem exists_leastRecent (h : Recorded t past l) (full : t.Full) :
    ∃ v ∈ t.connections past, t.LeastRecent past v.id ∧
      ∀ c ∈ t.connections past, t.LeastRecent past c.id → c = v := by
  have hlen := h.held.full_iff.mp full
  cases l using List.reverseRecOn with
  | nil => exact absurd hlen (by decide)
  | append_singleton m i _ =>
    obtain ⟨v, hlast, _⟩ := h.opening i (by simp)
    have hid := id_of_lastOpened hlast
    refine ⟨v, h.mem_connections_iff.mpr ⟨i, by simp, hlast⟩, ?_, ?_⟩
    · intro k hk hne
      rw [hid] at hne ⊢
      rcases List.mem_append.mp ((h.held.used k).mpr hk) with hkm | hki
      · exact (List.pairwise_append.mp h.sorted).2.2 k hkm i (by simp)
      · obtain rfl : k = i := by simpa using hki
        exact absurd rfl hne
    · intro c hc hleast
      obtain ⟨j, hj, hlast'⟩ := h.mem_connections_iff.mp hc
      have hcid := id_of_lastOpened hlast'
      rcases List.mem_append.mp hj with hjm | hji
      · -- a slot further up the list was used after the last one
        have hlt := (List.pairwise_append.mp h.sorted).2.2 j hjm i (by simp)
        have hused := full i
        have hne : (t.entries i).connID ≠ c.id := by
          rw [hcid]
          intro hsame
          have hij := h.held.slot_eq hused hsame
          exact (h.held.lists.not_mem_split rfl).1 (hij ▸ hjm)
        have hlt' := hleast i hused hne
        rw [hcid] at hlt'
        omega
      · obtain rfl : j = i := by simpa using hji
        exact Option.some.inj (hlast'.symm.trans hlast)

theorem accept_connections (h : Recorded t past l) (subject : UInt32) (now : Int64)
    (c : Connection) :
    c ∈ (t.accept subject now).1.connections (t.acceptEvent subject now :: past) ↔
      opened (past.length + 1) (t.acceptEvent subject now) = some c ∨
        (c ∈ t.connections past ∧ ¬ Removes t past c (t.acceptEvent subject now)) := by
  obtain ⟨_, hadv⟩ := h.advances_accept subject now
  exact hadv.connections c

/-- A live connection is removed by `Accept` when the table is full and it was used before all
the others. -/
theorem removes_accept_iff (h : Recorded t past l) (subject : UInt32) (now : Int64)
    {c : Connection} (hc : c ∈ t.connections past) :
    Removes t past c (t.acceptEvent subject now) ↔ t.Full ∧ t.LeastRecent past c.id := by
  constructor
  · intro hr
    obtain ⟨i, base, m, _, hi, hcase, heq⟩ := h.held.accept subject now
    obtain ⟨j, hj, hlast⟩ := h.mem_connections_iff.mp hc
    have hevent : t.acceptEvent subject now = (.accept subject now,
        .accepted (connIDOf i subject) (base.computeCookie (connIDOf i subject) subject now)) := by
      rw [Tarpit.acceptEvent, heq]
    rw [hevent] at hr
    have hnot := (not_congr (h.stays_iff hi hcase j hj c hlast)).mpr (not_not.mpr hr)
    rcases hcase with ⟨_, rfl, _⟩ | ⟨_, rfl, hlen⟩
    · exact absurd hj hnot
    · obtain rfl : j = i := by simpa [hnot] using hj
      have full := h.held.full_iff.mpr hlen
      refine ⟨full, ?_⟩
      intro k hk hne
      rw [id_of_lastOpened hlast] at hne ⊢
      rcases List.mem_append.mp ((h.held.used k).mpr hk) with hkm | hkj
      · exact (List.pairwise_append.mp h.sorted).2.2 k hkm j (by simp)
      · obtain rfl : k = j := by simpa using hkj
        exact absurd rfl hne
  · rintro ⟨full, least⟩
    exact .evicted full least

end Recorded

/-- The eviction policy in a state with the given history, newest call first. -/
structure EvictionPolicy (t : Tarpit) (past : List Event) : Prop where
  /-- With a free slot `Accept` adds its connection to the live ones. -/
  room : ∀ subject now, ¬ t.Full →
    (t.accept subject now).1.connections (t.acceptEvent subject now :: past) =
      insert (t.acceptConnection past subject now) (t.connections past)
  /-- In a full table it takes the place of the one whose last use is the earliest. -/
  full : ∀ subject now, t.Full → ∃ v ∈ t.connections past,
    (∀ c ∈ t.connections past, c ≠ v → lastUse past v.id < lastUse past c.id) ∧
    (t.accept subject now).1.connections (t.acceptEvent subject now :: past) =
      insert (t.acceptConnection past subject now) (t.connections past \ {v})
  /-- `Sweep` removes the connections older than the TTL and returns their number. -/
  sweep : ∀ now, ∃ t' reaped, t.sweep now = some (t', reaped) ∧
    t'.connections ((.sweep now, .swept reaped) :: past) =
      {c ∈ t.connections past | ¬ timeSub now c.openedAt > t.ttl.toInt} ∧
    reaped = {c ∈ t.connections past | timeSub now c.openedAt > t.ttl.toInt}.ncard

theorem Recorded.policy {t : Tarpit} {past : List Event} {l : List Slot}
    (h : Recorded t past l) : EvictionPolicy t past := by
  constructor
  · intro subject now hroom
    ext c
    rw [h.accept_connections, Set.mem_insert_iff]
    apply or_congr
    · exact ⟨fun hc => (Option.some.inj hc).symm, fun hc => congrArg some hc.symm⟩
    · constructor
      · exact fun hc => hc.1
      · intro hc
        refine ⟨hc, ?_⟩
        rw [h.removes_accept_iff subject now hc]
        exact fun hr => hroom hr.1
  · intro subject now full
    obtain ⟨v, hv, hleast, honly⟩ := h.exists_leastRecent full
    refine ⟨v, hv, ?_, ?_⟩
    · rintro c ⟨hlast, i, hne, hid, _⟩ hcv
      have hids : (t.entries i).connID ≠ v.id := by
        intro hsame
        apply hcv
        have hvlast := hv.1
        rw [← hsame, hid, hlast] at hvlast
        exact Option.some.inj hvlast
      have hlt := hleast i hne hids
      rwa [hid] at hlt
    · ext c
      rw [h.accept_connections, Set.mem_insert_iff, Set.mem_sdiff, Set.mem_singleton_iff]
      apply or_congr
      · exact ⟨fun hc => (Option.some.inj hc).symm, fun hc => congrArg some hc.symm⟩
      · apply and_congr_right
        intro hc
        rw [h.removes_accept_iff subject now hc, not_iff_not]
        constructor
        · exact fun hr => honly c hc hr.2
        · rintro rfl
          exact ⟨full, hleast⟩
  · intro now
    obtain ⟨t', hrun, hadv⟩ := h.advances_sweep now
    refine ⟨t', _, hrun, ?_, h.length_expired now⟩
    ext c
    rw [hadv.connections c, Set.mem_sep_iff]
    simp only [opened, reduceCtorEq, false_or]
    apply and_congr_right
    intro _
    constructor
    · intro hr old
      exact hr (.swept old)
    · intro hfresh hr
      cases hr with
      | swept old => exact hfresh old

/-- After every history the tarpit evicts the least recently used connection, and a sweep removes
exactly the expired ones. -/
theorem tarpit_evicts_least_recent {key : Bytes} {ttl : Int64} {history : List Event} {t : Tarpit}
    (hrun : AnyRun Tarpit.take (newTarpit key ttl) history t) :
    EvictionPolicy t history.reverse := by
  obtain ⟨l, h⟩ := recorded_of_run hrun
  exact h.policy

/-- `Accept` calls fill any number of slots. -/
theorem exists_filled_table (key : Bytes) (ttl : Int64) (n : Nat) (hn : n ≤ maxEntries) :
    ∃ history t l, AnyRun Tarpit.take (newTarpit key ttl) history t ∧ Held t l ∧ l.length = n := by
  induction n with
  | zero => exact ⟨[], newTarpit key ttl, [], .nil _, held_newTarpit key ttl, rfl⟩
  | succ n ih =>
    obtain ⟨history, t, l, hrun, h, hlen⟩ := ih (Nat.le_of_succ_le hn)
    obtain ⟨i, base, m, hbase, hi, hcase, heq⟩ := h.accept 7 100
    have hheld := hbase.occupy hi 7 100
    refine ⟨_, (t.accept 7 100).1, i :: m, hrun.snoc trivial (take_acceptEvent t 7 100), ?_, ?_⟩
    · rw [heq]
      exact hheld
    · rcases hcase with ⟨_, rfl, _⟩ | ⟨_, _, hfull⟩
      · rw [List.length_cons, hlen]
      · omega

/-- A history that fills the table, and one more `Accept`, which evicts. -/
theorem tarpit_evicts_when_full :
    ∃ history t, AnyRun Tarpit.take (newTarpit [] 0) history t ∧ t.Full ∧
      (∃ v ∈ t.connections history.reverse, v ∉
        (t.accept 7 200).1.connections (history ++ [t.acceptEvent 7 200]).reverse) ∧
      EvictionPolicy (t.accept 7 200).1 (history ++ [t.acceptEvent 7 200]).reverse := by
  obtain ⟨history, t, l, hrun, h, hlen⟩ := exists_filled_table [] 0 maxEntries le_rfl
  have hfull : t.Full := h.full_iff.mpr hlen
  have hnext := hrun.snoc trivial (take_acceptEvent t 7 200)
  refine ⟨history, t, hrun, hfull, ?_, tarpit_evicts_least_recent hnext⟩
  obtain ⟨v, hv, _, hafter⟩ := (tarpit_evicts_least_recent hrun).full 7 200 hfull
  refine ⟨v, hv, ?_⟩
  rw [List.reverse_append]
  intro hmem
  rcases hafter ▸ hmem with hnew | ⟨_, hgone⟩
  · -- the new connection has a number of its own
    have hnumber := number_le_of_lastOpened hv.1
    rw [hnew] at hnumber
    exact absurd hnumber (Nat.not_succ_le_self _)
  · exact hgone rfl

end ZaqorinCore.Agent.Deception
