import ZaqorinCore.Base.Layout
import ZaqorinCore.Base.Links
import ZaqorinCore.Base.Run
import ZaqorinCore.Text.Sha256

/-!
# The tarpit

`pkg/deception`: a fixed table of connections with an LRU list threaded through it. A slot whose
`connID` is zero is free. The links are `uint16` with the sentinel `noLink` in the source and
`Option Slot` here; the arrays start as zeros, so a free slot's links point at slot 0 until it is
used. Every method holds the mutex, so calls happen one after the other. A call carries the
clock readings it makes (`Time.UnixNano`).

`Held t l` is the representation invariant: the LRU list of `t` is `l`. Each method is described
once by what it does to `l`, and `tarpit_represented` is the invariant over all sequences of
calls.
-/

namespace ZaqorinCore.Agent.Deception

open ZaqorinCore.Base ZaqorinCore.Text

def entrySize : Nat := 256

def maxBytes : Nat := 4 * 1024 * 1024

def maxEntries : Nat := maxBytes / entrySize

/-- An index of the table. -/
abbrev Slot := Fin maxEntries

def slotZero : Slot := ⟨0, by decide⟩

/-- The errors of the package. -/
inductive Fault
  | unknownConnID
  | expiredConn
  | badCookie
  deriving DecidableEq, Repr

def Fault.text : Fault → String
  | unknownConnID => "deception: unknown connection id"
  | expiredConn => "deception: connection expired"
  | badCookie => "deception: bad cookie"

/-- One record of the table; all zero when the slot is free. -/
structure Entry where
  connID : UInt64 := 0
  subject : UInt32 := 0
  createdAt : Int64 := 0
  lastSeen : Int64 := 0
  cookie : Bytes := List.replicate 32 0
  bytesHeld : Nat := 0

structure Tarpit where
  entries : Slot → Entry
  links : Links Slot
  connIndex : UInt64 → Option Slot
  ttl : Int64
  key : Bytes

/-- `DefaultTTL`, five minutes in nanoseconds. -/
def defaultTTL : Int64 := 300000000000

def newTarpit (key : Bytes) (ttl : Int64) : Tarpit where
  entries _ := {}
  links :=
    { prev := fun _ => some slotZero
      next := fun _ => some slotZero
      head := none
      tail := none }
  connIndex _ := none
  ttl := if ttl ≤ 0 then defaultTTL else ttl
  key := key

/-- `Time.Sub`: the difference of two instants, clipped to the range of a `Duration`. -/
def timeSub (t u : Int64) : Int :=
  max (-2 ^ 63) (min (2 ^ 63 - 1) (t.toInt - u.toInt))

/-- The connection id carries the slot in its upper half and the subject in its lower half. -/
def connIDOf (idx : Slot) (subject : UInt32) : UInt64 :=
  (UInt64.ofNat idx.val + 1) <<< 32 ||| subject.toUInt64

namespace Tarpit

def computeCookie (t : Tarpit) (connID : UInt64) (subject : UInt32) (now : Int64) : Bytes :=
  hmacSha256 t.key
    (beBytes 8 connID.toNat ++ beBytes 4 subject.toNat ++ beBytes 8 now.toUInt64.toNat)

/-- `release`: clears an entry and takes it out of the LRU list. -/
def release (t : Tarpit) (idx : Slot) : Tarpit :=
  { t with
    links := t.links.unlink idx
    entries := Function.update t.entries idx {}
    connIndex := Function.update t.connIndex (t.entries idx).connID none }

def lruLinkHead (t : Tarpit) (idx : Slot) : Tarpit :=
  { t with links := t.links.pushHead idx }

def lruTouch (t : Tarpit) (idx : Slot) : Tarpit :=
  { t with links := t.links.moveToHead idx }

def findByConnID (t : Tarpit) (connID : UInt64) : Option Slot := t.connIndex connID

def isFree (t : Tarpit) (idx : Slot) : Bool := (t.entries idx).connID == 0

/-- The first free slot, or the slot of the evicted tail. A full table with an empty list takes
slot 0. -/
def acquireSlot (t : Tarpit) : Tarpit × Slot :=
  match (List.finRange maxEntries).find? t.isFree with
  | some idx => (t, idx)
  | none =>
    match t.links.tail with
    | none => (t, slotZero)
    | some evicted => (t.release evicted, evicted)

/-- The record that `Accept` writes for a new connection. -/
def newEntry (t : Tarpit) (idx : Slot) (subject : UInt32) (now : Int64) : Entry where
  connID := connIDOf idx subject
  subject := subject
  createdAt := now
  lastSeen := now
  cookie := t.computeCookie (connIDOf idx subject) subject now
  bytesHeld := entrySize

/-- A new connection in a slot that is free by now. -/
def occupy (t : Tarpit) (idx : Slot) (subject : UInt32) (now : Int64) : Tarpit :=
  let t := { t with entries := Function.update t.entries idx (t.newEntry idx subject now) }
  let t := t.lruLinkHead idx
  { t with connIndex := Function.update t.connIndex (connIDOf idx subject) (some idx) }

/-- `Accept`; its error is always nil. -/
def accept (t : Tarpit) (subject : UInt32) (now : Int64) : Tarpit × UInt64 × Bytes :=
  let (t, idx) := t.acquireSlot
  (t.occupy idx subject now, connIDOf idx subject, (t.newEntry idx subject now).cookie)

/-- The entry is older than the TTL. -/
def expired (t : Tarpit) (now : Int64) (idx : Slot) : Bool :=
  timeSub now (t.entries idx).createdAt > t.ttl.toInt

/-- The entry is seen at `later` and becomes the most recently used. -/
def renew (t : Tarpit) (idx : Slot) (later : Int64) : Tarpit :=
  let seen := { t.entries idx with lastSeen := later }
  { t with entries := Function.update t.entries idx seen }.lruTouch idx

/-- `Verify`, which reads the clock a second time when it succeeds. -/
def verify (t : Tarpit) (connID : UInt64) (cookie : Bytes) (now later : Int64) :
    Tarpit × Except Fault Unit :=
  match t.findByConnID connID with
  | none => (t, .error .unknownConnID)
  | some idx =>
    if (t.entries idx).cookie ≠ cookie then (t, .error .badCookie)
    else if t.expired now idx then (t.release idx, .error .expiredConn)
    else (t.renew idx later, .ok ())

/-- `Release`. -/
def releaseConn (t : Tarpit) (connID : UInt64) : Tarpit × Except Fault Unit :=
  match t.findByConnID connID with
  | none => (t, .error .unknownConnID)
  | some idx => (t.release idx, .ok ())

/-- The loop of `Sweep`, from the LRU end; `none` when it is cut off before it ends. -/
def sweepFrom (now : Int64) : Nat → Tarpit → Option Slot → Nat → Option (Tarpit × Nat)
  | _, t, none, reaped => some (t, reaped)
  | 0, _, some _, _ => none
  | fuel + 1, t, some curr, reaped =>
    let next := t.links.prev curr
    if t.expired now curr then sweepFrom now fuel (t.release curr) next (reaped + 1)
    else sweepFrom now fuel t next reaped

/-- `Sweep`. A loop that visits more cells than the table has does not end. -/
def sweep (t : Tarpit) (now : Int64) : Option (Tarpit × Nat) :=
  sweepFrom now maxEntries t t.links.tail 0

/-- `Len`. -/
def len (t : Tarpit) : Option Nat := countFrom t.links.next maxEntries t.links.head 0

end Tarpit

/-! ## Calls -/

inductive Call
  | accept (subject : UInt32) (now : Int64)
  | verify (connID : UInt64) (cookie : Bytes) (now later : Int64)
  | release (connID : UInt64)
  | sweep (now : Int64)
  deriving DecidableEq

inductive Reply
  | accepted (connID : UInt64) (cookie : Bytes)
  | verified (outcome : Except Fault Unit)
  | released (outcome : Except Fault Unit)
  | swept (reaped : Nat)
  deriving DecidableEq

/-- One call; `none` when a loop does not end. -/
def Tarpit.serve (t : Tarpit) : Call → Option (Tarpit × Reply)
  | .accept subject now =>
    let (t, connID, cookie) := t.accept subject now
    some (t, .accepted connID cookie)
  | .verify connID cookie now later =>
    let (t, outcome) := t.verify connID cookie now later
    some (t, .verified outcome)
  | .release connID =>
    let (t, outcome) := t.releaseConn connID
    some (t, .released outcome)
  | .sweep now => (t.sweep now).map fun (t, reaped) => (t, .swept reaped)

/-- A sequence of calls with the replies they get. -/
def Tarpit.serveAll (t : Tarpit) : List Call → Option (Tarpit × List Reply)
  | [] => some (t, [])
  | call :: calls => do
    let (t, reply) ← t.serve call
    let (t, replies) ← t.serveAll calls
    some (t, reply :: replies)

/-! ## Connection ids -/

/-- A number above the 32 bits of a subject. -/
theorem toNat_halves (n : Nat) (subject : UInt32) (hn : n < 2 ^ 31) :
    ((UInt64.ofNat n + 1) <<< 32 ||| subject.toUInt64).toNat =
      (n + 1) * 2 ^ 32 + subject.toNat := by
  have hs : subject.toNat < 2 ^ 32 := subject.toNat_lt
  have hidx : (UInt64.ofNat n + 1).toNat = n + 1 := by
    rw [UInt64.toNat_add, UInt64.toNat_ofNat']
    simp only [UInt64.toNat_one]
    omega
  have hshift : ((UInt64.ofNat n + 1) <<< 32).toNat = (n + 1) <<< 32 := by
    rw [UInt64.toNat_shiftLeft, hidx]
    have h32 : (32 : UInt64).toNat % 64 = 32 := by decide
    rw [h32, Nat.shiftLeft_eq]
    omega
  rw [UInt64.toNat_or, hshift, UInt32.toNat_toUInt64,
    ← Nat.shiftLeft_add_eq_or_of_lt hs, Nat.shiftLeft_eq]

theorem toNat_connIDOf (i : Slot) (subject : UInt32) :
    (connIDOf i subject).toNat = (i.val + 1) * 2 ^ 32 + subject.toNat := by
  have hi : i.val < 16384 := i.isLt
  exact toNat_halves i.val subject (by omega)

theorem connIDOf_ne_zero (i : Slot) (subject : UInt32) : connIDOf i subject ≠ 0 := by
  intro h
  have hnat := congrArg UInt64.toNat h
  rw [toNat_connIDOf] at hnat
  simp at hnat

/-- Ids of different slots differ. -/
theorem slot_eq_of_connIDOf {i j : Slot} {subject other : UInt32}
    (h : connIDOf i subject = connIDOf j other) : i = j := by
  have hnat := congrArg UInt64.toNat h
  rw [toNat_connIDOf, toNat_connIDOf] at hnat
  have hs : subject.toNat < 2 ^ 32 := subject.toNat_lt
  have ho : other.toNat < 2 ^ 32 := other.toNat_lt
  apply Fin.ext
  omega

/-! ## The representation invariant -/

/-- The table is represented by the list of its used slots, most recently used first. -/
structure Held (t : Tarpit) (l : List Slot) : Prop where
  lists : t.links.Lists l
  used : ∀ i, i ∈ l ↔ (t.entries i).connID ≠ 0
  coded : ∀ i, (t.entries i).connID ≠ 0 →
    (t.entries i).connID = connIDOf i (t.entries i).subject
  index : ∀ id i, t.connIndex id = some i ↔ id ≠ 0 ∧ (t.entries i).connID = id

namespace Held

variable {t : Tarpit} {l : List Slot}

/-- Two slots never hold the same id. -/
theorem slot_eq (h : Held t l) {i j : Slot} (hi : (t.entries i).connID ≠ 0)
    (hij : (t.entries i).connID = (t.entries j).connID) : i = j := by
  have hj : (t.entries j).connID ≠ 0 := hij ▸ hi
  rw [h.coded i hi, h.coded j hj] at hij
  exact slot_eq_of_connIDOf hij

theorem length_le (h : Held t l) : l.length ≤ maxEntries := by
  have hcard := h.lists.nodup.length_le_card
  rwa [Fintype.card_fin] at hcard

/-- With every slot used, the list has every slot. -/
theorem full_iff (h : Held t l) :
    (∀ i, (t.entries i).connID ≠ 0) ↔ l.length = maxEntries := by
  constructor
  · intro hfull
    have hall : l.toFinset = Finset.univ := by
      ext i
      simp [(h.used i).mpr (hfull i)]
    rw [← List.toFinset_card_of_nodup h.lists.nodup, hall, Finset.card_univ, Fintype.card_fin]
  · intro hlen i
    have hcard : l.toFinset.card = Fintype.card Slot := by
      rw [List.toFinset_card_of_nodup h.lists.nodup, hlen, Fintype.card_fin]
    have hall := (Finset.card_eq_iff_eq_univ _).mp hcard
    have hmem : i ∈ l.toFinset := hall ▸ Finset.mem_univ i
    exact (h.used i).mp (List.mem_toFinset.mp hmem)

theorem find_iff (h : Held t l) {id : UInt64} {i : Slot} :
    t.findByConnID id = some i ↔ i ∈ l ∧ (t.entries i).connID = id := by
  rw [Tarpit.findByConnID, h.index, h.used]
  constructor
  · rintro ⟨hne, rfl⟩
    exact ⟨hne, rfl⟩
  · rintro ⟨hne, rfl⟩
    exact ⟨hne, rfl⟩

end Held

theorem held_newTarpit (key : Bytes) (ttl : Int64) : Held (newTarpit key ttl) [] where
  lists := Links.Lists.of_empty rfl rfl
  used i := by simp [newTarpit]
  coded i hi := absurd rfl hi
  index id i := by
    simp only [newTarpit, reduceCtorEq, false_iff, not_and]
    exact fun hne h => hne h.symm

/-! ## What each helper does -/

section Helpers

variable {t : Tarpit} {l a b : List Slot} {i : Slot}

theorem release_entries_of_ne {j : Slot} (hj : j ≠ i) :
    (t.release i).entries j = t.entries j :=
  Function.update_of_ne hj _ _

/-- Releasing a listed slot frees it and takes it out of the list. -/
theorem Held.release (h : Held t (a ++ i :: b)) : Held (t.release i) (a ++ b) := by
  have hnot := h.lists.not_mem_split rfl
  have hi : (t.entries i).connID ≠ 0 := (h.used i).mp (by simp)
  constructor
  · exact h.lists.unlink
  · intro j
    by_cases hj : j = i
    · subst hj
      simp [Tarpit.release, hnot]
    · simp only [Tarpit.release, Function.update_of_ne hj, ← h.used j]
      simp [hj]
  · intro j hne
    by_cases hj : j = i
    · subst hj
      simp [Tarpit.release] at hne
    · simp only [Tarpit.release, Function.update_of_ne hj] at hne ⊢
      exact h.coded j hne
  · intro id j
    by_cases hid : id = (t.entries i).connID
    · subst hid
      simp only [Tarpit.release, Function.update_self, reduceCtorEq, false_iff, not_and]
      intro _ hsame
      by_cases hj : j = i
      · subst hj
        simp [hi.symm] at hsame
      · rw [Function.update_of_ne hj] at hsame
        exact hj (h.slot_eq hi hsame.symm).symm
    · simp only [Tarpit.release, Function.update_of_ne hid]
      rw [h.index]
      by_cases hj : j = i
      · subst hj
        simp only [Function.update_self]
        constructor
        · rintro ⟨_, rfl⟩
          exact absurd rfl hid
        · rintro ⟨hne, hzero⟩
          exact absurd hzero.symm hne
      · rw [Function.update_of_ne hj]

theorem occupy_entries_self (subject : UInt32) (now : Int64) :
    (t.occupy i subject now).entries i = t.newEntry i subject now :=
  Function.update_self i _ _

theorem occupy_entries_of_ne {j : Slot} (hj : j ≠ i) (subject : UInt32) (now : Int64) :
    (t.occupy i subject now).entries j = t.entries j :=
  Function.update_of_ne hj _ _

/-- A free slot is filled and put in front. -/
theorem Held.occupy (h : Held t l) (hi : i ∉ l) (subject : UInt32) (now : Int64) :
    Held (t.occupy i subject now) (i :: l) := by
  have hfree : (t.entries i).connID = 0 := by
    by_contra hne
    exact hi ((h.used i).mpr hne)
  have hnew : ∀ j, (t.entries j).connID ≠ connIDOf i subject := by
    intro j hsame
    have hne : (t.entries j).connID ≠ 0 := hsame ▸ connIDOf_ne_zero i subject
    have hij : j = i := by
      rw [h.coded j hne] at hsame
      exact slot_eq_of_connIDOf hsame
    exact hne (hij ▸ hfree)
  constructor
  · exact h.lists.pushHead hi
  · intro j
    by_cases hj : j = i
    · subst hj
      simp [Tarpit.occupy, Tarpit.lruLinkHead, Tarpit.newEntry, connIDOf_ne_zero]
    · simp only [Tarpit.occupy, Tarpit.lruLinkHead, Function.update_of_ne hj, List.mem_cons, hj,
        false_or]
      exact h.used j
  · intro j hne
    by_cases hj : j = i
    · subst hj
      simp [Tarpit.occupy, Tarpit.lruLinkHead, Tarpit.newEntry]
    · simp only [Tarpit.occupy, Tarpit.lruLinkHead, Function.update_of_ne hj] at hne ⊢
      exact h.coded j hne
  · intro id j
    by_cases hid : id = connIDOf i subject
    · subst hid
      simp only [Tarpit.occupy, Tarpit.lruLinkHead, Function.update_self, Option.some.injEq]
      constructor
      · rintro rfl
        simp [Tarpit.newEntry, connIDOf_ne_zero]
      · rintro ⟨_, hsame⟩
        by_contra hj
        rw [Function.update_of_ne (Ne.symm hj)] at hsame
        exact hnew j hsame
    · simp only [Tarpit.occupy, Tarpit.lruLinkHead, Function.update_of_ne hid]
      rw [h.index]
      by_cases hj : j = i
      · subst hj
        rw [Function.update_self, hfree]
        constructor
        · rintro ⟨hne, hzero⟩
          exact absurd hzero.symm hne
        · rintro ⟨_, hsame⟩
          exact absurd hsame.symm hid
      · rw [Function.update_of_ne hj]

theorem renew_entries_of_ne {j : Slot} (hj : j ≠ i) (later : Int64) :
    (t.renew i later).entries j = t.entries j :=
  Function.update_of_ne hj _ _

/-- Only the time of the last use changes. -/
theorem renew_entries (j : Slot) (later : Int64) :
    ∃ seen, (t.renew i later).entries j = { t.entries j with lastSeen := seen } := by
  by_cases hj : j = i
  · subst hj
    exact ⟨later, Function.update_self j _ _⟩
  · exact ⟨(t.entries j).lastSeen, renew_entries_of_ne hj later⟩

@[simp]
theorem renew_connID (j : Slot) (later : Int64) :
    ((t.renew i later).entries j).connID = (t.entries j).connID := by
  obtain ⟨seen, heq⟩ := renew_entries (t := t) (i := i) j later
  rw [heq]

/-- A successful verification moves the slot to the front. -/
theorem Held.renew (h : Held t (a ++ i :: b)) (later : Int64) :
    Held (t.renew i later) (i :: (a ++ b)) := by
  constructor
  · exact h.lists.moveToHead
  · intro j
    rw [renew_connID, ← h.used j]
    simp only [List.mem_cons, List.mem_append]
    tauto
  · intro j hne
    rw [renew_connID] at hne
    obtain ⟨seen, heq⟩ := renew_entries (t := t) (i := i) j later
    rw [heq]
    exact h.coded j hne
  · intro id j
    rw [renew_connID]
    exact h.index id j

/-- `acquireSlot` finds a free slot or, in a full table, frees the last of the list. -/
theorem Held.acquireSlot (h : Held t l) :
    (∃ i, i ∉ l ∧ t.acquireSlot = (t, i)) ∨
    (∃ a i, l = a ++ [i] ∧ l.length = maxEntries ∧ t.acquireSlot = (t.release i, i)) := by
  unfold Tarpit.acquireSlot
  cases hfind : (List.finRange maxEntries).find? t.isFree with
  | some i =>
    have hfree := List.find?_some hfind
    refine Or.inl ⟨i, ?_, rfl⟩
    rw [h.used, not_not]
    simpa [Tarpit.isFree] using hfree
  | none =>
    have hfull : ∀ i, (t.entries i).connID ≠ 0 := by
      intro i
      have hnot := List.find?_eq_none.mp hfind i (List.mem_finRange i)
      simpa [Tarpit.isFree] using hnot
    have hlen := h.full_iff.mp hfull
    right
    cases l using List.reverseRecOn with
    | nil => exact absurd hlen (by decide)
    | append_singleton a i _ =>
      have htail : t.links.tail = some i := by
        rw [h.lists.tail, List.getLast?_concat]
      exact ⟨a, i, rfl, hlen, by rw [htail]⟩

theorem release_expired_of_ne {j : Slot} (hj : j ≠ i) (now : Int64) :
    (t.release i).expired now j = t.expired now j := by
  unfold Tarpit.expired
  rw [release_entries_of_ne hj]
  rfl

end Helpers

/-! ## What each method does -/

section Methods

variable {t : Tarpit} {l : List Slot}

/-- `Accept` puts the new connection in front, in a free slot or in the slot of the last
connection of a full table. -/
theorem Held.accept (h : Held t l) (subject : UInt32) (now : Int64) :
    ∃ i base m, Held base m ∧ i ∉ m ∧
      ((base = t ∧ m = l ∧ l.length < maxEntries) ∨
        (base = t.release i ∧ l = m ++ [i] ∧ l.length = maxEntries)) ∧
      t.accept subject now = (base.occupy i subject now, connIDOf i subject,
        base.computeCookie (connIDOf i subject) subject now) := by
  rcases h.acquireSlot with ⟨i, hi, heq⟩ | ⟨m, i, rfl, hlen, heq⟩
  · refine ⟨i, t, l, h, hi, Or.inl ⟨rfl, rfl, ?_⟩, ?_⟩
    · apply lt_of_le_of_ne h.length_le
      intro hlen
      exact hi ((h.used i).mpr (h.full_iff.mpr hlen i))
    · simp only [Tarpit.accept, heq, Tarpit.newEntry]
  · have hrest := h.release
    rw [List.append_nil] at hrest
    refine ⟨i, t.release i, m, hrest, (h.lists.not_mem_split rfl).1,
      Or.inr ⟨rfl, rfl, hlen⟩, ?_⟩
    simp only [Tarpit.accept, heq, Tarpit.newEntry]

/-- The loop of `Sweep` with the slots of `m` still to visit and those of `kept` behind it. -/
theorem Held.sweepFrom (now : Int64) {m kept : List Slot} (h : Held t (m ++ kept)) {fuel : Nat}
    (hfuel : m.length ≤ fuel) (reaped : Nat) :
    ∃ t', Tarpit.sweepFrom now fuel t m.getLast? reaped =
        some (t', reaped + (m.filter (t.expired now)).length) ∧
      Held t' (m.filter (fun i => !t.expired now i) ++ kept) ∧
      ∀ j ∈ m.filter (fun i => !t.expired now i) ++ kept, t'.entries j = t.entries j := by
  induction m using List.reverseRecOn generalizing t kept fuel reaped with
  | nil =>
    refine ⟨t, ?_, h, fun _ _ => rfl⟩
    cases fuel <;> rfl
  | append_singleton m i ih =>
    rw [List.length_append, List.length_singleton] at hfuel
    obtain ⟨fuel, rfl⟩ : ∃ n, fuel = n + 1 := ⟨fuel - 1, by omega⟩
    rw [List.append_assoc, List.singleton_append] at h
    have hprev := h.lists.prev m i kept rfl
    have hnot := h.lists.not_mem_split rfl
    rw [List.getLast?_concat, Tarpit.sweepFrom, hprev]
    by_cases hexp : t.expired now i = true
    · have hsame : ∀ j ∈ m, (t.release i).expired now j = t.expired now j := by
        intro j hj
        have hne : j ≠ i := fun hji => hnot.1 (hji ▸ hj)
        exact release_expired_of_ne hne now
      have hgone : m.filter ((t.release i).expired now) = m.filter (t.expired now) :=
        List.filter_congr hsame
      have hstay : m.filter (fun j => !(t.release i).expired now j) =
          m.filter (fun j => !t.expired now j) :=
        List.filter_congr fun j hj => by rw [hsame j hj]
      obtain ⟨t', hrun, hheld, hentries⟩ := @ih _ _ h.release fuel (by omega) (reaped + 1)
      rw [hgone] at hrun
      rw [hstay] at hheld hentries
      refine ⟨t', ?_, ?_, ?_⟩
      · simp only [hexp, if_true]
        rw [hrun]
        simp [List.filter_append, hexp]
        omega
      · simpa [List.filter_append, hexp] using hheld
      · intro j hj
        have hj' : j ∈ m.filter (fun j => !t.expired now j) ++ kept := by
          simpa [List.filter_append, hexp] using hj
        have hne : j ≠ i := by
          rintro rfl
          rcases List.mem_append.mp hj' with hm | hk
          · exact hnot.1 (List.mem_of_mem_filter hm)
          · exact hnot.2 hk
        rw [hentries j hj', release_entries_of_ne hne]
    · obtain ⟨t', hrun, hheld, hentries⟩ := @ih _ _ h fuel (by omega) reaped
      refine ⟨t', ?_, ?_, ?_⟩
      · simp only [hexp, Bool.false_eq_true, if_false]
        rw [hrun]
        simp [List.filter_append, hexp]
      · simpa [List.filter_append, hexp] using hheld
      · intro j hj
        apply hentries
        simpa [List.filter_append, hexp] using hj

/-- `Sweep` ends, and keeps the slots that are not expired in their order. -/
theorem Held.sweep (h : Held t l) (now : Int64) {fuel : Nat} (hfuel : maxEntries ≤ fuel) :
    ∃ t', Tarpit.sweepFrom now fuel t t.links.tail 0 =
        some (t', (l.filter (t.expired now)).length) ∧
      Held t' (l.filter fun i => !t.expired now i) ∧
      ∀ j ∈ l.filter (fun i => !t.expired now i), t'.entries j = t.entries j := by
  have hle := h.length_le
  rw [← List.append_nil l] at h
  obtain ⟨t', hrun, hheld, hentries⟩ := h.sweepFrom now (le_trans hle hfuel) 0
  rw [List.append_nil] at h hheld hentries
  rw [Nat.zero_add] at hrun
  refine ⟨t', ?_, hheld, hentries⟩
  rw [h.lists.tail]
  exact hrun

/-- `Verify` by what it finds: no slot, another cookie, an expired entry, or a live one. -/
theorem Held.verify (h : Held t l) (connID : UInt64) (cookie : Bytes) (now later : Int64) :
    (t.findByConnID connID = none ∧
      t.verify connID cookie now later = (t, .error .unknownConnID)) ∨
    ∃ i a b, l = a ++ i :: b ∧ (t.entries i).connID = connID ∧
      (((t.entries i).cookie ≠ cookie ∧
          t.verify connID cookie now later = (t, .error .badCookie)) ∨
        ((t.entries i).cookie = cookie ∧ t.expired now i = true ∧
          t.verify connID cookie now later = (t.release i, .error .expiredConn)) ∨
        ((t.entries i).cookie = cookie ∧ t.expired now i = false ∧
          t.verify connID cookie now later = (t.renew i later, .ok ()))) := by
  unfold Tarpit.verify
  cases hfind : t.findByConnID connID with
  | none => exact Or.inl ⟨rfl, rfl⟩
  | some i =>
    obtain ⟨hi, hid⟩ := h.find_iff.mp hfind
    obtain ⟨a, b, hl⟩ := List.append_of_mem hi
    refine Or.inr ⟨i, a, b, hl, hid, ?_⟩
    by_cases hcookie : (t.entries i).cookie = cookie
    · cases hexp : t.expired now i with
      | true => exact Or.inr (Or.inl ⟨hcookie, rfl, by simp [hcookie, hexp]⟩)
      | false => exact Or.inr (Or.inr ⟨hcookie, rfl, by simp [hcookie, hexp]⟩)
    · exact Or.inl ⟨hcookie, by simp [hcookie]⟩

/-- `Release` by what it finds. -/
theorem Held.releaseConn (h : Held t l) (connID : UInt64) :
    (t.findByConnID connID = none ∧
      t.releaseConn connID = (t, .error .unknownConnID)) ∨
    ∃ i a b, l = a ++ i :: b ∧ (t.entries i).connID = connID ∧
      t.releaseConn connID = (t.release i, .ok ()) := by
  unfold Tarpit.releaseConn
  cases hfind : t.findByConnID connID with
  | none => exact Or.inl ⟨rfl, rfl⟩
  | some i =>
    obtain ⟨hi, hid⟩ := h.find_iff.mp hfind
    obtain ⟨a, b, hl⟩ := List.append_of_mem hi
    exact Or.inr ⟨i, a, b, hl, hid, rfl⟩

/-- Every call ends and keeps the invariant. -/
theorem Held.serve (h : Held t l) (call : Call) :
    ∃ t' reply l', t.serve call = some (t', reply) ∧ Held t' l' := by
  cases call with
  | accept subject now =>
    obtain ⟨i, base, m, hbase, hi, _, heq⟩ := h.accept subject now
    exact ⟨_, _, i :: m, by rw [Tarpit.serve, heq], hbase.occupy hi subject now⟩
  | verify connID cookie now later =>
    rcases h.verify connID cookie now later with ⟨_, heq⟩ | ⟨i, a, b, rfl, _, hcases⟩
    · exact ⟨t, .verified _, l, by rw [Tarpit.serve, heq], h⟩
    · rcases hcases with ⟨_, heq⟩ | ⟨_, _, heq⟩ | ⟨_, _, heq⟩
      · exact ⟨t, .verified _, _, by rw [Tarpit.serve, heq], h⟩
      · exact ⟨_, .verified _, _, by rw [Tarpit.serve, heq], h.release⟩
      · exact ⟨_, .verified _, _, by rw [Tarpit.serve, heq], h.renew later⟩
  | release connID =>
    rcases h.releaseConn connID with ⟨_, heq⟩ | ⟨i, a, b, rfl, _, heq⟩
    · exact ⟨t, .released _, l, by rw [Tarpit.serve, heq], h⟩
    · exact ⟨_, .released _, _, by rw [Tarpit.serve, heq], h.release⟩
  | sweep now =>
    obtain ⟨t', hrun, hheld, _⟩ := h.sweep now le_rfl
    exact ⟨t', .swept _, _, by rw [Tarpit.serve, Tarpit.sweep, hrun]; rfl, hheld⟩

theorem Held.serveAll (h : Held t l) (calls : List Call) :
    ∃ t' replies l', t.serveAll calls = some (t', replies) ∧ Held t' l' := by
  induction calls generalizing t l with
  | nil => exact ⟨t, [], l, rfl, h⟩
  | cons call calls ih =>
    obtain ⟨t₁, reply, l₁, hserve, h₁⟩ := h.serve call
    obtain ⟨t₂, replies, l₂, hrest, h₂⟩ := ih h₁
    exact ⟨t₂, reply :: replies, l₂, by simp [Tarpit.serveAll, hserve, hrest], h₂⟩

end Methods

/-! ## The invariant over all calls -/

/-- The state of a tarpit is consistent. -/
structure Represented (t : Tarpit) : Prop where
  /-- From the head, the forward links visit the used slots once each and end at the tail; the
  backward links from the tail are the reverse. -/
  list : ∃ l : List Slot, l.Nodup ∧ (∀ i, i ∈ l ↔ (t.entries i).connID ≠ 0) ∧
    Follows t.links.next t.links.head l ∧ t.links.tail = l.getLast? ∧
    Follows t.links.prev t.links.tail l.reverse
  ends : t.links.head = none ↔ t.links.tail = none
  empty : t.links.tail = none ↔ ∀ i, (t.entries i).connID = 0
  index : ∀ id idx, id ≠ 0 → (t.connIndex id = some idx ↔ (t.entries idx).connID = id)
  no_zero : t.connIndex 0 = none
  injective : ∀ id id' idx, t.connIndex id = some idx → t.connIndex id' = some idx → id = id'
  /-- The loop of `Len` ends, with the number of used slots. -/
  len : ∀ fuel, maxEntries ≤ fuel → ∃ n ≤ maxEntries,
    countFrom t.links.next fuel t.links.head 0 = some n ∧
    n = {i | (t.entries i).connID ≠ 0}.ncard
  /-- The loop of `Sweep` ends. -/
  sweep : ∀ now fuel, maxEntries ≤ fuel →
    (Tarpit.sweepFrom now fuel t t.links.tail 0).isSome = true
  /-- A full table has a last connection to evict. -/
  evictable : (List.finRange maxEntries).find? t.isFree = none → t.links.tail ≠ none

theorem Held.represented {t : Tarpit} {l : List Slot} (h : Held t l) : Represented t := by
  have hempty : l = [] ↔ ∀ i, (t.entries i).connID = 0 := by
    constructor
    · rintro rfl i
      by_contra hne
      simpa using (h.used i).mpr hne
    · intro hall
      apply List.eq_nil_iff_forall_not_mem.mpr
      intro i hi
      exact (h.used i).mp hi (hall i)
  have hset : {i | (t.entries i).connID ≠ 0}.ncard = l.length := by
    have hcoe : {i | (t.entries i).connID ≠ 0} = (l.toFinset : Set Slot) := by
      ext i
      simp [h.used i]
    rw [hcoe, Set.ncard_coe_finset, List.toFinset_card_of_nodup h.lists.nodup]
  constructor
  · exact ⟨l, h.lists.nodup, h.used, h.lists.follows_next, h.lists.tail, h.lists.follows_prev⟩
  · rw [h.lists.head_eq_none_iff, h.lists.tail_eq_none_iff]
  · rw [h.lists.tail_eq_none_iff, hempty]
  · intro id idx hne
    rw [h.index]
    exact and_iff_right hne
  · cases hzero : t.connIndex 0 with
    | none => rfl
    | some i => exact absurd rfl ((h.index 0 i).mp hzero).1
  · intro id id' idx hid hid'
    exact ((h.index id idx).mp hid).2.symm.trans ((h.index id' idx).mp hid').2
  · intro fuel hfuel
    refine ⟨l.length, h.length_le, ?_, hset.symm⟩
    rw [h.lists.follows_next.countFrom (le_trans h.length_le hfuel), Nat.zero_add]
  · intro now fuel hfuel
    obtain ⟨t', hrun, _⟩ := h.sweep now hfuel
    rw [hrun]
    rfl
  · intro hfull htail
    have hall := hempty.mp (h.lists.tail_eq_none_iff.mp htail) slotZero
    have hnot := List.find?_eq_none.mp hfull slotZero (List.mem_finRange _)
    exact hnot (by simp [Tarpit.isFree, hall])

/-- Every sequence of calls, with any arguments and any clock, is served to its end and leaves a
consistent state. -/
theorem tarpit_represented (key : Bytes) (ttl : Int64) (calls : List Call) :
    ∃ t replies, (newTarpit key ttl).serveAll calls = some (t, replies) ∧ Represented t := by
  obtain ⟨t, replies, l, hrun, h⟩ := (held_newTarpit key ttl).serveAll calls
  exact ⟨t, replies, hrun, h.represented⟩

end ZaqorinCore.Agent.Deception
