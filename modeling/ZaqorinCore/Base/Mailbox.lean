import ZaqorinCore.Base.Run

/-!
# Buffered channels

A channel of Go with a buffer, together with what has gone through it. A sender that does not wait
gives its item up when the buffer is full (`offer`, a `select` with a default branch); one that
waits cannot move until there is room (`put`). A mailbox carries its account with it: what was let
in is what was taken out followed by what the buffer holds, in this order. `offer_offers` says that
an item is given up exactly when the buffer holds `n`.
-/

namespace ZaqorinCore.Base

variable {α : Type} {n : Nat}

/-- What was let in, among the items with whether they were. -/
def letIn (offers : List (α × Bool)) : List α := (offers.filter Prod.snd).map Prod.fst

theorem letIn_append (a b : List (α × Bool)) : letIn (a ++ b) = letIn a ++ letIn b := by
  rw [letIn, List.filter_append, List.map_append]
  rfl

theorem letIn_concat (offers : List (α × Bool)) (x : α) (here : Bool) :
    letIn (offers ++ [(x, here)]) = letIn offers ++ if here then [x] else [] := by
  rw [letIn_append]
  cases here <;> rfl

/-- A mailbox with room for `n` items, the oldest first, and its history. -/
structure Mailbox (α : Type) (n : Nat) where
  queue : List α
  /-- the items that were sent, with whether there was room for them, the oldest first -/
  offers : List (α × Bool)
  /-- the items that were received, the oldest first -/
  received : List α
  within : queue.length ≤ n
  accounted : letIn offers = received ++ queue

namespace Mailbox

def empty : Mailbox α n where
  queue := []
  offers := []
  received := []
  within := Nat.zero_le n
  accounted := rfl

/-- There is room for an item. -/
def Room (m : Mailbox α n) : Prop := m.queue.length < n

instance (m : Mailbox α n) : Decidable m.Room := inferInstanceAs (Decidable (_ < _))

theorem within_put (m : Mailbox α n) (x : α) (room : m.Room) : (m.queue ++ [x]).length ≤ n := by
  rw [List.length_append]
  exact room

theorem accounted_put (m : Mailbox α n) (x : α) :
    letIn (m.offers ++ [(x, true)]) = m.received ++ (m.queue ++ [x]) := by
  rw [letIn_concat, if_pos rfl, m.accounted, List.append_assoc]

theorem accounted_giveUp (m : Mailbox α n) (x : α) :
    letIn (m.offers ++ [(x, false)]) = m.received ++ m.queue := by
  rw [letIn_concat, if_neg Bool.false_ne_true, List.append_nil, m.accounted]

theorem accounted_take {offers : List (α × Bool)} {received rest : List α} {x : α}
    (h : letIn offers = received ++ x :: rest) : letIn offers = received ++ [x] ++ rest := by
  rw [h, List.append_assoc, List.singleton_append]

theorem not_room_iff (m : Mailbox α n) : ¬ m.Room ↔ m.queue.length = n :=
  ⟨fun h => Nat.le_antisymm m.within (Nat.not_lt.mp h), fun h => Nat.not_lt.mpr h.ge⟩

/-- The item is let in. -/
def put (m : Mailbox α n) (x : α) (room : m.Room) : Mailbox α n where
  queue := m.queue ++ [x]
  offers := m.offers ++ [(x, true)]
  received := m.received
  within := m.within_put x room
  accounted := m.accounted_put x

/-- The item is given up. -/
def giveUp (m : Mailbox α n) (x : α) : Mailbox α n where
  queue := m.queue
  offers := m.offers ++ [(x, false)]
  received := m.received
  within := m.within
  accounted := m.accounted_giveUp x

/-- A send that does not wait. -/
def offer (m : Mailbox α n) (x : α) : Mailbox α n :=
  if room : m.Room then m.put x room else m.giveUp x

/-- A receive, which waits for an item. -/
def take : Mailbox α n → Option (α × Mailbox α n)
  | ⟨[], _, _, _, _⟩ => none
  | ⟨x :: rest, offers, received, within, accounted⟩ =>
    some (x, ⟨rest, offers, received ++ [x], Nat.le_of_succ_le within, accounted_take accounted⟩)

variable {m m' : Mailbox α n} {x : α}

@[simp] theorem put_queue (room : m.Room) : (m.put x room).queue = m.queue ++ [x] := rfl
@[simp] theorem put_offers (room : m.Room) : (m.put x room).offers = m.offers ++ [(x, true)] := rfl

theorem offer_queue (room : m.Room) : (m.offer x).queue = m.queue ++ [x] := by
  rw [offer, dif_pos room, put_queue]

@[simp]
theorem offer_received (m : Mailbox α n) (x : α) : (m.offer x).received = m.received := by
  unfold offer
  split <;> rfl

/-- A send that does not wait gives its item up when `n` items wait, and only then. -/
theorem offer_offers (m : Mailbox α n) (x : α) : ∃ here,
    (m.offer x).offers = m.offers ++ [(x, here)] ∧ (here = false ↔ m.queue.length = n) := by
  unfold offer
  split
  next room => exact ⟨true, rfl, nofun, fun h => absurd room (m.not_room_iff.mpr h)⟩
  next noRoom => exact ⟨false, rfl, fun _ => m.not_room_iff.mp noRoom, fun _ => rfl⟩

theorem take_eq_some (h : m.take = some (x, m')) :
    m.queue = x :: m'.queue ∧ m'.offers = m.offers ∧ m'.received = m.received ++ [x] := by
  obtain ⟨_ | ⟨y, rest⟩, offers, received, within, accounted⟩ := m
  · cases h
  · cases h
    exact ⟨rfl, rfl, rfl⟩

theorem take_eq_none_iff : m.take = none ↔ m.queue = [] := by
  obtain ⟨_ | ⟨y, rest⟩, offers, received, within, accounted⟩ := m
  · exact ⟨fun _ => rfl, fun _ => rfl⟩
  · exact ⟨fun h => (Option.some_ne_none _ h).elim, fun h => (List.cons_ne_nil _ _ h).elim⟩

end Mailbox

end ZaqorinCore.Base
