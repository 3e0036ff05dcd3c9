import ZaqorinCore.Agent.EfsmStrictness

/-!
# Connections do not see each other

`view t conn` is the record that the table has for a connection, a fresh one if it has none. A
packet of one connection leaves the views of all others alone, whatever the slots they collide in,
and is answered from the view of its own. So what a connection shows in an interleaved run is what
it shows alone, as long as the table is not asked to hold more connections than it has slots.
-/

namespace ZaqorinCore.Agent.Efsm

open ZaqorinCore.Base ZaqorinCore.Text ZaqorinCore.Agent.Decode ZaqorinCore.Agent.Engine

/-- The probing order is kept, and slots that are not used are zero. -/
structure Sound (t : Table) : Prop where
  placed : Placed (taken t) tableSize_pos fun k => k.toNat % tableSize
  zero : ∀ s, (t s).used = false → t s = {}

theorem sound_emptyTable : Sound emptyTable where
  placed := by
    intro s key h
    cases h
  zero _ _ := rfl

/-- The record of a connection. -/
def view (t : Table) (conn : ConnKey) : ConnRecord :=
  match slotOf t conn with
  | some s => claimed (t s) conn
  | none => freshRecord conn

/-- What a packet does to a record, whatever its protocol. -/
def serve (record : ConnRecord) (ev : L4Event) : ConnRecord × Output :=
  if ev.l4Proto ≠ l4TCP ∧ ev.l4Proto ≠ l4UDP then (record, ⟨[], 0, none⟩)
  else if classify ev = .unknown then (record, ⟨[sawTraffic record.key ev], 1, none⟩)
  else feedProto record ev

section

variable {t : Table} {conn other : ConnKey} {ev : L4Event} {s : Fin tableSize}

theorem serve_of_l7 (hl7 : carriesL7 ev = true) (record : ConnRecord) :
    serve record ev = feedProto record ev := by
  obtain ⟨hproto, hknown⟩ := carriesL7_iff.mp hl7
  simp only [serve, if_neg hproto, if_neg hknown]

theorem taken_eq_some (h : taken t s = some conn) : (t s).used = true ∧ (t s).key = conn := by
  unfold taken at h
  split at h
  · rename_i hused
    exact ⟨hused, Option.some.inj h⟩
  · cases h

theorem Sound.slotOf (h : Sound t) (htaken : taken t s = some conn) : slotOf t conn = some s := by
  have hlocate := h.placed s conn htaken
  unfold Efsm.slotOf
  exact hlocate

theorem Sound.view_of_taken (h : Sound t) (htaken : taken t s = some conn) :
    view t conn = t s := by
  simp only [view, h.slotOf htaken, claimed, (taken_eq_some htaken).1, if_true]

theorem Sound.view_of_absent (h : Sound t) (habsent : ∀ s, taken t s ≠ some conn) :
    view t conn = freshRecord conn := by
  unfold view
  cases hslot : Efsm.slotOf t conn with
  | none => rfl
  | some s =>
    have hfree := (admits_of_slotOf hslot).resolve_right (habsent s)
    have hused : (t s).used = false := by
      unfold taken at hfree
      split at hfree
      · cases hfree
      · simpa using ‹¬ (t s).used = true›
    simp only [h.zero s hused, claimed]
    rfl

theorem Sound.view_key (h : Sound t) (conn : ConnKey) : (view t conn).key = conn := by
  by_cases hpresent : ∃ s, taken t s = some conn
  · obtain ⟨s, hs⟩ := hpresent
    rw [h.view_of_taken hs]
    exact (taken_eq_some hs).2
  · rw [h.view_of_absent fun s hs => hpresent ⟨s, hs⟩]
    rfl

/-- Writing a record for a connection changes the view of that connection only. -/
theorem Sound.write (h : Sound t) (hslot : Efsm.slotOf t conn = some s) {record : ConnRecord}
    (hkey : record.key = conn) (hused : record.used = true) :
    Sound (Function.update t s record) ∧ view (Function.update t s record) conn = record ∧
      ∀ other ≠ conn, view (Function.update t s record) other = view t other := by
  have htaken : taken (Function.update t s record) =
      Function.update (taken t) s (some conn) := by
    rw [taken_update hused, hkey]
  have hsound : Sound (Function.update t s record) := by
    constructor
    · unfold Efsm.slotOf at hslot
      rw [htaken]
      exact h.placed.update hslot
    · intro s' hfree
      by_cases hs : s' = s
      · subst hs
        rw [Function.update_self, hused] at hfree
        cases hfree
      · rw [Function.update_of_ne hs] at hfree ⊢
        exact h.zero s' hfree
  have hself : taken (Function.update t s record) s = some conn := by
    rw [htaken, Function.update_self]
  refine ⟨hsound, ?_, ?_⟩
  · rw [hsound.view_of_taken hself, Function.update_self]
  · intro other hne
    by_cases hpresent : ∃ s', taken t s' = some other
    · obtain ⟨s', hs'⟩ := hpresent
      have hss : s' ≠ s := by
        rintro rfl
        rcases admits_of_slotOf hslot with hfree | hown
        · rw [hs'] at hfree
          cases hfree
        · rw [hs'] at hown
          exact hne (Option.some.inj hown)
      have hs'' : taken (Function.update t s record) s' = some other := by
        rw [htaken, Function.update_of_ne hss]
        exact hs'
      rw [hsound.view_of_taken hs'', h.view_of_taken hs', Function.update_of_ne hss]
    · rw [h.view_of_absent fun s' hs' => hpresent ⟨s', hs'⟩]
      apply hsound.view_of_absent
      intro s' hs'
      rw [htaken] at hs'
      by_cases hs : s' = s
      · subst hs
        rw [Function.update_self] at hs'
        exact hne (Option.some.inj hs').symm
      · rw [Function.update_of_ne hs] at hs'
        exact hpresent ⟨s', hs'⟩

/-- A packet is answered from the view of its connection and changes no other view. -/
theorem Sound.feed (h : Sound t) (hroom : carriesL7 ev = true → ∃ s, Efsm.slotOf t conn = some s) :
    Sound (feed t conn ev).1 ∧ (Efsm.feed t conn ev).2 = (serve (view t conn) ev).2 ∧
      view (Efsm.feed t conn ev).1 conn = (serve (view t conn) ev).1 ∧
      ∀ other ≠ conn, view (Efsm.feed t conn ev).1 other = view t other := by
  have hkey := h.view_key conn
  cases hl7 : carriesL7 ev with
  | true =>
    obtain ⟨s, hslot⟩ := hroom hl7
    have hview : view t conn = claimed (t s) conn := by simp only [view, hslot]
    obtain ⟨hkey', hused'⟩ := feedProto_key (claimed (t s) conn) ev
    rw [(claimed_key hslot).1] at hkey'
    rw [(claimed_key hslot).2] at hused'
    obtain ⟨hsound, hself, hother⟩ := h.write hslot hkey' hused'
    rw [feed_of_slot hl7 hslot, serve_of_l7 hl7, hview]
    exact ⟨hsound, rfl, hself, hother⟩
  | false =>
    have hsame : (Efsm.feed t conn ev).1 = t := (feed_of_not_l7 hl7).1
    rw [hsame]
    refine ⟨h, ?_, ?_, fun _ _ => rfl⟩
    · unfold Efsm.feed serve
      split
      · rfl
      · split
        · rw [hkey]
        · rename_i hproto hknown
          rw [carriesL7_iff.mpr ⟨hproto, hknown⟩] at hl7
          cases hl7
    · unfold serve
      split
      · rfl
      · split
        · rfl
        · rename_i hproto hknown
          rw [carriesL7_iff.mpr ⟨hproto, hknown⟩] at hl7
          cases hl7

/-- A packet is answered from the view of its connection, or the table is full: then it shows
nothing and changes nothing. -/
theorem Sound.feed_or_full (h : Sound t) (conn : ConnKey) (ev : L4Event) :
    (Sound (Efsm.feed t conn ev).1 ∧ (Efsm.feed t conn ev).2 = (serve (view t conn) ev).2 ∧
      view (Efsm.feed t conn ev).1 conn = (serve (view t conn) ev).1 ∧
      ∀ other ≠ conn, view (Efsm.feed t conn ev).1 other = view t other) ∨
    Efsm.feed t conn ev = (t, ⟨[], 0, some .tableFull⟩) := by
  by_cases hroom : carriesL7 ev = true → ∃ s, Efsm.slotOf t conn = some s
  · exact Or.inl (h.feed hroom)
  · rw [Classical.not_imp, not_exists] at hroom
    obtain ⟨hl7, hnone⟩ := hroom
    exact Or.inr (feed_of_full hl7 (Option.eq_none_iff_forall_ne_some.mpr hnone))

/-- A packet that reaches a record may add its key to the table, and no other does. -/
theorem feed_taken {key : ConnKey} (htaken : taken (feed t conn ev).1 s = some key) :
    taken t s = some key ∨ (carriesL7 ev = true ∧ key = conn) := by
  cases hl7 : carriesL7 ev with
  | false =>
    rw [(feed_of_not_l7 hl7).1] at htaken
    exact Or.inl htaken
  | true =>
    cases hslot : slotOf t conn with
    | none =>
      rw [feed_of_full hl7 hslot] at htaken
      exact Or.inl htaken
    | some s' =>
      obtain ⟨hkey, hused⟩ := feedProto_key (claimed (t s') conn) ev
      rw [(claimed_key hslot).1] at hkey
      rw [(claimed_key hslot).2] at hused
      rw [feed_of_slot hl7 hslot, taken_update hused, hkey] at htaken
      by_cases hs : s = s'
      · subst hs
        rw [Function.update_self] at htaken
        exact Or.inr ⟨rfl, (Option.some.inj htaken).symm⟩
      · rw [Function.update_of_ne hs] at htaken
        exact Or.inl htaken

end

/-! ## Whole runs -/

/-- A call of `Feed`. -/
abbrev Packet := ConnKey × L4Event

/-- What each call shows, in order. -/
def feedAll (t : Table) : List Packet → List (ConnKey × Output)
  | [] => []
  | (conn, ev) :: rest => (conn, (feed t conn ev).2) :: feedAll (feed t conn ev).1 rest

/-- What a connection shows by itself. -/
def serveAll (record : ConnRecord) : List L4Event → List Output
  | [] => []
  | ev :: rest => (serve record ev).2 :: serveAll (serve record ev).1 rest

/-- The keys that carry HTTP or WebSocket traffic. -/
def l7Keys (calls : List Packet) : Finset ConnKey :=
  ((calls.filter fun c => carriesL7 c.2).map Prod.fst).toFinset

theorem mem_l7Keys {calls : List Packet} {key : ConnKey} :
    key ∈ l7Keys calls ↔ ∃ ev, (key, ev) ∈ calls ∧ carriesL7 ev = true := by
  simp [l7Keys]

/-- From any sound table with room for the keys, each connection shows what it shows alone. -/
theorem Sound.feedAll {t : Table} (h : Sound t) {keys : Finset ConnKey}
    (hcard : keys.card ≤ tableSize) (htaken : ∀ s key, taken t s = some key → key ∈ keys)
    (calls : List Packet) (hcalls : l7Keys calls ⊆ keys) (conn : ConnKey) :
    ((feedAll t calls).filter fun o => o.1 = conn).map Prod.snd =
      serveAll (view t conn) ((calls.filter fun c => c.1 = conn).map Prod.snd) := by
  induction calls generalizing t with
  | nil => rfl
  | cons call rest ih =>
    obtain ⟨key, ev⟩ := call
    have hkey : carriesL7 ev = true → key ∈ keys := by
      intro hl7
      exact hcalls (mem_l7Keys.mpr ⟨ev, List.mem_cons_self, hl7⟩)
    have hroom : carriesL7 ev = true → ∃ s, Efsm.slotOf t key = some s := by
      intro hl7
      have hsome := h.placed.locate_isSome htaken (hkey hl7) hcard
      unfold Efsm.slotOf
      exact hsome
    obtain ⟨hsound, hout, hself, hother⟩ := h.feed hroom
    have hrest := @ih _ hsound ?_ ?_
    · rw [Efsm.feedAll]
      by_cases hown : key = conn
      · subst hown
        simp only [List.filter_cons, decide_true, if_true, List.map_cons, serveAll]
        rw [hrest, hself, hout]
      · simp only [List.filter_cons, hown, decide_false, Bool.false_eq_true, if_false]
        rw [hrest, hother conn (Ne.symm hown)]
    · intro s k hk
      rcases feed_taken hk with hold | ⟨hl7, rfl⟩
      · exact htaken s k hold
      · exact hkey hl7
    · intro k hk
      obtain ⟨ev', hmem, hl7⟩ := mem_l7Keys.mp hk
      exact hcalls (mem_l7Keys.mpr ⟨ev', List.mem_cons_of_mem _ hmem, hl7⟩)

/-- From the empty table, a connection shows what its packets alone show. -/
theorem feedAll_own {calls : List Packet} (hcard : (l7Keys calls).card ≤ tableSize)
    (conn : ConnKey) :
    ((feedAll emptyTable calls).filter fun o => o.1 = conn).map Prod.snd =
      serveAll (freshRecord conn) ((calls.filter fun c => c.1 = conn).map Prod.snd) := by
  have hnone : ∀ s key, taken emptyTable s = some key → key ∈ l7Keys calls := by
    intro s key h
    cases h
  rw [sound_emptyTable.feedAll hcard hnone calls (Finset.Subset.refl _) conn,
    sound_emptyTable.view_of_absent (by intro s h; cases h)]

theorem feedAll_key {t : Table} {calls : List Packet} {o : ConnKey × Output}
    (h : o ∈ feedAll t calls) : ∃ c ∈ calls, c.1 = o.1 := by
  induction calls generalizing t with
  | nil => cases h
  | cons call rest ih =>
    rw [feedAll] at h
    rcases List.mem_cons.mp h with rfl | h
    · exact ⟨call, List.mem_cons_self, rfl⟩
    · obtain ⟨c, hc, hkey⟩ := ih h
      exact ⟨c, List.mem_cons_of_mem _ hc, hkey⟩

/-! ## The subject of an event -/

theorem feedHeaders_subject {record : ConnRecord} {payload : Bytes} {emitted : List Event}
    {e : Event} (h : e ∈ (feedHeaders record payload emitted).2.events) : e ∈ emitted := by
  unfold feedHeaders at h
  split at h
  · exact h
  · exact h
  · split at h <;> exact h

theorem feedRequest_subject {record : ConnRecord} {payload : Bytes} {e : Event}
    (h : e ∈ (feedRequest record payload).2.events) : e.subject = record.key := by
  unfold feedRequest at h
  split at h
  · rw [List.mem_singleton.mp h]
  · split at h
    · cases h
    · split at h
      · cases h
      · dsimp only at h
        split at h
        · cases h
        · rw [List.mem_singleton.mp (feedHeaders_subject h)]

/-- Every event is about the connection of its record. -/
theorem serve_subject {record : ConnRecord} {ev : L4Event} {e : Event}
    (h : e ∈ (serve record ev).2.events) : e.subject = record.key := by
  unfold serve at h
  split at h
  · cases h
  · split at h
    · rw [List.mem_singleton.mp h]
      rfl
    · unfold feedProto at h
      split at h
      · unfold feedHTTP at h
        split at h
        · cases h
        · split at h
          · exact feedRequest_subject h
          · exact feedRequest_subject h
          · cases feedHeaders_subject h
          · split at h
            · rw [List.mem_singleton.mp h]
            · cases h
          · cases h
          · cases h
      · unfold feedWS at h
        split at h
        · cases h
        · rw [List.mem_singleton.mp h]
      · cases h

/-- In a run with room, the events of a call are about its connection. -/
theorem Sound.feedAll_subject {t : Table} (h : Sound t) {calls : List Packet}
    {o : ConnKey × Output} (ho : o ∈ Efsm.feedAll t calls) {e : Event} (he : e ∈ o.2.events) :
    e.subject = o.1 := by
  induction calls generalizing t with
  | nil => cases ho
  | cons call rest ih =>
    obtain ⟨key, ev⟩ := call
    rcases h.feed_or_full key ev with ⟨hsound, hout, _, _⟩ | hfull
    · rcases List.mem_cons.mp ho with rfl | ho
      · dsimp only at he ⊢
        rw [hout] at he
        rw [serve_subject he, h.view_key]
      · exact ih hsound ho
    · rw [Efsm.feedAll, hfull] at ho
      rcases List.mem_cons.mp ho with rfl | ho
      · cases he
      · exact ih h ho

/-- The events about one connection are those that its own calls emit. -/
theorem filter_events {outputs : List (ConnKey × Output)} (conn : ConnKey)
    (h : ∀ o ∈ outputs, ∀ e ∈ o.2.events, e.subject = o.1) :
    (outputs.flatMap fun o => o.2.events).filter (fun e => e.subject = conn) =
      (((outputs.filter fun o => o.1 = conn).map Prod.snd).flatMap Output.events) := by
  induction outputs with
  | nil => rfl
  | cons o rest ih =>
    have hrest := ih fun o ho => h o (List.mem_cons_of_mem _ ho)
    have hown := h o List.mem_cons_self
    rw [List.flatMap_cons, List.filter_append, hrest]
    by_cases hconn : o.1 = conn
    · have hall : o.2.events.filter (fun e => e.subject = conn) = o.2.events := by
        rw [List.filter_eq_self]
        intro e he
        simpa using (hown e he).trans hconn
      rw [hall]
      simp [hconn]
    · have hnone : o.2.events.filter (fun e => e.subject = conn) = [] := by
        rw [List.filter_eq_nil_iff]
        intro e he
        simpa using fun heq => hconn ((hown e he).symm.trans heq)
      rw [hnone]
      simp [hconn]

/-- In every interleaving of packets of at most `tableSize` HTTP or WebSocket connections, the
events about a connection and the results of its calls are those of a fresh state machine that is
fed only the packets of that connection. -/
theorem efsm_isolated (calls : List Packet) (hcard : (l7Keys calls).card ≤ tableSize)
    (conn : ConnKey) :
    let alone := feedAll emptyTable (calls.filter fun c => c.1 = conn)
    ((feedAll emptyTable calls).flatMap fun o => o.2.events).filter (fun e => e.subject = conn) =
        alone.flatMap (fun o => o.2.events) ∧
      ((feedAll emptyTable calls).filter fun o => o.1 = conn).map
          (fun o => (o.2.count, o.2.fault)) =
        alone.map fun o => (o.2.count, o.2.fault) := by
  intro alone
  have hsub : l7Keys (calls.filter fun c => c.1 = conn) ⊆ l7Keys calls := by
    intro key hkey
    obtain ⟨ev, hmem, hl7⟩ := mem_l7Keys.mp hkey
    exact mem_l7Keys.mpr ⟨ev, (List.mem_filter.mp hmem).1, hl7⟩
  have hcard' := le_trans (Finset.card_le_card hsub) hcard
  have hone : alone.filter (fun o => o.1 = conn) = alone := by
    rw [List.filter_eq_self]
    intro o ho
    obtain ⟨c, hc, hkey⟩ := feedAll_key ho
    have hconn := (List.mem_filter.mp hc).2
    rw [hkey] at hconn
    exact hconn
  have halone := feedAll_own hcard' conn
  rw [List.filter_filter] at halone
  simp only [Bool.and_self] at halone
  change (alone.filter fun o => o.1 = conn).map Prod.snd = _ at halone
  rw [hone] at halone
  have hown := (feedAll_own hcard conn).trans halone.symm
  constructor
  · rw [filter_events conn fun o ho e he => sound_emptyTable.feedAll_subject ho he, hown,
      List.flatMap_map]
  · have hmap := congrArg (List.map fun o : Output => (o.count, o.fault)) hown
    simpa only [List.map_map, Function.comp_def] using hmap

/-- Two connections whose keys collide, one after the other and back. -/
def colliding : List Packet :=
  [(5, plainRequest), (1029, badRequest), (5, { plainRequest with tcpFlags := 1 })]

theorem efsm_isolated_colliding :
    ((feedAll emptyTable colliding).flatMap fun o => o.2.events).filter
        (fun e => e.subject = 5) =
      (feedAll emptyTable (colliding.filter fun c => c.1 = 5)).flatMap fun o => o.2.events :=
  (efsm_isolated colliding (by decide +kernel) 5).1

end ZaqorinCore.Agent.Efsm
