import ZaqorinCore.Agent.Enrich
import ZaqorinCore.Text.Decimal

/-!
# The events of the Windows event log

`buildWireEvent` makes an event of the XML that Windows renders. The fields of `EventData` have no
names, so `metadataFor` names them by their position, in a table for each event ID. `wire_metadata`
says what the metadata holds: the entries are those of the table whose position is there. The
decoder of `encoding/xml` is a parameter.
-/

namespace ZaqorinCore.Agent.EventLog

open ZaqorinCore.Text ZaqorinCore.Agent.Wire ZaqorinCore.Agent.App

/-! ## The source of an event -/

/-- What is read of the XML. -/
structure Evt where
  provider : Bytes
  eventID : UInt32
  systemTime : Bytes
  computer : Bytes
  data : List Bytes

def subscribedEventIDs : List (UInt32 × Bytes) :=
  [(4624, lit "windows.security.4624"), (4625, lit "windows.security.4625"),
    (4688, lit "windows.security.4688"), (4698, lit "windows.security.4698"),
    (4720, lit "windows.security.4720"), (4732, lit "windows.security.4732")]

/-- The cases of `metadataFor`: the keys with their positions, in the order they are set in. -/
def positions (eventID : UInt32) : List (Bytes × Nat) :=
  if eventID = 4624 ∨ eventID = 4625 then
    [(lit "subject_user", 1), (lit "target_user", 4), (lit "logon_type", 8),
      (lit "logon_process", 9), (lit "auth_package", 10), (lit "workstation", 11),
      (lit "process_name", 17), (lit "source_ip", 18), (lit "source_port", 19)]
  else if eventID = 4688 then
    [(lit "subject_user", 1), (lit "new_process_name", 5), (lit "process_name", 5),
      (lit "process_id", 4), (lit "command_line", 8), (lit "parent_process_name", 13)]
  else if eventID = 4698 then
    [(lit "subject_user", 1), (lit "task_name", 4), (lit "task_content", 5)]
  else if eventID = 4720 then
    [(lit "subject_user", 1), (lit "target_user", 5), (lit "privilege_list", 7)]
  else if eventID = 4732 then
    [(lit "subject_user", 1), (lit "target_user", 5), (lit "member_name", 9),
      (lit "group_name", 8)]
  else []

def setIf (m : List (Bytes × Bytes)) (key : Bytes) (d : List Bytes) (idx : Nat) :
    List (Bytes × Bytes) :=
  match d[idx]? with
  | none => m
  | some v => setKey m key v

/-- The entries that every event has. -/
def common (e : Evt) : List (Bytes × Bytes) :=
  [(lit "event_id", utf8 (itoa e.eventID.toNat)), (lit "computer", e.computer),
    (lit "provider", e.provider), (lit "system_time", e.systemTime)]

def metadataFor (e : Evt) : List (Bytes × Bytes) :=
  ((positions e.eventID).foldl (fun m p => setIf m p.1 e.data p.2) (common e)).map fun f =>
    (f.1, trimSpace f.2)

/-- The key of the XML itself. -/
def xmlKey : Bytes := lit "xml"

/-- `buildWireEvent`, or none when it returns an error. The event has no ID and no host. -/
def buildWireEvent (unmarshal : Bytes → Option Evt) (xmlBytes : Bytes) (now : GoTime) :
    Option Event :=
  match unmarshal xmlBytes with
  | none => none
  | some e =>
    (subscribedEventIDs.lookup e.eventID).map fun src =>
      ⟨lit "1.0", [], now, [], src, xmlBytes, setKey (metadataFor e) xmlKey xmlBytes⟩

/-! ## What the metadata holds -/

section

variable {m : List (Bytes × Bytes)} {k v : Bytes} {d : List Bytes} {ps : List (Bytes × Nat)}

/-- The entries of a table whose position is there. -/
def present (d : List Bytes) (ps : List (Bytes × Nat)) : List (Bytes × Bytes) :=
  ps.filterMap fun p => d[p.2]?.map fun v => (p.1, v)

theorem setKey_fresh (h : k ∉ m.map Prod.fst) (v : Bytes) : setKey m k v = m ++ [(k, v)] := by
  have hnone : (m.any fun f => f.1 == k) = false := by
    rw [List.any_eq_false]
    intro f hf hkey
    exact h (List.mem_map.mpr ⟨f, hf, beq_iff_eq.mp hkey⟩)
  rw [setKey, hnone, if_neg Bool.false_ne_true]

/-- A key that is set once adds its entry, if there is one. -/
theorem setIf_fresh (h : k ∉ m.map Prod.fst) (d : List Bytes) (idx : Nat) :
    setIf m k d idx = m ++ present d [(k, idx)] := by
  unfold setIf present
  cases hd : d[idx]? with
  | none => simp [hd]
  | some v => simp [hd, setKey_fresh h]

theorem present_cons (d : List Bytes) (p : Bytes × Nat) (ps : List (Bytes × Nat)) :
    present d (p :: ps) = present d [p] ++ present d ps := by
  rw [present, ← List.singleton_append, List.filterMap_append]
  rfl

/-- The entries have the keys of the table. -/
theorem keys_present (d : List Bytes) (ps : List (Bytes × Nat)) :
    ((present d ps).map Prod.fst).Sublist (ps.map Prod.fst) := by
  induction ps with
  | nil => exact List.Sublist.slnil
  | cons p ps ih =>
    rw [present_cons, List.map_append]
    cases hd : d[p.2]? with
    | none => simpa [present, hd] using ih.cons p.1
    | some v => simpa [present, hd] using ih.cons_cons p.1

/-- Keys that differ are added one after the other. -/
theorem foldl_setIf (d : List Bytes) (h : (m.map Prod.fst ++ ps.map Prod.fst).Nodup) :
    ps.foldl (fun m p => setIf m p.1 d p.2) m = m ++ present d ps := by
  induction ps generalizing m with
  | nil => exact (List.append_nil m).symm
  | cons p ps ih =>
    obtain ⟨-, -, hdisjoint⟩ := List.nodup_append'.mp h
    have hfresh : p.1 ∉ m.map Prod.fst := fun hp => hdisjoint hp List.mem_cons_self
    have hrest : ((m ++ present d [p]).map Prod.fst ++ ps.map Prod.fst).Nodup := by
      refine h.sublist ?_
      rw [List.map_append, List.append_assoc, List.map_cons, ← List.singleton_append]
      exact (List.Sublist.refl _).append ((keys_present d [p]).append (List.Sublist.refl _))
    rw [List.foldl_cons, setIf_fresh hfresh, ih hrest, List.append_assoc, ← present_cons]

/-- The keys that `metadataFor` may set, with that of the XML. -/
def keysOf (eventID : UInt32) : List Bytes :=
  [lit "event_id", lit "computer", lit "provider", lit "system_time"] ++
    (positions eventID).map Prod.fst ++ [xmlKey]

theorem nodup_keysOf (eventID : UInt32) : (keysOf eventID).Nodup := by
  unfold keysOf positions
  split
  · decide
  · split
    · decide
    · split
      · decide
      · split
        · decide
        · split <;> decide

theorem keys_trimmed (m : List (Bytes × Bytes)) :
    (m.map fun f => (f.1, trimSpace f.2)).map Prod.fst = m.map Prod.fst := by
  rw [List.map_map]
  rfl

variable {e : Evt}

theorem metadataFor_eq (e : Evt) : metadataFor e =
    (common e ++ present e.data (positions e.eventID)).map fun f => (f.1, trimSpace f.2) := by
  have hkeys : ((common e).map Prod.fst ++ (positions e.eventID).map Prod.fst).Nodup :=
    (nodup_keysOf e.eventID).sublist (List.sublist_append_left _ _)
  rw [metadataFor, foldl_setIf e.data hkeys]

/-- The keys are among those of the event ID, so that of the XML is new. -/
theorem keys_metadataFor (e : Evt) :
    ((metadataFor e).map Prod.fst ++ [xmlKey]).Sublist (keysOf e.eventID) := by
  rw [metadataFor_eq, keys_trimmed, List.map_append]
  exact ((List.Sublist.refl _).append (keys_present _ _)).append (List.Sublist.refl _)

theorem xmlKey_fresh (e : Evt) : xmlKey ∉ (metadataFor e).map Prod.fst := by
  have hnodup := (nodup_keysOf e.eventID).sublist (keys_metadataFor e)
  obtain ⟨-, -, hdisjoint⟩ := List.nodup_append'.mp hnodup
  exact fun h => hdisjoint h (List.mem_singleton_self _)

theorem mem_present : (k, v) ∈ present d ps ↔ ∃ idx, (k, idx) ∈ ps ∧ d[idx]? = some v := by
  unfold present
  simp only [List.mem_filterMap, Option.map_eq_some_iff, Prod.mk.injEq, Prod.exists]
  constructor
  · rintro ⟨k', idx, hmem, v', hv', rfl, rfl⟩
    exact ⟨idx, hmem, hv'⟩
  · rintro ⟨idx, hmem, hv⟩
    exact ⟨k, idx, hmem, v, hv, rfl, rfl⟩

variable {unmarshal : Bytes → Option Evt} {xmlBytes : Bytes} {now : GoTime} {wire : Event}

theorem buildWireEvent_eq_some (h : buildWireEvent unmarshal xmlBytes now = some wire) :
    ∃ e src, unmarshal xmlBytes = some e ∧ subscribedEventIDs.lookup e.eventID = some src ∧
      wire = ⟨lit "1.0", [], now, [], src, xmlBytes, metadataFor e ++ [(xmlKey, xmlBytes)]⟩ := by
  unfold buildWireEvent at h
  split at h
  · cases h
  · rename_i e he
    obtain ⟨src, hsrc, rfl⟩ := Option.map_eq_some_iff.mp h
    exact ⟨e, src, he, hsrc, by rw [setKey_fresh (xmlKey_fresh e)]⟩

/-- An event carries its XML, the four common entries and those of its table whose position is
there, all but the XML trimmed, and nothing else. -/
theorem wire_metadata (h : buildWireEvent unmarshal xmlBytes now = some wire) :
    ∃ e, unmarshal xmlBytes = some e ∧
      subscribedEventIDs.lookup e.eventID = some wire.source ∧
      (wire.metadata.map Prod.fst).Nodup ∧
      ∀ k v, (k, v) ∈ wire.metadata ↔ (k = xmlKey ∧ v = xmlBytes) ∨
        ∃ w, v = trimSpace w ∧ ((k, w) ∈ common e ∨
          ∃ idx, (k, idx) ∈ positions e.eventID ∧ e.data[idx]? = some w) := by
  obtain ⟨e, src, he, hsrc, rfl⟩ := buildWireEvent_eq_some h
  refine ⟨e, he, hsrc, ?_, fun k v => ?_⟩
  · rw [List.map_append]
    exact (nodup_keysOf e.eventID).sublist (keys_metadataFor e)
  · simp only [List.mem_append, metadataFor_eq, List.mem_map, List.mem_singleton, Prod.mk.injEq,
      ← mem_present, Prod.exists]
    constructor
    · rintro (⟨k', w, hmem, rfl, rfl⟩ | hxml)
      · exact Or.inr ⟨w, rfl, hmem⟩
      · exact Or.inl hxml
    · rintro (hxml | ⟨w, rfl, hmem⟩)
      · exact Or.inr hxml
      · exact Or.inl ⟨k, w, hmem, rfl, rfl⟩

end

/-- A failed logon with two fields. -/
def failedLogon : Evt := ⟨[], 4625, [], [], [[83], [97, 32]]⟩

def sampleTime : GoTime := .zero

theorem metadata_sample : ∃ wire,
    buildWireEvent (fun _ => some failedLogon) [60] sampleTime = some wire ∧
      (lit "subject_user", [97]) ∈ wire.metadata := by
  have hsome : (buildWireEvent (fun _ => some failedLogon) [60] sampleTime).isSome = true := by
    decide
  obtain ⟨wire, h⟩ := Option.isSome_iff_exists.mp hsome
  obtain ⟨e, he, -, -, hmem⟩ := wire_metadata h
  cases he
  exact ⟨wire, h, (hmem _ _).mpr (Or.inr ⟨[97, 32], by decide, Or.inr ⟨1, by decide, rfl⟩⟩)⟩

end ZaqorinCore.Agent.EventLog
