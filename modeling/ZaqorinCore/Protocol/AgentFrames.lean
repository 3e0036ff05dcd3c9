import ZaqorinCore.Agent.Event
import ZaqorinCore.Protocol.Signature
import ZaqorinCore.Server.Wire

/-!
# Agent frames on the server

The agent checks that the fields of an event are there, the server also how long they are and that
the host is a UUID; the error text of an acknowledgement is bounded on the server only.
`agent_frames_accepted_iff` compares the two sides: it says exactly which events and which
acknowledgements the server validates.

What Pydantic makes of a text is the parameter `Library`; `PydanticReads` says what the formats of
`uuid.UUID` and `datetime` are.
-/

namespace ZaqorinCore.Protocol

open Text Server Agent.Evidence Agent.Wire

/-! ## The texts of a UUID -/

def hexCharValue (c : Char) : Option Nat :=
  if 48 ≤ c.toNat ∧ c.toNat ≤ 57 then some (c.toNat - 48)
  else if 97 ≤ c.toNat ∧ c.toNat ≤ 102 then some (c.toNat - 87)
  else if 65 ≤ c.toNat ∧ c.toNat ≤ 70 then some (c.toNat - 55)
  else none

/-- The number that the hexadecimal digits of a text form; other characters are passed over. -/
def hexValue (s : Str) : Nat :=
  s.foldl (fun n c => match hexCharValue c with | some d => 16 * n + d | none => n) 0

/-- Thirty-two digits. -/
def readSimple (s : Str) : Option Uuid :=
  if s.length = 32 ∧ s.all (fun c => (hexCharValue c).isSome) then
    some (BitVec.ofNat 128 (hexValue s))
  else none

/-- Eight, four, four, four and twelve digits joined by hyphens. -/
def readHyphenated (s : Str) : Option Uuid :=
  if (s.splitOn '-').map List.length = [8, 4, 4, 4, 12] ∧
      s.all (fun c => c == '-' || (hexCharValue c).isSome) then
    some (BitVec.ofNat 128 (hexValue s))
  else none

/-- The text of a UUID: its digits, with hyphens, in braces, or as a URN. -/
def readUuid (s : Str) : Option Uuid :=
  if s.length = 32 then readSimple s
  else if s.head? = some '\x7b' ∧ s.getLast? = some '\x7d' then readHyphenated s.tail.dropLast
  else if "urn:uuid:".toList.isPrefixOf s then readHyphenated (s.drop 9)
  else readHyphenated s

/-- How Pydantic reads `uuid.UUID` and `datetime` from a text: a UUID in one of its forms, and a
time of RFC 3339 when a `datetime` can hold its year. -/
structure PydanticReads (lib : Library) : Prop where
  uuid : ∀ s, lib.uuid (.str s) = readUuid s
  datetime : ∀ t : GoTime,
    (lib.datetime (.str t.text)).isSome = true ↔ 1 ≤ t.year ∧ t.year ≤ 9999

/-! ## What the server asks for -/

/-- The limits of `EventInner` on the fields of an event. -/
structure Fits (e : Agent.Wire.Event) : Prop where
  schema : (jsonString e.schema).length ≤ 16
  id : (readUuid (jsonString e.id)).isSome = true
  timestamp : 1 ≤ e.timestamp.year ∧ e.timestamp.year ≤ 9999
  hostID : (readUuid (jsonString e.hostID)).isSome = true
  source : (jsonString e.source).length ≤ 255
  raw : (jsonString e.raw).length ≤ 64 * 1024

/-- The limit of `CommandAckFrame` on the error text. -/
def AckFits (err : Option Bytes) : Prop := (jsonString (err.getD [])).length ≤ 512

/-! ## Reading an event -/

section

variable {lib : Library} {e : Agent.Wire.Event}

theorem jsonString_ne_nil {s : Bytes} (h : s ≠ []) : jsonString s ≠ [] := by
  obtain ⟨b, rest, rfl⟩ := List.exists_cons_of_ne_nil h
  simp [jsonString, runes, runesFrom]

theorem validate_ok {uuidParse : Bytes → Except Bytes Unit} (h : e.validate uuidParse = .ok ()) :
    e.schema ≠ [] ∧ e.source ≠ [] := by
  unfold Agent.Wire.Event.validate at h
  split at h
  · cases h
  · rename_i hschema
    split at h
    · cases h
    · split at h
      · cases h
      · split at h
        · cases h
        · split at h
          · cases h
          · split at h
            · cases h
            · rename_i hsource
              exact ⟨hschema, hsource⟩

/-- The names of the members of an event. -/
def eventNames (e : Agent.Wire.Event) : List Str :=
  ["schema".toList, "id".toList, "timestamp".toList, "host_id".toList, "source".toList,
    "raw".toList] ++ if e.metadata = [] then [] else ["metadata".toList]

theorem members_names (e : Agent.Wire.Event) : e.members.map Prod.fst = eventNames e := by
  unfold Agent.Wire.Event.members eventNames
  split <;> rfl

theorem eventNames_nodup (e : Agent.Wire.Event) : (eventNames e).Nodup := by
  unfold eventNames
  split <;> decide

theorem field_members {name : String} {v : Json} (h : (name.toList, v) ∈ e.members) :
    field e.members name = some v := by
  refine field_of_mem ?_ h
  rw [members_names]
  exact eventNames_nodup e

/-- The map of an event is a dictionary of texts. -/
theorem strDict_metadata (e : Agent.Wire.Event) :
    (strDict (field e.members "metadata")).isSome = true := by
  by_cases hempty : e.metadata = []
  · have hnone : field e.members "metadata" = none := by
      rw [field_eq_none]
      intro m hm hname
      have hmem : "metadata".toList ∈ eventNames e := by
        rw [← members_names e, ← hname]
        exact List.mem_map_of_mem hm
      simp only [eventNames, if_pos hempty, List.append_nil] at hmem
      exact absurd hmem (by decide)
    rw [hnone]
    rfl
  · have hfield : field e.members "metadata" = some (jsonMap e.metadata) := by
      apply field_members
      simp [Agent.Wire.Event.members, hempty]
    have htexts := texts_mapMembers e.metadata
    rw [hfield, jsonMap, strDict, if_pos]
    · rfl
    · rw [List.all_eq_true]
      intro f hf
      obtain ⟨t, ht⟩ := htexts f hf
      rw [ht]

theorem any_const {α : Type} (x : Option α) (b : Bool) : x.any (fun _ => b) = (x.isSome && b) := by
  cases x <;> simp

theorem strBetween_isSome {lo hi : Nat} {s : Str} :
    (strBetween lo hi (.str s)).isSome = true ↔ lo ≤ s.length ∧ s.length ≤ hi := by
  by_cases h : lo ≤ s.length ∧ s.length ≤ hi
  · simp [strBetween, h]
  · simp only [strBetween, if_neg h]
    exact iff_of_false Bool.false_ne_true h

theorem noExtra_members (e : Agent.Wire.Event) : noExtra e.members
    ["schema", "id", "timestamp", "host_id", "source", "raw", "metadata"] = true := by
  rw [noExtra, List.all_eq_true]
  intro m hm
  have hname : m.1 ∈ eventNames e := by
    rw [← members_names e]
    exact List.mem_map_of_mem hm
  have hknown : ∀ n ∈ eventNames e, (["schema", "id", "timestamp", "host_id", "source", "raw",
      "metadata"].map String.toList).contains n = true := by
    unfold eventNames
    split <;> decide
  exact hknown m.1 hname

/-- The server reads the event exactly when it reads the six fields. -/
theorem eventInner_members (hlib : PydanticReads lib) (hschema : e.schema ≠ [])
    (hsource : e.source ≠ []) :
    (eventInner lib (.obj e.members)).isSome = true ↔ Fits e := by
  have hpos : ∀ {s : Bytes}, s ≠ [] → 1 ≤ (jsonString s).length := by
    intro s hs
    exact List.length_pos_iff.mpr (jsonString_ne_nil hs)
  have hfield : ∀ {name : String} {v : Json} (i : Nat), e.members[i]? = some (name.toList, v) →
      field e.members name = some v := fun i h => field_members (List.mem_of_getElem? h)
  have hs : field e.members "schema" = some (.str (jsonString e.schema)) := hfield 0 rfl
  have hi : field e.members "id" = some (.str (jsonString e.id)) := hfield 1 rfl
  have ht : field e.members "timestamp" = some (.str e.timestamp.text) := hfield 2 rfl
  have hh : field e.members "host_id" = some (.str (jsonString e.hostID)) := hfield 3 rfl
  have ho : field e.members "source" = some (.str (jsonString e.source)) := hfield 4 rfl
  have hr : field e.members "raw" = some (.str (jsonString e.raw)) := hfield 5 rfl
  obtain ⟨metadata, hmetadata⟩ := Option.isSome_iff_exists.mp (strDict_metadata e)
  simp only [eventInner, hs, hi, ht, hh, ho, hr, hmetadata, Option.isSome_some, if_true,
    noExtra_members, Option.bind_eq_bind, Option.bind_some, guard, Option.isSome_bind, any_const,
    hlib.uuid, Option.pure_def, Bool.and_true, Bool.and_eq_true, strBetween_isSome]
  constructor
  · rintro ⟨⟨_, h1⟩, h2, h3, h4, ⟨_, h5⟩, _, h6⟩
    exact ⟨h1, h2, (hlib.datetime _).mp h3, h4, h5, h6⟩
  · intro h
    exact ⟨⟨hpos hschema, h.schema⟩, h.id, (hlib.datetime _).mpr h.timestamp, h.hostID,
      ⟨hpos hsource, h.source⟩, Nat.zero_le _, h.raw⟩

/-- `EventFrame` adds nothing that a frame of the agent could miss. -/
theorem eventFrame_frame (hlib : PydanticReads lib) {uuidParse : Bytes → Except Bytes Unit}
    (hvalid : e.validate uuidParse = .ok ()) :
    (eventFrame lib e.frame).isSome = true ↔ Fits e := by
  obtain ⟨hschema, hsource⟩ := validate_ok hvalid
  have hnames : (e.frame.map Prod.fst).Nodup := by
    have : e.frame.map Prod.fst = ["type".toList, "event".toList] := rfl
    rw [this]
    decide
  have htype : literalOrAbsent e.frame "type" "event" = true := by
    have hfield : field e.frame "type" = some (.str "event".toList) :=
      field_of_mem hnames (List.mem_of_getElem? (i := 0) rfl)
    simp [literalOrAbsent, fieldIs, hfield]
  have hevent : field e.frame "event" = some (.obj e.members) :=
    field_of_mem hnames (List.mem_of_getElem? (i := 1) rfl)
  have hextra : noExtra e.frame ["type", "event"] = true := by
    simp [noExtra, Agent.Wire.Event.frame]
  rw [← eventInner_members hlib hschema hsource]
  simp only [eventFrame, htype, hevent, hextra, guard, if_true, Option.bind_eq_bind,
    Option.bind_some, Option.pure_def, Option.bind_fun_some]

end

/-! ## Reading an acknowledgement -/

section

variable {lib : Library} {handler : Agent.Command → Bytes × Option Bytes} {cmd : Agent.Command}
  {members : List (Str × Json)}

/-- The names of the members of an acknowledgement. -/
def ackNames (errMsg : Bytes) : List Str :=
  ["type".toList, "id".toList, "status".toList] ++ if errMsg = [] then [] else ["error".toList]

/-- The members that `sendAck` writes. -/
def ackMembers (id status errMsg : Bytes) : List (Str × Json) :=
  [("type".toList, .str "command_ack".toList), ("id".toList, .str (jsonString id)),
    ("status".toList, .str (jsonString status))] ++
    if errMsg = [] then [] else [("error".toList, .str (jsonString errMsg))]

theorem sendAck_eq_some {id status errMsg : Bytes} (h : sendAck id status errMsg = some members) :
    (status = lit "applied" ∨ status = lit "failed") ∧ members = ackMembers id status errMsg := by
  unfold sendAck at h
  split at h
  · exact ⟨‹_›, (Option.some.inj h).symm⟩
  · cases h

theorem ackMembers_names (id status errMsg : Bytes) :
    (ackMembers id status errMsg).map Prod.fst = ackNames errMsg := by
  unfold ackMembers ackNames
  split <;> rfl

theorem field_ackMembers {id status errMsg : Bytes} {name : String} {v : Json} (i : Nat)
    (h : (ackMembers id status errMsg)[i]? = some (name.toList, v)) :
    field (ackMembers id status errMsg) name = some v := by
  refine field_of_mem ?_ (List.mem_of_getElem? h)
  rw [ackMembers_names]
  unfold ackNames
  split <;> decide

/-- The status of an acknowledgement is one that the server knows. -/
theorem status_ackMembers (id errMsg : Bytes) {status : Bytes}
    (h : status = lit "applied" ∨ status = lit "failed") :
    fieldIs (ackMembers id status errMsg) "status" "applied" = true ∨
      (fieldIs (ackMembers id status errMsg) "status" "applied" = false ∧
        fieldIs (ackMembers id status errMsg) "status" "failed" = true) := by
  have hfield : field (ackMembers id status errMsg) "status" = some (.str (jsonString status)) :=
    field_ackMembers 2 rfl
  rcases h with rfl | rfl
  · have htext : jsonString (lit "applied") = "applied".toList := by decide +kernel
    exact Or.inl (by simp [fieldIs, hfield, htext])
  · have htext : jsonString (lit "failed") = "failed".toList := by decide +kernel
    exact Or.inr (by simp [fieldIs, hfield, htext])

theorem noExtra_ackMembers (id status errMsg : Bytes) :
    noExtra (ackMembers id status errMsg) ["type", "id", "status", "error"] = true := by
  unfold noExtra ackMembers
  split <;> simp

theorem error_ackMembers (id status errMsg : Bytes) :
    field (ackMembers id status errMsg) "error" =
      if errMsg = [] then none else some (.str (jsonString errMsg)) := by
  split
  · rename_i hempty
    rw [field_eq_none]
    intro m hm hname
    have hmem : "error".toList ∈ ackNames errMsg := by
      rw [← ackMembers_names id status errMsg, ← hname]
      exact List.mem_map_of_mem hm
    simp only [ackNames, if_pos hempty, List.append_nil] at hmem
    exact absurd hmem (by decide)
  · rename_i hne
    apply field_ackMembers 3
    simp only [ackMembers, if_neg hne]
    rfl

/-- An acknowledgement of a UUID is validated exactly when its error text is short enough. -/
theorem ackMembers_accepted {id errMsg status : Bytes} (hlib : PydanticReads lib)
    (hid : (readUuid (jsonString id)).isSome = true)
    (hstatus : status = lit "applied" ∨ status = lit "failed") :
    (commandAckFrame lib (ackMembers id status errMsg)).isSome = true ↔
      (jsonString errMsg).length ≤ 512 := by
  obtain ⟨u, hu⟩ := Option.isSome_iff_exists.mp hid
  have htype : literalOrAbsent (ackMembers id status errMsg) "type" "command_ack" = true := by
    have hfield : field (ackMembers id status errMsg) "type" = some (.str "command_ack".toList) :=
      field_ackMembers 0 rfl
    simp [literalOrAbsent, fieldIs, hfield]
  have hidField : field (ackMembers id status errMsg) "id" = some (.str (jsonString id)) :=
    field_ackMembers 1 rfl
  simp only [commandAckFrame, htype, hidField, hlib.uuid, hu, noExtra_ackMembers, guard,
    if_true, Option.bind_eq_bind, Option.bind_some, Option.pure_def, error_ackMembers]
  by_cases hempty : errMsg = []
  · have hlength : (jsonString errMsg).length ≤ 512 := by
      simp [hempty, jsonString, runes, runesFrom]
    rw [iff_true_right hlength]
    rcases status_ackMembers id errMsg hstatus with ha | ⟨ha, hf⟩
    · simp only [if_pos hempty, ha, if_true, Option.isSome_some]
    · simp only [if_pos hempty, ha, hf, if_true, Bool.false_eq_true, if_false, Option.isSome_some]
  · have hshort : (strBetween 0 512 (.str (jsonString errMsg))).isSome = true ↔
        (jsonString errMsg).length ≤ 512 := by
      rw [strBetween_isSome, and_iff_right (Nat.zero_le _)]
    rw [← hshort]
    rcases status_ackMembers id errMsg hstatus with ha | ⟨ha, hf⟩
    · simp only [if_neg hempty, ha, if_true, Option.isSome_bind, Option.isSome_some, any_const,
        Bool.and_true]
    · simp only [if_neg hempty, ha, hf, if_true, Bool.false_eq_true, if_false, Option.isSome_bind,
        Option.isSome_some, any_const, Bool.and_true]

/-- The read pump hands the error text of the handler to `sendAck`. -/
theorem reply_eq_some (h : reply handler cmd = some members) :
    ∃ status, sendAck cmd.id status ((handler cmd).2.getD []) = some members := by
  unfold reply at h
  split at h
  · rename_i status heq
    exact ⟨status, by rw [heq]; exact h⟩
  · rename_i status err heq
    exact ⟨_, by rw [heq]; exact h⟩

end

/-! ## The identifier of a command -/

theorem hexCharValue_of_mem : ∀ c ∈ hexAlphabet, (hexCharValue c).isSome = true := by
  simp [hexAlphabet, hexCharValue]

theorem hexAlphabet_ne : ∀ c ∈ hexAlphabet, c ≠ '-' ∧ c ≠ '\x7b' ∧ c ≠ 'u' := by
  simp [hexAlphabet]

/-- A usual rendering is five fields joined by hyphens. -/
theorem uuidStr_eq_intercalate (u : Uuid) : uuidStr u = List.intercalate ['-']
    [(hexPadded 32 u.toNat).take 8, ((hexPadded 32 u.toNat).drop 8).take 4,
      ((hexPadded 32 u.toNat).drop 12).take 4, ((hexPadded 32 u.toNat).drop 16).take 4,
      (hexPadded 32 u.toNat).drop 20] := by
  simp [uuidStr, List.intercalate_cons_cons]

theorem splitOn_uuidStr (u : Uuid) :
    ((uuidStr u).splitOn '-').map List.length = [8, 4, 4, 4, 12] := by
  have hlen : (hexPadded 32 u.toNat).length = 32 := hexPadded_length _ _
  have hhyphen : ∀ c ∈ hexPadded 32 u.toNat, c ≠ '-' :=
    fun c hc => (hexAlphabet_ne c (mem_hexPadded hc)).1
  rw [uuidStr_eq_intercalate]
  generalize hexPadded 32 u.toNat = digits at hlen hhyphen ⊢
  have hfields : ∀ l ∈ [digits.take 8, (digits.drop 8).take 4, (digits.drop 12).take 4,
      (digits.drop 16).take 4, digits.drop 20], '-' ∉ l := by
    intro l hl hmem
    have hsub : l ⊆ digits := by
      simp only [List.mem_cons, List.not_mem_nil, or_false] at hl
      rcases hl with rfl | rfl | rfl | rfl | rfl
      · exact List.take_subset _ _
      · exact fun _ h => List.mem_of_mem_drop (List.mem_of_mem_take h)
      · exact fun _ h => List.mem_of_mem_drop (List.mem_of_mem_take h)
      · exact fun _ h => List.mem_of_mem_drop (List.mem_of_mem_take h)
      · exact List.drop_subset _ _
    exact hhyphen '-' (hsub hmem) rfl
  rw [List.splitOn_intercalate _ hfields (by simp)]
  simp [hlen]

/-- The usual text of a UUID is read. -/
theorem readUuid_uuidStr (u : Uuid) : (readUuid (uuidStr u)).isSome = true := by
  have hlength : (uuidStr u).length = 36 := by
    simp [uuidStr]
  have hall : (uuidStr u).all (fun c => c == '-' || (hexCharValue c).isSome) = true := by
    rw [List.all_eq_true]
    intro c hc
    rcases mem_uuidStr hc with hhex | rfl
    · simp [hexCharValue_of_mem c hhex]
    · rfl
  obtain ⟨c, hc, rest, hcons⟩ := uuidStr_cons u
  have hfirst : c ≠ '\x7b' ∧ c ≠ 'u' := (hexAlphabet_ne c hc).2
  have hurn : "urn:uuid:".toList.isPrefixOf (uuidStr u) = false := by
    rw [hcons, Bool.eq_false_iff]
    intro h
    have := (List.cons_prefix_cons.mp (List.isPrefixOf_iff_prefix.mp h)).1
    exact hfirst.2 this.symm
  have hbrace : ¬ ((uuidStr u).head? = some '\x7b' ∧ (uuidStr u).getLast? = some '\x7d') := by
    rw [hcons]
    intro h
    exact hfirst.1 (Option.some.inj h.1)
  rw [readUuid, if_neg (by omega), if_neg hbrace, hurn, if_neg Bool.false_ne_true, readHyphenated,
    if_pos ⟨splitOn_uuidStr u, hall⟩]
  rfl

theorem ascii_uuidStr (u : Uuid) : ∀ c ∈ uuidStr u, c.toNat < 128 := by
  intro c hc
  rcases mem_uuidStr hc with hhex | rfl
  · exact (hexAlphabet_ascii c hhex).2
  · decide

/-! ## Both frames -/

/-- Of the events that the agent finds valid the server validates exactly those that fit its
limits, and of the answers to commands of the dispatcher exactly those with a short error text. -/
theorem agent_frames_accepted_iff (lib : Library) (hlib : PydanticReads lib) :
    (∀ uuidParse e, Agent.Wire.Event.validate uuidParse e = .ok () →
      ((eventFrame lib e.frame).isSome = true ↔ Fits e)) ∧
    ∀ settings action host now frame handler members,
      buildCommandFrame settings action host now = some frame →
      reply handler (receivedCommand frame) = some members →
      ((commandAckFrame lib members).isSome = true ↔
        AckFits (handler (receivedCommand frame)).2) := by
  refine ⟨fun uuidParse e hvalid => eventFrame_frame hlib hvalid, ?_⟩
  intro settings action host now frame handler members hframe hreply
  obtain ⟨_, _, _, _, rfl⟩ := buildCommandFrame_spec hframe
  obtain ⟨status, hsent⟩ := reply_eq_some hreply
  obtain ⟨hstatus, rfl⟩ := sendAck_eq_some hsent
  refine ackMembers_accepted hlib ?_ hstatus
  have hid : jsonString (utf8 (uuidStr action.id)) = uuidStr action.id :=
    jsonString_utf8 (ascii_uuidStr action.id)
  simp only [receivedCommand, hid]
  exact readUuid_uuidStr action.id

/-! ## Concrete frames -/

/-- The year of a time is one that a `datetime` has. -/
def yearOk (s : Str) : Bool :=
  (s.take 4).all Char.isDigit && s[4]? == some '-' && s.take 4 != "0000".toList

/-- A library that reads every UUID and every time of RFC 3339. -/
def sampleLibrary : Library where
  loads _ := .error .decode
  uuid
    | .str s => readUuid s
    | _ => none
  datetime
    | .str s => if yearOk s then some ((parseRFC3339 (utf8 s)).getD 0) else none
    | _ => none
  literalTwo
    | .int n => n == 2
    | _ => false

theorem padded_four_eq_zero {n : Nat} (h : n < 10000) : padded 4 n = "0000".toList ↔ n = 0 := by
  have hzero : "0000".toList = ['0', '0', '0', '0'] := by decide
  rw [hzero]
  simp only [padded, List.nil_append, List.cons_append, List.cons.injEq, and_true,
    Nat.digitChar_eq_zero]
  omega

/-- The years from 1 to 9999 have four digits that are not all zero. -/
theorem yearOk_yearText (y : Int) (rest : Str) :
    yearOk (yearText y ++ '-' :: rest) = true ↔ 1 ≤ y ∧ y ≤ 9999 := by
  unfold yearText
  by_cases hneg : y < 0
  · rw [if_pos hneg, iff_false_right (by omega)]
    simp [yearOk]
  · rw [if_neg hneg, List.nil_append]
    by_cases hfour : y.natAbs < 10000
    · have htake : (padded 4 y.natAbs ++ '-' :: rest).take 4 = padded 4 y.natAbs :=
        List.take_left' (padded_length 4 _)
      have hfifth : (padded 4 y.natAbs ++ '-' :: rest)[4]? = some '-' := by
        rw [List.getElem?_append_right (by rw [padded_length]), padded_length]
        rfl
      have hdigits : (padded 4 y.natAbs).all Char.isDigit = true :=
        List.all_eq_true.mpr fun c hc => mem_padded hc
      rw [if_pos hfour, yearOk, htake, hfifth, hdigits]
      simp only [beq_self_eq_true, Bool.true_and, bne_iff_ne, ne_eq, padded_four_eq_zero hfour]
      omega
    · have hlong : 4 < (Nat.toDigits 10 y.natAbs).length := by
        by_contra hshort
        have := (Nat.length_toDigits_le_iff (by decide) (by decide)).mp (Nat.le_of_not_lt hshort)
        omega
      have hfifth : (Nat.toDigits 10 y.natAbs ++ '-' :: rest)[4]? ≠ some '-' := by
        rw [List.getElem?_append_left hlong]
        intro h
        exact minus_not_mem_toDigits _ (List.mem_of_getElem? h)
      rw [if_neg hfour, iff_false_right (by omega)]
      simp [yearOk, hfifth]

theorem pydanticReads_sample : PydanticReads sampleLibrary where
  uuid _ := rfl
  datetime t := by
    have htext : t.text = yearText t.year ++ '-' :: (padded 2 t.month ++ '-' :: padded 2 t.day ++
        'T' :: padded 2 t.hour ++ ':' :: padded 2 t.minute ++ ':' :: padded 2 t.second ++
        fraction t.nanos ++ ['Z']) := by
      simp [GoTime.text]
    rw [← yearOk_yearText t.year, ← htext]
    by_cases h : yearOk t.text = true
    · simp [sampleLibrary, h]
    · simp [sampleLibrary, h]

/-- An event as `event.New` makes it, for the host with this text as its identifier. -/
def sampleEvent (hostID : Bytes) : Agent.Wire.Event where
  schema := lit "1.0"
  id := utf8 (uuidStr 0x0123456789abcdef0123456789abcdef#128)
  timestamp :=
    { year := 2026, month := 1, day := 2, hour := 3, minute := 4, second := 5, nanos := 500000000,
      month_valid := UtcTime.sample.month_valid, day_valid := by decide,
      clock_valid := UtcTime.sample.clock_valid, nanos_valid := by decide }
  hostID := hostID
  source := lit "auth"
  raw := lit "Accepted publickey for root from 192.0.2.7"
  metadata := []

/-- `uuid.Parse` on the texts of the sample. -/
def sampleParse (s : Bytes) : Except Bytes Unit :=
  if (readUuid (jsonString s)).isSome then .ok () else .error (lit "invalid UUID format")

theorem validate_sample {hostID : Bytes} (h : hostID ≠ []) :
    (sampleEvent hostID).validate sampleParse = .ok () := by
  have hid : (readUuid (jsonString (sampleEvent hostID).id)).isSome = true := by
    have htext : jsonString (sampleEvent hostID).id = _ := jsonString_utf8 (ascii_uuidStr _)
    rw [htext]
    exact readUuid_uuidStr _
  have hne : ¬ (sampleEvent hostID).id = [] := by
    obtain ⟨c, _, rest, hcons⟩ := uuidStr_cons 0x0123456789abcdef0123456789abcdef#128
    intro hnil
    have hempty : jsonString (sampleEvent hostID).id = [] := by rw [hnil]; rfl
    have htext : jsonString (sampleEvent hostID).id = _ := jsonString_utf8 (ascii_uuidStr _)
    rw [htext, hcons] at hempty
    cases hempty
  have hschema : ¬ (sampleEvent hostID).schema = [] := (by decide +kernel : ¬ lit "1.0" = [])
  have hsource : ¬ (sampleEvent hostID).source = [] := (by decide +kernel : ¬ lit "auth" = [])
  have hzero : (sampleEvent hostID).timestamp.isZero = false := rfl
  have hhost : ¬ (sampleEvent hostID).hostID = [] := h
  simp only [Agent.Wire.Event.validate, if_neg hschema, if_neg hne, sampleParse, hid, if_true,
    hzero, if_neg Bool.false_ne_true, if_neg hhost, if_neg hsource]

/-- The handler of the samples: it fails with the given text. -/
def failing (err : Bytes) : Agent.Command → Bytes × Option Bytes :=
  fun _ => (lit "failed", some err)

theorem length_jsonString {s : Bytes} (h : ∀ b ∈ s, b.toNat < 128) :
    (jsonString s).length = s.length := by
  rw [jsonString, runes_of_ascii h, List.length_map, List.length_map]

theorem reply_failing (err : Bytes) (cmd : Agent.Command) :
    reply (failing err) cmd = some (ackMembers cmd.id (lit "failed") err) := by
  simp [reply, failing, sendAck, ackMembers]

theorem readUuid_received (u : Uuid) :
    (readUuid (jsonString (utf8 (uuidStr u)))).isSome = true := by
  rw [jsonString_utf8 (ascii_uuidStr u)]
  exact readUuid_uuidStr u

/-- A short ASCII text in JSON. -/
theorem length_jsonString_lit {t : String} {n : Nat} (hascii : ∀ b ∈ lit t, b.toNat < 128)
    (hn : (lit t).length ≤ n) : (jsonString (lit t)).length ≤ n := by
  rw [length_jsonString hascii]
  exact hn

theorem fits_sample {hostID : Bytes} (h : (readUuid (jsonString hostID)).isSome = true) :
    Fits (sampleEvent hostID) := by
  have hschema : (jsonString (lit "1.0")).length ≤ 16 :=
    length_jsonString_lit (by decide +kernel) (by decide +kernel)
  have hsource : (jsonString (lit "auth")).length ≤ 255 :=
    length_jsonString_lit (by decide +kernel) (by decide +kernel)
  have hraw : (jsonString (lit "Accepted publickey for root from 192.0.2.7")).length ≤ 64 * 1024 :=
    length_jsonString_lit (by decide +kernel) (by decide +kernel)
  have hyear : (1 : Int) ≤ 2026 ∧ (2026 : Int) ≤ 9999 := by decide
  exact ⟨hschema, readUuid_received 0x0123456789abcdef0123456789abcdef#128, hyear, h, hsource, hraw⟩

/-- The sample with a UUID as its host and an acknowledgement with a short error are validated. -/
theorem agent_frames_accepted_sample :
    (eventFrame sampleLibrary (sampleEvent (utf8 (uuidStr 7#128))).frame).isSome = true ∧
      (commandAckFrame sampleLibrary (ackMembers
        (receivedCommand (canaryFrame ('/' :: "x".toList))).id (lit "failed")
        (lit "no such file"))).isSome = true := by
  have hiff := agent_frames_accepted_iff sampleLibrary pydanticReads_sample
  have hhost : utf8 (uuidStr 7#128) ≠ [] := by decide +kernel
  refine ⟨(hiff.1 sampleParse _ (validate_sample hhost)).mpr
    (fits_sample (readUuid_received 7#128)), ?_⟩
  refine (hiff.2 _ _ _ _ _ _ _ (canaryFrame_built "x".toList)
    (reply_failing (lit "no such file") _)).mpr ?_
  exact (by decide +kernel : (jsonString (lit "no such file")).length ≤ 512)

/-- The event that the agent's tests call good is refused, because its host is no UUID; and so is
the acknowledgement of a command that failed with an error text of 513 bytes. -/
theorem agent_frames_refused : PydanticReads sampleLibrary ∧
    ((sampleEvent (lit "host-abc")).validate sampleParse = .ok () ∧
      ¬ (eventFrame sampleLibrary (sampleEvent (lit "host-abc")).frame).isSome = true) ∧
    ∃ frame members, buildCommandFrame canarySettings (canaryAction ('/' :: "x".toList)) canaryHost
        UtcTime.sample = some frame ∧
      reply (failing (List.replicate 513 120)) (receivedCommand frame) = some members ∧
      ¬ (commandAckFrame sampleLibrary members).isSome = true := by
  have hhost : lit "host-abc" ≠ [] := by decide +kernel
  have hvalid := validate_sample hhost
  refine ⟨pydanticReads_sample, ⟨hvalid, ?_⟩, _, _, canaryFrame_built "x".toList,
    reply_failing _ _, ?_⟩
  · rw [eventFrame_frame pydanticReads_sample hvalid]
    intro hfits
    have hnone : (readUuid (jsonString (lit "host-abc"))).isSome = false := by decide +kernel
    exact absurd (hnone.symm.trans hfits.hostID) Bool.false_ne_true
  · have hids : (receivedCommand (canaryFrame ('/' :: "x".toList))).id =
        utf8 (uuidStr 0x0123456789abcdef0123456789abcdef#128) := rfl
    rw [hids, ackMembers_accepted pydanticReads_sample (readUuid_received _) (Or.inr rfl),
      length_jsonString fun b hb => by rw [List.eq_of_mem_replicate hb]; decide,
      List.length_replicate]
    decide

end ZaqorinCore.Protocol
