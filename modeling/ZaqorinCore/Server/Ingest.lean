import ZaqorinCore.Server.Detect
import ZaqorinCore.Server.Logpush
import ZaqorinCore.Server.Wire
import ZaqorinCore.Text.Codec

/-!
# Lines of a Logpush batch

`_ingest_ndjson` of `api/v1/ingest_cloudflare.py`. A line that is no JSON object is counted and
skipped; the others are stored in one transaction, which the database refuses as a whole when one
row has a timestamp without an offset or a text with U+0000. The endpoint looks for neither, so a
batch is stored exactly when none of its objects has them: `lines_isolated_iff`.
-/

namespace ZaqorinCore.Server.Logpush

open Text

/-! ## Endpoint -/

/-- A `datetime` in microseconds, with its offset from UTC if it has one. -/
structure Stamp where
  wall : Int
  offset : Option Int
  deriving DecidableEq, Repr

def Stamp.Aware (t : Stamp) : Prop := t.offset.isSome

instance : DecidablePred Stamp.Aware := fun _ => inferInstanceAs (Decidable (_ = true))

/-- What the endpoint uses of its surroundings. The clock and `uuid4` are read at most once for
each accepted line. -/
structure Surroundings where
  lib : Library
  /-- `str` of a list or an object. -/
  repr : Json → Str
  /-- `datetime.fromisoformat`, `none` when it raises. -/
  fromisoformat : Str → Option Stamp
  now : Nat → Int
  uuid4 : Nat → Uuid

/-- `MAX_LINE_BYTES`. -/
def maxLineBytes : Nat := 64 * 1024

/-- `MAX_METADATA_CHARS`. -/
def maxMetadataChars : Nat := 4096

/-- `SCHEMA_VERSION`. -/
def schemaVersion : String := "1.0"

/-- `_CF_TO_METADATA`. -/
def cfToMetadata : List (String × String) :=
  [("ClientIP", "src_ip"),
    ("ClientRequestHost", "host"),
    ("ClientRequestMethod", "method"),
    ("ClientRequestURI", "uri"),
    ("EdgeResponseStatus", "status"),
    ("ClientRequestUserAgent", "user_agent"),
    ("ClientCountry", "country"),
    ("ClientASN", "asn"),
    ("BotScore", "bot_score"),
    ("WAFAction", "waf_action"),
    ("WAFRuleID", "waf_rule_id"),
    ("CacheCacheStatus", "cache_status"),
    ("EdgeStartTimestamp", "edge_start_ts"),
    ("EdgeEndTimestamp", "edge_end_ts")]

/-- `_truncate`. The decoder refuses numbers that `str` would refuse. -/
def truncate (env : Surroundings) : Json → Option Str
  | .null => none
  | value => some ((pyStr env.repr value).take maxMetadataChars)

/-- `_build_metadata`. -/
def buildMetadata (env : Surroundings) (record : List (Str × Json)) : List (Str × Str) :=
  cfToMetadata.filterMap fun pair =>
    ((field record pair.1).bind (truncate env)).map fun text => (pair.2.toList, text)

/-- `_parse_timestamp`; `now` is the reading of the clock that it falls back to. -/
def parseTimestamp (env : Surroundings) (now : Int) : Option Json → Stamp
  | some (.str raw) =>
    match env.fromisoformat (replaceFrom ['Z'] "+00:00".toList 0 raw) with
    | some stamp => stamp
    | none => ⟨now, some 0⟩
  | _ => ⟨now, some 0⟩

/-- A row for the table `events`. -/
structure Stored where
  id : Uuid
  hostId : Uuid
  schema : String
  occurredAt : Stamp
  source : String
  raw : Str
  metadata : List (Str × Str)
  deriving DecidableEq, Repr

/-- `bytes.splitlines()`; the first argument holds the line that is being read, in reverse. -/
def splitlinesFrom : Bytes → Bytes → List Bytes
  | [], [] => []
  | line, [] => [line.reverse]
  | line, 13 :: 10 :: rest => line.reverse :: splitlinesFrom [] rest
  | line, b :: rest =>
    if b = 10 ∨ b = 13 then line.reverse :: splitlinesFrom [] rest
    else splitlinesFrom (b :: line) rest

def splitlines (body : Bytes) : List Bytes := splitlinesFrom [] body

/-- A line without the `\r` at its end. -/
def dropReturn (line : Bytes) : Bytes := if line.getLast? = some 13 then line.dropLast else line

/-- The local variables of the loop. -/
structure Tally where
  pending : List Stored
  accepted : Nat
  rejected : Nat
  deriving DecidableEq, Repr

def Tally.reject (tally : Tally) : Tally := { tally with rejected := tally.rejected + 1 }

/-- The row of an object. -/
def eventOf (env : Surroundings) (n : Nat) (text : Str) (record : List (Str × Json)) : Stored where
  id := env.uuid4 n
  hostId := logpushHostId
  schema := schemaVersion
  occurredAt := parseTimestamp env (env.now n) (field record "EdgeStartTimestamp")
  source := sourceCloudflareLogpush
  raw := text
  metadata := buildMetadata env record

/-- One pass of the loop. -/
def ingestLine (env : Surroundings) (tally : Tally) (line : Bytes) : Tally :=
  let line := dropReturn line
  if line = [] then tally
  else if maxLineBytes < line.length then tally.reject
  else
    match safeLoads env.lib (decodeReplace line) with
    | .ok (.obj record) =>
      { tally with
        pending := tally.pending ++ [eventOf env tally.accepted (decodeReplace line) record]
        accepted := tally.accepted + 1 }
    | .ok _ => tally.reject
    | .error _ => tally.reject

/-- What the database takes. -/
structure Stored.Storable (event : Stored) : Prop where
  aware : event.occurredAt.Aware
  raw : '\x00' ∉ event.raw
  metadata : ∀ entry ∈ event.metadata, '\x00' ∉ entry.2

instance (event : Stored) : Decidable event.Storable :=
  decidable_of_iff (event.occurredAt.Aware ∧ '\x00' ∉ event.raw ∧
    ∀ entry ∈ event.metadata, '\x00' ∉ entry.2)
    ⟨fun h => ⟨h.1, h.2.1, h.2.2⟩, fun h => ⟨h.1, h.2, h.3⟩⟩

structure IngestResult where
  accepted : Nat
  rejected : Nat
  deriving DecidableEq, Repr

/-- The `HTTPException` with status 500. -/
inductive IngestError
  | persistenceFailed
  deriving DecidableEq, Repr

/-- `_ingest_ndjson` up to the publishing, on the rows of the table. -/
def ingestNdjson (env : Surroundings) (rows : List Stored) (body : Bytes) :
    Except IngestError IngestResult × List Stored :=
  let tally := (splitlines body).foldl (ingestLine env) ⟨[], 0, 0⟩
  if ∀ event ∈ tally.pending, event.Storable then
    (.ok ⟨tally.accepted, tally.rejected⟩, rows ++ tally.pending)
  else (.error .persistenceFailed, rows)

/-! ## Lines and their events -/

/-- The lines that count. -/
def nonEmptyLines (body : Bytes) : List Bytes :=
  ((splitlines body).map dropReturn).filter fun line => line ≠ []

/-- The object that a line is accepted as. -/
def recordOf (env : Surroundings) (line : Bytes) : Option (List (Str × Json)) :=
  if maxLineBytes < line.length then none
  else
    match safeLoads env.lib (decodeReplace line) with
    | .ok (.obj record) => some record
    | _ => none

def acceptedLines (env : Surroundings) (body : Bytes) : List Bytes :=
  (nonEmptyLines body).filter fun line => (recordOf env line).isSome

/-- The event says what the line says; a line without a time that can be read gets that of the
clock. -/
def Describes (env : Surroundings) (line : Bytes) (event : Stored) : Prop :=
  ∃ record n, recordOf env line = some record ∧ event = eventOf env n (decodeReplace line) record

/-- What the endpoint promises for a batch: it returns, every line is counted, and each accepted
line is stored as one event, in order. -/
def Isolated (env : Surroundings) (rows : List Stored) (body : Bytes) : Prop :=
  ∃ result events, ingestNdjson env rows body = (.ok result, rows ++ events) ∧
    result.accepted + result.rejected = (nonEmptyLines body).length ∧
    result.accepted = events.length ∧
    List.Forall₂ (Describes env) (acceptedLines env body) events

/-- An object with nothing that the database refuses: its timestamp has an offset if it can be
read, and neither the line nor what is kept of its fields has U+0000. -/
structure Harmless (env : Surroundings) (line : Bytes) (record : List (Str × Json)) : Prop where
  aware : ∀ raw stamp, field record "EdgeStartTimestamp" = some (.str raw) →
    env.fromisoformat (replaceFrom ['Z'] "+00:00".toList 0 raw) = some stamp → stamp.Aware
  raw : '\x00' ∉ decodeReplace line
  fields : ∀ pair ∈ cfToMetadata, ∀ value, field record pair.1 = some value → value ≠ .null →
    '\x00' ∉ (pyStr env.repr value).take maxMetadataChars

section

variable {env : Surroundings} {line : Bytes} {record : List (Str × Json)}

theorem aware_parseTimestamp_iff {now : Int} {value : Option Json} :
    (parseTimestamp env now value).Aware ↔ ∀ raw stamp, value = some (.str raw) →
      env.fromisoformat (replaceFrom ['Z'] "+00:00".toList 0 raw) = some stamp → stamp.Aware := by
  unfold parseTimestamp
  split
  · rename_i raw
    split
    · rename_i stamp hread
      constructor
      · intro haware raw' stamp' hraw hstamp
        cases hraw
        rw [hread] at hstamp
        cases hstamp
        exact haware
      · intro h
        exact h raw stamp rfl hread
    · rename_i hread
      constructor
      · intro _ raw' stamp' hraw hstamp
        cases hraw
        rw [hread] at hstamp
        cases hstamp
      · intro _
        exact rfl
  · rename_i hvalue
    constructor
    · intro _ raw' stamp' hraw _
      exact absurd hraw (hvalue raw')
    · intro _
      exact rfl

theorem mem_buildMetadata {entry : Str × Str} : entry ∈ buildMetadata env record ↔
    ∃ pair ∈ cfToMetadata, ∃ value, field record pair.1 = some value ∧ value ≠ .null ∧
      entry = (pair.2.toList, (pyStr env.repr value).take maxMetadataChars) := by
  unfold buildMetadata
  rw [List.mem_filterMap]
  constructor
  · rintro ⟨pair, hpair, hentry⟩
    obtain ⟨text, htext, rfl⟩ := Option.map_eq_some_iff.mp hentry
    obtain ⟨value, hvalue, htrunc⟩ := Option.bind_eq_some_iff.mp htext
    cases value with
    | null => cases htrunc
    | _ => exact ⟨pair, hpair, _, hvalue, nofun, by rw [← Option.some.inj htrunc]⟩
  · rintro ⟨pair, hpair, value, hvalue, hnull, rfl⟩
    refine ⟨pair, hpair, ?_⟩
    rw [hvalue]
    cases value with
    | null => exact absurd rfl hnull
    | _ => rfl

/-- The row of an object is stored exactly when the object is harmless. -/
theorem storable_eventOf_iff {n : Nat} :
    (eventOf env n (decodeReplace line) record).Storable ↔ Harmless env line record := by
  constructor
  · intro h
    refine ⟨aware_parseTimestamp_iff.mp h.aware, h.raw, ?_⟩
    intro pair hpair value hvalue hnull
    exact h.metadata _ (mem_buildMetadata.mpr ⟨pair, hpair, value, hvalue, hnull, rfl⟩)
  · intro h
    refine ⟨aware_parseTimestamp_iff.mpr h.aware, h.raw, ?_⟩
    intro entry hentry
    obtain ⟨pair, hpair, value, hvalue, hnull, rfl⟩ := mem_buildMetadata.mp hentry
    exact h.fields pair hpair value hvalue hnull

end

/-! ## Loop -/

section

variable {env : Surroundings}

/-- What one line does to the tally. -/
theorem ingestLine_eq (tally : Tally) (line : Bytes) :
    ingestLine env tally line =
      if dropReturn line = [] then tally
      else match recordOf env (dropReturn line) with
        | some record => ⟨tally.pending ++
            [eventOf env tally.accepted (decodeReplace (dropReturn line)) record],
            tally.accepted + 1, tally.rejected⟩
        | none => tally.reject := by
  unfold ingestLine recordOf
  dsimp only
  split
  · rfl
  · split
    · rfl
    · cases safeLoads env.lib (decodeReplace (dropReturn line)) with
      | error e => rfl
      | ok value => cases value <;> rfl

/-- What the loop does: the accepted lines give one event each, in order, and the others are
counted. -/
theorem foldl_ingestLine (env : Surroundings) (lines : List Bytes) (tally : Tally) :
    ∃ events, (lines.foldl (ingestLine env) tally).pending = tally.pending ++ events ∧
      (lines.foldl (ingestLine env) tally).accepted = tally.accepted + events.length ∧
      (lines.foldl (ingestLine env) tally).accepted +
        (lines.foldl (ingestLine env) tally).rejected = tally.accepted + tally.rejected +
          ((lines.map dropReturn).filter fun line => line ≠ []).length ∧
      List.Forall₂ (Describes env)
        (((lines.map dropReturn).filter fun line => line ≠ []).filter
          fun line => (recordOf env line).isSome) events := by
  induction lines generalizing tally with
  | nil => exact ⟨[], by simp, by simp, by simp, .nil⟩
  | cons line lines ih =>
    obtain ⟨events, hpending, haccepted, hcount, hall⟩ := ih (ingestLine env tally line)
    rw [List.foldl_cons, List.map_cons]
    rw [ingestLine_eq] at hpending haccepted hcount ⊢
    by_cases hempty : dropReturn line = []
    · rw [if_pos hempty] at hpending haccepted hcount ⊢
      rw [List.filter_cons_of_neg (by simpa using hempty)]
      exact ⟨events, hpending, haccepted, hcount, hall⟩
    · rw [if_neg hempty] at hpending haccepted hcount ⊢
      rw [List.filter_cons_of_pos (by simpa using hempty), List.length_cons]
      cases hrecord : recordOf env (dropReturn line) with
      | none =>
        simp only [hrecord] at hpending haccepted hcount ⊢
        rw [List.filter_cons_of_neg (by simp [hrecord])]
        refine ⟨events, hpending, haccepted, ?_, hall⟩
        simp only [Tally.reject] at hcount ⊢
        omega
      | some record =>
        simp only [hrecord] at hpending haccepted hcount ⊢
        rw [List.filter_cons_of_pos (by simp [hrecord])]
        refine ⟨eventOf env tally.accepted (decodeReplace (dropReturn line)) record :: events,
          ?_, ?_, ?_, .cons ⟨record, tally.accepted, hrecord, rfl⟩ hall⟩
        · rw [hpending, List.append_assoc]
          rfl
        · rw [haccepted, List.length_cons]
          omega
        · rw [hcount]
          omega

/-- Which events are stored depends on the lines that they describe. -/
theorem storable_iff_harmless {lines : List Bytes} {events : List Stored}
    (h : List.Forall₂ (Describes env) lines events) :
    (∀ event ∈ events, event.Storable) ↔
      ∀ line ∈ lines, ∀ record, recordOf env line = some record → Harmless env line record := by
  induction h with
  | nil => simp
  | @cons line event lines events hfirst _ ih =>
    obtain ⟨record, n, hrecord, rfl⟩ := hfirst
    rw [List.forall_mem_cons, List.forall_mem_cons, ih, storable_eventOf_iff]
    constructor
    · rintro ⟨hharmless, hrest⟩
      refine ⟨?_, hrest⟩
      intro record' hrecord'
      rw [hrecord] at hrecord'
      cases hrecord'
      exact hharmless
    · rintro ⟨hharmless, hrest⟩
      exact ⟨hharmless record hrecord, hrest⟩

/-- The lines of a batch stand for themselves exactly when every line that is accepted as an
object is harmless. -/
theorem lines_isolated_iff (env : Surroundings) (rows : List Stored) (body : Bytes) :
    Isolated env rows body ↔ ∀ line ∈ nonEmptyLines body, ∀ record,
      recordOf env line = some record → Harmless env line record := by
  obtain ⟨events, hpending, haccepted, hcount, hall⟩ :=
    foldl_ingestLine env (splitlines body) ⟨[], 0, 0⟩
  simp only [List.nil_append, Nat.zero_add] at hpending haccepted hcount
  have hlines : (∀ line ∈ nonEmptyLines body, ∀ record,
      recordOf env line = some record → Harmless env line record) ↔
      ∀ event ∈ events, event.Storable := by
    rw [storable_iff_harmless hall]
    constructor
    · intro h line hline
      exact h line (List.mem_filter.mp hline).1
    · intro h line hline record hrecord
      exact h line (List.mem_filter.mpr ⟨hline, by simp [hrecord]⟩) record hrecord
  rw [hlines]
  unfold Isolated ingestNdjson
  dsimp only
  rw [hpending]
  constructor
  · rintro ⟨result, stored, hresult, -, -, -⟩
    by_contra hbad
    rw [if_neg hbad] at hresult
    cases hresult
  · intro hgood
    rw [if_pos hgood]
    exact ⟨_, events, rfl, hcount, haccepted, hall⟩

end

/-- An event whose time has no offset, as Python would write it. -/
def naiveLine : Str :=
  "\x7b\"EdgeStartTimestamp\":\"2024-01-01T00:00:00\"\x7d".toList

/-- An event of the same batch. -/
def plainLine : Str := "\x7b\"ClientIP\":\"192.0.2.7\"\x7d".toList

/-- The library on these two lines. -/
def sampleSurroundings : Surroundings where
  lib := Library.ofTable
    [(naiveLine, .obj [("EdgeStartTimestamp".toList, .str "2024-01-01T00:00:00".toList)]),
      (plainLine, .obj [("ClientIP".toList, .str "192.0.2.7".toList)])] [] []
  repr := fun _ => []
  fromisoformat := fun s =>
    if s = "2024-01-01T00:00:00".toList then some ⟨1704067200000000, none⟩ else none
  now := fun _ => 1704067201000000
  uuid4 := fun n => BitVec.ofNat 128 n

theorem naive_line_fails_batch : ¬ ∀ env rows body, Isolated env rows body := by
  intro h
  obtain ⟨result, events, hresult, -⟩ :=
    h sampleSurroundings [] (utf8 (plainLine ++ '\n' :: naiveLine))
  have hfails : (ingestNdjson sampleSurroundings []
      (utf8 (plainLine ++ '\n' :: naiveLine))).1.isOk = false := by decide +kernel
  rw [hresult] at hfails
  cases hfails

end ZaqorinCore.Server.Logpush
