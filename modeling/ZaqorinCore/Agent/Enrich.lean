import ZaqorinCore.Agent.Event
import ZaqorinCore.Agent.Webtail

/-!
# The metadata of a line

`enrichWithWebParser` of `internal/app` with the parser of ModSecurity's audit log. A line of the
log is a marker, a header or a message. What the event of a line carries is told exactly by
`modsec_metadata`: the name of a header becomes a key as it is, so a client that sends a header
called `Src-Ip` or `Modsec-Section` writes what the address or the section of the event says.
-/

namespace ZaqorinCore.Agent.Webtail

open ZaqorinCore.Text

/-! ## The audit log -/

def colon : UInt8 := 58
def underscore : UInt8 := 95

/-- `modSecMaxLineBytes` -/
def modSecMaxLineBytes : Nat := 1048576

/-- The prefix and the suffix of a marker. -/
def dashes : Bytes := [dash, dash]

/-- The codes of the sections: A, B, C, E, F, H, I, J, K and Z. -/
def sectionCodes : Bytes := [65, 66, 67, 69, 70, 72, 73, 74, 75, 90]

/-- The code that ends a transaction. -/
def finalCode : UInt8 := 90

/-- What `ParseModSecLine` returns; its map is nil or has a single entry. -/
structure ModSecLine where
  code : Bytes
  field : Option (Bytes × Bytes)
  endTxn : Bool
  ok : Bool
  deriving DecidableEq

def ModSecLine.rejected : ModSecLine := ⟨[], none, false, false⟩

/-- The line has the form of a marker. -/
def isMarker (line : Bytes) : Bool := dashes.isPrefixOf line && dashes.isSuffixOf line

/-- `strings.TrimPrefix(strings.TrimSuffix(line, "--"), "--")` -/
def markerBody (line : Bytes) : Bytes :=
  let rest := if dashes.isSuffixOf line then line.take (line.length - dashes.length) else line
  if dashes.isPrefixOf rest then rest.drop dashes.length else rest

def readCode : Bytes → ModSecLine
  | [c] => if c ∈ sectionCodes then ⟨[c], none, c == finalCode, true⟩ else .rejected
  | _ => .rejected

def readMarker (body : Bytes) : ModSecLine :=
  match lastIndexOf [dash] body with
  | none => .rejected
  | some i =>
    let sectionCode := body.drop (i + 1)
    if sectionCode = lit "end" then ⟨[], none, false, true⟩ else readCode sectionCode

/-- `strings.ToLower(strings.ReplaceAll(key, "-", "_"))` -/
def headerKey (key : Bytes) : Bytes :=
  toLower (key.map fun b => if b = dash then underscore else b)

def readHeader (line : Bytes) : ModSecLine :=
  match indexByte colon line with
  | none => ⟨[], some (lit "msg", line), false, true⟩
  | some i =>
    let key := trimSpace (line.take i)
    let val := trimSpace (line.drop (i + 1))
    ⟨[], some (headerKey key, val), false, true⟩

def parseModSecLine (line : Bytes) : ModSecLine :=
  if modSecMaxLineBytes < line.length then .rejected
  else
    let line := trimRight line
    if line = [] then .rejected
    else if isMarker line then readMarker (markerBody line) else readHeader line

/-! ## The lines of the log -/

/-- The marker of a section, without its line break. -/
def marker (id : Bytes) (c : UInt8) : Bytes := dashes ++ id ++ [dash, c] ++ dashes

/-- A header: its name, normalised, and its value. -/
def IsHeader (line k v : Bytes) : Prop :=
  ∃ before after, colon ∉ before ∧ line = before ++ colon :: after ∧
    k = headerKey (trimSpace before) ∧ v = trimSpace after

section

variable {line body x y : Bytes} {c : UInt8}

theorem lastIndexOf_dash (hy : dash ∉ y) : lastIndexOf [dash] (x ++ dash :: y) = some x.length := by
  have hhere : lastIndexOf [dash] (dash :: y) = some 0 := by
    rw [lastIndexOf, lastIndexOf_eq_none (List.mem_singleton_self dash) hy]
    rfl
  exact lastIndexOf_append hhere

/-- A body is taken apart at its last dash. -/
theorem readMarker_append (hy : dash ∉ y) : readMarker (x ++ dash :: y) =
    if y = lit "end" then ⟨[], none, false, true⟩ else readCode y := by
  have hdrop : (x ++ dash :: y).drop (x.length + 1) = y := by
    rw [← List.drop_drop, List.drop_left]
    rfl
  rw [readMarker, lastIndexOf_dash hy]
  simp only [hdrop]

theorem readMarker_none (h : dash ∉ body) : readMarker body = .rejected := by
  rw [readMarker, lastIndexOf_eq_none (List.mem_singleton_self dash) h]

/-- The last dash of a text. -/
theorem exists_last_dash (h : dash ∈ body) : ∃ x y, body = x ++ dash :: y ∧ dash ∉ y := by
  obtain ⟨y, x, hrev, hy⟩ := List.eq_append_cons_of_mem (List.mem_reverse.mpr h)
  refine ⟨x.reverse, y.reverse, ?_, ?_⟩
  · have hback := congrArg List.reverse hrev
    simpa using hback
  · rwa [List.mem_reverse]

theorem readCode_eq (y : Bytes) :
    (∃ c ∈ sectionCodes, y = [c] ∧ readCode y = ⟨[c], none, c == finalCode, true⟩) ∨
      readCode y = .rejected := by
  unfold readCode
  split
  · rename_i c
    by_cases hc : c ∈ sectionCodes
    · exact Or.inl ⟨c, hc, rfl, if_pos hc⟩
    · exact Or.inr (if_neg hc)
  · exact Or.inr rfl

theorem dash_notMem_code (hc : c ∈ sectionCodes) : dash ∉ [c] := by
  intro h
  rw [← List.mem_singleton.mp h] at hc
  exact absurd hc (by decide)

theorem code_ne_end (c : UInt8) : [c] ≠ lit "end" := by
  intro h
  have hlen : (1 : Nat) = (lit "end").length := congrArg List.length h
  exact absurd hlen (by decide)

/-- The body of a marker with a section's code. -/
theorem readMarker_code (hc : c ∈ sectionCodes) :
    readMarker (x ++ [dash, c]) = ⟨[c], none, c == finalCode, true⟩ := by
  rw [readMarker_append (dash_notMem_code hc), if_neg (code_ne_end c), readCode, if_pos hc]

/-- What a marker can say: its section, the end of one, or nothing. -/
theorem readMarker_cases (body : Bytes) :
    (∃ id, ∃ c ∈ sectionCodes, body = id ++ [dash, c] ∧
        readMarker body = ⟨[c], none, c == finalCode, true⟩) ∨
      (readMarker body = ⟨[], none, false, true⟩) ∨ readMarker body = .rejected := by
  by_cases h : dash ∈ body
  · obtain ⟨x, y, rfl, hy⟩ := exists_last_dash h
    rw [readMarker_append hy]
    split
    · exact Or.inr (Or.inl rfl)
    · rcases readCode_eq y with ⟨c, hc, rfl, hcode⟩ | hcode
      · exact Or.inl ⟨x, c, hc, rfl, hcode⟩
      · exact Or.inr (Or.inr hcode)
  · exact Or.inr (Or.inr (readMarker_none h))

theorem isMarker_iff : isMarker line = true ↔ dashes <+: line ∧ dashes <:+ line := by
  rw [isMarker, Bool.and_eq_true, List.isPrefixOf_iff_prefix, List.isSuffixOf_iff_suffix]

theorem markerBody_append (x : Bytes) : markerBody (dashes ++ x ++ dashes) = x := by
  have hsuffix : dashes.isSuffixOf (dashes ++ x ++ dashes) = true :=
    List.isSuffixOf_iff_suffix.mpr (List.suffix_append _ _)
  have htake : (dashes ++ x ++ dashes).take ((dashes ++ x ++ dashes).length - dashes.length) =
      dashes ++ x := by
    rw [List.length_append, Nat.add_sub_cancel, List.take_left]
  have hstart : dashes.isPrefixOf (dashes ++ x) = true :=
    List.isPrefixOf_iff_prefix.mpr (List.prefix_append _ _)
  rw [markerBody, if_pos hsuffix, htake]
  simp only [hstart, if_true, List.drop_left]

/-- A line of the form of a marker has its dashes apart, or no body that could name a section. -/
theorem markerBody_cases (h : isMarker line = true) :
    (∃ x, line = dashes ++ x ++ dashes) ∨ (markerBody line).length ≤ 1 := by
  obtain ⟨⟨rest, hrest⟩, hsuffix⟩ := isMarker_iff.mp h
  by_cases hlen : 2 ≤ rest.length
  · left
    rw [← hrest] at hsuffix
    obtain ⟨x, hx⟩ := List.suffix_of_suffix_length_le hsuffix (List.suffix_append _ _) hlen
    exact ⟨x, by rw [← hrest, ← hx, List.append_assoc]⟩
  · right
    have htotal : line.length = 2 + rest.length := by
      rw [← hrest, List.length_append]
      rfl
    have hs : dashes.isSuffixOf line = true := List.isSuffixOf_iff_suffix.mpr hsuffix
    have hbody : (markerBody line).length ≤ (line.take (line.length - dashes.length)).length := by
      rw [markerBody, if_pos hs]
      split
      · rw [List.length_drop]
        exact Nat.sub_le _ _
      · exact Nat.le_refl _
    have hdashes : dashes.length = 2 := rfl
    rw [List.length_take] at hbody
    omega

/-- A marker names a section exactly when it is written with its code. -/
theorem marker_code_iff (h : isMarker line = true) (hc : c ∈ sectionCodes) :
    readMarker (markerBody line) = ⟨[c], none, c == finalCode, true⟩ ↔
      ∃ id, line = marker id c := by
  constructor
  · intro hread
    have hcode : ∀ d, readMarker (markerBody line) = ⟨[d], none, d == finalCode, true⟩ → d = c := by
      intro d hd
      rw [hread] at hd
      exact (List.singleton_injective (congrArg ModSecLine.code hd)).symm
    rcases readMarker_cases (markerBody line) with ⟨id, d, -, hbody, hd⟩ | hd | hd
    · obtain rfl := hcode d hd
      rcases markerBody_cases h with ⟨x, rfl⟩ | hshort
      · rw [markerBody_append] at hbody
        exact ⟨id, by rw [hbody, marker]; simp only [List.append_assoc]⟩
      · rw [hbody, List.length_append] at hshort
        have : ([dash, d] : Bytes).length = 2 := rfl
        omega
    · rw [hd] at hread
      cases congrArg ModSecLine.code hread
    · rw [hd] at hread
      cases congrArg ModSecLine.code hread
  · rintro ⟨id, rfl⟩
    have hshape : marker id c = dashes ++ (id ++ [dash, c]) ++ dashes := by
      rw [marker]
      simp only [List.append_assoc]
    rw [hshape, markerBody_append, readMarker_code hc]

theorem isMarker_marker (id : Bytes) (c : UInt8) : isMarker (marker id c) = true := by
  rw [isMarker_iff, marker]
  refine ⟨?_, List.suffix_append _ _⟩
  rw [List.append_assoc, List.append_assoc]
  exact List.prefix_append _ _

theorem readHeader_field (line k v : Bytes) : (readHeader line).field = some (k, v) ↔
    IsHeader line k v ∨ (colon ∉ line ∧ k = lit "msg" ∧ v = line) := by
  by_cases h : colon ∈ line
  · obtain ⟨before, after, rfl, hbefore⟩ := List.eq_append_cons_of_mem h
    have hdrop : (before ++ colon :: after).drop (before.length + 1) = after := by
      rw [← List.drop_drop, List.drop_left]
      rfl
    rw [readHeader, indexByte_append hbefore]
    simp only [List.take_left, hdrop, Option.some.injEq, Prod.mk.injEq]
    constructor
    · rintro ⟨rfl, rfl⟩
      exact Or.inl ⟨before, after, hbefore, rfl, rfl, rfl⟩
    · rintro (⟨b, a, hb, hline, rfl, rfl⟩ | ⟨hno, -⟩)
      · obtain ⟨rfl, rfl⟩ := cut_first hbefore hb hline
        exact ⟨rfl, rfl⟩
      · exact absurd h hno
  · rw [readHeader, indexByte_eq_none h]
    simp only [Option.some.injEq, Prod.mk.injEq]
    constructor
    · rintro ⟨rfl, rfl⟩
      exact Or.inr ⟨h, rfl, rfl⟩
    · rintro (⟨b, a, -, rfl, -⟩ | ⟨-, rfl, rfl⟩)
      · exact absurd (List.mem_append_right _ List.mem_cons_self) h
      · exact ⟨rfl, rfl⟩

end

end ZaqorinCore.Agent.Webtail

namespace ZaqorinCore.Agent.App

open ZaqorinCore.Text ZaqorinCore.Agent.Wire ZaqorinCore.Agent.Webtail

/-! ## Events -/

/-- `uuid.NewString` and `time.Now` at the making of an event. -/
structure Stamp where
  id : Bytes
  now : GoTime

/-- `event.New` -/
def newEvent (hostID source raw : Bytes) (stamp : Stamp) : Event :=
  ⟨lit "1.0", stamp.id, stamp.now, hostID, source, raw, []⟩

/-- `event.SourceNginxAccess` -/
def sourceNginxAccess : Bytes := lit "nginx_access"

/-- `event.SourceModSecAudit` -/
def sourceModSecAudit : Bytes := lit "modsec_audit"

/-- `m[k] = v` -/
def setKey (m : List (Bytes × Bytes)) (k v : Bytes) : List (Bytes × Bytes) :=
  if m.any fun f => f.1 == k then m.map fun f => if f.1 == k then (k, v) else f else m ++ [(k, v)]

/-- `for k, v := range fields { ev.Metadata[k] = v }` -/
def setAll (m fields : List (Bytes × Bytes)) : List (Bytes × Bytes) :=
  fields.foldl (fun m f => setKey m f.1 f.2) m

def keys : List Key :=
  [.sourceIP, .method, .uri, .status, .bytes, .referer, .userAgent, .authUser]

/-- The entries of the map that `ParseNginxLine` returns. -/
def entries (fields : Fields) : List (Bytes × Bytes) :=
  keys.filterMap fun k => (fields k).map fun v => (lit k.name, v)

/-- The key of the section. -/
def sectionKey : Bytes := lit "modsec_section"

def enrichModSec (ev : Event) (line : ModSecLine) : Event :=
  if line.ok = false then ev
  else if line.field = none ∧ line.code = [] then ev
  else
    let metadata := if line.code = [] then ev.metadata else setKey ev.metadata sectionKey line.code
    { ev with metadata := setAll metadata line.field.toList }

/-- `enrichWithWebParser`, or none when the parser panics. -/
def enrichWithWebParser (ev : Event) : Option Event :=
  if ev.raw = [] then some ev
  else if ev.source = sourceNginxAccess then
    match parseNginxLine ev.raw with
    | .error .outOfRange => none
    | .error .unrecognised => some ev
    | .ok fields => some { ev with metadata := setAll ev.metadata (entries fields) }
  else if ev.source = sourceModSecAudit then some (enrichModSec ev (parseModSecLine ev.raw))
  else some ev

section

variable {ev : Event}

/-- The agent goes down with the lines of nginx that are cut off behind their request. -/
theorem enrich_eq_none_iff :
    enrichWithWebParser ev = none ↔ ev.source = sourceNginxAccess ∧ CutAfterRequest ev.raw := by
  rw [← parse_outOfRange_iff]
  unfold enrichWithWebParser
  by_cases hraw : ev.raw = []
  · rw [if_pos hraw, hraw]
    simp only [Option.some_ne_none, false_iff, not_and]
    intro _ h
    cases h
  rw [if_neg hraw]
  by_cases hsource : ev.source = sourceNginxAccess
  · rw [if_pos hsource]
    cases hparse : parseNginxLine ev.raw with
    | error stop =>
      cases stop with
      | unrecognised => simp
      | outOfRange => simp [hsource]
    | ok fields => simp
  · rw [if_neg hsource]
    split <;> simp [hsource]

end

/-! ## The event of an audit line -/

/-- A marker of a section: the entry it makes. -/
def MarkerEntry (line k v : Bytes) : Prop :=
  k = sectionKey ∧ ∃ id, ∃ c ∈ sectionCodes, v = [c] ∧ line = marker id c

/-- A line that is no marker: the entry it makes. -/
def TextEntry (line k v : Bytes) : Prop :=
  isMarker line = false ∧ (IsHeader line k v ∨ (colon ∉ line ∧ k = lit "msg" ∧ v = line))

theorem mem_enrichModSec {ev : Event} (hev : ev.metadata = []) (line : ModSecLine) (k v : Bytes)
    (hone : line.code = [] ∨ line.field = none) :
    (k, v) ∈ (enrichModSec ev line).metadata ↔ line.ok = true ∧
      ((line.code ≠ [] ∧ k = sectionKey ∧ v = line.code) ∨ line.field = some (k, v)) := by
  obtain ⟨code, field, endTxn, ok⟩ := line
  cases ok with
  | false => simp [enrichModSec, hev]
  | true =>
    rcases field with _ | ⟨k', v'⟩
    · by_cases hcode : code = []
      · simp [enrichModSec, hev, hcode]
      · simp [enrichModSec, hev, hcode, setAll, setKey]
    · have hcode : code = [] := by simpa using hone
      subst hcode
      have hentry : (enrichModSec ev ⟨[], some (k', v'), endTxn, true⟩).metadata = [(k', v')] := by
        simp [enrichModSec, hev, setAll, setKey]
      rw [hentry, List.mem_singleton, eq_comm]
      simp

theorem readMarker_one (body : Bytes) : (readMarker body).field = none := by
  rcases readMarker_cases body with ⟨_, _, _, _, h⟩ | h | h
  all_goals simp only [h, ModSecLine.rejected]

/-- The code of a marker. -/
theorem readMarker_code_iff {line : Bytes} (h : isMarker line = true) (v : Bytes) :
    ((readMarker (markerBody line)).ok = true ∧ (readMarker (markerBody line)).code ≠ [] ∧
        v = (readMarker (markerBody line)).code) ↔
      ∃ id, ∃ c ∈ sectionCodes, v = [c] ∧ line = marker id c := by
  constructor
  · rintro ⟨hok, hcode, rfl⟩
    rcases readMarker_cases (markerBody line) with ⟨_, c, hc, -, hread⟩ | hread | hread
    · obtain ⟨id, hid⟩ := (marker_code_iff h hc).mp hread
      exact ⟨id, c, hc, by rw [hread], hid⟩
    · rw [hread] at hcode
      exact absurd rfl hcode
    · rw [hread] at hok
      cases hok
  · rintro ⟨id, c, hc, rfl, hline⟩
    rw [(marker_code_iff h hc).mpr ⟨id, hline⟩]
    exact ⟨rfl, List.cons_ne_nil _ _, rfl⟩

theorem readHeader_shape (line : Bytes) :
    (readHeader line).code = [] ∧ (readHeader line).ok = true := by
  unfold readHeader
  split <;> exact ⟨rfl, rfl⟩

theorem enrich_modsec (hostID : Bytes) {raw : Bytes} (stamp : Stamp) (hraw : raw ≠ []) :
    enrichWithWebParser (newEvent hostID sourceModSecAudit raw stamp) =
      some (enrichModSec (newEvent hostID sourceModSecAudit raw stamp) (parseModSecLine raw)) := by
  have hsource : sourceModSecAudit ≠ sourceNginxAccess := by decide
  show (if raw = [] then some (newEvent hostID sourceModSecAudit raw stamp)
    else if sourceModSecAudit = sourceNginxAccess then _ else _) = _
  rw [if_neg hraw, if_neg hsource]
  exact if_pos rfl

/-- What the event of a line of the audit log carries. -/
theorem modsec_metadata (hostID raw : Bytes) (stamp : Stamp) :
    ∃ ev, enrichWithWebParser (newEvent hostID sourceModSecAudit raw stamp) = some ev ∧
      ∀ k v, (k, v) ∈ ev.metadata ↔ raw.length ≤ modSecMaxLineBytes ∧ trimRight raw ≠ [] ∧
        (MarkerEntry (trimRight raw) k v ∨ TextEntry (trimRight raw) k v) := by
  by_cases hraw : raw = []
  · refine ⟨_, if_pos hraw, fun k v => ?_⟩
    subst hraw
    exact iff_of_false List.not_mem_nil fun h => h.2.1 rfl
  refine ⟨_, enrich_modsec hostID stamp hraw, fun k v => ?_⟩
  by_cases hcap : modSecMaxLineBytes < raw.length
  · rw [parseModSecLine, if_pos hcap]
    exact iff_of_false List.not_mem_nil fun h => absurd h.1 (Nat.not_le.mpr hcap)
  rw [parseModSecLine, if_neg hcap]
  by_cases hline : trimRight raw = []
  · simp only [if_pos hline]
    exact iff_of_false List.not_mem_nil fun h => h.2.1 hline
  simp only [if_neg hline]
  have hbounds : raw.length ≤ modSecMaxLineBytes := Nat.not_lt.mp hcap
  by_cases hmarker : isMarker (trimRight raw) = true
  · rw [if_pos hmarker, mem_enrichModSec rfl _ k v (Or.inr (readMarker_one _)), readMarker_one]
    have htext : ¬ TextEntry (trimRight raw) k v := fun h => absurd h.1 (by rw [hmarker]; decide)
    rw [MarkerEntry, ← readMarker_code_iff hmarker]
    simp only [hbounds, htext]
    tauto
  · rw [if_neg hmarker]
    obtain ⟨hcode, hok⟩ := readHeader_shape (trimRight raw)
    rw [mem_enrichModSec rfl _ k v (Or.inl hcode), readHeader_field]
    have hentry : ¬ MarkerEntry (trimRight raw) k v := by
      rintro ⟨-, id, c, -, -, h⟩
      rw [h, isMarker_marker] at hmarker
      exact hmarker rfl
    simp only [hbounds, hentry, TextEntry, Bool.eq_false_iff.mpr hmarker, hcode, hok]
    tauto

end ZaqorinCore.Agent.App
