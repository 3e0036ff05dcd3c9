import ZaqorinCore.Server.Provision
import ZaqorinCore.Text.Toml

/-!
# The configuration of an agent

`render_agent_toml` of `api/v1/agents_provision.py`: texts that come from outside stand as strings
in a document that is otherwise fixed. A quoted text is read back exactly and never ends its line,
so the document is read back with the given values and nothing else changed:
`agent_toml_round_trip`.
-/

namespace ZaqorinCore.Server.Provision

open Text

/-- `OSLit` -/
inductive OSLit
  | linux
  | macos
  | windows
  deriving DecidableEq

def OSLit.name : OSLit → Str
  | linux => "linux".toList
  | macos => "macos".toList
  | windows => "windows".toList

/-- `ArchLit` -/
inductive ArchLit
  | amd64
  | arm64
  deriving DecidableEq

def ArchLit.name : ArchLit → Str
  | amd64 => "amd64".toList
  | arm64 => "arm64".toList

/-- A dictionary of texts. -/
structure LogSource where
  entries : List (Str × Str)
  distinct : (entries.map Prod.fst).Nodup

theorem name_path_distinct : ["name".toList, "path".toList].Nodup := by decide

def logSource (name path : String) : LogSource :=
  ⟨[("name".toList, name.toList), ("path".toList, path.toList)], name_path_distinct⟩

/-- `_LOG_SOURCE_PRESETS` -/
def logSourcePresets : OSLit → List LogSource
  | .linux => [logSource "auth" "/var/log/auth.log", logSource "syslog" "/var/log/syslog"]
  | .macos =>
    [logSource "unified_auth" "/var/log/auth.log", logSource "install" "/var/log/install.log"]
  | .windows => [logSource "security_evtx" "Security", logSource "system_evtx" "System"]

/-- `_MAX_TEMPLATE_BYTES` -/
def maxTemplateBytes : Nat := 64 * 1024

/-! ## Rendering -/

/-- One character of a quoted text; `f"\\u{cp:04X}"` for a control character. -/
def escapeChar (c : Char) : Str :=
  if c = '\\' then "\\\\".toList
  else if c = '\x22' then "\\\x22".toList
  else if c.toNat < 0x20 ∨ c.toNat = 0x7F then
    '\\' :: 'u' :: (hexPadded 4 c.toNat).map Char.toUpper
  else [c]

/-- `_toml_quote` -/
def tomlQuote (value : Str) : Str := '\x22' :: (value.flatMap escapeChar ++ ['\x22'])

/-- `"\n".join(lines)` -/
def joinLines (lines : List Str) : Str := List.intercalate ['\n'] lines

def rowChunks (row : LogSource) : List Str :=
  "\n[[log_source]]".toList :: row.entries.map fun e => e.1 ++ " = ".toList ++ tomlQuote e.2

/-- `_toml_array_of_tables` -/
def tomlArrayOfTables (rows : List LogSource) : Str :=
  let chunks := rows.flatMap rowChunks
  joinLines chunks ++ if chunks = [] then [] else ['\n']

/-- `s.rstrip("\n")` -/
def stripNewlines (s : Str) : Str := (s.reverse.dropWhile (· == '\n')).reverse

def stateDirLine (os : OSLit) : Str :=
  if os = .windows then "state_dir = \"C:\\\\ProgramData\\\\zaqorin-agent\"".toList
  else "state_dir = \"/var/lib/zaqorin-agent\"".toList

def agentSections (os : OSLit) (arch : ArchLit) (serverUrl agentId authToken : Str)
    (logSources : List LogSource) (includeWindowsBlock : Bool) : List Str :=
  ["# ZaqorinCore agent configuration".toList,
    "# Generated by /api/v1/agents/provision/template".toList,
    "# OS: ".toList ++ os.name ++ "    Arch: ".toList ++ arch.name,
    "# See ARCHITECTURE.md and agent.example.toml for field semantics.".toList,
    [],
    "server_url = ".toList ++ tomlQuote serverUrl,
    "agent_id    = ".toList ++ tomlQuote agentId,
    "auth_token  = ".toList ++ tomlQuote authToken,
    [],
    "log_level = \"info\"".toList,
    stateDirLine os,
    "dry_run = true".toList,
    [],
    stripNewlines (tomlArrayOfTables logSources),
    []] ++
  (if includeWindowsBlock = true ∨ os = .windows then
    ["[windows_eventlog]".toList, "mode = \"pull\"".toList, []]
  else []) ++
  ["[response]".toList,
    "allow_block_ip        = true".toList,
    "allow_kill_process    = false".toList,
    "allow_disable_user    = false".toList,
    "block_default_ttl_sec = 3600".toList,
    []]

/-- `render_agent_toml` -/
def renderAgentToml (os : OSLit) (arch : ArchLit) (serverUrl agentId authToken : Str)
    (logSources : Option (List LogSource)) (includeWindowsBlock : Bool) :
    Except HttpException Str :=
  let rendered := joinLines (agentSections os arch serverUrl agentId authToken
    (logSources.getD (logSourcePresets os)) includeWindowsBlock)
  if maxTemplateBytes < (utf8 rendered).length then
    .error ⟨422, "rendered template is ".toList ++ itoa rendered.length ++
      " bytes; limit is ".toList ++ itoa maxTemplateBytes⟩
  else .ok rendered

/-! ## The document -/

def responseMembers : TomlMembers :=
  [("allow_block_ip".toList, .bool true), ("allow_kill_process".toList, .bool false),
    ("allow_disable_user".toList, .bool false), ("block_default_ttl_sec".toList, .int 3600)]

def stateDir (os : OSLit) : Str :=
  if os = .windows then "C:\\ProgramData\\zaqorin-agent".toList else "/var/lib/zaqorin-agent".toList

def LogSource.members (row : LogSource) : TomlMembers := row.entries.map fun e => (e.1, .str e.2)

/-- What the configuration says. -/
def agentDocument (os : OSLit) (serverUrl agentId authToken : Str) (logSources : List LogSource)
    (includeWindowsBlock : Bool) : TomlDoc :=
  let values : TomlDoc :=
    [("server_url".toList, .value (.str serverUrl)), ("agent_id".toList, .value (.str agentId)),
      ("auth_token".toList, .value (.str authToken)),
      ("log_level".toList, .value (.str "info".toList)),
      ("state_dir".toList, .value (.str (stateDir os))),
      ("dry_run".toList, .value (.bool true))]
  let rows : TomlDoc :=
    if logSources = [] then []
    else [("log_source".toList, .tables (logSources.map LogSource.members))]
  let windows : TomlDoc :=
    if includeWindowsBlock = true ∨ os = .windows then
      [("windows_eventlog".toList, .table [("mode".toList, .str "pull".toList)])]
    else []
  let response : TomlDoc := [("response".toList, .table responseMembers)]
  values ++ rows ++ windows ++ response

/-! ## A quoted text -/

theorem readBasic_plain {c : Char} (hquote : c ≠ '\x22') (hescape : c ≠ '\\')
    (hcontrol : tomlControl c = false) (rest : Str) :
    readBasic (c :: rest) = (readBasic rest).map fun r => (c :: r.1, r.2) := by
  rw [readBasic, hcontrol, if_neg Bool.false_ne_true]
  all_goals
    intros
    contradiction

theorem hexPadded_four (n : Nat) :
    (hexPadded 4 n).map Char.toUpper = [(hexDigit (n / 16 / 16 / 16)).toUpper,
      (hexDigit (n / 16 / 16)).toUpper, (hexDigit (n / 16)).toUpper, (hexDigit n).toUpper] :=
  rfl

/-- The escape of a control character is read as the character. -/
theorem hexScalar_hexPadded :
    ∀ n < 128, hexScalar ((hexPadded 4 n).map Char.toUpper) = some (Char.ofNat n) := by
  decide

theorem readBasic_escapeChar (c : Char) (rest : Str) :
    readBasic (escapeChar c ++ rest) = (readBasic rest).map fun r => (c :: r.1, r.2) := by
  unfold escapeChar
  split
  · rename_i hescape
    rw [hescape]
    rfl
  · rename_i hescape
    split
    · rename_i hquote
      rw [hquote]
      rfl
    · rename_i hquote
      split
      · rename_i hcontrol
        have hsmall : c.toNat < 128 := by omega
        have hscalar := hexScalar_hexPadded c.toNat hsmall
        rw [Char.ofNat_toNat, hexPadded_four] at hscalar
        rw [hexPadded_four]
        show readBasic ('\\' :: 'u' :: _ :: _ :: _ :: _ :: rest) = _
        rw [readBasic, hscalar]
      · rename_i hcontrol
        refine readBasic_plain hquote hescape ?_ rest
        unfold tomlControl
        rw [Bool.or_eq_false_iff, Bool.and_eq_false_iff, decide_eq_false_iff_not,
          beq_eq_false_iff_ne]
        exact ⟨Or.inl fun h => hcontrol (Or.inl h), fun h => hcontrol (Or.inr h)⟩

/-- A quoted text is read up to its end. -/
theorem readBasic_quoted (value rest : Str) :
    readBasic (value.flatMap escapeChar ++ '\x22' :: rest) = some (value, rest) := by
  induction value with
  | nil => rfl
  | cons c value ih =>
    rw [List.flatMap_cons, List.append_assoc, readBasic_escapeChar, ih]
    rfl

/-- A text that stands on one line. -/
def OnOneLine (s : Str) : Prop := '\n' ∉ s ∧ '\r' ∉ s

theorem OnOneLine.append {s t : Str} (hs : OnOneLine s) (ht : OnOneLine t) : OnOneLine (s ++ t) :=
  ⟨fun h => (List.mem_append.mp h).elim hs.1 ht.1, fun h => (List.mem_append.mp h).elim hs.2 ht.2⟩

theorem hexDigit_upper (n : Nat) :
    (hexDigit n).toUpper ≠ '\n' ∧ (hexDigit n).toUpper ≠ '\r' := by
  have hall : ∀ m < 16, (Nat.digitChar m).toUpper ≠ '\n' ∧ (Nat.digitChar m).toUpper ≠ '\r' := by
    decide
  exact hall (n % 16) (Nat.mod_lt _ (by decide))

theorem onOneLine_escapeChar (c : Char) : OnOneLine (escapeChar c) := by
  unfold escapeChar
  split
  · exact ⟨by decide, by decide⟩
  · split
    · exact ⟨by decide, by decide⟩
    · split
      · rw [hexPadded_four]
        constructor
        · simp [fun n => (hexDigit_upper n).1.symm]
        · simp [fun n => (hexDigit_upper n).2.symm]
      · rename_i hcontrol
        constructor
        · rintro h
          rw [List.mem_singleton] at h
          exact hcontrol (Or.inl (h ▸ by decide))
        · rintro h
          rw [List.mem_singleton] at h
          exact hcontrol (Or.inl (h ▸ by decide))

theorem onOneLine_tomlQuote (value : Str) : OnOneLine (tomlQuote value) := by
  have hbody : OnOneLine (value.flatMap escapeChar) := by
    constructor
    · intro h
      obtain ⟨c, -, hc⟩ := List.mem_flatMap.mp h
      exact (onOneLine_escapeChar c).1 hc
    · intro h
      obtain ⟨c, -, hc⟩ := List.mem_flatMap.mp h
      exact (onOneLine_escapeChar c).2 hc
  have hquote : OnOneLine ['\x22'] := ⟨by decide, by decide⟩
  exact hquote.append (hbody.append hquote)

/-! ## Lines -/

theorem readValue_quote {body : Str} (h : ∀ more, body ≠ '\x22' :: '\x22' :: more) :
    readValue ('\x22' :: body) = (readBasic body).map fun r => (.str r.1, r.2) := by
  rw [readValue]
  intro more heq
  exact h more heq

theorem escapeChar_ne (c : Char) (rest more : Str) : escapeChar c ++ rest ≠ '\x22' :: more := by
  unfold escapeChar
  split
  · intro h
    cases h
  · split
    · intro h
      cases h
    · rename_i hquote
      split
      · intro h
        cases h
      · intro h
        exact hquote (List.cons.inj h).1

theorem readValue_tomlQuote (value : Str) :
    readValue (tomlQuote value) = some (.str value, []) := by
  have hread : readBasic (value.flatMap escapeChar ++ ['\x22']) = some (value, []) :=
    readBasic_quoted value []
  unfold tomlQuote
  rw [readValue_quote, hread]
  · rfl
  · intro more
    cases value with
    | nil =>
      intro h
      cases h
    | cons c value =>
      rw [List.flatMap_cons, List.append_assoc]
      exact escapeChar_ne c _ _

/-- A key that stands without quotes. -/
structure IsBareKey (key : Str) : Prop where
  ne_nil : key ≠ []
  chars : ∀ c ∈ key, bareKeyChar c = true

theorem isBareKey_of_all {key : Str} (hne : key ≠ []) (h : key.all bareKeyChar = true) :
    IsBareKey key :=
  ⟨hne, List.all_eq_true.mp h⟩

theorem not_space_of_bareKey {c : Char} (h : bareKeyChar c = true) :
    tomlSpace c = false ∧ c ≠ '[' ∧ c ≠ '#' := by
  have hne : ∀ d : Char, bareKeyChar d = false → c ≠ d := by
    rintro d hd rfl
    rw [h] at hd
    cases hd
  refine ⟨?_, hne _ (by decide), hne _ (by decide)⟩
  rw [tomlSpace, Bool.or_eq_false_iff, beq_eq_false_iff_ne, beq_eq_false_iff_ne]
  exact ⟨hne _ (by decide), hne _ (by decide)⟩

theorem dropWhile_of_head {p : Char → Bool} {s : Str} (h : ∀ c ∈ s.head?, p c = false) :
    s.dropWhile p = s := by
  cases s with
  | nil => rfl
  | cons c s =>
    rw [List.dropWhile_cons_of_neg]
    rw [h c rfl]
    exact Bool.false_ne_true

theorem takeWhile_of_head {p : Char → Bool} {s : Str} (h : ∀ c ∈ s.head?, p c = false) :
    s.takeWhile p = [] := by
  cases s with
  | nil => rfl
  | cons c s =>
    rw [List.takeWhile_cons_of_neg]
    rw [h c rfl]
    exact Bool.false_ne_true

/-- The key of a pair and what stands behind its spaces. -/
theorem readKey_append {key pad : Str} (hkey : IsBareKey key)
    (hpad : ∀ c ∈ pad, tomlSpace c = true) (rest : Str) :
    readKey (key ++ (pad ++ '=' :: rest)) = some (key, '=' :: rest) := by
  have hhead : ∀ c ∈ (pad ++ '=' :: rest).head?, bareKeyChar c = false := by
    intro c hc
    cases pad with
    | nil =>
      cases hc
      decide
    | cons d pad =>
      cases hc
      have hspace := hpad _ List.mem_cons_self
      rw [← Bool.not_eq_true]
      intro hbare
      rw [(not_space_of_bareKey hbare).1] at hspace
      cases hspace
  unfold readKey
  rw [List.takeWhile_append_of_pos hkey.chars, takeWhile_of_head hhead, List.append_nil,
    if_neg hkey.ne_nil, List.dropWhile_append_of_pos hkey.chars, dropWhile_of_head hhead,
    List.dropWhile_append_of_pos hpad, List.dropWhile_cons_of_neg (by decide)]

/-- A key, an equals sign and a value. -/
theorem readLine_pair {key pad value : Str} {v : TomlValue} (hkey : IsBareKey key)
    (hpad : ∀ c ∈ pad, tomlSpace c = true) (hvalue : readValue value = some (v, []))
    (hspace : ∀ c ∈ value.head?, tomlSpace c = false) :
    readLine (key ++ (pad ++ "= ".toList ++ value)) = some (.pair key v) := by
  have hline : pad ++ "= ".toList ++ value = pad ++ '=' :: ' ' :: value := List.append_assoc _ _ _
  rw [hline]
  have hread := readKey_append hkey hpad (' ' :: value)
  obtain ⟨k, ks, rfl⟩ := List.exists_cons_of_ne_nil hkey.ne_nil
  obtain ⟨hk, hbracket, hhash⟩ := not_space_of_bareKey (hkey.chars k List.mem_cons_self)
  rw [List.cons_append] at hread ⊢
  have hdrop : (k :: (ks ++ (pad ++ '=' :: ' ' :: value))).dropWhile tomlSpace =
      k :: (ks ++ (pad ++ '=' :: ' ' :: value)) := by
    apply dropWhile_of_head
    intro c hc
    cases hc
    exact hk
  have hends : lineEnds (k :: (ks ++ (pad ++ '=' :: ' ' :: value))) = false := by
    unfold lineEnds
    rw [hdrop]
    split
    · rename_i heq
      cases heq
    · rename_i heq
      exact absurd (List.cons.inj heq).1 hhash
    · rfl
  unfold readLine
  rw [hdrop]
  split
  · rename_i heq
    exact absurd (List.cons.inj heq).1 hbracket
  · rename_i heq
    exact absurd (List.cons.inj heq).1 hbracket
  · rw [hends, if_neg Bool.false_ne_true, hread]
    show (readValue ((' ' :: value).dropWhile tomlSpace)).bind _ = _
    rw [List.dropWhile_cons_of_pos (by decide), dropWhile_of_head hspace, hvalue]
    rfl

theorem tomlQuote_head (value : Str) : ∀ c ∈ (tomlQuote value).head?, tomlSpace c = false := by
  intro c hc
  cases hc
  decide

/-- The line of a quoted value. -/
theorem readLine_quoted {lead key pad : Str} (hlead : lead = key ++ (pad ++ "= ".toList))
    (hkey : IsBareKey key) (hpad : ∀ c ∈ pad, tomlSpace c = true) (value : Str) :
    readLine (lead ++ tomlQuote value) = some (.pair key (.str value)) := by
  rw [hlead, List.append_assoc]
  exact readLine_pair hkey hpad (readValue_tomlQuote value) (tomlQuote_head value)

/-! ## The rows -/

/-- A text that is not empty and does not end with a newline. -/
def EndsPlain (s : Str) : Prop := ∃ t c, s = t ++ [c] ∧ c ≠ '\n'

theorem endsPlain_append (s : Str) {t : Str} (h : EndsPlain t) : EndsPlain (s ++ t) := by
  obtain ⟨t, c, rfl, hc⟩ := h
  exact ⟨s ++ t, c, (List.append_assoc _ _ _).symm, hc⟩

theorem endsPlain_joinLines {lines : List Str} (hne : lines ≠ [])
    (h : ∀ line ∈ lines, EndsPlain line) : EndsPlain (joinLines lines) := by
  induction lines with
  | nil => exact absurd rfl hne
  | cons line lines ih =>
    cases lines with
    | nil =>
      unfold joinLines
      rw [List.intercalate_singleton]
      exact h line List.mem_cons_self
    | cons next lines =>
      unfold joinLines
      rw [List.intercalate_cons_cons]
      exact endsPlain_append _
        (ih (List.cons_ne_nil _ _) fun l hl => h l (List.mem_cons_of_mem _ hl))

theorem stripNewlines_concat {s : Str} (h : EndsPlain s) : stripNewlines (s ++ ['\n']) = s := by
  obtain ⟨t, c, rfl, hc⟩ := h
  have hplain : ¬ (c == '\n') = true := by
    rw [beq_iff_eq]
    exact hc
  unfold stripNewlines
  rw [List.reverse_append, List.reverse_append]
  show (List.dropWhile (· == '\n') ('\n' :: c :: t.reverse)).reverse = _
  rw [List.dropWhile_cons_of_pos rfl, List.dropWhile_cons_of_neg (p := (· == '\n')) hplain]
  simp

theorem endsPlain_rowChunks {row : LogSource} {chunk : Str} (h : chunk ∈ rowChunks row) :
    EndsPlain chunk := by
  rcases List.mem_cons.mp h with rfl | h
  · exact ⟨"\n[[log_source]".toList, ']', rfl, by decide⟩
  · obtain ⟨e, -, rfl⟩ := List.mem_map.mp h
    refine endsPlain_append _ ⟨'\x22' :: e.2.flatMap escapeChar, '\x22', rfl, by decide⟩

/-- The block of the rows without the newline that is stripped. -/
theorem stripNewlines_rows (rows : List LogSource) :
    stripNewlines (tomlArrayOfTables rows) = joinLines (rows.flatMap rowChunks) := by
  unfold tomlArrayOfTables
  dsimp only
  split
  · rename_i hnil
    rw [hnil]
    rfl
  · rename_i hne
    apply stripNewlines_concat
    apply endsPlain_joinLines hne
    intro chunk hchunk
    obtain ⟨row, -, hrow⟩ := List.mem_flatMap.mp hchunk
    exact endsPlain_rowChunks hrow

def rowLine (e : Str × Str) : Str := e.1 ++ " = ".toList ++ tomlQuote e.2

def rowLines (row : LogSource) : List Str :=
  [] :: "[[log_source]]".toList :: row.entries.map rowLine

theorem readLine_rowLine {e : Str × Str} (h : IsBareKey e.1) :
    readLine (rowLine e) = some (.pair e.1 (.str e.2)) := by
  have hpad : ∀ c ∈ [' '], tomlSpace c = true := by
    intro c hc
    rw [List.mem_singleton.mp hc]
    rfl
  exact readLine_quoted rfl h hpad e.2

/-- The keys of the row stand without quotes. -/
def LogSource.Bare (row : LogSource) : Prop := ∀ e ∈ row.entries, IsBareKey e.1

theorem IsBareKey.onOneLine {key : Str} (h : IsBareKey key) : OnOneLine key :=
  ⟨fun hmem => absurd (h.chars _ hmem) (by decide), fun hmem => absurd (h.chars _ hmem) (by decide)⟩

theorem onOneLine_rowLine {e : Str × Str} (h : IsBareKey e.1) : OnOneLine (rowLine e) :=
  (h.onOneLine.append ⟨by decide, by decide⟩).append (onOneLine_tomlQuote e.2)

theorem splitOn_onOneLine {lines : List Str} (h : ∀ line ∈ lines, OnOneLine line) :
    lines.flatMap (List.splitOn '\n') = lines := by
  induction lines with
  | nil => rfl
  | cons line lines ih =>
    rw [List.flatMap_cons, List.splitOn_eq_singleton (h line List.mem_cons_self).1,
      ih fun l hl => h l (List.mem_cons_of_mem _ hl)]
    rfl

theorem splitOn_rowChunks {row : LogSource} (h : row.Bare) :
    (rowChunks row).flatMap (List.splitOn '\n') = rowLines row := by
  have hentries : ∀ line ∈ row.entries.map rowLine, OnOneLine line := by
    intro line hline
    obtain ⟨e, he, rfl⟩ := List.mem_map.mp hline
    exact onOneLine_rowLine (h e he)
  have hhead : "\n[[log_source]]".toList.splitOn '\n' = [[], "[[log_source]]".toList] := by decide
  show "\n[[log_source]]".toList.splitOn '\n' ++
    (row.entries.map rowLine).flatMap (List.splitOn '\n') = _
  rw [splitOn_onOneLine hentries, hhead]
  rfl

/-- The lines of the block. -/
def blockLines (rows : List LogSource) : List Str :=
  if rows = [] then [[]] else rows.flatMap rowLines

theorem splitOn_block {rows : List LogSource} (h : ∀ row ∈ rows, row.Bare) :
    (stripNewlines (tomlArrayOfTables rows)).splitOn '\n' = blockLines rows := by
  have hlines : (rows.flatMap rowChunks).flatMap (List.splitOn '\n') = rows.flatMap rowLines := by
    rw [List.flatMap_assoc]
    exact List.flatMap_congr fun row hrow => splitOn_rowChunks (h row hrow)
  rw [stripNewlines_rows, blockLines]
  split
  · rename_i hnil
    rw [hnil]
    rfl
  · rename_i hne
    obtain ⟨row, rows, rfl⟩ := List.exists_cons_of_ne_nil hne
    rw [← hlines]
    exact splitOn_intercalate_newline (List.cons_ne_nil _ _)

/-- The document with the rows that have been read. -/
def rowsRead (doc : TomlDoc) (rows : List TomlMembers) : TomlState :=
  if rows = [] then ⟨doc, none⟩
  else ⟨doc ++ [("log_source".toList, .tables rows)], some "log_source".toList⟩

theorem rowsRead_header {doc : TomlDoc} (hfree : doc.find "log_source".toList = none)
    (rows : List TomlMembers) :
    (rowsRead doc rows).step (.tables "log_source".toList) =
      some ⟨doc ++ [("log_source".toList, .tables (rows ++ [[]]))], some "log_source".toList⟩ := by
  unfold rowsRead
  split
  · rename_i hnil
    rw [hnil, TomlState.step]
    dsimp only
    rw [hfree]
    rfl
  · rw [TomlState.step]
    dsimp only
    rw [TomlDoc.find_concat hfree]
    dsimp only
    rw [TomlDoc.replace_concat hfree]

theorem readLines_row {doc : TomlDoc} (hfree : doc.find "log_source".toList = none)
    {row : LogSource} (h : row.Bare) (rows : List TomlMembers) :
    readLines (rowsRead doc rows) (rowLines row) = some (rowsRead doc (rows ++ [row.members])) := by
  have hblank : readLine [] = some .blank := rfl
  have hheader : readLine "[[log_source]]".toList = some (.tables "log_source".toList) := by
    decide
  have hpairs : List.Forall₂ (fun line m => readLine line = some (.pair m.1 m.2))
      (row.entries.map rowLine) row.members := by
    unfold LogSource.members
    rw [List.forall₂_map_left_iff, List.forall₂_map_right_iff, List.forall₂_same]
    intro e he
    exact readLine_rowLine (h e he)
  have hdistinct : (([] ++ row.members).map Prod.fst).Nodup := by
    rw [List.nil_append, LogSource.members, List.map_map]
    exact row.distinct
  rw [rowLines, readLines_cons hblank rfl, readLines_cons hheader (rowsRead_header hfree rows),
    readLines_pairs (takesPairs_tables rows) hfree hpairs hdistinct, rowsRead, if_neg]
  · rfl
  · simp

theorem readLines_rows {doc : TomlDoc} (hfree : doc.find "log_source".toList = none)
    {rows : List LogSource} (h : ∀ row ∈ rows, row.Bare) (before : List TomlMembers) :
    readLines (rowsRead doc before) (rows.flatMap rowLines) =
      some (rowsRead doc (before ++ rows.map LogSource.members)) := by
  induction rows generalizing before with
  | nil => rw [List.map_nil, List.append_nil, List.flatMap_nil, readLines]
  | cons row rows ih =>
    rw [List.flatMap_cons,
      readLines_append (readLines_row hfree (h row List.mem_cons_self) before),
      ih fun r hr => h r (List.mem_cons_of_mem _ hr), List.append_assoc]
    rfl

/-- The block adds the rows, if there are any. -/
theorem readLines_block {doc : TomlDoc} (hfree : doc.find "log_source".toList = none)
    {rows : List LogSource} (h : ∀ row ∈ rows, row.Bare) :
    readLines ⟨doc, none⟩ (blockLines rows) = some (rowsRead doc (rows.map LogSource.members)) := by
  unfold blockLines
  split
  · rename_i hnil
    rw [hnil]
    rfl
  · exact readLines_rows hfree h []

/-! ## The whole document -/

def introLines (os : OSLit) (arch : ArchLit) : List Str :=
  ["# ZaqorinCore agent configuration".toList,
    "# Generated by /api/v1/agents/provision/template".toList,
    "# OS: ".toList ++ os.name ++ "    Arch: ".toList ++ arch.name,
    "# See ARCHITECTURE.md and agent.example.toml for field semantics.".toList,
    []]

def valueLines (serverUrl agentId authToken : Str) : List Str :=
  ["server_url = ".toList ++ tomlQuote serverUrl,
    "agent_id    = ".toList ++ tomlQuote agentId,
    "auth_token  = ".toList ++ tomlQuote authToken]

def plainLines (os : OSLit) : List Str :=
  ["log_level = \"info\"".toList, stateDirLine os, "dry_run = true".toList]

def windowsLines : List Str := ["[windows_eventlog]".toList, "mode = \"pull\"".toList, []]

def responseLines : List Str :=
  ["allow_block_ip        = true".toList,
    "allow_kill_process    = false".toList,
    "allow_disable_user    = false".toList,
    "block_default_ttl_sec = 3600".toList]

/-- The lines behind the rows. -/
def endLines (os : OSLit) (includeWindowsBlock : Bool) : List Str :=
  (if includeWindowsBlock = true ∨ os = .windows then windowsLines else []) ++
    ("[response]".toList :: (responseLines ++ [[]]))

theorem agentSections_eq (os : OSLit) (arch : ArchLit) (serverUrl agentId authToken : Str)
    (rows : List LogSource) (includeWindowsBlock : Bool) :
    agentSections os arch serverUrl agentId authToken rows includeWindowsBlock =
      introLines os arch ++ (valueLines serverUrl agentId authToken ++ ([] :: (plainLines os ++
        ([] :: stripNewlines (tomlArrayOfTables rows) :: [] ::
          endLines os includeWindowsBlock)))) := by
  unfold agentSections endLines
  by_cases hwindows : includeWindowsBlock = true ∨ os = .windows
  · rw [if_pos hwindows, if_pos hwindows]
    rfl
  · rw [if_neg hwindows, if_neg hwindows]
    rfl

theorem readLines_blank {st : TomlState} {lines : List Str}
    (h : ∀ line ∈ lines, readLine line = some .blank) : readLines st lines = some st := by
  induction lines with
  | nil => rfl
  | cons line lines ih =>
    rw [readLines_cons (h line List.mem_cons_self) rfl]
    exact ih fun l hl => h l (List.mem_cons_of_mem _ hl)

/-- A line that says nothing to the reader. -/
def isRemark (line : Str) : Bool :=
  match line with
  | [] => true
  | c :: rest => c == '#' && rest.all fun c => !tomlControl c

theorem readLine_remark {line : Str} (h : isRemark line = true) : readLine line = some .blank := by
  cases line with
  | nil => rfl
  | cons c rest =>
    obtain ⟨hc, hrest⟩ := Bool.and_eq_true_iff.mp h
    rw [beq_iff_eq.mp hc]
    show (if (rest.all fun c => !tomlControl c) = true then some TomlLine.blank else _) = _
    rw [if_pos hrest]

theorem remark_introLines (os : OSLit) (arch : ArchLit) :
    ∀ line ∈ introLines os arch, isRemark line = true := by
  have hplatform : isRemark ("# OS: ".toList ++ os.name ++ "    Arch: ".toList ++ arch.name) =
      true := by
    cases os <;> cases arch <;> decide
  unfold introLines
  simp only [List.forall_mem_cons]
  refine ⟨by decide, by decide, hplatform, by decide, rfl, ?_⟩
  exact fun line h => absurd h List.not_mem_nil

/-- The pairs of the values that are given. -/
def valueMembers (serverUrl agentId authToken : Str) : TomlMembers :=
  [("server_url".toList, .str serverUrl), ("agent_id".toList, .str agentId),
    ("auth_token".toList, .str authToken)]

def plainMembers (os : OSLit) : TomlMembers :=
  [("log_level".toList, .str "info".toList), ("state_dir".toList, .str (stateDir os)),
    ("dry_run".toList, .bool true)]

theorem readLine_valueLines (serverUrl agentId authToken : Str) :
    List.Forall₂ (fun line m => readLine line = some (.pair m.1 m.2))
      (valueLines serverUrl agentId authToken) (valueMembers serverUrl agentId authToken) := by
  have hserver := isBareKey_of_all (show "server_url".toList ≠ [] by decide) (by decide)
  have hagent := isBareKey_of_all (show "agent_id".toList ≠ [] by decide) (by decide)
  have htoken := isBareKey_of_all (show "auth_token".toList ≠ [] by decide) (by decide)
  have hspaces : ∀ n, ∀ c ∈ List.replicate n ' ', tomlSpace c = true := by
    intro n c hc
    rw [List.eq_of_mem_replicate hc]
    rfl
  exact .cons (readLine_quoted (by decide) hserver (hspaces 1) serverUrl)
    (.cons (readLine_quoted (by decide) hagent (hspaces 4) agentId)
      (.cons (readLine_quoted (by decide) htoken (hspaces 2) authToken) .nil))

theorem readLine_plainLines (os : OSLit) :
    List.Forall₂ (fun line m => readLine line = some (.pair m.1 m.2)) (plainLines os)
      (plainMembers os) := by
  refine .cons (by decide) (.cons ?_ (.cons (by decide) .nil))
  cases os <;> decide

theorem readLine_responseLines :
    List.Forall₂ (fun line m => readLine line = some (.pair m.1 m.2)) responseLines
      responseMembers :=
  .cons (by decide) (.cons (by decide) (.cons (by decide)
    (.cons (by decide) .nil)))

/-- The pairs in front of all tables. -/
def topDoc (os : OSLit) (serverUrl agentId authToken : Str) : TomlDoc :=
  (valueMembers serverUrl agentId authToken ++ plainMembers os).map fun m => (m.1, .value m.2)

/-- The lines in front of the rows. -/
theorem readLines_top_lines (os : OSLit) (arch : ArchLit) (serverUrl agentId authToken : Str)
    (rest : List Str) :
    readLines ⟨[], none⟩ (introLines os arch ++ (valueLines serverUrl agentId authToken ++
        ([] :: (plainLines os ++ ([] :: rest))))) =
      readLines ⟨topDoc os serverUrl agentId authToken, none⟩ rest := by
  have hblank : readLine [] = some .blank := rfl
  have hvalues : readLines ⟨[], none⟩ (valueLines serverUrl agentId authToken) = some
      ⟨[] ++ (valueMembers serverUrl agentId authToken).map fun m => (m.1, .value m.2), none⟩ := by
    refine readLines_top (readLine_valueLines serverUrl agentId authToken) ?_
    show ["server_url".toList, "agent_id".toList, "auth_token".toList].Nodup
    decide
  have hremarks : ∀ line ∈ introLines os arch, readLine line = some .blank := fun line hline =>
    readLine_remark (remark_introLines os arch line hline)
  rw [readLines_append (readLines_blank hremarks), readLines_append hvalues,
    readLines_cons hblank rfl, readLines_append (readLines_top (readLine_plainLines os) ?_),
    readLines_cons hblank rfl]
  · rw [topDoc, List.map_append]
    rfl
  · show ["server_url".toList, "agent_id".toList, "auth_token".toList, "log_level".toList,
      "state_dir".toList, "dry_run".toList].Nodup
    decide

/-- A table behind what has been read. -/
theorem readLines_section {st : TomlState} {name header : Str} {lines : List Str}
    {members : TomlMembers} (hfree : st.doc.find name = none)
    (hheader : readLine header = some (.table name))
    (hlines : List.Forall₂ (fun line m => readLine line = some (.pair m.1 m.2)) lines members)
    (hdistinct : (members.map Prod.fst).Nodup) (rest : List Str) :
    readLines st (header :: (lines ++ rest)) =
      readLines ⟨st.doc ++ [(name, .table members)], some name⟩ rest := by
  have hstep : st.step (.table name) = some ⟨st.doc ++ [(name, .table [])], some name⟩ := by
    rw [TomlState.step, hfree]
    rfl
  have hpairs : readLines ⟨st.doc ++ [(name, .table [])], some name⟩ lines =
      some ⟨st.doc ++ [(name, .table ([] ++ members))], some name⟩ :=
    readLines_pairs takesPairs_table hfree hlines hdistinct
  rw [readLines_cons hheader hstep]
  exact readLines_append hpairs rest

/-- The keys that a document with rows has. -/
theorem keys_rowsRead (os : OSLit) (serverUrl agentId authToken : Str)
    (rows : List TomlMembers) :
    ∀ key ∈ (rowsRead (topDoc os serverUrl agentId authToken) rows).doc.map Prod.fst,
      key ∈ ["server_url".toList, "agent_id".toList, "auth_token".toList, "log_level".toList,
        "state_dir".toList, "dry_run".toList, "log_source".toList] := by
  intro key hkey
  unfold rowsRead at hkey
  split at hkey
  · exact List.mem_append_left ["log_source".toList] hkey
  · exact hkey

theorem onOneLine_of_all {lines : List Str}
    (h : (lines.all fun line => !line.contains '\n' && !line.contains '\r') = true) :
    ∀ line ∈ lines, OnOneLine line := by
  intro line hline
  have hplain := List.all_eq_true.mp h line hline
  rw [Bool.and_eq_true, Bool.not_eq_true', Bool.not_eq_true', ← Bool.not_eq_true,
    ← Bool.not_eq_true, List.contains_iff_mem, List.contains_iff_mem] at hplain
  exact hplain

theorem onOneLine_remark {line : Str} (h : isRemark line = true) : OnOneLine line := by
  cases line with
  | nil => exact ⟨List.not_mem_nil, List.not_mem_nil⟩
  | cons c rest =>
    obtain ⟨hc, hrest⟩ := Bool.and_eq_true_iff.mp h
    have hplain : ∀ d, tomlControl d = true → d ≠ '#' → d ∉ c :: rest := by
      rintro d hd hne (_ | ⟨_, hmem⟩)
      · exact hne (beq_iff_eq.mp hc)
      · have hfree := List.all_eq_true.mp hrest d hmem
        rw [hd] at hfree
        exact absurd hfree (by decide)
    exact ⟨hplain '\n' rfl (by decide), hplain '\r' rfl (by decide)⟩

theorem onOneLine_introLines (os : OSLit) (arch : ArchLit) :
    ∀ line ∈ introLines os arch, OnOneLine line := fun line hline =>
  onOneLine_remark (remark_introLines os arch line hline)

theorem onOneLine_valueLines (serverUrl agentId authToken : Str) :
    ∀ line ∈ valueLines serverUrl agentId authToken, OnOneLine line := by
  have hleads : ∀ lead ∈ ["server_url = ".toList, "agent_id    = ".toList,
      "auth_token  = ".toList], OnOneLine lead := onOneLine_of_all (by decide)
  rw [List.forall_mem_cons, List.forall_mem_cons, List.forall_mem_cons] at hleads
  obtain ⟨hserver, hagent, htoken, -⟩ := hleads
  unfold valueLines
  rw [List.forall_mem_cons, List.forall_mem_cons, List.forall_mem_cons]
  exact ⟨hserver.append (onOneLine_tomlQuote _), hagent.append (onOneLine_tomlQuote _),
    htoken.append (onOneLine_tomlQuote _), fun line h => absurd h List.not_mem_nil⟩

theorem onOneLine_plainLines (os : OSLit) : ∀ line ∈ plainLines os, OnOneLine line := by
  apply onOneLine_of_all
  cases os <;> decide

theorem onOneLine_endLines (os : OSLit) (includeWindowsBlock : Bool) :
    ∀ line ∈ endLines os includeWindowsBlock, OnOneLine line := by
  apply onOneLine_of_all
  unfold endLines
  split <;> decide

/-- The lines of the document. -/
theorem splitOn_agentSections (os : OSLit) (arch : ArchLit) (serverUrl agentId authToken : Str)
    {rows : List LogSource} (h : ∀ row ∈ rows, row.Bare) (includeWindowsBlock : Bool) :
    (agentSections os arch serverUrl agentId authToken rows includeWindowsBlock).flatMap
        (List.splitOn '\n') =
      introLines os arch ++ (valueLines serverUrl agentId authToken ++ ([] :: (plainLines os ++
        ([] :: (blockLines rows ++ ([] :: endLines os includeWindowsBlock)))))) := by
  rw [agentSections_eq]
  simp only [List.flatMap_append, List.flatMap_cons, List.splitOn_nil,
    splitOn_onOneLine (onOneLine_introLines os arch),
    splitOn_onOneLine (onOneLine_valueLines serverUrl agentId authToken),
    splitOn_onOneLine (onOneLine_plainLines os), splitOn_block h,
    splitOn_onOneLine (onOneLine_endLines os includeWindowsBlock)]
  rfl

theorem not_mem_joinLines {lines : List Str} {c : Char} (hc : c ≠ '\n')
    (h : ∀ line ∈ lines, c ∉ line) : c ∉ joinLines lines := by
  induction lines with
  | nil => exact List.not_mem_nil
  | cons line lines ih =>
    have hrest := ih fun l hl => h l (List.mem_cons_of_mem _ hl)
    cases lines with
    | nil =>
      unfold joinLines
      rw [List.intercalate_singleton]
      exact h line List.mem_cons_self
    | cons next lines =>
      unfold joinLines at hrest ⊢
      rw [List.intercalate_cons_cons, List.mem_append, List.mem_append, List.mem_singleton]
      rintro ((hmem | heq) | hmem)
      · exact h line List.mem_cons_self hmem
      · exact hc heq
      · exact hrest hmem

theorem not_mem_rendered (os : OSLit) (arch : ArchLit) (serverUrl agentId authToken : Str)
    {rows : List LogSource} (h : ∀ row ∈ rows, row.Bare) (includeWindowsBlock : Bool) :
    '\r' ∉ joinLines
      (agentSections os arch serverUrl agentId authToken rows includeWindowsBlock) := by
  have hblock : '\r' ∉ stripNewlines (tomlArrayOfTables rows) := by
    rw [stripNewlines_rows]
    apply not_mem_joinLines (by decide)
    intro chunk hchunk
    obtain ⟨row, hrow, hchunk⟩ := List.mem_flatMap.mp hchunk
    rcases List.mem_cons.mp hchunk with rfl | hchunk
    · decide
    · obtain ⟨e, he, rfl⟩ := List.mem_map.mp hchunk
      exact (onOneLine_rowLine (h row hrow e he)).2
  apply not_mem_joinLines (by decide)
  rw [agentSections_eq]
  simp only [List.forall_mem_append, List.forall_mem_cons]
  exact ⟨fun line hline => (onOneLine_introLines os arch line hline).2,
    fun line hline => (onOneLine_valueLines serverUrl agentId authToken line hline).2,
    List.not_mem_nil, fun line hline => (onOneLine_plainLines os line hline).2,
    List.not_mem_nil, hblock, List.not_mem_nil,
    fun line hline => (onOneLine_endLines os includeWindowsBlock line hline).2⟩

/-- The tables behind the rows. -/
theorem readLines_endLines {os : OSLit} {st : TomlState} {keys : List Str}
    (hkeys : ∀ key ∈ st.doc.map Prod.fst, key ∈ keys)
    (hwindows : "windows_eventlog".toList ∉ keys) (hresponse : "response".toList ∉ keys)
    (includeWindowsBlock : Bool) :
    (readLines st (endLines os includeWindowsBlock)).map TomlState.doc =
      some (st.doc ++
        (if includeWindowsBlock = true ∨ os = .windows then
          [("windows_eventlog".toList, .table [("mode".toList, .str "pull".toList)])]
        else []) ++ [("response".toList, .table responseMembers)]) := by
  have hblank : readLine [] = some .blank := rfl
  have hresponseHeader : readLine "[response]".toList = some (.table "response".toList) := by
    decide
  have hdistinct : (responseMembers.map Prod.fst).Nodup := by decide
  unfold endLines
  split
  · have hheader : readLine "[windows_eventlog]".toList =
        some (.table "windows_eventlog".toList) := by decide
    have hmode : List.Forall₂ (fun line m => readLine line = some (.pair m.1 m.2))
        ["mode = \"pull\"".toList] [("mode".toList, TomlValue.str "pull".toList)] :=
      .cons (by decide) .nil
    have hfree : st.doc.find "windows_eventlog".toList = none :=
      lookup_of_not_mem fun h => hwindows (hkeys _ h)
    have hfree' : TomlDoc.find (st.doc ++ [("windows_eventlog".toList,
        .table [("mode".toList, .str "pull".toList)])]) "response".toList = none := by
      apply lookup_of_not_mem
      rw [List.map_append, List.mem_append, not_or]
      exact ⟨fun h => hresponse (hkeys _ h), by decide⟩
    have hread := readLines_section hfree hheader hmode (List.nodup_singleton _)
      ([] :: "[response]".toList :: (responseLines ++ [[]]))
    show (readLines st ("[windows_eventlog]".toList :: (["mode = \"pull\"".toList] ++
      ([] :: "[response]".toList :: (responseLines ++ [[]]))))).map _ = _
    rw [hread, readLines_cons hblank rfl,
      readLines_section hfree' hresponseHeader readLine_responseLines hdistinct,
      readLines_cons hblank rfl]
    rfl
  · have hfree : st.doc.find "response".toList = none :=
      lookup_of_not_mem fun h => hresponse (hkeys _ h)
    rw [List.nil_append,
      readLines_section hfree hresponseHeader readLine_responseLines hdistinct,
      readLines_cons hblank rfl, List.append_nil]
    rfl

theorem bare_logSource (name path : String) : (logSource name path).Bare := by
  have hname : IsBareKey "name".toList := isBareKey_of_all (by decide) (by decide)
  have hpath : IsBareKey "path".toList := isBareKey_of_all (by decide) (by decide)
  unfold LogSource.Bare logSource
  rw [List.forall_mem_cons, List.forall_mem_cons]
  exact ⟨hname, hpath, fun e h => absurd h List.not_mem_nil⟩

theorem bare_presets (os : OSLit) : ∀ row ∈ logSourcePresets os, row.Bare := by
  cases os <;>
  · unfold logSourcePresets
    rw [List.forall_mem_cons, List.forall_mem_cons]
    exact ⟨bare_logSource _ _, bare_logSource _ _, fun row h => absurd h List.not_mem_nil⟩

theorem tomlLoads_rendered (os : OSLit) (arch : ArchLit) (serverUrl agentId authToken : Str)
    {rows : List LogSource} (h : ∀ row ∈ rows, row.Bare) (includeWindowsBlock : Bool) :
    tomlLoads (joinLines
        (agentSections os arch serverUrl agentId authToken rows includeWindowsBlock)) =
      some (agentDocument os serverUrl agentId authToken rows includeWindowsBlock) := by
  have hblank : readLine [] = some .blank := rfl
  have hne : agentSections os arch serverUrl agentId authToken rows includeWindowsBlock ≠ [] := by
    rw [agentSections_eq]
    exact List.cons_ne_nil _ _
  have hfree : (topDoc os serverUrl agentId authToken).find "log_source".toList = none := by
    apply lookup_of_not_mem
    show "log_source".toList ∉ ["server_url".toList, "agent_id".toList, "auth_token".toList,
      "log_level".toList, "state_dir".toList, "dry_run".toList]
    decide
  have hdoc : (rowsRead (topDoc os serverUrl agentId authToken) (rows.map LogSource.members)).doc =
      topDoc os serverUrl agentId authToken ++ if rows = [] then [] else
        [("log_source".toList, .tables (rows.map LogSource.members))] := by
    unfold rowsRead
    by_cases hnil : rows = []
    · rw [if_pos (by rw [hnil]; rfl), if_pos hnil, List.append_nil]
    · rw [if_neg (fun hmap => hnil (List.map_eq_nil_iff.mp hmap)), if_neg hnil]
  unfold tomlLoads
  rw [plainNewlines_of_not_mem
      (not_mem_rendered os arch serverUrl agentId authToken h includeWindowsBlock), joinLines,
    splitOn_intercalate_newline hne, splitOn_agentSections os arch serverUrl agentId authToken h,
    readLines_top_lines, readLines_append (readLines_block hfree h), readLines_cons hblank rfl,
    readLines_endLines (keys_rowsRead os serverUrl agentId authToken _) (by decide) (by decide),
    hdoc]
  rfl

theorem renderAgentToml_eq_ok {os : OSLit} {arch : ArchLit} {serverUrl agentId authToken : Str}
    {logSources : Option (List LogSource)} {includeWindowsBlock : Bool} {rendered : Str} :
    renderAgentToml os arch serverUrl agentId authToken logSources includeWindowsBlock =
        .ok rendered ↔
      rendered = joinLines (agentSections os arch serverUrl agentId authToken
        (logSources.getD (logSourcePresets os)) includeWindowsBlock) ∧
      (utf8 rendered).length ≤ maxTemplateBytes := by
  unfold renderAgentToml
  dsimp only
  split
  · rename_i hlarge
    refine iff_of_false (fun h => ?_) ?_
    · cases h
    · rintro ⟨rfl, hsmall⟩
      exact absurd hlarge (not_lt.mpr hsmall)
  · rename_i hsmall
    constructor
    · intro h
      cases h
      exact ⟨rfl, not_lt.mp hsmall⟩
    · rintro ⟨rfl, -⟩
      rfl

/-- The configuration is read back with the given values, in a document that is otherwise fixed. -/
theorem agent_toml_round_trip (os : OSLit) (arch : ArchLit) (serverUrl agentId authToken : Str)
    (logSources : Option (List LogSource)) (includeWindowsBlock : Bool) (rendered : Str)
    (hbare : ∀ rows ∈ logSources, ∀ row ∈ rows, row.Bare)
    (hrendered : renderAgentToml os arch serverUrl agentId authToken logSources
      includeWindowsBlock = .ok rendered) :
    tomlLoads rendered = some (agentDocument os serverUrl agentId authToken
      (logSources.getD (logSourcePresets os)) includeWindowsBlock) := by
  have hrows : ∀ row ∈ logSources.getD (logSourcePresets os), row.Bare := by
    cases logSources with
    | none => exact bare_presets os
    | some rows => exact hbare rows rfl
  rw [(renderAgentToml_eq_ok.mp hrendered).1]
  exact tomlLoads_rendered os arch serverUrl agentId authToken hrows includeWindowsBlock

/-- A row with a value that tries to close its string. -/
def quotedRow : LogSource := logSource "a\"\n[response]\\" "\x7f"

theorem bare_quotedRow : ∀ rows ∈ some [quotedRow], ∀ row ∈ rows, row.Bare := by
  intro rows hrows row hrow
  cases hrows
  rw [List.mem_singleton.mp hrow]
  exact bare_logSource _ _

/-- Its configuration. -/
def quotedToml : Str :=
  joinLines (agentSections .linux .amd64 "wss://a\"b".toList "\\".toList [] [quotedRow] true)

theorem quotedToml_rendered :
    renderAgentToml .linux .amd64 "wss://a\"b".toList "\\".toList [] (some [quotedRow]) true =
      .ok quotedToml := by
  have hsize : (utf8 quotedToml).length ≤ maxTemplateBytes := by decide +kernel
  exact renderAgentToml_eq_ok.mpr ⟨rfl, hsize⟩

theorem agent_toml_quoted :
    tomlLoads quotedToml = some (agentDocument .linux "wss://a\"b".toList "\\".toList []
      [quotedRow] true) :=
  agent_toml_round_trip .linux .amd64 _ _ _ (some [quotedRow]) true quotedToml bare_quotedRow
    quotedToml_rendered

end ZaqorinCore.Server.Provision
