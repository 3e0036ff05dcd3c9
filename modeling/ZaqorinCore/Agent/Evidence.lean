import ZaqorinCore.Text.Codec
import ZaqorinCore.Text.Sha256
import ZaqorinCore.Text.Time
import ZaqorinCore.Server.Canonical

/-!
# Capturing evidence

`internal/evidence` of the agent. The files and the two formats `tar` and `gzip` are parameters;
a Go `string` is its bytes, and `encoding/json` is given by the value that its text decodes to.
-/

namespace ZaqorinCore.Agent.Evidence

open Text Server

/-! ## Files -/

/-- What `os.Stat` tells about a file, with the header that `tar` writes for it. -/
structure FileInfo where
  isDir : Bool
  header : Bytes

/-- One member of the archive. -/
structure Entry where
  name : Bytes
  header : Bytes
  content : Option Bytes

/-- The files at one time; an error is its text. -/
structure Disk where
  stat : Bytes → Except Bytes FileInfo
  readFile : Bytes → Except Bytes Bytes

/-- `archive/tar` over `compress/gzip`. -/
structure Packer where
  /-- `FileInfoHeader` and `WriteHeader` -/
  writeHeader : Bytes → FileInfo → Except Bytes Unit
  pack : List Entry → Bytes

/-- The components of a rooted path as `filepath.Clean` leaves them, the last one first. -/
def cleanParts (parts : List Bytes) : List Bytes :=
  parts.foldl (fun kept part =>
    if part = [] ∨ part = lit "." then kept
    else if part = lit ".." then kept.tail
    else part :: kept) []

/-- `relPath`: `filepath.Rel("/", p)` refuses a path that is not rooted. -/
def relPath (p : Bytes) : Bytes :=
  if p.head? = some 47 then
    match (cleanParts (p.splitOn 47)).reverse with
    | [] => lit "."
    | parts => List.intercalate [47] parts
  else p

/-- `fileSHA256` -/
def fileSHA256 (disk : Disk) (path : Bytes) : Except Bytes Bytes := do
  let content ← disk.readFile path
  return utf8 (hexdigest (sha256 content))

/-- `addFile` -/
def addFile (packer : Packer) (disk : Disk) (path : Bytes) : Except Bytes Entry := do
  let info ← disk.stat path
  packer.writeHeader (relPath path) info
  if info.isDir then return ⟨relPath path, info.header, none⟩
  let content ← disk.readFile path
  return ⟨relPath path, info.header, some content⟩

/-- `writeTarGz` -/
def writeTarGz (packer : Packer) (disk : Disk) (paths : List Bytes) : Except Bytes Bytes := do
  let entries ← paths.mapM (addFile packer disk)
  return packer.pack entries

/-! ## The frame -/

/-- `time.Now().UTC()`. -/
structure Instant where
  utc : UtcTime
  nanos : Nat
  nanos_valid : nanos < 1000000000

/-- The fraction of the layout `time.RFC3339Nano`, without trailing zeros. -/
def fraction (nanos : Nat) : Str :=
  match ((padded 9 nanos).reverse.dropWhile (· == '0')).reverse with
  | [] => []
  | digits => '.' :: digits

/-- `Time.MarshalJSON`, without the quotes. -/
def Instant.text (t : Instant) : Str :=
  padded 4 t.utc.year ++ '-' :: padded 2 t.utc.month ++ '-' :: padded 2 t.utc.day ++ 'T' ::
    padded 2 t.utc.hour ++ ':' :: padded 2 t.utc.minute ++ ':' :: padded 2 t.utc.second ++
    fraction t.nanos ++ ['Z']

structure Submit where
  alertID : Bytes
  hostID : Bytes
  capturedAt : Instant
  capturedBy : Bytes
  bundleSHA : Bytes
  sourceHashes : List (Bytes × Bytes)
  tarball : Bytes

/-- `m[key] = value` for a Go map. -/
def mapSet (m : List (Bytes × Bytes)) (key value : Bytes) : List (Bytes × Bytes) :=
  (key, value) :: m.filter fun f => f.1 != key

/-- The first loop of `Capture`. -/
def hashSources (disk : Disk) : List Bytes → List (Bytes × Bytes) →
    Except Bytes (List (Bytes × Bytes))
  | [], hashes => .ok hashes
  | p :: rest, hashes =>
    match fileSHA256 disk p with
    | .error err => .error (lit "hash " ++ p ++ lit ": " ++ err)
    | .ok h => hashSources disk rest (mapSet hashes (relPath p) h)

/-- `Capture`. The files are read twice: for the hashes, and then for the archive. -/
def capture (packer : Packer) (before after : Disk) (now : Instant)
    (alertID hostID capturedBy : Bytes) (paths : List Bytes) : Except Bytes Submit :=
  match hashSources before paths [] with
  | .error err => .error err
  | .ok sourceHashes =>
    -- the pipe hands the error of the writer to `io.ReadAll`
    match writeTarGz packer after paths with
    | .error err => .error (lit "read tar: " ++ err)
    | .ok tarball => .ok
      { alertID, hostID, capturedAt := now, capturedBy,
        bundleSHA := utf8 (hexdigest (sha256 tarball)), sourceHashes, tarball }

/-- A Go string in JSON: every byte that is no UTF-8 becomes U+FFFD. -/
def jsonString (s : Bytes) : Str := (runes s).map fun r => Char.ofNat r.1

/-- An ASCII text goes through JSON unchanged. -/
theorem jsonString_utf8 {s : Str} (h : ∀ c ∈ s, c.toNat < 128) : jsonString (utf8 s) = s := by
  have hmap : jsonString (utf8 s) = (utf8 s).map fun b => Char.ofNat b.toNat := by
    rw [jsonString, runes_of_ascii (ascii_utf8 h), List.map_map]
    rfl
  rw [hmap, map_ofNat_utf8 h]

/-- A Go map in JSON: the keys are written in the order of their bytes, and the decoder keeps the
last of two equal ones. -/
def jsonMap (m : List (Bytes × Bytes)) : Json :=
  .obj ((m.mergeSort fun a b => decide (a.1 ≤ b.1)).foldl
    (fun members f => dictSet members (jsonString f.1) (.str (jsonString f.2))) [])

/-- Setting a text keeps a dictionary of texts. -/
theorem texts_dictSet {members : List (Str × Json)} {key s : Str}
    (h : ∀ m ∈ members, ∃ s, m.2 = .str s) :
    ∀ m ∈ dictSet members key (.str s), ∃ s, m.2 = .str s := by
  intro m hm
  unfold dictSet at hm
  split at hm
  · obtain ⟨n, hn, rfl⟩ := List.mem_map.mp hm
    by_cases hkey : n.1 = key
    · exact ⟨s, by simp [hkey]⟩
    · simpa [hkey] using h n hn
  · obtain hm | hm := List.mem_append.mp hm
    · exact h m hm
    · exact ⟨s, by rw [List.mem_singleton.mp hm]⟩

/-- The values of the map are texts. -/
theorem texts_mapMembers (m : List (Bytes × Bytes)) :
    ∀ f ∈ (m.mergeSort fun a b => decide (a.1 ≤ b.1)).foldl
      (fun members f => dictSet members (jsonString f.1) (.str (jsonString f.2))) [],
      ∃ s, f.2 = .str s := by
  have htexts : ∀ (fs : List (Bytes × Bytes)) (members : List (Str × Json)),
      (∀ m ∈ members, ∃ s, m.2 = .str s) →
      ∀ m ∈ fs.foldl (fun members f =>
        dictSet members (jsonString f.1) (.str (jsonString f.2))) members, ∃ s, m.2 = .str s := by
    intro fs
    induction fs with
    | nil => exact fun _ h => h
    | cons f fs ih =>
      intro members h
      exact ih _ (texts_dictSet h)
  exact htexts _ [] (by simp)

/-- The members that `Marshal` writes, in the order of the fields and under their `json` names. -/
def Submit.members (s : Submit) : List (Str × Json) :=
  [("alert_id".toList, .str (jsonString s.alertID)), ("host_id".toList, .str (jsonString s.hostID)),
    ("captured_at".toList, .str s.capturedAt.text),
    ("captured_by".toList, .str (jsonString s.capturedBy)),
    ("bundle_sha256".toList, .str (jsonString s.bundleSHA)),
    ("source_hashes".toList, jsonMap s.sourceHashes),
    ("tarball".toList, .str (b64encode s.tarball))]

/-- `Marshal` -/
def marshal (s : Submit) : Json := .obj s.members

end ZaqorinCore.Agent.Evidence
