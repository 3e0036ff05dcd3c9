import ZaqorinCore.Agent.Evidence
import ZaqorinCore.Server.Evidence

/-!
# The evidence frame

The agent writes the tarball as base64 under `tarball`, the server requires the text under
`tarball_b64` and takes `tarball` for raw bytes. So no frame of the agent is validated
(`frame_never_agrees`), and the missing member is all that is wrong with it
(`modelValidate_marshal`). The formats meet as soon as the member has the server's name
(`renamed_agrees`); with both names the raw bytes win, and the digest is not the claimed one
(`both_names_differ`).
-/

namespace ZaqorinCore.Protocol

open Text Server Agent.Evidence

/-- The body is validated, its tarball is the captured one, and the digest that `submit` checks is
the claimed one. -/
def FrameAgrees (ops : EvidenceOps) (datetime : Json → Option Soar.Timestamp) (body : Json)
    (tarball : Bytes) : Prop :=
  ∃ p, modelValidate datetime body = .ok p ∧ p.asTarball = some tarball ∧
    EvidenceStore.checkedTarball ops p = .ok tarball

/-! ## What validation needs -/

/-- A member without a default that is not there is among the errors. -/
theorem missing_mem_complaints {datetime : Json → Option Soar.Timestamp}
    {fields : List (Str × Json)} (h : field fields "tarball_b64" = none) :
    ⟨["tarball_b64".toList], .missing⟩ ∈ complaints (modelValidate datetime (.obj fields)) := by
  have hmissing : required fields "tarball_b64" (readStr ["tarball_b64".toList]) =
      .error [⟨["tarball_b64".toList], .missing⟩] := by
    simp only [required, h]
  simp only [modelValidate, validateMembers, complaints_withField, hmissing]
  simp [complaints]

theorem readStrMembers_ok (loc : List Str) {fields : List (Str × Json)}
    (h : ∀ m ∈ fields, ∃ s, m.2 = .str s) : ∃ hs, readStrMembers loc fields = .ok hs := by
  induction fields with
  | nil => exact ⟨[], rfl⟩
  | cons m fields ih =>
    obtain ⟨k, v⟩ := m
    obtain ⟨s, rfl⟩ : ∃ s, v = .str s := h (k, v) List.mem_cons_self
    obtain ⟨hs, hrest⟩ := ih fun m hm => h m (List.mem_cons_of_mem _ hm)
    refine ⟨(k, s) :: hs, ?_⟩
    simp only [readStrMembers, readStr, hrest]

/-- The map of a frame is a dictionary of texts. -/
theorem readStrDict_jsonMap (loc : List Str) (m : List (Bytes × Bytes)) :
    ∃ hs, readStrDict loc (jsonMap m) = .ok hs :=
  readStrMembers_ok loc (texts_mapMembers m)

/-- `bundle_sha256` of a captured frame is the text of the digest. -/
theorem jsonString_hexdigest (bs : Bytes) : jsonString (utf8 (hexdigest bs)) = hexdigest bs :=
  jsonString_utf8 fun c hc => (hexAlphabet_ascii c (mem_hexdigest hc)).2

theorem capture_bundleSHA {packer : Packer} {before after : Disk} {now : Instant}
    {alertID hostID capturedBy : Bytes} {paths : List Bytes} {s : Submit}
    (h : capture packer before after now alertID hostID capturedBy paths = .ok s) :
    s.bundleSHA = utf8 (hexdigest (sha256 s.tarball)) := by
  unfold capture at h
  split at h
  · cases h
  · split at h
    · cases h
    · cases h
      rfl

/-! ## The frame of the agent -/

/-- The members before the tarball. -/
def commonMembers (s : Submit) : List (Str × Json) := s.members.take 6

theorem members_eq (s : Submit) :
    s.members = commonMembers s ++ [("tarball".toList, .str (b64encode s.tarball))] := rfl

theorem commonMembers_names (s : Submit) : (commonMembers s).map Prod.fst =
    ["alert_id".toList, "host_id".toList, "captured_at".toList, "captured_by".toList,
      "bundle_sha256".toList, "source_hashes".toList] := rfl

theorem field_append {fields rest : List (Str × Json)} (name : String) :
    field (fields ++ rest) name = (field fields name).or (field rest name) := by
  unfold field
  rw [List.find?_append, Option.map_or]

/-- A member before the tarball is read from any frame that starts with them. -/
theorem field_common {s : Submit} (rest : List (Str × Json)) {name : String} {v : Json}
    (h : (name.toList, v) ∈ commonMembers s) : field (commonMembers s ++ rest) name = some v := by
  have hnodup : ((commonMembers s).map Prod.fst).Nodup := by
    rw [commonMembers_names]
    decide
  rw [field_append, field_of_mem hnodup h, Option.some_or]

/-- Every other member is read from the rest. -/
theorem field_rest {s : Submit} (rest : List (Str × Json)) {name : String}
    (h : name.toList ∉ ["alert_id".toList, "host_id".toList, "captured_at".toList,
      "captured_by".toList, "bundle_sha256".toList, "source_hashes".toList]) :
    field (commonMembers s ++ rest) name = field rest name := by
  have hnone : field (commonMembers s) name = none := by
    rw [field_eq_none]
    intro m hm hname
    rw [← commonMembers_names s, ← hname] at h
    exact h (List.mem_map_of_mem hm)
  rw [field_append, hnone, Option.none_or]

/-- With a time stamp that the server reads, the members before the tarball are all validated: what
is left is how the rest gives the tarball. -/
theorem validateMembers_common {datetime : Json → Option Soar.Timestamp} (s : Submit)
    {t : Soar.Timestamp} (ht : datetime (.str s.capturedAt.text) = some t)
    (rest : List (Str × Json)) :
    ∃ build : Str → Option Bytes → EvidenceSubmit,
      (∀ text raw, (build text raw).tarballB64 = text ∧ (build text raw).tarball = raw ∧
        (build text raw).bundleSha256 = jsonString s.bundleSHA) ∧
      validateMembers datetime (commonMembers s ++ rest) =
        withField (withField (.ok build)
          (required rest "tarball_b64" (readStr ["tarball_b64".toList])))
          (defaulted rest "tarball" none (readBytes ["tarball".toList])) := by
  obtain ⟨hs, hhashes⟩ := readStrDict_jsonMap ["source_hashes".toList] s.sourceHashes
  refine ⟨EvidenceSubmit.mk (jsonString s.alertID) (jsonString s.hostID) t
    (jsonString s.capturedBy) (jsonString s.bundleSHA) hs, fun _ _ => ⟨rfl, rfl, rfl⟩, ?_⟩
  have hmem : ∀ (i : Nat) (m : Str × Json), (commonMembers s)[i]? = some m → m ∈ commonMembers s :=
    fun _ _ h => List.mem_of_getElem? h
  have halert : field (commonMembers s ++ rest) "alert_id" = some (.str (jsonString s.alertID)) :=
    field_common rest (hmem 0 _ rfl)
  have hhost : field (commonMembers s ++ rest) "host_id" = some (.str (jsonString s.hostID)) :=
    field_common rest (hmem 1 _ rfl)
  have hat : field (commonMembers s ++ rest) "captured_at" = some (.str s.capturedAt.text) :=
    field_common rest (hmem 2 _ rfl)
  have hby : field (commonMembers s ++ rest) "captured_by" =
      some (.str (jsonString s.capturedBy)) := field_common rest (hmem 3 _ rfl)
  have hsha : field (commonMembers s ++ rest) "bundle_sha256" =
      some (.str (jsonString s.bundleSHA)) := field_common rest (hmem 4 _ rfl)
  have hsources : field (commonMembers s ++ rest) "source_hashes" =
      some (jsonMap s.sourceHashes) := field_common rest (hmem 5 _ rfl)
  have htext : field (commonMembers s ++ rest) "tarball_b64" = field rest "tarball_b64" :=
    field_rest rest (by decide)
  have hraw : field (commonMembers s ++ rest) "tarball" = field rest "tarball" :=
    field_rest rest (by decide)
  simp only [validateMembers, required, defaulted, halert, hhost, hat, hby, hsha, hsources, htext,
    hraw, readStr, readDatetime, ht, hhashes]
  rfl

/-- The one error of a frame is the missing member. -/
theorem modelValidate_marshal {datetime : Json → Option Soar.Timestamp} (s : Submit)
    {t : Soar.Timestamp} (ht : datetime (.str s.capturedAt.text) = some t) :
    modelValidate datetime (marshal s) = .error [⟨["tarball_b64".toList], .missing⟩] := by
  obtain ⟨build, -, hvalidate⟩ := validateMembers_common s ht
    [("tarball".toList, .str (b64encode s.tarball))]
  rw [marshal, members_eq, modelValidate, hvalidate]
  rfl

/-- No frame that the agent captures is taken by the server. -/
theorem frame_never_agrees (ops : EvidenceOps) (datetime : Json → Option Soar.Timestamp)
    (packer : Packer) (before after : Disk) (now : Instant) (alertID hostID capturedBy : Bytes)
    (paths : List Bytes) (s : Submit)
    (_ : capture packer before after now alertID hostID capturedBy paths = .ok s) :
    ¬ FrameAgrees ops datetime (marshal s) s.tarball := by
  have hnone : field s.members "tarball_b64" = none := by
    rw [members_eq, field_rest _ (by decide)]
    rfl
  have hmissing : ⟨["tarball_b64".toList], .missing⟩ ∈
      complaints (modelValidate datetime (marshal s)) := missing_mem_complaints hnone
  rintro ⟨p, hp, -⟩
  rw [hp] at hmissing
  cases hmissing

/-! ## The server's name for the member -/

/-- The digest that `submit` checks, when the claimed one is the text of the captured one. -/
theorem checkedTarball_of_tarball {ops : EvidenceOps} {p : EvidenceSubmit} {tarball : Bytes}
    (htarball : p.asTarball = some tarball)
    (hsha : p.bundleSha256 = hexdigest (sha256 tarball)) :
    EvidenceStore.checkedTarball ops p = .ok tarball := by
  simp only [EvidenceStore.checkedTarball, htarball, hsha, compareDigest_hexdigest]

/-- A captured frame with the tarball under the name that the server requires is taken as it is. -/
theorem renamed_agrees {ops : EvidenceOps} {datetime : Json → Option Soar.Timestamp}
    {packer : Packer} {before after : Disk} {now : Instant} {alertID hostID capturedBy : Bytes}
    {paths : List Bytes} {s : Submit} {t : Soar.Timestamp}
    (h : capture packer before after now alertID hostID capturedBy paths = .ok s)
    (ht : datetime (.str s.capturedAt.text) = some t) :
    FrameAgrees ops datetime
      (.obj (commonMembers s ++ [("tarball_b64".toList, .str (b64encode s.tarball))]))
      s.tarball := by
  obtain ⟨build, hbuild, hvalidate⟩ := validateMembers_common s ht
    [("tarball_b64".toList, .str (b64encode s.tarball))]
  obtain ⟨htext, hraw, hsha⟩ := hbuild (b64encode s.tarball) none
  have htarball : (build (b64encode s.tarball) none).asTarball = some s.tarball := by
    rw [EvidenceSubmit.asTarball, hraw, htext]
    exact b64decode_b64encode s.tarball
  refine ⟨build (b64encode s.tarball) none, ?_, htarball, checkedTarball_of_tarball htarball ?_⟩
  · rw [modelValidate, hvalidate]
    rfl
  · rw [hsha, capture_bundleSHA h, jsonString_hexdigest]

/-- With the tarball under both names the server takes the text for the bytes: what it has is longer
than the tarball. -/
theorem both_names_differ {ops : EvidenceOps} {datetime : Json → Option Soar.Timestamp}
    {s : Submit} {t : Soar.Timestamp} (ht : datetime (.str s.capturedAt.text) = some t)
    (hne : s.tarball ≠ []) :
    ¬ FrameAgrees ops datetime
      (.obj (commonMembers s ++ [("tarball".toList, .str (b64encode s.tarball)),
        ("tarball_b64".toList, .str (b64encode s.tarball))])) s.tarball := by
  obtain ⟨build, hbuild, hvalidate⟩ := validateMembers_common s ht
    [("tarball".toList, .str (b64encode s.tarball)),
      ("tarball_b64".toList, .str (b64encode s.tarball))]
  obtain ⟨-, hraw, -⟩ := hbuild (b64encode s.tarball) (some (utf8 (b64encode s.tarball)))
  rintro ⟨p, hp, htarball, -⟩
  have hp' : p = build (b64encode s.tarball) (some (utf8 (b64encode s.tarball))) := by
    rw [modelValidate, hvalidate] at hp
    exact (Except.ok.inj hp).symm
  rw [hp', EvidenceSubmit.asTarball, hraw] at htarball
  have hlength : (utf8 (b64encode s.tarball)).length = (b64encode s.tarball).length := by
    rw [utf8_of_ascii (ascii_b64encode s.tarball), List.length_map]
  have hsame : utf8 (b64encode s.tarball) = s.tarball := Option.some.inj htarball
  have hlong := lt_length_b64encode hne
  rw [hsame] at hlength
  omega

/-! ## A captured file -/

/-- One file with the text `alpha`, and an archive of its contents. -/
def sampleDisk : Disk where
  stat _ := .ok ⟨false, []⟩
  readFile path := if path = lit "/tmp/a.txt" then .ok (lit "alpha") else .error (lit "not found")

/-- An archive that starts as `gzip` does. -/
def samplePacker : Packer where
  writeHeader _ _ := .ok ()
  pack entries := [0x1f, 0x8b] ++ entries.flatMap fun e => e.name ++ e.header ++ e.content.getD []

def sampleInstant : Instant := ⟨UtcTime.sample, 0, by decide⟩

def sampleCapture : Except Bytes Submit :=
  capture samplePacker sampleDisk sampleDisk sampleInstant (lit "a1") (lit "h1") (lit "op")
    [lit "/tmp/a.txt"]

def sampleFrameOps : EvidenceOps := ⟨fun _ => [], Library.ofTable [] [] [], quoted⟩

/-- The reading of the one time stamp. -/
def sampleDatetime : Json → Option Soar.Timestamp
  | .str s =>
    if s = sampleInstant.text then some ⟨UtcTime.sample, 0, Soar.Timestamp.zero_micros⟩ else none
  | _ => none

theorem sampleCapture_ok : ∃ s, sampleCapture = .ok s ∧ s.capturedAt = sampleInstant := by
  have hread : sampleDisk.readFile (lit "/tmp/a.txt") = .ok (lit "alpha") := by
    simp only [sampleDisk, if_true]
  have hhash : fileSHA256 sampleDisk (lit "/tmp/a.txt") =
      .ok (utf8 (hexdigest (sha256 (lit "alpha")))) := by
    rw [fileSHA256, hread]
    rfl
  have hentry : addFile samplePacker sampleDisk (lit "/tmp/a.txt") =
      .ok ⟨relPath (lit "/tmp/a.txt"), [], some (lit "alpha")⟩ := by
    unfold addFile
    rw [hread]
    rfl
  unfold sampleCapture capture
  simp only [hashSources, hhash, writeTarGz, List.mapM_cons, hentry]
  exact ⟨_, rfl, rfl⟩

/-- The frame of one captured file is not taken. -/
theorem frame_never_agrees_one_file :
    ∃ s, sampleCapture = .ok s ∧
      ¬ FrameAgrees sampleFrameOps sampleDatetime (marshal s) s.tarball := by
  obtain ⟨s, hs, -⟩ := sampleCapture_ok
  exact ⟨s, hs, frame_never_agrees sampleFrameOps sampleDatetime samplePacker sampleDisk sampleDisk
    sampleInstant (lit "a1") (lit "h1") (lit "op") [lit "/tmp/a.txt"] s hs⟩

/-- The server answers that `tarball_b64` is missing. -/
theorem captured_frame_refused :
    ∃ s, sampleCapture = .ok s ∧
      modelValidate sampleDatetime (marshal s) = .error [⟨["tarball_b64".toList], .missing⟩] ∧
      ¬ FrameAgrees sampleFrameOps sampleDatetime (marshal s) s.tarball := by
  obtain ⟨s, hs, hat⟩ := sampleCapture_ok
  have hread : sampleDatetime (.str s.capturedAt.text) = some ⟨UtcTime.sample, 0, by decide⟩ := by
    simp only [hat, sampleDatetime, if_true]
  have herror := modelValidate_marshal s hread
  refine ⟨s, hs, herror, ?_⟩
  rintro ⟨p, hp, -⟩
  rw [herror] at hp
  cases hp

end ZaqorinCore.Protocol
