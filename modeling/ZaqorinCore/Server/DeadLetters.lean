import ZaqorinCore.Server.Canonical
import ZaqorinCore.Server.SoarLoss

/-!
# The dead-letter store

How the worker lists, loads and verifies the dead letters of its directory. The loader puts `_file`
and `_path` into the body, and the verifier hashes every member of the body but `file_sha256`, the
two of the loader among them: a letter that nobody has touched fails its own check, and with it
every replay. `round_trip_iff` says for which contents of a file the check does what it is for.
-/

namespace ZaqorinCore.Server.Soar

open Text

/-! ## The directory -/

/-- The directory of the dead letters; one that does not exist is read as an empty one. -/
structure LetterDir where
  base : Str
  files : List (Str × Bytes)

/-- `json.load` of a file that is read as UTF-8, and the pattern matching of `Path.glob`. -/
structure LetterOps extends SoarOps where
  load : Bytes → Except LoadError Json
  fnmatch : Str → Str → Bool

/-- What is not handled while a letter is loaded: a `ValueError` that is no `JSONDecodeError`, or
the `TypeError` for a body that is no dictionary. -/
inductive LetterError
  | value
  | type
  deriving DecidableEq, Repr

namespace LetterDir

variable (ops : LetterOps) (dir : LetterDir)

def read (name : Str) : Option Bytes := (dir.files.find? fun f => f.1 == name).map Prod.snd

/-- `Path.glob` -/
def glob (pattern : Str) : List Str := (dir.files.map Prod.fst).filter (ops.fnmatch pattern)

/-- `body["_file"] = p.name` and `body["_path"] = str(p)`. -/
def located (name : Str) (body : List (Str × Json)) : List (Str × Json) :=
  dictSet (dictSet body "_file".toList (.str name)) "_path".toList (.str (dir.base ++ '/' :: name))

/-- One pass of the loop over the files; `none` goes on with the next one. -/
def loadLetter (name : Str) : Except LetterError (Option (List (Str × Json))) :=
  match dir.read name with
  | none => .ok none
  | some bytes =>
    match ops.load bytes with
    | .error .decode => .ok none
    | .error .value => .error .value
    | .ok (.obj body) => .ok (some (dir.located name body))
    | .ok _ => .error .type

def loadFirst : List Str → Except LetterError (Option (List (Str × Json)))
  | [] => .ok none
  | name :: names => do
    match ← dir.loadLetter ops name with
    | some body => return some body
    | none => loadFirst names

/-- The order of `sorted(..., reverse=True)`. -/
def newestFirst (names : List Str) : List Str := names.mergeSort fun a b => !decide (a < b)

/-- `list_dead_letters` -/
def listDeadLetters : Except LetterError (List (List (Str × Json))) := do
  let bodies ← (newestFirst (dir.glob ops "*.json".toList)).mapM (dir.loadLetter ops)
  return bodies.filterMap id

/-- `get_dead_letter` -/
def getDeadLetter (fileId : Str) : Except LetterError (Option (List (Str × Json))) :=
  if '/' ∈ fileId ∨ "..".toList <:+: fileId then .ok none
  else
    dir.loadFirst ops
      (if (dir.read fileId).isSome then [fileId] else dir.glob ops (fileId ++ "*.json".toList))

end LetterDir

/-! ## Verification -/

/-- The digest of a body without its own entry. -/
def bodyDigest (ops : SoarOps) (body : List (Str × Json)) : Str :=
  hexdigest (sha256 (utf8 (ops.dumps (.obj (body.filter fun m => m.1 != "file_sha256".toList)))))

/-- `verify_dead_letter`; an entry that is no text equals no digest. -/
def verifyDeadLetter (ops : SoarOps) (body : List (Str × Json)) : Bool :=
  match field body "file_sha256" with
  | some (.str expected) => !expected.isEmpty && bodyDigest ops body == expected
  | _ => false

/-- `verify_dead_letter` of what `get_dead_letter` returns. -/
def LetterDir.verified (ops : LetterOps) (dir : LetterDir) (fileId : Str) :
    Except LetterError (Option Bool) := do
  return (← dir.getDeadLetter ops fileId).map (verifyDeadLetter ops.toSoarOps)

/-! ## Names -/

/-- A character that neither leaves the directory nor ends the stem of a name. -/
def Stem (c : Char) : Prop := c ≠ '/' ∧ c ≠ '.'

theorem stem_of_isDigit {c : Char} (h : c.isDigit = true) : Stem c := by
  constructor <;> intro hc <;> subst hc <;> exact absurd h (by decide)

theorem stem_of_mem_itoa {n : Int} {c : Char} (h : c ∈ itoa n) : Stem c := by
  rcases mem_itoa h with hdigit | rfl
  · exact stem_of_isDigit hdigit
  · exact ⟨by decide, by decide⟩

theorem stem_of_mem_uuidStr {u : Uuid} {c : Char} (h : c ∈ uuidStr u) : Stem c := by
  rcases mem_uuidStr h with hhex | rfl
  · have hall : ∀ c ∈ hexAlphabet, c ≠ '/' ∧ c ≠ '.' := by simp [hexAlphabet]
    exact hall c hhex
  · exact ⟨by decide, by decide⟩

theorem stem_of_mem_stamp {t : Timestamp} {c : Char} (h : c ∈ t.stamp) : Stem c := by
  have hletter : Stem 'T' ∧ Stem 'Z' := ⟨⟨by decide, by decide⟩, by decide, by decide⟩
  simp only [Timestamp.stamp, List.mem_append, List.mem_cons, List.not_mem_nil, or_false] at h
  rcases h with (((((h | h) | h) | rfl | h) | h) | h) | rfl
  · exact stem_of_mem_itoa h
  · exact stem_of_isDigit (mem_padded h)
  · exact stem_of_isDigit (mem_padded h)
  · exact hletter.1
  · exact stem_of_isDigit (mem_padded h)
  · exact stem_of_isDigit (mem_padded h)
  · exact stem_of_isDigit (mem_padded h)
  · exact hletter.2

/-- The eight characters of an alert's id that a name takes. -/
def shortId (alertId : Str) : Str :=
  let short := (alertId.filter (· != '-')).take 8
  if short = [] then "alert".toList else short

theorem fileName_eq (t : Timestamp) (alertId : Str) :
    fileName t alertId = (t.stamp ++ '-' :: shortId alertId) ++ ".json".toList := by
  unfold fileName shortId
  simp only [List.append_assoc, List.cons_append]

theorem stem_of_mem_shortId {alertId : Str} (h : ∀ c ∈ alertId, Stem c) {c : Char}
    (hc : c ∈ shortId alertId) : Stem c := by
  dsimp only [shortId] at hc
  split at hc
  · have hall : ∀ c ∈ "alert".toList, c ≠ '/' ∧ c ≠ '.' := by simp
    exact hall c hc
  · exact h c (List.mem_of_mem_filter (List.mem_of_mem_take hc))

/-- `get_dead_letter` takes the name of every dead letter of a row. -/
theorem fileName_safe {alertId : Str} (h : ∀ c ∈ alertId, Stem c) (t : Timestamp) :
    ¬ ('/' ∈ fileName t alertId ∨ "..".toList <:+: fileName t alertId) := by
  have hstem : ∀ c ∈ t.stamp ++ '-' :: shortId alertId, Stem c := by
    intro c hc
    rcases List.mem_append.mp hc with hstamp | hrest
    · exact stem_of_mem_stamp hstamp
    · rcases List.mem_cons.mp hrest with rfl | hshort
      · exact ⟨by decide, by decide⟩
      · exact stem_of_mem_shortId h hshort
  rw [fileName_eq]
  intro hbad
  rcases hbad with hslash | hdots
  · rcases List.mem_append.mp hslash with hslash | hslash
    · exact (hstem _ hslash).1 rfl
    · exact absurd hslash (by decide)
  · have hcount := hdots.sublist.count_le '.'
    have hnone : (t.stamp ++ '-' :: shortId alertId).count '.' = 0 :=
      List.count_eq_zero.mpr fun hdot => (hstem _ hdot).2 rfl
    rw [List.count_append, hnone] at hcount
    exact absurd hcount (by decide)

/-! ## The round trip -/

section RoundTrip

variable {ops : LetterOps} {dir : LetterDir} {name : Str} {bytes : Bytes} {body : List (Str × Json)}

theorem verified_of_read (hname : ¬ ('/' ∈ name ∨ "..".toList <:+: name))
    (hread : dir.read name = some bytes) (hload : ops.load bytes = .ok (.obj body)) :
    dir.verified ops name =
      .ok (some (verifyDeadLetter ops.toSoarOps (dir.located name body))) := by
  have hletter : dir.loadLetter ops name = .ok (some (dir.located name body)) := by
    unfold LetterDir.loadLetter
    rw [hread]
    simp only [hload]
  unfold LetterDir.verified LetterDir.getDeadLetter
  rw [if_neg hname, hread]
  simp only [Option.isSome_some, if_true, LetterDir.loadFirst, hletter]
  rfl

/-- A body that is no dictionary is not verified at all. -/
theorem verified_of_other {v : Json} (hname : ¬ ('/' ∈ name ∨ "..".toList <:+: name))
    (hread : dir.read name = some bytes) (hload : ops.load bytes = .ok v)
    (hother : ∀ body, v ≠ .obj body) : dir.verified ops name = .error .type := by
  have hletter : dir.loadLetter ops name = .error .type := by
    unfold LetterDir.loadLetter
    rw [hread]
    simp only [hload]
  unfold LetterDir.verified LetterDir.getDeadLetter
  rw [if_neg hname, hread]
  simp only [Option.isSome_some, if_true, LetterDir.loadFirst, hletter]
  rfl

/-- The file's own entry is the digest of its other members and of the loader's. -/
def LetterDir.Resealed (ops : SoarOps) (dir : LetterDir) (name : Str) (body : List (Str × Json)) :
    Prop :=
  field body "file_sha256" = some (.str (bodyDigest ops (dir.located name body)))

theorem field_located (key : String) (hfile : key.toList ≠ "_file".toList)
    (hpath : key.toList ≠ "_path".toList) :
    field (dir.located name body) key = field body key := by
  unfold LetterDir.located
  rw [field_dictSet_of_ne hpath, field_dictSet_of_ne hfile]

theorem hexdigest_sha256_ne_nil (m : Bytes) : hexdigest (sha256 m) ≠ [] := by
  intro h
  have hlength := congrArg List.length h
  rw [hexdigest_length, sha256_length] at hlength
  exact absurd hlength (by decide)

/-- Verification of a located body. -/
theorem verify_located : verifyDeadLetter ops.toSoarOps (dir.located name body) = true ↔
    dir.Resealed ops.toSoarOps name body := by
  have hfield : field (dir.located name body) "file_sha256" = field body "file_sha256" :=
    field_located "file_sha256" (by decide) (by decide)
  unfold verifyDeadLetter LetterDir.Resealed
  rw [hfield]
  constructor
  · intro h
    split at h
    · rename_i expected hexpected
      rw [Bool.and_eq_true, beq_iff_eq] at h
      rw [hexpected, h.2]
    · exact absurd h (by decide)
  · intro h
    rw [h]
    simp [bodyDigest, hexdigest_sha256_ne_nil]

/-- A body without the digest that it would have now is refused. -/
theorem verified_of_unsealed (hname : ¬ ('/' ∈ name ∨ "..".toList <:+: name))
    (hread : dir.read name = some bytes) (hload : ops.load bytes = .ok (.obj body))
    (hsealed : ¬ dir.Resealed ops.toSoarOps name body) :
    dir.verified ops name = .ok (some false) := by
  have hfalse : verifyDeadLetter ops.toSoarOps (dir.located name body) = false :=
    Bool.eq_false_iff.mpr fun h => hsealed (verify_located.mp h)
  rw [verified_of_read hname hread hload, hfalse]

end RoundTrip

section Integrity

variable (ops : LetterOps) (dir : LetterDir) (item : PendingDelivery) (outcome : DeliverOutcome)
  (attempt : Nat)

theorem read_singleton (base name : Str) (bytes : Bytes) :
    LetterDir.read ⟨base, [(name, bytes)]⟩ name = some bytes := by
  simp [LetterDir.read]

/-- The letter's file. -/
def letterName : Str := fileName outcome.result.attemptedAt item.alert.id

/-- The letter verifies while its file is as the worker wrote it, and does not when the file holds
another JSON value. -/
def RoundTrip : Prop :=
  let written := deadLetterBody ops.toSoarOps item outcome attempt
  (dir.read (letterName item outcome) = some (utf8 (ops.dumps written)) →
    dir.verified ops (letterName item outcome) = .ok (some true)) ∧
  ∀ bytes v, dir.read (letterName item outcome) = some bytes → ops.load bytes = .ok v →
    sortKeys v ≠ sortKeys written → dir.verified ops (letterName item outcome) = .ok (some false)

/-- The file has been touched, and every other JSON value in it is an object that has not been
sealed again. -/
def TouchedUnsealed : Prop :=
  let written := deadLetterBody ops.toSoarOps item outcome attempt
  dir.read (letterName item outcome) ≠ some (utf8 (ops.dumps written)) ∧
  ∀ bytes v, dir.read (letterName item outcome) = some bytes → ops.load bytes = .ok v →
    sortKeys v ≠ sortKeys written →
    ∃ body, v = .obj body ∧ ¬ dir.Resealed ops.toSoarOps (letterName item outcome) body

/-- The members of the letter. -/
def letterMembers : List (Str × Json) :=
  bodyFields item outcome attempt ++
    [("file_sha256".toList,
      .str (hexdigest (sha256 (utf8 (ops.dumps (.obj (bodyFields item outcome attempt)))))))]

/-- The members that the check hashes when the file is as the worker wrote it. -/
def loadedMembers : List (Str × Json) :=
  (dir.located (letterName item outcome) (sortMembers (letterMembers ops item outcome attempt))).filter
    fun m => m.1 != "file_sha256".toList

variable {ops dir item outcome attempt}

theorem deadLetterBody_eq : deadLetterBody ops.toSoarOps item outcome attempt =
    .obj (letterMembers ops item outcome attempt) := rfl

theorem not_mem_bodyFields {m : Str × Json} (h : m ∈ bodyFields item outcome attempt) :
    m.1 ≠ "_file".toList ∧ m.1 ≠ "file_sha256".toList := by
  simp only [bodyFields, List.mem_cons, List.not_mem_nil, or_false] at h
  rcases h with rfl | rfl | rfl | rfl | rfl | rfl | rfl <;> exact ⟨by simp, by simp⟩

theorem file_mem_loadedMembers :
    ∃ m ∈ loadedMembers ops dir item outcome attempt, m.1 = "_file".toList := by
  have hset : ∃ m ∈ dir.located (letterName item outcome)
      (sortMembers (letterMembers ops item outcome attempt)), m.1 = "_file".toList :=
    key_dictSet_of_key key_dictSet
  obtain ⟨m, hm, hkey⟩ := hset
  refine ⟨m, List.mem_filter.mpr ⟨hm, ?_⟩, hkey⟩
  rw [hkey]
  decide

theorem letterName_safe {row : AlertRow} (hitem : item.alert = alertOf ops.toSoarOps row) :
    ¬ ('/' ∈ letterName item outcome ∨ "..".toList <:+: letterName item outcome) := by
  apply fileName_safe
  rw [hitem]
  exact fun c hc => stem_of_mem_uuidStr hc

/-- Loading undoes dumping for the texts that are hashed and for the letter itself. -/
def JsonInverse (ops : LetterOps) (dir : LetterDir) (item : PendingDelivery)
    (outcome : DeliverOutcome) (attempt : Nat) : Prop :=
  ∀ v ∈ [.obj (bodyFields item outcome attempt), .obj (letterMembers ops item outcome attempt),
      .obj (loadedMembers ops dir item outcome attempt)],
    ops.load (utf8 (ops.dumps v)) = .ok (sortKeys v)

/-- The two texts that are hashed do not collide. -/
def NoCollision (ops : LetterOps) (dir : LetterDir) (item : PendingDelivery)
    (outcome : DeliverOutcome) (attempt : Nat) : Prop :=
  sha256 (utf8 (ops.dumps (.obj (loadedMembers ops dir item outcome attempt)))) =
      sha256 (utf8 (ops.dumps (.obj (bodyFields item outcome attempt)))) →
    utf8 (ops.dumps (.obj (loadedMembers ops dir item outcome attempt))) =
      utf8 (ops.dumps (.obj (bodyFields item outcome attempt)))

/-- The digest of the letter is not the one that the check computes. -/
theorem not_resealed_of_untouched (hjson : JsonInverse ops dir item outcome attempt)
    (hsha : NoCollision ops dir item outcome attempt) :
    ¬ dir.Resealed ops.toSoarOps (letterName item outcome)
      (sortMembers (letterMembers ops item outcome attempt)) := by
  intro hsealed
  obtain ⟨m, hm, heq⟩ := mem_sortMembers.mp (field_mem hsealed)
  have hkey : m.1 = "file_sha256".toList := (congrArg Prod.fst heq).symm
  have hdigest : m = ("file_sha256".toList,
      .str (hexdigest (sha256 (utf8 (ops.dumps (.obj (bodyFields item outcome attempt))))))) := by
    rcases List.mem_append.mp hm with hbody | hlast
    · exact absurd hkey (not_mem_bodyFields hbody).2
    · exact List.mem_singleton.mp hlast
  rw [hdigest] at heq
  simp only [sortKeys, Prod.mk.injEq, Json.str.injEq, true_and] at heq
  have hbytes := hsha (hexdigest_injective heq)
  have hfields := hjson (.obj (bodyFields item outcome attempt)) (by simp)
  have hloaded := hjson (.obj (loadedMembers ops dir item outcome attempt)) (by simp)
  rw [hbytes, hfields] at hloaded
  obtain ⟨n, hn, hfile⟩ :=
    (keys_of_sortKeys_eq (Except.ok.inj hloaded)).mpr file_mem_loadedMembers
  exact (not_mem_bodyFields hn).1 hfile

/-- A letter as the worker wrote it is refused. -/
theorem verified_of_untouched {row : AlertRow} (hitem : item.alert = alertOf ops.toSoarOps row)
    (hjson : JsonInverse ops dir item outcome attempt)
    (hsha : NoCollision ops dir item outcome attempt)
    (hread : dir.read (letterName item outcome) =
      some (utf8 (ops.dumps (deadLetterBody ops.toSoarOps item outcome attempt)))) :
    dir.verified ops (letterName item outcome) = .ok (some false) := by
  have hload : ops.load (utf8 (ops.dumps (deadLetterBody ops.toSoarOps item outcome attempt))) =
      .ok (.obj (sortMembers (letterMembers ops item outcome attempt))) :=
    hjson (.obj (letterMembers ops item outcome attempt)) (by simp)
  exact verified_of_unsealed (letterName_safe hitem) hread hload
    (not_resealed_of_untouched hjson hsha)

/-- The check of a dead letter does what it is for exactly on the files that have been touched and
not been sealed again. -/
theorem round_trip_iff (ops : LetterOps) (dir : LetterDir) (row : AlertRow) (item : PendingDelivery)
    (outcome : DeliverOutcome) (attempt : Nat) (hitem : item.alert = alertOf ops.toSoarOps row)
    (hjson : JsonInverse ops dir item outcome attempt)
    (hsha : NoCollision ops dir item outcome attempt) :
    RoundTrip ops dir item outcome attempt ↔ TouchedUnsealed ops dir item outcome attempt := by
  have hname : ¬ ('/' ∈ letterName item outcome ∨ "..".toList <:+: letterName item outcome) :=
    letterName_safe hitem
  constructor
  · rintro ⟨huntouched, htouched⟩
    constructor
    · intro hread
      have htrue := huntouched hread
      rw [verified_of_untouched hitem hjson hsha hread] at htrue
      exact absurd htrue (by decide)
    · intro bytes v hread hload hne
      have hfalse := htouched bytes v hread hload hne
      by_cases hobj : ∃ body, v = .obj body
      · obtain ⟨body, rfl⟩ := hobj
        refine ⟨body, rfl, fun hsealed => ?_⟩
        rw [verified_of_read hname hread hload, verify_located.mpr hsealed] at hfalse
        exact absurd hfalse (by decide)
      · rw [verified_of_other hname hread hload fun body hv => hobj ⟨body, hv⟩] at hfalse
        exact absurd hfalse (by decide)
  · rintro ⟨htouched, hcaught⟩
    constructor
    · intro hread
      exact absurd hread htouched
    · intro bytes v hread hload hne
      obtain ⟨body, rfl, hsealed⟩ := hcaught bytes v hread hload hne
      exact verified_of_unsealed hname hread hload hsealed

end Integrity

/-! ## A letter and an edit of it -/

/-- The line of a member that is `null` or a text without characters to escape. -/
def memberLine (members : List (Str × Json)) (key : String) : List Str :=
  match field members key with
  | some (.str s) => ["  ".toList ++ quoted key.toList ++ ": ".toList ++ quoted s ++ ",".toList]
  | some .null => ["  ".toList ++ quoted key.toList ++ ": null,".toList]
  | _ => []

/-- The lines of the letter below, with any texts for its members. -/
def sampleLines (members : List (Str × Json)) : List Str :=
  ["\x7b".toList] ++ memberLine members "_file" ++ memberLine members "_path" ++
    (["  \"alert\": \x7b",
      "    \"detector\": \"sigma\",",
      "    \"evidence\": null,",
      "    \"host_id\": \"\",",
      "    \"id\": \"00000000-0000-0000-0000-000000000001\",",
      "    \"metadata\": \x7b\x7d,",
      "    \"severity\": \"high\",",
      "    \"summary\": \"sudo\",",
      "    \"tags\": []",
      "  \x7d,",
      "  \"attempt\": 1,"].map String.toList) ++
    memberLine members "backend" ++ memberLine members "error" ++
    memberLine members "file_sha256" ++ memberLine members "payload_sha256" ++
    ["  \"status_code\": 404,".toList] ++
    (memberLine members "ts").map List.dropLast ++ ["\x7d".toList]

/-- `json.dumps` of the letter. -/
def sampleDumps : Json → Str
  | .obj members => List.intercalate ['\n'] (sampleLines members)
  | _ => []

/-- An alert without a host. -/
def letterRow : AlertRow :=
  ⟨1#128, none, "sigma".toList, "high".toList, "sudo".toList, .obj []⟩

/-- The item of the letter. -/
def sampleItem : PendingDelivery :=
  ⟨alertOf sampleOps letterRow, "slack".toList, ⟨true, 60, "medium".toList, [], 5⟩, 1,
    1000000000000⟩

/-- The letter as the worker writes it, under the digest `digest`. -/
def sampleMembers (digest : Str) : List (Str × Json) :=
  bodyFields sampleItem notFound 1 ++ [("file_sha256".toList, .str digest)]

/-- The digest of the letter. -/
def sampleSeal : Str :=
  hexdigest (sha256 (utf8 (sampleDumps (.obj (bodyFields sampleItem notFound 1)))))

/-- The letter with another backend. -/
def editedMembers (digest : Str) : List (Str × Json) :=
  dictSet (sampleMembers digest) "backend".toList (.str "discord".toList)

def sampleDir (members : List (Str × Json)) : LetterDir :=
  ⟨"/srv/letters".toList, [(letterName sampleItem notFound, utf8 (sampleDumps (.obj members)))]⟩

/-- The letter's members when the loader has been at them. -/
def locatedMembers (digest : Str) : List (Str × Json) :=
  ((sampleDir []).located (letterName sampleItem notFound)
    (sortMembers (sampleMembers digest))).filter fun m => m.1 != "file_sha256".toList

/-- `json.load` for the texts of the letter. -/
def sampleLoad (bytes : Bytes) : Except LoadError Json :=
  if bytes = utf8 (sampleDumps (.obj (bodyFields sampleItem notFound 1))) then
    .ok (sortKeys (.obj (bodyFields sampleItem notFound 1)))
  else if bytes = utf8 (sampleDumps (.obj (sampleMembers sampleSeal))) then
    .ok (sortKeys (.obj (sampleMembers sampleSeal)))
  else if bytes = utf8 (sampleDumps (.obj (editedMembers sampleSeal))) then
    .ok (sortKeys (.obj (editedMembers sampleSeal)))
  else if bytes = utf8 (sampleDumps (.obj (locatedMembers sampleSeal))) then
    .ok (sortKeys (.obj (locatedMembers sampleSeal)))
  else .error .decode

def sampleLetterOps : LetterOps where
  finalSigma := sampleOps.finalSigma
  reprJson := sampleOps.reprJson
  dumps := sampleDumps
  load := sampleLoad
  fnmatch pattern name := pattern == name

theorem load_sampleLetterOps : sampleLetterOps.load = sampleLoad := rfl

theorem ne_of_getElem? {a b : Bytes} (i : Nat) (h : a[i]? ≠ b[i]?) : a ≠ b :=
  fun heq => h (congrArg (·[i]?) heq)

/-- One digit of each digest tells them apart. -/
theorem digest_heads : sampleSeal.head? = some '3' ∧
    (hexdigest (sha256 (utf8 (sampleDumps (.obj (locatedMembers sampleSeal)))))).head? =
      some '7' ∧
    (bodyDigest sampleLetterOps.toSoarOps ((sampleDir (editedMembers sampleSeal)).located
      (letterName sampleItem notFound) (sortMembers (editedMembers sampleSeal)))).head? =
        some '2' :=
  ⟨by decide +kernel, by decide +kernel, by decide +kernel⟩

theorem locatedDigest_ne : sha256 (utf8 (sampleDumps (.obj (locatedMembers sampleSeal)))) ≠
    sha256 (utf8 (sampleDumps (.obj (bodyFields sampleItem notFound 1)))) := by
  intro h
  have hhead := digest_heads.2.1
  rw [h] at hhead
  exact absurd (hhead.symm.trans digest_heads.1) (by decide)

theorem editedMembers_unsealed : ¬ (sampleDir (editedMembers sampleSeal)).Resealed
    sampleLetterOps.toSoarOps (letterName sampleItem notFound)
    (sortMembers (editedMembers sampleSeal)) := by
  intro hsealed
  have hfield : field (sortMembers (editedMembers sampleSeal)) "file_sha256" =
      some (.str sampleSeal) := rfl
  have hdigest := Json.str.inj (Option.some.inj (hfield.symm.trans hsealed))
  have hhead := digest_heads.2.2
  rw [← hdigest] at hhead
  exact absurd (hhead.symm.trans digest_heads.1) (by decide)

theorem load_fields : sampleLoad (utf8 (sampleDumps (.obj (bodyFields sampleItem notFound 1)))) =
    .ok (sortKeys (.obj (bodyFields sampleItem notFound 1))) := by
  unfold sampleLoad
  rw [if_pos rfl]

theorem load_sample : sampleLoad (utf8 (sampleDumps (.obj (sampleMembers sampleSeal)))) =
    .ok (sortKeys (.obj (sampleMembers sampleSeal))) := by
  unfold sampleLoad
  rw [if_neg (ne_of_getElem? 294 (by decide)), if_pos rfl]

theorem edited_ne_sample : utf8 (sampleDumps (.obj (editedMembers sampleSeal))) ≠
    utf8 (sampleDumps (.obj (sampleMembers sampleSeal))) :=
  ne_of_getElem? 248 (by decide)

theorem load_edited : sampleLoad (utf8 (sampleDumps (.obj (editedMembers sampleSeal)))) =
    .ok (sortKeys (.obj (editedMembers sampleSeal))) := by
  unfold sampleLoad
  rw [if_neg (ne_of_getElem? 248 (by decide)), if_neg edited_ne_sample, if_pos rfl]

theorem load_located : sampleLoad (utf8 (sampleDumps (.obj (locatedMembers sampleSeal)))) =
    .ok (sortKeys (.obj (locatedMembers sampleSeal))) := by
  unfold sampleLoad
  rw [if_neg (ne_of_getElem? 5 (by decide)), if_neg (ne_of_getElem? 5 (by decide)),
    if_neg (ne_of_getElem? 5 (by decide)), if_pos rfl]

theorem read_sampleDir (members : List (Str × Json)) :
    (sampleDir members).read (letterName sampleItem notFound) =
      some (utf8 (sampleDumps (.obj members))) :=
  read_singleton _ _ _

theorem letterMembers_sample :
    letterMembers sampleLetterOps sampleItem notFound 1 = sampleMembers sampleSeal := by
  unfold letterMembers sampleMembers sampleSeal sampleLetterOps
  rfl

theorem loadedMembers_sample (members : List (Str × Json)) :
    loadedMembers sampleLetterOps (sampleDir members) sampleItem notFound 1 =
      locatedMembers sampleSeal := by
  unfold loadedMembers
  rw [letterMembers_sample]
  unfold locatedMembers LetterDir.located sampleDir
  rfl

theorem sample_json (members : List (Str × Json)) :
    JsonInverse sampleLetterOps (sampleDir members) sampleItem notFound 1 := by
  unfold JsonInverse
  rw [letterMembers_sample, loadedMembers_sample, load_sampleLetterOps]
  intro v hv
  simp only [List.mem_cons, List.not_mem_nil, or_false] at hv
  rcases hv with rfl | rfl | rfl
  · exact load_fields
  · exact load_sample
  · exact load_located

theorem sample_sha (members : List (Str × Json)) :
    NoCollision sampleLetterOps (sampleDir members) sampleItem notFound 1 := by
  unfold NoCollision
  rw [loadedMembers_sample]
  exact fun h => absurd h locatedDigest_ne

theorem sampleItem_alert : sampleItem.alert = alertOf sampleLetterOps.toSoarOps letterRow := by
  unfold sampleItem sampleLetterOps alertOf
  rfl

theorem sample_written :
    some (utf8 (sampleDumps (deadLetterBody sampleLetterOps.toSoarOps sampleItem notFound 1))) =
      some (utf8 (sampleDumps (.obj (sampleMembers sampleSeal)))) := by
  rw [deadLetterBody_eq, letterMembers_sample]

/-- Another backend in the file is found out. -/
theorem round_trip_edited :
    RoundTrip sampleLetterOps (sampleDir (editedMembers sampleSeal)) sampleItem notFound 1 := by
  refine (round_trip_iff sampleLetterOps (sampleDir (editedMembers sampleSeal)) letterRow sampleItem
    notFound 1 sampleItem_alert (sample_json _) (sample_sha _)).mpr ⟨?_, ?_⟩
  · intro hread
    rw [read_sampleDir] at hread
    exact edited_ne_sample (Option.some.inj (hread.trans sample_written))
  · intro bytes v hread hload _
    rw [read_sampleDir] at hread
    cases Option.some.inj hread
    rw [load_sampleLetterOps, load_edited] at hload
    cases hload
    exact ⟨_, rfl, editedMembers_unsealed⟩

/-- The letter fails its check as the worker wrote it. -/
theorem untouched_letter_fails :
    ¬ RoundTrip sampleLetterOps (sampleDir (sampleMembers sampleSeal)) sampleItem notFound 1 := by
  intro ⟨huntouched, _⟩
  have hread := (read_sampleDir (sampleMembers sampleSeal)).trans sample_written.symm
  have htrue := huntouched hread
  rw [verified_of_untouched sampleItem_alert (sample_json _) (sample_sha _) hread] at htrue
  exact absurd htrue (by decide)

end ZaqorinCore.Server.Soar
