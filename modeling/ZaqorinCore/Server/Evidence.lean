import ZaqorinCore.Base.Run
import ZaqorinCore.Text.Codec
import ZaqorinCore.Server.Canonical
import ZaqorinCore.Server.Command
import ZaqorinCore.Server.Soar

/-!
# The evidence locker

`EvidenceStore` of `evidence.py`. A submitted bundle is three files in the directory of its alert:
the tarball, the sidecar and the signature of the sidecar's bytes. `json.dumps`, `json.loads` and
the key ids that `uuid4` draws are parameters; symbolic links are left out, so that the path of an
alert stays in the directory whenever its id is one component. `issued` keeps every bundle that the
store has signed, for the statements only.
-/

namespace ZaqorinCore.Server

open Text Base

/-- The library code that the store calls: `json.dumps` with sorted keys and an indent of two, the
JSON decoder and `repr` of a text. -/
structure EvidenceOps where
  dumps : Json → Str
  lib : Library
  repr : Str → Str

/-- A validated `EvidenceSubmit`; the time is the one in UTC. -/
structure EvidenceSubmit where
  alertId : Str
  hostId : Str
  capturedAt : Soar.Timestamp
  capturedBy : Str
  bundleSha256 : Str
  sourceHashes : List (Str × Str)
  tarballB64 : Str
  tarball : Option Bytes

/-- The errors of Pydantic that a field of `EvidenceSubmit` can have. -/
inductive FieldError
  | missing
  | stringType
  | datetime
  | dictType
  | bytesType
  | modelType
  deriving DecidableEq, Repr

/-- One error of a `ValidationError`, with its `loc`. -/
structure Complaint where
  loc : List Str
  error : FieldError
  deriving DecidableEq, Repr

/-- What the validation of one field gives. -/
abbrev Validated (α : Type) := Except (List Complaint) α

def complaints {α : Type} : Validated α → List Complaint
  | .ok _ => []
  | .error es => es

/-- A constructor takes one more field; the errors of all fields are collected. -/
def withField {α β : Type} (build : Validated (α → β)) (x : Validated α) : Validated β :=
  match build, x with
  | .ok f, .ok a => .ok (f a)
  | build, x => .error (complaints build ++ complaints x)

theorem complaints_withField {α β : Type} (build : Validated (α → β)) (x : Validated α) :
    complaints (withField build x) = complaints build ++ complaints x := by
  cases build <;> cases x <;> rfl

/-- A field without a default. -/
def required {α : Type} (fields : List (Str × Json)) (key : String)
    (read : Json → Validated α) : Validated α :=
  match field fields key with
  | none => .error [⟨[key.toList], .missing⟩]
  | some v => read v

/-- A field with a default. -/
def defaulted {α : Type} (fields : List (Str × Json)) (key : String) (default : α)
    (read : Json → Validated α) : Validated α :=
  match field fields key with
  | none => .ok default
  | some v => read v

/-- A `str`. -/
def readStr (loc : List Str) : Json → Validated Str
  | .str s => .ok s
  | _ => .error [⟨loc, .stringType⟩]

/-- A `datetime`, by the conversion that is a parameter. -/
def readDatetime (datetime : Json → Option Soar.Timestamp) (loc : List Str) (v : Json) :
    Validated Soar.Timestamp :=
  match datetime v with
  | some t => .ok t
  | none => .error [⟨loc, .datetime⟩]

/-- The members of a `dict[str, str]`; every value that is no text is reported. -/
def readStrMembers (loc : List Str) : List (Str × Json) → Validated (List (Str × Str))
  | [] => .ok []
  | (k, v) :: rest =>
    match readStr (loc ++ [k]) v, readStrMembers loc rest with
    | .ok s, .ok members => .ok ((k, s) :: members)
    | value, members => .error (complaints value ++ complaints members)

def readStrDict (loc : List Str) : Json → Validated (List (Str × Str))
  | .obj fields => readStrMembers loc fields
  | _ => .error [⟨loc, .dictType⟩]

/-- `bytes | None`: a text gives the bytes of its UTF-8, it is not decoded from base64. -/
def readBytes (loc : List Str) : Json → Validated (Option Bytes)
  | .null => .ok none
  | .str s => .ok (some (utf8 s))
  | _ => .error [⟨loc, .bytesType⟩]

/-- `EvidenceSubmit.model_validate` of the members of a body. Members with other names are ignored,
and `_decode_b64` leaves every JSON value as it is. -/
def validateMembers (datetime : Json → Option Soar.Timestamp) (fields : List (Str × Json)) :
    Validated EvidenceSubmit :=
  let build := withField (.ok EvidenceSubmit.mk)
    (required fields "alert_id" (readStr ["alert_id".toList]))
  let build := withField build (required fields "host_id" (readStr ["host_id".toList]))
  let build := withField build
    (required fields "captured_at" (readDatetime datetime ["captured_at".toList]))
  let build := withField build (required fields "captured_by" (readStr ["captured_by".toList]))
  let build := withField build (required fields "bundle_sha256" (readStr ["bundle_sha256".toList]))
  let build := withField build
    (defaulted fields "source_hashes" [] (readStrDict ["source_hashes".toList]))
  let build := withField build (required fields "tarball_b64" (readStr ["tarball_b64".toList]))
  withField build (defaulted fields "tarball" none (readBytes ["tarball".toList]))

/-- `EvidenceSubmit.model_validate` -/
def modelValidate (datetime : Json → Option Soar.Timestamp) : Json → Validated EvidenceSubmit
  | .obj fields => validateMembers datetime fields
  | _ => .error [⟨[], .modelType⟩]

/-- `as_tarball`; `none` when the base64 text raises. -/
def EvidenceSubmit.asTarball (p : EvidenceSubmit) : Option Bytes :=
  match p.tarball with
  | some tarball => some tarball
  | none => b64decode p.tarballB64

/-- What `submit` and `verify` raise: the `ValueError`s of the store with their texts, the ones of
`base64`, of `safe_loads` and of a signature that is not UTF-8, and the other exceptions. -/
inductive EvidenceError
  | valueError (message : Str)
  | base64
  | loads
  | unicode
  | typeError
  | attributeError
  | keyError
  deriving DecidableEq

/-- `_alert_dir`, as the name of the directory. -/
def alertDir (alertId : Str) : Except EvidenceError Str :=
  if alertId = [] then .error (.valueError "alert_id must be non-empty".toList)
  else if '\x00' ∈ alertId then .error (.valueError "alert_id must not contain NUL bytes".toList)
  else if alertId = ".".toList ∨ alertId = "..".toList then
    .error (.valueError "alert_id must not be '.' or '..'".toList)
  else if '/' ∈ alertId ∨ '\\' ∈ alertId then
    .error (.valueError "alert_id must not contain path separators".toList)
  else if ".".toList <+: alertId then
    .error (.valueError "alert_id must not start with '.'".toList)
  else .ok alertId

/-- The members of the sidecar. -/
def sidecarMembers (p : EvidenceSubmit) (keyId : Str) : List (Str × Json) :=
  [("alert_id".toList, .str p.alertId), ("host_id".toList, .str p.hostId),
    ("captured_at".toList, .str p.capturedAt.isoformat), ("captured_by".toList, .str p.capturedBy),
    ("bundle_sha256".toList, .str p.bundleSha256),
    ("source_hashes".toList, .obj (p.sourceHashes.map fun h => (h.1, .str h.2))),
    ("key_id".toList, .str keyId)]

/-- The sidecar of a bundle that is signed with the key `keyId`. -/
def sidecarOf (p : EvidenceSubmit) (keyId : Str) : Json := .obj (sidecarMembers p keyId)

/-- `bundle.tar.gz`, `bundle.coc.json` and `bundle.coc.sig`. -/
structure Bundle where
  tarball : Bytes
  sidecar : Bytes
  sig : Bytes

/-- A bundle that the store has written and the key that signed it. -/
structure Issued where
  alertId : Str
  key : Bytes
  bundle : Bundle

structure EvidenceStore where
  signingKey : Bytes
  keys : List (Str × Bytes)
  bundles : List (Str × Bundle)
  issued : List Issued

namespace EvidenceStore

/-- `__post_init__` -/
def postInit (signingKey : Bytes) (keys : List (Str × Bytes)) : EvidenceStore where
  signingKey := signingKey
  keys := if (dictGet keys "current".toList).isSome then keys
    else keys ++ [("current".toList, signingKey)]
  bundles := []
  issued := []

/-- `rotate`, with the id that `uuid4` draws; the new key is given or drawn. -/
def rotate (st : EvidenceStore) (newId : Uuid) (newKey : Bytes) : EvidenceStore :=
  let old := (dictGet st.keys "current".toList).getD st.signingKey
  { st with
    keys := [(hexPadded 32 newId.toNat, newKey), ("previous".toList, old),
      ("current".toList, newKey)]
    signingKey := newKey }

/-- The files of an alert replace the ones that are there. -/
def put (st : EvidenceStore) (dir : Str) (b : Bundle) : EvidenceStore :=
  { st with bundles := (dir, b) :: st.bundles.filter fun f => f.1 != dir }

/-- The tarball, when its digest is the claimed one. -/
def checkedTarball (ops : EvidenceOps) (p : EvidenceSubmit) : Except EvidenceError Bytes :=
  match p.asTarball with
  | none => .error .base64
  | some tarball =>
    let actual := hexdigest (sha256 tarball)
    match compareDigest actual p.bundleSha256 with
    | .error _ => .error .typeError
    | .ok true => .ok tarball
    | .ok false =>
      .error (.valueError ("bundle_sha256 mismatch: claimed ".toList ++ ops.repr p.bundleSha256 ++
        ", actual ".toList ++ ops.repr actual))

/-- The bundle that is written. -/
def signedBundle (ops : EvidenceOps) (p : EvidenceSubmit) (tarball key : Bytes) : Bundle :=
  let sidecar := utf8 (ops.dumps (sidecarOf p "current".toList))
  ⟨tarball, sidecar, utf8 (hexdigest (hmacSha256 key sidecar))⟩

/-- `submit` -/
def submit (ops : EvidenceOps) (st : EvidenceStore) (p : EvidenceSubmit) :
    Except EvidenceError EvidenceStore := do
  let tarball ← checkedTarball ops p
  let dir ← alertDir p.alertId
  match dictGet st.keys "current".toList with
  | none => throw .keyError
  | some key =>
    let b := signedBundle ops p tarball key
    return { st.put dir b with issued := ⟨p.alertId, key, b⟩ :: st.issued }

/-- `hmac.compare_digest` of the signature under a key. -/
def signedWith (sidecar : Bytes) (sig : Str) (key : Bytes) : Except EvidenceError Bool :=
  match compareDigest (hexdigest (hmacSha256 key sidecar)) sig with
  | .ok same => .ok same
  | .error _ => .error .typeError

/-- `sidecar.get("key_id", "current")`, when it can be a key of a dictionary of texts. -/
def keyIdOf : Json → Except EvidenceError (Option Str)
  | .obj members =>
    match field members "key_id" with
    | none => .ok (some "current".toList)
    | some (.str keyId) => .ok (some keyId)
    | some (.arr _) => .error .typeError
    | some (.obj _) => .error .typeError
    | some _ => .ok none
  | _ => .error .attributeError

/-- The key that the sidecar names. -/
def namedKey (st : EvidenceStore) (sidecar : Json) : Except EvidenceError (Option Bytes) := do
  return (← keyIdOf sidecar).bind (dictGet st.keys)

/-- The `try` block of `verify`. -/
def tryNamedKey (ops : EvidenceOps) (st : EvidenceStore) (sidecar : Bytes) (sig : Str) :
    Except EvidenceError Bool :=
  match safeLoads ops.lib (decodeReplace sidecar) with
  | .error .decode => .ok false
  | .error .value => .error .loads
  | .ok v => do
    match ← st.namedKey v with
    | some key => signedWith sidecar sig key
    | none => return false

/-- The loop over the keys. -/
def tryEveryKey (sidecar : Bytes) (sig : Str) : List Bytes → Except EvidenceError Bool
  | [] => .ok false
  | key :: keys => do
    if ← signedWith sidecar sig key then return true
    else tryEveryKey sidecar sig keys

/-- `verify` of the files that are there. -/
def verifyBundle (ops : EvidenceOps) (st : EvidenceStore) (b : Bundle) :
    Except EvidenceError Bool :=
  match readText b.sig with
  | none => .error .unicode
  | some sig => do
    if ← st.tryNamedKey ops b.sidecar sig then return true
    else tryEveryKey b.sidecar sig (st.keys.map Prod.snd)

/-- `verify` -/
def verify (ops : EvidenceOps) (st : EvidenceStore) (alertId : Str) :
    Except EvidenceError Bool := do
  let dir ← alertDir alertId
  match dictGet st.bundles dir with
  | none => return false
  | some b => st.verifyBundle ops b

end EvidenceStore

/-- The operations. -/
inductive EvidenceAct
  | submit (p : EvidenceSubmit)
  | rotate (newId : Uuid) (newKey : Bytes)

/-- A submission that is refused leaves the store as it is. -/
def EvidenceStore.step (ops : EvidenceOps) (st : EvidenceStore) : EvidenceAct → Option EvidenceStore
  | .submit p =>
    match st.submit ops p with
    | .ok st => some st
    | .error _ => some st
  | .rotate newId newKey => some (st.rotate newId newKey)

end ZaqorinCore.Server
