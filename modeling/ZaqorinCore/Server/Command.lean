import ZaqorinCore.Text.Sha256
import ZaqorinCore.Text.Time
import ZaqorinCore.Server.Kinds
import ZaqorinCore.Server.Store

/-!
# Signed commands

`crypto.py` and `_build_command_frame` of `dispatcher.py`. The log lines of the refusals
are left out; a refusal is `none`.
-/

namespace ZaqorinCore.Server

open Text

/-! ## Signing -/

/-- `canonical_form`: the bytes the HMAC is computed over. -/
def canonicalForm (commandId kind target : Str) (ttlSec : Int) (issuedAt : Str) : Bytes :=
  utf8 (commandId ++ '|' :: kind ++ '|' :: target ++ '|' :: itoa ttlSec ++ '|' :: issuedAt)

/-- `sign_command`. -/
def signCommand (secret commandId kind target : Str) (ttlSec : Int) (issuedAt : Str) : Str :=
  hexdigest (hmacSha256 (utf8 secret) (canonicalForm commandId kind target ttlSec issuedAt))

/-- The exception `hmac.compare_digest` raises on a `str` that is not ASCII. -/
inductive TypeError
  | nonAscii
  deriving DecidableEq, Repr

/-- `hmac.compare_digest` of two `str`. -/
def compareDigest (a b : Str) : Except TypeError Bool :=
  if a.all (fun c => c.toNat < 128) && b.all (fun c => c.toNat < 128) then .ok (a == b)
  else .error .nonAscii

/-- `verify_command`. -/
def verifyCommand (finalSigma : Str → Str → Bool) (secret commandId kind target : Str)
    (ttlSec : Int) (issuedAt hmacHex : Str) : Except TypeError Bool :=
  compareDigest (signCommand secret commandId kind target ttlSec issuedAt)
    (lower finalSigma hmacHex)

theorem compareDigest_hexdigest (bs : Bytes) :
    compareDigest (hexdigest bs) (hexdigest bs) = .ok true := by
  have hascii : (hexdigest bs).all (fun c => c.toNat < 128) = true := by
    rw [List.all_eq_true]
    intro c hc
    simpa using (hexAlphabet_ascii c (mem_hexdigest hc)).2
  rw [compareDigest, hascii]
  simp

/-- A freshly signed command verifies. -/
theorem verifyCommand_signCommand (finalSigma : Str → Str → Bool)
    (secret commandId kind target : Str) (ttlSec : Int) (issuedAt : Str) :
    verifyCommand finalSigma secret commandId kind target ttlSec issuedAt
      (signCommand secret commandId kind target ttlSec issuedAt) = .ok true := by
  unfold verifyCommand signCommand
  rw [lower_of_mem_hex finalSigma (fun c hc => mem_hexdigest hc)]
  exact compareDigest_hexdigest _

/-! ## The command frame -/

/-- The fields of `Settings`, and of the environment, that the dispatcher consults. -/
structure DispatchSettings where
  deploymentMode : Str
  allowDangerousTargets : Bool

/-- The frame dict; its `type` is always `"command"`. -/
structure CommandFrame where
  id : Str
  kind : Str
  target : Str
  ttlSec : Option Int
  issuedAt : Str
  hmac : Str
  deriving DecidableEq, Repr

/-- `action.ttl_sec or 0`. -/
def ttlOrZero (ttl : Option Int) : Int := ttl.getD 0

/-- `_build_command_frame` at the clock reading `now`. -/
def buildCommandFrame (settings : DispatchSettings) (action : Action) (host : Host)
    (now : UtcTime) : Option CommandFrame :=
  match host.secret with
  | none => none
  | some secret =>
    if secret = [] then none
    else if !isValidKind action.kind then none
    else match validateTarget settings.allowDangerousTargets action.kind action.target with
      | .error _ => none
      | .ok () => match validateModeAction settings.deploymentMode action.kind with
        | .error _ => none
        | .ok () => match kindOfName action.kind with
          | none => none
          | some kind =>
            if kind.requiresHostOptIn && !host.autoBlock then none
            else some {
              id := uuidStr action.id
              kind := action.kind
              target := action.target
              ttlSec := action.ttlSec
              issuedAt := now.issuedAt
              hmac := signCommand secret (uuidStr action.id) action.kind action.target
                (ttlOrZero action.ttlSec) now.issuedAt }

/-- What a frame says: the host has a secret, the kind is registered, the fields are the
action's, and the tag is the signature of exactly these fields. -/
theorem buildCommandFrame_spec {settings : DispatchSettings} {action : Action} {host : Host}
    {now : UtcTime} {frame : CommandFrame}
    (h : buildCommandFrame settings action host now = some frame) :
    ∃ (secret : Str) (kind : Kind), host.secret = some secret ∧ action.kind = kind.name ∧
      frame = {
        id := uuidStr action.id
        kind := kind.name
        target := action.target
        ttlSec := action.ttlSec
        issuedAt := now.issuedAt
        hmac := signCommand secret (uuidStr action.id) kind.name action.target
          (ttlOrZero action.ttlSec) now.issuedAt } := by
  unfold buildCommandFrame at h
  split at h
  · cases h
  · rename_i secret hsecret
    split at h
    · cases h
    · split at h
      · cases h
      · split at h
        · cases h
        · split at h
          · cases h
          · split at h
            · cases h
            · rename_i kind hkind
              split at h
              · cases h
              · have hname := kindOfName_some hkind
                refine ⟨secret, kind, hsecret, hname, ?_⟩
                rw [← Option.some.inj h, hname]

end ZaqorinCore.Server
