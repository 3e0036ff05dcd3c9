import ZaqorinCore.Text.Sha256
import ZaqorinCore.Text.Time
import ZaqorinCore.Text.Unicode

/-!
# Commands on the agent

`crypto.go` and the part of `Handler.Handle` in `response.go` that decides whether a command
is admitted: everything up to the call of `reserveCommand`. A Go `int` is an `Int` here; no
check depends on its width.
-/

namespace ZaqorinCore.Agent

open Text

/-! ## Signatures -/

/-- `crypto.Canonical`. -/
def canonical (commandID kind target : Bytes) (ttlSec : Int) (issuedAt : Bytes) : Bytes :=
  List.intercalate (lit "|") [commandID, kind, target, utf8 (itoa ttlSec), issuedAt]

/-- `crypto.Sign`, as the bytes of the hexadecimal text. -/
def sign (secret commandID kind target : Bytes) (ttlSec : Int) (issuedAt : Bytes) : Bytes :=
  utf8 (hexdigest (hmacSha256 secret (canonical commandID kind target ttlSec issuedAt)))

/-- `crypto.Verify`. -/
def verify (secret commandID kind target : Bytes) (ttlSec : Int) (issuedAt hexSig : Bytes) : Bool :=
  match decodeString (toLower hexSig) with
  | none => false
  | some got =>
    match decodeString (sign secret commandID kind target ttlSec issuedAt) with
    | none => false
    | some exp => got == exp

/-- The separator as a byte. -/
def pipe : UInt8 := 0x7C

theorem canonical_eq (commandID kind target : Bytes) (ttlSec : Int) (issuedAt : Bytes) :
    canonical commandID kind target ttlSec issuedAt =
      commandID ++ pipe :: (kind ++ pipe :: (target ++ pipe :: (utf8 (itoa ttlSec) ++
        pipe :: issuedAt))) := by
  have hsep : lit "|" = [pipe] := by decide
  simp [canonical, hsep, List.intercalate]

theorem verify_eq (secret commandID kind target : Bytes) (ttlSec : Int) (issuedAt hexSig : Bytes) :
    verify secret commandID kind target ttlSec issuedAt hexSig = true ↔
      decodeString (toLower hexSig) =
        some (hmacSha256 secret (canonical commandID kind target ttlSec issuedAt)) := by
  unfold verify sign
  rw [decodeString_hexdigest]
  cases decodeString (toLower hexSig) with
  | none => simp
  | some got => simp

/-- Only the canonical bytes enter a verification. -/
theorem verify_hexdigest (secret commandID kind target : Bytes) (ttlSec : Int)
    (issuedAt : Bytes) :
    verify secret commandID kind target ttlSec issuedAt
      (utf8 (hexdigest (hmacSha256 secret (canonical commandID kind target ttlSec issuedAt)))) =
        true := by
  rw [verify_eq, toLower_hexdigest, decodeString_hexdigest]

/-! ## Admission -/

/-- `response.Command`. -/
structure Command where
  id : Bytes
  kind : Bytes
  target : Bytes
  ttlSec : Int
  issuedAt : Bytes
  hmac : Bytes
  deriving DecidableEq

/-- The `Allow*` switches of the agent's `Response` configuration. -/
structure ResponseConfig where
  allowBlockIP : Bool
  allowTarpitIP : Bool
  allowKillProcess : Bool
  allowCanaryAlert : Bool
  allowIsolateHost : Bool
  allowQuarantineFile : Bool
  allowRevokeSession : Bool
  allowWebhookSOAR : Bool
  allowEvidenceCapture : Bool

/-- `commandAllowed`. -/
def commandAllowed (cfg : ResponseConfig) (kind : Bytes) : Bool :=
  if kind = lit "block_ip" then cfg.allowBlockIP
  else if kind = lit "tarpit_ip" then cfg.allowTarpitIP
  else if kind = lit "kill_process" then cfg.allowKillProcess
  else if kind = lit "canary_alert" then cfg.allowCanaryAlert
  else if kind = lit "isolate_host" then cfg.allowIsolateHost
  else if kind = lit "quarantine_file" then cfg.allowQuarantineFile
  else if kind = lit "revoke_session" then cfg.allowRevokeSession
  else if kind = lit "webhook_soar" then cfg.allowWebhookSOAR
  else if kind = lit "evidence_capture" then cfg.allowEvidenceCapture
  else false

/-- The errors of `Handle` before `reserveCommand`. -/
inductive Refusal
  | noSecret
  | missingIdOrKind
  | invalidIssuedAt
  | expired
  | badHmac
  | disabled (kind : Bytes)
  deriving DecidableEq

/-- `maxCommandClockSkew` in nanoseconds. -/
def maxCommandClockSkew : Int := 5 * 60 * 1000000000

/-- `Handle` up to and including `crypto.Verify`, with the secret it holds after trying to
load one and the clock reading `now`. -/
def checkCommand (secret : Option Bytes) (now : Int) (cmd : Command) : Except Refusal Unit :=
  match secret with
  | none => .error .noSecret
  | some secret =>
    if trimSpace cmd.id = [] ∨ trimSpace cmd.kind = [] then .error .missingIdOrKind
    else match parseRFC3339 cmd.issuedAt with
      | none => .error .invalidIssuedAt
      | some issued =>
        if issued < now - maxCommandClockSkew ∨ now + maxCommandClockSkew < issued then
          .error .expired
        else if !verify secret cmd.id cmd.kind cmd.target cmd.ttlSec cmd.issuedAt cmd.hmac then
          .error .badHmac
        else .ok ()

/-- `Handle` up to the call of `reserveCommand`. -/
def admitCommand (cfg : ResponseConfig) (secret : Option Bytes) (now : Int) (cmd : Command) :
    Except Refusal Unit := do
  checkCommand secret now cmd
  if commandAllowed cfg cmd.kind then .ok () else .error (.disabled cmd.kind)

/-- What passing `crypto.Verify` says about a command. -/
theorem checkCommand_ok_iff {secret : Bytes} {now : Int} {cmd : Command} :
    checkCommand (some secret) now cmd = .ok () ↔
      trimSpace cmd.id ≠ [] ∧ trimSpace cmd.kind ≠ [] ∧
        (∃ issued, parseRFC3339 cmd.issuedAt = some issued ∧
          now - maxCommandClockSkew ≤ issued ∧ issued ≤ now + maxCommandClockSkew) ∧
        verify secret cmd.id cmd.kind cmd.target cmd.ttlSec cmd.issuedAt cmd.hmac = true := by
  unfold checkCommand
  dsimp only
  by_cases hblank : trimSpace cmd.id = [] ∨ trimSpace cmd.kind = []
  · rw [if_pos hblank]
    constructor
    · intro h
      cases h
    · rintro ⟨hid, hkind, -⟩
      rcases hblank with h | h
      · exact absurd h hid
      · exact absurd h hkind
  · rw [if_neg hblank]
    rw [not_or] at hblank
    cases hparse : parseRFC3339 cmd.issuedAt with
    | none => simp
    | some issued =>
      by_cases hskew : issued < now - maxCommandClockSkew ∨ now + maxCommandClockSkew < issued
      · simp only [if_pos hskew]
        constructor
        · intro h
          cases h
        · rintro ⟨-, -, ⟨t, ht, hlo, hhi⟩, -⟩
          cases ht
          omega
      · simp only [if_neg hskew]
        rw [not_or] at hskew
        cases hv : verify secret cmd.id cmd.kind cmd.target cmd.ttlSec cmd.issuedAt cmd.hmac with
        | false => simp
        | true =>
          simp only [Bool.not_true, Bool.false_eq_true, if_false, and_true, true_iff]
          exact ⟨hblank.1, hblank.2, issued, rfl, by omega, by omega⟩

end ZaqorinCore.Agent
