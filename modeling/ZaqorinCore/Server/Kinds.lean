import ZaqorinCore.Text.Unicode

/-!
# Action kinds, targets and deployment modes

`action_kinds.py` and `deployment.py`: the nine kinds with the shape of their target and
their opt-in flag, the target validator, and the kinds each deployment mode enables. No
kind has the shapes `ipv4_cidr` and `user`, so the validator's branches for them are left
out.
-/

namespace ZaqorinCore.Server

open Text

/-- The keys of `KINDS`. -/
inductive Kind
  | blockIp
  | tarpitIp
  | canaryAlert
  | isolateHost
  | killProcess
  | quarantineFile
  | revokeSession
  | webhookSoar
  | evidenceCapture
  deriving DecidableEq, Repr

inductive TargetShape
  | ipv4
  | pid
  | path
  | session
  | url
  | host
  deriving DecidableEq, Repr

namespace Kind

def name : Kind → Str
  | blockIp => "block_ip".toList
  | tarpitIp => "tarpit_ip".toList
  | canaryAlert => "canary_alert".toList
  | isolateHost => "isolate_host".toList
  | killProcess => "kill_process".toList
  | quarantineFile => "quarantine_file".toList
  | revokeSession => "revoke_session".toList
  | webhookSoar => "webhook_soar".toList
  | evidenceCapture => "evidence_capture".toList

def targetShape : Kind → TargetShape
  | blockIp => .ipv4
  | tarpitIp => .ipv4
  | canaryAlert => .path
  | isolateHost => .host
  | killProcess => .pid
  | quarantineFile => .path
  | revokeSession => .session
  | webhookSoar => .url
  | evidenceCapture => .host

def requiresHostOptIn : Kind → Bool
  | canaryAlert => false
  | webhookSoar => false
  | evidenceCapture => false
  | _ => true

/-- `KINDS` in declaration order. -/
def all : List Kind :=
  [blockIp, tarpitIp, canaryAlert, isolateHost, killProcess, quarantineFile, revokeSession,
    webhookSoar, evidenceCapture]

/-- Only lowercase letters and underscores occur in the name of a kind. -/
theorem mem_name {k : Kind} {c : Char} (h : c ∈ k.name) :
    (97 ≤ c.toNat ∧ c.toNat ≤ 122) ∨ c = '_' := by
  have hall : k.name.all (fun c => (97 ≤ c.toNat && c.toNat ≤ 122) || c == '_') = true := by
    cases k <;> decide
  have := List.all_eq_true.mp hall c h
  simpa using this

end Kind

/-- `KINDS.get(name)`. -/
def kindOfName (name : Str) : Option Kind := Kind.all.find? fun k => k.name == name

def isValidKind (name : Str) : Bool := (kindOfName name).isSome

theorem kindOfName_some {name : Str} {k : Kind} (h : kindOfName name = some k) : name = k.name := by
  have := List.find?_some h
  simpa using (beq_iff_eq.mp this).symm

/-! ## Targets -/

/-- The reasons of the `ValueError`s of `validate_target`, with what their texts quote. -/
inductive TargetError
  | unknownKind (name : Str)
  | notFourParts (target : Str)
  | nonNumericOctet (target part : Str)
  | octetOutOfRange (target : Str) (octet : Int)
  | unspecified
  | broadcast
  | denied (label cidr : Str)
  | nonNumericPid (target : Str)
  | pidNotPositive (target : Str)
  | notAbsolute (target : Str)
  | empty (kind : Str)
  deriving DecidableEq, Repr

def parseOctet (target part : Str) : Except TargetError Nat :=
  match pyInt part with
  | none => .error (.nonNumericOctet target part)
  | some n => if 0 ≤ n ∧ n ≤ 255 then .ok n.toNat else .error (.octetOutOfRange target n)

/-- `_parse_ipv4`: the parts are read in order and the first bad one is reported. -/
def parseIpv4 (target : Str) : Except TargetError (Nat × Nat × Nat × Nat) :=
  match target.splitOn '.' with
  | [p₁, p₂, p₃, p₄] => do
    let o₁ ← parseOctet target p₁
    let o₂ ← parseOctet target p₂
    let o₃ ← parseOctet target p₃
    let o₄ ← parseOctet target p₄
    return (o₁, o₂, o₃, o₄)
  | _ => .error (.notFourParts target)

/-- `_ip_to_int`. -/
def ipToInt (o₁ o₂ o₃ o₄ : Nat) : Nat := o₁ <<< 24 ||| o₂ <<< 16 ||| o₃ <<< 8 ||| o₄

/-- `_DENY_RANGES`. -/
def denyRanges : List (String × String × Nat × Nat) :=
  [("loopback", "127.0.0.0/8", ipToInt 127 0 0 0, ipToInt 127 255 255 255),
    ("multicast", "224.0.0.0/4", ipToInt 224 0 0 0, ipToInt 239 255 255 255)]

/-- `_check_dangerous_single`; `allow` is the operator's override in the environment. -/
def checkDangerousSingle (allow : Bool) (addr : Nat) : Except TargetError Unit :=
  if allow then .ok ()
  else if addr = 0 then .error .unspecified
  else if addr = ipToInt 255 255 255 255 then .error .broadcast
  else
    match denyRanges.find? fun r => r.2.2.1 ≤ addr && addr ≤ r.2.2.2 with
    | some (label, cidr, _, _) => .error (.denied label.toList cidr.toList)
    | none => .ok ()

/-- `validate_target`. -/
def validateTarget (allow : Bool) (kindName target : Str) : Except TargetError Unit :=
  match kindOfName kindName with
  | none => .error (.unknownKind kindName)
  | some kind =>
    match kind.targetShape with
    | .ipv4 => do
      let (o₁, o₂, o₃, o₄) ← parseIpv4 target
      checkDangerousSingle allow (ipToInt o₁ o₂ o₃ o₄)
    | .pid =>
      match pyInt target with
      | none => .error (.nonNumericPid target)
      | some n => if n ≤ 0 then .error (.pidNotPositive target) else .ok ()
    | .path => if target.head? = some '/' then .ok () else .error (.notAbsolute target)
    | .session | .url | .host => if target = [] then .error (.empty kindName) else .ok ()

/-! ## Deployment modes -/

inductive Mode
  | individual
  | startup
  | enterprise
  deriving DecidableEq, Repr

namespace Mode

def name : Mode → Str
  | individual => "individual".toList
  | startup => "startup".toList
  | enterprise => "enterprise".toList

/-- `ModeProfile.action_kinds`. -/
def actionKinds : Mode → List Kind
  | individual => [.blockIp, .canaryAlert, .evidenceCapture]
  | startup => [.blockIp, .tarpitIp, .canaryAlert, .isolateHost, .killProcess, .quarantineFile,
      .webhookSoar, .evidenceCapture]
  | enterprise => [.blockIp, .tarpitIp, .canaryAlert, .isolateHost, .killProcess,
      .quarantineFile, .revokeSession, .webhookSoar, .evidenceCapture]

end Mode

/-- The reasons of the `ValueError`s of `get_profile` and `validate_mode_action`. -/
inductive ModeError
  | unknownMode (mode : Str)
  | notEnabled (kind mode : Str)
  deriving DecidableEq, Repr

/-- `get_profile`. -/
def getProfile (mode : Str) : Except ModeError Mode :=
  match [Mode.individual, .startup, .enterprise].find? fun m => m.name == mode with
  | some m => .ok m
  | none => .error (.unknownMode mode)

/-- `validate_mode_action`. -/
def validateModeAction (mode kindName : Str) : Except ModeError Unit := do
  let profile ← getProfile mode
  if (profile.actionKinds.map Kind.name).contains kindName then .ok ()
  else .error (.notEnabled kindName mode)

end ZaqorinCore.Server
