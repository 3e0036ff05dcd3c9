import ZaqorinCore.Server.Command
import ZaqorinCore.Agent.Command

/-!
# Signed commands across the wire

The server signs in Python, the agent verifies in Go. The two canonical forms agree on every
frame the dispatcher builds (`received_verifies`), so what is signed is accepted. The converse
is about the separator: the canonical form of a frame determines its five fields exactly when
the target is free of it, and so does the authenticity of what the agent admits
(`authentic_iff_no_pipe_in_targets`).
-/

namespace ZaqorinCore.Protocol

open Text Server

/-! ## Transmission -/

/-- The command the agent decodes from a frame: JSON carries every text and integer over
unchanged, and a `null` leaves `TTLSec` at zero. -/
def receivedCommand (frame : CommandFrame) : Agent.Command where
  id := utf8 frame.id
  kind := utf8 frame.kind
  target := utf8 frame.target
  ttlSec := ttlOrZero frame.ttlSec
  issuedAt := utf8 frame.issuedAt
  hmac := utf8 frame.hmac

/-- `canonical_form` of the fields of a frame. -/
def frameCanonical (frame : CommandFrame) : Bytes :=
  canonicalForm frame.id frame.kind frame.target (ttlOrZero frame.ttlSec) frame.issuedAt

/-- `crypto.Canonical` of the fields of a command. -/
def commandCanonical (cmd : Agent.Command) : Bytes :=
  Agent.canonical cmd.id cmd.kind cmd.target cmd.ttlSec cmd.issuedAt

/-- `crypto.Verify` of the fields of a command. -/
def commandVerifies (secret : Str) (cmd : Agent.Command) : Bool :=
  Agent.verify (utf8 secret) cmd.id cmd.kind cmd.target cmd.ttlSec cmd.issuedAt cmd.hmac

theorem utf8_pipe_cons (s : Str) : utf8 ('|' :: s) = Agent.pipe :: utf8 s := rfl

/-- Both languages compute the same bytes from corresponding fields. -/
theorem canonical_utf8 (id kind target : Str) (ttlSec : Int) (issuedAt : Str) :
    Agent.canonical (utf8 id) (utf8 kind) (utf8 target) ttlSec (utf8 issuedAt) =
      canonicalForm id kind target ttlSec issuedAt := by
  rw [Agent.canonical_eq]
  unfold canonicalForm
  simp only [utf8_append, utf8_pipe_cons, List.append_assoc, List.cons_append]

theorem commandCanonical_received (frame : CommandFrame) :
    commandCanonical (receivedCommand frame) = frameCanonical frame :=
  canonical_utf8 _ _ _ _ _

/-- The tag of a built frame is the HMAC of its canonical form. -/
theorem buildCommandFrame_hmac {settings : DispatchSettings} {action : Action} {host : Host}
    {now : UtcTime} {frame : CommandFrame} {secret : Str} (hsecret : host.secret = some secret)
    (h : buildCommandFrame settings action host now = some frame) :
    frame.hmac = hexdigest (hmacSha256 (utf8 secret) (frameCanonical frame)) := by
  obtain ⟨secret', kind, hsecret', -, rfl⟩ := buildCommandFrame_spec h
  rw [hsecret] at hsecret'
  cases hsecret'
  rfl

/-- **What the dispatcher signs verifies on both sides.** -/
theorem received_verifies (finalSigma : Str → Str → Bool) (settings : DispatchSettings)
    (action : Action) (host : Host) (now : UtcTime) (frame : CommandFrame) (secret : Str)
    (hsecret : host.secret = some secret)
    (h : buildCommandFrame settings action host now = some frame) :
    commandCanonical (receivedCommand frame) = frameCanonical frame ∧
      commandVerifies secret (receivedCommand frame) = true ∧
      verifyCommand finalSigma secret frame.id frame.kind frame.target (ttlOrZero frame.ttlSec)
        frame.issuedAt frame.hmac = .ok true := by
  have hhmac := buildCommandFrame_hmac hsecret h
  refine ⟨commandCanonical_received frame, ?_, ?_⟩
  · have hverify := Agent.verify_hexdigest (utf8 secret) (utf8 frame.id) (utf8 frame.kind)
      (utf8 frame.target) (ttlOrZero frame.ttlSec) (utf8 frame.issuedAt)
    rw [canonical_utf8, ← frameCanonical, ← hhmac] at hverify
    exact hverify
  · rw [hhmac]
    exact verifyCommand_signCommand finalSigma secret frame.id frame.kind frame.target
      (ttlOrZero frame.ttlSec) frame.issuedAt

/-! ## What the separator leaves open -/

theorem pipe_eq : Agent.pipe = UInt8.ofNat '|'.toNat := by decide

theorem pipe_mem_utf8 {s : Str} : Agent.pipe ∈ utf8 s ↔ '|' ∈ s := by
  rw [pipe_eq]
  exact mem_utf8_iff (by decide)

theorem pipe_not_mem_uuidStr (u : Uuid) : '|' ∉ uuidStr u := by
  intro h
  rcases mem_uuidStr h with h | h
  · revert h
    simp [hexAlphabet]
  · revert h
    decide

theorem pipe_not_mem_name (kind : Kind) : '|' ∉ kind.name := by
  intro h
  rcases Kind.mem_name h with h | h
  · revert h
    decide
  · revert h
    decide

theorem pipe_not_mem_itoa (n : Int) : '|' ∉ itoa n := by
  intro h
  have := mem_itoa_toNat h
  revert this
  decide

theorem pipe_foreign : Foreign Agent.pipe :=
  ⟨by decide, by decide⟩

/-- The corresponding fields of a command and a frame. -/
def SameFields (cmd : Agent.Command) (frame : CommandFrame) : Prop :=
  cmd.id = utf8 frame.id ∧ cmd.kind = utf8 frame.kind ∧ cmd.target = utf8 frame.target ∧
    cmd.ttlSec = ttlOrZero frame.ttlSec ∧ cmd.issuedAt = utf8 frame.issuedAt

/-- `signed` is a set of frames the dispatcher built for hosts that hold `secret`. -/
def SignedUnder (secret : Str) (signed : Set CommandFrame) : Prop :=
  ∀ frame ∈ signed, ∃ settings action host now,
    host.secret = some secret ∧ buildCommandFrame settings action host now = some frame

/-- HMAC-SHA256 is unforgeable for what is on the wire: a tag verifies only for bytes that the
server signed. -/
def Unforgeable (secret : Str) (signed : Set CommandFrame) (wire : Set Agent.Command) : Prop :=
  ∀ cmd ∈ wire, commandVerifies secret cmd = true →
    ∃ frame ∈ signed, commandCanonical cmd = frameCanonical frame

/-- Whatever the agent admits past `crypto.Verify`, at any time, is one of the signed commands. -/
def Authentic (secret : Str) (signed : Set CommandFrame) (wire : Set Agent.Command) : Prop :=
  ∀ cmd ∈ wire, ∀ now, Agent.checkCommand (some (utf8 secret)) now cmd = .ok () →
    ∃ frame ∈ signed, SameFields cmd frame

/-- A frame whose target has no separator is the only split of its canonical form with a
readable time: the numeral and the time are cut off from the right, and three fields free of
the separator are left. -/
theorem sameFields_of_canonical {cmd : Agent.Command} {frame : CommandFrame} {issued : Int}
    (hid : '|' ∉ frame.id) (hkind : '|' ∉ frame.kind) (htarget : '|' ∉ frame.target)
    (hissued : '|' ∉ frame.issuedAt) (htime : parseRFC3339 cmd.issuedAt = some issued)
    (h : commandCanonical cmd = frameCanonical frame) : SameFields cmd frame := by
  rw [← commandCanonical_received] at h
  unfold commandCanonical receivedCommand at h
  rw [Agent.canonical_eq, Agent.canonical_eq] at h
  simp only [← List.cons_append, ← List.append_assoc] at h
  obtain ⟨h, htimes⟩ := cut_last (not_mem_of_parseRFC3339 pipe_foreign htime)
    (fun hm => hissued (pipe_mem_utf8.mp hm)) h
  obtain ⟨h, httl⟩ := cut_last (fun hm => pipe_not_mem_itoa _ (pipe_mem_utf8.mp hm))
    (fun hm => pipe_not_mem_itoa _ (pipe_mem_utf8.mp hm)) h
  simp only [List.append_assoc, List.cons_append] at h
  obtain ⟨hids, hkinds, htargets⟩ := cut_three (fun hm => hid (pipe_mem_utf8.mp hm))
    (fun hm => hkind (pipe_mem_utf8.mp hm)) (fun hm => htarget (pipe_mem_utf8.mp hm)) h
  exact ⟨hids, hkinds, htargets, utf8_itoa_injective httl, htimes⟩

theorem buildCommandFrame_fields {settings : DispatchSettings} {action : Action} {host : Host}
    {now : UtcTime} {frame : CommandFrame}
    (h : buildCommandFrame settings action host now = some frame) :
    ∃ kind : Kind, frame.id = uuidStr action.id ∧ frame.kind = kind.name ∧
      frame.target = action.target ∧ frame.ttlSec = action.ttlSec ∧
      frame.issuedAt = now.issuedAt := by
  obtain ⟨secret, kind, -, -, rfl⟩ := buildCommandFrame_spec h
  exact ⟨kind, rfl, rfl, rfl, rfl, rfl⟩

/-- A built frame has no separator outside its target. -/
theorem pipe_free_of_build {settings : DispatchSettings} {action : Action} {host : Host}
    {now : UtcTime} {frame : CommandFrame}
    (h : buildCommandFrame settings action host now = some frame) :
    '|' ∉ frame.id ∧ '|' ∉ frame.kind ∧ '|' ∉ frame.issuedAt := by
  obtain ⟨kind, hid, hkind, -, -, hissued⟩ := buildCommandFrame_fields h
  rw [hid, hkind, hissued]
  refine ⟨pipe_not_mem_uuidStr _, pipe_not_mem_name _, ?_⟩
  intro hm
  exact not_mem_of_parseRFC3339 pipe_foreign (parseRFC3339_issuedAt now) (pipe_mem_utf8.mpr hm)

/-- A command with the canonical bytes and the tag of a built frame verifies, however these
bytes are split into fields. -/
theorem commandVerifies_of_canonical {settings : DispatchSettings} {action : Action}
    {host : Host} {now : UtcTime} {frame : CommandFrame} {secret : Str} {cmd : Agent.Command}
    (hsecret : host.secret = some secret)
    (h : buildCommandFrame settings action host now = some frame)
    (hcanonical : commandCanonical cmd = frameCanonical frame)
    (hhmac : cmd.hmac = utf8 frame.hmac) : commandVerifies secret cmd = true := by
  have hverify := Agent.verify_hexdigest (utf8 secret) cmd.id cmd.kind cmd.target cmd.ttlSec
    cmd.issuedAt
  rw [← commandCanonical, hcanonical, ← buildCommandFrame_hmac hsecret h, ← hhmac] at hverify
  exact hverify

/-- The frame with its target cut at a separator and the first part moved into the kind. -/
def resplit (frame : CommandFrame) (before after : Str) : Agent.Command :=
  { receivedCommand frame with
    kind := utf8 (frame.kind ++ '|' :: before)
    target := utf8 after }

theorem commandCanonical_resplit {frame : CommandFrame} {before after : Str}
    (htarget : frame.target = before ++ '|' :: after) :
    commandCanonical (resplit frame before after) = frameCanonical frame := by
  unfold commandCanonical resplit receivedCommand frameCanonical
  rw [canonical_utf8, htarget]
  unfold canonicalForm
  simp only [List.append_assoc, List.cons_append]

theorem trimSpace_utf8_cons {c : Char} (hc : c.toNat < 128) (hs : goSpace c.toNat = false)
    (s : Str) : trimSpace (utf8 (c :: s)) ≠ [] := by
  have hbyte : (UInt8.ofNat c.toNat).toNat = c.toNat := toNat_ofNat_byte (by omega)
  have hutf8 : utf8 (c :: s) = UInt8.ofNat c.toNat :: utf8 s := by
    rw [utf8_cons, ← List.append_nil (String.utf8EncodeChar c), ← utf8_nil, ← utf8_cons,
      utf8_of_ascii (s := [c]) (by simpa using hc)]
    rfl
  rw [hutf8]
  exact trimSpace_ne_nil (by omega) (by rw [hbyte]; exact hs) _

theorem trimSpace_name_append (kind : Kind) (s : Str) : trimSpace (utf8 (kind.name ++ s)) ≠ [] := by
  cases kind <;> exact trimSpace_utf8_cons (by decide) (by decide) _

theorem trimSpace_uuidStr_append (u : Uuid) (s : Str) : trimSpace (utf8 (uuidStr u ++ s)) ≠ [] := by
  obtain ⟨c, hc, rest, hu⟩ := uuidStr_cons u
  have hspace : hexAlphabet.all (fun c => c.toNat < 128 && !goSpace c.toNat) = true := by decide
  have := List.all_eq_true.mp hspace c hc
  rw [Bool.and_eq_true, decide_eq_true_eq, Bool.not_eq_true'] at this
  rw [hu]
  exact trimSpace_utf8_cons this.1 this.2 (rest ++ s)

/-- Another split of a built frame passes every check of `Handle` up to `crypto.Verify` at the
moment the frame was issued, provided its id and kind begin as the server's do. -/
theorem checkCommand_of_canonical {settings : DispatchSettings} {action : Action} {host : Host}
    {now : UtcTime} {frame : CommandFrame} {secret : Str} {cmd : Agent.Command}
    (idRest : Str) (kind : Kind) (kindRest : Str) (hsecret : host.secret = some secret)
    (h : buildCommandFrame settings action host now = some frame)
    (hcanonical : commandCanonical cmd = frameCanonical frame)
    (hhmac : cmd.hmac = utf8 frame.hmac) (hid : cmd.id = utf8 (uuidStr action.id ++ idRest))
    (hkind : cmd.kind = utf8 (kind.name ++ kindRest))
    (hissued : cmd.issuedAt = utf8 frame.issuedAt) :
    Agent.checkCommand (some (utf8 secret)) now.instant cmd = .ok () := by
  have hverify := commandVerifies_of_canonical hsecret h hcanonical hhmac
  obtain ⟨-, -, -, -, -, htime⟩ := buildCommandFrame_fields h
  rw [Agent.checkCommand_ok_iff]
  refine ⟨?_, ?_, ⟨now.instant, ?_, ?_, ?_⟩, hverify⟩
  · rw [hid]
    exact trimSpace_uuidStr_append action.id idRest
  · rw [hkind]
    exact trimSpace_name_append kind kindRest
  · rw [hissued, htime]
    exact parseRFC3339_issuedAt now
  · unfold Agent.maxCommandClockSkew
    omega
  · unfold Agent.maxCommandClockSkew
    omega

theorem checkCommand_resplit {settings : DispatchSettings} {action : Action} {host : Host}
    {now : UtcTime} {frame : CommandFrame} {secret before after : Str}
    (hsecret : host.secret = some secret)
    (h : buildCommandFrame settings action host now = some frame)
    (htarget : frame.target = before ++ '|' :: after) :
    Agent.checkCommand (some (utf8 secret)) now.instant (resplit frame before after) =
      .ok () := by
  obtain ⟨kind, hid, hkind, -, -, -⟩ := buildCommandFrame_fields h
  refine checkCommand_of_canonical [] kind ('|' :: before) hsecret h
    (commandCanonical_resplit htarget) rfl ?_ ?_ rfl
  · rw [List.append_nil, ← hid]
    rfl
  · rw [← hkind]
    rfl

/-- **Authenticity and the separator.** Unforgeability makes every admitted command one of the
signed ones exactly when no signed target contains the separator. -/
theorem authentic_iff_no_pipe_in_targets (secret : Str) (signed : Set CommandFrame)
    (hsigned : SignedUnder secret signed) :
    (∀ wire, Unforgeable secret signed wire → Authentic secret signed wire) ↔
      ∀ frame ∈ signed, '|' ∉ frame.target := by
  constructor
  · intro hauth frame hframe hpipe
    obtain ⟨before, after, htarget⟩ := List.append_of_mem hpipe
    obtain ⟨settings, action, host, now, hsecret, hbuild⟩ := hsigned frame hframe
    -- the attacker sends this one frame, split at the separator of its target
    have hunforged : Unforgeable secret signed {resplit frame before after} := by
      rintro cmd rfl -
      exact ⟨frame, hframe, commandCanonical_resplit htarget⟩
    obtain ⟨other, hother, -, hkind, -⟩ := hauth _ hunforged _ rfl now.instant
      (checkCommand_resplit hsecret hbuild htarget)
    obtain ⟨_, _, _, _, -, hbuild'⟩ := hsigned other hother
    refine (pipe_free_of_build hbuild').2.1 (pipe_mem_utf8.mp ?_)
    rw [← hkind]
    exact pipe_mem_utf8.mpr (by simp)
  · intro hfree wire hunforged cmd hcmd now hcheck
    obtain ⟨-, -, ⟨issued, htime, -⟩, hverify⟩ := Agent.checkCommand_ok_iff.mp hcheck
    obtain ⟨frame, hframe, hcanonical⟩ := hunforged cmd hcmd hverify
    obtain ⟨_, _, _, _, -, hbuild⟩ := hsigned frame hframe
    obtain ⟨hid, hkind, hissued⟩ := pipe_free_of_build hbuild
    exact ⟨frame, hframe, sameFields_of_canonical hid hkind (hfree frame hframe) hissued htime
      hcanonical⟩

/-! ## A canary that becomes a block -/

def canaryAction (target : Str) : Action where
  id := 0x0123456789abcdef0123456789abcdef#128
  hostId := some 7#128
  kind := Kind.canaryAlert.name
  target := target
  ttlSec := none
  status := .pending
  sentAt := none
  ackedAt := none
  createdAt := 0

def canaryHost : Host where
  id := 7#128
  secret := some "host-secret".toList
  autoBlock := true

def canarySettings : DispatchSettings where
  deploymentMode := Mode.startup.name
  allowDangerousTargets := false

def canaryFrame (target : Str) : CommandFrame where
  id := uuidStr (canaryAction target).id
  kind := Kind.canaryAlert.name
  target := target
  ttlSec := none
  issuedAt := UtcTime.sample.issuedAt
  hmac := signCommand "host-secret".toList (uuidStr (canaryAction target).id)
    Kind.canaryAlert.name target 0 UtcTime.sample.issuedAt

theorem canaryFrame_built (path : Str) :
    buildCommandFrame canarySettings (canaryAction ('/' :: path)) canaryHost UtcTime.sample =
      some (canaryFrame ('/' :: path)) := rfl

theorem signedUnder_canaryFrame (path : Str) :
    SignedUnder "host-secret".toList {canaryFrame ('/' :: path)} := by
  rintro frame rfl
  exact ⟨_, _, _, _, rfl, canaryFrame_built path⟩

theorem received_verifies_canary :
    commandVerifies "host-secret".toList (receivedCommand (canaryFrame "/etc/☃|x".toList)) =
      true :=
  (received_verifies (fun _ _ => false) canarySettings _ canaryHost UtcTime.sample _ _ rfl
    (canaryFrame_built "etc/☃|x".toList)).2.1

theorem authentic_canary :
    SignedUnder "host-secret".toList {canaryFrame "/etc/canary".toList} ∧
      ∀ wire, Unforgeable "host-secret".toList {canaryFrame "/etc/canary".toList} wire →
        Authentic "host-secret".toList {canaryFrame "/etc/canary".toList} wire := by
  have hsigned := signedUnder_canaryFrame "etc/canary".toList
  refine ⟨hsigned, (authentic_iff_no_pipe_in_targets _ _ hsigned).mpr ?_⟩
  rintro frame rfl
  decide

/-- The target of the signed canary command. -/
def canaryTarget : Str := '/' :: "x|block_ip|203.0.113.7".toList

/-- The same bytes read as a command to block an address. -/
def blockCommand : Agent.Command where
  id := utf8 (uuidStr (canaryAction canaryTarget).id ++ "|canary_alert|/x".toList)
  kind := lit "block_ip"
  target := lit "203.0.113.7"
  ttlSec := 0
  issuedAt := utf8 UtcTime.sample.issuedAt
  hmac := utf8 (canaryFrame canaryTarget).hmac

theorem commandCanonical_blockCommand :
    commandCanonical blockCommand = frameCanonical (canaryFrame canaryTarget) := by
  decide +kernel

/-- The agent admits a block of an address although the server signed a canary alert only. -/
theorem blockCommand_not_authentic :
    SignedUnder "host-secret".toList {canaryFrame canaryTarget} ∧
      Unforgeable "host-secret".toList {canaryFrame canaryTarget} {blockCommand} ∧
      ¬ Authentic "host-secret".toList {canaryFrame canaryTarget} {blockCommand} := by
  have hbuilt : buildCommandFrame canarySettings (canaryAction canaryTarget) canaryHost
      UtcTime.sample = some (canaryFrame canaryTarget) := canaryFrame_built _
  have hsigned : SignedUnder "host-secret".toList {canaryFrame canaryTarget} :=
    signedUnder_canaryFrame _
  refine ⟨hsigned, ?_, ?_⟩
  · rintro cmd rfl -
    exact ⟨_, rfl, commandCanonical_blockCommand⟩
  · intro hauth
    have hcheck := checkCommand_of_canonical "|canary_alert|/x".toList .blockIp [] rfl hbuilt
      commandCanonical_blockCommand (by simp only [blockCommand]) (by simp only [blockCommand])
      rfl (by simp only [blockCommand, canaryFrame])
    obtain ⟨frame, rfl, -, hkind, -⟩ := hauth _ rfl _ hcheck
    revert hkind
    decide

end ZaqorinCore.Protocol
