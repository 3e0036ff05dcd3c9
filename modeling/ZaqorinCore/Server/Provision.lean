import ZaqorinCore.Base.Script
import ZaqorinCore.Text.Decimal
import ZaqorinCore.Text.Pattern
import ZaqorinCore.Text.Shell

/-!
# The dry run of an agent's installation

The checks of `api/v1/agents_provision.py` on hosts, users and key ids, and the two `ssh` commands
that `post_provision_dry_run` shows. The words of the first are quoted once. The last word of the
second is quoted twice, so that no line it shows means what it should: `dry_run_never_means`.
-/

namespace ZaqorinCore.Server.Provision

open Text Base

structure HttpException where
  status : Nat
  detail : Str

/-! ## The checks -/

def hostChar (c : Char) : Bool := c.isAlphanum || "._-:".toList.contains c

/-- `_HOST_RE` -/
def hostPattern : List Repeat :=
  [⟨Char.isAlphanum, 1, 1⟩, ⟨hostChar, 0, 253⟩, ⟨Char.isAlphanum, 1, 1⟩]

def userStart (c : Char) : Bool := c.isAlpha || c == '_'

def userChar (c : Char) : Bool := c.isAlphanum || "_.-".toList.contains c

/-- `_USER_RE` -/
def userPattern : List Repeat := [⟨userStart, 1, 1⟩, ⟨userChar, 0, 63⟩]

def keyIdChar (c : Char) : Bool := c.isAlphanum || "_.-/+=@:,".toList.contains c

/-- `_KEY_ID_RE` -/
def keyIdPattern : List Repeat := [⟨keyIdChar, 1, 128⟩]

/-- The brackets of an IPv6 literal are taken off. -/
def hostCandidate (raw : Str) : Str :=
  if raw.head? = some '[' ∧ raw.getLast? = some ']' then raw.tail.dropLast else raw

/-- `_safe_host`; `repr` is Python's. -/
def safeHost (repr : Str → Str) (raw : Str) : Except HttpException Str :=
  if raw = [] ∨ 255 < raw.length then .error ⟨422, "host must be 1..255 chars".toList⟩
  else if matchesFrom hostPattern (hostCandidate raw) then .ok raw
  else .error ⟨422, "invalid host ".toList ++ repr raw ++
    ": must match [A-Za-z0-9][A-Za-z0-9._-:]\x7b0,253\x7d[A-Za-z0-9]".toList⟩

/-- `_safe_user` -/
def safeUser (repr : Str → Str) (raw : Str) : Except HttpException Str :=
  if matchesFrom userPattern raw then .ok raw
  else .error ⟨422, "invalid user ".toList ++ repr raw ++
    ": must match [A-Za-z_][A-Za-z0-9_.-]\x7b0,63\x7d".toList⟩

/-- `_safe_key_id` -/
def safeKeyId (repr : Str → Str) : Option Str → Except HttpException (Option Str)
  | none => .ok none
  | some raw =>
    if matchesFrom keyIdPattern raw then .ok (some raw)
    else .error ⟨422, "invalid ssh_key_id ".toList ++ repr raw⟩

theorem safeHost_eq_ok {repr : Str → Str} {raw host : Str} (h : safeHost repr raw = .ok host) :
    host = raw := by
  unfold safeHost at h
  split at h
  · cases h
  · split at h
    · cases h
      rfl
    · cases h

theorem safeUser_eq_ok {repr : Str → Str} {raw user : Str} :
    safeUser repr raw = .ok user ↔ user = raw ∧ matchesFrom userPattern raw = true := by
  unfold safeUser
  split
  · rename_i hmatch
    rw [and_iff_left hmatch]
    exact ⟨fun h => by cases h; rfl, fun h => by rw [h]⟩
  · rename_i hmatch
    refine iff_of_false (fun h => ?_) fun h => hmatch h.2
    cases h

theorem safeKeyId_eq_ok {repr : Str → Str} {raw keyId : Option Str} :
    safeKeyId repr raw = .ok keyId ↔
      keyId = raw ∧ ∀ key ∈ raw, matchesFrom keyIdPattern key = true := by
  cases raw with
  | none =>
    refine ⟨fun h => ?_, fun h => by rw [h.1]; rfl⟩
    cases h
    exact ⟨rfl, fun key h => by cases h⟩
  | some raw =>
    rw [safeKeyId]
    split
    · rename_i hmatch
      constructor
      · intro h
        cases h
        refine ⟨rfl, fun key h => ?_⟩
        cases h
        exact hmatch
      · intro h
        rw [h.1]
    · rename_i hmatch
      refine iff_of_false (fun h => ?_) fun h => hmatch (h.2 raw rfl)
      cases h

/-! ## The dry run -/

/-- A validated `DryRunIn`. -/
structure DryRunIn where
  host : Str
  port : Nat
  user : Str
  sshKeyId : Option Str
  host_valid : 1 ≤ host.length ∧ host.length ≤ 255
  port_valid : 1 ≤ port ∧ port ≤ 65535
  user_valid : 1 ≤ user.length ∧ user.length ≤ 64
  key_valid : ∀ key ∈ sshKeyId, key.length ≤ 128

structure DryRunOut where
  host : Str
  port : Nat
  user : Str
  installCommand : Str
  verifyCommand : Str
  notes : List Str

def sshArgs (host : Str) (port : Nat) (user : Str) (keyId : Option Str) : List Str :=
  ["ssh".toList] ++ (if port ≠ 22 then ["-p".toList, itoa port] else []) ++
    (match keyId with
    | none | some [] => []
    | some key => ["-i".toList, "~/.ssh/".toList ++ key]) ++
    ["-o".toList, "BatchMode=yes".toList, "-o".toList,
      "StrictHostKeyChecking=accept-new".toList, user ++ '@' :: host]

def heredoc : Str :=
  ("cat > /etc/zaqorin/agent.toml.dry-run <<\x27ZAQORIN_EOF\x27\n" ++
    "# dry-run: this file is NOT the real agent config\n" ++
    "server_url = \"wss://zaqorin.example.com:8443/api/v1/events\"\n" ++
    "log_level  = \"info\"\n" ++
    "ZAQORIN_EOF\n" ++
    "systemctl --no-pager status zaqorin-agent || true").toList

/-- The check that the second command runs. -/
def probe : Str :=
  "test -f /etc/zaqorin/agent.toml.dry-run && echo OK || echo MISSING".toList

def dryRunNotes (repr : Str → Str) (port : Nat) (keyId : Option Str) : List Str :=
  (if port ≠ 22 then
    ["non-default SSH port ".toList ++ itoa port ++ "; ensure sshd listens there".toList]
  else []) ++
    match keyId with
    | none | some [] => []
    | some key =>
      ["using local SSH key alias ".toList ++ repr key ++
        "; ensure it is loaded in your agent".toList]

def postProvisionDryRun (repr : Str → Str) (body : DryRunIn) : Except HttpException DryRunOut := do
  let host ← safeHost repr body.host
  let port := body.port
  let user ← safeUser repr body.user
  let keyId ← safeKeyId repr body.sshKeyId
  let args := sshArgs host port user keyId
  let install := joinWords (args.map shellQuote) ++ ' ' :: shellQuote heredoc
  -- the probe is quoted here, and again with the rest
  let verify := joinWords ((args ++ [shellQuote probe]).map shellQuote)
  .ok ⟨host, port, user, install, verify, dryRunNotes repr port keyId⟩

/-- The commands are read as the arguments of `ssh` and one remote script. -/
structure Means (body : DryRunIn) (out : DryRunOut) : Prop where
  install : shellSplit out.installCommand =
    some (sshArgs body.host body.port body.user body.sshKeyId ++ [heredoc])
  verify : shellSplit out.verifyCommand =
    some (sshArgs body.host body.port body.user body.sshKeyId ++ [probe])

theorem sshArgs_ne_nil (host : Str) (port : Nat) (user : Str) (keyId : Option Str) :
    sshArgs host port user keyId ≠ [] := by
  unfold sshArgs
  simp

/-- What the two commands are read as. -/
theorem commands_eq {repr : Str → Str} {body : DryRunIn} {out : DryRunOut}
    (h : postProvisionDryRun repr body = .ok out) :
    shellSplit out.installCommand =
        some (sshArgs body.host body.port body.user body.sshKeyId ++ [heredoc]) ∧
      shellSplit out.verifyCommand =
        some (sshArgs body.host body.port body.user body.sshKeyId ++ [shellQuote probe]) := by
  unfold postProvisionDryRun at h
  obtain ⟨host, hhost, h⟩ := bind_eq_ok.mp h
  obtain ⟨user, huser, h⟩ := bind_eq_ok.mp h
  obtain ⟨keyId, hkeyId, h⟩ := bind_eq_ok.mp h
  cases h
  rw [safeHost_eq_ok hhost, (safeUser_eq_ok.mp huser).1, (safeKeyId_eq_ok.mp hkeyId).1]
  have hargs := sshArgs_ne_nil body.host body.port body.user body.sshKeyId
  constructor
  · dsimp only
    rw [← joinWords_concat (fun hnil => hargs (List.map_eq_nil_iff.mp hnil)),
      ← List.map_singleton, ← List.map_append]
    exact shellSplit_join _
  · exact shellSplit_join _

theorem shellQuote_probe_ne : shellQuote probe ≠ probe := by decide

/-- The last word of the second command is the quoted probe. -/
theorem verify_ne {repr : Str → Str} {body : DryRunIn} {out : DryRunOut}
    (h : postProvisionDryRun repr body = .ok out) :
    shellSplit out.verifyCommand ≠
      some (sshArgs body.host body.port body.user body.sshKeyId ++ [probe]) := by
  rw [(commands_eq h).2]
  intro hsame
  have hlast := List.append_cancel_left (Option.some.inj hsame)
  exact shellQuote_probe_ne (List.cons.inj hlast).1

/-- No pair of commands means what it shows. -/
theorem dry_run_never_means (repr : Str → Str) (body : DryRunIn) (out : DryRunOut)
    (h : postProvisionDryRun repr body = .ok out) : ¬ Means body out :=
  fun hmeans => verify_ne h hmeans.verify

theorem example_host_valid :
    1 ≤ "example.com".toList.length ∧ "example.com".toList.length ≤ 255 := by
  decide

theorem ssh_port_valid : 1 ≤ 22 ∧ 22 ≤ 65535 := by decide

theorem root_user_valid : 1 ≤ "root".toList.length ∧ "root".toList.length ≤ 64 := by decide

theorem no_key_valid : ∀ key ∈ (none : Option Str), key.length ≤ 128 := by
  intro key h
  cases h

def exampleRun : DryRunIn :=
  ⟨"example.com".toList, 22, "root".toList, none, example_host_valid, ssh_port_valid,
    root_user_valid, no_key_valid⟩

theorem exampleRun_accepted (repr : Str → Str) :
    ∃ out, postProvisionDryRun repr exampleRun = .ok out := by
  have hhost : safeHost repr exampleRun.host = .ok exampleRun.host := rfl
  have huser : safeUser repr exampleRun.user = .ok exampleRun.user := rfl
  unfold postProvisionDryRun
  rw [hhost, huser]
  exact ⟨_, rfl⟩

theorem dry_run_example :
    ∃ out, postProvisionDryRun (fun s => s) exampleRun = .ok out ∧ ¬ Means exampleRun out := by
  obtain ⟨out, hout⟩ := exampleRun_accepted fun s => s
  exact ⟨out, hout, dry_run_never_means (fun s => s) exampleRun out hout⟩

theorem probe_quoted_twice :
    ¬ ∀ (body : DryRunIn) (out : DryRunOut),
      postProvisionDryRun (fun s => s) body = .ok out → Means body out := by
  intro h
  obtain ⟨out, hout⟩ := exampleRun_accepted fun s => s
  exact verify_ne hout (h exampleRun out hout).verify

end ZaqorinCore.Server.Provision
