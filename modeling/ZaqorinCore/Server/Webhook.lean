import ZaqorinCore.Server.Value
import ZaqorinCore.Text.Url

/-!
# The SSRF guard of webhooks

`validate_webhook_url` of the generic webhook backend: the host of the URL, the allow-list, and the
test of every address that the host is or resolves to against a list of networks. The module's
contract is about ranges of addresses, and an address of one family can stand for one of the other.
`guards_iff` says for which URLs and resolver answers the list decides as the contract does.
-/

namespace ZaqorinCore.Server.Webhook

open Text

/-! ## The guard -/

/-- What `socket.getaddrinfo` does: the first elements of the socket addresses it returns, where an
entry without an address is `none`. -/
inductive Resolved
  | infos (addresses : List (Option Str))
  | gaierror (text : Str)
  | raised

structure Env where
  unicode : UnicodeData
  /-- `repr` of a text. -/
  repr : Str → Str
  /-- The value of `ZAQORIN_SOAR_WEBHOOK_URL_ALLOWLIST`. -/
  allowlist : Str
  getaddrinfo : Str → Resolved

/-- `_SSRF_BLOCKED_NETWORKS`. -/
def blockedNetworks : List Network := [
  ⟨.v4 0x7F000000#32, 8⟩,
  ⟨.v4 0x0A000000#32, 8⟩,
  ⟨.v4 0xAC100000#32, 12⟩,
  ⟨.v4 0xC0A80000#32, 16⟩,
  ⟨.v4 0xA9FE0000#32, 16⟩,
  ⟨.v4 0x00000000#32, 8⟩,
  ⟨.v4 0x64400000#32, 10⟩,
  ⟨.v4 0xE0000000#32, 4⟩,
  ⟨.v4 0xF0000000#32, 4⟩,
  ⟨.v6 1#128, 128⟩,
  ⟨.v6 (0xFC00#128 <<< 112), 7⟩,
  ⟨.v6 (0xFE80#128 <<< 112), 10⟩]

/-- `_ssrf_allowlist`. -/
def ssrfAllowlist (env : Env) : List Str :=
  ((split "," env.allowlist).filter fun h => strip h ≠ []).map fun h =>
    lower env.unicode.finalSigma (strip h)

/-- The address is in a network of the list. -/
def Listed (ip : Ip) : Prop := ∃ net ∈ blockedNetworks, net.contains ip = true

instance (ip : Ip) : Decidable (Listed ip) :=
  inferInstanceAs (Decidable (∃ net ∈ blockedNetworks, _))

/-- `_is_blocked_address`. -/
def isBlockedAddress (addr : Str) : Bool :=
  match ipAddress addr with
  | none => true
  | some ip => decide (Listed ip)

inductive Verdict
  | safe
  | rejected (message : Str)
  | raised
  deriving DecidableEq

/-- The loop over the resolved addresses. -/
def inspect (env : Env) (host : Str) : List Str → List (Option Str) → Verdict
  | _, [] => .safe
  | seen, none :: infos => inspect env host seen infos
  | seen, some addr :: infos =>
    if addr ∈ seen then inspect env host seen infos
    else if isBlockedAddress addr then
      .rejected ("generic_webhook: url host ".toList ++ env.repr host ++
        " resolves to blocked address ".toList ++ env.repr addr ++
        ". Set ZAQORIN_SOAR_WEBHOOK_URL_ALLOWLIST to opt in.".toList)
    else inspect env host (addr :: seen) infos

/-- The guard for a host. -/
def validateHost (env : Env) (host : Str) : Verdict :=
  if host ∈ ssrfAllowlist env then .safe
  else if (ipAddress host).isSome then
    if isBlockedAddress host then
      .rejected ("generic_webhook: url host ".toList ++ env.repr host ++
        (" is in a blocked range (loopback / RFC1918 / link-local / multicast / reserved). Set " ++
          "ZAQORIN_SOAR_WEBHOOK_URL_ALLOWLIST to opt in.").toList)
    else .safe
  else match env.getaddrinfo host with
    | .gaierror text =>
      .rejected ("generic_webhook: cannot resolve hostname ".toList ++ env.repr host ++
        ": ".toList ++ text)
    | .raised => .raised
    | .infos infos => inspect env host [] infos

def validateWebhookUrl (env : Env) (url : Str) : Verdict :=
  if url = [] then
    .rejected "generic_webhook: missing or non-string `url` in config".toList
  else match urlsplit env.unicode url with
    | none => .raised
    | some parsed =>
      if parsed.scheme ≠ "http".toList ∧ parsed.scheme ≠ "https".toList then
        .rejected ("generic_webhook: url must be http(s), got ".toList ++ env.repr url)
      else match parsed.hostname env.unicode with
        | none => .rejected ("generic_webhook: url has no hostname: ".toList ++ env.repr url)
        | some hostname => validateHost env (lower env.unicode.finalSigma hostname)

/-! ## The contract -/

/-- The host of a URL that the guard looks at. -/
def hostOf (env : Env) (url : Str) : Option Str := do
  let parsed ← urlsplit env.unicode url
  guard (url ≠ [] ∧ (parsed.scheme = "http".toList ∨ parsed.scheme = "https".toList))
  let hostname ← parsed.hostname env.unicode
  some (lower env.unicode.finalSigma hostname)

/-- The addresses that a host is, or resolves to; `none` when it does not resolve. -/
def addressesOf (env : Env) (host : Str) : Option (List Str) :=
  if (ipAddress host).isSome then some [host]
  else match env.getaddrinfo host with
    | .infos infos => some infos.reduceOption
    | _ => none

/-- The forms of internal addresses that the list does not hold: the IPv4-mapped form of a listed
address, the unspecified address `::`, and the multicast range `ff00::/8`. -/
def Unlisted (ip : Ip) : Prop :=
  (∃ v4, ip.mapped = some v4 ∧ Listed v4) ∨ ip = .v6 0#128 ∨
    Network.contains ⟨.v6 (0xFF00#128 <<< 112), 8⟩ ip = true

/-- The ranges of the contract. -/
def Internal (ip : Ip) : Prop := Listed ip ∨ Unlisted ip

/-- Every address of the host is outside these ranges. -/
def External (env : Env) (host : Str) : Prop :=
  ∀ addresses, addressesOf env host = some addresses →
    ∀ addr ∈ addresses, ∃ ip, ipAddress addr = some ip ∧ ¬ Internal ip

/-- What the guard promises for a URL. -/
def Guards (env : Env) (url : Str) : Prop :=
  validateWebhookUrl env url = .safe →
    ∃ host, hostOf env url = some host ∧ (host ∈ ssrfAllowlist env ∨ External env host)

/-- The URL's host is not on the allow-list and resolves to addresses that are all outside the
listed networks, one of them in a range that the list leaves out. -/
def Slips (env : Env) (url : Str) : Prop :=
  ∃ host addresses, hostOf env url = some host ∧ host ∉ ssrfAllowlist env ∧
    addressesOf env host = some addresses ∧
    (∀ addr ∈ addresses, ∃ ip, ipAddress addr = some ip ∧ ¬ Listed ip) ∧
    ∃ addr ∈ addresses, ∃ ip, ipAddress addr = some ip ∧ Unlisted ip

/-! ## What the guard accepts -/

variable {env : Env} {host url addr : Str}

theorem isBlockedAddress_eq_false :
    isBlockedAddress addr = false ↔ ∃ ip, ipAddress addr = some ip ∧ ¬ Listed ip := by
  unfold isBlockedAddress
  cases ipAddress addr with
  | none => simp
  | some ip => simp

/-- An address that was seen before has passed. -/
theorem inspect_safe_iff (seen : List Str) (infos : List (Option Str)) :
    inspect env host seen infos = .safe ↔
      ∀ addr ∈ infos.reduceOption, addr ∈ seen ∨ isBlockedAddress addr = false := by
  induction infos generalizing seen with
  | nil => simp [inspect]
  | cons info infos ih =>
    cases info with
    | none =>
      rw [inspect, ih, List.reduceOption_cons_of_none]
    | some addr =>
      rw [inspect, List.reduceOption_cons_of_some, List.forall_mem_cons]
      by_cases hseen : addr ∈ seen
      · rw [if_pos hseen, ih]
        exact ⟨fun h => ⟨Or.inl hseen, h⟩, fun h => h.2⟩
      · rw [if_neg hseen]
        cases hblocked : isBlockedAddress addr with
        | true =>
          rw [if_pos rfl]
          exact iff_of_false nofun fun h => h.1.elim hseen nofun
        | false =>
          rw [if_neg Bool.false_ne_true, ih]
          constructor
          · intro h
            refine ⟨Or.inr rfl, fun other hother => ?_⟩
            obtain hmem | hpass := h other hother
            · obtain rfl | hmem := List.mem_cons.mp hmem
              · exact Or.inr hblocked
              · exact Or.inl hmem
            · exact Or.inr hpass
          · intro h other hother
            exact (h.2 other hother).imp_left (List.mem_cons_of_mem _)

theorem validateHost_safe_iff : validateHost env host = .safe ↔
    host ∈ ssrfAllowlist env ∨ ∃ addresses, addressesOf env host = some addresses ∧
      ∀ addr ∈ addresses, isBlockedAddress addr = false := by
  unfold validateHost addressesOf
  by_cases hallow : host ∈ ssrfAllowlist env
  · rw [if_pos hallow]
    exact iff_of_true rfl (Or.inl hallow)
  · rw [if_neg hallow, or_iff_right hallow]
    by_cases hliteral : (ipAddress host).isSome = true
    · rw [if_pos hliteral, if_pos hliteral]
      cases hblocked : isBlockedAddress host with
      | true => simp [hblocked]
      | false => simp [hblocked]
    · rw [if_neg hliteral, if_neg hliteral]
      cases env.getaddrinfo host with
      | infos infos => simp [inspect_safe_iff]
      | gaierror text => simp
      | raised => simp

theorem validateWebhookUrl_safe_iff : validateWebhookUrl env url = .safe ↔
    ∃ host, hostOf env url = some host ∧ validateHost env host = .safe := by
  unfold validateWebhookUrl hostOf
  by_cases hurl : url = []
  · rw [if_pos hurl]
    refine iff_of_false nofun ?_
    rintro ⟨host, hhost, -⟩
    simp [hurl, guard] at hhost
  · rw [if_neg hurl]
    cases urlsplit env.unicode url with
    | none => simp
    | some parsed =>
      simp only [Option.bind_eq_bind, Option.bind_some]
      by_cases hscheme : parsed.scheme = "http".toList ∨ parsed.scheme = "https".toList
      · rw [if_neg (by tauto)]
        simp only [hurl, hscheme, guard, ne_eq, not_false_eq_true, and_self, if_true]
        cases parsed.hostname env.unicode with
        | none => simp
        | some hostname => simp
      · rw [if_pos (by tauto)]
        refine iff_of_false nofun ?_
        rintro ⟨host, hhost, -⟩
        simp only [guard, hscheme, and_false, if_false] at hhost
        cases hhost

/-! ## What it promises -/

/-- A URL that slips through is accepted. -/
theorem Slips.not_guards (h : Slips env url) : ¬ Guards env url := by
  obtain ⟨host, addresses, hhost, hallow, haddresses, hpass, addr, haddr, ip, hip, hgap⟩ := h
  intro hguards
  have hsafe : validateWebhookUrl env url = .safe := by
    refine validateWebhookUrl_safe_iff.mpr ⟨host, hhost, validateHost_safe_iff.mpr (Or.inr ?_)⟩
    exact ⟨addresses, haddresses, fun a ha => isBlockedAddress_eq_false.mpr (hpass a ha)⟩
  obtain ⟨host', hhost', hpromise⟩ := hguards hsafe
  rw [hhost] at hhost'
  cases hhost'
  obtain hallow' | hexternal := hpromise
  · exact hallow hallow'
  · obtain ⟨ip', hip', houtside⟩ := hexternal addresses haddresses addr haddr
    rw [hip] at hip'
    cases hip'
    exact houtside (Or.inr hgap)

/-- The guard keeps its promise for a URL unless an address in a range that the list leaves out is
all that there is to object to. -/
theorem guards_iff (env : Env) (url : Str) : Guards env url ↔ ¬ Slips env url := by
  constructor
  · intro hguards hslips
    exact hslips.not_guards hguards
  · intro hslips hsafe
    obtain ⟨host, hhost, hvalid⟩ := validateWebhookUrl_safe_iff.mp hsafe
    refine ⟨host, hhost, ?_⟩
    by_cases hallow : host ∈ ssrfAllowlist env
    · exact Or.inl hallow
    · right
      obtain ⟨addresses, haddresses, hpass⟩ :=
        (validateHost_safe_iff.mp hvalid).resolve_left hallow
      have hpass : ∀ addr ∈ addresses, ∃ ip, ipAddress addr = some ip ∧ ¬ Listed ip :=
        fun addr haddr => isBlockedAddress_eq_false.mp (hpass addr haddr)
      intro addresses' haddresses' addr haddr
      rw [haddresses] at haddresses'
      cases haddresses'
      obtain ⟨ip, hip, hlisted⟩ := hpass addr haddr
      refine ⟨ip, hip, ?_⟩
      rintro (hin | hgap)
      · exact hlisted hin
      · exact hslips ⟨host, addresses, hhost, hallow, haddresses, hpass, addr, haddr, ip, hip, hgap⟩

/-- No allow-list, and a resolver that knows nothing. -/
def bareEnv : Env where
  unicode := ⟨id, fun _ _ => false⟩
  repr := id
  allowlist := []
  getaddrinfo _ := .gaierror "Name or service not known".toList

/-- The loopback address in its IPv4-mapped form passes the guard. -/
theorem mapped_loopback_passes :
    validateWebhookUrl bareEnv "http://[::ffff:127.0.0.1]/".toList = .safe ∧
      ¬ Guards bareEnv "http://[::ffff:127.0.0.1]/".toList := by
  have hhost : hostOf bareEnv "http://[::ffff:127.0.0.1]/".toList =
      some "::ffff:127.0.0.1".toList := by
    decide +kernel
  have hip : ipAddress "::ffff:127.0.0.1".toList = some (.v6 0xFFFF7F000001#128) := by
    decide +kernel
  have haddresses : addressesOf bareEnv "::ffff:127.0.0.1".toList =
      some ["::ffff:127.0.0.1".toList] := by
    rw [addressesOf, hip]
    rfl
  have hgap : Unlisted (.v6 0xFFFF7F000001#128) :=
    Or.inl ⟨.v4 0x7F000001#32, by decide +kernel, by decide +kernel⟩
  have hslips : Slips bareEnv "http://[::ffff:127.0.0.1]/".toList := by
    refine ⟨_, _, hhost, by decide +kernel, haddresses, ?_, _, List.mem_cons_self, _, hip, hgap⟩
    intro addr haddr
    rw [List.mem_singleton.mp haddr]
    exact ⟨_, hip, by decide +kernel⟩
  exact ⟨by decide +kernel, hslips.not_guards⟩

end ZaqorinCore.Server.Webhook
