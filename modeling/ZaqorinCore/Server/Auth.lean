import ZaqorinCore.Text.Bytes

/-!
# Roles of API keys

`auth.py` keeps one key for each of three roles. The fourth setting, the older `api_key`, has no
role of its own: it takes the place of the write key when no other setting holds it, and a key that
two settings hold gets the role that is looked up first. `keysWork_iff` says for which settings
every configured key still has the methods it was configured for.
-/

namespace ZaqorinCore.Server.Auth

open Text

inductive Role
  | read
  | write
  | ingest
  deriving DecidableEq

/-- The settings that name keys; the empty text means that the key is not set. -/
structure Settings where
  apiKey : Str
  apiKeyRead : Str
  apiKeyWrite : Str
  apiKeyIngest : Str

/-- `dict[Role, str]`. -/
abbrev RoleKeys := Role → Option Str

/-- `out[role] = key`. -/
def RoleKeys.set (out : RoleKeys) (role : Role) (key : Str) : RoleKeys :=
  Function.update out role (some key)

/-- `key in out.values()`. -/
def RoleKeys.holds (out : RoleKeys) (key : Str) : Bool :=
  [Role.read, .write, .ingest].any fun role => out role == some key

def rolesFromSettings (s : Settings) : RoleKeys :=
  let out : RoleKeys := fun _ => none
  let out := if s.apiKeyRead ≠ [] then out.set .read s.apiKeyRead else out
  let out := if s.apiKeyWrite ≠ [] then out.set .write s.apiKeyWrite else out
  let out := if s.apiKeyIngest ≠ [] then out.set .ingest s.apiKeyIngest else out
  if s.apiKey ≠ [] ∧ ¬ out.holds s.apiKey then out.set .write s.apiKey else out

def lookupRole (presented : Str) (roleKeys : RoleKeys) : Option Role :=
  if presented = [] then none
  else [Role.read, .write, .ingest].find? fun role =>
    (roleKeys role).any fun expected => utf8 presented == utf8 expected

/-- `str.upper`, of which only this matters: upper-case letters stay as they are. -/
structure Upper where
  upper : Str → Str
  upper_of_upper : ∀ s : Str, (∀ c ∈ s, c.isUpper = true) → upper s = s

def allowMethodForRole (u : Upper) (role : Role) (method : Str) : Bool :=
  let method := u.upper method
  match role with
  | .write => true
  | .read => method == "GET".toList || method == "HEAD".toList || method == "OPTIONS".toList
  | .ingest => method == "POST".toList

/-! ## What the settings ask for -/

/-- The keys that are set, each with the role it was set for. -/
def configured (s : Settings) : List (Str × Role) :=
  [(s.apiKeyRead, Role.read), (s.apiKeyWrite, .write), (s.apiKeyIngest, .ingest),
    (s.apiKey, .write)].filter fun k => k.1 ≠ []

/-- Every method of the second role is one of the first. -/
def Covers (u : Upper) (role needed : Role) : Prop :=
  ∀ method, allowMethodForRole u needed method = true → allowMethodForRole u role method = true

/-- The keys that are set are accepted, and no others, each with the methods of its role. -/
def KeysWork (u : Upper) (s : Settings) : Prop :=
  (∀ presented, (lookupRole presented (rolesFromSettings s)).isSome = true ↔
      ∃ role, (presented, role) ∈ configured s) ∧
    ∀ key needed, (key, needed) ∈ configured s →
      ∃ role, lookupRole key (rolesFromSettings s) = some role ∧ Covers u role needed

/-- No other setting holds the read key, and the older key is the write key, or stands in for a
write key that is not set and is not the ingest key. -/
def Distinct (s : Settings) : Prop :=
  (s.apiKeyRead ≠ [] → s.apiKeyWrite ≠ s.apiKeyRead ∧ s.apiKeyIngest ≠ s.apiKeyRead ∧
      s.apiKey ≠ s.apiKeyRead) ∧
    (s.apiKey ≠ [] → s.apiKey = s.apiKeyWrite ∨ s.apiKeyWrite = [] ∧ s.apiKey ≠ s.apiKeyIngest)

/-! ## Methods -/

/-- GET and POST tell the three roles apart. -/
theorem allow_get_post (u : Upper) (role : Role) :
    allowMethodForRole u role "GET".toList = decide (role ≠ .ingest) ∧
      allowMethodForRole u role "POST".toList = decide (role ≠ .read) := by
  have hget : u.upper "GET".toList = "GET".toList := u.upper_of_upper _ (by simp)
  have hpost : u.upper "POST".toList = "POST".toList := u.upper_of_upper _ (by simp)
  unfold allowMethodForRole
  rw [hget, hpost]
  cases role with
  | read => decide +kernel
  | write => decide +kernel
  | ingest => decide +kernel

theorem covers_iff (u : Upper) (role needed : Role) :
    Covers u role needed ↔ role = needed ∨ role = .write := by
  constructor
  · intro h
    have hgets := h "GET".toList
    have hposts := h "POST".toList
    rw [(allow_get_post u needed).1, (allow_get_post u role).1] at hgets
    rw [(allow_get_post u needed).2, (allow_get_post u role).2] at hposts
    revert hgets hposts
    cases role with
    | read => cases needed <;> decide
    | write => cases needed <;> decide
    | ingest => cases needed <;> decide
  · rintro (rfl | rfl) method h
    · exact h
    · rfl

/-! ## Lookup -/

/-- The key that the write role ends up with. -/
def writeKey (s : Settings) : Str :=
  if s.apiKey ≠ [] ∧ s.apiKey ≠ s.apiKeyRead ∧ s.apiKey ≠ s.apiKeyWrite ∧
    s.apiKey ≠ s.apiKeyIngest then s.apiKey else s.apiKeyWrite

/-- A key that is set, as an entry of the map. -/
def entry (key : Str) : Option Str := if key ≠ [] then some key else none

/-- The map before the older key is looked at. -/
def byRole (s : Settings) : RoleKeys
  | .read => entry s.apiKeyRead
  | .write => entry s.apiKeyWrite
  | .ingest => entry s.apiKeyIngest

theorem byRole_eq (s : Settings) :
    (let out : RoleKeys := fun _ => none
      let out := if s.apiKeyRead ≠ [] then out.set .read s.apiKeyRead else out
      let out := if s.apiKeyWrite ≠ [] then out.set .write s.apiKeyWrite else out
      if s.apiKeyIngest ≠ [] then out.set .ingest s.apiKeyIngest else out) = byRole s := by
  funext role
  cases role with
  | read => simp only [byRole, entry, RoleKeys.set]; split_ifs <;> simp
  | write => simp only [byRole, entry, RoleKeys.set]; split_ifs <;> simp
  | ingest => simp only [byRole, entry, RoleKeys.set]; split_ifs <;> simp

theorem byRole_holds {s : Settings} {key : Str} (hne : key ≠ []) :
    (byRole s).holds key = true ↔
      key = s.apiKeyRead ∨ key = s.apiKeyWrite ∨ key = s.apiKeyIngest := by
  have hentry : ∀ other : Str, (entry other == some key) = true ↔ key = other := by
    intro other
    unfold entry
    split
    · rw [beq_iff_eq, Option.some_inj, eq_comm]
    · rename_i hnil
      rw [ne_eq, not_not] at hnil
      simp [hnil, hne]
  simp only [RoleKeys.holds, byRole, List.any_cons, List.any_nil, Bool.or_false, Bool.or_eq_true,
    hentry]

theorem rolesFromSettings_eq (s : Settings) : rolesFromSettings s =
    Function.update (byRole s) .write (entry (writeKey s)) := by
  have hroles : rolesFromSettings s = if s.apiKey ≠ [] ∧ ¬ (byRole s).holds s.apiKey then
      (byRole s).set .write s.apiKey else byRole s := by
    rw [← byRole_eq]
    rfl
  rw [hroles, writeKey]
  by_cases hold : s.apiKey ≠ [] ∧ s.apiKey ≠ s.apiKeyRead ∧ s.apiKey ≠ s.apiKeyWrite ∧
    s.apiKey ≠ s.apiKeyIngest
  · rw [if_pos hold, if_pos, entry, if_pos hold.1]
    · rfl
    · refine ⟨hold.1, ?_⟩
      rw [byRole_holds hold.1]
      tauto
  · rw [if_neg hold, if_neg]
    · exact (Function.update_eq_self .write (byRole s)).symm
    · rintro ⟨hne, hnew⟩
      rw [byRole_holds hne] at hnew
      tauto

theorem lookupRole_eq (s : Settings) (presented : Str) :
    lookupRole presented (rolesFromSettings s) =
      if presented = [] then none
      else if presented = s.apiKeyRead then some .read
      else if presented = writeKey s then some .write
      else if presented = s.apiKeyIngest then some .ingest
      else none := by
  have hentry : ∀ key : Str, presented ≠ [] →
      ((entry key).any fun expected => utf8 presented == utf8 expected) =
        decide (presented = key) := by
    intro key hne
    have hbytes : (utf8 presented == utf8 key) = decide (presented = key) := by
      rw [Bool.eq_iff_iff, beq_iff_eq, decide_eq_true_eq]
      exact ⟨utf8_injective, congrArg utf8⟩
    unfold entry
    split
    · exact hbytes
    · rename_i hnil
      rw [ne_eq, not_not] at hnil
      simp [hnil, hne]
  unfold lookupRole
  split
  · rfl
  · rename_i hne
    simp only [List.find?_cons, List.find?_nil, rolesFromSettings_eq, byRole, hentry _ hne,
      Function.update_self, Function.update_of_ne, ne_eq, reduceCtorEq, not_false_eq_true]
    split_ifs <;> simp_all

/-! ## The settings that work -/

theorem mem_configured {s : Settings} {key : Str} {role : Role} :
    (key, role) ∈ configured s ↔ key ≠ [] ∧ (key = s.apiKeyRead ∧ role = .read ∨
      key = s.apiKeyWrite ∧ role = .write ∨ key = s.apiKeyIngest ∧ role = .ingest ∨
      key = s.apiKey ∧ role = .write) := by
  simp only [configured, List.mem_filter, List.mem_cons, List.not_mem_nil, or_false,
    Prod.mk.injEq, decide_eq_true_eq]
  exact and_comm

/-- With distinct keys every setting is looked up under a role that covers its own. -/
theorem lookup_configured {s : Settings} (h : Distinct s) {key : Str} {needed : Role}
    (hkey : (key, needed) ∈ configured s) :
    ∃ role, lookupRole key (rolesFromSettings s) = some role ∧ (role = needed ∨ role = .write) := by
  obtain ⟨hne, hcases⟩ := mem_configured.mp hkey
  obtain ⟨hread, holder⟩ := h
  rw [lookupRole_eq, if_neg hne]
  unfold writeKey
  rcases hcases with ⟨rfl, rfl⟩ | ⟨rfl, rfl⟩ | ⟨rfl, rfl⟩ | ⟨rfl, rfl⟩
  · exact ⟨.read, if_pos rfl, Or.inl rfl⟩
  · grind
  · grind
  · grind

/-- A key that is looked up is one that is set. -/
theorem configured_of_lookup {s : Settings} {presented : Str} {role : Role}
    (h : lookupRole presented (rolesFromSettings s) = some role) :
    ∃ needed, (presented, needed) ∈ configured s := by
  rw [lookupRole_eq] at h
  simp only [mem_configured]
  split at h
  · cases h
  · rename_i hne
    split at h
    · exact ⟨.read, hne, Or.inl ⟨‹_›, rfl⟩⟩
    · split at h
      · rename_i hwrite
        unfold writeKey at hwrite
        split at hwrite
        · exact ⟨.write, hne, Or.inr (Or.inr (Or.inr ⟨hwrite, rfl⟩))⟩
        · exact ⟨.write, hne, Or.inr (Or.inl ⟨hwrite, rfl⟩)⟩
      · split at h
        · exact ⟨.ingest, hne, Or.inr (Or.inr (Or.inl ⟨‹_›, rfl⟩))⟩
        · cases h

theorem keysWork_iff (u : Upper) (s : Settings) : KeysWork u s ↔ Distinct s := by
  constructor
  · rintro ⟨-, hwork⟩
    -- the three settings in turn, each with the key that would not be looked up as it should
    have hlookup : ∀ key needed, (key, needed) ∈ configured s →
        ∃ role, lookupRole key (rolesFromSettings s) = some role ∧
          (role = needed ∨ role = .write) := by
      intro key needed hkey
      obtain ⟨role, hrole, hcovers⟩ := hwork key needed hkey
      exact ⟨role, hrole, (covers_iff u role needed).mp hcovers⟩
    simp only [mem_configured, lookupRole_eq] at hlookup
    have hwrite := hlookup s.apiKeyWrite .write
    have hingest := hlookup s.apiKeyIngest .ingest
    have hkey := hlookup s.apiKey .write
    clear hlookup hwork
    unfold writeKey at hwrite hingest hkey
    unfold Distinct
    grind
  · intro h
    refine ⟨fun presented => ⟨?_, ?_⟩, ?_⟩
    · intro hsome
      obtain ⟨role, hrole⟩ := Option.isSome_iff_exists.mp hsome
      exact configured_of_lookup hrole
    · rintro ⟨needed, hneeded⟩
      obtain ⟨role, hrole, -⟩ := lookup_configured h hneeded
      rw [hrole]
      rfl
    · intro key needed hkey
      obtain ⟨role, hrole, hcovers⟩ := lookup_configured h hkey
      exact ⟨role, hrole, (covers_iff u role needed).mpr hcovers⟩

/-- `str.upper` on ASCII. -/
def asciiUpper : Upper where
  upper s := s.map Char.toUpper
  upper_of_upper s h := by
    have hsame : ∀ c ∈ s, c.toUpper = id c := by
      intro c hc
      have hupper := h c hc
      unfold Char.toUpper Char.isUpper at *
      simp only [decide_eq_true_eq] at hupper
      rw [dif_neg (by grind)]
      rfl
    rw [List.map_congr_left hsame, List.map_id]

/-- A deployment with its own write key in which the older key is still set: the write key is not
accepted. -/
theorem write_key_dropped :
    ("writer".toList, Role.write) ∈ configured ⟨"legacy".toList, [], "writer".toList, []⟩ ∧
      lookupRole "writer".toList
        (rolesFromSettings ⟨"legacy".toList, [], "writer".toList, []⟩) = none ∧
      ¬ KeysWork asciiUpper ⟨"legacy".toList, [], "writer".toList, []⟩ := by
  have hset : ("writer".toList, Role.write) ∈
      configured ⟨"legacy".toList, [], "writer".toList, []⟩ := by
    decide +kernel
  have hnone : lookupRole "writer".toList
      (rolesFromSettings ⟨"legacy".toList, [], "writer".toList, []⟩) = none := by
    decide +kernel
  refine ⟨hset, hnone, fun hwork => ?_⟩
  obtain ⟨role, hrole, -⟩ := hwork.2 _ _ hset
  rw [hnone] at hrole
  cases hrole

end ZaqorinCore.Server.Auth
