import ZaqorinCore.Base.Run
import ZaqorinCore.Server.Command
import ZaqorinCore.Server.Sources

/-!
# Signing secrets of Cloudflare connectors

Creating or rotating a Cloudflare connector returns a signing secret and the URL of the Logpush
endpoint. The secret is stored nowhere, and the endpoint checks every signature with the one secret
of its process. The returned secrets do what they are returned for exactly in the histories in which
each of them signs as the secret of the process does and no connector is rotated:
`secrets_work_iff`.
-/

namespace ZaqorinCore.Server.Sources

open Text Base

/-! ## Ingest endpoint -/

/-- `ZAQORIN_CLOUDFLARE_INGEST_SECRET` of the process, with the condition on a final sigma of
`str.lower`. -/
structure Ingest where
  secret : Str
  finalSigma : Str → Str → Bool

/-- The signature that an upstream sends for a body. -/
def sign (secret : Str) (body : Bytes) : Str := hexdigest (hmacSha256 (utf8 secret) body)

/-- `_verify_hmac`. -/
def verifyHmac (ingest : Ingest) (body : Bytes) (presented : Str) : Except TypeError Bool :=
  if presented = [] then pure false
  else if presented.length ≠ 64 then pure false
  else compareDigest (sign ingest.secret body) (lower ingest.finalSigma presented)

/-- The path of the router. -/
def logpushPath : Str := "/api/v1/ingest/cloudflare".toList

/-- A request to a URL passes the check of the endpoint that is there. -/
def Passes (ingest : Ingest) (url : Str) (body : Bytes) (signature : Str) : Prop :=
  logpushPath.isSuffixOf url = true ∧ verifyHmac ingest body signature = .ok true

theorem length_sign (secret : Str) (body : Bytes) : (sign secret body).length = 64 := by
  unfold sign
  rw [hexdigest_length, hmacSha256, sha256_length]

/-- A signature is good exactly when the secret of the process gives the same. -/
theorem verifyHmac_sign_iff (ingest : Ingest) (secret : Str) (body : Bytes) :
    verifyHmac ingest body (sign secret body) = .ok true ↔
      hmacSha256 (utf8 secret) body = hmacSha256 (utf8 ingest.secret) body := by
  have hlength := length_sign secret body
  have hne : sign secret body ≠ [] := by
    intro h
    rw [h] at hlength
    cases hlength
  unfold verifyHmac
  rw [if_neg hne, if_neg (not_not_intro hlength)]
  have hlower : lower ingest.finalSigma (sign secret body) = sign secret body :=
    lower_of_mem_hex _ fun c hc => mem_hexdigest hc
  rw [hlower]
  constructor
  · intro h
    unfold compareDigest at h
    split at h
    · have heq : sign ingest.secret body = sign secret body := by simpa using h
      exact (hexdigest_injective heq).symm
    · cases h
  · intro h
    have heq : sign ingest.secret body = sign secret body := by
      unfold sign
      rw [h]
    rw [heq]
    exact compareDigest_hexdigest _

/-! ## Histories -/

/-- What a response says once. -/
structure Issued where
  ingestUrl : Str
  signingSecret : Str

def CreateOut.issued (out : CreateOut) : Issued := ⟨out.ingestUrl, out.signingSecret⟩

def deleteConnector (t : Connectors) (id : Uuid) (commits : Bool) :
    Except SourceError Unit × Connectors :=
  match getConnector t id with
  | .error e => (.error e, t)
  | .ok _ => if commits then (.ok (), t.remove id) else (.error .database, t)

/-- The table, with what was returned last for each connector and before the rotations of it. -/
structure Desk where
  table : Connectors
  latest : Uuid → Option Issued
  earlier : Uuid → List Issued

def start : Desk := ⟨Table.empty, fun _ => none, fun _ => []⟩

inductive Op
  | create (body : CloudflareCreateIn) (d : Draw)
  | rotate (id : Uuid) (d : Draw)
  | delete (id : Uuid) (commits : Bool)

def step (k : Desk) : Op → Option Desk
  | .create body d =>
    match createCloudflare k.table body d with
    | (.ok out, table) => some
        ⟨table, Function.update k.latest d.id (some out.issued), Function.update k.earlier d.id []⟩
    | (.error _, table) => some { k with table := table }
  | .rotate id d =>
    match rotateKey k.table id d with
    | (.ok out, table) => some
        ⟨table, Function.update k.latest id (some out.issued),
          Function.update k.earlier id ((k.latest id).toList ++ k.earlier id)⟩
    | (.error _, table) => some { k with table := table }
  | .delete id commits =>
    some { k with table := (deleteConnector k.table id commits).2 }

/-- The secrets do what they are returned for: for every connector that is there, the last one
passes at its URL with every body, and those before a rotation pass with none. -/
structure SecretsWork (ingest : Ingest) (k : Desk) : Prop where
  latest : ∀ id c issued, k.table.find id = some c → c.platform = "cloudflare" →
    k.latest id = some issued →
      ∀ body, Passes ingest issued.ingestUrl body (sign issued.signingSecret body)
  earlier : ∀ id c issued, k.table.find id = some c → c.platform = "cloudflare" →
    issued ∈ k.earlier id →
      ∀ body, ¬ Passes ingest issued.ingestUrl body (sign issued.signingSecret body)

/-- The condition on an operation: a secret that is drawn for a new connector signs as that of the
process does, and no rotation is committed. -/
def SharesSecret (ingest : Ingest) (k : Desk) : Op → Prop
  | .create body d => body.check.isOk = true → d.commits = true → k.table.find d.id = none →
      ∀ b, hmacSha256 (utf8 d.signingSecret) b = hmacSha256 (utf8 ingest.secret) b
  | .rotate id d => k.table.find id ≠ none → d.commits = false
  | .delete _ _ => True

/-! ## Operations -/

section

variable {t : Connectors} {body : CloudflareCreateIn} {d : Draw} {id : Uuid}

theorem suffix_logpushPath (url : Str) : logpushPath.isSuffixOf (url ++ logpushPath) = true := by
  rw [List.isSuffixOf_iff_suffix]
  exact List.suffix_append ..

/-- A connector is created, with the secret of the draw, or nothing changes. -/
theorem createCloudflare_cases (t : Connectors) (body : CloudflareCreateIn) (d : Draw) :
    (body.check.isOk = true ∧ d.commits = true ∧ t.find d.id = none ∧
      ∃ c, ∃ hnew : t.find c.id = none, c.id = d.id ∧ c.platform = "cloudflare" ∧
        createCloudflare t body d =
          (.ok ⟨c, base d.baseUrl ++ logpushPath, d.signingSecret⟩, t.insert c hnew)) ∨
    (¬ (body.check.isOk = true ∧ d.commits = true ∧ t.find d.id = none) ∧
      ∃ e, createCloudflare t body d = (.error e, t)) := by
  unfold createCloudflare create
  cases hcheck : body.check with
  | error e =>
    right
    refine ⟨?_, e, rfl⟩
    rintro ⟨h, -⟩
    cases h
  | ok u =>
    dsimp only
    by_cases hcommits : d.commits = true ∧ t.find d.id = none
    · left
      rw [dif_pos hcommits]
      exact ⟨rfl, hcommits.1, hcommits.2, newConnector d "cloudflare" _ _, hcommits.2, rfl, rfl,
        rfl⟩
    · right
      rw [dif_neg hcommits]
      exact ⟨fun h => hcommits h.2, .database, rfl⟩

/-- A Cloudflare connector is rotated, with the secret of the draw, or nothing changes. -/
theorem rotateKey_cases (id : Uuid) (d : Draw)
    (hplatform : ∀ c, t.find id = some c → c.platform = "cloudflare") :
    (∃ c, t.find id = some c ∧ d.commits = true ∧ rotateKey t id d =
      (.ok ⟨rotated d c, base d.baseUrl ++ logpushPath, d.signingSecret⟩, rotateRow t id d)) ∨
    ((t.find id ≠ none → d.commits = false) ∧ ∃ e, rotateKey t id d = (.error e, t)) := by
  unfold rotateKey getConnector
  cases hfind : t.find id with
  | none => exact Or.inr ⟨fun h => absurd rfl h, _, rfl⟩
  | some c =>
    have hcloudflare := hplatform c hfind
    dsimp only [pure, Except.pure]
    by_cases hcommits : d.commits = true
    · left
      refine ⟨c, rfl, hcommits, ?_⟩
      have hsecret : c.platform ≠ "syslog" := by
        rw [hcloudflare]
        decide
      rw [if_pos hcommits, if_pos hsecret, answer]
      simp only [rotated, hcloudflare]
      rfl
    · right
      rw [if_neg hcommits]
      exact ⟨fun _ => Bool.eq_false_iff.mpr hcommits, _, rfl⟩

theorem find_rotateRow (id' : Uuid) : (rotateRow t id d).find id' =
    (t.find id').map fun c => if c.id == id then rotated d c else c :=
  Table.find_updateWhere ..

/-- What is found after a rotation was there before. -/
theorem find_of_rotateRow {id' : Uuid} {c : Connector}
    (h : (rotateRow t id d).find id' = some c) :
    ∃ c', t.find id' = some c' ∧ c'.platform = c.platform := by
  rw [find_rotateRow] at h
  obtain ⟨c', hc', rfl⟩ := Option.map_eq_some_iff.mp h
  refine ⟨c', hc', ?_⟩
  split
  · rfl
  · rfl

theorem find_of_deleteConnector {id' : Uuid} {c : Connector} {commits : Bool}
    (h : (deleteConnector t id commits).2.find id' = some c) : t.find id' = some c := by
  unfold deleteConnector at h
  cases hget : getConnector t id with
  | error e =>
    rw [hget] at h
    exact h
  | ok c' =>
    rw [hget] at h
    dsimp only at h
    split at h
    · dsimp only at h
      rw [Table.find_remove] at h
      split at h
      · cases h
      · exact h
    · exact h

end

/-! ## Invariants -/

/-- Whatever the secrets, every connector is one of Cloudflare and has the URL of the endpoint. -/
def Consistent (k : Desk) : Prop :=
  ∀ id c, k.table.find id = some c → c.platform = "cloudflare" ∧
    ∃ issued, k.latest id = some issued ∧ logpushPath.isSuffixOf issued.ingestUrl = true

/-- Every connector has the secret of the process, or one that signs alike, and was not rotated. -/
def Shared (ingest : Ingest) (k : Desk) : Prop :=
  ∀ id c, k.table.find id = some c → k.earlier id = [] ∧
    ∀ issued, k.latest id = some issued → logpushPath.isSuffixOf issued.ingestUrl = true ∧
      ∀ b, hmacSha256 (utf8 issued.signingSecret) b = hmacSha256 (utf8 ingest.secret) b

section

variable {ingest : Ingest} {k k' : Desk} {op : Op}

/-- After a create the drawn connector is there with the drawn secret, or nothing has changed. -/
theorem step_create_cases {body : CloudflareCreateIn} {d : Draw}
    (htaken : step k (.create body d) = some k') :
    (body.check.isOk = true ∧ d.commits = true ∧ k.table.find d.id = none ∧
      ∃ c, c.platform = "cloudflare" ∧
        (∀ id, k'.table.find id = if id = d.id then some c else k.table.find id) ∧
        k'.latest = Function.update k.latest d.id
          (some ⟨base d.baseUrl ++ logpushPath, d.signingSecret⟩) ∧
        k'.earlier = Function.update k.earlier d.id []) ∨
    (¬ (body.check.isOk = true ∧ d.commits = true ∧ k.table.find d.id = none) ∧ k' = k) := by
  rcases createCloudflare_cases k.table body d with
    ⟨hcheck, hcommits, hfind, c, hnew, hid, hplatform, heq⟩ | ⟨hnot, e, heq⟩
  · left
    simp only [step, heq] at htaken
    rw [← Option.some.inj htaken]
    refine ⟨hcheck, hcommits, hfind, c, hplatform, ?_, rfl, rfl⟩
    intro id
    rw [← hid]
    exact Table.find_insert _ c hnew id
  · right
    simp only [step, heq] at htaken
    exact ⟨hnot, (Option.some.inj htaken).symm⟩

/-- After a rotation the connector has the drawn secret, or nothing has changed. -/
theorem step_rotate_cases (hconsistent : Consistent k) {id : Uuid} {d : Draw}
    (htaken : step k (.rotate id d) = some k') :
    (∃ c, k.table.find id = some c ∧ d.commits = true ∧ k'.table = rotateRow k.table id d ∧
      k'.latest = Function.update k.latest id
        (some ⟨base d.baseUrl ++ logpushPath, d.signingSecret⟩) ∧
      k'.earlier = Function.update k.earlier id ((k.latest id).toList ++ k.earlier id)) ∨
    ((k.table.find id ≠ none → d.commits = false) ∧ k' = k) := by
  rcases rotateKey_cases id d (fun c hc => (hconsistent id c hc).1) with
    ⟨c, hc, hcommits, heq⟩ | ⟨hrefused, e, heq⟩
  · left
    simp only [step, heq] at htaken
    rw [← Option.some.inj htaken]
    exact ⟨c, hc, hcommits, rfl, rfl, rfl⟩
  · right
    simp only [step, heq] at htaken
    exact ⟨hrefused, (Option.some.inj htaken).symm⟩

theorem consistent_start : Consistent start := by
  intro id c hc
  cases hc

theorem consistent_step (h : Consistent k) (htaken : step k op = some k') : Consistent k' := by
  cases op with
  | create body d =>
    rcases step_create_cases htaken with ⟨-, -, -, c, hplatform, hfind', hlatest, -⟩ | ⟨-, rfl⟩
    · intro id c' hc'
      rw [hfind'] at hc'
      rw [hlatest]
      by_cases hother : id = d.id
      · rw [if_pos hother] at hc'
        rw [← Option.some.inj hc', hother, Function.update_self]
        exact ⟨hplatform, _, rfl, suffix_logpushPath _⟩
      · rw [if_neg hother] at hc'
        rw [Function.update_of_ne hother]
        exact h id c' hc'
    · exact h
  | rotate id d =>
    rcases step_rotate_cases h htaken with ⟨c, hc, -, htable, hlatest, -⟩ | ⟨-, rfl⟩
    · intro id' c' hc'
      rw [htable] at hc'
      rw [hlatest]
      obtain ⟨c₀, hc₀, hsame⟩ := find_of_rotateRow hc'
      obtain ⟨hplatform, hissued⟩ := h id' c₀ hc₀
      rw [hsame] at hplatform
      by_cases hother : id' = id
      · rw [hother, Function.update_self]
        exact ⟨hplatform, _, rfl, suffix_logpushPath _⟩
      · rw [Function.update_of_ne hother]
        exact ⟨hplatform, hissued⟩
    · exact h
  | delete id commits =>
    rw [← Option.some.inj htaken]
    intro id' c hc
    exact h id' c (find_of_deleteConnector hc)

theorem shared_start : Shared ingest start := by
  intro id c hc
  cases hc

theorem shared_step (hconsistent : Consistent k) (h : Shared ingest k)
    (hshares : SharesSecret ingest k op) (htaken : step k op = some k') : Shared ingest k' := by
  cases op with
  | create body d =>
    rcases step_create_cases htaken with
      ⟨hcheck, hcommits, hfind, c, -, hfind', hlatest, hearlier⟩ | ⟨-, rfl⟩
    · intro id c' hc'
      rw [hfind'] at hc'
      rw [hlatest, hearlier]
      by_cases hother : id = d.id
      · rw [hother, Function.update_self, Function.update_self]
        refine ⟨rfl, ?_⟩
        intro issued hissued
        rw [← Option.some.inj hissued]
        exact ⟨suffix_logpushPath _, hshares hcheck hcommits hfind⟩
      · rw [if_neg hother] at hc'
        rw [Function.update_of_ne hother, Function.update_of_ne hother]
        exact h id c' hc'
    · exact h
  | rotate id d =>
    rcases step_rotate_cases hconsistent htaken with ⟨c, hc, hcommits, -⟩ | ⟨-, rfl⟩
    · have hrefused := hshares (by rw [hc]; simp)
      rw [hcommits] at hrefused
      cases hrefused
    · exact h
  | delete id commits =>
    rw [← Option.some.inj htaken]
    intro id' c hc
    exact h id' c (find_of_deleteConnector hc)

theorem Shared.secretsWork (h : Shared ingest k) : SecretsWork ingest k where
  latest := by
    intro id c issued hc _ hissued body
    obtain ⟨_, hlatest⟩ := h id c hc
    obtain ⟨hurl, hsame⟩ := hlatest issued hissued
    exact ⟨hurl, (verifyHmac_sign_iff _ _ _).mpr (hsame body)⟩
  earlier := by
    intro id c issued hc _ hissued
    rw [(h id c hc).1] at hissued
    cases hissued

/-- If the secrets work before and after an operation, it meets the condition. -/
theorem sharesSecret_of_secretsWork (hconsistent : Consistent k) (hbefore : SecretsWork ingest k)
    (htaken : step k op = some k') (hafter : SecretsWork ingest k') :
    SharesSecret ingest k op := by
  cases op with
  | create body d =>
    intro hcheck hcommits hfind b
    rcases step_create_cases htaken with ⟨-, -, -, c, hplatform, hfind', hlatest, -⟩ | ⟨hnot, -⟩
    · have hpasses := hafter.latest d.id c _ (by rw [hfind', if_pos rfl]) hplatform
        (by rw [hlatest]; exact Function.update_self ..) b
      exact (verifyHmac_sign_iff _ _ _).mp hpasses.2
    · exact absurd ⟨hcheck, hcommits, hfind⟩ hnot
  | rotate id d =>
    rcases step_rotate_cases hconsistent htaken with
      ⟨c, hc, hcommits, htable, -, hearlier⟩ | ⟨hrefused, -⟩
    · -- the secret before the rotation is checked by the same endpoint as after it
      obtain ⟨hplatform, issued, hissued, hurl⟩ := hconsistent id c hc
      have hpasses := hbefore.latest id c issued hc hplatform hissued []
      have hfound : k'.table.find id = some (rotated d c) := by
        rw [htable, find_rotateRow, hc, Option.map_some,
          if_pos (beq_iff_eq.mpr (Table.find_some hc).2)]
      have hold : issued ∈ k'.earlier id := by
        rw [hearlier, Function.update_self, hissued]
        simp
      exact absurd hpasses (hafter.earlier id (rotated d c) issued hfound hplatform hold [])
    · exact hrefused
  | delete id commits => trivial

end

/-- The secrets work throughout a history exactly when each secret that is drawn signs as that of
the process does and nothing is rotated. -/
theorem secrets_work_iff (ingest : Ingest) (ops : List Op) (k : Desk)
    (h : AnyRun step start ops k) :
    (∀ before j, before <+: ops → AnyRun step start before j → SecretsWork ingest j) ↔
      Run step (SharesSecret ingest) start ops k := by
  constructor
  · intro hworks
    induction h with
    | nil => exact .nil _
    | @snoc t u as op before _ taken ih =>
      have hconsistent : Consistent t := before.invariant (I := Consistent) consistent_start
        fun t a u h _ htaken => consistent_step h htaken
      have hrun := ih fun before' j hfirst hj =>
        hworks before' j (hfirst.trans (List.prefix_append _ _)) hj
      have hbefore := hworks as t (List.prefix_append _ _) before
      have hafter := hworks (as ++ [op]) u (List.prefix_refl _) (.snoc before trivial taken)
      exact .snoc hrun (sharesSecret_of_secretsWork hconsistent hbefore taken hafter) taken
  · intro hrun before j hbefore hj
    obtain ⟨rest, rfl⟩ := hbefore
    obtain ⟨m, hm, _⟩ := run_append hrun
    have hjm : j = m := hj.unique hm
    have hboth : Consistent m ∧ Shared ingest m := hm.invariant
      (I := fun k => Consistent k ∧ Shared ingest k) ⟨consistent_start, shared_start⟩
      fun t a u h hshares htaken =>
        ⟨consistent_step h.1 htaken, shared_step h.1 h.2 hshares htaken⟩
    rw [hjm]
    exact hboth.2.secretsWork

def sampleCloudflare : CloudflareCreateIn where
  apiToken := "0123456789".toList
  zoneId := List.replicate 32 'a'
  datasets := ["http_requests".toList]
  name := some "cf-test".toList

/-- A process with the secret that `sampleDraw` draws. -/
def sampleIngest : Ingest := ⟨sampleDraw.signingSecret, fun _ _ => false⟩

/-- The sample connector is created. -/
theorem step_sample : ∃ k, step start (.create sampleCloudflare sampleDraw) = some k ∧
    k.table.find sampleDraw.id ≠ none := by
  have hcheck : sampleCloudflare.check.isOk = true := by decide +kernel
  rcases createCloudflare_cases start.table sampleCloudflare sampleDraw with
    ⟨_, _, _, c, hnew, hid, _, heq⟩ | ⟨hnot, _⟩
  · simp only [step, heq]
    refine ⟨_, rfl, ?_⟩
    rw [Table.find_insert, if_pos hid.symm]
    simp
  · exact absurd ⟨hcheck, rfl, rfl⟩ hnot

theorem shared_secret_works : ∃ k,
    Run step (SharesSecret sampleIngest) start [.create sampleCloudflare sampleDraw] k ∧
      k.table.find sampleDraw.id ≠ none ∧
      ∀ before j, before <+: [Op.create sampleCloudflare sampleDraw] →
        AnyRun step start before j → SecretsWork sampleIngest j := by
  obtain ⟨k, htaken, hfind⟩ := step_sample
  have hrun : Run step (SharesSecret sampleIngest) start [.create sampleCloudflare sampleDraw] k :=
    Run.single (fun _ _ _ _ => rfl) htaken
  exact ⟨k, hrun, hfind, (secrets_work_iff _ _ _ hrun.any).mpr hrun⟩

/-- Whatever the secrets are, they do not survive a rotation. -/
theorem rotation_defeats_secrets :
    ¬ ∀ ingest ops k, AnyRun step start ops k → SecretsWork ingest k := by
  intro h
  obtain ⟨k, htaken, hfind⟩ := step_sample
  have hcreated : AnyRun step start [.create sampleCloudflare sampleDraw] k :=
    Run.single trivial htaken
  have hconsistent := consistent_step consistent_start htaken
  have hrotate : ∃ k', step k (.rotate sampleDraw.id sampleDraw) = some k' := by
    simp only [step]
    split
    · exact ⟨_, rfl⟩
    · exact ⟨_, rfl⟩
  obtain ⟨k', htaken'⟩ := hrotate
  have hshares := sharesSecret_of_secretsWork hconsistent (h sampleIngest _ _ hcreated) htaken'
    (h sampleIngest _ _ (.snoc hcreated trivial htaken'))
  exact absurd (hshares hfind) (by decide)

end ZaqorinCore.Server.Sources
