import ZaqorinCore.Server.Evidence

/-!
# The chain of custody

What `verify` answers about the files of an alert: whether some key of the store signs the sidecar,
and whether it answers at all. Over runs of `submit` and `rotate` the answer is yes as long as no
rotation drops a key that has signed a bundle: a rotation keeps the new key and the one before it.
-/

namespace ZaqorinCore.Server

open Text Base

namespace EvidenceStore

variable {ops : EvidenceOps} {st st' : EvidenceStore} {b : Bundle} {sig : Str} {sidecar : Bytes}

/-! ## Signatures -/

/-- `compare_digest` takes the text. -/
def Ascii (s : Str) : Prop := ∀ c ∈ s, c.toNat < 128

/-- A key of the store signs the sidecar. -/
def Signs (st : EvidenceStore) (sidecar : Bytes) (sig : Str) : Prop :=
  ∃ key ∈ st.keys.map Prod.snd, hexdigest (hmacSha256 key sidecar) = sig

theorem ascii_hexdigest (bs : Bytes) : Ascii (hexdigest bs) :=
  fun c hc => (hexAlphabet_ascii c (mem_hexdigest hc)).2

theorem signedWith_of_ascii (h : Ascii sig) (key : Bytes) :
    signedWith sidecar sig key = .ok (hexdigest (hmacSha256 key sidecar) == sig) := by
  have hhex : (hexdigest (hmacSha256 key sidecar)).all (fun c => c.toNat < 128) = true := by
    rw [List.all_eq_true]
    intro c hc
    simpa using ascii_hexdigest _ c hc
  have hsig : sig.all (fun c => c.toNat < 128) = true := by
    rw [List.all_eq_true]
    intro c hc
    simpa using h c hc
  unfold signedWith compareDigest
  rw [hhex, hsig]
  rfl

theorem signedWith_of_not_ascii (h : ¬ Ascii sig) (key : Bytes) :
    signedWith sidecar sig key = .error .typeError := by
  have hsig : ¬ (sig.all fun c => c.toNat < 128) = true := by
    intro hall
    apply h
    intro c hc
    simpa using List.all_eq_true.mp hall c hc
  unfold signedWith compareDigest
  simp [hsig]

theorem tryEveryKey_of_ascii (h : Ascii sig) (keys : List Bytes) :
    tryEveryKey sidecar sig keys =
      .ok (keys.any fun key => hexdigest (hmacSha256 key sidecar) == sig) := by
  induction keys with
  | nil => rfl
  | cons key keys ih =>
    unfold tryEveryKey
    rw [signedWith_of_ascii h, ih, List.any_cons]
    cases hexdigest (hmacSha256 key sidecar) == sig <;> rfl

theorem readText_hexdigest (bs : Bytes) : readText (utf8 (hexdigest bs)) = some (hexdigest bs) := by
  unfold readText
  rw [decodeUtf8_utf8 (ascii_hexdigest bs), Option.map_some, universalNewlines_of_not_mem]
  intro hcr
  exact absurd (mem_hexdigest hcr) (by simp [hexAlphabet])

/-! ## When `verify` answers -/

/-- The sidecar does not make `verify` raise: what `safe_loads` reads is a dictionary, with a key id
that is no list and no dictionary. -/
structure Readable (ops : EvidenceOps) (sidecar : Bytes) : Prop where
  decodes : ∀ e, safeLoads ops.lib (decodeReplace sidecar) = .error e → e = .decode
  names : ∀ v, safeLoads ops.lib (decodeReplace sidecar) = .ok v → ∃ keyId, keyIdOf v = .ok keyId

/-- What the `try` block does with a readable sidecar: it asks a key of the store or none. -/
theorem tryNamedKey_of_readable (st : EvidenceStore) (sig : Str) (hread : Readable ops sidecar) :
    st.tryNamedKey ops sidecar sig = .ok false ∨
      ∃ key ∈ st.keys.map Prod.snd,
        st.tryNamedKey ops sidecar sig = signedWith sidecar sig key := by
  unfold tryNamedKey
  cases hloads : safeLoads ops.lib (decodeReplace sidecar) with
  | error e =>
    cases hread.decodes e hloads
    exact Or.inl rfl
  | ok v =>
    obtain ⟨keyId, hkeyId⟩ := hread.names v hloads
    simp only [namedKey, hkeyId, bind, Except.bind, pure, Except.pure]
    cases hkey : keyId.bind (dictGet st.keys) with
    | none => exact Or.inl rfl
    | some key =>
      obtain ⟨id, -, hid⟩ := Option.bind_eq_some_iff.mp hkey
      obtain ⟨entry, hentry, rfl⟩ := Option.map_eq_some_iff.mp hid
      exact Or.inr ⟨entry.2, List.mem_map.mpr ⟨entry, List.mem_of_find?_eq_some hentry, rfl⟩, rfl⟩

/-- An answer to the sidecar's text shows that it is readable. -/
theorem readable_of_tryNamedKey {same : Bool} (h : st.tryNamedKey ops sidecar sig = .ok same) :
    Readable ops sidecar := by
  unfold tryNamedKey at h
  constructor
  · intro e hloads
    cases e with
    | decode => rfl
    | value =>
      rw [hloads] at h
      cases h
  · intro v hloads
    simp only [hloads, namedKey] at h
    cases hkeyId : keyIdOf v with
    | ok keyId => exact ⟨keyId, rfl⟩
    | error e =>
      rw [hkeyId] at h
      cases h

/-- A readable sidecar with an ASCII signature gets an answer, the right one. -/
theorem verifyBundle_of_readable (st : EvidenceStore) (hread : Readable ops b.sidecar)
    (htext : readText b.sig = some sig) (hsig : Ascii sig) :
    ∃ same, st.verifyBundle ops b = .ok same ∧ (same = true ↔ st.Signs b.sidecar sig) := by
  have hevery : ∃ same, tryEveryKey b.sidecar sig (st.keys.map Prod.snd) = .ok same ∧
      (same = true ↔ st.Signs b.sidecar sig) := by
    refine ⟨_, tryEveryKey_of_ascii hsig _, ?_⟩
    rw [List.any_eq_true]
    simp only [beq_iff_eq]
    rfl
  unfold verifyBundle
  simp only [htext]
  rcases tryNamedKey_of_readable st sig hread with hnone | ⟨key, hkey, hnamed⟩
  · rw [hnone]
    exact hevery
  · rw [hnamed, signedWith_of_ascii hsig]
    by_cases hsame : (hexdigest (hmacSha256 key b.sidecar) == sig) = true
    · rw [hsame]
      exact ⟨true, rfl, fun _ => ⟨key, hkey, by simpa using hsame⟩, fun _ => rfl⟩
    · have hfalse : (hexdigest (hmacSha256 key b.sidecar) == sig) = false := by simpa using hsame
      rw [hfalse]
      exact hevery

/-- `verify` answers about these contents. -/
def Answerable (ops : EvidenceOps) (b : Bundle) : Prop :=
  Readable ops b.sidecar ∧ ∃ sig, readText b.sig = some sig ∧ Ascii sig

theorem answers_iff (hkeys : st.keys ≠ []) :
    (∃ same, st.verifyBundle ops b = .ok same) ↔ Answerable ops b := by
  constructor
  · rintro ⟨same, hsame⟩
    unfold verifyBundle at hsame
    cases htext : readText b.sig with
    | none =>
      rw [htext] at hsame
      cases hsame
    | some sig =>
      simp only [htext] at hsame
      cases hnamed : st.tryNamedKey ops b.sidecar sig with
      | error e =>
        rw [hnamed] at hsame
        cases hsame
      | ok named =>
        have hread := readable_of_tryNamedKey hnamed
        refine ⟨hread, sig, htext, ?_⟩
        by_contra hsig
        have hevery : tryEveryKey b.sidecar sig (st.keys.map Prod.snd) = .error .typeError := by
          cases hst : st.keys with
          | nil => exact absurd hst hkeys
          | cons entry rest =>
            rw [List.map_cons, tryEveryKey, signedWith_of_not_ascii hsig]
            rfl
        rcases tryNamedKey_of_readable st sig hread with hnone | ⟨key, -, hkey⟩
        · rw [hnone] at hsame
          cases hevery.symm.trans hsame
        · rw [hkey, signedWith_of_not_ascii hsig] at hsame
          cases hsame
  · rintro ⟨hread, sig, htext, hsig⟩
    obtain ⟨same, hsame, -⟩ := verifyBundle_of_readable st hread htext hsig
    exact ⟨same, hsame⟩

/-! ## Submissions and rotations -/

/-- What `submit` does when it does not raise. -/
theorem submit_ok {p : EvidenceSubmit} (h : st.submit ops p = .ok st') :
    ∃ tarball key, checkedTarball ops p = .ok tarball ∧ alertDir p.alertId = .ok p.alertId ∧
      dictGet st.keys "current".toList = some key ∧
      st' = { st.put p.alertId (signedBundle ops p tarball key) with
        issued := ⟨p.alertId, key, signedBundle ops p tarball key⟩ :: st.issued } := by
  unfold submit at h
  cases htarball : checkedTarball ops p with
  | error e =>
    rw [htarball] at h
    cases h
  | ok tarball =>
    rw [htarball] at h
    cases hdir : alertDir p.alertId with
    | error e =>
      rw [hdir] at h
      cases h
    | ok dir =>
      rw [hdir] at h
      have hsame : dir = p.alertId := by
        unfold alertDir at hdir
        repeat' split at hdir
        all_goals cases hdir
        rfl
      subst hsame
      cases hkey : dictGet st.keys "current".toList with
      | none =>
        simp only [hkey, bind, Except.bind] at h
        cases h
      | some key =>
        simp only [hkey, bind, Except.bind] at h
        cases h
        exact ⟨tarball, key, rfl, rfl, rfl, rfl⟩

/-- `json.loads` undoes `json.dumps` for the sidecar of a submission, whose text is ASCII. -/
def SidecarLaw (ops : EvidenceOps) (p : EvidenceSubmit) : Prop :=
  Ascii (ops.dumps (sidecarOf p "current".toList)) ∧
    safeLoads ops.lib (ops.dumps (sidecarOf p "current".toList)) =
      .ok (sortKeys (sidecarOf p "current".toList))

theorem readable_signedBundle {p : EvidenceSubmit} (hlaw : SidecarLaw ops p) (tarball key : Bytes) :
    Readable ops (signedBundle ops p tarball key).sidecar := by
  have hkeys : ((sidecarMembers p "current".toList).map Prod.fst).Nodup :=
    (by decide : (["alert_id", "host_id", "captured_at", "captured_by", "bundle_sha256",
      "source_hashes", "key_id"].map String.toList).Nodup)
  have hfield : field (sortMembers (sidecarMembers p "current".toList)) "key_id" =
      some (.str "current".toList) :=
    field_sortMembers (v := .str "current".toList) hkeys rfl
  have hread : safeLoads ops.lib (decodeReplace (signedBundle ops p tarball key).sidecar) =
      .ok (sortKeys (sidecarOf p "current".toList)) := by
    unfold signedBundle
    dsimp only
    rw [decodeReplace_utf8 hlaw.1]
    exact hlaw.2
  constructor
  · intro e he
    rw [hread] at he
    cases he
  · intro v hv
    rw [hread] at hv
    cases hv
    refine ⟨some "current".toList, ?_⟩
    simp only [sidecarOf, sortKeys, keyIdOf]
    rw [hfield]

theorem verifyBundle_signed_iff (st : EvidenceStore) {p : EvidenceSubmit} (hlaw : SidecarLaw ops p)
    (tarball key : Bytes) :
    ∃ same, st.verifyBundle ops (signedBundle ops p tarball key) = .ok same ∧
      (same = true ↔ st.Signs (signedBundle ops p tarball key).sidecar
        (hexdigest (hmacSha256 key (signedBundle ops p tarball key).sidecar))) :=
  verifyBundle_of_readable st (readable_signedBundle hlaw tarball key) (readText_hexdigest _)
    (ascii_hexdigest _)

/-- A bundle verifies while the key that signed it is in the store. -/
theorem verifyBundle_signed {p : EvidenceSubmit} (hlaw : SidecarLaw ops p) (tarball key : Bytes)
    (hkey : key ∈ st.keys.map Prod.snd) :
    st.verifyBundle ops (signedBundle ops p tarball key) = .ok true := by
  obtain ⟨same, hsame, hiff⟩ := verifyBundle_signed_iff st hlaw tarball key
  rw [hsame, hiff.mpr ⟨key, hkey, rfl⟩]

/-- Every bundle verifies that was submitted. -/
def Survives (ops : EvidenceOps) (st : EvidenceStore) : Prop :=
  ∀ i ∈ st.issued, st.verify ops i.alertId = .ok true

/-- A rotation finds no bundle that another key than the current one or the new one has signed. -/
def KeepsKeys (st : EvidenceStore) : EvidenceAct → Prop
  | .submit _ => True
  | .rotate _ newKey =>
    ∀ i ∈ st.issued, dictGet st.keys "current".toList = some i.key ∨ i.key = newKey

instance (st : EvidenceStore) : (a : EvidenceAct) → Decidable (st.KeepsKeys a)
  | .submit _ => isTrue trivial
  | .rotate _ _ => inferInstanceAs (Decidable (∀ i ∈ st.issued, _ ∨ _))

structure CustodyInv (ops : EvidenceOps) (st : EvidenceStore) : Prop where
  current : ∃ key, dictGet st.keys "current".toList = some key
  signed : ∀ i ∈ st.issued, i.key ∈ st.keys.map Prod.snd ∧ alertDir i.alertId = .ok i.alertId ∧
    ∃ p tarball, SidecarLaw ops p ∧ i.bundle = signedBundle ops p tarball i.key
  stored : ∀ i ∈ st.issued, ∃ j ∈ st.issued, dictGet st.bundles i.alertId = some j.bundle

theorem dictGet_put_self (dir : Str) : dictGet (st.put dir b).bundles dir = some b :=
  dictGet_cons_self

theorem dictGet_put_of_ne {dir other : Str} (h : other ≠ dir) :
    dictGet (st.put dir b).bundles other = dictGet st.bundles other := by
  have hne : ¬ (dir == other) = true := by simpa using Ne.symm h
  unfold dictGet put
  dsimp only
  rw [List.find?_cons_of_neg (p := fun f : Str × Bundle => f.1 == other) hne, List.find?_filter]
  congr 2
  funext f
  by_cases hf : f.1 = other
  · simp [hf, h]
  · simp [hf]

theorem verify_of_stored {alertId : Str} (hdir : alertDir alertId = .ok alertId)
    (hstored : dictGet st.bundles alertId = some b) :
    st.verify ops alertId = st.verifyBundle ops b := by
  unfold verify
  rw [hdir]
  simp only [bind, Except.bind, hstored]

theorem survives_of_inv (h : CustodyInv ops st) : st.Survives ops := by
  intro i hi
  obtain ⟨j, hj, hstored⟩ := h.stored i hi
  obtain ⟨hkey, -, p, tarball, hlaw, hbundle⟩ := h.signed j hj
  rw [verify_of_stored (h.signed i hi).2.1 hstored, hbundle]
  exact verifyBundle_signed hlaw tarball j.key hkey

theorem postInit_current (signingKey : Bytes) (keys : List (Str × Bytes)) :
    ∃ key, dictGet (postInit signingKey keys).keys "current".toList = some key := by
  unfold postInit
  dsimp only
  split
  · rename_i hsome
    exact Option.isSome_iff_exists.mp hsome
  · rename_i hnone
    refine ⟨signingKey, ?_⟩
    exact dictGet_snoc (Option.not_isSome_iff_eq_none.mp hnone)

theorem postInit_inv (signingKey : Bytes) (keys : List (Str × Bytes)) :
    CustodyInv ops (postInit signingKey keys) :=
  ⟨postInit_current signingKey keys, fun _ hi => absurd hi List.not_mem_nil,
    fun _ hi => absurd hi List.not_mem_nil⟩

theorem submit_inv {p : EvidenceSubmit} (h : CustodyInv ops st) (hlaw : SidecarLaw ops p)
    (hok : st.submit ops p = .ok st') : CustodyInv ops st' := by
  obtain ⟨tarball, key, -, hdir, hkey, rfl⟩ := submit_ok hok
  refine ⟨h.current, ?_, ?_⟩
  · intro i hi
    rcases List.mem_cons.mp hi with rfl | hold
    · exact ⟨dictGet_mem hkey, hdir, p, tarball, hlaw, rfl⟩
    · exact h.signed i hold
  · intro i hi
    by_cases hid : i.alertId = p.alertId
    · refine ⟨_, List.mem_cons_self, ?_⟩
      rw [hid]
      exact dictGet_put_self p.alertId
    · rcases List.mem_cons.mp hi with rfl | hold
      · exact absurd rfl hid
      · obtain ⟨j, hj, hstored⟩ := h.stored i hold
        refine ⟨j, List.mem_cons_of_mem _ hj, ?_⟩
        rw [← hstored]
        exact dictGet_put_of_ne hid

theorem rotate_keys (newId : Uuid) (newKey : Bytes) {key : Bytes}
    (hkey : dictGet st.keys "current".toList = some key) :
    ∃ id, id ≠ "current".toList ∧ (st.rotate newId newKey).keys =
      [(id, newKey), ("previous".toList, key), ("current".toList, newKey)] := by
  refine ⟨hexPadded 32 newId.toNat, ?_, ?_⟩
  · intro heq
    have hlength := congrArg List.length heq
    rw [hexPadded_length] at hlength
    exact absurd hlength (by decide)
  · unfold rotate
    rw [hkey, Option.getD_some]

theorem rotate_inv {newId : Uuid} {newKey : Bytes} (h : CustodyInv ops st)
    (hok : st.KeepsKeys (.rotate newId newKey)) : CustodyInv ops (st.rotate newId newKey) := by
  obtain ⟨key, hkey⟩ := h.current
  obtain ⟨id, hid, hkeys⟩ := rotate_keys newId newKey hkey
  refine ⟨⟨newKey, ?_⟩, ?_, h.stored⟩
  · rw [hkeys, dictGet_cons_of_ne hid, dictGet_cons_of_ne (by decide)]
    exact dictGet_cons_self
  · intro i hi
    refine ⟨?_, (h.signed i hi).2⟩
    rw [hkeys]
    rcases hok i hi with hcurrent | hnew
    · rw [hkey] at hcurrent
      cases hcurrent
      simp
    · rw [hnew]
      simp

end EvidenceStore

/-- The bundles of a run survive its rotations as long as no key is dropped that has signed one. -/
theorem evidence_survives (ops : EvidenceOps) (signingKey : Bytes) (keys : List (Str × Bytes))
    (as : List EvidenceAct) (st : EvidenceStore)
    (hlaw : ∀ p, .submit p ∈ as → EvidenceStore.SidecarLaw ops p)
    (hrun : Run (EvidenceStore.step ops) EvidenceStore.KeepsKeys
      (EvidenceStore.postInit signingKey keys) as st) :
    st.Survives ops := by
  apply EvidenceStore.survives_of_inv
  refine hrun.mem.invariant (EvidenceStore.postInit_inv signingKey keys) ?_
  intro t a u hinv hok hstep
  cases a with
  | submit p =>
    unfold EvidenceStore.step at hstep
    dsimp only at hstep
    split at hstep
    · cases hstep
      exact EvidenceStore.submit_inv hinv (hlaw p hok.2) ‹_›
    · cases hstep
      exact hinv
  | rotate newId newKey =>
    cases hstep
    exact EvidenceStore.rotate_inv hinv hok.1

/-! ## A bundle and two rotations -/

/-- A capture of the one byte `x`. -/
def sampleSubmit : EvidenceSubmit where
  alertId := "a1".toList
  hostId := "h1".toList
  capturedAt := ⟨UtcTime.sample, 0, Soar.Timestamp.zero_micros⟩
  capturedBy := "auto".toList
  bundleSha256 := hexdigest (sha256 [120])
  sourceHashes := []
  tarballB64 := "eA==".toList
  tarball := none

def sidecarLine (members : List (Str × Json)) (key : String) : Str :=
  match field members key with
  | some (.str s) => "  ".toList ++ quoted key.toList ++ ": ".toList ++ quoted s ++ ",".toList
  | _ => []

/-- `json.dumps` of a sidecar without source files. -/
def sidecarDumps : Json → Str
  | .obj members =>
    List.intercalate ['\n'] (["\x7b".toList] ++
      ["alert_id", "bundle_sha256", "captured_at", "captured_by", "host_id", "key_id"].map
        (sidecarLine members) ++
      ["  \"source_hashes\": \x7b\x7d".toList, "\x7d".toList])
  | _ => []

def sidecarLoads (s : Str) : Except LoadError Json :=
  if s = sidecarDumps (sidecarOf sampleSubmit "current".toList) then
    .ok (sortKeys (sidecarOf sampleSubmit "current".toList))
  else .error .decode

def sampleEvidenceOps : EvidenceOps where
  dumps := sidecarDumps
  lib :=
    { loads := sidecarLoads
      uuid := fun _ => none
      datetime := fun _ => none
      literalTwo := fun _ => false }
  repr s := s

theorem safeLoads_of_depth {lib : Library} {s : Str} (h : (checkDepth s).isSome = true) :
    safeLoads lib s = lib.loads s := by
  obtain ⟨scan, hscan⟩ := Option.isSome_iff_exists.mp h
  unfold safeLoads
  rw [hscan]

theorem dumps_sampleEvidenceOps : sampleEvidenceOps.dumps = sidecarDumps := rfl

theorem loads_sampleEvidenceOps : sampleEvidenceOps.lib.loads = sidecarLoads := rfl

theorem sidecarLoads_dumps : sidecarLoads (sidecarDumps (sidecarOf sampleSubmit "current".toList)) =
    .ok (sortKeys (sidecarOf sampleSubmit "current".toList)) := by
  unfold sidecarLoads
  rw [if_pos rfl]

theorem sample_sidecarLaw : EvidenceStore.SidecarLaw sampleEvidenceOps sampleSubmit := by
  constructor
  · have hall : (sidecarDumps (sidecarOf sampleSubmit "current".toList)).all
        (fun c => c.toNat < 128) = true := by decide +kernel
    intro c hc
    simpa using List.all_eq_true.mp hall c hc
  · have hdepth : (checkDepth (sidecarDumps (sidecarOf sampleSubmit "current".toList))).isSome =
        true := by decide +kernel
    rw [dumps_sampleEvidenceOps, safeLoads_of_depth hdepth, loads_sampleEvidenceOps]
    exact sidecarLoads_dumps

/-- The bundle of the capture above. -/
def sampleBundle : Bundle := EvidenceStore.signedBundle sampleEvidenceOps sampleSubmit [120] [1]

def sampleIssued : Issued := ⟨"a1".toList, [1], sampleBundle⟩

/-- The store after its submission. -/
def sampleStore : EvidenceStore :=
  { (EvidenceStore.postInit [1] []).put "a1".toList sampleBundle with issued := [sampleIssued] }

theorem checkedTarball_sample :
    EvidenceStore.checkedTarball sampleEvidenceOps sampleSubmit = .ok [120] := by
  have htarball : sampleSubmit.asTarball = some [120] := by decide
  have hdigest : compareDigest (hexdigest (sha256 [120])) sampleSubmit.bundleSha256 = .ok true :=
    compareDigest_hexdigest _
  unfold EvidenceStore.checkedTarball
  rw [htarball]
  dsimp only
  rw [hdigest]

theorem step_sampleStore : EvidenceStore.step sampleEvidenceOps (EvidenceStore.postInit [1] [])
    (.submit sampleSubmit) = some sampleStore := by
  have hdir : alertDir sampleSubmit.alertId = .ok "a1".toList := by decide
  have hkey : dictGet (EvidenceStore.postInit [1] []).keys "current".toList = some [1] := by decide
  have hsubmit : (EvidenceStore.postInit [1] []).submit sampleEvidenceOps sampleSubmit =
      .ok sampleStore := by
    unfold EvidenceStore.submit
    rw [checkedTarball_sample, hdir]
    simp only [bind, Except.bind, hkey]
    rfl
  unfold EvidenceStore.step
  simp only [hsubmit]

theorem run_sampleStore : AnyRun (EvidenceStore.step sampleEvidenceOps)
    (EvidenceStore.postInit [1] []) [.submit sampleSubmit] sampleStore :=
  Run.single trivial step_sampleStore

/-- The first digits of the signatures tell the keys apart. -/
theorem sidecar_digits : (hexdigest (hmacSha256 [1] sampleBundle.sidecar)).take 2 = ['a', '0'] ∧
    (hexdigest (hmacSha256 [2] sampleBundle.sidecar)).take 2 = ['2', '5'] ∧
    (hexdigest (hmacSha256 [3] sampleBundle.sidecar)).take 2 = ['a', '1'] :=
  ⟨by decide +kernel, by decide +kernel, by decide +kernel⟩

/-- One rotation after the submission. -/
theorem evidence_survives_rotation :
    ∃ st, Run (EvidenceStore.step sampleEvidenceOps) EvidenceStore.KeepsKeys
        (EvidenceStore.postInit [1] []) [.submit sampleSubmit, .rotate 7#128 [2]] st ∧
      st.issued.map Issued.alertId = ["a1".toList] ∧ st.Survives sampleEvidenceOps := by
  have hsubmit : Run (EvidenceStore.step sampleEvidenceOps) EvidenceStore.KeepsKeys
      (EvidenceStore.postInit [1] []) [.submit sampleSubmit] sampleStore :=
    Run.single trivial step_sampleStore
  have hkeeps : sampleStore.KeepsKeys (.rotate 7#128 [2]) := by
    intro i hi
    rw [List.mem_singleton.mp hi]
    exact Or.inl (by decide)
  have hrun : Run (EvidenceStore.step sampleEvidenceOps) EvidenceStore.KeepsKeys
      (EvidenceStore.postInit [1] []) [.submit sampleSubmit, .rotate 7#128 [2]]
      (sampleStore.rotate 7#128 [2]) := .snoc hsubmit hkeeps rfl
  refine ⟨_, hrun, rfl, ?_⟩
  refine evidence_survives sampleEvidenceOps [1] [] _ _ ?_ hrun
  intro p hp
  have hp : p = sampleSubmit := by simpa using hp
  rw [hp]
  exact sample_sidecarLaw

/-- The second rotation drops the key that has signed the bundle. -/
theorem second_rotation_loses :
    ∃ st, AnyRun (EvidenceStore.step sampleEvidenceOps) (EvidenceStore.postInit [1] [])
        [.submit sampleSubmit, .rotate 7#128 [2], .rotate 8#128 [3]] st ∧
      ¬ st.Survives sampleEvidenceOps := by
  refine ⟨(sampleStore.rotate 7#128 [2]).rotate 8#128 [3],
    .snoc (.snoc run_sampleStore trivial rfl) trivial rfl, fun hsurvives => ?_⟩
  have hdropped : ∀ key ∈ ((sampleStore.rotate 7#128 [2]).rotate 8#128 [3]).keys.map Prod.snd,
      key = [2] ∨ key = [3] := by decide
  have hverify := hsurvives sampleIssued (List.mem_singleton_self _)
  rw [EvidenceStore.verify_of_stored (b := sampleBundle) (by decide) rfl] at hverify
  obtain ⟨same, hsame, hsigns⟩ := EvidenceStore.verifyBundle_signed_iff
    ((sampleStore.rotate 7#128 [2]).rotate 8#128 [3]) sample_sidecarLaw [120] [1]
  have htrue : same = true := Except.ok.inj (hsame.symm.trans hverify)
  obtain ⟨key, hkey, hsig⟩ := hsigns.mp htrue
  obtain ⟨hfirst, hsecond, hthird⟩ := sidecar_digits
  rcases hdropped key hkey with rfl | rfl
  · exact absurd (hsecond.symm.trans ((congrArg (List.take 2) hsig).trans hfirst)) (by decide)
  · exact absurd (hthird.symm.trans ((congrArg (List.take 2) hsig).trans hfirst)) (by decide)

/-! ## Changed files -/

namespace EvidenceStore

variable {ops : EvidenceOps} {st st' : EvidenceStore}

/-- What every run of the store gives: the signatures that it has issued are its own. -/
structure IssuedInv (st : EvidenceStore) : Prop where
  current : ∃ key, dictGet st.keys "current".toList = some key
  issued : ∀ i ∈ st.issued, alertDir i.alertId = .ok i.alertId ∧
    readText i.bundle.sig = some (hexdigest (hmacSha256 i.key i.bundle.sidecar))

theorem step_issued {a : EvidenceAct} (h : IssuedInv st) (hstep : st.step ops a = some st') :
    IssuedInv st' := by
  cases a with
  | submit p =>
    unfold step at hstep
    dsimp only at hstep
    split at hstep
    · rename_i u hok
      cases hstep
      obtain ⟨tarball, key, -, hdir, -, rfl⟩ := submit_ok hok
      refine ⟨h.current, ?_⟩
      intro i hi
      rcases List.mem_cons.mp hi with rfl | hold
      · exact ⟨hdir, readText_hexdigest _⟩
      · exact h.issued i hold
    · cases hstep
      exact h
  | rotate newId newKey =>
    cases hstep
    obtain ⟨key, hkey⟩ := h.current
    obtain ⟨id, hid, hkeys⟩ := rotate_keys newId newKey hkey
    refine ⟨⟨newKey, ?_⟩, h.issued⟩
    rw [hkeys, dictGet_cons_of_ne hid, dictGet_cons_of_ne (by decide)]
    exact dictGet_cons_self

/-- `verify` answers about the changed files, and says yes only when nothing has changed. -/
def TamperEvident (ops : EvidenceOps) (st : EvidenceStore) (alertId : Str) (own c : Bundle) :
    Prop :=
  (∃ same, (st.put alertId c).verify ops alertId = .ok same) ∧
    ((st.put alertId c).verify ops alertId = .ok true →
      c.tarball = own.tarball ∧ c.sidecar = own.sidecar)

/-- No key of the store, no new signature: what a key of the store signs is a sidecar that the store
has issued under such a key. -/
def Unforged (st : EvidenceStore) (c : Bundle) : Prop :=
  ∀ sig, readText c.sig = some sig → st.Signs c.sidecar sig →
    ∃ i ∈ st.issued, i.key ∈ st.keys.map Prod.snd ∧ i.bundle.sidecar = c.sidecar ∧
      readText i.bundle.sig = some sig

/-- The contents do not make `verify` raise, and they are a sidecar with its signature that the
store has issued only when they and the tarball are the alert's own. -/
def NotReplayed (ops : EvidenceOps) (st : EvidenceStore) (own c : Bundle) : Prop :=
  Answerable ops c ∧ ∀ i ∈ st.issued, i.key ∈ st.keys.map Prod.snd → i.bundle.sidecar = c.sidecar →
    readText i.bundle.sig = readText c.sig → c.tarball = own.tarball ∧ c.sidecar = own.sidecar

theorem issued_of_run {signingKey : Bytes} {keys : List (Str × Bytes)} {as : List EvidenceAct}
    (hrun : AnyRun (step ops) (postInit signingKey keys) as st) : IssuedInv st := by
  refine hrun.invariant ?_ fun _ _ _ h _ hstep => step_issued h hstep
  exact ⟨postInit_current signingKey keys, fun i hi => absurd hi List.not_mem_nil⟩

theorem verify_put {alertId : Str} (hdir : alertDir alertId = .ok alertId) (c : Bundle) :
    (st.put alertId c).verify ops alertId = (st.put alertId c).verifyBundle ops c :=
  verify_of_stored hdir (dictGet_put_self alertId)

end EvidenceStore

/-- For which contents of the three files the chain of custody is one. -/
theorem tamper_evident_iff (ops : EvidenceOps) (signingKey : Bytes) (keys : List (Str × Bytes))
    (as : List EvidenceAct) (st : EvidenceStore)
    (hrun : AnyRun (EvidenceStore.step ops) (EvidenceStore.postInit signingKey keys) as st)
    (i : Issued) (hi : i ∈ st.issued) (c : Bundle) (hforged : st.Unforged c) :
    st.TamperEvident ops i.alertId i.bundle c ↔ st.NotReplayed ops i.bundle c := by
  have hinv := EvidenceStore.issued_of_run hrun
  have hkeys : (st.put i.alertId c).keys ≠ [] := by
    obtain ⟨key, hkey⟩ := hinv.current
    intro hnil
    rw [show st.keys = [] from hnil] at hkey
    cases hkey
  unfold EvidenceStore.TamperEvident EvidenceStore.NotReplayed
  rw [EvidenceStore.verify_put (hinv.issued i hi).1, EvidenceStore.answers_iff hkeys]
  refine and_congr_right fun hanswer => ?_
  obtain ⟨hread, sig, htext, hsig⟩ := hanswer
  obtain ⟨same, hsame, hiff⟩ :=
    EvidenceStore.verifyBundle_of_readable (st.put i.alertId c) hread htext hsig
  rw [hsame]
  constructor
  · intro htrue j hj hkey hsidecar hsigs
    apply htrue
    rw [hiff.mpr]
    refine ⟨j.key, hkey, ?_⟩
    have hown := (hinv.issued j hj).2
    rw [hsigs, htext] at hown
    rw [← hsidecar]
    exact (Option.some.inj hown).symm
  · intro hreplayed htrue
    obtain ⟨j, hj, hkey, hsidecar, hsigs⟩ := hforged sig htext (hiff.mp (Except.ok.inj htrue))
    exact hreplayed j hj hkey hsidecar (hsigs.trans htext.symm)

/-! ## A changed sidecar and a changed tarball -/

def Bundle.withSidecar (b : Bundle) (sidecar : Bytes) : Bundle := ⟨b.tarball, sidecar, b.sig⟩

def Bundle.withTarball (b : Bundle) (tarball : Bytes) : Bundle := ⟨tarball, b.sidecar, b.sig⟩

section Changes

variable {ops : EvidenceOps} {st : EvidenceStore} {i : Issued}

/-- The old signature is none of the new sidecar. -/
theorem unforged_withSidecar {sidecar : Bytes} (hkeys : st.keys.map Prod.snd = [i.key])
    (hown : readText i.bundle.sig = some (hexdigest (hmacSha256 i.key i.bundle.sidecar)))
    (hne : hexdigest (hmacSha256 i.key sidecar) ≠ hexdigest (hmacSha256 i.key i.bundle.sidecar)) :
    st.Unforged (i.bundle.withSidecar sidecar) := by
  intro sig htext ⟨key, hkey, hsig⟩
  have hsame : hexdigest (hmacSha256 i.key i.bundle.sidecar) = sig :=
    Option.some.inj (hown.symm.trans htext)
  rw [hkeys] at hkey
  rw [List.mem_singleton.mp hkey, ← hsame] at hsig
  exact absurd hsig hne

theorem unforged_withTarball {tarball : Bytes} (hi : i ∈ st.issued)
    (hkey : i.key ∈ st.keys.map Prod.snd) : st.Unforged (i.bundle.withTarball tarball) := by
  intro sig htext _
  exact ⟨i, hi, hkey, rfl, htext⟩

theorem notReplayed_withSidecar {sidecar : Bytes} (hissued : st.issued = [i])
    (hread : EvidenceStore.Readable ops sidecar)
    (hown : readText i.bundle.sig = some (hexdigest (hmacSha256 i.key i.bundle.sidecar)))
    (hne : hexdigest (hmacSha256 i.key sidecar) ≠ hexdigest (hmacSha256 i.key i.bundle.sidecar)) :
    st.NotReplayed ops i.bundle (i.bundle.withSidecar sidecar) := by
  refine ⟨⟨hread, _, hown, EvidenceStore.ascii_hexdigest _⟩, ?_⟩
  intro j hj _ hsidecar _
  rw [hissued] at hj
  rw [List.mem_singleton.mp hj] at hsidecar
  have hsame : i.bundle.sidecar = sidecar := hsidecar
  rw [hsame] at hne
  exact absurd rfl hne

/-- The tarball is not looked at. -/
theorem verify_withTarball {tarball : Bytes} (hdir : alertDir i.alertId = .ok i.alertId)
    (hkey : i.key ∈ st.keys.map Prod.snd) (hread : EvidenceStore.Readable ops i.bundle.sidecar)
    (hown : readText i.bundle.sig = some (hexdigest (hmacSha256 i.key i.bundle.sidecar))) :
    (st.put i.alertId (i.bundle.withTarball tarball)).verify ops i.alertId = .ok true := by
  rw [EvidenceStore.verify_put hdir]
  obtain ⟨same, hsame, hiff⟩ := EvidenceStore.verifyBundle_of_readable
    (st.put i.alertId (i.bundle.withTarball tarball)) (b := i.bundle.withTarball tarball) hread hown
    (EvidenceStore.ascii_hexdigest _)
  rw [hsame, hiff.mpr ⟨i.key, hkey, rfl⟩]

end Changes

theorem keys_sampleStore : sampleStore.keys.map Prod.snd = [sampleIssued.key] := by decide

theorem issued_sampleStore : sampleStore.issued = [sampleIssued] := rfl

theorem sampleIssued_bundle : sampleIssued.bundle =
    EvidenceStore.signedBundle sampleEvidenceOps sampleSubmit [120] [1] := rfl

theorem sampleIssued_mem : sampleIssued ∈ sampleStore.issued := by
  rw [issued_sampleStore]
  exact List.mem_singleton_self _

/-- One digit tells the signatures apart. -/
theorem letter_differs : hexdigest (hmacSha256 sampleIssued.key [120]) ≠
    hexdigest (hmacSha256 sampleIssued.key sampleIssued.bundle.sidecar) := by
  intro h
  have hletter : (hexdigest (hmacSha256 [1] [120])).take 2 = ['c', '0'] := by
    decide +kernel
  have htake := congrArg (List.take 2) h
  exact absurd (hletter.symm.trans (htake.trans sidecar_digits.1)) (by decide)

theorem letter_readable : EvidenceStore.Readable sampleEvidenceOps [120] := by
  have hloads : safeLoads sampleEvidenceOps.lib (decodeReplace [120]) = .error .decode := by
    rw [safeLoads_of_depth (by decide), loads_sampleEvidenceOps]
    unfold sidecarLoads
    rw [if_neg (by decide +kernel)]
  constructor
  · intro e he
    rw [hloads] at he
    cases he
    rfl
  · intro v hv
    rw [hloads] at hv
    cases hv

/-- A sidecar that is replaced by one letter is found out. -/
theorem changed_sidecar_caught :
    sampleStore.TamperEvident sampleEvidenceOps sampleIssued.alertId sampleIssued.bundle
      (sampleIssued.bundle.withSidecar [120]) := by
  have hown := ((EvidenceStore.issued_of_run run_sampleStore).issued sampleIssued
    sampleIssued_mem).2
  exact (tamper_evident_iff sampleEvidenceOps [1] [] [.submit sampleSubmit] sampleStore
    run_sampleStore sampleIssued sampleIssued_mem _
    (unforged_withSidecar keys_sampleStore hown letter_differs)).mpr
    (notReplayed_withSidecar issued_sampleStore letter_readable hown
      letter_differs)

/-- A tarball that is replaced is not. -/
theorem changed_tarball_passes :
    ∃ st, AnyRun (EvidenceStore.step sampleEvidenceOps) (EvidenceStore.postInit [1] [])
        [.submit sampleSubmit] st ∧ ∃ i ∈ st.issued, ∃ c, st.Unforged c ∧
      ¬ st.TamperEvident sampleEvidenceOps i.alertId i.bundle c := by
  have hinv := (EvidenceStore.issued_of_run run_sampleStore).issued sampleIssued sampleIssued_mem
  have hkey : sampleIssued.key ∈ sampleStore.keys.map Prod.snd := by
    rw [keys_sampleStore]
    exact List.mem_singleton_self _
  have hread : EvidenceStore.Readable sampleEvidenceOps sampleIssued.bundle.sidecar := by
    rw [sampleIssued_bundle]
    exact EvidenceStore.readable_signedBundle sample_sidecarLaw [120] [1]
  refine ⟨sampleStore, run_sampleStore, sampleIssued, sampleIssued_mem,
    sampleIssued.bundle.withTarball [121], unforged_withTarball sampleIssued_mem hkey, ?_⟩
  intro ⟨_, honly⟩
  have hsame := (honly (verify_withTarball hinv.1 hkey hread hinv.2)).1
  exact absurd hsame (by decide)

end ZaqorinCore.Server
