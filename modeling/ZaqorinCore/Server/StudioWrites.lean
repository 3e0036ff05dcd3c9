import ZaqorinCore.Server.StudioLive

/-!
# Writes of the rule studio

`create_rule` and `update_rule` replace the file of a rule before the loader and `get_rule` read it,
although the comment in them says that compile errors are caught "before we touch disk". What those
two convert and the body does not check is refused too late: the count and the timeframe of the
detection block, and a source that is no text. A request changes nothing when it fails exactly if it
writes no body that leaves something of that kind, and in runs of such requests `rules/custom` goes
on to load with every rule that was accepted: `studio_writes_when_convertible`.
-/

namespace ZaqorinCore.Server

open Text Base

/-! ## Requests -/

inductive StudioRequest
  | create (fresh : Uuid) (body : RuleIn)
  | update (ruleId : Str) (body : RuleIn)
  | delete (ruleId : Str)

/-- The handler of the request. -/
def handleStudio (rt : Runtime) (ops : StudioOps) (store : RuleStore) :
    StudioRequest → RuleStore × Except StudioError (Option RuleDetail)
  | .create fresh body =>
    let (store, reply) := createRule rt ops store fresh body
    (store, reply.map some)
  | .update ruleId body =>
    let (store, reply) := updateRule rt ops store ruleId body
    (store, reply.map some)
  | .delete ruleId =>
    let (store, reply) := deleteRule ops store ruleId
    (store, reply.map fun _ => none)

/-- The files, and the rules that were accepted and not since updated or deleted. -/
structure StudioState where
  store : RuleStore
  accepted : List (Str × RuleIn)

/-- The accepted rules after an accepted request. -/
def recordAccepted (rt : Runtime) (ops : StudioOps) (accepted : List (Str × RuleIn)) :
    StudioRequest → List (Str × RuleIn)
  | .create fresh body =>
    match sanitizeRuleId rt ops fresh body.id body.title with
    | .ok ruleId => (ruleId, body) :: accepted.filter fun a => a.1 ≠ ruleId
    | .error _ => accepted
  | .update ruleId body => (ruleId, body) :: accepted.filter fun a => a.1 ≠ ruleId
  | .delete ruleId => accepted.filter fun a => a.1 ≠ ruleId

def studioStep (rt : Runtime) (ops : StudioOps) (st : StudioState) (request : StudioRequest) :
    Option StudioState :=
  match handleStudio rt ops st.store request with
  | (store, .ok _) => some ⟨store, recordAccepted rt ops st.accepted request⟩
  | (store, .error _) => some ⟨store, st.accepted⟩

/-! ## The directory -/

def isRuleFile (name : Str) : Bool :=
  ".yml".toList.isSuffixOf name || ".yaml".toList.isSuffixOf name

/-- `rules/custom` as `load_rules_from_dir` sees it. -/
def RuleStore.ruleDir (ops : StudioOps) (store : RuleStore) : RuleDir where
  exist dir := dir == ruleFolder ops .custom
  isDir dir := dir == ruleFolder ops .custom
  rglob dir pattern :=
    (store.custom.rows.filter fun f => (pattern.toList.drop 1).isSuffixOf f.name).map fun f =>
      pathBelow dir f.name
  loaded path :=
    match store.custom.rows.find? fun f => pathBelow (ruleFolder ops .custom) f.name == path with
    | some f => f.body.loaded ops
    | none => .osError "FileNotFoundError"

/-- `load_rules_from_dir` of `rules/custom` -/
def loadCustom (rt : Runtime) (ops : StudioOps) (store : RuleStore) :
    Except PyError (List CompiledSigmaRule) :=
  loadRulesFromDir ((store.ruleDir ops).files rt) (.path (ruleFolder ops .custom))

/-- The rule that the document of the body compiles to is among the rules. -/
def Contains (rt : Runtime) (ops : StudioOps) (rules : List CompiledSigmaRule) (ruleId : Str)
    (body : RuleIn) : Prop :=
  ∃ condition, validateCondition rt ops body.condition = .ok condition ∧
    ∃ rule ∈ rules, compileRule rt (resolvePath ops .custom ruleId)
      (body.docFields condition rt ruleId) = .ok rule

def StudioRequest.body : StudioRequest → Option RuleIn
  | .create _ body => some body
  | .update _ body => some body
  | .delete _ => none

/-- YAML reads the document of the request back as it was written. -/
def StudioRequest.ReadsBack (rt : Runtime) (ops : StudioOps) : StudioRequest → Prop
  | .create fresh body => ∀ ruleId,
      sanitizeRuleId rt ops fresh body.id body.title = .ok ruleId → body.ReadsBack rt ops ruleId
  | .update ruleId body => body.ReadsBack rt ops ruleId
  | .delete _ => True

/-- The request passes all that is checked before the file of the rule is replaced by the text. -/
def StudioRequest.Writes (rt : Runtime) (ops : StudioOps) (store : RuleStore) (ruleId text : Str) :
    StudioRequest → Prop
  | .create fresh body => sanitizeRuleId rt ops fresh body.id body.title = .ok ruleId ∧
      store.custom.find (fileName ruleId) = none ∧
      ∃ condition, validateCondition rt ops body.condition = .ok condition ∧
        ops.dump (body.doc rt ruleId condition) = .ok text
  | .update id body => id = ruleId ∧ matchesRuleId ruleId = true ∧
      (store.custom.find (fileName ruleId)).isSome ∧
      ∃ condition, validateCondition rt ops body.condition = .ok condition ∧
        ops.dump (body.doc rt ruleId condition) = .ok text
  | .delete _ => False

/-- If the request writes a text, nothing in its body is left to be refused after the write, or the
file has that text already. -/
def StudioRequest.Sound (rt : Runtime) (ops : StudioOps) (store : RuleStore)
    (request : StudioRequest) : Prop :=
  ∀ body ruleId text, request.body = some body → request.Writes rt ops store ruleId text →
    body.Convertible rt ∨
      store.custom.find (fileName ruleId) = some ⟨fileName ruleId, .text text⟩

/-! ## What a request does -/

section Requests

variable {rt : Runtime} {ops : StudioOps} {store : RuleStore} {ruleId text condition : Str}
  {body : RuleIn}

/-- The rule is in its file: the document of the body, which compiles. -/
def HoldsRule (rt : Runtime) (ops : StudioOps) (store : RuleStore) (ruleId : Str)
    (body : RuleIn) : Prop :=
  ∃ condition text rule, validateCondition rt ops body.condition = .ok condition ∧
    store.custom.find (fileName ruleId) = some ⟨fileName ruleId, .text text⟩ ∧
    ops.load text = .ok (body.doc rt ruleId condition).toYaml ∧
    compileRule rt (resolvePath ops .custom ruleId) (body.docFields condition rt ruleId) = .ok rule

theorem holdsRule_write (hconvertible : body.Convertible rt) (hid : matchesRuleId ruleId = true)
    (hcondition : validateCondition rt ops body.condition = .ok condition)
    (hload : ops.load text = .ok (body.doc rt ruleId condition).toYaml) :
    HoldsRule rt ops (store.write ruleId text) ruleId body := by
  obtain ⟨c, hc⟩ := validated_condition hcondition
  obtain ⟨rule, -, hcompile, -, -⟩ :=
    hconvertible.written store hid (ne_nil_of_conditionOf hc) hload
  exact ⟨condition, text, rule, hcondition, find_write store ruleId text, hload, hcompile⟩

/-- A written rule is shown exactly when its body is convertible. -/
theorem getRule_write_iff (store : RuleStore) (hid : matchesRuleId ruleId = true)
    (hcondition : condition ≠ [])
    (hload : ops.load text = .ok (body.doc rt ruleId condition).toYaml) :
    (∃ detail, getRule rt ops (store.write ruleId text) ruleId = .ok detail) ↔
      body.Convertible rt := by
  constructor
  · rintro ⟨detail, hdetail⟩
    exact RuleIn.convertible_of_shown hid hcondition hload hdetail
  · intro hconvertible
    obtain ⟨-, detail, -, -, hdetail⟩ := hconvertible.written store hid hcondition hload
    exact ⟨detail, hdetail⟩

/-- A written rule that does not compile is not convertible. -/
theorem not_convertible_of_parse (store : RuleStore) (hid : matchesRuleId ruleId = true)
    (hcondition : condition ≠ [])
    (hload : ops.load text = .ok (body.doc rt ruleId condition).toYaml)
    (hparse : ∀ rule, parseStored rt ops (store.write ruleId text) ruleId ≠ .ok [rule]) :
    ¬ body.Convertible rt := by
  intro hconvertible
  obtain ⟨rule, -, -, hok, -⟩ := hconvertible.written store hid hcondition hload
  exact hparse rule hok

theorem no_detail (err : StudioError) :
    ¬ ∃ detail, (.error err : Except StudioError RuleDetail) = .ok detail := by
  rintro ⟨detail, h⟩
  cases h

/-- `create_rule` from the write on. -/
theorem createRule_written {fresh : Uuid}
    (hid : sanitizeRuleId rt ops fresh body.id body.title = .ok ruleId)
    (hcondition : validateCondition rt ops body.condition = .ok condition)
    (hfree : store.custom.find (fileName ruleId) = none)
    (htext : ops.dump (body.doc rt ruleId condition) = .ok text)
    (hload : ops.load text = .ok (body.doc rt ruleId condition).toYaml) :
    ∃ reply, createRule rt ops store fresh body = (store.write ruleId text, reply) ∧
      ((∃ detail, reply = .ok detail) ↔ body.Convertible rt) := by
  obtain ⟨c, hc⟩ := validated_condition hcondition
  have hne := ne_nil_of_conditionOf hc
  have hmatch := matchesRuleId_of_sanitize hid
  have hunparsed := not_convertible_of_parse store hmatch hne hload
  simp only [createRule, hid, hcondition, hfree, htext]
  cases hparse : parseStored rt ops (store.write ruleId text) ruleId with
  | error err =>
    refine ⟨_, rfl, iff_of_false (no_detail _) (hunparsed fun rule h => ?_)⟩
    cases hparse.symm.trans h
  | ok rules =>
    cases rules with
    | nil =>
      refine ⟨_, rfl, iff_of_false (no_detail _) (hunparsed fun rule h => ?_)⟩
      cases hparse.symm.trans h
    | cons rule rules => exact ⟨_, rfl, getRule_write_iff store hmatch hne hload⟩

theorem createRule_unwritten {fresh : Uuid} (h : ∀ ruleId text,
    ¬ (StudioRequest.create fresh body).Writes rt ops store ruleId text) :
    ∃ err, createRule rt ops store fresh body = (store, .error err) := by
  unfold createRule
  split
  · exact ⟨_, rfl⟩
  rename_i ruleId hid
  split
  · exact ⟨_, rfl⟩
  rename_i condition hcondition
  split
  · exact ⟨_, rfl⟩
  rename_i hfree
  split
  · exact ⟨_, rfl⟩
  rename_i text htext
  exact absurd ⟨hid, Option.not_isSome_iff_eq_none.mp hfree, condition, hcondition, htext⟩
    (h ruleId text)

/-- What `update_rule` and `delete_rule` let through has an id that names a file. -/
theorem requireCustom_ok_iff {builtinDetail missingDetail : Str} :
    requireCustom store ruleId builtinDetail missingDetail = .ok () ↔
      matchesRuleId ruleId = true ∧ (store.custom.find (fileName ruleId)).isSome := by
  unfold requireCustom validateRuleId
  by_cases hid : matchesRuleId ruleId = true
  · by_cases hfile : (store.custom.find (fileName ruleId)).isSome
    · rw [if_pos hid, if_pos hfile]
      exact iff_of_true rfl ⟨hid, hfile⟩
    · rw [if_pos hid, if_neg hfile]
      refine iff_of_false (fun h => ?_) fun h => hfile h.2
      split at h <;> cases h
  · rw [if_neg hid]
    refine iff_of_false (fun h => ?_) fun h => hid h.1
    cases h

/-- `update_rule` from the write on. -/
theorem updateRule_written (hid : matchesRuleId ruleId = true)
    (hfile : (store.custom.find (fileName ruleId)).isSome)
    (hcondition : validateCondition rt ops body.condition = .ok condition)
    (htext : ops.dump (body.doc rt ruleId condition) = .ok text)
    (hload : ops.load text = .ok (body.doc rt ruleId condition).toYaml) :
    ∃ reply, updateRule rt ops store ruleId body = (store.write ruleId text, reply) ∧
      ((∃ detail, reply = .ok detail) ↔ body.Convertible rt) := by
  obtain ⟨c, hc⟩ := validated_condition hcondition
  have hne := ne_nil_of_conditionOf hc
  simp only [updateRule, requireCustom_ok_iff.mpr ⟨hid, hfile⟩, hcondition, htext]
  cases hparse : parseStored rt ops (store.write ruleId text) ruleId with
  | error err =>
    refine ⟨_, rfl, iff_of_false (no_detail _) ?_⟩
    refine not_convertible_of_parse store hid hne hload fun rule h => ?_
    cases hparse.symm.trans h
  | ok rules => exact ⟨_, rfl, getRule_write_iff store hid hne hload⟩

theorem updateRule_unwritten (h : ∀ id text,
    ¬ (StudioRequest.update ruleId body).Writes rt ops store id text) :
    ∃ err, updateRule rt ops store ruleId body = (store, .error err) := by
  unfold updateRule
  split
  · exact ⟨_, rfl⟩
  rename_i hcustom
  split
  · exact ⟨_, rfl⟩
  rename_i condition hcondition
  split
  · exact ⟨_, rfl⟩
  rename_i text htext
  obtain ⟨hid, hfile⟩ := requireCustom_ok_iff.mp hcustom
  exact absurd ⟨rfl, hid, hfile, condition, hcondition, htext⟩ (h ruleId text)

theorem deleteRule_cases (ops : StudioOps) (store : RuleStore) (ruleId : Str) :
    (∃ err, deleteRule ops store ruleId = (store, .error err)) ∨
      deleteRule ops store ruleId =
        ({ store with custom := store.custom.remove (fileName ruleId) }, .ok ()) := by
  unfold deleteRule
  split
  · exact Or.inl ⟨_, rfl⟩
  · exact Or.inr rfl

/-- A request that writes is answered with the rule exactly when its body is convertible. -/
theorem handleStudio_written {request : StudioRequest} (hback : request.ReadsBack rt ops)
    (hbody : request.body = some body) (hwrites : request.Writes rt ops store ruleId text) :
    ∃ reply : Except StudioError RuleDetail,
      handleStudio rt ops store request = (store.write ruleId text, reply.map some) ∧
      ((∃ detail, reply = .ok detail) ↔ body.Convertible rt) ∧
      (body.Convertible rt → HoldsRule rt ops (store.write ruleId text) ruleId body) ∧
      ∀ accepted, recordAccepted rt ops accepted request =
        (ruleId, body) :: accepted.filter fun a => a.1 ≠ ruleId := by
  cases request with
  | create fresh b =>
    cases hbody
    obtain ⟨hid, hfree, condition, hcondition, htext⟩ := hwrites
    have hload := hback ruleId hid condition text hcondition htext
    obtain ⟨reply, hreply, hiff⟩ := createRule_written hid hcondition hfree htext hload
    refine ⟨reply, by simp only [handleStudio, hreply], hiff, fun hconvertible => ?_, ?_⟩
    · exact holdsRule_write hconvertible (matchesRuleId_of_sanitize hid) hcondition hload
    · intro accepted
      simp only [recordAccepted, hid]
  | update id b =>
    cases hbody
    obtain ⟨rfl, hid, hfile, condition, hcondition, htext⟩ := hwrites
    have hload := hback condition text hcondition htext
    obtain ⟨reply, hreply, hiff⟩ := updateRule_written hid hfile hcondition htext hload
    refine ⟨reply, by simp only [handleStudio, hreply], hiff, fun hconvertible => ?_, fun _ => rfl⟩
    exact holdsRule_write hconvertible hid hcondition hload
  | delete id => cases hbody

/-- A request that does not write is refused, or deletes a rule. -/
theorem handleStudio_unwritten {request : StudioRequest}
    (h : ∀ ruleId text, ¬ request.Writes rt ops store ruleId text) :
    (∃ err, handleStudio rt ops store request = (store, .error err)) ∨
      ∃ ruleId, request = .delete ruleId ∧ handleStudio rt ops store request =
        ({ store with custom := store.custom.remove (fileName ruleId) }, .ok none) := by
  cases request with
  | create fresh body =>
    obtain ⟨err, herr⟩ := createRule_unwritten h
    left
    simp only [handleStudio, herr]
    exact ⟨err, rfl⟩
  | update ruleId body =>
    obtain ⟨err, herr⟩ := updateRule_unwritten h
    left
    simp only [handleStudio, herr]
    exact ⟨err, rfl⟩
  | delete ruleId =>
    rcases deleteRule_cases ops store ruleId with ⟨err, herr⟩ | hok
    · left
      simp only [handleStudio, herr]
      exact ⟨err, rfl⟩
    · right
      simp only [handleStudio, hok]
      exact ⟨ruleId, rfl, rfl⟩

theorem replaceFile_same {folder : RuleFolder} {name : Str} {body : FileBody}
    (h : folder.find name = some ⟨name, body⟩) : replaceFile folder name body = folder := by
  have hrow : ∀ f ∈ folder.rows, (if f.name == name then { f with body } else f) = f := by
    intro f hf
    split
    · rename_i hname
      have hfind := Table.find_of_mem hf
      rw [eq_of_beq hname, h] at hfind
      cases hfind
      rfl
    · rfl
  unfold replaceFile
  split
  · rename_i hnone
    cases hnone.symm.trans h
  · obtain ⟨rows, nodup⟩ := folder
    simp only [Table.updateWhere, Table.mk.injEq]
    exact (List.map_congr_left hrow).trans (List.map_id' rows)

/-- A write changes nothing exactly when the file has the text already. -/
theorem write_eq_iff : store.write ruleId text = store ↔
    store.custom.find (fileName ruleId) = some ⟨fileName ruleId, .text text⟩ := by
  constructor
  · intro h
    have hfind := find_write store ruleId text
    rwa [h] at hfind
  · intro h
    rw [RuleStore.write, replaceFile_same h]

end Requests

/-! ## What a step does -/

/-- A sound request fails and changes nothing, or writes the rule of its body, or deletes one. -/
inductive StudioEffect (rt : Runtime) (ops : StudioOps) (st : StudioState) :
    StudioState → Except StudioError (Option RuleDetail) → Prop
  | failed (err : StudioError) : StudioEffect rt ops st st (.error err)
  | written (ruleId text : Str) (body : RuleIn) (detail : RuleDetail)
    (holds : HoldsRule rt ops (st.store.write ruleId text) ruleId body) :
    StudioEffect rt ops st ⟨st.store.write ruleId text,
      (ruleId, body) :: st.accepted.filter fun a => a.1 ≠ ruleId⟩ (.ok (some detail))
  | deleted (ruleId : Str) :
    StudioEffect rt ops st ⟨{ st.store with custom := st.store.custom.remove (fileName ruleId) },
      st.accepted.filter fun a => a.1 ≠ ruleId⟩ (.ok none)

section Steps

variable {rt : Runtime} {ops : StudioOps} {request : StudioRequest}

theorem body_of_writes {store : RuleStore} {ruleId text : Str}
    (h : request.Writes rt ops store ruleId text) : ∃ body, request.body = some body := by
  cases request with
  | create fresh body => exact ⟨body, rfl⟩
  | update id body => exact ⟨body, rfl⟩
  | delete id => cases h

theorem studioEffect_of_sound (st : StudioState) (hback : request.ReadsBack rt ops)
    (hsound : request.Sound rt ops st.store) :
    ∃ st', studioStep rt ops st request = some st' ∧
      (handleStudio rt ops st.store request).1 = st'.store ∧
      StudioEffect rt ops st st' (handleStudio rt ops st.store request).2 := by
  unfold studioStep
  by_cases hwrites : ∃ ruleId text, request.Writes rt ops st.store ruleId text
  · obtain ⟨ruleId, text, hwrites⟩ := hwrites
    obtain ⟨body, hbody⟩ := body_of_writes hwrites
    obtain ⟨reply, hreply, hiff, hholds, hrecord⟩ := handleStudio_written hback hbody hwrites
    rw [hreply]
    cases reply with
    | error err =>
      -- what is refused after the write was in the file already
      have hnot : ¬ body.Convertible rt := fun h => no_detail err (hiff.mpr h)
      have hsame := write_eq_iff.mpr ((hsound body ruleId text hbody hwrites).resolve_left hnot)
      rw [hsame]
      exact ⟨st, rfl, rfl, .failed err⟩
    | ok detail =>
      refine ⟨_, rfl, rfl, ?_⟩
      rw [hrecord]
      exact .written ruleId text body detail (hholds (hiff.mp ⟨detail, rfl⟩))
  · have hnot : ∀ ruleId text, ¬ request.Writes rt ops st.store ruleId text :=
      fun ruleId text h => hwrites ⟨ruleId, text, h⟩
    rcases handleStudio_unwritten hnot with ⟨err, herr⟩ | ⟨ruleId, rfl, hok⟩
    · rw [herr]
      exact ⟨st, rfl, rfl, .failed err⟩
    · rw [hok]
      exact ⟨_, rfl, rfl, .deleted ruleId⟩

/-- A request that fails leaves the files as they were exactly when it is sound. -/
theorem unchanged_iff_sound (store : RuleStore) (hback : request.ReadsBack rt ops) :
    (∀ err, (handleStudio rt ops store request).2 = .error err →
      (handleStudio rt ops store request).1 = store) ↔ request.Sound rt ops store := by
  constructor
  · intro h body ruleId text hbody hwrites
    obtain ⟨reply, hreply, hiff, -, -⟩ := handleStudio_written hback hbody hwrites
    rw [hreply] at h
    cases reply with
    | error err => exact Or.inr (write_eq_iff.mp (h err rfl))
    | ok detail => exact Or.inl (hiff.mp ⟨detail, rfl⟩)
  · intro hsound err herr
    obtain ⟨after, -, hstore, heffect⟩ := studioEffect_of_sound ⟨store, []⟩ hback hsound
    rw [herr] at heffect
    cases heffect
    exact hstore

end Steps

/-! ## What a run keeps -/

/-- What a request of a run meets: it is sound, and YAML reads its document back. -/
def Meets (rt : Runtime) (ops : StudioOps) (st : StudioState) (request : StudioRequest) : Prop :=
  request.ReadsBack rt ops ∧ request.Sound rt ops st.store

structure StudioInv (rt : Runtime) (ops : StudioOps) (st : StudioState) : Prop where
  loads : ∀ name file, st.store.custom.find name = some file → isRuleFile name = true →
    ¬ Escapes (parseRuleFile rt (pathBelow (ruleFolder ops .custom) name) (file.body.loaded ops))
  holds : ∀ a ∈ st.accepted, HoldsRule rt ops st.store a.1 a.2

section Invariant

variable {rt : Runtime} {ops : StudioOps} {st st' : StudioState}

theorem fileName_injective {ruleId other : Str} (h : fileName ruleId = fileName other) :
    ruleId = other := List.append_cancel_right h

theorem HoldsRule.of_find {store store' : RuleStore} {ruleId : Str} {body : RuleIn}
    (h : HoldsRule rt ops store ruleId body)
    (hfind : store'.custom.find (fileName ruleId) = store.custom.find (fileName ruleId)) :
    HoldsRule rt ops store' ruleId body := by
  obtain ⟨condition, text, rule, hcondition, hfile, hload, hcompile⟩ := h
  exact ⟨condition, text, rule, hcondition, hfind.trans hfile, hload, hcompile⟩

/-- The loader reads the rule that a file holds. -/
theorem HoldsRule.parse {store : RuleStore} {ruleId : Str} {body : RuleIn}
    (h : HoldsRule rt ops store ruleId body) : ∃ file rule condition,
      store.custom.find (fileName ruleId) = some file ∧
      validateCondition rt ops body.condition = .ok condition ∧
      compileRule rt (resolvePath ops .custom ruleId) (body.docFields condition rt ruleId) =
        .ok rule ∧
      parseRuleFile rt (resolvePath ops .custom ruleId) (file.body.loaded ops) = .ok [rule] := by
  obtain ⟨condition, text, rule, hcondition, hfile, hload, hcompile⟩ := h
  refine ⟨_, rule, condition, hfile, hcondition, hcompile, ?_⟩
  simp only [FileBody.loaded, hload, body.doc_toYaml, parseRuleFile, ruleItems, compileRules,
    hcompile]
  rfl

theorem StudioInv.step {reply : Except StudioError (Option RuleDetail)} (hinv : StudioInv rt ops st)
    (h : StudioEffect rt ops st st' reply) : StudioInv rt ops st' := by
  cases h with
  | failed err => exact hinv
  | written ruleId text body detail hholds =>
    have hother : ∀ name, name ≠ fileName ruleId →
        (st.store.write ruleId text).custom.find name = st.store.custom.find name := by
      intro name hname
      rw [RuleStore.write, find_replaceFile, if_neg hname]
    constructor
    · intro name file hfile hrule
      by_cases hname : name = fileName ruleId
      · obtain ⟨file', rule, condition, hfile', -, -, hparse⟩ := hholds.parse
        rw [hname] at hfile ⊢
        cases hfile.symm.trans hfile'
        have hpath : pathBelow (ruleFolder ops .custom) (fileName ruleId) =
            resolvePath ops .custom ruleId := rfl
        rw [hpath, hparse]
        exact not_escapes_ok _
      · exact hinv.loads name file ((hother name hname).symm.trans hfile) hrule
    · intro a ha
      rcases List.mem_cons.mp ha with rfl | ha
      · exact hholds
      · obtain ⟨hold, hne⟩ := List.mem_filter.mp ha
        refine (hinv.holds a hold).of_find (hother _ fun heq => ?_)
        exact (by simpa using hne : a.1 ≠ ruleId) (fileName_injective heq)
  | deleted ruleId =>
    constructor
    · intro name file hfile hrule
      rw [Table.find_remove] at hfile
      split at hfile
      · cases hfile
      · exact hinv.loads name file hfile hrule
    · intro a ha
      obtain ⟨hold, hne⟩ := List.mem_filter.mp ha
      refine (hinv.holds a hold).of_find ?_
      rw [Table.find_remove, if_neg]
      intro heq
      exact (by simpa using hne : a.1 ≠ ruleId) (fileName_injective heq)

theorem StudioInv.run {requests : List StudioRequest} (start : StudioInv rt ops st)
    (hrun : Run (studioStep rt ops) (Meets rt ops) st requests st') : StudioInv rt ops st' := by
  refine hrun.invariant start fun t request u hinv hmeets taken => ?_
  obtain ⟨u', hu', -, heffect⟩ := studioEffect_of_sound t hmeets.1 hmeets.2
  rw [hu'] at taken
  cases taken
  exact hinv.step heffect

end Invariant

/-! ## Loading the directory -/

section Loading

variable {rt : Runtime} {ops : StudioOps} {store : RuleStore}

theorem mem_paths {path : Str} :
    path ∈ (store.ruleDir ops).paths (ruleFolder ops .custom) ↔
      ∃ file ∈ store.custom.rows, isRuleFile file.name = true ∧
        path = pathBelow (ruleFolder ops .custom) file.name := by
  have hpaths : (store.ruleDir ops).paths (ruleFolder ops .custom) =
      (store.ruleDir ops).rglob (ruleFolder ops .custom) "*.yml" ++
        (store.ruleDir ops).rglob (ruleFolder ops .custom) "*.yaml" := by
    simp [RuleDir.paths, RuleStore.ruleDir]
  have hyml : "*.yml".toList.drop 1 = ".yml".toList := rfl
  have hyaml : "*.yaml".toList.drop 1 = ".yaml".toList := rfl
  rw [hpaths, List.mem_append]
  simp only [RuleStore.ruleDir, hyml, hyaml, List.mem_map, List.mem_filter, isRuleFile,
    Bool.or_eq_true]
  constructor
  · rintro (⟨file, ⟨hfile, hsuffix⟩, rfl⟩ | ⟨file, ⟨hfile, hsuffix⟩, rfl⟩)
    · exact ⟨file, hfile, Or.inl hsuffix, rfl⟩
    · exact ⟨file, hfile, Or.inr hsuffix, rfl⟩
  · rintro ⟨file, hfile, hsuffix | hsuffix, rfl⟩
    · exact Or.inl ⟨file, ⟨hfile, hsuffix⟩, rfl⟩
    · exact Or.inr ⟨file, ⟨hfile, hsuffix⟩, rfl⟩

theorem loaded_path {file : RuleFile} (h : file ∈ store.custom.rows) :
    (store.ruleDir ops).loaded (pathBelow (ruleFolder ops .custom) file.name) =
      file.body.loaded ops := by
  have hfind : store.custom.rows.find? (fun f => decide (f.name = file.name)) = some file := by
    simpa only [Table.find, beq_eq_decide] using Table.find_of_mem h
  have hsame : (fun f : RuleFile => pathBelow (ruleFolder ops .custom) f.name ==
      pathBelow (ruleFolder ops .custom) file.name) = fun f => decide (f.name = file.name) := by
    funext f
    rw [Bool.eq_iff_iff, beq_iff_eq, decide_eq_true_eq]
    constructor
    · intro heq
      exact (List.cons.inj (List.append_cancel_left heq)).2
    · intro heq
      rw [heq]
  simp only [RuleStore.ruleDir, hsame, hfind]

theorem parse_path {file : RuleFile} (h : file ∈ store.custom.rows) :
    ((store.ruleDir ops).files rt).parseRuleFile (pathBelow (ruleFolder ops .custom) file.name) =
      parseRuleFile rt (pathBelow (ruleFolder ops .custom) file.name) (file.body.loaded ops) := by
  show parseRuleFile rt _ ((store.ruleDir ops).loaded _) = _
  rw [loaded_path h]

/-- What `load_rules_from_dir` returns are the rules of the files that parse. -/
theorem loadFiles_ok {ρ : Type} {files : RuleFiles ρ} {paths : List Str} {rules : List ρ}
    (h : loadFiles files paths = .ok rules) : rules = paths.flatMap files.rulesOf := by
  induction paths generalizing rules with
  | nil =>
    cases h
    rfl
  | cons p paths ih =>
    rw [loadFiles] at h
    rw [List.flatMap_cons, RuleFiles.rulesOf]
    cases hp : files.parseRuleFile p with
    | ok found =>
      rw [hp] at h
      dsimp only at h ⊢
      cases hrest : loadFiles files paths with
      | error err =>
        rw [hrest] at h
        cases h
      | ok rest =>
        rw [hrest] at h
        cases h
        rw [ih hrest]
    | error err =>
      rw [hp] at h
      cases err with
      | sigmaRuleLoad path reason => exact ih h
      | _ => cases h

/-- The directory loads exactly when no file in it raises what the loader does not catch. -/
theorem loadCustom_ok_iff : (∃ rules, loadCustom rt ops store = .ok rules) ↔
    ∀ name file, store.custom.find name = some file → isRuleFile name = true →
      ¬ Escapes (parseRuleFile rt (pathBelow (ruleFolder ops .custom) name)
        (file.body.loaded ops)) := by
  have hloaded : (∃ rules, loadCustom rt ops store = .ok rules) ↔
      loadFiles ((store.ruleDir ops).files rt) ((store.ruleDir ops).paths (ruleFolder ops .custom)) =
        .ok (((store.ruleDir ops).paths (ruleFolder ops .custom)).flatMap
          ((store.ruleDir ops).files rt).rulesOf) := by
    unfold loadCustom
    rw [loadRulesFromDir_eq]
    constructor
    · rintro ⟨rules, hrules⟩
      rw [hrules, loadFiles_ok hrules]
    · intro h
      exact ⟨_, h⟩
  rw [hloaded, loadFiles_eq_iff]
  constructor
  · intro h name file hfile hrule
    obtain ⟨hmem, rfl⟩ := Table.find_some hfile
    have hparse := h _ (mem_paths.mpr ⟨file, hmem, hrule, rfl⟩)
    rw [parse_path hmem] at hparse
    exact hparse
  · intro h path hpath
    obtain ⟨file, hmem, hrule, rfl⟩ := mem_paths.mp hpath
    rw [parse_path hmem]
    exact h file.name file (Table.find_of_mem hmem) hrule

theorem isRuleFile_fileName (ruleId : Str) : isRuleFile (fileName ruleId) = true := by
  have hsuffix : ".yml".toList.isSuffixOf (fileName ruleId) = true :=
    List.isSuffixOf_iff_suffix.mpr (List.suffix_append _ _)
  rw [isRuleFile, hsuffix, Bool.true_or]

/-- A rule that a file holds is among the rules of the directory. -/
theorem HoldsRule.contains {ruleId : Str} {body : RuleIn} {rules : List CompiledSigmaRule}
    (h : HoldsRule rt ops store ruleId body) (hrules : loadCustom rt ops store = .ok rules) :
    Contains rt ops rules ruleId body := by
  obtain ⟨file, rule, condition, hfile, hcondition, hcompile, hparse⟩ := h.parse
  obtain ⟨hmem, hname⟩ := Table.find_some hfile
  refine ⟨condition, hcondition, rule, ?_, hcompile⟩
  unfold loadCustom at hrules
  rw [loadRulesFromDir_eq] at hrules
  rw [loadFiles_ok hrules, List.mem_flatMap]
  refine ⟨_, mem_paths.mpr ⟨file, hmem, hname ▸ isRuleFile_fileName ruleId, rfl⟩, ?_⟩
  have hpath : pathBelow (ruleFolder ops .custom) file.name = resolvePath ops .custom ruleId := by
    rw [hname]
    rfl
  rw [RuleFiles.rulesOf, parse_path hmem, hpath, hparse]
  exact List.mem_singleton.mpr rfl

end Loading

/-! ## All or nothing -/

/-- A request that fails leaves the files as they were exactly when it is sound; and in a run of
sound requests, whether they are accepted or not, a directory that loads goes on to load, with every
rule that was accepted and not since updated or deleted. -/
theorem studio_writes_when_convertible (rt : Runtime) (ops : StudioOps) :
    (∀ (store : RuleStore) (request : StudioRequest), request.ReadsBack rt ops →
      ((∀ err, (handleStudio rt ops store request).2 = .error err →
        (handleStudio rt ops store request).1 = store) ↔ request.Sound rt ops store)) ∧
    ∀ (st st' : StudioState) (requests : List StudioRequest),
      Run (studioStep rt ops) (Meets rt ops) st requests st' →
      (∃ rules, loadCustom rt ops st.store = .ok rules) → st.accepted = [] →
      ∃ rules, loadCustom rt ops st'.store = .ok rules ∧
        ∀ a ∈ st'.accepted, Contains rt ops rules a.1 a.2 := by
  refine ⟨fun store request hback => unchanged_iff_sound store hback, ?_⟩
  intro st st' requests hrun hloads hstart
  have hinv : StudioInv rt ops st := ⟨loadCustom_ok_iff.mp hloads, by simp [hstart]⟩
  have hend := hinv.run hrun
  obtain ⟨rules, hrules⟩ := loadCustom_ok_iff.mpr hend.loads
  exact ⟨rules, hrules, fun a ha => (hend.holds a ha).contains hrules⟩

section Examples

variable {rt : Runtime} {ops : StudioOps} {st : StudioState} {store : RuleStore} {fresh : Uuid}
  {body : RuleIn} {ruleId condition text : Str}

theorem studioStep_created {detail : RuleDetail}
    (h : createRule rt ops st.store fresh body = (store, .ok detail))
    (hid : sanitizeRuleId rt ops fresh body.id body.title = .ok ruleId) :
    studioStep rt ops st (.create fresh body) =
      some ⟨store, (ruleId, body) :: st.accepted.filter fun a => a.1 ≠ ruleId⟩ := by
  simp only [studioStep, handleStudio, h, recordAccepted, hid]
  rfl

/-- A rule whose file is there is not created again. -/
theorem handleStudio_exists (hid : sanitizeRuleId rt ops fresh body.id body.title = .ok ruleId)
    (hcondition : validateCondition rt ops body.condition = .ok condition)
    (hfile : (store.custom.find (fileName ruleId)).isSome) :
    ∃ err, (handleStudio rt ops store (.create fresh body)).2 = .error err := by
  simp only [handleStudio, createRule, hid, hcondition, if_pos hfile]
  exact ⟨_, rfl⟩

/-- A rule that does not compile has been written. -/
theorem createRule_uncompiled {err : PyError}
    (hid : sanitizeRuleId rt ops fresh body.id body.title = .ok ruleId)
    (hcondition : validateCondition rt ops body.condition = .ok condition)
    (hfree : store.custom.find (fileName ruleId) = none)
    (htext : ops.dump (body.doc rt ruleId condition) = .ok text)
    (hparse : parseStored rt ops (store.write ruleId text) ruleId = .error err) :
    createRule rt ops store fresh body = (store.write ruleId text, .error (compileError err)) := by
  simp only [createRule, hid, hcondition, hfree, htext, hparse]
  rfl

/-- YAML of the rule with a filter. -/
def filteredOps : StudioOps := yamlOf liveText (filteredDoc userFilter)

def filteredCreate : StudioRequest := .create 0 (filteredBody userFilter)

theorem filteredCreate_meets (st : StudioState) : Meets plainRuntime filteredOps st filteredCreate := by
  refine ⟨filtered_readsBack userFilter liveText 0, ?_⟩
  intro body ruleId text hbody _
  cases hbody
  exact Or.inl (filtered_convertible userFilter)

/-- The rule with a filter is written, a second request for it is refused and changes nothing, and
the directory loads with the rule. -/
theorem filtered_run_loads : ∃ st',
    Run (studioStep plainRuntime filteredOps) (Meets plainRuntime filteredOps) ⟨emptyStore, []⟩
      [filteredCreate, filteredCreate] st' ∧
    (∃ rules, loadCustom plainRuntime filteredOps st'.store = .ok rules ∧
      ∀ a ∈ st'.accepted, Contains plainRuntime filteredOps rules a.1 a.2) ∧
    st'.accepted = [("failed-logins".toList, filteredBody userFilter)] ∧
    ∃ err, (handleStudio plainRuntime filteredOps st'.store filteredCreate).2 = .error err ∧
      (handleStudio plainRuntime filteredOps st'.store filteredCreate).1 = st'.store := by
  let st₁ : StudioState := ⟨emptyStore.write "failed-logins".toList liveText,
    [("failed-logins".toList, filteredBody userFilter)]⟩
  obtain ⟨detail, hdetail⟩ := filtered_accepted userFilter liveText 0
  have hid := filtered_id userFilter filteredOps 0
  have hfirst : studioStep plainRuntime filteredOps ⟨emptyStore, []⟩ filteredCreate = some st₁ :=
    studioStep_created hdetail hid
  obtain ⟨err, herr⟩ : ∃ err, (handleStudio plainRuntime filteredOps st₁.store filteredCreate).2 =
      .error err := by
    refine handleStudio_exists hid (filtered_condition userFilter filteredOps) ?_
    rw [find_write]
    rfl
  obtain ⟨hunchanged, hloads⟩ := studio_writes_when_convertible plainRuntime filteredOps
  have hmeets := filteredCreate_meets st₁
  have hsame := (hunchanged st₁.store filteredCreate hmeets.1).mpr hmeets.2 err herr
  have hsecond : studioStep plainRuntime filteredOps st₁ filteredCreate = some st₁ := by
    have hreply : handleStudio plainRuntime filteredOps st₁.store filteredCreate =
        (st₁.store, .error err) := Prod.ext hsame herr
    rw [studioStep, hreply]
  have hrun := (Run.single (filteredCreate_meets _) hfirst).snoc hmeets hsecond
  exact ⟨st₁, hrun, hloads _ _ _ hrun ⟨[], rfl⟩ rfl, rfl, err, herr, hsame⟩

/-- A body that leaves the count to its detection block, where it is no number. -/
def manyBody : RuleIn :=
  { filteredBody [("count".toList, .str "many".toList)] with condition := none, count := none }

/-- What `yaml.safe_dump` writes for it. -/
def manyText : Str :=
  ("title: Failed logins\nid: failed-logins\nlevel: medium\ndetection:\n  selection:\n" ++
    "    status: failed\n  count: many\n  condition: selection\n  timeframe: 60s\n" ++
    "cooldown_sec: 300\n").toList

def manyOps : StudioOps :=
  yamlOf manyText (manyBody.doc plainRuntime "failed-logins".toList "selection".toList)

theorem manyBody_parse : parseStored plainRuntime manyOps
    (emptyStore.write "failed-logins".toList manyText) "failed-logins".toList =
      .error valueError := by
  have hload : manyOps.load manyText = .ok (manyBody.doc plainRuntime "failed-logins".toList
      "selection".toList).toYaml := load_yamlOf manyText _
  have hcount : ((Yaml.get (toYamlMembers (manyBody.stored "selection".toList)) "count").orElse
      (.int 1)).toInt = .error valueError := rfl
  rw [parseStored_write emptyStore hload, manyBody.compileRule_doc "selection".toList plainRuntime
    "failed-logins".toList (by simp) (by simp) rfl, hcount]
  rfl

/-- The request fails with the `ValueError` of `int`, but its file is there, and the directory,
which loaded before, does not load any more. -/
theorem failed_create_left_behind :
    (∃ rules, loadCustom plainRuntime manyOps emptyStore = .ok rules) ∧
    createRule plainRuntime manyOps emptyStore 0 manyBody =
      (emptyStore.write "failed-logins".toList manyText, .error (.raised valueError)) ∧
    (emptyStore.write "failed-logins".toList manyText).custom.rows ≠ emptyStore.custom.rows ∧
    ¬ ∃ rules, loadCustom plainRuntime manyOps
      (emptyStore.write "failed-logins".toList manyText) = .ok rules := by
  refine ⟨⟨[], rfl⟩, ?_, (fun h => by cases h), ?_⟩
  · have hid : sanitizeRuleId plainRuntime manyOps 0 manyBody.id manyBody.title =
        .ok "failed-logins".toList := rfl
    have hcondition : validateCondition plainRuntime manyOps manyBody.condition =
        .ok "selection".toList := rfl
    have htext : manyOps.dump (manyBody.doc plainRuntime "failed-logins".toList
        "selection".toList) = .ok manyText := rfl
    exact createRule_uncompiled hid hcondition rfl htext manyBody_parse
  · rw [loadCustom_ok_iff]
    intro h
    refine h _ _ (find_write emptyStore "failed-logins".toList manyText)
      (isRuleFile_fileName _) ⟨valueError, ?_, fun _ _ hcode => by cases hcode⟩
    have hparse := manyBody_parse
    rw [parseStored, find_write] at hparse
    exact hparse

end Examples

end ZaqorinCore.Server
