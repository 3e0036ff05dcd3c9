import ZaqorinCore.Agent.Handler

/-!
# What "applied" says

`Handle` answers a duplicate with `"applied"`. For an id that is remembered that is true. For an
id that is merely in flight it is a guess about an executor that is still running:
`truthful_iff_settled` says that every `"applied"` is backed by a success exactly when no call
finds its id in flight before an executor of that id has succeeded, and
`applied_though_failed` is a run in which the guess is wrong.
-/

namespace ZaqorinCore.Agent

open Text Base

namespace Handler

/-- Whenever a call has returned `"applied"`, an executor of its id had succeeded before. -/
def Truthful (log : List Entry) : Prop :=
  ∀ l₁ l₂ id, log = l₁ ++ .returned id true :: l₂ → .succeeded id ∈ l₁

/-- A call that finds its id in flight comes after a success for that id. -/
def Settled (h : Handler) : Act → Prop
  | .reserve i => ∀ cmd, h.calls i = some ⟨cmd, .admitted⟩ → cmd.id ∈ h.inFlight →
      .succeeded cmd.id ∈ h.log
  | _ => True

/-- The calls past their executor and the entries of the memory are backed by a success. -/
structure Backed (h : Handler) : Prop where
  calls : ∀ i cmd pc, h.calls i = some ⟨cmd, pc⟩ → pc = .executed ∨ pc = .remembered →
    .succeeded cmd.id ∈ h.log
  applied : ∀ e ∈ h.appliedAt, .succeeded e.1 ∈ h.log

theorem Backed.new (clock : Int) : Backed (new clock) := ⟨nofun, nofun⟩

/-- One call moves, the log grows, and nothing new is remembered. -/
theorem Backed.move {h h' : Handler} (hB : Backed h) {i : Nat} {cmd : Command} {pc : Pc}
    (hcalls : h'.calls = Function.update h.calls i (some ⟨cmd, pc⟩))
    (hlog : ∀ e ∈ h.log, e ∈ h'.log) (happlied : ∀ e ∈ h'.appliedAt, e ∈ h.appliedAt)
    (hself : pc = .executed ∨ pc = .remembered → .succeeded cmd.id ∈ h'.log) : Backed h' where
  calls := by
    intro j other pc' hj hpc
    rw [hcalls] at hj
    rcases update_some_cases hj with ⟨-, heq⟩ | ⟨-, hj⟩
    · cases heq
      exact hself hpc
    · exact hlog _ (hB.calls j other pc' hj hpc)
  applied := fun e he => hlog _ (hB.applied e (happlied e he))

theorem Backed.step {cfg : ResponseConfig} {h h' : Handler} {a : Act} (hB : Backed h)
    (hs : Handler.step cfg h a = some h') : Backed h' := by
  have hgrow : ∀ {e : Entry}, ∀ x ∈ h.log, x ∈ h.log ++ [e] :=
    fun x hx => List.mem_append_left _ hx
  cases step_cases hs with
  | refuse _ _ _ => exact hB.move rfl hgrow (fun _ he => he) (by simp)
  | accept _ _ _ => exact hB.move rfl (fun _ he => he) (fun _ he => he) (by simp)
  | duplicate _ _ => exact hB.move rfl hgrow (fun _ he => he) (by simp)
  | reserve _ _ => exact hB.move rfl (fun _ he => he) (fun _ he => he) (by simp)
  | succeed _ =>
    exact hB.move rfl hgrow (fun _ he => he) fun _ => List.mem_append_right _ List.mem_cons_self
  | fail _ => exact hB.move rfl (fun _ he => he) (fun _ he => he) (by simp)
  | remember here later walk =>
    rename_i i now order cmd
    have hsuccess := hB.calls i cmd .executed here (Or.inl rfl)
    refine ⟨?_, ?_⟩
    · intro j other pc hj hpc
      rcases update_some_cases hj with ⟨-, heq⟩ | ⟨-, hj⟩
      · cases heq
        exact hgrow _ hsuccess
      · exact hgrow _ (hB.calls j other pc hj hpc)
    · intro e he
      rcases List.mem_cons.mp he with rfl | he
      · exact hgrow _ hsuccess
      · exact hgrow _ (hB.applied e ((evict_sublist _ _).subset (List.mem_of_mem_filter he)))
  | releaseApplied _ => exact hB.move rfl hgrow (fun _ he => he) (by simp)
  | releaseFailed _ => exact hB.move rfl hgrow (fun _ he => he) (by simp)

theorem truthful_snoc {log : List Entry} {e : Entry} :
    Truthful (log ++ [e]) ↔ Truthful log ∧ ∀ id, e = .returned id true → .succeeded id ∈ log := by
  constructor
  · intro htrue
    refine ⟨?_, ?_⟩
    · intro l₁ l₂ id hlog
      exact htrue l₁ (l₂ ++ [e]) id (by rw [hlog, List.append_assoc, List.cons_append])
    · rintro id rfl
      exact htrue log [] id rfl
  · rintro ⟨htrue, hlast⟩ l₁ l₂ id hlog
    rcases split_snoc hlog with ⟨-, he, rfl⟩ | ⟨l₂', -, hold⟩
    · exact hlast id he.symm
    · exact htrue l₁ l₂' id hold

theorem truthful_step {cfg : ResponseConfig} {h h' : Handler} {a : Act} (hB : Backed h)
    (hs : Handler.step cfg h a = some h') :
    Truthful h'.log ↔ Truthful h.log ∧ Settled h a := by
  cases step_cases hs with
  | refuse _ _ _ => exact truthful_snoc.trans (and_congr_right fun _ => by simp [Settled])
  | accept _ _ _ => exact (and_iff_left trivial).symm
  | duplicate here dup =>
    rename_i i cmd
    refine truthful_snoc.trans (and_congr_right fun _ => ?_)
    constructor
    · intro hsuccess cmd' here' _
      rw [here] at here'
      cases here'
      exact hsuccess _ rfl
    · rintro hsettled id heq
      cases heq
      rcases duplicate_iff.mp dup with ⟨reading, hmem⟩ | hflight
      · exact hB.applied _ hmem
      · exact hsettled cmd here hflight
  | reserve here new =>
    rename_i i cmd
    refine (and_iff_left ?_).symm
    intro cmd' here' hflight
    rw [here] at here'
    cases here'
    have hdup := duplicate_iff.mpr (Or.inr hflight)
    rw [new] at hdup
    cases hdup
  | succeed _ => exact truthful_snoc.trans (and_congr_right fun _ => by simp [Settled])
  | fail _ => exact (and_iff_left trivial).symm
  | remember _ _ _ => exact truthful_snoc.trans (and_congr_right fun _ => by simp [Settled])
  | releaseApplied here =>
    rename_i i cmd
    refine truthful_snoc.trans (and_congr_right fun _ => iff_of_true ?_ trivial)
    rintro id heq
    cases heq
    exact hB.calls i cmd .remembered here (Or.inr rfl)
  | releaseFailed _ => exact truthful_snoc.trans (and_congr_right fun _ => by simp [Settled])

/-- **Truthful acknowledgements.** In every interleaving, every `"applied"` is backed by an
earlier success exactly when no call found its id in flight before one. -/
theorem truthful_iff_settled (cfg : ResponseConfig) (clock : Int) (h : Handler) (as : List Act)
    (run : AnyRun (step cfg) (new clock) as h) :
    Truthful h.log ↔ Run (step cfg) Settled (new clock) as h := by
  refine Run.iff_of_step (I := Backed) (P := fun h => Truthful h.log) (Backed.new clock)
    (fun _ _ _ hB hs => hB.step hs) ?_ (fun _ _ _ hB hs => truthful_step hB hs) run
  intro l₁ l₂ id hlog
  cases l₁ <;> cases hlog

/-! ## A duplicate of a failing command -/

/-- The same command arrives twice, the second time while its executor runs. -/
def failingRun : List Act :=
  [.handle 0 (some (lit "host-secret")) standing (signedCanary 0),
    .handle 1 (some (lit "host-secret")) standing (signedCanary 0),
    .reserve 0, .reserve 1, .execute 0 false, .release 0]

/-- The second call has returned `"applied"`, and the only executor has failed. -/
theorem applied_though_failed :
    ∃ h, AnyRun (step standingConfig) (new standing) failingRun h ∧
      .returned (commandId 0) true ∈ h.log ∧ .succeeded (commandId 0) ∉ h.log ∧
      ¬ Truthful h.log := by
  have hcheck : (exec (step standingConfig) (new standing) failingRun).any
      (fun h => h.log == [.returned (commandId 0) true, .returned (commandId 0) false]) =
        true := by
    decide +kernel
  obtain ⟨h, hrun, hlog⟩ := run_of_check hcheck
  have hlog := beq_iff_eq.mp hlog
  refine ⟨h, hrun, by simp [hlog], by simp [hlog], ?_⟩
  intro htrue
  have := htrue [] [.returned (commandId 0) false] (commandId 0) hlog
  cases this

/-- The same command again after its call has returned. -/
def repeatedRun : List Act :=
  [.handle 0 (some (lit "host-secret")) standing (signedCanary 0), .reserve 0, .execute 0 true,
    .remember 0 standing [], .release 0,
    .handle 1 (some (lit "host-secret")) standing (signedCanary 0), .reserve 1]

theorem truthful_repeated :
    ∃ h, AnyRun (step standingConfig) (new standing) repeatedRun h ∧
      Run (step standingConfig) Settled (new standing) repeatedRun h := by
  have hcheck : (exec (step standingConfig) (new standing) repeatedRun).any
      (fun h => h.log == [.succeeded (commandId 0), .recorded (commandId 0) standing,
        .returned (commandId 0) true, .returned (commandId 0) true]) = true := by
    decide +kernel
  obtain ⟨h, hrun, hlog⟩ := run_of_check hcheck
  have hlog := beq_iff_eq.mp hlog
  refine ⟨h, hrun, (truthful_iff_settled _ _ _ _ hrun).mp ?_⟩
  rw [hlog]
  intro l₁ l₂ id hsplit
  have hid : id = commandId 0 := by
    have hmem : Entry.returned id true ∈ l₁ ++ .returned id true :: l₂ := by simp
    rw [← hsplit] at hmem
    simpa using hmem
  cases l₁ with
  | nil => cases hsplit
  | cons x l₁ =>
    rw [hid, ← (List.cons.inj hsplit).1]
    exact List.mem_cons_self

end Handler

end ZaqorinCore.Agent
