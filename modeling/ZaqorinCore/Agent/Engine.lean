import Mathlib

/-!
# The threat engine

`pkg/engine`: a table of transition functions, indexed by status and event kind, drives the status
of each subject in a `StateStore`. `documented` is the progression that the comment on `New`
describes, on the four postures. `engine_refines_documented` says that the engine computes it for
every subject on its own, over every interleaving of events.
-/

namespace ZaqorinCore.Agent.Engine

/-! ## Statuses and events -/

/-- A `Status` is a byte; a store may hold any. -/
abbrev Status := UInt8

def statusNominal : Status := 0
def statusChallenge : Status := 1
def statusDeception : Status := 2
def statusContainment : Status := 3

structure Event where
  kind : UInt8
  subject : UInt32
  timestampNS : UInt64 := 0
  payload0 : UInt32 := 0
  payload1 : UInt32 := 0
  deriving DecidableEq, Repr

def eventTCPSYN : UInt8 := 1
def eventRateLimitTrip : UInt8 := 8
def eventHTTPRequest : UInt8 := 9
def eventHTTP2Frame : UInt8 := 10
def eventWebSocketFrame : UInt8 := 11
def eventCanaryTouch : UInt8 := 12
def eventChallengeFail : UInt8 := 13
def eventCFIExit : UInt8 := 15

/-! ## The transition table -/

/-- A new status and a reason. -/
abbrev TransitionFn := Status → Event → Status × String

def noopFn : TransitionFn := fun s _ => (s, "")

def simple (target : Status) (reason : String) : TransitionFn := fun _ _ => (target, reason)

/-- The index of a pair, in the arithmetic of `uint8`. -/
def tableIndex (s : Status) (kind : UInt8) : UInt8 := s * 16 + kind

/-- `installDefaults`: no-ops everywhere, then the five transitions. The array has 64 elements. -/
def defaultTable : UInt8 → TransitionFn :=
  let table : UInt8 → TransitionFn := fun _ => noopFn
  let table := Function.update table (tableIndex statusNominal eventCanaryTouch)
    (simple statusChallenge "canary_touch")
  let table := Function.update table (tableIndex statusNominal eventRateLimitTrip)
    (simple statusChallenge "rate_limit_trip")
  let table := Function.update table (tableIndex statusChallenge eventChallengeFail)
    (simple statusDeception "challenge_fail")
  let table := Function.update table (tableIndex statusDeception eventCanaryTouch)
    (simple statusContainment "canary_touch")
  Function.update table (tableIndex statusDeception eventCFIExit)
    (simple statusContainment "cfi_exit")

/-! ## Processing -/

/-- The methods of a `StateStore` that the engine calls. -/
structure StateStore (σ : Type) where
  get : σ → UInt32 → Status × Bool
  set : σ → UInt32 → Status → σ

/-- The store behaves as a map from subjects to statuses. -/
structure MapLike {σ : Type} (store : StateStore σ) : Prop where
  get_set_self : ∀ m subject s, store.get (store.set m subject s) subject = (s, true)
  get_set_of_ne : ∀ m subject other s, other ≠ subject →
    store.get (store.set m subject s) other = store.get m other

/-- The store holds no subject. -/
def StateStore.Empty {σ : Type} (store : StateStore σ) (m : σ) : Prop :=
  ∀ subject, store.get m subject = (statusNominal, false)

/-- The arguments of one `Emit`. -/
structure Alert where
  subject : UInt32
  src : Status
  dst : Status
  event : Event
  reason : String
  deriving DecidableEq, Repr

section

variable {σ : Type} (store : StateStore σ)

/-- The status that `Process` works with: garbage counts as nominal. -/
def current (m : σ) (subject : UInt32) : Status :=
  let cur := (store.get m subject).1
  if 4 ≤ cur then statusNominal else cur

/-- `Process`, with an alert sink: the store afterwards, what is emitted, and the result. -/
def process (m : σ) (ev : Event) : σ × List Alert × Status × Bool :=
  if ev.subject = 0 then (m, [], statusNominal, false)
  else
    let cur := current store m ev.subject
    if 16 ≤ ev.kind then (m, [], cur, false)
    else
      let (next, reason) := defaultTable (tableIndex cur ev.kind) cur ev
      if next = cur then (m, [], cur, false)
      else (store.set m ev.subject next, [⟨ev.subject, cur, next, ev, reason⟩], next, true)

/-- A sequence of events, with everything that is emitted. -/
def processAll (m : σ) : List Event → σ × List Alert
  | [] => (m, [])
  | ev :: events =>
    let (m, emitted, _) := process store m ev
    let (m, rest) := processAll m events
    (m, emitted ++ rest)

end

/-! ## The documented progression -/

inductive Posture
  | nominal
  | challenge
  | deception
  | containment
  deriving DecidableEq, Repr

def Posture.code : Posture → Status
  | nominal => statusNominal
  | challenge => statusChallenge
  | deception => statusDeception
  | containment => statusContainment

/-- The table in the comment on `New`. -/
def documented : Posture → UInt8 → Posture
  | .nominal, kind =>
    if kind = eventCanaryTouch ∨ kind = eventRateLimitTrip then .challenge else .nominal
  | .challenge, kind => if kind = eventChallengeFail then .deception else .challenge
  | .deception, kind =>
    if kind = eventCanaryTouch ∨ kind = eventCFIExit then .containment else .deception
  | .containment, _ => .containment

/-- The posture after the events of one subject. -/
def progress (p : Posture) (own : List Event) : Posture :=
  own.foldl (fun p ev => documented p ev.kind) p

/-- The status changes that the events of one subject make, with the event behind each. -/
def changes : Posture → List Event → List (Status × Status × Event)
  | _, [] => []
  | p, ev :: own =>
    let next := documented p ev.kind
    if next = p then changes next own else (p.code, next.code, ev) :: changes next own

/-- The changes lead from the first status to the last, each from where the one before ended. -/
inductive Chain : Status → List (Status × Status × Event) → Status → Prop
  | nil (s : Status) : Chain s [] s
  | cons {s t u : Status} {ev : Event} {later : List (Status × Status × Event)} (change : s ≠ t)
    (rest : Chain t later u) : Chain s ((s, t, ev) :: later) u

/-- The events of one subject. -/
def ownEvents (subject : UInt32) (events : List Event) : List Event :=
  events.filter fun ev => ev.subject = subject

/-- The alerts for one subject: from, to and the event. -/
def ownAlerts (subject : UInt32) (alerts : List Alert) : List (Status × Status × Event) :=
  (alerts.filter fun a => a.subject = subject).map fun a => (a.src, a.dst, a.event)

theorem code_injective : Function.Injective Posture.code := by
  intro p q h
  cases p <;> cases q <;> first | rfl | exact absurd h (by decide)

theorem code_lt (p : Posture) : p.code < 4 := by
  cases p <;> decide

theorem exists_code {s : Status} (h : s < 4) : ∃ p : Posture, p.code = s := by
  have hall : ∀ k : Fin 4, ∃ p : Posture, p.code = UInt8.ofNat k.val := by
    intro k
    fin_cases k
    · exact ⟨.nominal, rfl⟩
    · exact ⟨.challenge, rfl⟩
    · exact ⟨.deception, rfl⟩
    · exact ⟨.containment, rfl⟩
  have hlt : s.toNat < 4 := h
  obtain ⟨p, hp⟩ := hall ⟨s.toNat, hlt⟩
  exact ⟨p, by rwa [UInt8.ofNat_toNat] at hp⟩

theorem le_documented (p : Posture) (kind : UInt8) : p.code ≤ (documented p kind).code := by
  cases p with
  | nominal =>
    rw [documented]
    split <;> decide
  | challenge =>
    rw [documented]
    split <;> decide
  | deception =>
    rw [documented]
    split <;> decide
  | containment => exact UInt8.le_refl _

theorem documented_of_le {kind : UInt8} (hkind : 16 ≤ kind) (p : Posture) :
    documented p kind = p := by
  have hne : ∀ k : UInt8, k < 16 → kind ≠ k := by
    rintro k hk rfl
    exact absurd hkind (by simpa using hk)
  have hcanary := hne eventCanaryTouch (by decide)
  have hrate := hne eventRateLimitTrip (by decide)
  have hfail := hne eventChallengeFail (by decide)
  have hexit := hne eventCFIExit (by decide)
  cases p <;> simp [documented, hcanary, hrate, hfail, hexit]

theorem le_progress (p : Posture) (own : List Event) : p.code ≤ (progress p own).code := by
  induction own generalizing p with
  | nil => exact UInt8.le_refl _
  | cons ev own ih => exact UInt8.le_trans (le_documented p ev.kind) (ih _)

theorem chain_changes (p : Posture) (own : List Event) :
    Chain p.code (changes p own) (progress p own).code := by
  induction own generalizing p with
  | nil => exact .nil _
  | cons ev own ih =>
    have hrest := ih (documented p ev.kind)
    rw [changes]
    split
    · rename_i hsame
      rw [hsame] at hrest ⊢
      rw [progress, List.foldl_cons, hsame]
      exact hrest
    · rename_i hdiff
      apply Chain.cons _ hrest
      intro hcode
      exact hdiff (code_injective hcode).symm

/-! ## The table refines it -/

/-- In the range of the kinds, the entry of the table is the documented transition. -/
theorem defaultTable_eq (p : Posture) {kind : UInt8} (hkind : kind < 16) (ev : Event) :
    (defaultTable (tableIndex p.code kind) p.code ev).1 = (documented p kind).code := by
  have hall : ∀ k : Fin 16, ∀ p : Posture,
      (defaultTable (tableIndex p.code (UInt8.ofNat k.val)) p.code ev).1 =
        (documented p (UInt8.ofNat k.val)).code := by
    intro k p
    fin_cases k <;> cases p <;> rfl
  have hlt : kind.toNat < 16 := hkind
  have h := hall ⟨kind.toNat, hlt⟩ p
  rwa [UInt8.ofNat_toNat] at h

section Refinement

variable {σ : Type} {store : StateStore σ}

/-- The store holds the code of a posture for every subject. -/
def Tracks (store : StateStore σ) (m : σ) (posture : UInt32 → Posture) : Prop :=
  ∀ subject, (store.get m subject).1 = (posture subject).code

theorem Tracks.current {m : σ} {posture : UInt32 → Posture} (h : Tracks store m posture)
    (subject : UInt32) : current store m subject = (posture subject).code := by
  have hlt := code_lt (posture subject)
  unfold Engine.current
  rw [h subject, if_neg (UInt8.not_le.mpr hlt)]

/-- An event of no subject or of no kind does nothing. -/
theorem process_ignored (store : StateStore σ) (m : σ) {ev : Event}
    (h : ev.subject = 0 ∨ 16 ≤ ev.kind) :
    (process store m ev).1 = m ∧ (process store m ev).2.1 = [] := by
  unfold process
  split
  · exact ⟨rfl, rfl⟩
  · rename_i hsubject
    rw [if_pos (h.resolve_left hsubject)]
    exact ⟨rfl, rfl⟩

/-- One event moves its own subject along the documented table and alerts on a change. -/
theorem Tracks.process (laws : MapLike store) {m : σ} {posture : UInt32 → Posture}
    (h : Tracks store m posture) {ev : Event} (hsubject : ev.subject ≠ 0) :
    Tracks store (process store m ev).1
      (Function.update posture ev.subject (documented (posture ev.subject) ev.kind)) ∧
    (Engine.process store m ev).2.1.map (fun a => (a.subject, a.src, a.dst, a.event)) =
      (changes (posture ev.subject) [ev]).map fun c => (ev.subject, c) := by
  by_cases hkind : 16 ≤ ev.kind
  · obtain ⟨hstore, halerts⟩ := process_ignored store m (Or.inr hkind)
    rw [hstore, halerts, documented_of_le hkind, Function.update_eq_self]
    refine ⟨h, ?_⟩
    rw [changes, if_pos (documented_of_le hkind _)]
    rfl
  · have htable := defaultTable_eq (posture ev.subject) (UInt8.not_le.mp hkind) ev
    unfold Engine.process
    rw [if_neg hsubject, h.current, if_neg hkind]
    simp only [htable]
    by_cases hsame : documented (posture ev.subject) ev.kind = posture ev.subject
    · rw [hsame, if_pos rfl, Function.update_eq_self]
      refine ⟨h, ?_⟩
      rw [changes, if_pos hsame]
      rfl
    · have hcode : (documented (posture ev.subject) ev.kind).code ≠ (posture ev.subject).code :=
        fun hc => hsame (code_injective hc)
      rw [if_neg hcode]
      constructor
      · intro other
        by_cases hother : other = ev.subject
        · subst hother
          rw [laws.get_set_self, Function.update_self]
        · rw [laws.get_set_of_ne _ _ _ _ hother, Function.update_of_ne hother]
          exact h other
      · rw [changes, if_neg hsame]
        rfl

/-- Alerts of one subject among those of an event. -/
theorem ownAlerts_of_map {alerts : List Alert} {subject other : UInt32}
    {cs : List (Status × Status × Event)}
    (h : alerts.map (fun a => (a.subject, a.src, a.dst, a.event)) = cs.map fun c => (subject, c)) :
    ownAlerts other alerts = if other = subject then cs else [] := by
  induction alerts generalizing cs with
  | nil =>
    cases cs with
    | nil => simp [ownAlerts]
    | cons c cs => simp at h
  | cons a alerts ih =>
    cases cs with
    | nil => simp at h
    | cons c cs =>
      simp only [List.map_cons, List.cons.injEq, Prod.mk.injEq] at h
      obtain ⟨⟨hsubject, hc⟩, hrest⟩ := h
      have hih := ih hrest
      by_cases hother : other = subject
      · subst hother
        rw [if_pos rfl] at hih ⊢
        simp only [ownAlerts, List.filter_cons, hsubject, decide_true, if_true,
          List.map_cons] at hih ⊢
        rw [hih, hc]
      · rw [if_neg hother] at hih ⊢
        have hne : ¬ a.subject = other := by
          rw [hsubject]
          exact fun heq => hother heq.symm
        simpa [ownAlerts, List.filter_cons, hne] using hih

theorem ownAlerts_append (subject : UInt32) (as bs : List Alert) :
    ownAlerts subject (as ++ bs) = ownAlerts subject as ++ ownAlerts subject bs := by
  simp [ownAlerts]

theorem changes_cons (p : Posture) (ev : Event) (own : List Event) :
    changes p (ev :: own) = changes p [ev] ++ changes (documented p ev.kind) own := by
  rw [changes, changes]
  split <;> rfl

theorem processAll_cons (m : σ) (ev : Event) (events : List Event) :
    processAll store m (ev :: events) =
      ((processAll store (process store m ev).1 events).1,
        (process store m ev).2.1 ++ (processAll store (process store m ev).1 events).2) := rfl

/-- A run of events, seen from one subject. -/
theorem Tracks.processAll (laws : MapLike store) {m : σ} {posture : UInt32 → Posture}
    (h : Tracks store m posture) (events : List Event) {subject : UInt32} (hsubject : subject ≠ 0) :
    (store.get (processAll store m events).1 subject).1 =
      (progress (posture subject) (ownEvents subject events)).code ∧
    ownAlerts subject (Engine.processAll store m events).2 =
      changes (posture subject) (ownEvents subject events) := by
  induction events generalizing m posture with
  | nil => exact ⟨h subject, rfl⟩
  | cons ev events ih =>
    rw [processAll_cons, ownAlerts_append]
    by_cases hzero : ev.subject = 0
    · obtain ⟨hstore, halerts⟩ := process_ignored store m (Or.inl hzero)
      have hown : ownEvents subject (ev :: events) = ownEvents subject events := by
        have hne : ¬ ev.subject = subject := fun heq => hsubject (heq.symm.trans hzero)
        simp [ownEvents, hne]
      rw [hstore, halerts, hown]
      exact ih h
    · obtain ⟨hstore, halerts⟩ := h.process laws hzero
      obtain ⟨hstatus, hrest⟩ := ih hstore
      rw [hstatus, hrest, ownAlerts_of_map halerts]
      by_cases hown : subject = ev.subject
      · subst hown
        have hcons : ownEvents ev.subject (ev :: events) =
            ev :: ownEvents ev.subject events := by simp [ownEvents]
        rw [if_pos rfl, hcons, Function.update_self, changes_cons _ ev (ownEvents _ _)]
        exact ⟨rfl, rfl⟩
      · have hskip : ownEvents subject (ev :: events) = ownEvents subject events := by
          have hne : ¬ ev.subject = subject := fun heq => hown heq.symm
          simp [ownEvents, hne]
        rw [if_neg hown, hskip, Function.update_of_ne hown]
        exact ⟨rfl, rfl⟩

theorem ownEvents_append (subject : UInt32) (as bs : List Event) :
    ownEvents subject (as ++ bs) = ownEvents subject as ++ ownEvents subject bs := by
  simp [ownEvents]

theorem processAll_append (m : σ) (as bs : List Event) :
    processAll store m (as ++ bs) =
      ((processAll store (processAll store m as).1 bs).1,
        (processAll store m as).2 ++ (processAll store (processAll store m as).1 bs).2) := by
  induction as generalizing m with
  | nil => rfl
  | cons ev as ih => simp [processAll, ih]

end Refinement

/-- What the engine promises about a sequence of events from an empty store. -/
structure RefinesDocumented {σ : Type} (store : StateStore σ) (m : σ) (events : List Event) :
    Prop where
  /-- The status of a subject is the fold of the table over its own events. -/
  status : ∀ subject ≠ 0, (store.get (processAll store m events).1 subject).1 =
    (progress .nominal (ownEvents subject events)).code
  /-- It never decreases. -/
  monotone : ∀ subject ≠ 0, ∀ more,
    (store.get (processAll store m events).1 subject).1 ≤
      (store.get (processAll store m (events ++ more)).1 subject).1
  /-- The alerts are the changes of status, each once. -/
  alerts : ∀ subject ≠ 0, ownAlerts subject (processAll store m events).2 =
    changes .nominal (ownEvents subject events)
  /-- They form a chain from nominal to the status. -/
  chain : ∀ subject ≠ 0, Chain statusNominal (ownAlerts subject (processAll store m events).2)
    (store.get (processAll store m events).1 subject).1
  /-- Events of subject 0 or of an unknown kind change nothing and alert nobody. -/
  ignored : ∀ ev : Event, ev.subject = 0 ∨ 16 ≤ ev.kind →
    processAll store m (events ++ [ev]) = processAll store m events

/-- Runs of the engine refine the documented progression. -/
theorem engine_refines_documented {σ : Type} (store : StateStore σ) (laws : MapLike store) (m : σ)
    (hempty : store.Empty m) (events : List Event) : RefinesDocumented store m events := by
  have htracks : Tracks store m fun _ => .nominal := by
    intro subject
    rw [hempty subject]
    rfl
  constructor
  · intro subject hsubject
    exact (htracks.processAll laws events hsubject).1
  · intro subject hsubject more
    rw [(htracks.processAll laws events hsubject).1,
      (htracks.processAll laws (events ++ more) hsubject).1, ownEvents_append, progress, progress,
      List.foldl_append]
    exact le_progress _ _
  · intro subject hsubject
    exact (htracks.processAll laws events hsubject).2
  · intro subject hsubject
    obtain ⟨hstatus, halerts⟩ := htracks.processAll laws events hsubject
    rw [hstatus, halerts]
    exact chain_changes .nominal _
  · intro ev hev
    obtain ⟨hstore, halerts⟩ := process_ignored store (processAll store m events).1 hev
    rw [processAll_append]
    simp [processAll, hstore, halerts]

/-- A store kept as a function, as the map of the mock is. -/
def functionStore : StateStore (UInt32 → Option Status) where
  get m subject := match m subject with
    | some s => (s, true)
    | none => (statusNominal, false)
  set m subject s := Function.update m subject (some s)

theorem functionStore_mapLike : MapLike functionStore where
  get_set_self m subject s := by simp [functionStore]
  get_set_of_ne m subject other s hne := by simp [functionStore, Function.update_of_ne hne]

theorem engine_refines_on_map : RefinesDocumented functionStore (fun _ => none)
    [⟨eventCanaryTouch, 5, 0, 0, 0⟩, ⟨eventChallengeFail, 5, 0, 0, 0⟩,
      ⟨eventRateLimitTrip, 9, 0, 0, 0⟩] :=
  engine_refines_documented functionStore functionStore_mapLike (fun _ => none)
    (fun _ => rfl) _

end ZaqorinCore.Agent.Engine
