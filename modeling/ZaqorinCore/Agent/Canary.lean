import ZaqorinCore.Text.Path
import ZaqorinCore.Text.Unicode

/-!
# Canaries below the state directory

`CanaryAlertUnderRoot` of the package `kinds` places a marker file at a path that the server names.
The path is checked as text, then its directories are made, then they are checked with their links
followed. `confined_iff` says when nothing is made outside of the root of the canaries.
-/

namespace ZaqorinCore.Agent.Canary

open Base Text

/-- The names of the file system are byte strings, and so is what a file holds. -/
abbrev Tree := FileTree Bytes Bytes

/-- What the agent finds on the host, besides the tree. -/
structure Host where
  wd : Option (List (Hop Bytes))  -- `os.Getwd`
  rights : Rights Bytes
  chmod : List Bytes → Bool
  written : Nat  -- the bytes of a file that the disk takes
  sync : Bool

inductive Fault
  | noStateDir
  | noPath
  | resolveRoot
  | createRoot
  | chmodRoot
  | resolvePath
  | escapesRoot
  | createParent
  | resolveParent
  | parentOutside
  | createMarker
  | writeMarker
  | syncMarker
  deriving DecidableEq, Repr

/-- The text up to the error that is wrapped, if any. -/
def Fault.text : Fault → String
  | noStateDir => "canary_alert: state directory is empty"
  | noPath => "canary_alert: path is empty"
  | resolveRoot => "canary_alert: resolve root"
  | createRoot => "canary_alert: create root"
  | chmodRoot => "canary_alert: chmod root"
  | resolvePath => "canary_alert: resolve path"
  | escapesRoot => "canary_alert: path escapes managed canary root"
  | createParent => "canary_alert: create parent"
  | resolveParent => "canary_alert: resolve parent"
  | parentOutside => "canary_alert: parent resolves outside managed canary root"
  | createMarker => "canary_alert: create marker"
  | writeMarker => "canary_alert: write marker"
  | syncMarker => "canary_alert: sync marker"

def marker : Bytes := lit "zaqorin-canary\n"

/-- `filepath.EvalSymlinks`, which follows more links than the kernel. -/
def evalSymlinks (r : Rights Bytes) (t : Tree) (p : List Bytes) : Option (List Bytes) :=
  (resolve r t 255 [] (names p)).map Prod.fst

/-- `os.Chmod` -/
def chmod (h : Host) (t : Tree) (p : List Bytes) : Bool := (locationOf h.rights t p).any h.chmod

/-- `<stateDir>/canaries` -/
def rootOf (h : Host) (stateDir : Bytes) : Option (List Bytes) :=
  ((parsePath stateDir).join (parsePath (lit "canaries"))).abs h.wd

/-- The path of the marker; a relative target is below the root. -/
def candidateOf (h : Host) (root : List Bytes) (target : Bytes) : Option (List Bytes) :=
  let candidate := parsePath target
  (if candidate.rooted then candidate else (ofNames root).join candidate).abs h.wd

/-- The marker, at a candidate whose directory has been checked. -/
def writeMarker (h : Host) (t : Tree) (candidate : List Bytes) : Tree × Except Fault Unit :=
  match candidate.getLast? with
  | none => (t, .error .createMarker)
  | some name =>
    let (t, made) := make h.rights t candidate.dropLast name (.file (marker.take h.written))
    if ¬ made then (t, .error .createMarker)
    else if h.written < marker.length then (t, .error .writeMarker)
    else if ¬ h.sync then (t, .error .syncMarker)
    else (t, .ok ())

/-- From the creation of the parent on. -/
def place (h : Host) (t : Tree) (root candidate : List Bytes) (dryRun : Bool) :
    Tree × Except Fault Unit :=
  let parent := candidate.dropLast
  let (t, ok) := mkdirAll h.rights t parent.reverse
  if ¬ ok then (t, .error .createParent)
  else
    match evalSymlinks h.rights t parent with
    | none => (t, .error .resolveParent)
    | some resolvedParent =>
      -- the errors of these two calls are dropped
      let resolvedRoot := (evalSymlinks h.rights t root).orElse fun _ => Path.abs h.wd ⟨false, []⟩
      match resolvedRoot with
      | none => (t, .error .parentOutside)
      | some resolvedRoot =>
        if escapes resolvedRoot resolvedParent then (t, .error .parentOutside)
        else if dryRun then (t, .ok ())
        else writeMarker h t candidate

def canaryAlertUnderRoot (h : Host) (t : Tree) (target stateDir : Bytes) (dryRun : Bool) :
    Tree × Except Fault Unit :=
  if trimSpace stateDir = [] then (t, .error .noStateDir)
  else if trimSpace target = [] then (t, .error .noPath)
  else
    match rootOf h stateDir with
    | none => (t, .error .resolveRoot)
    | some root =>
      let (t, ok) := mkdirAll h.rights t root.reverse
      if ¬ ok then (t, .error .createRoot)
      else if ¬ chmod h t root then (t, .error .chmodRoot)
      else
        match candidateOf h root target with
        | none => (t, .error .resolvePath)
        | some candidate =>
          if escapes root candidate then (t, .error .escapesRoot)
          else place h t root candidate dryRun

/-! ## What the action promises -/

/-- Whatever is new is in the root of the canaries, and a success has placed the marker there. -/
structure Confined (h : Host) (t : Tree) (target stateDir : Bytes) (dryRun : Bool) (t' : Tree)
    (result : Except Fault Unit) : Prop where
  inside : ∀ loc, t.node loc = none → t'.node loc ≠ none → ∃ root r, rootOf h stateDir = some root ∧
    locationOf h.rights t' root = some r ∧ r <+: loc
  marked : result = .ok () → dryRun = false → ∃ root candidate r loc,
    rootOf h stateDir = some root ∧ candidateOf h root target = some candidate ∧
    locationOf h.rights t' root = some r ∧ locationOf h.rights t' candidate = some loc ∧
    r <+: loc ∧ r ≠ loc ∧ t.node loc = none ∧ t'.node loc = some (.file marker)

/-- No directory is missing above the root that could be made, and none below it on the way to the
candidate that would be made behind a link to another place. -/
structure Tame (h : Host) (t : Tree) (target stateDir : Bytes) : Prop where
  above : ∀ root, rootOf h stateDir = some root → ∀ first, ¬ First h.rights t root.dropLast first
  behind : ∀ root candidate r, rootOf h stateDir = some root →
    candidateOf h root target = some candidate → root <+: candidate →
    locationOf h.rights t root = some r → t.node r = some .dir → h.chmod r = true →
    ∀ first, First h.rights t candidate.dropLast first → r <+: first

/-! ## What the action does -/

section

variable {h : Host} {t : Tree} {root candidate : List Bytes} {target stateDir : Bytes}
  {dryRun : Bool}

theorem writeMarker_cases (h : Host) (t : Tree) (candidate : List Bytes) :
    ((writeMarker h t candidate).1 = t ∧ (writeMarker h t candidate).2 ≠ .ok ()) ∨
    ∃ name dir, ∃ hdir : t.node dir = some .dir, ∃ hfree : t.node (dir ++ [name]) = none,
      candidate = candidate.dropLast ++ [name] ∧
      locationOf h.rights t candidate.dropLast = some dir ∧ h.rights.search dir = true ∧
      (writeMarker h t candidate).1 =
        t.insert dir name (.file (marker.take h.written)) hdir hfree ∧
      ((writeMarker h t candidate).2 = .ok () → marker.length ≤ h.written) := by
  rcases List.eq_nil_or_concat candidate with rfl | ⟨parent, name, rfl⟩
  · exact Or.inl ⟨rfl, fun h => by cases h⟩
  rw [List.concat_eq_append]
  simp only [writeMarker, List.getLast?_append, List.getLast?_singleton, Option.some_or,
    List.dropLast_concat]
  rcases make_cases h.rights t parent name (.file (marker.take h.written)) with hmake | ⟨dir, hdir,
    hfree, hparent, hsearch, -, hmake⟩
  · left
    simp only [hmake]
    exact ⟨rfl, fun h => by cases h⟩
  · right
    refine ⟨name, dir, hdir, hfree, rfl, hparent, hsearch, ?_, ?_⟩
    · simp only [hmake]
      split
      · rfl
      · split
        · rfl
        · split <;> rfl
    · simp only [hmake]
      intro hok
      by_contra hlt
      simp [not_le.mp hlt] at hok

/-- Where the kernel finds a path, `EvalSymlinks` does as well. -/
theorem evalSymlinks_of_locate {p d : List Bytes} (hp : locationOf h.rights t p = some d) :
    evalSymlinks h.rights t p = some d := by
  obtain ⟨m, hresolve⟩ := locationOf_eq_some.mp hp
  obtain ⟨m', -, hresolve'⟩ := resolve_mono (.refl t) (by decide : maxLinks ≤ 255) hresolve
  rw [evalSymlinks, hresolve']
  rfl

/-- The directories on the way to the candidate are made; the marker only where both checks have
passed. -/
theorem place_cases (h : Host) (t : Tree) (root candidate : List Bytes) (dryRun : Bool) :
    let made := mkdirAll h.rights t candidate.dropLast.reverse
    ((place h t root candidate dryRun).1 = made.1 ∧
      ((place h t root candidate dryRun).2 = .ok () → dryRun = true)) ∨
    (made.2 = true ∧ place h t root candidate dryRun = writeMarker h made.1 candidate ∧
      ∀ r d, locationOf h.rights made.1 root = some r →
        locationOf h.rights made.1 candidate.dropLast = some d → r <+: d) := by
  intro made
  unfold place
  dsimp only
  by_cases hok : made.2 = true
  · rw [if_neg (not_not.mpr hok)]
    cases hparent : evalSymlinks h.rights made.1 candidate.dropLast with
    | none => exact Or.inl ⟨rfl, nofun⟩
    | some resolvedParent =>
      dsimp only
      split
      · exact Or.inl ⟨rfl, nofun⟩
      · rename_i resolvedRoot hroot
        split
        · exact Or.inl ⟨rfl, nofun⟩
        · rename_i hinside
          split
          · rename_i hdry
            exact Or.inl ⟨rfl, fun _ => hdry⟩
          · refine Or.inr ⟨hok, rfl, ?_⟩
            intro r d hr hd
            rw [evalSymlinks_of_locate hr] at hroot
            rw [evalSymlinks_of_locate hd] at hparent
            cases hroot
            cases hparent
            rwa [escapes_iff, not_not] at hinside
  · rw [if_pos hok]
    exact Or.inl ⟨rfl, nofun⟩

theorem canary_of_blank (h : Host) (t : Tree) (dryRun : Bool)
    (hblank : trimSpace stateDir = [] ∨ trimSpace target = []) :
    ∃ fault, canaryAlertUnderRoot h t target stateDir dryRun = (t, .error fault) := by
  unfold canaryAlertUnderRoot
  by_cases hdir : trimSpace stateDir = []
  · exact ⟨_, if_pos hdir⟩
  · rw [if_neg hdir, if_pos (hblank.resolve_left hdir)]
    exact ⟨_, rfl⟩

/-- The root is made, and then the candidate is placed if the root may be used and the path does not
escape as text. -/
theorem canary_cases (t : Tree) (dryRun : Bool) (hdir : trimSpace stateDir ≠ [])
    (htarget : trimSpace target ≠ []) (hroot : rootOf h stateDir = some root) :
    let made := mkdirAll h.rights t root.reverse
    ((canaryAlertUnderRoot h t target stateDir dryRun).1 = made.1 ∧
      (canaryAlertUnderRoot h t target stateDir dryRun).2 ≠ .ok () ∧
      ¬ (made.2 = true ∧ chmod h made.1 root = true ∧
        ∃ candidate, candidateOf h root target = some candidate ∧ root <+: candidate)) ∨
    ∃ candidate, made.2 = true ∧ chmod h made.1 root = true ∧
      candidateOf h root target = some candidate ∧ root <+: candidate ∧
      canaryAlertUnderRoot h t target stateDir dryRun = place h made.1 root candidate dryRun := by
  intro made
  unfold canaryAlertUnderRoot
  rw [if_neg hdir, if_neg htarget, hroot]
  dsimp only
  by_cases hok : made.2 = true
  · rw [if_neg (not_not.mpr hok)]
    by_cases hchmod : chmod h made.1 root = true
    · rw [if_neg (not_not.mpr hchmod)]
      cases hcandidate : candidateOf h root target with
      | none => exact Or.inl ⟨rfl, nofun, by simp⟩
      | some candidate =>
        dsimp only
        by_cases hescapes : escapes root candidate = true
        · rw [if_pos hescapes]
          rw [escapes_iff] at hescapes
          exact Or.inl ⟨rfl, nofun, by simpa using fun _ _ => hescapes⟩
        · rw [if_neg hescapes]
          rw [escapes_iff, not_not] at hescapes
          exact Or.inr ⟨candidate, hok, hchmod, rfl, hescapes, rfl⟩
    · rw [if_pos hchmod]
      exact Or.inl ⟨rfl, nofun, fun hall => hchmod hall.2.1⟩
  · rw [if_pos hok]
    exact Or.inl ⟨rfl, nofun, fun hall => hok hall.1⟩

/-! ## Below the root -/

theorem makes_parent (h : Host) (t : Tree) (p : List Bytes) :
    Makes h.rights t p (mkdirAll h.rights t p.reverse).1 (mkdirAll h.rights t p.reverse).2 := by
  have hmakes := makes_mkdirAll h.rights t p.reverse
  rwa [List.reverse_reverse] at hmakes

theorem writeMarker_grows (h : Host) (t : Tree) (candidate : List Bytes) :
    Grows t (writeMarker h t candidate).1 := by
  rcases writeMarker_cases h t candidate with ⟨heq, -⟩ | ⟨_, _, hdir, hfree, -, -, -, heq, -⟩
  · rw [heq]
    exact .refl t
  · rw [heq]
    exact grows_insert hdir hfree nofun

theorem place_grows (h : Host) (t : Tree) (root candidate : List Bytes) (dryRun : Bool) :
    Grows (mkdirAll h.rights t candidate.dropLast.reverse).1
      (place h t root candidate dryRun).1 := by
  rcases place_cases h t root candidate dryRun with ⟨heq, -⟩ | ⟨-, heq, -⟩
  · rw [heq]
    exact .refl _
  · rw [heq]
    exact writeMarker_grows h _ candidate

/-- What is new is below the root if the directory that is made first is. -/
theorem place_inside {r : List Bytes} (hr : locationOf h.rights t root = some r)
    (hbehind : ∀ first, First h.rights t candidate.dropLast first → r <+: first) {loc : List Bytes}
    (hnone : t.node loc = none) (hnew : (place h t root candidate dryRun).1.node loc ≠ none) :
    r <+: loc := by
  have hmakes := makes_parent h t candidate.dropLast
  by_cases hparent : (mkdirAll h.rights t candidate.dropLast.reverse).1.node loc = none
  · -- the marker itself
    rcases place_cases h t root candidate dryRun with ⟨heq, -⟩ | ⟨-, heq, hchecked⟩
    · rw [heq] at hnew
      exact absurd hparent hnew
    rw [heq] at hnew
    rcases writeMarker_cases h (mkdirAll h.rights t candidate.dropLast.reverse).1 candidate with
      ⟨heq, -⟩ | ⟨name, dir, hdir, hfree, -, hd, -, heq, -⟩
    · rw [heq] at hnew
      exact absurd hparent hnew
    · rw [heq] at hnew
      by_cases hloc : loc = dir ++ [name]
      · subst hloc
        exact (hchecked r dir (locationOf_mono hmakes.grows hr) hd).trans (List.prefix_append _ _)
      · rw [FileTree.node_insert_of_ne _ _ hloc] at hnew
        exact absurd hparent hnew
  · obtain ⟨first, hfirst, hbelow⟩ := hmakes.below loc hnone hparent
    exact (hbehind first hfirst).trans hbelow

theorem place_marked {r : List Bytes} (hr : locationOf h.rights t root = some r)
    (hroot : t.node r = some .dir) (hok : (place h t root candidate dryRun).2 = .ok ())
    (hdry : dryRun = false) : ∃ loc,
      locationOf h.rights (place h t root candidate dryRun).1 candidate = some loc ∧ r <+: loc ∧ r ≠ loc ∧ t.node loc = none ∧
      (place h t root candidate dryRun).1.node loc = some (.file marker) := by
  have hmakes := makes_parent h t candidate.dropLast
  rcases place_cases h t root candidate dryRun with ⟨-, hdryRun⟩ | ⟨-, heq, hchecked⟩
  · rw [hdryRun hok] at hdry
    cases hdry
  rw [heq] at hok ⊢
  rcases writeMarker_cases h (mkdirAll h.rights t candidate.dropLast.reverse).1 candidate with
    ⟨-, hne⟩ | ⟨name, dir, hdir, hfree, hcandidate, hd, hsearch, heq', hwritten⟩
  · exact absurd hok hne
  rw [heq']
  have hnode := FileTree.node_insert_self (x := .file (marker.take h.written)) hdir hfree
  have hgrows := grows_insert (x := .file (marker.take h.written)) hdir hfree nofun
  have hnone : t.node (dir ++ [name]) = none := by
    by_contra hne
    obtain ⟨x, hx⟩ := Option.ne_none_iff_exists'.mp hne
    rw [hmakes.grows.keeps _ _ hx] at hfree
    cases hfree
  have hlocate := locationOf_snoc (locationOf_mono hgrows hd) hsearch hnode nofun
  rw [← hcandidate] at hlocate
  refine ⟨dir ++ [name], hlocate,
    (hchecked r dir (locationOf_mono hmakes.grows hr) hd).trans (List.prefix_append _ _), ?_, hnone,
    ?_⟩
  · rintro rfl
    rw [hroot] at hnone
    cases hnone
  · rw [hnode, List.take_of_length_le (hwritten hok)]

/-! ## The condition -/

/-- If nothing is missing above the root, the root itself is the only directory that is made. -/
theorem root_inside (habove : ∀ first, ¬ First h.rights t root.dropLast first) {first : List Bytes}
    (hfirst : First h.rights t root first) :
    locationOf h.rights (mkdirAll h.rights t root.reverse).1 root = some first := by
  have hmakes := makes_parent h t root
  rcases List.eq_nil_or_concat root with rfl | ⟨way, last, rfl⟩
  · exact absurd hfirst (habove first)
  · rw [List.concat_eq_append, List.dropLast_concat] at habove
    rw [List.concat_eq_append] at hfirst hmakes ⊢
    exact hmakes.last habove hfirst

/-- Behind the root the action makes nothing outside of it. -/
theorem behind_root (htame : Tame h t target stateDir) (hroot : rootOf h stateDir = some root)
    (hcandidate : candidateOf h root target = some candidate) (hinside : root <+: candidate)
    (hchmod : chmod h (mkdirAll h.rights t root.reverse).1 root = true) {r : List Bytes}
    (hr : locationOf h.rights (mkdirAll h.rights t root.reverse).1 root = some r)
    (hdir : (mkdirAll h.rights t root.reverse).1.node r = some .dir) {first : List Bytes}
    (hfirst : First h.rights (mkdirAll h.rights t root.reverse).1 candidate.dropLast first) :
    r <+: first := by
  have hmakes := makes_parent h t root
  by_cases hnew : ∃ made, First h.rights t root made
  · obtain ⟨made, hmade⟩ := hnew
    have hlocate := root_inside (htame.above root hroot) hmade
    rw [hr] at hlocate
    cases hlocate
    obtain ⟨rest, rfl⟩ := hinside
    rcases List.eq_nil_or_concat rest with rfl | ⟨way, last, rfl⟩
    · -- the candidate is the root itself
      rw [List.append_nil] at hfirst
      rcases List.eq_nil_or_concat root with rfl | ⟨above, last, rfl⟩
      · exact absurd hmade (htame.above [] hroot r)
      · rw [List.concat_eq_append, List.dropLast_concat] at hfirst
        rw [List.concat_eq_append, (hfirst.append [last]).locationOf_eq_none] at hr
        cases hr
    · rw [List.concat_eq_append, ← List.append_assoc, List.dropLast_concat] at hfirst
      exact First.below_new hmakes.grows hmade.node_eq_none hr hfirst
  · -- the root is there already
    have heq := hmakes.eq (not_exists.mp hnew)
    rw [heq] at hr hdir hfirst hchmod
    rw [chmod, hr, Option.any_some] at hchmod
    exact htame.behind root candidate r hroot hcandidate hinside hr hdir hchmod first hfirst

theorem confined_of_quiet {fault : Fault}
    (hquiet : canaryAlertUnderRoot h t target stateDir dryRun = (t, .error fault)) :
    Confined h t target stateDir dryRun (canaryAlertUnderRoot h t target stateDir dryRun).1
      (canaryAlertUnderRoot h t target stateDir dryRun).2 := by
  rw [hquiet]
  exact ⟨fun loc hnone hnew => absurd hnone hnew, nofun⟩

theorem canary_of_no_root (t : Tree) (target : Bytes) (dryRun : Bool)
    (hroot : rootOf h stateDir = none) :
    ∃ fault, canaryAlertUnderRoot h t target stateDir dryRun = (t, .error fault) := by
  unfold canaryAlertUnderRoot
  split
  · exact ⟨_, rfl⟩
  · split
    · exact ⟨_, rfl⟩
    · rw [hroot]
      exact ⟨_, rfl⟩

theorem confined_of_tame (hdir : trimSpace stateDir ≠ []) (htarget : trimSpace target ≠ [])
    (htame : Tame h t target stateDir) :
    Confined h t target stateDir dryRun (canaryAlertUnderRoot h t target stateDir dryRun).1
      (canaryAlertUnderRoot h t target stateDir dryRun).2 := by
  cases hroot : rootOf h stateDir with
  | none =>
    obtain ⟨fault, hquiet⟩ := canary_of_no_root t target dryRun hroot
    exact confined_of_quiet hquiet
  | some root =>
    have hmakes := makes_parent h t root
    have hmade : ∀ loc, t.node loc = none →
        (mkdirAll h.rights t root.reverse).1.node loc ≠ none →
        ∃ r, locationOf h.rights (mkdirAll h.rights t root.reverse).1 root = some r ∧
          r <+: loc := by
      intro loc hnone hnew
      obtain ⟨first, hfirst, hbelow⟩ := hmakes.below loc hnone hnew
      exact ⟨first, root_inside (htame.above root hroot) hfirst, hbelow⟩
    rcases canary_cases t dryRun hdir htarget hroot with ⟨htree, hfailed, -⟩ |
      ⟨candidate, hok, hchmod, hcandidate, hinside, hcall⟩
    · rw [htree]
      refine ⟨?_, fun hok => absurd hok hfailed⟩
      intro loc hnone hnew
      obtain ⟨r, hr, hbelow⟩ := hmade loc hnone hnew
      exact ⟨root, r, hroot, hr, hbelow⟩
    · obtain ⟨r, hr, hrdir, -⟩ := hmakes.there hok
      have hbehind : ∀ first, First h.rights (mkdirAll h.rights t root.reverse).1 candidate.dropLast
          first → r <+: first := fun first hfirst =>
        behind_root htame hroot hcandidate hinside hchmod hr hrdir hfirst
      have hgrows := (makes_parent h _ candidate.dropLast).grows.trans
        (place_grows h (mkdirAll h.rights t root.reverse).1 root candidate dryRun)
      have hr' := locationOf_mono hgrows hr
      rw [hcall]
      refine ⟨?_, ?_⟩
      · intro loc hnone hnew
        by_cases hroot' : (mkdirAll h.rights t root.reverse).1.node loc = none
        · exact ⟨root, r, hroot, hr', place_inside hr hbehind hroot' hnew⟩
        · obtain ⟨r₁, hr₁, hbelow⟩ := hmade loc hnone hroot'
          rw [hr] at hr₁
          cases hr₁
          exact ⟨root, r, hroot, hr', hbelow⟩
      · intro hok hdry
        obtain ⟨loc, hloc, hbelow, hne, hnone, hnode⟩ := place_marked hr hrdir hok hdry
        have hfresh : t.node loc = none := by
          by_contra hne
          obtain ⟨x, hx⟩ := Option.ne_none_iff_exists'.mp hne
          rw [hmakes.grows.keeps _ _ hx] at hnone
          cases hnone
        exact ⟨root, candidate, r, loc, hroot, hcandidate, hr', hloc, hbelow, hne, hfresh, hnode⟩

theorem canary_grows (t : Tree) (dryRun : Bool) (hdir : trimSpace stateDir ≠ [])
    (htarget : trimSpace target ≠ []) (hroot : rootOf h stateDir = some root) :
    Grows (mkdirAll h.rights t root.reverse).1
      (canaryAlertUnderRoot h t target stateDir dryRun).1 := by
  rcases canary_cases t dryRun hdir htarget hroot with ⟨htree, -⟩ |
    ⟨candidate, -, -, -, -, hcall⟩
  · rw [htree]
    exact .refl _
  · rw [hcall]
    exact (makes_parent h _ candidate.dropLast).grows.trans (place_grows h _ root candidate dryRun)

theorem tame_of_confined (hdir : trimSpace stateDir ≠ []) (htarget : trimSpace target ≠ [])
    (hconfined : Confined h t target stateDir dryRun
      (canaryAlertUnderRoot h t target stateDir dryRun).1
      (canaryAlertUnderRoot h t target stateDir dryRun).2) : Tame h t target stateDir := by
  constructor
  · intro root hroot first hfirst
    have hmakes := makes_parent h t root
    have hgrows := canary_grows t dryRun hdir htarget hroot
    rcases List.eq_nil_or_concat root with rfl | ⟨way, last, rfl⟩
    · obtain ⟨pre, n, post, dir, hnil, -⟩ := hfirst
      simp at hnil
    rw [List.concat_eq_append] at hroot hmakes hgrows hfirst
    rw [List.dropLast_concat] at hfirst
    have hmade := hgrows.keeps _ _ (hmakes.first _ (hfirst.append [last]))
    obtain ⟨root', r, hroot', hr, hbelow⟩ := hconfined.inside first hfirst.node_eq_none
      (by rw [hmade]; nofun)
    rw [hroot] at hroot'
    cases hroot'
    -- the root is below the directory that was made, so that one is not below the root
    have hlength := hfirst.locationOf_below (hmakes.grows.trans hgrows) hr
    have hle := hbelow.length_le
    rw [List.length_singleton] at hlength
    omega
  · intro root candidate r hroot hcandidate hinside hr hrdir hchmod first hfirst
    have hthere : mkdirAll h.rights t root.reverse = (t, true) := by
      apply mkdirAll_of_stat_dir
      rw [List.reverse_reverse, stat, hr]
      exact hrdir
    have hgrows := canary_grows t dryRun hdir htarget hroot
    rw [hthere] at hgrows
    have hcall : canaryAlertUnderRoot h t target stateDir dryRun =
        place h t root candidate dryRun := by
      rcases canary_cases t dryRun hdir htarget hroot with ⟨-, -, hnot⟩ |
        ⟨candidate', -, -, hcandidate', -, hcall⟩
      · rw [hthere] at hnot
        refine absurd ⟨rfl, ?_, candidate, hcandidate, hinside⟩ hnot
        rw [chmod, hr, Option.any_some, hchmod]
      · rw [hcandidate] at hcandidate'
        cases hcandidate'
        rw [hthere] at hcall
        exact hcall
    have hmade := (place_grows h t root candidate dryRun).keeps _ _
      ((makes_parent h t candidate.dropLast).first _ hfirst)
    rw [← hcall] at hmade
    obtain ⟨root', r', hroot', hr', hbelow⟩ := hconfined.inside first hfirst.node_eq_none
      (by rw [hmade]; nofun)
    rw [hroot] at hroot'
    cases hroot'
    rw [locationOf_mono hgrows hr] at hr'
    cases hr'
    exact hbelow

end

/-- The action is confined exactly when the directories that it would make first, for the root and
for the candidate, are where they should be. -/
theorem confined_iff (h : Host) (t : Tree) (target stateDir : Bytes) (dryRun : Bool) :
    Confined h t target stateDir dryRun (canaryAlertUnderRoot h t target stateDir dryRun).1
      (canaryAlertUnderRoot h t target stateDir dryRun).2 ↔
      (trimSpace stateDir ≠ [] → trimSpace target ≠ [] → Tame h t target stateDir) := by
  constructor
  · exact fun hconfined hdir htarget => tame_of_confined hdir htarget hconfined
  · intro htame
    by_cases hblank : trimSpace stateDir = [] ∨ trimSpace target = []
    · obtain ⟨fault, hquiet⟩ := canary_of_blank h t dryRun hblank
      exact confined_of_quiet hquiet
    · rw [not_or] at hblank
      exact confined_of_tame hblank.1 hblank.2 (htame hblank.1 hblank.2)

/-- A host on which everything succeeds. -/
def willing : Host where
  wd := some []
  rights := ⟨fun _ => true, fun _ => true⟩
  chmod _ := true
  written := 15
  sync := true

/-- `/etc` and `/s/canaries`, with a link from below the latter to the former. -/
def linked : Tree :=
  let t : Tree := FileTree.bare.insert [] (lit "etc") .dir rfl rfl
  let t := t.insert [] (lit "s") .dir (by decide +kernel) (by decide +kernel)
  let t := t.insert [lit "s"] (lit "canaries") .dir (by decide +kernel) (by decide +kernel)
  t.insert [lit "s", lit "canaries"] (lit "link") (.link true [.into (lit "etc")])
    (by decide +kernel) (by decide +kernel)

-- a marker below the root, and one behind the link
example : ((canaryAlertUnderRoot willing linked (lit "a/x") (lit "/s") false).1.node
    [lit "s", lit "canaries", lit "a", lit "x"]) = some (.file marker) := by decide +kernel

example : (match (canaryAlertUnderRoot willing linked (lit "link/sub/x") (lit "/s") false).2 with
    | .error .parentOutside => true
    | _ => false) = true := by decide +kernel

/-- A directory is made in `/etc`, before the error is returned. -/
theorem canary_escapes : ¬ Confined willing linked (lit "link/sub/x") (lit "/s") false
    (canaryAlertUnderRoot willing linked (lit "link/sub/x") (lit "/s") false).1
    (canaryAlertUnderRoot willing linked (lit "link/sub/x") (lit "/s") false).2 := by
  intro hconfined
  have hnone : linked.node [lit "etc", lit "sub"] = none := by decide +kernel
  have hnew : (canaryAlertUnderRoot willing linked (lit "link/sub/x") (lit "/s") false).1.node
      [lit "etc", lit "sub"] = some .dir := by decide +kernel
  have hrootOf : rootOf willing (lit "/s") = some [lit "s", lit "canaries"] := by decide +kernel
  have hlocate : locationOf willing.rights
      (canaryAlertUnderRoot willing linked (lit "link/sub/x") (lit "/s") false).1
      [lit "s", lit "canaries"] = some [lit "s", lit "canaries"] := by decide +kernel
  obtain ⟨root, r, hroot, hr, hbelow⟩ := hconfined.inside _ hnone (by rw [hnew]; nofun)
  rw [hrootOf] at hroot
  cases hroot
  rw [hlocate] at hr
  cases hr
  exact absurd hbelow (by decide +kernel)

end ZaqorinCore.Agent.Canary
