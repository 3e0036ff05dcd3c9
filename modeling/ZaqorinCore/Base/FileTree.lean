import Mathlib

/-!
# Trees of files with symbolic links

A tree says what stands at each location, a list of names from the root. `resolve` resolves a path
as a kernel does, with a bound on the links that are followed; `mkdirAll` makes the directories of a
path that are missing. `First` is the directory that it makes first: all others are below it.
-/

namespace ZaqorinCore.Base

variable {ν κ : Type}

/-- One component of a path. -/
inductive Hop (ν : Type)
  | here
  | up
  | into (name : ν)
  deriving DecidableEq, Repr

inductive Node (ν κ : Type)
  | dir
  | file (content : κ)
  | link (rooted : Bool) (target : List (Hop ν))
  deriving DecidableEq, Repr

/-- What stands below a location stands in a directory. -/
structure FileTree (ν κ : Type) where
  node : List ν → Option (Node ν κ)
  root : node [] = some .dir
  parent : ∀ loc n, node (loc ++ [n]) ≠ none → node loc = some .dir

/-- Only the root. -/
def FileTree.bare : FileTree ν κ where
  node
    | [] => some .dir
    | _ :: _ => none
  root := rfl
  parent loc n h := by
    cases loc <;> exact absurd rfl h

/-- The directories that may be searched, the entries that may be made. -/
structure Rights (ν : Type) where
  search : List ν → Bool
  create : List ν → Bool

/-! ## Paths -/

/-- The components of a path, with a way to follow a link. -/
def resolveWith (r : Rights ν) (t : FileTree ν κ) (left : Nat)
    (follow : List ν → List (Hop ν) → Option (List ν × Nat)) :
    List ν → List (Hop ν) → Option (List ν × Nat)
  | loc, [] => some (loc, left)
  | loc, .here :: rest => resolveWith r t left follow loc rest
  | loc, .up :: rest => resolveWith r t left follow loc.dropLast rest
  | loc, .into n :: rest =>
    if r.search loc then
      match t.node (loc ++ [n]) with
      | none => none
      | some .dir => resolveWith r t left follow (loc ++ [n]) rest
      | some (.file _) => if rest = [] then some (loc ++ [n], left) else none
      | some (.link rooted target) => follow (if rooted then [] else loc) (target ++ rest)
    else none

/-- The location that a path leads to from a location, and how many more links may be followed. -/
def resolve (r : Rights ν) (t : FileTree ν κ) : Nat → List ν → List (Hop ν) → Option (List ν × Nat)
  | 0 => resolveWith r t 0 fun _ _ => none
  | k + 1 => resolveWith r t (k + 1) (resolve r t k)

/-- The bound of the kernel. -/
def maxLinks : Nat := 40

/-- A path from the root that is free of `.` and `..`. -/
def names (p : List ν) : List (Hop ν) := p.map .into

def locationOf (r : Rights ν) (t : FileTree ν κ) (p : List ν) : Option (List ν) :=
  (resolve r t maxLinks [] (names p)).map Prod.fst

/-- `stat` -/
def stat (r : Rights ν) (t : FileTree ν κ) (p : List ν) : Option (Node ν κ) :=
  (locationOf r t p).bind t.node

/-! ## How paths are walked -/

section

variable {r : Rights ν} {t t' : FileTree ν κ}

theorem resolve_nil (k : Nat) (loc : List ν) : resolve r t k loc [] = some (loc, k) := by
  cases k <;> rfl

theorem resolve_here (k : Nat) (loc : List ν) (rest : List (Hop ν)) :
    resolve r t k loc (.here :: rest) = resolve r t k loc rest := by
  cases k <;> rfl

theorem resolve_up (k : Nat) (loc : List ν) (rest : List (Hop ν)) :
    resolve r t k loc (.up :: rest) = resolve r t k loc.dropLast rest := by
  cases k <;> rfl

theorem resolve_into (k : Nat) (loc : List ν) (n : ν) (rest : List (Hop ν)) :
    resolve r t k loc (.into n :: rest) =
      if r.search loc then
        match t.node (loc ++ [n]) with
        | none => none
        | some .dir => resolve r t k (loc ++ [n]) rest
        | some (.file _) => if rest = [] then some (loc ++ [n], k) else none
        | some (.link rooted target) =>
          match k with
          | 0 => none
          | k + 1 => resolve r t k (if rooted then [] else loc) (target ++ rest)
      else none := by
  cases k <;> rfl

/-- Nothing stands below what is no directory. -/
theorem FileTree.node_below {loc : List ν} (h : t.node loc ≠ some .dir) (n : ν) :
    t.node (loc ++ [n]) = none := by
  by_contra hne
  exact h (t.parent _ _ hne)

theorem resolve_into_none {k : Nat} {loc : List ν} {n : ν} (h : t.node (loc ++ [n]) = none)
    (rest : List (Hop ν)) : resolve r t k loc (.into n :: rest) = none := by
  rw [resolve_into, h]
  split <;> rfl

/-- A path is walked in two parts. -/
theorem resolve_append (k : Nat) (loc : List ν) (pre : List (Hop ν)) (n : ν) (rest : List (Hop ν)) :
    resolve r t k loc (pre ++ .into n :: rest) =
      (resolve r t k loc pre).bind fun d => resolve r t d.2 d.1 (.into n :: rest) := by
  -- on the links that are left, and for each on the components up to the next link
  induction k using Nat.strongRecOn generalizing loc pre with
  | ind k ihk =>
    induction pre generalizing loc with
    | nil =>
      rw [resolve_nil]
      rfl
    | cons hop pre ih =>
      cases hop with
      | here => rw [List.cons_append, resolve_here, resolve_here, ih]
      | up => rw [List.cons_append, resolve_up, resolve_up, ih]
      | into m =>
        rw [List.cons_append, resolve_into, resolve_into]
        by_cases hs : r.search loc = true
        · rw [if_pos hs, if_pos hs]
          cases hnode : t.node (loc ++ [m]) with
          | none => rfl
          | some x =>
            cases x with
            | dir => exact ih _
            | file c =>
              have hbelow : t.node (loc ++ [m] ++ [n]) = none :=
                FileTree.node_below (by rw [hnode]; nofun) n
              by_cases hpre : pre = []
              · subst hpre
                simp [resolve_into_none hbelow]
              · simp [hpre]
            | link rooted target =>
              cases k with
              | zero => rfl
              | succ k =>
                show resolve r t k _ (target ++ (pre ++ .into n :: rest)) = _
                rw [← List.append_assoc]
                exact ihk k (Nat.lt_succ_self k) _ _
        · rw [if_neg hs, if_neg hs]
          rfl

/-- Nothing is lost, and what is new is no link. -/
structure Grows (t t' : FileTree ν κ) : Prop where
  keeps : ∀ loc x, t.node loc = some x → t'.node loc = some x
  plain : ∀ loc rooted target, t.node loc = none → t'.node loc ≠ some (.link rooted target)

theorem Grows.refl (t : FileTree ν κ) : Grows t t := by
  refine ⟨fun loc x h => h, ?_⟩
  intro loc rooted target h
  rw [h]
  nofun

theorem Grows.trans {t'' : FileTree ν κ} (h : Grows t t') (h' : Grows t' t'') : Grows t t'' := by
  refine ⟨fun loc x hx => h'.keeps _ _ (h.keeps _ _ hx), ?_⟩
  intro loc rooted target hnone hlink
  cases hmid : t'.node loc with
  | none => exact h'.plain _ _ _ hmid hlink
  | some x =>
    rw [h'.keeps _ _ hmid] at hlink
    cases hlink
    exact h.plain _ _ _ hnone hmid

/-- A path leads where it led before, also with more links to follow. -/
theorem resolve_mono (hg : Grows t t') {k k' : Nat} (hk : k ≤ k') {loc d : List ν}
    {p : List (Hop ν)} {m : Nat} (h : resolve r t k loc p = some (d, m)) :
    ∃ m', m ≤ m' ∧ resolve r t' k' loc p = some (d, m') := by
  induction k using Nat.strongRecOn generalizing k' loc p with
  | ind k ihk =>
    induction p generalizing loc with
    | nil =>
      rw [resolve_nil] at h
      cases h
      exact ⟨k', hk, resolve_nil _ _⟩
    | cons hop p ih =>
      cases hop with
      | here =>
        rw [resolve_here] at h ⊢
        exact ih h
      | up =>
        rw [resolve_up] at h ⊢
        exact ih h
      | into n =>
        rw [resolve_into] at h ⊢
        by_cases hs : r.search loc = true
        · rw [if_pos hs] at h ⊢
          cases hnode : t.node (loc ++ [n]) with
          | none =>
            rw [hnode] at h
            cases h
          | some x =>
            rw [hnode] at h
            rw [hg.keeps _ _ hnode]
            cases x with
            | dir => exact ih h
            | file c =>
              dsimp only at h ⊢
              split at h
              · rename_i hp
                cases h
                exact ⟨k', hk, if_pos hp⟩
              · cases h
            | link rooted target =>
              cases k with
              | zero => cases h
              | succ k =>
                cases k' with
                | zero => omega
                | succ k' => exact ihk k (Nat.lt_succ_self k) (by omega) h
        · rw [if_neg hs] at h
          cases h

theorem locationOf_eq_some {p d : List ν} :
    locationOf r t p = some d ↔ ∃ m, resolve r t maxLinks [] (names p) = some (d, m) := by
  unfold locationOf
  rw [Option.map_eq_some_iff]
  constructor
  · rintro ⟨⟨d, m⟩, h, rfl⟩
    exact ⟨m, h⟩
  · rintro ⟨m, h⟩
    exact ⟨(d, m), h, rfl⟩

theorem names_append (p q : List ν) : names (p ++ q) = names p ++ names q := List.map_append

theorem names_cons (n : ν) (p : List ν) : names (n :: p) = .into n :: names p := rfl

theorem locationOf_mono (hg : Grows t t') {p d : List ν} (h : locationOf r t p = some d) :
    locationOf r t' p = some d := by
  obtain ⟨m, hresolve⟩ := locationOf_eq_some.mp h
  obtain ⟨m', -, hresolve'⟩ := resolve_mono hg le_rfl hresolve
  exact locationOf_eq_some.mpr ⟨m', hresolve'⟩

theorem locationOf_append_of_none {p dir post : List ν} {n : ν} (h : locationOf r t p = some dir)
    (hnone : t.node (dir ++ [n]) = none) : locationOf r t (p ++ n :: post) = none := by
  obtain ⟨m, hresolve⟩ := locationOf_eq_some.mp h
  rw [locationOf, names_append, names_cons, resolve_append, hresolve, Option.bind_some,
    resolve_into_none hnone]
  rfl

theorem locationOf_snoc {p dir : List ν} {n : ν} {x : Node ν κ} (h : locationOf r t p = some dir)
    (hsearch : r.search dir = true) (hnode : t.node (dir ++ [n]) = some x)
    (hx : ∀ rooted target, x ≠ .link rooted target) :
    locationOf r t (p ++ [n]) = some (dir ++ [n]) := by
  obtain ⟨m, hresolve⟩ := locationOf_eq_some.mp h
  rw [locationOf, names_append, names_cons, resolve_append, hresolve, Option.bind_some,
    resolve_into, if_pos hsearch, hnode]
  cases x with
  | dir => rw [names, List.map_nil, resolve_nil, Option.map_some]
  | file c => rfl
  | link rooted target => exact absurd rfl (hx rooted target)

theorem FileTree.none_below {loc : List ν} (h : t.node loc = none) (q : List ν) :
    t.node (loc ++ q) = none := by
  induction q using List.reverseRecOn with
  | nil => simpa using h
  | append_singleton q n ih =>
    rw [← List.append_assoc]
    exact FileTree.node_below (by rw [ih]; nofun) n

/-- Where there are no links, a path leads to the location of the same names. -/
theorem resolve_plain {k : Nat} {loc q d : List ν} {m : Nat}
    (hplain : ∀ q₁ q₂ rooted target, q = q₁ ++ q₂ → t.node (loc ++ q₁) ≠ some (.link rooted target))
    (h : resolve r t k loc (names q) = some (d, m)) : d = loc ++ q := by
  induction q generalizing loc with
  | nil =>
    rw [names, List.map_nil, resolve_nil] at h
    cases h
    simp
  | cons n q ih =>
    rw [names_cons, resolve_into] at h
    split at h
    · cases hnode : t.node (loc ++ [n]) with
      | none =>
        rw [hnode] at h
        cases h
      | some x =>
        rw [hnode] at h
        cases x with
        | dir =>
          have hd : d = loc ++ [n] ++ q := by
            apply ih _ h
            intro q₁ q₂ rooted target hq
            rw [List.append_assoc]
            exact hplain (n :: q₁) q₂ rooted target (by rw [hq]; rfl)
          simpa using hd
        | file c =>
          dsimp only at h
          split at h
          · rename_i hq
            cases h
            rw [List.map_eq_nil_iff.mp hq]
          · cases h
        | link rooted target =>
          exact absurd hnode (hplain [n] q rooted target rfl)
    · cases h

/-- The same behind a part of the path that may follow links. -/
theorem locationOf_plain {p q dir d : List ν} (hp : locationOf r t p = some dir)
    (hplain : ∀ q₁ q₂ rooted target, q = q₁ ++ q₂ → t.node (dir ++ q₁) ≠ some (.link rooted target))
    (h : locationOf r t (p ++ q) = some d) : d = dir ++ q := by
  cases q with
  | nil =>
    rw [List.append_nil, hp] at h
    cases h
    simp
  | cons n q =>
    obtain ⟨k, hresolve⟩ := locationOf_eq_some.mp hp
    obtain ⟨m, h⟩ := locationOf_eq_some.mp h
    rw [names_append, names_cons, resolve_append, hresolve, Option.bind_some, ← names_cons] at h
    exact resolve_plain hplain h

end

/-! ## Making directories -/

def FileTree.insert [DecidableEq ν] (t : FileTree ν κ) (dir : List ν) (n : ν) (x : Node ν κ)
    (hdir : t.node dir = some .dir) (hfree : t.node (dir ++ [n]) = none) : FileTree ν κ where
  node loc := if loc = dir ++ [n] then some x else t.node loc
  root := by rw [if_neg (by simp), t.root]
  parent := by
    intro loc m h
    have hloc : loc ≠ dir ++ [n] := by
      rintro rfl
      rw [if_neg (by simp)] at h
      rw [t.parent _ _ h] at hfree
      cases hfree
    rw [if_neg hloc]
    by_cases hm : loc ++ [m] = dir ++ [n]
    · rwa [(List.append_inj' hm rfl).1]
    · rw [if_neg hm] at h
      exact t.parent _ _ h

section

variable [DecidableEq ν] [DecidableEq κ]

/-- A new entry in a directory, if there is none of its name and it may be made. -/
def make (r : Rights ν) (t : FileTree ν κ) (up : List ν) (n : ν) (x : Node ν κ) :
    FileTree ν κ × Bool :=
  match locationOf r t up with
  | none => (t, false)
  | some dir =>
    if h : t.node dir = some .dir ∧ t.node (dir ++ [n]) = none ∧ r.search dir = true ∧
        r.create (dir ++ [n]) = true then
      (t.insert dir n x h.1 h.2.1, true)
    else (t, false)

/-- `lstat` shows a directory. -/
def lstatIsDir (r : Rights ν) (t : FileTree ν κ) (up : List ν) (n : ν) : Bool :=
  (locationOf r t up).any fun dir => r.search dir && t.node (dir ++ [n]) == some .dir

/-- `os.MkdirAll` for a path given from its end, and whether it succeeds. -/
def mkdirAll (r : Rights ν) (t : FileTree ν κ) : List ν → FileTree ν κ × Bool
  | [] => (t, true)
  | n :: up =>
    match stat r t (n :: up).reverse with
    | some .dir => (t, true)
    | some _ => (t, false)
    | none =>
      let (t₁, ok) := mkdirAll r t up
      if ok then
        let (t₂, made) := make r t₁ up.reverse n .dir
        (t₂, made || lstatIsDir r t₂ up.reverse n)
      else (t₁, false)

end

/-! ## What is made -/

section

variable {r : Rights ν} {t t' : FileTree ν κ} {p : List ν} {n : ν}

/-- The directory of a path that is made first. -/
def First (r : Rights ν) (t : FileTree ν κ) (p first : List ν) : Prop :=
  ∃ pre n post dir, p = pre ++ n :: post ∧ locationOf r t pre = some dir ∧ t.node dir = some .dir ∧
    t.node (dir ++ [n]) = none ∧ r.search dir = true ∧ r.create (dir ++ [n]) = true ∧
    first = dir ++ [n]

theorem First.locationOf_eq_none {first : List ν} (h : First r t p first) :
    locationOf r t p = none := by
  obtain ⟨pre, n, post, dir, rfl, hpre, -, hnone, -, -, -⟩ := h
  exact locationOf_append_of_none hpre hnone

theorem First.node_eq_none {first : List ν} (h : First r t p first) : t.node first = none := by
  obtain ⟨pre, n, post, dir, -, -, -, hnone, -, -, rfl⟩ := h
  exact hnone

theorem First.append {first : List ν} (h : First r t p first) (q : List ν) :
    First r t (p ++ q) first := by
  obtain ⟨pre, n, post, dir, rfl, h⟩ := h
  exact ⟨pre, n, post ++ q, dir, by simp, h⟩

/-- Either a directory on the way is missing, or only the last one is. -/
theorem First.of_snoc {first : List ν} (h : First r t (p ++ [n]) first) : First r t p first ∨
    ∃ dir, locationOf r t p = some dir ∧ t.node dir = some .dir ∧ t.node (dir ++ [n]) = none ∧
      r.search dir = true ∧ r.create (dir ++ [n]) = true ∧ first = dir ++ [n] := by
  obtain ⟨pre, m, post, dir, hp, h⟩ := h
  rcases List.eq_nil_or_concat post with rfl | ⟨post, last, rfl⟩
  · obtain ⟨rfl, hn⟩ := List.append_inj' hp rfl
    cases hn
    exact Or.inr ⟨dir, h⟩
  · left
    rw [List.concat_eq_append, ← List.cons_append, ← List.append_assoc] at hp
    obtain ⟨rfl, -⟩ := List.append_inj' hp rfl
    exact ⟨pre, m, post, dir, rfl, h⟩

/-- Behind a part of the path that is there, the missing directory is one of the rest. -/
theorem First.of_append {first q dir : List ν} (h : First r t (p ++ q) first)
    (hp : locationOf r t p = some dir) : ∃ q₁ n q₂ d, q = q₁ ++ n :: q₂ ∧
      locationOf r t (p ++ q₁) = some d ∧ first = d ++ [n] := by
  obtain ⟨pre, n, post, d, heq, hpre, -, hnone, -, -, rfl⟩ := h
  rcases List.append_eq_append_iff.mp heq with ⟨q₁, rfl, hq⟩ | ⟨q₁, rfl, hq⟩
  · exact ⟨q₁, n, post, d, hq, hpre, rfl⟩
  · cases q₁ with
    | nil => exact ⟨[], n, post, d, by simpa using hq.symm, by simpa using hpre, rfl⟩
    | cons m q₁ =>
      obtain ⟨rfl, rfl⟩ := List.cons.inj hq
      rw [locationOf_append_of_none hpre hnone] at hp
      cases hp

/-- What `mkdirAll` has done: everything that is new is at or below the first directory. -/
structure Makes (r : Rights ν) (t : FileTree ν κ) (p : List ν) (t' : FileTree ν κ) (ok : Bool) :
    Prop where
  grows : Grows t t'
  below : ∀ loc, t.node loc = none → t'.node loc ≠ none → ∃ first, First r t p first ∧ first <+: loc
  first : ∀ first, First r t p first → t'.node first = some .dir
  there : ok = true → ∃ dir, locationOf r t' p = some dir ∧ t'.node dir = some .dir ∧
    ∀ first, First r t p first → first <+: dir

/-- Nothing that is new follows a link. -/
theorem Grows.plain_below (h : Grows t t') {loc : List ν} (hnone : t.node loc = none) (q : List ν)
    (rooted : Bool) (target : List (Hop ν)) : t'.node (loc ++ q) ≠ some (.link rooted target) :=
  h.plain _ _ _ (FileTree.none_below hnone q)

/-- Only the last directory of the path is missing. -/
theorem Makes.last {q first : List ν} {ok : Bool} (h : Makes r t (q ++ [n]) t' ok)
    (hway : ∀ f, ¬ First r t q f) (hfirst : First r t (q ++ [n]) first) :
    locationOf r t' (q ++ [n]) = some first := by
  rcases hfirst.of_snoc with hf | ⟨dir, hq, -, -, hsearch, -, rfl⟩
  · exact absurd hf (hway first)
  · exact locationOf_snoc (locationOf_mono h.grows hq) hsearch (h.first _ hfirst) nofun

/-- Below a new directory a path is made at the location of the same names. -/
theorem First.below_new {q first g : List ν} (hg : Grows t t') (hnone : t.node first = none)
    (hp : locationOf r t' p = some first) (h : First r t' (p ++ q) g) : first <+: g := by
  obtain ⟨q₁, n, q₂, d, -, hd, rfl⟩ := h.of_append hp
  have hplain := locationOf_plain hp
    (fun q₁ _ rooted target _ => hg.plain_below hnone q₁ rooted target) hd
  exact ⟨q₁ ++ [n], by rw [hplain, List.append_assoc]⟩

/-- Where a directory on the way was made first, the end of the path is below it. -/
theorem First.locationOf_below {q first d : List ν} (h : First r t p first) (hg : Grows t t')
    (hd : locationOf r t' (p ++ q) = some d) : first.length + q.length ≤ d.length := by
  obtain ⟨pre, n, post, dir, rfl, hpre, hdir, hnone, -, -, rfl⟩ := h
  have hpath : pre ++ n :: post ++ q = pre ++ (n :: post ++ q) := by simp
  rw [hpath] at hd
  have hplain : d = dir ++ (n :: post ++ q) := by
    apply locationOf_plain (locationOf_mono hg hpre) _ hd
    intro q₁ q₂ rooted target hq
    cases q₁ with
    | nil =>
      rw [List.append_nil, hg.keeps _ _ hdir]
      nofun
    | cons m q₁ =>
      obtain ⟨rfl, -⟩ := List.cons.inj hq
      rw [List.append_cons]
      exact hg.plain_below hnone q₁ rooted target
  rw [hplain]
  simp only [List.length_append, List.length_cons, List.length_nil]
  omega

theorem Makes.nothing {ok : Bool} (hfirst : ∀ first, ¬ First r t p first)
    (hthere : ok = true → ∃ dir, locationOf r t p = some dir ∧ t.node dir = some .dir) :
    Makes r t p t ok := by
  refine ⟨.refl t, fun loc h h' => absurd h h', fun first h => absurd h (hfirst first), ?_⟩
  intro hok
  obtain ⟨dir, hp, hdir⟩ := hthere hok
  exact ⟨dir, hp, hdir, fun first h => absurd h (hfirst first)⟩

theorem FileTree.ext_node (h : t.node = t'.node) : t = t' := by
  cases t
  cases t'
  cases h
  rfl

/-- Where nothing is missing that may be made, nothing is made. -/
theorem Makes.eq {ok : Bool} (h : Makes r t p t' ok) (hfirst : ∀ first, ¬ First r t p first) :
    t' = t := by
  apply FileTree.ext_node
  funext loc
  cases hloc : t.node loc with
  | some x => exact h.grows.keeps _ _ hloc
  | none =>
    by_contra hne
    obtain ⟨first, hmade, -⟩ := h.below loc hloc hne
    exact hfirst first hmade

theorem Makes.eq_of_locate {dir : List ν} {ok : Bool} (h : Makes r t p t' ok)
    (hp : locationOf r t p = some dir) : t' = t := by
  apply h.eq
  intro first hfirst
  rw [hfirst.locationOf_eq_none] at hp
  cases hp

end

section

variable [DecidableEq ν] {t : FileTree ν κ} {dir : List ν} {n : ν} {x : Node ν κ}

theorem FileTree.node_insert_self (hdir : t.node dir = some .dir)
    (hfree : t.node (dir ++ [n]) = none) :
    (t.insert dir n x hdir hfree).node (dir ++ [n]) = some x := if_pos rfl

theorem FileTree.node_insert_of_ne (hdir : t.node dir = some .dir)
    (hfree : t.node (dir ++ [n]) = none) {loc : List ν} (h : loc ≠ dir ++ [n]) :
    (t.insert dir n x hdir hfree).node loc = t.node loc := if_neg h

theorem grows_insert (hdir : t.node dir = some .dir) (hfree : t.node (dir ++ [n]) = none)
    (hx : ∀ rooted target, x ≠ .link rooted target) : Grows t (t.insert dir n x hdir hfree) := by
  constructor
  · intro loc y hy
    rw [FileTree.node_insert_of_ne, hy]
    rintro rfl
    rw [hfree] at hy
    cases hy
  · intro loc rooted target hnone
    by_cases hloc : loc = dir ++ [n]
    · rw [hloc, FileTree.node_insert_self]
      intro h
      exact hx rooted target (Option.some.inj h)
    · rw [FileTree.node_insert_of_ne _ _ hloc, hnone]
      nofun

end

section

variable [DecidableEq ν] [DecidableEq κ]

/-- An entry is made in the directory that the path leads to, or nothing is. -/
theorem make_cases (r : Rights ν) (t : FileTree ν κ) (up : List ν) (n : ν) (x : Node ν κ) :
    make r t up n x = (t, false) ∨ ∃ dir, ∃ hdir : t.node dir = some .dir,
      ∃ hfree : t.node (dir ++ [n]) = none, locationOf r t up = some dir ∧ r.search dir = true ∧
        r.create (dir ++ [n]) = true ∧ make r t up n x = (t.insert dir n x hdir hfree, true) := by
  unfold make
  cases hup : locationOf r t up with
  | none => exact Or.inl rfl
  | some dir =>
    dsimp only
    split
    · rename_i h
      exact Or.inr ⟨dir, h.1, h.2.1, rfl, h.2.2.1, h.2.2.2, rfl⟩
    · exact Or.inl rfl

variable {r : Rights ν} {t t₁ : FileTree ν κ} {up : List ν} {n : ν}

theorem mkdirAll_of_stat_dir (h : stat r t up.reverse = some .dir) :
    mkdirAll r t up = (t, true) := by
  cases up with
  | nil => rfl
  | cons n up => rw [mkdirAll, h]

theorem mkdirAll_snoc (h : stat r t (n :: up).reverse = none) :
    mkdirAll r t (n :: up) = if (mkdirAll r t up).2 then
      ((make r (mkdirAll r t up).1 up.reverse n .dir).1,
        (make r (mkdirAll r t up).1 up.reverse n .dir).2 ||
          lstatIsDir r (make r (mkdirAll r t up).1 up.reverse n .dir).1 up.reverse n)
      else ((mkdirAll r t up).1, false) := by
  rw [mkdirAll, h]

theorem lstatIsDir_iff : lstatIsDir r t up n = true ↔
    ∃ dir, locationOf r t up = some dir ∧ r.search dir = true ∧
      t.node (dir ++ [n]) = some .dir := by
  simp [lstatIsDir, Option.any_eq_true]

theorem make_of_free {x : Node ν κ} {dir : List ν} (hup : locationOf r t up = some dir)
    (hdir : t.node dir = some .dir) (hfree : t.node (dir ++ [n]) = none)
    (hsearch : r.search dir = true) (hcreate : r.create (dir ++ [n]) = true) :
    make r t up n x = (t.insert dir n x hdir hfree, true) := by
  unfold make
  rw [hup]
  dsimp only
  rw [dif_pos ⟨hdir, hfree, hsearch, hcreate⟩]

/-- One more directory is made below those of the way. -/
theorem Makes.snoc {q : List ν} (h : Makes r t q t₁ true) :
    Makes r t (q ++ [n]) (make r t₁ q n .dir).1
      ((make r t₁ q n .dir).2 || lstatIsDir r (make r t₁ q n .dir).1 q n) := by
  obtain ⟨dir, hq, hdir, hway⟩ := h.there rfl
  have hwayBelow : ∀ first, First r t q first → first <+: dir ++ [n] := fun first hfirst =>
    (hway first hfirst).trans (List.prefix_append _ _)
  rcases make_cases r t₁ q n .dir with hmake | ⟨d, hd, hfree, hqd, hsearch, hcreate, hmake⟩
  · -- the last directory is there, or may not be made
    rw [hmake, Bool.false_or]
    refine ⟨h.grows, ?_, ?_, ?_⟩
    · intro loc hnone hnew
      obtain ⟨first, hfirst, hbelow⟩ := h.below loc hnone hnew
      exact ⟨first, hfirst.append _, hbelow⟩
    · intro first hfirst
      rcases hfirst.of_snoc with hfirst | ⟨d, hqd, hd, hfree, hsearch, hcreate, -⟩
      · exact h.first first hfirst
      · have heq := h.eq_of_locate hqd
        subst heq
        rw [make_of_free hqd hd hfree hsearch hcreate] at hmake
        cases congrArg Prod.snd hmake
    · intro hlstat
      obtain ⟨d, hqd, hsearch, hlast⟩ := lstatIsDir_iff.mp hlstat
      rw [hq] at hqd
      cases hqd
      refine ⟨dir ++ [n], locationOf_snoc hq hsearch hlast nofun, hlast, ?_⟩
      intro first hfirst
      rcases hfirst.of_snoc with hfirst | ⟨d, hqd, -, hfree, -⟩
      · exact hwayBelow first hfirst
      · have heq := h.eq_of_locate hqd
        subst heq
        rw [hq] at hqd
        cases hqd
        rw [hlast] at hfree
        cases hfree
  · rw [hq] at hqd
    cases hqd
    rw [hmake, Bool.true_or]
    have hgrows : Grows t₁ (t₁.insert dir n .dir hd hfree) := grows_insert hd hfree nofun
    refine ⟨h.grows.trans hgrows, ?_, ?_, ?_⟩
    · intro loc hnone hnew
      by_cases hloc : loc = dir ++ [n]
      · subst hloc
        by_cases hfirst : ∃ first, First r t q first
        · obtain ⟨first, hfirst⟩ := hfirst
          exact ⟨first, hfirst.append _, hwayBelow first hfirst⟩
        · have heq := h.eq (not_exists.mp hfirst)
          subst heq
          refine ⟨dir ++ [n], ?_, List.prefix_rfl⟩
          exact ⟨q, n, [], dir, rfl, hq, hdir, hfree, hsearch, hcreate, rfl⟩
      · rw [FileTree.node_insert_of_ne _ _ hloc] at hnew
        obtain ⟨first, hfirst, hbelow⟩ := h.below loc hnone hnew
        exact ⟨first, hfirst.append _, hbelow⟩
    · intro first hfirst
      rcases hfirst.of_snoc with hfirst | ⟨d, hqd, -, -, -, -, rfl⟩
      · exact hgrows.keeps _ _ (h.first first hfirst)
      · rw [locationOf_mono h.grows hqd] at hq
        cases hq
        exact FileTree.node_insert_self hd hfree
    · intro _
      have hlast := FileTree.node_insert_self (x := .dir) hd hfree
      refine ⟨dir ++ [n], locationOf_snoc (locationOf_mono hgrows hq) hsearch hlast nofun, hlast,
        ?_⟩
      intro first hfirst
      rcases hfirst.of_snoc with hfirst | ⟨d, hqd, -, -, -, -, rfl⟩
      · exact hwayBelow first hfirst
      · rw [locationOf_mono h.grows hqd] at hq
        cases hq
        exact List.prefix_rfl

theorem makes_mkdirAll (r : Rights ν) (t : FileTree ν κ) (up : List ν) :
    Makes r t up.reverse (mkdirAll r t up).1 (mkdirAll r t up).2 := by
  induction up with
  | nil =>
    apply Makes.nothing
    · rintro first ⟨pre, n, post, dir, h, -⟩
      simp at h
    · exact fun _ => ⟨[], rfl, t.root⟩
  | cons n up ih =>
    cases hstat : stat r t (n :: up).reverse with
    | some x =>
      obtain ⟨dir, hdir, hx⟩ := Option.bind_eq_some_iff.mp hstat
      have hfirst : ∀ first, ¬ First r t (n :: up).reverse first := by
        intro first h
        rw [h.locationOf_eq_none] at hdir
        cases hdir
      rw [mkdirAll, hstat]
      cases x with
      | dir => exact .nothing hfirst fun _ => ⟨dir, hdir, hx⟩
      | file c => exact .nothing hfirst nofun
      | link rooted target => exact .nothing hfirst nofun
    | none =>
      rw [mkdirAll_snoc hstat]
      by_cases hok : (mkdirAll r t up).2 = true
      · rw [if_pos hok, List.reverse_cons]
        rw [hok] at ih
        exact ih.snoc
      · rw [if_neg hok, List.reverse_cons]
        refine ⟨ih.grows, ?_, ?_, nofun⟩
        · intro loc hnone hnew
          obtain ⟨first, hfirst, hbelow⟩ := ih.below loc hnone hnew
          exact ⟨first, hfirst.append _, hbelow⟩
        · intro first h
          rcases h.of_snoc with h | ⟨dir, hup, hdir, -⟩
          · exact ih.first first h
          · -- the directory above is there, so the way to it was no failure
            have hstat : stat r t up.reverse = some .dir := by rw [stat, hup]; exact hdir
            rw [mkdirAll_of_stat_dir hstat] at hok
            exact absurd rfl hok

end

end ZaqorinCore.Base
