import ZaqorinCore.Base.EditDistance
import ZaqorinCore.Server.Value

/-!
# Brand protection

`detection/brand_protection.py`: the edit distance of two domains, row by row
(`levenshtein_least_edits`), and the comparison of a domain with the list of the protected brands.
The rule that reads the verdict is silenced for a domain that is a protected brand. The first brand
that is near decides, which can be another one: `typosquat_verdict_iff`.
-/

namespace ZaqorinCore.Server.Brand

open Text Base

/-! ## The edit distance -/

/-- The cells of the inner loop; `left` is the cell before, `diag` and `up` are read from the row
above. -/
def fillRow (ca : Char) : Nat → List Nat → Str → List Nat
  | left, diag :: up :: prevRow, cb :: b =>
    let cell := min (min (left + 1) (up + 1)) (diag + if ca ≠ cb then 1 else 0)
    cell :: fillRow ca cell (up :: prevRow) b
  | _, _, _ => []

/-- The outer loop. -/
def nextRow (b : Str) (prevRow : List Nat) (entry : Char × Nat) : List Nat :=
  entry.2 :: fillRow entry.1 entry.2 prevRow b

def levenshtein (a b : Str) : Nat :=
  if a = b then 0
  else if a = [] then b.length
  else if b = [] then a.length
  else ((a.zipIdx 1).foldl (nextRow b) (List.range (b.length + 1))).getLastD 0

/-- The distances of `p` to the prefixes of a list, from `q` on. -/
def cells (p q : Str) : Str → List Nat
  | [] => [editDistance p q]
  | c :: b => editDistance p q :: cells p (q ++ [c]) b

theorem cells_eq_cons (p q b : Str) : ∃ row, cells p q b = editDistance p q :: row := by
  cases b with
  | nil => exact ⟨_, rfl⟩
  | cons c b => exact ⟨_, rfl⟩

theorem cells_nil (q b : Str) : cells [] q b = List.range' q.length (b.length + 1) := by
  induction b generalizing q with
  | nil => simp [cells, editDistance_nil_left]
  | cons c b ih =>
    rw [cells, ih, editDistance_nil_left, List.length_append]
    rfl

theorem getLastD_cells (p q b : Str) (d : Nat) :
    (cells p q b).getLastD d = editDistance p (q ++ b) := by
  induction b generalizing q d with
  | nil => simp [cells]
  | cons c b ih =>
    rw [cells, List.getLastD_cons, ih, List.append_assoc]
    rfl

theorem fillRow_nil (ca : Char) (left : Nat) (prevRow : List Nat) :
    fillRow ca left prevRow [] = [] := by
  cases prevRow with
  | nil => rfl
  | cons diag prevRow => cases prevRow <;> rfl

/-- The inner loop makes the row of a prefix from that of the prefix before. -/
theorem fillRow_cells (p : Str) (ca : Char) (q b : Str) :
    editDistance (p ++ [ca]) q :: fillRow ca (editDistance (p ++ [ca]) q) (cells p q b) b =
      cells (p ++ [ca]) q b := by
  induction b generalizing q with
  | nil =>
    rw [cells, fillRow_nil, cells]
  | cons c b ih =>
    obtain ⟨row, hrow⟩ := cells_eq_cons p (q ++ [c]) b
    rw [cells, hrow, fillRow, ← hrow]
    have hcell : min (min (editDistance (p ++ [ca]) q + 1) (editDistance p (q ++ [c]) + 1))
        (editDistance p q + if ca ≠ c then 1 else 0) = editDistance (p ++ [ca]) (q ++ [c]) :=
      (editDistance_concat p ca q c).symm
    rw [hcell, ih (q ++ [c]), cells]

theorem nextRow_cells (p : Str) (ca : Char) (b : Str) :
    nextRow b (cells p [] b) (ca, p.length + 1) = cells (p ++ [ca]) [] b := by
  have hlength : p.length + 1 = editDistance (p ++ [ca]) [] := by
    rw [editDistance_nil_right, List.length_append, List.length_singleton]
  rw [nextRow, hlength]
  exact fillRow_cells p ca [] b

/-- The rows of the outer loop are those of the prefixes. -/
theorem foldl_nextRow (p a b : Str) :
    (a.zipIdx (p.length + 1)).foldl (nextRow b) (cells p [] b) = cells (p ++ a) [] b := by
  induction a generalizing p with
  | nil => rw [List.append_nil, List.zipIdx_nil, List.foldl_nil]
  | cons ca a ih =>
    have hlength : p.length + 1 + 1 = (p ++ [ca]).length + 1 := by
      rw [List.length_append, List.length_singleton]
    rw [List.zipIdx_cons, List.foldl_cons, nextRow_cells, hlength, ih, List.append_assoc]
    rfl

theorem levenshtein_eq (a b : Str) : levenshtein a b = editDistance a b := by
  unfold levenshtein
  split
  · rename_i heq
    rw [heq, editDistance_self]
  split
  · rename_i hnil
    rw [hnil, editDistance_nil_left]
  split
  · rename_i hnil
    rw [hnil, editDistance_nil_right]
  · have hfirst : List.range (b.length + 1) = cells [] [] b := by
      rw [cells_nil, List.range_eq_range']
      rfl
    have hrows := foldl_nextRow [] a b
    rw [List.length_nil, Nat.zero_add, List.nil_append] at hrows
    rw [hfirst, hrows, getLastD_cells, List.nil_append]

/-- `levenshtein` is the least number of edits, and so a metric. -/
theorem levenshtein_least_edits (a b : Str) :
    IsLeast {n | Edits n a b} (levenshtein a b) ∧
      (levenshtein a b = 0 ↔ a = b) ∧ levenshtein a b = levenshtein b a ∧
      (∀ c, levenshtein a c ≤ levenshtein a b + levenshtein b c) ∧
      ((a.length : Int) - b.length).natAbs ≤ levenshtein a b := by
  simp only [levenshtein_eq]
  refine ⟨isLeast_editDistance a b, editDistance_eq_zero, editDistance_comm a b,
    editDistance_triangle a b, ?_⟩
  have hleft := length_le_editDistance a b
  have hright := length_le_editDistance b a
  rw [editDistance_comm] at hright
  omega

example : levenshtein "mlcrosoft".toList "microsoft".toList = 1 := by decide

/-! ## Typosquats -/

/-- What the module reads of its surroundings. -/
structure BrandEnv where
  finalSigma : Str → Str → Bool
  /-- `ZAQORIN_PROTECTED_BRANDS` -/
  protectedBrands : Option Str

/-- `DEFAULT_PROTECTED_BRANDS` -/
def defaultProtectedBrands : List Str :=
  ["komatsu.co.id".toList, "microsoft.com".toList, "google.com".toList]

structure TyposquatMatch where
  observed : Str
  brand : Str
  distance : Nat
  lengthDelta : Nat
  isLegitimate : Bool
  deriving DecidableEq

variable (env : BrandEnv)

/-- `s.strip().lower()` -/
def normal (s : Str) : Str := lower env.finalSigma (strip s)

def protectedBrands : List Str :=
  match env.protectedBrands with
  | none | some [] => defaultProtectedBrands
  | some raw =>
    let parsed := ((split "," raw).filter fun part => strip part ≠ []).map (normal env)
    if parsed = [] then defaultProtectedBrands else parsed

/-- `abs(len(o) - len(b))` -/
def lengthDelta (o b : Str) : Nat := ((o.length : Int) - b.length).natAbs

def checkTyposquat (observed brand : Str) (maxDistance maxLengthDelta : Int) :
    Option TyposquatMatch :=
  let o := normal env observed
  let b := normal env brand
  let distance := levenshtein o b
  if distance = 0 then some ⟨o, b, 0, lengthDelta o b, true⟩
  else if (distance : Int) ≤ maxDistance ∧ (lengthDelta o b : Int) ≤ maxLengthDelta then
    some ⟨o, b, distance, lengthDelta o b, false⟩
  else none

def firstTyposquat (observed : Str) (brands : Option (List Str))
    (maxDistance maxLengthDelta : Int) : Option TyposquatMatch :=
  let brands := match brands with
    | none | some [] => protectedBrands env
    | some brands => brands
  brands.findSome? fun brand => checkTyposquat env observed brand maxDistance maxLengthDelta

/-! ## The verdict -/

/-- The brand is within the thresholds; both domains are trimmed and in lower case. -/
def Near (observed brand : Str) (maxDistance maxLengthDelta : Int) : Prop :=
  (editDistance (normal env observed) (normal env brand) : Int) ≤ maxDistance ∧
    (lengthDelta (normal env observed) (normal env brand) : Int) ≤ maxLengthDelta

/-- A brand itself is legitimate, and another domain has a match if a brand is near. -/
structure Judged (observed : Str) (brands : List Str) (maxDistance maxLengthDelta : Int) :
    Prop where
  legitimate : (∃ brand ∈ brands, normal env brand = normal env observed) →
    ∃ m, firstTyposquat env observed (some brands) maxDistance maxLengthDelta = some m ∧
      m.isLegitimate = true
  near : (∀ brand ∈ brands, normal env brand ≠ normal env observed) →
    ((firstTyposquat env observed (some brands) maxDistance maxLengthDelta).isSome ↔
      ∃ brand ∈ brands, Near env observed brand maxDistance maxLengthDelta)

/-- No near brand stands before the first one that is equal, and the brands that take the place of
an empty list are neither equal nor near. -/
structure Unambiguous (observed : Str) (brands : List Str) (maxDistance maxLengthDelta : Int) :
    Prop where
  before : ∀ pre brand post, brands = pre ++ brand :: post →
    normal env brand = normal env observed →
    (∀ other ∈ pre, normal env other ≠ normal env observed) →
    ∀ other ∈ pre, ¬ Near env observed other maxDistance maxLengthDelta
  empty : brands = [] → ∀ brand ∈ protectedBrands env,
    normal env brand ≠ normal env observed ∧
      ¬ Near env observed brand maxDistance maxLengthDelta

section

variable {env : BrandEnv} {observed brand : Str} {maxDistance maxLengthDelta : Int}

/-- The three verdicts on one brand. -/
theorem checkTyposquat_cases (env : BrandEnv) (observed brand : Str)
    (maxDistance maxLengthDelta : Int) :
    (normal env brand = normal env observed ∧
      ∃ m, checkTyposquat env observed brand maxDistance maxLengthDelta = some m ∧
        m.isLegitimate = true) ∨
    (normal env brand ≠ normal env observed ∧
      Near env observed brand maxDistance maxLengthDelta ∧
      ∃ m, checkTyposquat env observed brand maxDistance maxLengthDelta = some m ∧
        m.isLegitimate = false) ∨
    (normal env brand ≠ normal env observed ∧
      ¬ Near env observed brand maxDistance maxLengthDelta ∧
      checkTyposquat env observed brand maxDistance maxLengthDelta = none) := by
  unfold checkTyposquat Near
  simp only [levenshtein_eq]
  by_cases heq : normal env brand = normal env observed
  · left
    rw [if_pos (editDistance_eq_zero.mpr heq.symm)]
    exact ⟨heq, _, rfl, rfl⟩
  · right
    rw [if_neg fun h => heq (editDistance_eq_zero.mp h).symm]
    by_cases hnear : (editDistance (normal env observed) (normal env brand) : Int) ≤ maxDistance ∧
        (lengthDelta (normal env observed) (normal env brand) : Int) ≤ maxLengthDelta
    · left
      rw [if_pos hnear]
      exact ⟨heq, hnear, _, rfl, rfl⟩
    · right
      rw [if_neg hnear]
      exact ⟨heq, hnear, rfl⟩

theorem checkTyposquat_isSome_iff :
    (checkTyposquat env observed brand maxDistance maxLengthDelta).isSome ↔
      normal env brand = normal env observed ∨
        Near env observed brand maxDistance maxLengthDelta := by
  rcases checkTyposquat_cases env observed brand maxDistance maxLengthDelta with
    ⟨heq, m, hm, -⟩ | ⟨hne, hnear, m, hm, -⟩ | ⟨hne, hfar, hnone⟩
  · rw [hm]
    exact iff_of_true rfl (Or.inl heq)
  · rw [hm]
    exact iff_of_true rfl (Or.inr hnear)
  · rw [hnone]
    exact iff_of_false Bool.false_ne_true fun h => h.elim hne hfar

theorem firstTyposquat_of_ne_nil (env : BrandEnv) (observed : Str)
    (maxDistance maxLengthDelta : Int) {brands : List Str} (h : brands ≠ []) :
    firstTyposquat env observed (some brands) maxDistance maxLengthDelta =
      brands.findSome? fun brand =>
        checkTyposquat env observed brand maxDistance maxLengthDelta := by
  obtain ⟨brand, rest, rfl⟩ := List.exists_cons_of_ne_nil h
  rfl

/-- The first brand that is equal decides if no brand before it is near. -/
theorem findSome_of_split {pre post : List Str}
    (heq : normal env brand = normal env observed)
    (hpre : ∀ other ∈ pre, normal env other ≠ normal env observed) :
    (∃ m, ((pre ++ brand :: post).findSome? fun brand =>
        checkTyposquat env observed brand maxDistance maxLengthDelta) = some m ∧
      m.isLegitimate = true) ↔
    ∀ other ∈ pre, ¬ Near env observed other maxDistance maxLengthDelta := by
  induction pre with
  | nil =>
    refine iff_of_true ?_ fun _ h => absurd h List.not_mem_nil
    rcases checkTyposquat_cases env observed brand maxDistance maxLengthDelta with
      ⟨-, m, hm, hlegit⟩ | ⟨hne, -⟩ | ⟨hne, -⟩
    · refine ⟨m, ?_, hlegit⟩
      rw [List.nil_append, List.findSome?_cons, hm]
    · exact absurd heq hne
    · exact absurd heq hne
  | cons other pre ih =>
    have hrest := ih fun x hx => hpre x (List.mem_cons_of_mem _ hx)
    rw [List.forall_mem_cons, List.cons_append, List.findSome?_cons]
    rcases checkTyposquat_cases env observed other maxDistance maxLengthDelta with
      ⟨hsame, -⟩ | ⟨-, hnear, m, hm, hlegit⟩ | ⟨-, hfar, hnone⟩
    · exact absurd hsame (hpre other List.mem_cons_self)
    · rw [hm]
      refine iff_of_false ?_ fun h => h.1 hnear
      rintro ⟨m', hm', hlegit'⟩
      cases hm'
      rw [hlegit] at hlegit'
      cases hlegit'
    · rw [hnone, and_iff_right hfar]
      exact hrest

end

/-- The verdict is right exactly when no near brand stands before the brand itself. -/
theorem typosquat_verdict_iff (observed : Str) (brands : List Str)
    (maxDistance maxLengthDelta : Int) :
    Judged env observed brands maxDistance maxLengthDelta ↔
      Unambiguous env observed brands maxDistance maxLengthDelta := by
  rcases List.eq_nil_or_concat brands with rfl | hconcat
  · have hfirst : firstTyposquat env observed (some []) maxDistance maxLengthDelta =
        (protectedBrands env).findSome? fun brand =>
          checkTyposquat env observed brand maxDistance maxLengthDelta := rfl
    constructor
    · rintro ⟨-, hnear⟩
      refine ⟨fun pre brand post h => absurd h (by simp), fun _ brand hbrand => ?_⟩
      have hnone : ¬ (firstTyposquat env observed (some []) maxDistance maxLengthDelta).isSome := by
        rw [hnear fun _ h => absurd h List.not_mem_nil]
        rintro ⟨_, h, -⟩
        cases h
      rw [hfirst, List.findSome?_isSome_iff] at hnone
      rw [← not_or, ← checkTyposquat_isSome_iff]
      exact fun h => hnone ⟨brand, hbrand, h⟩
    · rintro ⟨-, hempty⟩
      refine ⟨fun ⟨_, h, _⟩ => absurd h List.not_mem_nil, fun _ => ?_⟩
      refine iff_of_false ?_ fun ⟨_, h, _⟩ => absurd h List.not_mem_nil
      rw [hfirst, List.findSome?_isSome_iff]
      rintro ⟨brand, hbrand, hsome⟩
      rcases checkTyposquat_isSome_iff.mp hsome with heq | hnear
      · exact (hempty rfl brand hbrand).1 heq
      · exact (hempty rfl brand hbrand).2 hnear
  · have hne : brands ≠ [] := by
      obtain ⟨rest, last, rfl⟩ := hconcat
      simp
    have hfirst := firstTyposquat_of_ne_nil env observed maxDistance maxLengthDelta hne
    constructor
    · rintro ⟨hlegit, -⟩
      refine ⟨?_, fun h => absurd h hne⟩
      rintro pre brand post rfl heq hpre
      have := hlegit ⟨brand, by simp, heq⟩
      rw [hfirst] at this
      exact (findSome_of_split heq hpre).mp this
    · rintro ⟨hbefore, -⟩
      constructor
      · rintro ⟨brand, hbrand, heq⟩
        obtain ⟨first, hfind⟩ := Option.isSome_iff_exists.mp (List.find?_isSome.mpr
          ⟨brand, hbrand, decide_eq_true heq⟩ :
            (brands.find? fun b => decide (normal env b = normal env observed)).isSome)
        obtain ⟨hsame, pre, post, rfl, hpre⟩ := List.find?_eq_some_iff_append.mp hfind
        have hsame := of_decide_eq_true hsame
        have hpre' : ∀ other ∈ pre, normal env other ≠ normal env observed := by
          intro other hother
          simpa using hpre other hother
        rw [hfirst]
        exact (findSome_of_split hsame hpre').mpr (hbefore pre first post rfl hsame hpre')
      · intro hother
        rw [hfirst, List.findSome?_isSome_iff]
        constructor
        · rintro ⟨brand, hbrand, hsome⟩
          exact ⟨brand, hbrand,
            (checkTyposquat_isSome_iff.mp hsome).resolve_left (hother brand hbrand)⟩
        · rintro ⟨brand, hbrand, hnear⟩
          exact ⟨brand, hbrand, checkTyposquat_isSome_iff.mpr (Or.inr hnear)⟩

/-- Two brands that are one edit apart: the second is reported as a typosquat of the first. -/
theorem second_brand_reported :
    ¬ ∀ (env : BrandEnv) (observed : Str) (brands : List Str) (maxDistance maxLengthDelta : Int),
      Judged env observed brands maxDistance maxLengthDelta := by
  intro h
  obtain ⟨m, hm, hlegit⟩ := (h ⟨fun _ _ => false, none⟩ "bank.co".toList
    ["bank.com".toList, "bank.co".toList] 2 3).legitimate ⟨"bank.co".toList, by simp, rfl⟩
  have hverdict : (firstTyposquat ⟨fun _ _ => false, none⟩ "bank.co".toList
      (some ["bank.com".toList, "bank.co".toList]) 2 3).map TyposquatMatch.isLegitimate =
        some false := by decide +kernel
  rw [hm, Option.map_some, hlegit] at hverdict
  cases hverdict

end ZaqorinCore.Server.Brand
