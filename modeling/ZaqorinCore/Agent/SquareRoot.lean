import ZaqorinCore.Agent.Budget
import ZaqorinCore.Base.DyadicRoots

/-!
# The integer square root

`intSqrt` of `pkg/timing` for every `int64`. Its search squares the next number and compares, and a
square past the range wraps around: the search then goes on to the next number whose wrapped square
is over the argument. It ends below `2 ^ 63 - 7` only (`terminates_iff`), and Newton's method, which
has sixteen rounds, finds the way back to the root from the places where the search ends for the
arguments below `2 ^ 63 - 18951`, and for no others: `int_sqrt_iff`.
-/

namespace ZaqorinCore.Agent.Timing

open Base

/-- The search loop of `intSqrt`, for fewer than the given number of rounds. -/
def searchWithin (n : Int64) : Nat → Int64 → Option Int64
  | 0, _ => none
  | k + 1, x => if (x + 1) * (x + 1) ≤ n then searchWithin n k (x + 1) else some x

/-- `intSqrt` with a search of fewer than `k` rounds. -/
def intSqrtWithin (k : Nat) (n : Int64) : Option Int64 :=
  if n ≤ 0 then some 0 else (searchWithin n k 1).map (newton n 16)

/-- The call terminates and returns `r`. -/
def Returns (n r : Int64) : Prop := ∃ k, intSqrtWithin k n = some r

/-! ## The search -/

/-- The square as an `int64`. -/
def wrapped (y : Nat) : Int := Int.bmod (y * y : Nat) Int64.size

theorem wrapped_eq (y : Nat) : wrapped y = Int.bmod ((y : Int) * y) Int64.size :=
  congrArg (Int.bmod · Int64.size) (Int.natCast_mul y y)

theorem square_ofInt (x : Nat) :
    ((Int64.ofInt x + 1) * (Int64.ofInt x + 1)).toInt = wrapped (x + 1) := by
  have hone : (1 : Int64) = Int64.ofInt 1 := rfl
  rw [wrapped_eq, hone, ← Int64.ofInt_add, ← Int64.ofInt_mul, Int64.toInt_ofInt, Int.natCast_add]
  rfl

theorem succ_ofInt (x : Nat) : Int64.ofInt x + 1 = Int64.ofInt ((x + 1 : Nat) : Int) := by
  have hone : (1 : Int64) = Int64.ofInt 1 := rfl
  rw [hone, ← Int64.ofInt_add]
  rfl

/-- The search ends before the first number whose wrapped square is over the argument. -/
structure Stops (n : Int64) (x z : Nat) : Prop where
  le : x ≤ z
  under : ∀ y, x < y → y ≤ z → wrapped y ≤ n.toInt
  past : n.toInt < wrapped (z + 1)

theorem search_of_stops {n : Int64} {x z : Nat} (h : Stops n x z) :
    ∃ k, searchWithin n k (Int64.ofInt x) = some (Int64.ofInt z) := by
  obtain ⟨d, rfl⟩ := Nat.exists_eq_add_of_le h.le
  induction d generalizing x with
  | zero =>
    refine ⟨1, ?_⟩
    rw [searchWithin, if_neg]
    · rfl
    · rw [Int64.le_iff_toInt_le, square_ofInt]
      exact not_le.mpr h.past
  | succ d ih =>
    have hnext : x + (d + 1) = x + 1 + d := by omega
    obtain ⟨k, hk⟩ := ih (x := x + 1) ⟨by omega, fun y hy hyz => h.under y (by omega) (by omega),
      hnext ▸ h.past⟩
    refine ⟨k + 1, ?_⟩
    rw [searchWithin, if_pos, succ_ofInt, hk, hnext]
    rw [Int64.le_iff_toInt_le, square_ofInt]
    exact h.under (x + 1) (by omega) (by omega)

theorem stops_of_search {n r : Int64} {k x : Nat}
    (h : searchWithin n k (Int64.ofInt x) = some r) : ∃ z, Stops n x z ∧ r = Int64.ofInt z := by
  induction k generalizing x with
  | zero => cases h
  | succ k ih =>
    rw [searchWithin] at h
    split at h
    · rename_i hle
      rw [Int64.le_iff_toInt_le, square_ofInt] at hle
      rw [succ_ofInt] at h
      obtain ⟨z, hz, rfl⟩ := ih h
      refine ⟨z, ⟨by have := hz.le; omega, ?_, hz.past⟩, rfl⟩
      intro y hy hyz
      rcases Nat.lt_or_ge (x + 1) y with hlater | hfirst
      · exact hz.under y hlater hyz
      · obtain rfl : y = x + 1 := by omega
        exact hle
    · rename_i hlt
      rw [Int64.le_iff_toInt_le, square_ofInt, not_le] at hlt
      cases h
      exact ⟨x, ⟨le_refl x, fun y hy hyz => absurd hy (by omega), hlt⟩, rfl⟩

/-- A number whose wrapped square is over the argument makes the search end. -/
theorem exists_stops {n : Int64} {y : Nat} (hn : 0 < n.toInt) (h : n.toInt < wrapped y) :
    ∃ z, Stops n 1 z ∧ z < y := by
  have hexists : ∃ y, 1 < y ∧ n.toInt < wrapped y := by
    refine ⟨y, ?_, h⟩
    by_contra hsmall
    have hone : wrapped 1 = 1 := by decide
    have hzero : wrapped 0 = 0 := by decide
    interval_cases y <;> omega
  have hfirst := Nat.find_spec hexists
  refine ⟨Nat.find hexists - 1, ⟨by omega, ?_, ?_⟩, ?_⟩
  · intro y' hy' hyz
    have := Nat.find_min hexists (m := y') (by omega)
    exact not_lt.mp fun hover => this ⟨hy', hover⟩
  · rw [Nat.sub_add_cancel (by omega)]
    exact hfirst.2
  · have hne : 1 < y := by
      by_contra hsmall
      have hone : wrapped 1 = 1 := by decide
      have hzero : wrapped 0 = 0 := by decide
      interval_cases y <;> omega
    have := Nat.find_min' hexists ⟨hne, h⟩
    omega

theorem returns_iff_stops {n r : Int64} (hn : 0 < n.toInt) :
    Returns n r ↔ ∃ z, Stops n 1 z ∧ r = newton n 16 (Int64.ofInt z) := by
  have hpos : ¬ n ≤ 0 := by
    rw [Int64.le_iff_toInt_le]
    exact not_le.mpr hn
  have hone : (1 : Int64) = Int64.ofInt (1 : Nat) := rfl
  constructor
  · rintro ⟨k, hk⟩
    rw [intSqrtWithin, if_neg hpos, hone] at hk
    obtain ⟨x, hx, rfl⟩ := Option.map_eq_some_iff.mp hk
    obtain ⟨z, hz, rfl⟩ := stops_of_search hx
    exact ⟨z, hz, rfl⟩
  · rintro ⟨z, hz, rfl⟩
    obtain ⟨k, hk⟩ := search_of_stops hz
    refine ⟨k, ?_⟩
    rw [intSqrtWithin, if_neg hpos, hone, hk]
    rfl

/-! ## Squares past the range -/

theorem wrapped_small {y : Nat} (h : y ≤ 3037000499) : wrapped y = y * y := by
  have hsquare : (y : Int) * y ≤ 3037000499 * 3037000499 := by exact_mod_cast Nat.mul_le_mul h h
  have hnonneg : (0 : Int) ≤ (y : Int) * y := mul_self_nonneg _
  rw [wrapped_eq, Int.bmod_eq_of_le]
  · exact le_trans (by decide) hnonneg
  · exact lt_of_le_of_lt hsquare (by decide)

theorem wrapped_lt (y : Nat) : wrapped y < 2 ^ 63 := Int.bmod_lt (by decide)

theorem wrapped_congr {y y' : Nat} (h : (2 : Int) ^ 64 ∣ (y : Int) * y - y' * y') :
    wrapped y = wrapped y' := by
  rw [wrapped_eq, wrapped_eq, Int.bmod_eq_bmod_iff_bmod_sub_eq_zero]
  exact Int.bmod_eq_zero_of_dvd h

/-- Every wrapped square is one of a number up to `2 ^ 62`. -/
theorem exists_wrapped_eq (y : Nat) : ∃ y' ≤ 2 ^ 62, wrapped y' = wrapped y := by
  obtain ⟨q, x, hx, rfl⟩ : ∃ q x, x < 2 ^ 63 ∧ y = 2 ^ 63 * q + x :=
    ⟨y / 2 ^ 63, y % 2 ^ 63, Nat.mod_lt _ (by decide), (Nat.div_add_mod y _).symm⟩
  rcases Nat.lt_or_ge (2 ^ 62) x with hlarge | hsmall
  · refine ⟨2 ^ 63 - x, by omega, wrapped_congr ?_⟩
    have hcast : ((2 ^ 63 - x : Nat) : Int) = 2 ^ 63 - x := by omega
    refine ⟨2 ^ 62 - x - q * x - 2 ^ 62 * (q * q), ?_⟩
    rw [hcast]
    push_cast
    ring
  · refine ⟨x, hsmall, wrapped_congr ⟨-(q * x) - 2 ^ 62 * (q * q), ?_⟩⟩
    push_cast
    ring

/-- The search ends below `2 ^ 62`, if it ends. -/
theorem Stops.lt {n : Int64} {z : Nat} (hn : 0 < n.toInt) (h : Stops n 1 z) : z < 2 ^ 62 := by
  by_contra hlarge
  obtain ⟨y, hy, hsame⟩ := exists_wrapped_eq (z + 1)
  have hpast := h.past
  rw [← hsame] at hpast
  have hone : wrapped 1 = 1 := by decide
  have hzero : wrapped 0 = 0 := by decide
  rcases Nat.lt_or_ge 1 y with hy1 | hy1
  · have := h.under y hy1 (by omega)
    omega
  · interval_cases y <;> omega

/-- The residue of a square that wraps to a number over the argument. -/
theorem modEq_of_wrapped {y g : Nat} (h : wrapped y = 2 ^ 63 - g) (hg : g ≤ 2 ^ 63) :
    y * y ≡ 2 ^ 63 - g [MOD 2 ^ 64] := by
  have hcast : ((2 ^ 63 - g : Nat) : Int) = 2 ^ 63 - g := by omega
  have hmod : ((y * y : Nat) : Int) % Int64.size = ((2 ^ 63 - g : Nat) : Int) % Int64.size := by
    rw [hcast, ← h, wrapped_eq, Int.bmod_emod, Int.natCast_mul]
  have hnat : y * y % Int64.size = (2 ^ 63 - g) % Int64.size := by exact_mod_cast hmod
  exact hnat

/-! ## Newton's method -/

/-- One round on natural numbers. -/
def newtonStep (n x : Nat) : Nat := (x + n / x) / 2

/-- The rounds on natural numbers. -/
def newtonNat (n : Nat) : Nat → Nat → Nat
  | 0, x => x
  | k + 1, x => if x ≤ newtonStep n x then x else newtonNat n k (newtonStep n x)

theorem le_newtonStep {n s x : Nat} (hs : s * s ≤ n) (hx : 0 < x) : s ≤ newtonStep n x := by
  have hquotient : 2 * s - x ≤ n / x := by
    rw [Nat.le_div_iff_mul_le hx]
    rcases Nat.lt_or_ge (2 * s) x with hlarge | hsmall
    · rw [Nat.sub_eq_zero_of_le hlarge.le, Nat.zero_mul]
      exact Nat.zero_le _
    · obtain ⟨d, hd⟩ := Nat.exists_eq_add_of_le hsmall
      have hsub : 2 * s - x = d := by omega
      rw [hsub]
      nlinarith [sq_nonneg ((d : Int) - x), sq_nonneg ((s : Int) - x)]
  unfold newtonStep
  omega

theorem le_newtonStep_self {n x : Nat} (hx : 0 < x) : x ≤ newtonStep n x ↔ x * x ≤ n := by
  rw [← Nat.le_div_iff_mul_le hx, newtonStep]
  omega

theorem newtonStep_mono {n n' x x' : Nat} (hn : n ≤ n') (hx : x ≤ x') (hpos : 0 < x)
    (hover : n < x * x) : newtonStep n x ≤ newtonStep n' x' := by
  obtain ⟨d, rfl⟩ := Nat.exists_eq_add_of_le hx
  have hquotient : n / x < x := Nat.div_lt_of_lt_mul hover
  have hstep : n / x - d ≤ n' / (x + d) := by
    rw [Nat.le_div_iff_mul_le (by omega)]
    rcases Nat.lt_or_ge (n / x) d with hsmall | hlarge
    · rw [Nat.sub_eq_zero_of_le hsmall.le, Nat.zero_mul]
      exact Nat.zero_le _
    · obtain ⟨e, he⟩ := Nat.exists_eq_add_of_le hlarge
      have hsub : n / x - d = e := by omega
      have hdiv : (d + e) * x ≤ n := by
        rw [← he]
        exact Nat.div_mul_le_self n x
      rw [hsub]
      nlinarith
  unfold newtonStep
  omega

theorem le_newtonNat {n s : Nat} (hs : s * s ≤ n) (hpos : 0 < s) (k : Nat) {x : Nat}
    (hx : s ≤ x) : s ≤ newtonNat n k x := by
  induction k generalizing x with
  | zero => exact hx
  | succ k ih =>
    rw [newtonNat]
    split
    · exact hx
    · exact ih (le_newtonStep hs (hpos.trans_le hx))

theorem newtonNat_root {n s : Nat} (hs : s * s ≤ n) (hpos : 0 < s) (k : Nat) :
    newtonNat n k s = s := by
  cases k with
  | zero => rfl
  | succ k => rw [newtonNat, if_pos ((le_newtonStep_self hpos).mpr hs)]

theorem newtonNat_le (n k x : Nat) : newtonNat n k x ≤ x := by
  induction k generalizing x with
  | zero => exact le_refl x
  | succ k ih =>
    rw [newtonNat]
    split
    · exact le_refl x
    · exact (ih _).trans (by omega)

/-- From the root on, more rounds are needed for a greater start and a greater argument. -/
theorem newtonNat_mono {n n' s : Nat} (hn : n ≤ n') (hs : s * s ≤ n)
    (hlt : n' < (s + 1) * (s + 1)) (hpos : 0 < s) (k : Nat) {x x' : Nat} (hx : s ≤ x)
    (hle : x ≤ x') : newtonNat n k x ≤ newtonNat n' k x' := by
  induction k generalizing x x' with
  | zero => exact hle
  | succ k ih =>
    rcases Nat.eq_or_lt_of_le hx with rfl | hover
    · rw [newtonNat_root hs hpos]
      exact le_newtonNat (hs.trans hn) hpos _ hle
    · have hsquare : (s + 1) * (s + 1) ≤ x * x := Nat.mul_le_mul hover hover
      have hsquare' : x * x ≤ x' * x' := Nat.mul_le_mul hle hle
      rw [newtonNat, newtonNat, if_neg, if_neg]
      · exact ih (le_newtonStep hs (by omega))
          (newtonStep_mono hn hle (by omega) (by omega))
      · rw [le_newtonStep_self (by omega)]
        omega
      · rw [le_newtonStep_self (by omega)]
        omega

/-- Below `2 ^ 62` the rounds of the code are those on natural numbers. -/
theorem newton_ofInt {n s : Nat} (hn : n < 2 ^ 63) (hs : s * s ≤ n) (hlt : n < (s + 1) * (s + 1))
    (hpos : 0 < s) (k : Nat) {x : Nat} (hx : s ≤ x) (hbound : x < 2 ^ 62) :
    newton (Int64.ofInt n) k (Int64.ofInt x) = Int64.ofInt (newtonNat n k x : Nat) := by
  have hroot : s < 2 ^ 32 := by
    by_contra hlarge
    have : 2 ^ 32 * 2 ^ 32 ≤ s * s := Nat.mul_le_mul (by omega) (by omega)
    omega
  induction k generalizing x with
  | zero => rfl
  | succ k ih =>
    have hquotient : n / x ≤ s + 2 := by
      have hdiv : n / x ≤ n / s := Nat.div_le_div_left hx hpos
      have hroot' : n / s < s + 3 := by
        apply Nat.div_lt_of_lt_mul
        nlinarith
      omega
    have hnonneg : (0 : Int) ≤ ((n / x : Nat) : Int) := Int.natCast_nonneg _
    have hzero : (0 : Int64) = Int64.ofInt 0 := rfl
    have htwo : (2 : Int64) = Int64.ofInt 2 := rfl
    have hnext : (Int64.ofInt x + Int64.ofInt n / Int64.ofInt x) / 2 =
        Int64.ofInt (newtonStep n x : Nat) := by
      have hdiv : Int64.ofInt n / Int64.ofInt x = Int64.ofInt ((n / x : Nat) : Int) := by
        rw [ofInt_div (by omega) (by omega) (by omega) (by omega)]
        push_cast
        rfl
      rw [hdiv, ← Int64.ofInt_add, htwo, ofInt_div (by omega) (by omega) (by omega) (by decide),
        newtonStep]
      push_cast
      rfl
    have hne : ¬ Int64.ofInt x = 0 := by
      intro heq
      have := congrArg Int64.toInt heq
      rw [toInt_ofInt (by omega) (by omega), hzero, toInt_ofInt (le_refl _) (by decide)] at this
      omega
    have hstep : newtonStep n x < 2 ^ 62 := by
      unfold newtonStep
      omega
    rw [newton, if_neg hne, newtonNat]
    dsimp only
    rw [hnext]
    by_cases hstop : x ≤ newtonStep n x
    · rw [if_pos hstop, if_pos]
      rw [ge_iff_le, ofInt_le_iff (by omega) (by omega) (by omega) (by omega)]
      omega
    · rw [if_neg hstop, if_neg]
      · exact ih (le_newtonStep hs (by omega)) hstep
      · rw [ge_iff_le, ofInt_le_iff (by omega) (by omega) (by omega) (by omega)]
        omega

/-! ## The variances -/

/-- `intSqrt` of `Agent.Timing`, whose search does not wrap around, is that of the code below
`2 ^ 62`. -/
theorem returns_intSqrt {n : Int64} (hn : n.toInt < 2 ^ 62) : Returns n (intSqrt n) := by
  rcases Int.lt_or_le 0 n.toInt with hpos | hneg
  · obtain ⟨m, hm⟩ : ∃ m : Nat, n.toInt = m := ⟨n.toInt.toNat, (Int.toNat_of_nonneg hpos.le).symm⟩
    have hroot : 1 ≤ m.sqrt := Nat.le_sqrt.mpr (by omega)
    have hsmall : m.sqrt < 2 ^ 31 := Nat.sqrt_lt.mpr (by omega)
    have hstops : Stops n 1 m.sqrt := by
      refine ⟨hroot, fun y _ hy => ?_, ?_⟩
      · rw [wrapped_small (by omega), hm]
        exact_mod_cast Nat.le_sqrt.mp hy
      · rw [wrapped_small (by omega), hm]
        exact_mod_cast Nat.lt_succ_sqrt m
    have hsearch : sqrtSearch n.toInt 1 = (m.sqrt : Int) := by
      rw [hm]
      exact sqrtSearch_spec m 1 (by omega)
    refine (returns_iff_stops hpos).mpr ⟨m.sqrt, hstops, ?_⟩
    rw [intSqrt, if_neg, hsearch]
    rw [Int64.le_iff_toInt_le]
    exact not_le.mpr hpos
  · have hle : n ≤ 0 := Int64.le_iff_toInt_le.mpr hneg
    exact ⟨0, by rw [intSqrtWithin, intSqrt, if_pos hle, if_pos hle]⟩

/-- The squared deviations that `recompute` sums up. -/
def PerSubject.sqsum (p : PerSubject) : Int64 :=
  let mu := p.window.foldl (· + ·) 0 / Int64.ofNat p.count
  p.window.foldl (fun acc x => acc + (x - mu) * (x - mu)) 0

/-- What `recompute` calls `intSqrt` with. -/
def PerSubject.variance (p : PerSubject) : Int64 := p.sqsum / Int64.ofNat p.count

/-- One sample has no deviation. -/
theorem PerSubject.sqsum_of_few {p : PerSubject} (h : p.count < 2) : p.sqsum = 0 := by
  have hone : Int64.ofNat 1 = 1 := rfl
  unfold sqsum window
  generalize List.ofFn p.samples = samples
  interval_cases p.count
  · rfl
  · cases samples with
    | nil => rfl
    | cons x samples => simp [hone]

theorem half_lt (a : Int64) {c : Nat} (hc : 2 ≤ c) (hmax : c < 2 ^ 63) :
    (a / Int64.ofNat c).toInt < 2 ^ 62 := by
  have hcount : (Int64.ofNat c).toInt = c := Int64.toInt_ofNat_of_lt hmax
  have hne : Int64.ofNat c ≠ -1 := by
    intro heq
    have hneg : (-1 : Int64).toInt = -1 := rfl
    rw [heq, hneg] at hcount
    omega
  have hlt := a.toInt_lt
  rw [Int64.toInt_div_of_ne_right _ _ hne, hcount]
  rcases Int.lt_or_le a.toInt 0 with hneg | hpos
  · have hdiv := Int.tdiv_nonneg (a := -a.toInt) (b := c) (by omega) (by omega)
    rw [Int.neg_tdiv] at hdiv
    omega
  · rw [Int.tdiv_eq_ediv_of_nonneg hpos]
    exact Int.ediv_lt_of_lt_mul (by omega) (by nlinarith)

/-- Two samples or more halve a sum, also one that has wrapped around. -/
theorem PerSubject.variance_lt (p : PerSubject) : p.variance.toInt < 2 ^ 62 := by
  have hle : p.count ≤ 32 := p.count_le
  rw [variance]
  rcases Nat.lt_or_ge p.count 2 with hfew | hmany
  · rw [sqsum_of_few hfew, Int64.zero_div]
    decide
  · exact half_lt _ hmany (by omega)

/-- The deviation that `recompute` stores is a hundred times what the call of the code returns. -/
theorem PerSubject.returns_recompute (p : PerSubject) :
    ∃ r, Returns p.variance r ∧ p.recompute.sigma100 = r * 100 :=
  ⟨_, returns_intSqrt p.variance_lt, rfl⟩

/-! ## The arguments near the top -/

/-- From here the sixteen rounds lead to the root of every argument near the top. Its wrapped square
is `2 ^ 63 - 18951`. -/
def nearStart : Nat := 7243449929653

/-- From here they do not. Its wrapped square is `2 ^ 63 - 5015`. -/
def farStart : Nat := 260607825378157

/-- No number below `farStart` has a square that wraps to `2 ^ 63 - i`, for `2 ^ k` numbers `i` from
`g` on. -/
def sweep : Nat → Nat → Bool
  | 0, g => 18951 ≤ g || rootless 8 64 (2 ^ 63 - g) farStart
  | k + 1, g => sweep k g && sweep k (g + 2 ^ k)

theorem sweep_sound {k g i : Nat} (h : sweep k g = true) (hg : g ≤ i) (hi : i < g + 2 ^ k)
    (hlast : i < 18951) : rootless 8 64 (2 ^ 63 - i) farStart = true := by
  induction k generalizing g with
  | zero =>
    obtain rfl : i = g := by omega
    rw [sweep, Bool.or_eq_true, decide_eq_true_eq] at h
    exact h.resolve_left (by omega)
  | succ k ih =>
    rw [sweep, Bool.and_eq_true] at h
    rcases Nat.lt_or_ge i (g + 2 ^ k) with hlow | hhigh
    · exact ih h.1 hg hlow
    · refine ih h.2 hhigh ?_
      rw [pow_succ] at hi
      omega

theorem sweep_succ {k g : Nat} (hlow : sweep k g = true) (hhigh : sweep k (g + 2 ^ k) = true) :
    sweep (k + 1) g = true := by
  rw [sweep, hlow, hhigh]
  rfl

theorem farStart_le {y : Nat} (h : 2 ^ 63 - 18951 < wrapped y) : farStart ≤ y := by
  have hlt := wrapped_lt y
  obtain ⟨g, hg⟩ : ∃ g : Nat, wrapped y = 2 ^ 63 - g := ⟨(2 ^ 63 - wrapped y).toNat, by omega⟩
  -- in eight parts, so that the evaluation of one can be forgotten before the next
  have hcheck : sweep 15 1 = true := by
    apply sweep_succ <;> apply sweep_succ <;> apply sweep_succ <;> decide +kernel
  exact rootless_sound (sweep_sound hcheck (by omega) (by omega) (by omega))
    (modEq_of_wrapped hg (by omega))

/-- Which calls return at all. -/
theorem terminates_iff (n : Int64) (hn : 0 < n.toInt) :
    (∃ r, Returns n r) ↔ n.toInt < 2 ^ 63 - 7 := by
  constructor
  · rintro ⟨r, hr⟩
    obtain ⟨z, hz, -⟩ := (returns_iff_stops hn).mp hr
    have hpast := hz.past
    have hlt := wrapped_lt (z + 1)
    obtain ⟨g, hg⟩ : ∃ g : Nat, wrapped (z + 1) = 2 ^ 63 - g :=
      ⟨(2 ^ 63 - wrapped (z + 1)).toNat, by omega⟩
    by_contra hlarge
    have hsquare := modEq_of_wrapped hg (by omega)
    have hrootless : rootless 8 64 (2 ^ 63 - g) (z + 2) = true := by
      have hlow : 1 ≤ g := by omega
      have hhigh : g ≤ 6 := by omega
      interval_cases g <;> rfl
    have := rootless_sound hrootless hsquare
    omega
  · intro hlt
    have hover : wrapped 2759374635167858507 = 2 ^ 63 - 7 := by decide
    obtain ⟨z, hz, -⟩ := exists_stops (y := 2759374635167858507) hn (by omega)
    exact ⟨_, (returns_iff_stops hn).mpr ⟨z, hz, rfl⟩⟩

/-! ## Which arguments have their root -/

/-- The largest number whose square is at most `n`. -/
def IsRoot (n r : Int64) : Prop := IsGreatest {x : Int | x * x ≤ n.toInt} r.toInt

theorem isGreatest_sqrt (n : Nat) : IsGreatest {x : Int | x * x ≤ n} (n.sqrt : Int) := by
  constructor
  · show (n.sqrt : Int) * n.sqrt ≤ n
    exact_mod_cast Nat.sqrt_le n
  · intro x hx
    have hx : x * x ≤ n := hx
    have hover : (n : Int) < (n.sqrt + 1) * (n.sqrt + 1) := by exact_mod_cast Nat.lt_succ_sqrt n
    nlinarith

theorem isRoot_iff {n r : Int64} {m : Nat} (hn : n.toInt = m) :
    IsRoot n r ↔ r.toInt = m.sqrt := by
  unfold IsRoot
  rw [hn]
  constructor
  · intro h
    exact h.unique (isGreatest_sqrt m)
  · intro h
    rw [h]
    exact isGreatest_sqrt m

/-- Newton's method leads to the root from where the search ends. -/
theorem newtonNat_of_stops {n : Int64} {m z : Nat} (hm : n.toInt = m) (hpos : 0 < m)
    (hn : m < 2 ^ 63 - 18951) (hz : Stops n 1 z) (hnear : z < nearStart) :
    m.sqrt ≤ z ∧ newtonNat m 16 z = m.sqrt := by
  have hroot : 0 < m.sqrt := Nat.sqrt_pos.mpr hpos
  have hle : m.sqrt * m.sqrt ≤ m := Nat.sqrt_le m
  have hlt : m < (m.sqrt + 1) * (m.sqrt + 1) := Nat.lt_succ_sqrt m
  have htop : m.sqrt ≤ 3037000499 := by
    by_contra hlarge
    have : 3037000500 * 3037000500 ≤ m.sqrt * m.sqrt := Nat.mul_le_mul (by omega) (by omega)
    omega
  have hfrom : m.sqrt ≤ z := by
    by_contra hsmall
    have hsquare : (z + 1) * (z + 1) ≤ m.sqrt * m.sqrt := Nat.mul_le_mul (by omega) (by omega)
    have hpast := hz.past
    rw [wrapped_small (by omega), hm] at hpast
    have : ((z + 1 : Nat) : Int) * (z + 1 : Nat) ≤ m := by exact_mod_cast hsquare.trans hle
    omega
  refine ⟨hfrom, ?_⟩
  rcases Nat.lt_or_ge m.sqrt 3037000499 with hbelow | habove
  · have hto : z ≤ m.sqrt := by
      by_contra hlarge
      have hunder := hz.under (m.sqrt + 1) (by omega) (by omega)
      rw [wrapped_small (by omega), hm] at hunder
      have : (m : Int) < ((m.sqrt + 1 : Nat) : Int) * (m.sqrt + 1 : Nat) := by exact_mod_cast hlt
      omega
    rw [le_antisymm hto hfrom]
    exact newtonNat_root hle hroot 16
  · have heq : m.sqrt = 3037000499 := le_antisymm htop habove
    rw [heq] at hle hlt hfrom ⊢
    have hvalue : newtonNat (2 ^ 63 - 1) 16 (nearStart - 1) = 3037000499 := by decide +kernel
    have hmono := newtonNat_mono (show m ≤ 2 ^ 63 - 1 by omega) hle (by decide) (by decide) 16 hfrom
      (show z ≤ nearStart - 1 by omega)
    rw [hvalue] at hmono
    exact le_antisymm hmono (le_newtonNat hle (by decide) 16 hfrom)

/-- `intSqrt` terminates with the root, rounded down, of every argument but the last 18951. -/
theorem int_sqrt_iff (n : Int64) (hn : 0 ≤ n) :
    (∃ r, Returns n r ∧ IsRoot n r) ↔ n.toInt < 2 ^ 63 - 18951 := by
  rw [Int64.le_iff_toInt_le] at hn
  have hmax := n.toInt_lt
  obtain ⟨m, hm⟩ : ∃ m : Nat, n.toInt = m := ⟨n.toInt.toNat, (Int.toNat_of_nonneg hn).symm⟩
  rcases Nat.eq_zero_or_pos m with rfl | hpos
  · refine iff_of_true ⟨0, ⟨0, ?_⟩, (isRoot_iff hm).mpr rfl⟩ (by omega)
    rw [intSqrtWithin, if_pos]
    rw [Int64.le_iff_toInt_le, hm]
    exact le_refl _
  · have hpos' : 0 < n.toInt := by omega
    have hn' : n = Int64.ofInt m := by rw [← hm, Int64.ofInt_toInt]
    have hroot : 0 < m.sqrt := Nat.sqrt_pos.mpr hpos
    have hle : m.sqrt * m.sqrt ≤ m := Nat.sqrt_le m
    have hlt : m < (m.sqrt + 1) * (m.sqrt + 1) := Nat.lt_succ_sqrt m
    constructor
    · rintro ⟨r, hr, hisRoot⟩
      obtain ⟨z, hz, rfl⟩ := (returns_iff_stops hpos').mp hr
      by_contra hlarge
      have hfar := farStart_le (lt_of_le_of_lt (not_lt.mp hlarge) hz.past)
      have hbound := hz.lt hpos'
      have heq : m.sqrt = 3037000499 := (Nat.eq_sqrt.mpr ⟨by omega, by omega⟩).symm
      rw [heq] at hle hlt hroot
      have hfrom : 3037000499 ≤ z := by
        unfold farStart at hfar
        omega
      -- the search has ended too far from the root
      have hvalue : 3037000499 < newtonNat (2 ^ 63 - 18951) 16 (farStart - 1) := by decide +kernel
      have hmono := newtonNat_mono (show 2 ^ 63 - 18951 ≤ m by omega)
        (show 3037000499 * 3037000499 ≤ 2 ^ 63 - 18951 by decide) hlt hroot 16
        (show 3037000499 ≤ farStart - 1 by decide) (show farStart - 1 ≤ z by omega)
      have hsmall := newtonNat_le m 16 z
      rw [isRoot_iff hm, heq, hn', newton_ofInt (by omega) hle hlt hroot 16 hfrom hbound,
        toInt_ofInt (by omega) (by omega)] at hisRoot
      omega
    · intro hunder
      have hover : wrapped nearStart = 2 ^ 63 - 18951 := by decide
      obtain ⟨z, hz, hnear⟩ := exists_stops (y := nearStart) hpos' (by omega)
      obtain ⟨hfrom, hvalue⟩ := newtonNat_of_stops hm hpos (by omega) hz hnear
      have hbound : m.sqrt ≤ m := Nat.sqrt_le_self m
      refine ⟨_, (returns_iff_stops hpos').mpr ⟨z, hz, rfl⟩, ?_⟩
      rw [isRoot_iff hm]
      nth_rewrite 1 [hn']
      rw [newton_ofInt (by omega) hle hlt hroot 16 hfrom (hz.lt hpos'), hvalue,
        toInt_ofInt (by omega) (by omega)]

theorem int_sqrt_million : ∃ r, Returns 1000000 r ∧ IsRoot 1000000 r :=
  (int_sqrt_iff 1000000 (by decide)).mpr (by decide)

/-- No wrapped square is over the last argument: the search never ends. -/
theorem int_sqrt_never_returns :
    ¬ ∃ r, Returns Int64.maxValue r ∧ IsRoot Int64.maxValue r := by
  rintro ⟨r, hr, -⟩
  have hreturns := (terminates_iff Int64.maxValue (by decide)).mp ⟨r, hr⟩
  exact absurd hreturns (by decide)

end ZaqorinCore.Agent.Timing
