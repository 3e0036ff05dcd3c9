import ZaqorinCore.Base.Ring
import ZaqorinCore.Agent.Timing

/-!
# The adaptive budget

`Budget` is meant to be computed from the mean and the deviation of the last samples. `exactBudget`
is that value over unbounded integers. The ring, the cache with its dirty flag and the integer
square root compute it: `budget_exact`, as long as the squares of the deviations sum to less than
`2 ^ 63`. Beyond, the sum wraps around, and a variance can be negative.
-/

namespace ZaqorinCore.Agent.Timing

open ZaqorinCore.Base

/-! ## The trust score -/

namespace PerSubject

/-- `ATS`, with the record it leaves. -/
def ats (p : PerSubject) : PerSubject × UInt8 :=
  if p.count = 0 then (p, 0)
  else
    let p := if p.dirty then p.recompute else p
    let budget := p.mu100 + 300 * p.sigma100 / 100
    if budget ≤ 0 then (p, 0)
    else
      let late :=
        p.window.foldl (fun late x => if x * 100 > budget then late + 1 else late) (0 : Int64)
      let ratio := late * 100 / Int64.ofNat p.count
      let ratio := if ratio > 100 then 100 else ratio
      (p, ratio.toUInt64.toUInt8)

end PerSubject

/-! ## The budget over unbounded integers -/

def meanOf (w : List Int) : Int := w.sum / w.length

/-- The sum of the squared deviations. -/
def deviations (w : List Int) : Int := (w.map fun x => (x - meanOf w) * (x - meanOf w)).sum

def sigmaOf (w : List Int) : Int := (deviations w / w.length).toNat.sqrt

/-- The last samples of those that were recorded. -/
def lastSamples (xs : List UInt32) : List Int := (xs.rtake sampleCap).map fun x => (x.toNat : Int)

def exactBudget (xs : List UInt32) : Int :=
  if xs.length < minSamples then 250000
  else
    let mu := meanOf (lastSamples xs)
    let sigma := sigmaOf (lastSamples xs)
    if mu = 0 ∨ 100 * sigma / mu > 150 then 250000 else max 250000 (mu + 3 * sigma)

/-! ## Runs -/

inductive TimingCall
  | record (rttUS : UInt32) (nowNS : UInt64)
  | budget
  | ats

/-- A record with the samples recorded and the budgets returned, each with the samples by then. -/
structure Recorder where
  subject : PerSubject
  samples : List UInt32
  budgets : List (List UInt32 × Int64)

def Recorder.start : Recorder := ⟨{}, [], []⟩

def Recorder.step (r : Recorder) : TimingCall → Option Recorder
  | .record rttUS nowNS => some { r with
      subject := r.subject.record (Int64.ofNat rttUS.toNat) nowNS
      samples := r.samples ++ [rttUS] }
  | .budget => some { r with
      subject := r.subject.budget.1
      budgets := (r.samples, r.subject.budget.2) :: r.budgets }
  | .ats => some { r with subject := r.subject.ats.1 }

/-- Every budget returned is that of the samples by then. -/
def BudgetsExact (r : Recorder) : Prop := ∀ b ∈ r.budgets, b.2.toInt = exactBudget b.1

/-- The budget is asked for when the squared deviations fit into an `int64`. -/
def Unwrapped (r : Recorder) : TimingCall → Prop
  | .budget => minSamples ≤ r.samples.length → deviations (lastSamples r.samples) < 2 ^ 63
  | _ => True

/-! ## The square root -/

theorem sqrtSearch_spec (n : Nat) (k : Nat) (hk : k * k ≤ n) :
    sqrtSearch n k = (n.sqrt : Int) := by
  unfold sqrtSearch
  split
  · rename_i hle
    have hnext : (k + 1) * (k + 1) ≤ n := by exact_mod_cast hle
    have hcast : ((k : Int) + 1) = ((k + 1 : Nat) : Int) := by push_cast; rfl
    rw [hcast]
    exact sqrtSearch_spec n (k + 1) hnext
  · rename_i hlt
    have hnext : n < (k + 1) * (k + 1) := by
      rw [not_le] at hlt
      exact_mod_cast hlt
    have hroot : n.sqrt = k := (Nat.eq_sqrt.mpr ⟨hk, hnext⟩).symm
    rw [hroot]
termination_by n - k
decreasing_by
  have : k + 1 ≤ (k + 1) * (k + 1) := Nat.le_mul_self (k + 1)
  omega

/-- The quotient of numbers that fit is that of the integers. -/
theorem ofInt_div {a b : Int} (ha : 0 ≤ a) (hb : 0 ≤ b) (hamax : a < 2 ^ 63) (hbmax : b < 2 ^ 63) :
    Int64.ofInt a / Int64.ofInt b = Int64.ofInt (a / b) := by
  have hmin : Int64.minValue.toInt = -2 ^ 63 := by decide
  have hmax : Int64.maxValue.toInt = 2 ^ 63 - 1 := by decide
  have h := Int64.ofInt_tdiv (a := a) (b := b) (by omega) (by omega) (by omega) (by omega)
  rw [← h, Int.tdiv_eq_ediv_of_nonneg ha]

theorem toInt_ofInt {a : Int} (ha : 0 ≤ a) (hamax : a < 2 ^ 63) : (Int64.ofInt a).toInt = a :=
  Int64.toInt_ofInt_of_le (by omega) hamax

theorem ofInt_le_iff {a b : Int} (ha : 0 ≤ a) (hb : 0 ≤ b) (hamax : a < 2 ^ 63)
    (hbmax : b < 2 ^ 63) : Int64.ofInt a ≤ Int64.ofInt b ↔ a ≤ b := by
  rw [Int64.le_iff_toInt_le, toInt_ofInt ha hamax, toInt_ofInt hb hbmax]

/-- The search ends at the root, and Newton's method stops there. -/
theorem intSqrt_spec {v : Int} (hv : 0 ≤ v) (hbound : v < 2 ^ 62) :
    intSqrt (Int64.ofInt v) = Int64.ofInt (v.toNat.sqrt : Int) := by
  have hzero : (0 : Int64) = Int64.ofInt 0 := rfl
  obtain ⟨n, rfl⟩ : ∃ n : Nat, v = n := ⟨v.toNat, by omega⟩
  rw [Int.toNat_natCast]
  unfold intSqrt
  split
  · rename_i hle
    rw [hzero, ofInt_le_iff hv (le_refl _) (by omega) (by decide)] at hle
    obtain rfl : n = 0 := by omega
    rfl
  · rename_i hpos
    rw [hzero, ofInt_le_iff hv (le_refl _) (by omega) (by decide)] at hpos
    have hroot : 1 ≤ n.sqrt := Nat.le_sqrt.mpr (by omega)
    have hsquare : n.sqrt * n.sqrt ≤ n := Nat.sqrt_le n
    have hsearch : sqrtSearch n 1 = (n.sqrt : Int) := sqrtSearch_spec n 1 (by omega)
    have hsmall : n.sqrt < 2 ^ 31 := by
      apply Nat.sqrt_lt.mpr
      have : (n : Int) < 2 ^ 62 := hbound
      omega
    -- the quotient of the number and its root is the root at least
    have hquotient : n.sqrt ≤ n / n.sqrt := (Nat.le_div_iff_mul_le hroot).mpr hsquare
    have hquotient_le : n / n.sqrt ≤ n := Nat.div_le_self _ _
    have hdiv : Int64.ofInt n / Int64.ofInt n.sqrt = Int64.ofInt ((n / n.sqrt : Nat) : Int) := by
      rw [ofInt_div hv (by omega) (by omega) (by omega)]
      push_cast
      rfl
    have hnext : (Int64.ofInt n.sqrt + Int64.ofInt n / Int64.ofInt n.sqrt) / 2 =
        Int64.ofInt (((n.sqrt + n / n.sqrt) / 2 : Nat) : Int) := by
      have htwo : (2 : Int64) = Int64.ofInt 2 := rfl
      rw [hdiv, ← Int64.ofInt_add, htwo, ofInt_div (by omega) (by omega) (by omega) (by decide)]
      push_cast
      rfl
    rw [toInt_ofInt hv (by omega), hsearch]
    have hne : ¬ Int64.ofInt n.sqrt = 0 := by
      intro heq
      have := congrArg Int64.toInt heq
      rw [toInt_ofInt (by omega) (by omega), hzero, toInt_ofInt (le_refl _) (by decide)] at this
      omega
    unfold newton
    rw [if_neg hne]
    dsimp only
    rw [hnext]
    apply if_pos
    rw [ge_iff_le, ofInt_le_iff (by omega) (by omega) (by omega) (by omega)]
    omega

/-! ## The mean and the deviation -/

theorem foldl_add (l : List Int) (a : Int) :
    (l.map Int64.ofInt).foldl (· + ·) (Int64.ofInt a) = Int64.ofInt (a + l.sum) := by
  induction l generalizing a with
  | nil => simp
  | cons x l ih =>
    rw [List.map_cons, List.foldl_cons, ← Int64.ofInt_add, ih, List.sum_cons, Int.add_assoc]

theorem foldl_square (l : List Int) (mu a : Int) :
    (l.map Int64.ofInt).foldl
        (fun acc x => acc + (x - Int64.ofInt mu) * (x - Int64.ofInt mu)) (Int64.ofInt a) =
      Int64.ofInt (a + (l.map fun x => (x - mu) * (x - mu)).sum) := by
  induction l generalizing a with
  | nil => simp
  | cons x l ih =>
    rw [List.map_cons, List.foldl_cons, ← Int64.ofInt_sub, ← Int64.ofInt_mul, ← Int64.ofInt_add, ih,
      List.map_cons, List.sum_cons, Int.add_assoc]

/-- Samples, of which there are some, at most as many as a ring holds. -/
structure Samples (w : List Int) : Prop where
  pos : 0 < w.length
  le : w.length ≤ sampleCap
  range : ∀ x ∈ w, 0 ≤ x ∧ x < 2 ^ 32

namespace Samples

variable {w : List Int}

theorem sum_bounds (h : ∀ x ∈ w, 0 ≤ x ∧ x < 2 ^ 32) :
    0 ≤ w.sum ∧ w.sum ≤ w.length * (2 ^ 32 - 1) := by
  induction w with
  | nil => simp
  | cons x w ih =>
    obtain ⟨hlow, hhigh⟩ := ih fun y hy => h y (List.mem_cons_of_mem _ hy)
    have hx := h x List.mem_cons_self
    rw [List.sum_cons, List.length_cons]
    push_cast
    omega

theorem mean_bounds (h : Samples w) : 0 ≤ meanOf w ∧ meanOf w < 2 ^ 32 := by
  obtain ⟨hlow, hhigh⟩ := sum_bounds h.range
  have hpos : (0 : Int) < w.length := by exact_mod_cast h.pos
  unfold meanOf
  constructor
  · exact Int.ediv_nonneg hlow hpos.le
  · apply Int.ediv_lt_of_lt_mul hpos
    have : (w.length : Int) * (2 ^ 32 - 1) < 2 ^ 32 * w.length := by omega
    omega

theorem deviations_nonneg (w : List Int) : 0 ≤ deviations w := by
  apply List.sum_nonneg
  intro y hy
  obtain ⟨x, -, rfl⟩ := List.mem_map.mp hy
  exact mul_self_nonneg _

end Samples

/-- The mean and the deviation do not depend on the order. -/
theorem meanOf_perm {w w' : List Int} (h : w.Perm w') : meanOf w = meanOf w' := by
  rw [meanOf, meanOf, h.sum_eq, h.length_eq]

theorem deviations_perm {w w' : List Int} (h : w.Perm w') : deviations w = deviations w' := by
  unfold deviations
  rw [meanOf_perm h]
  exact (h.map _).sum_eq

theorem sigmaOf_perm {w w' : List Int} (h : w.Perm w') : sigmaOf w = sigmaOf w' := by
  rw [sigmaOf, sigmaOf, deviations_perm h, h.length_eq]

/-- What `recompute` caches, when the squares fit. -/
theorem recompute_spec {p : PerSubject} {w : List Int} (hw : Samples w)
    (hwindow : p.window = w.map Int64.ofInt) (hcount : p.count = w.length)
    (hfit : deviations w < 2 ^ 63) (hmany : 2 ≤ w.length) :
    p.recompute.mu100 = Int64.ofInt (meanOf w * 100) ∧
      p.recompute.sigma100 = Int64.ofInt (sigmaOf w * 100) := by
  obtain ⟨hlow, hhigh⟩ := Samples.sum_bounds hw.range
  have hcap : w.length ≤ 32 := hw.le
  have hdev := Samples.deviations_nonneg w
  have hlength : Int64.ofNat p.count = Int64.ofInt w.length := by
    rw [hcount, ← Int64.ofInt_eq_ofNat]
  have hzero : (0 : Int64) = Int64.ofInt 0 := rfl
  have hhundred : (100 : Int64) = Int64.ofInt 100 := rfl
  have hmean : p.window.foldl (· + ·) 0 / Int64.ofNat p.count = Int64.ofInt (meanOf w) := by
    rw [hwindow, hzero, foldl_add, hlength, Int.zero_add,
      ofInt_div hlow (by omega) (by omega) (by omega)]
    rfl
  have hsquares : p.window.foldl (fun acc x =>
      acc + (x - Int64.ofInt (meanOf w)) * (x - Int64.ofInt (meanOf w))) 0 / Int64.ofNat p.count =
        Int64.ofInt (deviations w / w.length) := by
    rw [hwindow, hzero, foldl_square, hlength, Int.zero_add]
    exact ofInt_div hdev (by omega) hfit (by omega)
  have hvariance : deviations w / w.length < 2 ^ 62 := by
    apply Int.ediv_lt_of_lt_mul (by omega)
    have : (2 : Int) ^ 62 * 2 ≤ 2 ^ 62 * w.length := by omega
    omega
  have hvariance_nonneg : 0 ≤ deviations w / w.length := Int.ediv_nonneg hdev (by omega)
  unfold PerSubject.recompute
  dsimp only
  rw [hmean, hsquares, intSqrt_spec hvariance_nonneg hvariance, hhundred, ← Int64.ofInt_mul,
    ← Int64.ofInt_mul]
  exact ⟨rfl, rfl⟩

/-- `Budget` from the cached numbers. -/
def tolerance (mu100 sigma100 : Int64) : Int64 :=
  if mu100 = 0 then defaultBudget
  else if sigma100 * 100 / mu100 > 150 then defaultBudget
  else
    let b := mu100 + 300 * sigma100 / 100
    (if b < defaultBudget * 100 then defaultBudget * 100 else b) / 100

theorem tolerance_spec {mu sigma : Int} (hmu : 0 ≤ mu) (hmumax : mu < 2 ^ 32) (hsigma : 0 ≤ sigma)
    (hsigmamax : sigma < 2 ^ 32) :
    (tolerance (Int64.ofInt (mu * 100)) (Int64.ofInt (sigma * 100))).toInt =
      if mu = 0 ∨ 100 * sigma / mu > 150 then 250000 else max 250000 (mu + 3 * sigma) := by
  have hhundred : (100 : Int64) = Int64.ofInt 100 := rfl
  have hzero : Int64.ofInt (mu * 100) = 0 ↔ mu = 0 := by
    rw [← Int64.toInt_inj, toInt_ofInt (by omega) (by omega)]
    show mu * 100 = 0 ↔ mu = 0
    omega
  unfold tolerance
  by_cases hmean : mu = 0
  · rw [if_pos (hzero.mpr hmean), if_pos (Or.inl hmean)]
    rfl
  have hratio : Int64.ofInt (sigma * 100) * 100 / Int64.ofInt (mu * 100) =
      Int64.ofInt (100 * sigma / mu) := by
    rw [hhundred, ← Int64.ofInt_mul, ofInt_div (by omega) (by omega) (by omega) (by omega),
      Int.mul_ediv_mul_of_pos_left _ _ (by decide), Int.mul_comm]
  have hratio_nonneg : 0 ≤ 100 * sigma / mu := Int.ediv_nonneg (by omega) hmu
  have hratio_le : 100 * sigma / mu ≤ 100 * sigma := Int.ediv_le_self _ (by omega)
  have hnoisy : Int64.ofInt (100 * sigma / mu) > 150 ↔ 100 * sigma / mu > 150 := by
    have hlimit : (150 : Int64) = Int64.ofInt 150 := rfl
    rw [gt_iff_lt, gt_iff_lt, ← Int64.not_le, hlimit,
      ofInt_le_iff hratio_nonneg (by decide) (by omega) (by decide), not_le]
  rw [if_neg (fun h => hmean (hzero.mp h)), hratio]
  by_cases hcv : 100 * sigma / mu > 150
  · rw [if_pos (hnoisy.mpr hcv), if_pos (Or.inr hcv)]
    rfl
  rw [if_neg (fun h => hcv (hnoisy.mp h)), if_neg (by omega)]
  have hband : Int64.ofInt (mu * 100) + 300 * Int64.ofInt (sigma * 100) / 100 =
      Int64.ofInt ((mu + 3 * sigma) * 100) := by
    have hthree : (300 : Int64) = Int64.ofInt 300 := rfl
    rw [hhundred, hthree, ← Int64.ofInt_mul,
      ofInt_div (by omega) (by decide) (by omega) (by decide),
      ← Int64.ofInt_add]
    congr 1
    omega
  have hfloor : defaultBudget * 100 = Int64.ofInt 25000000 := rfl
  dsimp only
  rw [hband, hfloor]
  split
  · rename_i hlow
    rw [← Int64.not_le, ofInt_le_iff (by decide) (by omega) (by decide) (by omega)] at hlow
    have hresult : (Int64.ofInt 25000000 / 100).toInt = 250000 := rfl
    rw [hresult]
    omega
  · rename_i hhigh
    rw [Int64.not_lt, ofInt_le_iff (by decide) (by omega) (by decide) (by omega)] at hhigh
    rw [hhundred, ofInt_div (by omega) (by decide) (by omega) (by decide),
      toInt_ofInt (by omega) (by omega)]
    omega

/-! ## The cache and the ring -/

theorem ofFn_update {n : Nat} {α : Type} (f : Fin n → α) (i : Fin n) (x : α) :
    List.ofFn (Function.update f i x) = (List.ofFn f).set i x := by
  apply List.ext_getElem
  · simp
  · intro j h₁ h₂
    rw [List.getElem_ofFn, List.getElem_set, List.getElem_ofFn, Function.update_apply]
    simp only [Fin.ext_iff, eq_comm]

/-- The first places after one of them is written. -/
theorem take_set_succ {α : Type} {l : List α} {k : Nat} (hk : k < l.length) (x : α) :
    (l.set k x).take (k + 1) = l.take k ++ [x] := by
  rw [List.take_add_one, List.take_set_of_le (le_refl k), List.getElem?_set_self hk]
  rfl

theorem take_set_full {α : Type} {l : List α} {n : Nat} (hn : l.length = n) (k : Nat) (x : α) :
    (l.set k x).take n = (l.take n).set k x := by
  rw [List.take_of_length_le (by simp [hn]), List.take_of_length_le hn.le]

/-- The rings are the same; the caches need not be. -/
structure Alike (p q : PerSubject) : Prop where
  samples : p.samples = q.samples
  cursor : p.cursor = q.cursor
  count : p.count = q.count

theorem Alike.refl (p : PerSubject) : Alike p p := ⟨rfl, rfl, rfl⟩

theorem Alike.trans {p q r : PerSubject} (h : Alike p q) (h' : Alike q r) : Alike p r :=
  ⟨h.samples.trans h'.samples, h.cursor.trans h'.cursor, h.count.trans h'.count⟩

theorem Alike.symm {p q : PerSubject} (h : Alike p q) : Alike q p :=
  ⟨h.samples.symm, h.cursor.symm, h.count.symm⟩

theorem Alike.window {p q : PerSubject} (h : Alike p q) : p.window = q.window := by
  rw [PerSubject.window, PerSubject.window, h.samples, h.count]

theorem Alike.record {p q : PerSubject} (h : Alike p q) (x : Int64) (nowNS : UInt64) :
    Alike (p.record x nowNS) (q.record x nowNS) := by
  refine ⟨?_, ?_, ?_⟩
  · show Function.update _ _ _ = Function.update _ _ _
    simp only [h.samples, h.cursor]
  · show p.cursor + 1 = q.cursor + 1
    rw [h.cursor]
  · show (if p.count < sampleCap then _ else _) = (if q.count < sampleCap then _ else _)
    rw [h.count]

/-- A cache that is not dirty is that of the ring. -/
def Cached (p : PerSubject) : Prop :=
  p.dirty = false → 0 < p.count →
    p.mu100 = p.recompute.mu100 ∧ p.sigma100 = p.recompute.sigma100

namespace Cached

variable {p q : PerSubject}

theorem zero : Cached {} := fun _ h => absurd h (by decide)

theorem record (p : PerSubject) (x : Int64) (nowNS : UInt64) : Cached (p.record x nowNS) :=
  fun hdirty => nomatch hdirty

/-- After a look at the cache it is that of the ring. -/
theorem refreshed (h : Cached p) (hpos : 0 < p.count) :
    Alike p (if p.dirty then p.recompute else p) ∧ Cached (if p.dirty then p.recompute else p) ∧
      (if p.dirty then p.recompute else p).mu100 = p.recompute.mu100 ∧
      (if p.dirty then p.recompute else p).sigma100 = p.recompute.sigma100 := by
  by_cases hdirty : p.dirty = true
  · rw [if_pos hdirty]
    exact ⟨⟨rfl, rfl, rfl⟩, fun _ _ => ⟨rfl, rfl⟩, rfl, rfl⟩
  · rw [if_neg hdirty]
    exact ⟨Alike.refl p, h, h (by simpa using hdirty) hpos⟩

theorem pos_of_many (h : ¬ p.count < minSamples) : 0 < p.count := by
  have : minSamples = 4 := rfl
  omega

/-- `Budget` leaves the ring as it is. -/
theorem budget (h : Cached p) : Alike p p.budget.1 ∧ Cached p.budget.1 := by
  unfold PerSubject.budget
  split
  · exact ⟨Alike.refl p, h⟩
  · rename_i hmany
    obtain ⟨halike, hcached, -, -⟩ := h.refreshed (pos_of_many hmany)
    dsimp only
    generalize (if p.dirty = true then p.recompute else p) = q at halike hcached ⊢
    split
    · exact ⟨halike, hcached⟩
    · split
      · exact ⟨halike, hcached⟩
      · exact ⟨halike, hcached⟩

theorem ats (h : Cached p) : Alike p p.ats.1 ∧ Cached p.ats.1 := by
  unfold PerSubject.ats
  split
  · exact ⟨Alike.refl p, h⟩
  · rename_i hpos
    obtain ⟨halike, hcached, -, -⟩ := h.refreshed (Nat.pos_of_ne_zero hpos)
    dsimp only
    generalize (if p.dirty = true then p.recompute else p) = q at halike hcached ⊢
    split
    · exact ⟨halike, hcached⟩
    · exact ⟨halike, hcached⟩

/-- The budget does not depend on the cache. -/
theorem budget_eq (h : Cached p) : p.budget.2 =
    if p.count < minSamples then defaultBudget
    else tolerance p.recompute.mu100 p.recompute.sigma100 := by
  unfold PerSubject.budget
  split
  · rfl
  · rename_i hmany
    obtain ⟨-, -, hmu, hsigma⟩ := h.refreshed (pos_of_many hmany)
    dsimp only
    rw [hmu, hsigma]
    unfold tolerance
    split
    · rfl
    · split
      · rfl
      · rfl

/-- The same ring has the same budget. -/
theorem budget_congr (h : Cached p) (h' : Cached q) (halike : Alike p q) :
    p.budget.2 = q.budget.2 := by
  rw [h.budget_eq, h'.budget_eq]
  unfold PerSubject.recompute
  dsimp only
  rw [halike.window, halike.count]

end Cached

def sampleOf (x : UInt32) : Int64 := Int64.ofNat x.toNat

/-- The ring holds the last samples. -/
structure Holds (p : PerSubject) (xs : List UInt32) : Prop where
  ring : Ring sampleCap p.window (p.cursor.toNat % sampleCap) (xs.map sampleOf)
  cached : Cached p

namespace Holds

variable {p q : PerSubject} {xs : List UInt32}

theorem of_alike (h : Holds p xs) (halike : Alike p q ∧ Cached q) : Holds q xs := by
  refine ⟨?_, halike.2⟩
  rw [← halike.1.window, ← halike.1.cursor]
  exact h.ring

theorem window_length (p : PerSubject) : p.window.length = p.count := by
  have := p.count_le
  simp [PerSubject.window]
  omega

theorem start : Holds {} [] where
  ring := Ring.empty (by decide)
  cached := Cached.zero

theorem count_eq (h : Holds p xs) : p.count = min sampleCap xs.length := by
  have := h.ring.size
  rw [window_length, List.length_map] at this
  exact this

/-- The cursor wraps at a multiple of the size of the ring. -/
theorem cursor_succ (c : UInt32) :
    (c + 1).toNat % sampleCap = (c.toNat % sampleCap + 1) % sampleCap := by
  have hdvd : sampleCap ∣ 2 ^ 32 := by decide
  rw [UInt32.toNat_add, Nat.mod_mod_of_dvd _ hdvd, ← Nat.mod_add_mod]
  rfl

theorem window_record (p : PerSubject) (x : Int64) (nowNS : UInt64) :
    (p.record x nowNS).window = ((List.ofFn p.samples).set (p.cursor.toNat % sampleCap) x).take
      (if p.count < sampleCap then p.count + 1 else p.count) :=
  congrArg (List.take _) (ofFn_update _ _ _)

theorem record (h : Holds p xs) (rttUS : UInt32) (nowNS : UInt64) :
    Holds (p.record (sampleOf rttUS) nowNS) (xs ++ [rttUS]) := by
  have hcount := h.count_eq
  have hlength : (List.ofFn p.samples).length = sampleCap := List.length_ofFn
  refine ⟨?_, Cached.record _ _ _⟩
  show Ring sampleCap _ ((p.cursor + 1).toNat % sampleCap) _
  rw [window_record, cursor_succ, List.map_append]
  by_cases hfew : xs.length < sampleCap
  · have hfew' : (xs.map sampleOf).length < sampleCap := by rwa [List.length_map]
    have hcursor : p.cursor.toNat % sampleCap = p.count := by
      rw [h.ring.filling hfew', List.length_map]
      omega
    have hgrow := h.ring.grow hfew' (sampleOf rttUS)
    rw [if_pos (by omega)]
    rw [hcursor] at hgrow ⊢
    rw [take_set_succ (by omega)]
    exact hgrow
  · have hfull : p.count = sampleCap := by omega
    have hreplace := h.ring.replace (by rw [List.length_map]; omega) (sampleOf rttUS)
    rw [if_neg (by omega), hfull, take_set_full hlength]
    unfold PerSubject.window at hreplace
    rw [hfull] at hreplace
    exact hreplace

/-- The samples in the ring, as integers. -/
theorem window_eq (h : Holds p xs) : ∃ w : List Int, p.window = w.map Int64.ofInt ∧
    p.count = w.length ∧ w.Perm (lastSamples xs) := by
  refine ⟨p.window.map Int64.toInt, ?_, ?_, ?_⟩
  · rw [List.map_map]
    have hid : Int64.ofInt ∘ Int64.toInt = id := funext Int64.ofInt_toInt
    rw [hid, List.map_id]
  · rw [List.length_map, window_length]
  · have hperm := h.ring.perm.map Int64.toInt
    have hlast : ((xs.map sampleOf).rtake sampleCap).map Int64.toInt = lastSamples xs := by
      unfold lastSamples List.rtake
      rw [List.length_map, ← List.map_drop, List.map_map]
      apply List.map_congr_left
      intro x _
      have hx := x.toNat_lt
      exact Int64.toInt_ofNat_of_lt (by omega)
    rwa [hlast] at hperm

theorem lastSamples_range (xs : List UInt32) : ∀ x ∈ lastSamples xs, 0 ≤ x ∧ x < 2 ^ 32 := by
  intro x hx
  obtain ⟨y, -, rfl⟩ := List.mem_map.mp hx
  have := y.toNat_lt
  omega

/-- The budget is exact when the squared deviations fit. -/
theorem budget_exact (h : Holds p xs)
    (hfit : minSamples ≤ xs.length → deviations (lastSamples xs) < 2 ^ 63) :
    p.budget.2.toInt = exactBudget xs := by
  have hcount := h.count_eq
  have hcap : sampleCap = 32 := rfl
  have hmin : minSamples = 4 := rfl
  rw [h.cached.budget_eq]
  unfold exactBudget
  by_cases hfew : xs.length < minSamples
  · rw [if_pos hfew, if_pos (by omega)]
    rfl
  rw [if_neg hfew, if_neg (by omega)]
  obtain ⟨w, hwindow, hlength, hperm⟩ := h.window_eq
  have hw : Samples w := by
    refine ⟨by omega, by omega, fun x hx => ?_⟩
    exact lastSamples_range xs x (hperm.mem_iff.mp hx)
  have hdev : deviations w < 2 ^ 63 := by
    rw [deviations_perm hperm]
    exact hfit (not_lt.mp hfew)
  obtain ⟨hmu, hsigma⟩ := recompute_spec hw hwindow hlength hdev (by omega)
  obtain ⟨hmean, hmeanmax⟩ := hw.mean_bounds
  have hroot : sigmaOf w < 2 ^ 32 := by
    have hvariance : deviations w / w.length ≤ deviations w :=
      Int.ediv_le_self _ (Samples.deviations_nonneg w)
    have hsqrt : (deviations w / w.length).toNat.sqrt < 2 ^ 32 := Nat.sqrt_lt.mpr (by omega)
    unfold sigmaOf
    omega
  rw [hmu, hsigma, tolerance_spec hmean hmeanmax (by unfold sigmaOf; omega) hroot,
    meanOf_perm hperm, sigmaOf_perm hperm]

end Holds

/-! ## Runs of a record -/

/-- In every run of calls on one record, with samples of any `uint32`, every budget is exact, if the
squared deviations fit whenever the budget is asked for. -/
theorem budgets_exact (calls : List TimingCall) (r : Recorder)
    (h : Run Recorder.step Unwrapped Recorder.start calls r) : BudgetsExact r := by
  have hstart : Holds Recorder.start.subject Recorder.start.samples ∧ BudgetsExact Recorder.start :=
    ⟨Holds.start, nofun⟩
  refine (h.invariant (I := fun r => Holds r.subject r.samples ∧ BudgetsExact r) hstart ?_).2
  rintro r call r' ⟨hholds, hexact⟩ hok hstep
  cases call with
  | record rttUS nowNS =>
    cases hstep
    exact ⟨hholds.record rttUS nowNS, hexact⟩
  | budget =>
    cases hstep
    refine ⟨hholds.of_alike hholds.cached.budget, fun b hb => ?_⟩
    rcases List.mem_cons.mp hb with rfl | hb
    · exact hholds.budget_exact hok
    · exact hexact b hb
  | ats =>
    cases hstep
    exact ⟨hholds.of_alike hholds.cached.ats, hexact⟩

instance (r : Recorder) : (call : TimingCall) → Decidable (Unwrapped r call)
  | .record _ _ => isTrue trivial
  | .budget => inferInstanceAs (Decidable (_ → _))
  | .ats => isTrue trivial

/-- Four samples of about 300 ms, with a look at the score between them. -/
def nearCalls : List TimingCall :=
  [.record 300000 1, .record 310000 2, .ats, .record 290000 3, .record 300000 4, .budget]

theorem budgets_exact_near :
    ∃ r, Run Recorder.step Unwrapped Recorder.start nearCalls r ∧ r.budgets.length = 1 ∧
      BudgetsExact r := by
  have hcheck : ∃ r, Run Recorder.step Unwrapped Recorder.start nearCalls r ∧
      decide (r.budgets.length = 1) = true := run_of_guarded_check (by decide +kernel)
  obtain ⟨r, hrun, hr⟩ := hcheck
  exact ⟨r, hrun, of_decide_eq_true hr, budgets_exact nearCalls r hrun⟩

/-- Three samples of no time and the largest one. -/
def farSamples : List UInt32 := [0, 0, 0, 4294967295]

/-- The sum of the squares wraps around to a negative number: the deviation counts as 0, and the
budget is the mean. -/
theorem far_samples_wrap :
    ∃ r, AnyRun Recorder.step Recorder.start
        (farSamples.map (fun x => .record x 0) ++ [.budget]) r ∧ ¬ BudgetsExact r := by
  have hcheck : ∃ r, AnyRun Recorder.step Recorder.start
      (farSamples.map (fun x => .record x 0) ++ [.budget]) r ∧
      decide (r.budgets = [(farSamples, 1073741823)]) = true := run_of_check (by decide +kernel)
  obtain ⟨r, hrun, hr⟩ := hcheck
  have hbudgets := of_decide_eq_true hr
  refine ⟨r, hrun, fun hexact => ?_⟩
  have heq : (1073741823 : Int64).toInt = exactBudget farSamples :=
    hexact (farSamples, 1073741823) (by rw [hbudgets]; exact List.mem_cons_self)
  have hmean : meanOf (lastSamples farSamples) = 1073741823 := by decide
  have hsigma : 0 < sigmaOf (lastSamples farSamples) := by
    have hvariance : 0 < (deviations (lastSamples farSamples) /
      (lastSamples farSamples).length).toNat := by decide
    have hsqrt := Nat.sqrt_pos.mpr hvariance
    unfold sigmaOf
    omega
  unfold exactBudget at heq
  rw [if_neg (by decide)] at heq
  dsimp only at heq
  rw [hmean] at heq
  have hvalue : (1073741823 : Int64).toInt = 1073741823 := by decide
  rw [hvalue] at heq
  split at heq
  · omega
  · omega

end ZaqorinCore.Agent.Timing
