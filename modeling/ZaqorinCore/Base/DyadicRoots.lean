import Mathlib

/-!
# Small square roots modulo a power of two

Two odd numbers whose squares agree modulo `2 ^ (m + 1)` agree modulo `2 ^ m` up to the sign. One
root of a number therefore tells all others, and that a number has no root below a bound is checked
by one multiplication: `rootless`, `rootless_sound`.
-/

namespace ZaqorinCore.Base

/-- Half a power of two divides one of two numbers of which the sum is odd and the product is
divisible by the power. -/
theorem dvd_or_dvd_of_odd_add {u v : Int} {m : Nat} (hodd : Odd (u + v))
    (hdvd : (2 : Int) ^ m ∣ u * v) : (2 : Int) ^ m ∣ u ∨ (2 : Int) ^ m ∣ v := by
  rcases Int.even_or_odd u with hu | hu
  · have hv : Odd v := by
      by_contra hv
      have hodd' : Odd u := (Int.odd_add.mp hodd).mpr (Int.not_odd_iff_even.mp hv)
      exact Int.not_odd_iff_even.mpr hu hodd'
    left
    have hcoprime : IsCoprime ((2 : Int) ^ m) v := (Int.isCoprime_two_left.mpr hv).pow_left
    exact hcoprime.dvd_of_dvd_mul_right hdvd
  · right
    have hcoprime : IsCoprime ((2 : Int) ^ m) u := (Int.isCoprime_two_left.mpr hu).pow_left
    exact hcoprime.dvd_of_dvd_mul_left hdvd

/-- Odd roots modulo `2 ^ (m + 2)` agree modulo `2 ^ (m + 1)` up to the sign. -/
theorem root_unique {r z : Int} {m : Nat} (hr : Odd r) (hz : Odd z)
    (h : (2 : Int) ^ (m + 2) ∣ r * r - z * z) :
    (2 : Int) ^ (m + 1) ∣ r - z ∨ (2 : Int) ^ (m + 1) ∣ r + z := by
  obtain ⟨u, hu⟩ : ∃ u, r - z = 2 * u := (hr.sub_odd hz).two_dvd
  obtain ⟨v, hv⟩ : ∃ v, r + z = 2 * v := (hr.add_odd hz).two_dvd
  have hsum : u + v = r := by omega
  have hproduct : r * r - z * z = 4 * (u * v) := by
    have : r * r - z * z = (r - z) * (r + z) := by ring
    rw [this, hu, hv]
    ring
  have hhalf : (2 : Int) ^ m ∣ u * v := by
    rw [hproduct, pow_add, mul_comm] at h
    exact Int.dvd_of_mul_dvd_mul_left (by decide : (4 : Int) ≠ 0) h
  rw [pow_succ, mul_comm, hu, hv]
  exact (dvd_or_dvd_of_odd_add (hsum ▸ hr) hhalf).imp (mul_dvd_mul_left 2) (mul_dvd_mul_left 2)

/-- A candidate for a root of `a`: six rounds of Newton's method for the root of the inverse, which
double the digits that are right. -/
def rootCandidate (bits a : Nat) : Nat :=
  let modulus := 2 ^ (bits + 4)
  let refine := fun x => x * ((3 + modulus - a * x * x % modulus) / 2) % modulus
  a * refine (refine (refine (refine (refine (refine 1)))))

/-- Checks that no number below `bound` has a square that is `a` modulo `2 ^ bits`; the first
argument bounds the factors 4 of `a`. -/
def rootless : Nat → Nat → Nat → Nat → Bool
  | 0, _, _, _ => false
  | k + 1, bits, a, bound =>
    if a % 4 = 0 then 2 ≤ bits && rootless k (bits - 2) (a / 4) ((bound + 1) / 2)
    else if a % 8 = 1 then
      let r := rootCandidate bits a % 2 ^ (bits - 1)
      2 ≤ bits && r * r % 2 ^ bits == a % 2 ^ bits && bound ≤ r && r + bound ≤ 2 ^ (bits - 1)
    else 3 ≤ bits

/-- One odd root tells that no root is below a bound. -/
theorem le_root {r z a bound m : Nat} (ha : a % 2 = 1) (hr : r * r ≡ a [MOD 2 ^ (m + 2)])
    (hz : z * z ≡ a [MOD 2 ^ (m + 2)]) (hlow : bound ≤ r) (hhigh : r + bound ≤ 2 ^ (m + 1)) :
    bound ≤ z := by
  have htwo : 2 ∣ 2 ^ (m + 2) := dvd_pow_self 2 (by omega)
  have odd_of : ∀ {x : Nat}, x * x ≡ a [MOD 2 ^ (m + 2)] → Odd (x : Int) := by
    intro x hx
    have hmod : x * x % 2 = a % 2 := hx.of_dvd htwo
    rw [ha] at hmod
    exact_mod_cast (Nat.odd_mul.mp (Nat.odd_iff.mpr hmod)).1
  have hdvd : (2 : Int) ^ (m + 2) ∣ (r : Int) * r - z * z := by
    have := (Nat.modEq_iff_dvd.mp (hz.trans hr.symm))
    exact_mod_cast this
  have hpower : ((2 ^ (m + 1) : Nat) : Int) = (2 : Int) ^ (m + 1) := by push_cast; rfl
  by_contra hsmall
  rcases root_unique (odd_of hr) (odd_of hz) hdvd with h | h
  · have := Int.le_of_dvd (by omega) h
    omega
  · obtain ⟨t, ht⟩ := odd_of hz
    have := Int.le_of_dvd (by omega) h
    omega

theorem rootless_sound {k bits a bound z : Nat} (h : rootless k bits a bound = true)
    (hz : z * z ≡ a [MOD 2 ^ bits]) : bound ≤ z := by
  induction k generalizing bits a bound z with
  | zero => cases h
  | succ k ih =>
    unfold rootless at h
    split at h
    · rename_i hfour
      rw [Bool.and_eq_true, decide_eq_true_eq] at h
      obtain ⟨hbits, hrest⟩ := h
      obtain ⟨b, rfl⟩ : ∃ b, bits = b + 2 := ⟨bits - 2, by omega⟩
      have hsquare : z * z % 4 = 0 := by
        rw [← hfour]
        exact hz.of_dvd ⟨2 ^ b, by ring⟩
      obtain ⟨w, rfl⟩ : 2 ∣ z := by
        by_contra hodd
        obtain ⟨t, rfl⟩ : ∃ t, z = 2 * t + 1 := ⟨z / 2, by omega⟩
        have : (2 * t + 1) * (2 * t + 1) = 4 * (t * t + t) + 1 := by ring
        omega
      have hw : w * w ≡ a / 4 [MOD 2 ^ b] := by
        apply Nat.ModEq.mul_left_cancel' (c := 4) (by decide)
        have hleft : 4 * (w * w) = 2 * w * (2 * w) := by ring
        have hright : 4 * (a / 4) = a := by omega
        have hmodulus : 4 * 2 ^ b = 2 ^ (b + 2) := by ring
        rwa [hleft, hright, hmodulus]
      have := ih hrest hw
      omega
    · rename_i hfour
      split at h
      · rename_i height
        simp only [Bool.and_eq_true, decide_eq_true_eq, beq_iff_eq] at h
        obtain ⟨⟨⟨hbits, hroot⟩, hlow⟩, hhigh⟩ := h
        obtain ⟨m, rfl⟩ : ∃ m, bits = m + 2 := ⟨bits - 2, by omega⟩
        exact le_root (by omega) hroot hz hlow hhigh
      · rename_i height
        have hbits : 3 ≤ bits := of_decide_eq_true h
        have hmod : z * z % 8 = a % 8 := hz.of_dvd (pow_dvd_pow 2 hbits)
        have hresidue : z * z % 8 = 0 ∨ z * z % 8 = 1 ∨ z * z % 8 = 4 := by
          have hz8 : z % 8 < 8 := Nat.mod_lt _ (by decide)
          rw [Nat.mul_mod]
          interval_cases z % 8 <;> simp
        omega

end ZaqorinCore.Base
