import ZaqorinCore.Text.Bytes

/-!
# Decimal numerals

`itoa` is Python's `str(n)` and Go's `strconv.Itoa(n)`; `padded` is the zero-padded
rendering of `%0wd`. The results say what a separator-joined text needs to know: the
rendering is injective, and nothing but ASCII digits and a leading minus occurs in it.
-/

namespace ZaqorinCore.Text

/-- `str(n)` for a Python `int`, `strconv.Itoa(n)` for a Go `int`. -/
def itoa : Int → Str
  | .ofNat n => Nat.toDigits 10 n
  | .negSucc n => '-' :: Nat.toDigits 10 (n + 1)

theorem toDigits_injective {m n : Nat} (h : Nat.toDigits 10 m = Nat.toDigits 10 n) : m = n := by
  have := congrArg (Nat.ofDigitChars 10 · 0) h
  simpa only [Nat.ofDigitChars_ten_toDigits] using this

theorem isDigit_of_mem_toDigits {n : Nat} {c : Char} (h : c ∈ Nat.toDigits 10 n) :
    c.isDigit = true := Nat.isDigit_of_mem_toDigits (by omega) (by omega) h

theorem minus_not_mem_toDigits (n : Nat) : '-' ∉ Nat.toDigits 10 n := by
  intro h
  have := isDigit_of_mem_toDigits h
  exact absurd this (by decide)

theorem itoa_injective {m n : Int} (h : itoa m = itoa n) : m = n := by
  cases m with
  | ofNat m =>
    cases n with
    | ofNat n => exact congrArg Int.ofNat (toDigits_injective h)
    | negSucc n =>
      have hmem : '-' ∈ itoa (.ofNat m) := by rw [h]; exact List.mem_cons_self
      exact absurd hmem (minus_not_mem_toDigits m)
  | negSucc m =>
    cases n with
    | ofNat n =>
      have hmem : '-' ∈ itoa (.ofNat n) := by rw [← h]; exact List.mem_cons_self
      exact absurd hmem (minus_not_mem_toDigits n)
    | negSucc n =>
      have := toDigits_injective (List.cons.inj h).2
      exact congrArg Int.negSucc (by omega)

/-- A character of a decimal numeral is a digit or the minus sign. -/
theorem mem_itoa {n : Int} {c : Char} (h : c ∈ itoa n) : c.isDigit = true ∨ c = '-' := by
  cases n with
  | ofNat n => exact Or.inl (isDigit_of_mem_toDigits h)
  | negSucc n =>
    rcases List.mem_cons.mp h with rfl | h
    · exact Or.inr rfl
    · exact Or.inl (isDigit_of_mem_toDigits h)

theorem isDigit_toNat {c : Char} (h : c.isDigit = true) : 48 ≤ c.toNat ∧ c.toNat ≤ 57 := by
  simp only [Char.isDigit, Bool.and_eq_true, decide_eq_true_eq, ge_iff_le] at h
  exact ⟨h.1, h.2⟩

theorem mem_itoa_toNat {n : Int} {c : Char} (h : c ∈ itoa n) : 45 ≤ c.toNat ∧ c.toNat ≤ 57 := by
  rcases mem_itoa h with hd | rfl
  · have := isDigit_toNat hd
    omega
  · decide

theorem utf8_itoa_injective {m n : Int} (h : utf8 (itoa m) = utf8 (itoa n)) : m = n :=
  itoa_injective (utf8_injective h)

/-! ## Fixed-width numerals -/

/-- The last `w` decimal digits of `n`, as `%0wd` renders a number below `10 ^ w`. -/
def padded : Nat → Nat → Str
  | 0, _ => []
  | w + 1, n => padded w (n / 10) ++ [Nat.digitChar (n % 10)]

theorem padded_length (w n : Nat) : (padded w n).length = w := by
  induction w generalizing n with
  | zero => rfl
  | succ w ih => rw [padded, List.length_append, ih, List.length_singleton]

theorem digitChar_isDigit {d : Nat} (h : d < 10) : (Nat.digitChar d).isDigit = true := by
  interval_cases d <;> decide

theorem mem_padded {w n : Nat} {c : Char} (h : c ∈ padded w n) : c.isDigit = true := by
  induction w generalizing n with
  | zero => exact absurd h (List.not_mem_nil)
  | succ w ih =>
    rcases List.mem_append.mp h with h | h
    · exact ih h
    · rw [List.mem_singleton.mp h]
      exact digitChar_isDigit (Nat.mod_lt _ (by omega))

end ZaqorinCore.Text
