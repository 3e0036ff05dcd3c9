import ZaqorinCore.Text.Decimal
import ZaqorinCore.Text.Unicode

/-!
# Floating-point numbers

Python's `float`: the value of a binary64 number is a rational, an infinity or not a number, and
`float(s)` and `float(n)` round to the nearest of them. The result that the matcher needs is that
a numeral and the integer it writes are the same `float`: `pyFloat_itoa`.
-/

namespace ZaqorinCore.Text

/-- The value of a `float`; the sign of a zero is not kept. -/
inductive Double
  | nan
  | negInf
  | fin (q : ℚ)
  | inf
  deriving DecidableEq

namespace Double

/-- `a == b`. -/
def eq : Double → Double → Bool
  | .fin p, .fin q => p = q
  | .inf, .inf => true
  | .negInf, .negInf => true
  | _, _ => false

/-- `a < b`. -/
def lt : Double → Double → Bool
  | .fin p, .fin q => p < q
  | .negInf, .fin _ => true
  | .negInf, .inf => true
  | .fin _, .inf => true
  | _, _ => false

/-- `a >= b`. -/
def ge (a b : Double) : Bool := b.lt a || a.eq b

end Double

/-! ## Rounding -/

/-- The nearest integer, the even one of two. -/
def roundHalfEven (q : ℚ) : Int :=
  let n := ⌊q⌋
  let d := q - n
  if d < 1 / 2 then n else if 1 / 2 < d then n + 1 else if n % 2 = 0 then n else n + 1

/-- The nearest binary64 number; a value too large for one is an infinity. -/
def toDouble (q : ℚ) : Double :=
  let e := max (Int.log 2 |q| - 52) (-1074)
  let x := (roundHalfEven (q / 2 ^ e) : ℚ) * 2 ^ e
  if |x| < 2 ^ 1024 then .fin x else if q < 0 then .negInf else .inf

/-- `float(n)`; `none` is an `OverflowError`. -/
def floatOfInt (n : Int) : Option Double :=
  match toDouble n with
  | .fin x => some (.fin x)
  | _ => none

/-! ## Numerals -/

/-- The text without its underscores, each of which has to stand between two digits. The first
argument says whether the last character was a digit. -/
def dropUnderscores : Bool → Str → Option Str
  | _, [] => some []
  | digit, c :: rest =>
    if c = '_' then
      if digit && (rest.head?.any Char.isDigit) then dropUnderscores false rest else none
    else (dropUnderscores c.isDigit rest).map (c :: ·)

/-- The exponent of a numeral, with nothing after it. -/
def readExponent : Str → Option Int
  | [] => some 0
  | c :: rest =>
    if c = 'e' ∨ c = 'E' then
      let (negative, digits) := match rest with
        | '+' :: ds => (false, ds)
        | '-' :: ds => (true, ds)
        | _ => (false, rest)
      if digits ≠ [] ∧ digits.all Char.isDigit then
        some (if negative then -(Nat.ofDigitChars 10 digits 0 : Int)
          else Nat.ofDigitChars 10 digits 0)
      else none
    else none

/-- A numeral without a sign: digits, a fraction and an exponent. -/
def readDecimal (s : Str) : Option ℚ :=
  let whole := s.takeWhile Char.isDigit
  let rest := s.dropWhile Char.isDigit
  let (frac, rest) := match rest with
    | '.' :: r => (r.takeWhile Char.isDigit, r.dropWhile Char.isDigit)
    | _ => ([], rest)
  if whole = [] ∧ frac = [] then none
  else (readExponent rest).map fun e : Int =>
    (Nat.ofDigitChars 10 (whole ++ frac) 0 : ℚ) * 10 ^ (e - frac.length)

/-- A leading sign, and whether it is a minus. -/
def splitSign : Str → Bool × Str
  | '+' :: rest => (false, rest)
  | '-' :: rest => (true, rest)
  | s => (false, s)

/-- What follows the sign: a numeral, or `inf`, `infinity` or `nan` in letters of either case. -/
def readUnsigned (negative : Bool) (s : Str) : Option Double :=
  let word := s.map Char.toLower
  if word = "nan".toList then some .nan
  else if word = "inf".toList ∨ word = "infinity".toList then
    some (if negative then .negInf else .inf)
  else (readDecimal s).map fun q => toDouble (if negative then -q else q)

/-- `float(s)`; `none` is a `ValueError`. -/
def pyFloat (s : Str) : Option Double :=
  let s := if s.all (fun c => c.toNat < 128) then s else s.map asciiImage
  let s := s.dropWhile asciiSpace
  let s := (s.reverse.dropWhile asciiSpace).reverse
  (dropUnderscores false s).bind fun s => readUnsigned (splitSign s).1 (splitSign s).2

/-! ## The numeral of an integer -/

theorem dropUnderscores_of_not_mem {s : Str} (h : '_' ∉ s) (digit : Bool) :
    dropUnderscores digit s = some s := by
  induction s generalizing digit with
  | nil => rfl
  | cons c s ih =>
    have hc : c ≠ '_' := fun hc => h (hc ▸ List.mem_cons_self)
    rw [dropUnderscores, if_neg hc, ih (fun hm => h (List.mem_cons_of_mem _ hm)), Option.map_some]

theorem dropWhile_of_none {α : Type} {p : α → Bool} {s : List α} (h : ∀ a ∈ s, p a = false) :
    s.dropWhile p = s := by
  cases s with
  | nil => rfl
  | cons a s => rw [List.dropWhile_cons, if_neg (by simp [h a List.mem_cons_self])]

theorem itoa_not_space {n : Int} {c : Char} (h : c ∈ itoa n) : asciiSpace c = false := by
  have := mem_itoa_toNat h
  simp only [asciiSpace, Bool.or_eq_false_iff, Bool.and_eq_false_iff, decide_eq_false_iff_not,
    beq_eq_false_iff_ne]
  omega

theorem toLower_of_isDigit {c : Char} (h : c.isDigit = true) : c.toLower = c := by
  have hrange := isDigit_toNat h
  unfold Char.toLower
  split
  · rename_i hupper
    have : (65 : Nat) ≤ c.toNat := hupper.1
    omega
  · rfl

theorem splitSign_of_isDigit {c : Char} (h : c.isDigit = true) (s : Str) :
    splitSign (c :: s) = (false, c :: s) := by
  unfold splitSign
  split
  · rename_i heq
    cases heq
    exact absurd h (by decide)
  · rename_i heq
    cases heq
    exact absurd h (by decide)
  · rfl

theorem readDecimal_digits {ds : Str} (hne : ds ≠ []) (h : ∀ c ∈ ds, c.isDigit = true) :
    readDecimal ds = some (Nat.ofDigitChars 10 ds 0 : ℚ) := by
  have htake : ds.takeWhile Char.isDigit = ds := List.takeWhile_eq_self_iff.mpr h
  have hdrop : ds.dropWhile Char.isDigit = [] := List.dropWhile_eq_nil_iff.mpr h
  simp only [readDecimal, htake, hdrop]
  rw [if_neg (fun hnil => hne hnil.1)]
  simp [readExponent]

theorem readUnsigned_digits {ds : Str} (hne : ds ≠ []) (h : ∀ c ∈ ds, c.isDigit = true)
    (negative : Bool) : readUnsigned negative ds =
      some (toDouble (if negative then -(Nat.ofDigitChars 10 ds 0 : ℚ)
        else Nat.ofDigitChars 10 ds 0)) := by
  -- the first character is a digit, and no word starts with one
  have hword : ∀ c w, c.isDigit = false → ds.map Char.toLower ≠ c :: w := by
    intro c w hc heq
    obtain ⟨d, rest, hcons⟩ := List.exists_cons_of_ne_nil hne
    have hd : d.isDigit = true := h d (hcons ▸ List.mem_cons_self)
    rw [hcons, List.map_cons, toLower_of_isDigit hd] at heq
    rw [(List.cons.inj heq).1, hc] at hd
    cases hd
  have hnan : ds.map Char.toLower ≠ "nan".toList := hword 'n' "an".toList (by decide)
  have hinf : ds.map Char.toLower ≠ "inf".toList := hword 'i' "nf".toList (by decide)
  have hinfinity : ds.map Char.toLower ≠ "infinity".toList := hword 'i' "nfinity".toList (by decide)
  unfold readUnsigned
  dsimp only
  rw [if_neg hnan, if_neg (not_or.mpr ⟨hinf, hinfinity⟩), readDecimal_digits hne h,
    Option.map_some]

theorem toDigits_ne_nil (n : Nat) : Nat.toDigits 10 n ≠ [] := by
  intro h
  have := Nat.length_toDigits_pos (b := 10) (n := n)
  rw [h] at this
  simp at this

/-- The numeral of an integer is read as that integer. -/
theorem pyFloat_itoa (n : Int) : pyFloat (itoa n) = some (toDouble n) := by
  have hascii : (itoa n).all (fun c => c.toNat < 128) = true := by
    rw [List.all_eq_true]
    intro c hc
    have := mem_itoa_toNat hc
    simp only [decide_eq_true_eq]
    omega
  have hunderscore : '_' ∉ itoa n := by
    intro h
    have := mem_itoa_toNat h
    exact absurd this (by decide)
  have hdigits (k : Nat) : ∀ c ∈ Nat.toDigits 10 k, c.isDigit = true :=
    fun c hc => isDigit_of_mem_toDigits hc
  unfold pyFloat
  simp only [hascii, if_true]
  rw [dropWhile_of_none (fun c hc => itoa_not_space hc),
    dropWhile_of_none (fun c hc => itoa_not_space (List.mem_reverse.mp hc)), List.reverse_reverse,
    dropUnderscores_of_not_mem hunderscore, Option.bind_some]
  cases n with
  | ofNat k =>
    obtain ⟨c, ds, hcons⟩ := List.exists_cons_of_ne_nil (toDigits_ne_nil k)
    have hc : c.isDigit = true := hdigits k c (hcons ▸ List.mem_cons_self)
    have hsign : splitSign (itoa (.ofNat k)) = (false, Nat.toDigits 10 k) := by
      rw [itoa, hcons, splitSign_of_isDigit hc]
    rw [hsign, readUnsigned_digits (toDigits_ne_nil k) (hdigits k), Nat.ofDigitChars_ten_toDigits]
    simp
  | negSucc k =>
    have hsign : splitSign (itoa (.negSucc k)) = (true, Nat.toDigits 10 (k + 1)) := rfl
    rw [hsign, readUnsigned_digits (toDigits_ne_nil _) (hdigits _), Nat.ofDigitChars_ten_toDigits]
    simp [Int.negSucc_eq]

/-- An integer that has a `float` is the `float` of its numeral. -/
theorem pyFloat_of_floatOfInt {n : Int} {x : Double} (h : floatOfInt n = some x) :
    pyFloat (itoa n) = some x := by
  rw [pyFloat_itoa]
  unfold floatOfInt at h
  split at h
  · rename_i y hy
    rw [hy, h]
  · cases h

end ZaqorinCore.Text
