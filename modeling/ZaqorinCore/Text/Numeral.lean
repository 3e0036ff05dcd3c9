import ZaqorinCore.Text.Float
import ZaqorinCore.Text.Time

/-!
# Plain numerals and their readers

A plain numeral is what `itoa` renders a natural number to: ASCII digits without a superfluous
leading zero. Python's `int` and Go's `strconv.Atoi` both read it, and both read more than that.
-/

namespace ZaqorinCore.Text

/-! ## Plain numerals -/

/-- ASCII digits, the first of them no zero unless it is the only one. -/
def plainNumeral (p : Str) : Bool :=
  p != [] && p.all Char.isDigit && (p.head? != some '0' || p.length == 1)

theorem plainNumeral_iff {p : Str} : plainNumeral p = true ↔
    p ≠ [] ∧ (∀ c ∈ p, c.isDigit = true) ∧ (p.head? = some '0' → p.length = 1) := by
  simp only [plainNumeral, Bool.and_eq_true, bne_iff_ne, ne_eq, List.all_eq_true, Bool.or_eq_true,
    beq_iff_eq, imp_iff_not_or, and_assoc]

theorem digitChar_of_isDigit {c : Char} (h : c.isDigit = true) :
    Nat.digitChar (c.toNat - 48) = c := by
  have hc := isDigit_toNat h
  have hten : c.toNat - 48 < 10 := by omega
  apply Char.toNat_inj.mp
  rw [Nat.toNat_digitChar_of_lt_ten hten]
  omega

/-- A nonempty text of digits whose first is no zero has a positive value, and is its numeral. -/
theorem toDigits_ofDigitChars {p : Str} (hne : p ≠ []) (hdigits : ∀ c ∈ p, c.isDigit = true)
    (hhead : p.head? ≠ some '0') :
    0 < Nat.ofDigitChars 10 p 0 ∧ Nat.toDigits 10 (Nat.ofDigitChars 10 p 0) = p := by
  -- the last digit is split off, as `toDigits` does
  induction p using List.reverseRecOn with
  | nil => exact absurd rfl hne
  | append_singleton q c ih =>
    have hc : c.isDigit = true := hdigits c (by simp)
    have hten : c.toNat - 48 < 10 := by
      have := isDigit_toNat hc
      omega
    have hvalue : Nat.ofDigitChars 10 (q ++ [c]) 0 =
        10 * Nat.ofDigitChars 10 q 0 + (c.toNat - 48) := by
      rw [Nat.ofDigitChars_append, Nat.ofDigitChars_cons, Nat.ofDigitChars_nil]
      rfl
    rw [hvalue]
    by_cases hq : q = []
    · subst hq
      have hpos : 0 < c.toNat - 48 := by
        by_contra hzero
        have hchar : c = '0' := by
          rw [← digitChar_of_isDigit hc, Nat.digitChar_eq_zero]
          omega
        exact hhead (by simp [hchar])
      simp only [Nat.ofDigitChars_nil, Nat.mul_zero, Nat.zero_add]
      refine ⟨hpos, ?_⟩
      rw [Nat.toDigits_of_lt_base hten, digitChar_of_isDigit hc]
      rfl
    · have hqhead : q.head? ≠ some '0' := by
        intro h
        apply hhead
        rw [List.head?_append, h]
        rfl
      obtain ⟨hpos, htext⟩ := ih hq (fun d hd => hdigits d (by simp [hd])) hqhead
      refine ⟨by omega, ?_⟩
      rw [← Nat.toDigits_append_toDigits (by decide) hpos hten, htext,
        Nat.toDigits_of_lt_base hten, digitChar_of_isDigit hc]

theorem head?_toDigits {n : Nat} (h : (Nat.toDigits 10 n).head? = some '0') : n = 0 := by
  induction n using Nat.strongRecOn with
  | ind n ih =>
    by_cases hn : n < 10
    · rw [Nat.toDigits_of_lt_base hn] at h
      simpa using h
    · rw [Nat.toDigits_of_base_le (by decide) (by omega), List.head?_append_of_ne_nil _
        Nat.toDigits_ne_nil] at h
      have := ih (n / 10) (by omega) h
      omega

/-- The plain numerals are the renderings of the natural numbers. -/
theorem plainNumeral_iff_toDigits {p : Str} :
    plainNumeral p = true ↔ ∃ n, p = Nat.toDigits 10 n := by
  rw [plainNumeral_iff]
  constructor
  · rintro ⟨hne, hdigits, hzero⟩
    by_cases hhead : p.head? = some '0'
    · obtain ⟨c, rfl⟩ := List.length_eq_one_iff.mp (hzero hhead)
      refine ⟨0, ?_⟩
      simpa using hhead
    · exact ⟨_, (toDigits_ofDigitChars hne hdigits hhead).2.symm⟩
  · rintro ⟨n, rfl⟩
    refine ⟨Nat.toDigits_ne_nil, fun c hc => isDigit_of_mem_toDigits hc, ?_⟩
    intro hhead
    rw [head?_toDigits hhead]
    rfl

/-! ## Python's reading -/

theorem readDigits_digits {ds : Str} (h : ∀ c ∈ ds, c.isDigit = true) (n k : Nat) :
    readDigits true n k ds = some (Nat.ofDigitChars 10 ds n, k + ds.length, []) := by
  induction ds generalizing n k with
  | nil => simp [readDigits]
  | cons c ds ih =>
    have hc : c.isDigit = true := h c List.mem_cons_self
    have hvalue : n * 10 + (c.toNat - 48) = 10 * n + (c.toNat - '0'.toNat) := by
      rw [Nat.mul_comm]
      rfl
    rw [readDigits, if_pos hc, ih fun d hd => h d (List.mem_cons_of_mem _ hd),
      Nat.ofDigitChars_cons, hvalue, List.length_cons, Nat.add_assoc, Nat.add_comm 1]

theorem not_asciiSpace_of_isDigit {c : Char} (h : c.isDigit = true) : asciiSpace c = false := by
  have hc := isDigit_toNat h
  simp only [asciiSpace, Bool.or_eq_false_iff, Bool.and_eq_false_iff, decide_eq_false_iff_not,
    beq_eq_false_iff_ne, ne_eq]
  omega

/-- A character that is no part of a numeral that `int` reads. -/
structure NoNumeral (c : Char) : Prop where
  ascii : c.toNat < 127
  digit : c.isDigit = false
  space : asciiSpace c = false
  underscore : c ≠ '_'
  plus : c ≠ '+'
  minus : c ≠ '-'

/-- What stops the digits is left over. -/
theorem mem_of_readDigits {c : Char} (hc : NoNumeral c) {ok : Bool} {n k : Nat} {s : Str}
    {r : Nat × Nat × Str} (h : readDigits ok n k s = some r) (hmem : c ∈ s) : c ∈ r.2.2 := by
  induction s generalizing ok n k with
  | nil => cases hmem
  | cons d rest ih =>
    rw [readDigits] at h
    split at h
    · rename_i hdigit
      rcases List.mem_cons.mp hmem with rfl | hmem
      · rw [hc.digit] at hdigit
        cases hdigit
      · exact ih h hmem
    · split at h
      · split at h
        · rename_i hunderscore
          rcases List.mem_cons.mp hmem with rfl | hmem
          · exact absurd hunderscore hc.underscore
          · exact ih h hmem
        · cases h
          exact hmem
      · cases h

theorem mem_dropWhile_space {c : Char} (hc : asciiSpace c = false) {s : Str} (h : c ∈ s) :
    c ∈ s.dropWhile asciiSpace := by
  rw [← List.takeWhile_append_dropWhile (p := asciiSpace) (l := s)] at h
  rcases List.mem_append.mp h with htaken | hleft
  · have hspace := List.mem_takeWhile_imp htaken
    rw [hc] at hspace
    cases hspace
  · exact hleft

/-- A text with such a character is no numeral. -/
theorem pyInt_of_noNumeral {c : Char} (hc : NoNumeral c) {s : Str} (h : c ∈ s) :
    pyInt s = none := by
  have himage : asciiImage c = c := if_pos hc.ascii
  have hmem : c ∈ (if s.all (fun c => c.toNat < 128) then s else s.map asciiImage) := by
    split
    · exact h
    · exact List.mem_map.mpr ⟨c, h, himage⟩
  unfold pyInt
  dsimp only
  generalize (if s.all (fun c => c.toNat < 128) then s else s.map asciiImage) = t at hmem ⊢
  have hleft := mem_dropWhile_space hc.space hmem
  -- the sign is another character
  have hsigned := mem_unsigned hc.plus hc.minus hleft
  split
  · rename_i n k rest hread
    have hrest := mem_of_readDigits hc hread hsigned
    rw [if_neg]
    simp only [Bool.and_eq_true, List.all_eq_true, not_and]
    intro hall
    have := hall c hrest
    rw [hc.space] at this
    cases this
  · rfl

/-- `int` of a text of digits. -/
theorem pyInt_digits {ds : Str} (hne : ds ≠ []) (h : ∀ c ∈ ds, c.isDigit = true) :
    pyInt ds = if ds.length ≤ 4300 then some (Nat.ofDigitChars 10 ds 0 : Int) else none := by
  obtain ⟨c, rest, rfl⟩ := List.exists_cons_of_ne_nil hne
  have hc : c.isDigit = true := h c List.mem_cons_self
  have hascii : (c :: rest).all (fun c => c.toNat < 128) = true := by
    rw [List.all_eq_true]
    intro d hd
    have := isDigit_toNat (h d hd)
    simp only [decide_eq_true_eq]
    omega
  have hspace : (c :: rest).dropWhile asciiSpace = c :: rest :=
    dropWhile_of_none fun d hd => not_asciiSpace_of_isDigit (h d hd)
  have hread : readDigits false 0 0 (c :: rest) =
      some (Nat.ofDigitChars 10 (c :: rest) 0, (c :: rest).length, []) := by
    have hfirst := readDigits_digits h 0 0
    rw [readDigits, if_pos hc] at hfirst
    rw [readDigits, if_pos hc, hfirst, Nat.zero_add]
  have hplus : c ≠ '+' := by
    rintro rfl
    exact absurd hc (by decide)
  have hminus : c ≠ '-' := by
    rintro rfl
    exact absurd hc (by decide)
  unfold pyInt
  simp only [hascii, if_true, hspace]
  simp [hplus, hminus, hread]

theorem pyInt_toDigits {n : Nat} (h : n ≤ 255) : pyInt (Nat.toDigits 10 n) = some (n : Int) := by
  have hlength : (Nat.toDigits 10 n).length ≤ 3 :=
    (Nat.length_toDigits_le_iff (by decide) (by decide)).mpr (by omega)
  rw [pyInt_digits Nat.toDigits_ne_nil (fun c hc => isDigit_of_mem_toDigits hc),
    if_pos (by omega), Nat.ofDigitChars_ten_toDigits]

/-- A plain numeral is the rendering of what `int` reads. -/
theorem toDigits_of_pyInt {p : Str} (hplain : plainNumeral p = true) {n : Nat}
    (h : pyInt p = some (n : Int)) : p = Nat.toDigits 10 n := by
  obtain ⟨m, rfl⟩ := plainNumeral_iff_toDigits.mp hplain
  rw [pyInt_digits Nat.toDigits_ne_nil (fun c hc => isDigit_of_mem_toDigits hc),
    Nat.ofDigitChars_ten_toDigits] at h
  split at h
  · have hmn : m = n := Int.ofNat.inj (Option.some.inj h)
    rw [hmn]
  · cases h

/-! ## Go's reading -/

/-- The digits of `strconv.Atoi`, without a sign. -/
def atoiDigits (s : Bytes) : Option Nat :=
  if s ≠ [] ∧ s.all isDigitByte then some (s.foldl (fun n b => n * 10 + digitOf b) 0) else none

/-- A leading sign, and whether it is a minus. -/
def goSign (s : Bytes) : Bool × Bytes :=
  if s.head? = some 43 then (false, s.tail)
  else if s.head? = some 45 then (true, s.tail)
  else (false, s)

/-- `strconv.Atoi`: one sign, decimal digits, a value of 64 bits. -/
def atoi (s : Bytes) : Option Int :=
  match atoiDigits (goSign s).2 with
  | none => none
  | some n =>
    let v : Int := if (goSign s).1 then -(n : Int) else n
    if -(2 ^ 63) ≤ v ∧ v < 2 ^ 63 then some v else none

theorem byte_toNat_of_isDigit {c : Char} (h : c.isDigit = true) :
    (UInt8.ofNat c.toNat).toNat = c.toNat := by
  have := isDigit_toNat h
  exact toNat_ofNat_byte (by omega)

theorem foldl_digitOf {ds : Str} (h : ∀ c ∈ ds, c.isDigit = true) (n : Nat) :
    (ds.map fun c => UInt8.ofNat c.toNat).foldl (fun n b => n * 10 + digitOf b) n =
      Nat.ofDigitChars 10 ds n := by
  induction ds generalizing n with
  | nil => simp
  | cons c ds ih =>
    have hc := byte_toNat_of_isDigit (h c List.mem_cons_self)
    have hvalue : n * 10 + digitOf (UInt8.ofNat c.toNat) = 10 * n + (c.toNat - '0'.toNat) := by
      rw [digitOf, hc, Nat.mul_comm]
      rfl
    rw [List.map_cons, List.foldl_cons, hvalue, ih fun d hd => h d (List.mem_cons_of_mem _ hd),
      Nat.ofDigitChars_cons]

theorem atoiDigits_digits {ds : Str} (hne : ds ≠ []) (h : ∀ c ∈ ds, c.isDigit = true) :
    atoiDigits (utf8 ds) = some (Nat.ofDigitChars 10 ds 0) := by
  have hascii : ∀ c ∈ ds, c.toNat < 128 := by
    intro c hc
    have := isDigit_toNat (h c hc)
    omega
  have hbytes : (ds.map fun c => UInt8.ofNat c.toNat).all isDigitByte = true := by
    rw [List.all_eq_true]
    intro b hb
    obtain ⟨c, hc, rfl⟩ := List.mem_map.mp hb
    have hdigit := isDigit_toNat (h c hc)
    simp only [isDigitByte, byte_toNat_of_isDigit (h c hc), Bool.and_eq_true, decide_eq_true_eq]
    exact hdigit
  rw [atoiDigits, utf8_of_ascii hascii, if_pos ⟨by simpa using hne, hbytes⟩, foldl_digitOf h]

/-- `strconv.Atoi` of a text of digits. -/
theorem atoi_digits {ds : Str} (hne : ds ≠ []) (h : ∀ c ∈ ds, c.isDigit = true) :
    atoi (utf8 ds) =
      if Nat.ofDigitChars 10 ds 0 < 2 ^ 63 then some (Nat.ofDigitChars 10 ds 0 : Int) else none := by
  have hdigits := atoiDigits_digits hne h
  obtain ⟨c, rest, rfl⟩ := List.exists_cons_of_ne_nil hne
  have hc : c.isDigit = true := h c List.mem_cons_self
  have hcons : utf8 (c :: rest) = UInt8.ofNat c.toNat :: utf8 rest := by
    have hchar : ∀ d ∈ [c], d.toNat < 128 := by
      intro d hd
      have := isDigit_toNat hc
      rw [List.mem_singleton.mp hd]
      omega
    rw [← List.singleton_append, utf8_append, utf8_of_ascii hchar]
    rfl
  have hsigns : ∀ b : UInt8, b.toNat < 48 → UInt8.ofNat c.toNat ≠ b := by
    intro b hb heq
    have hnat := byte_toNat_of_isDigit hc
    have := isDigit_toNat hc
    rw [heq] at hnat
    omega
  have hsign : goSign (utf8 (c :: rest)) = (false, utf8 (c :: rest)) := by
    rw [hcons, goSign, if_neg, if_neg]
    · simpa using hsigns 45 (by decide)
    · simpa using hsigns 43 (by decide)
  unfold atoi
  simp only [hsign, hdigits, Bool.false_eq_true, if_false]
  split <;> split <;> first | rfl | omega

theorem atoi_toDigits {n : Nat} (h : n ≤ 255) :
    atoi (utf8 (Nat.toDigits 10 n)) = some (n : Int) := by
  rw [atoi_digits Nat.toDigits_ne_nil (fun c hc => isDigit_of_mem_toDigits hc),
    Nat.ofDigitChars_ten_toDigits, if_pos (by omega)]

/-- A plain numeral is the rendering of what `strconv.Atoi` reads. -/
theorem toDigits_of_atoi {p : Str} (hplain : plainNumeral p = true) {n : Nat}
    (h : atoi (utf8 p) = some (n : Int)) : p = Nat.toDigits 10 n := by
  obtain ⟨m, rfl⟩ := plainNumeral_iff_toDigits.mp hplain
  rw [atoi_digits Nat.toDigits_ne_nil (fun c hc => isDigit_of_mem_toDigits hc),
    Nat.ofDigitChars_ten_toDigits] at h
  split at h
  · have hmn : m = n := Int.ofNat.inj (Option.some.inj h)
    rw [hmn]
  · cases h

end ZaqorinCore.Text
