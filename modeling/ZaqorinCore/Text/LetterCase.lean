import ZaqorinCore.Text.Unicode

/-!
# Letter case and digests

What the lowercase mappings of the two languages make of a text that is compared with a lowercase
digest. Outside of ASCII no character becomes a hexadecimal digit, so both read exactly the
spellings of a digest in ASCII letters of either case; the one character outside of ASCII that
becomes an ASCII character is the Kelvin sign.
-/

namespace ZaqorinCore.Text

/-! ## Runes of an encoded text -/

theorem contIn_eq_true {lo hi : Nat} {b : UInt8} :
    contIn lo hi b = true ↔ lo ≤ b.toNat ∧ b.toNat ≤ hi := by
  simp [contIn]

section

variable {a b c d : UInt8} {rest : Bytes}

theorem decodeRune_one (ha : a.toNat < 0x80) : decodeRune a rest = (a.toNat, 1) := by
  simp [decodeRune, ha]

theorem decodeRune_two (ha : 0xC2 ≤ a.toNat ∧ a.toNat ≤ 0xDF) (hb : contIn 0x80 0xBF b = true) :
    decodeRune a (b :: rest) = (a.toNat % 32 * 64 + b.toNat % 64, 2) := by
  have hrange : secondRange a.toNat = (0x80, 0xBF) := by
    unfold secondRange
    rw [if_neg (by omega), if_neg (by omega), if_neg (by omega), if_neg (by omega)]
  unfold decodeRune
  simp only [hrange]
  rw [if_neg (by omega), if_pos ha, if_pos hb]

theorem decodeRune_three (ha : 0xE0 ≤ a.toNat ∧ a.toNat ≤ 0xEF)
    (hb : contIn (secondRange a.toNat).1 (secondRange a.toNat).2 b = true)
    (hc : contIn 0x80 0xBF c = true) : decodeRune a (b :: c :: rest) =
      (a.toNat % 16 * 4096 + b.toNat % 64 * 64 + c.toNat % 64, 3) := by
  unfold decodeRune
  dsimp only
  rw [if_neg (by omega), if_neg (by omega), if_pos ha, hb, hc]
  rfl

theorem decodeRune_four (ha : 0xF0 ≤ a.toNat ∧ a.toNat ≤ 0xF4)
    (hb : contIn (secondRange a.toNat).1 (secondRange a.toNat).2 b = true)
    (hc : contIn 0x80 0xBF c = true) (hd : contIn 0x80 0xBF d = true) :
    decodeRune a (b :: c :: d :: rest) = (a.toNat % 8 * 262144 + b.toNat % 64 * 4096 +
      c.toNat % 64 * 64 + d.toNat % 64, 4) := by
  unfold decodeRune
  dsimp only
  rw [if_neg (by omega), if_neg (by omega), if_neg (by omega), if_pos ha, hb, hc, hd]
  rfl

end

theorem contIn_continuation (m : Nat) :
    contIn 0x80 0xBF (UInt8.ofNat (m % 0x40 + 0x80)) = true := by
  rw [contIn_eq_true, toNat_ofNat_byte (by omega)]
  omega

/-- Go reads back the characters that Python encodes. -/
theorem decodeRune_utf8 (c : Char) (rest : Bytes) : ∃ b tail,
    String.utf8EncodeChar c = b :: tail ∧
      decodeRune b (tail ++ rest) = (c.toNat, tail.length + 1) := by
  have hvalid : c.toNat < 0xD800 ∨ (0xDFFF < c.toNat ∧ c.toNat < 0x110000) := c.valid
  unfold String.utf8EncodeChar
  simp only [Char.toNat_val]
  generalize c.toNat = n at hvalid ⊢
  split
  · refine ⟨_, [], rfl, ?_⟩
    rw [decodeRune_one (by rw [toNat_ofNat_byte (by omega)]; omega), toNat_ofNat_byte (by omega)]
    rfl
  · split
    · refine ⟨_, [_], rfl, ?_⟩
      have hfirst := toNat_ofNat_byte (n := n / 64 % 0x20 + 0xc0) (by omega)
      rw [List.singleton_append, decodeRune_two (by omega) (contIn_continuation n), hfirst,
        toNat_ofNat_byte (by omega)]
      refine Prod.ext ?_ rfl
      dsimp only
      omega
    · split
      · refine ⟨_, [_, _], rfl, ?_⟩
        have hfirst := toNat_ofNat_byte (n := n / 4096 % 0x10 + 0xe0) (by omega)
        have hsecond : contIn (secondRange (n / 4096 % 0x10 + 0xe0)).1
            (secondRange (n / 4096 % 0x10 + 0xe0)).2
            (UInt8.ofNat (n / 64 % 0x40 + 0x80)) = true := by
          rw [contIn_eq_true, toNat_ofNat_byte (by omega)]
          unfold secondRange
          split_ifs <;> dsimp only <;> omega
        rw [List.cons_append, List.singleton_append,
          decodeRune_three (by omega) (by rw [hfirst]; exact hsecond) (contIn_continuation n),
          hfirst, toNat_ofNat_byte (by omega), toNat_ofNat_byte (by omega)]
        refine Prod.ext ?_ rfl
        dsimp only
        omega
      · refine ⟨_, [_, _, _], rfl, ?_⟩
        have hfirst := toNat_ofNat_byte (n := n / 262144 % 0x08 + 0xf0) (by omega)
        have hsecond : contIn (secondRange (n / 262144 % 0x08 + 0xf0)).1
            (secondRange (n / 262144 % 0x08 + 0xf0)).2
            (UInt8.ofNat (n / 4096 % 0x40 + 0x80)) = true := by
          rw [contIn_eq_true, toNat_ofNat_byte (by omega)]
          unfold secondRange
          split_ifs <;> dsimp only <;> omega
        rw [List.cons_append, List.cons_append, List.singleton_append,
          decodeRune_four (by omega) (by rw [hfirst]; exact hsecond)
            (contIn_continuation (n / 64)) (contIn_continuation n),
          hfirst, toNat_ofNat_byte (by omega), toNat_ofNat_byte (by omega),
          toNat_ofNat_byte (by omega)]
        refine Prod.ext ?_ rfl
        dsimp only
        omega

theorem runesFrom_skip (tail rest : Bytes) :
    runesFrom tail.length (tail ++ rest) = runesFrom 0 rest := by
  induction tail with
  | nil => rfl
  | cons b tail ih => exact ih

theorem runes_utf8_cons (c : Char) (s : Str) :
    runes (utf8 (c :: s)) = (c.toNat, utf8 [c]) :: runes (utf8 s) := by
  obtain ⟨b, tail, hencode, hdecode⟩ := decodeRune_utf8 c (utf8 s)
  have hone : utf8 [c] = b :: tail := by
    rw [utf8_cons, utf8_nil, List.append_nil, hencode]
  rw [hone, utf8_cons, hencode]
  unfold runes
  rw [List.cons_append, runesFrom, hdecode]
  dsimp only
  rw [Nat.add_sub_cancel, runesFrom_skip, ← List.cons_append]
  congr 2
  exact List.take_left' rfl

/-- A `for range` over an encoded text visits its characters. -/
theorem runes_utf8 (s : Str) : runes (utf8 s) = s.map fun c => (c.toNat, utf8 [c]) := by
  induction s with
  | nil => rfl
  | cons c s ih => rw [runes_utf8_cons, ih, List.map_cons]

/-! ## The lowercase mapping and ASCII -/

set_option maxRecDepth 4096 in
/-- Only the capital letters and the Kelvin sign have images in ASCII. -/
theorem lowerRuns_images : ∀ r ∈ lowerRuns, r = (65, 90, 1, 97) ∨ r = (8490, 8490, 1, 107) ∨
    (192 ≤ r.1 ∧ 128 ≤ r.2.2.2) := by
  decide +kernel

set_option maxRecDepth 4096 in
/-- No image is a surrogate. -/
theorem lowerRuns_scalars : ∀ r ∈ lowerRuns, r.2.2.2 + (r.2.1 - r.1) < 0xD800 ∨
    (0xDFFF < r.2.2.2 ∧ r.2.2.2 + (r.2.1 - r.1) < 0x110000) := by
  decide +kernel

theorem lowerRune_cases (n : Nat) :
    (lowerRune n = n ∧ ¬ (65 ≤ n ∧ n ≤ 90)) ∨ ∃ r ∈ lowerRuns, r.1 ≤ n ∧ n ≤ r.2.1 ∧
      lowerRune n = r.2.2.2 + (n - r.1) := by
  unfold lowerRune
  split
  · rename_i lo hi stride image hfind
    right
    have hin := List.find?_some hfind
    simp only [Bool.and_eq_true, decide_eq_true_eq] at hin
    exact ⟨_, List.mem_of_find?_eq_some hfind, hin.1.1, hin.1.2, rfl⟩
  · rename_i hfind
    refine Or.inl ⟨rfl, fun hcapital => ?_⟩
    have hnot := List.find?_eq_none.mp hfind (65, 90, 1, 97) (by decide +kernel)
    simp [hcapital, Nat.mod_one] at hnot

theorem lowerRune_of_lt {n : Nat} (hn : n < 128) :
    lowerRune n = if 65 ≤ n ∧ n ≤ 90 then n + 32 else n := by
  rcases lowerRune_cases n with ⟨hsame, hcapital⟩ | ⟨r, hr, hlo, hhi, himage⟩
  · rw [hsame, if_neg hcapital]
  · rcases lowerRuns_images r hr with rfl | rfl | ⟨hlarge, -⟩
    · rw [himage, if_pos ⟨hlo, hhi⟩]
      dsimp only at hlo ⊢
      omega
    · dsimp only at hlo
      omega
    · omega

theorem lowerRune_kelvin : lowerRune 8490 = 107 := by decide +kernel

theorem lowerRune_lt_iff {n : Nat} : lowerRune n < 128 ↔ n < 128 ∨ n = 8490 := by
  constructor
  · intro h
    rcases lowerRune_cases n with ⟨hsame, -⟩ | ⟨r, hr, hlo, hhi, himage⟩
    · omega
    · rcases lowerRuns_images r hr with rfl | rfl | ⟨-, hlarge⟩
      · dsimp only at hhi
        omega
      · dsimp only at hlo hhi
        omega
      · omega
  · rintro (h | rfl)
    · rw [lowerRune_of_lt h]
      split <;> omega
    · rw [lowerRune_kelvin]
      omega

theorem toNat_ofNat_lowerRune (c : Char) :
    (Char.ofNat (lowerRune c.toNat)).toNat = lowerRune c.toNat := by
  rw [Char.toNat_ofNat, if_pos]
  rcases lowerRune_cases c.toNat with ⟨hsame, -⟩ | ⟨r, hr, hlo, hhi, himage⟩
  · rw [hsame]
    exact c.valid
  · have hscalar := lowerRuns_scalars r hr
    rw [himage]
    show r.2.2.2 + (c.toNat - r.1) < 0xD800 ∨ (0xDFFF < r.2.2.2 + (c.toNat - r.1) ∧
      r.2.2.2 + (c.toNat - r.1) < 0x110000)
    omega

theorem isUpper_iff {c : Char} : c.isUpper = true ↔ 65 ≤ c.toNat ∧ c.toNat ≤ 90 := by
  simp [Char.isUpper, UInt32.le_iff_toNat_le]

theorem toNat_toLower (c : Char) :
    c.toLower.toNat = if 65 ≤ c.toNat ∧ c.toNat ≤ 90 then c.toNat + 32 else c.toNat := by
  by_cases h : 65 ≤ c.toNat ∧ c.toNat ≤ 90
  · have hvalid : (c.toNat + 32).isValidChar := Or.inl (by omega)
    rw [if_pos h, Char.toLower_eq_of_isUpper (isUpper_iff.mpr h), Char.toNat_ofNat, if_pos hvalid]
  · rw [if_neg h, Char.toLower_eq_of_not_isUpper fun hupper => h (isUpper_iff.mp hupper)]

/-- On ASCII the mapping is the ASCII one. -/
theorem ofNat_lowerRune {c : Char} (h : c.toNat < 128) :
    Char.ofNat (lowerRune c.toNat) = c.toLower := by
  apply Char.toNat_inj.mp
  rw [toNat_ofNat_lowerRune, lowerRune_of_lt h, toNat_toLower]

theorem mem_hexAlphabet_iff {c : Char} : c ∈ hexAlphabet ↔
    (48 ≤ c.toNat ∧ c.toNat ≤ 57) ∨ (97 ≤ c.toNat ∧ c.toNat ≤ 102) := by
  simp only [hexAlphabet, List.mem_cons, List.not_mem_nil, or_false, ← Char.toNat_inj,
    Char.reduceToNat]
  omega

/-! ## Python -/

/-- A character whose lowercase form is in ASCII. -/
def LowersToAscii (c : Char) : Prop := c.toNat < 128 ∨ c.toNat = 8490

instance (c : Char) : Decidable (LowersToAscii c) := inferInstanceAs (Decidable (_ ∨ _))

theorem lowerChar_ascii_iff {final : Bool} {c : Char} :
    (∀ x ∈ lowerChar final c, x.toNat < 128) ↔ LowersToAscii c := by
  unfold lowerChar LowersToAscii
  by_cases hdot : c.toNat = 0x130
  · rw [if_pos hdot]
    refine iff_of_false (fun h => ?_) (by omega)
    exact absurd (h (Char.ofNat 0x307) (by simp)) (by decide)
  · by_cases hsigma : c.toNat = 0x3A3
    · rw [if_neg hdot, if_pos hsigma]
      refine iff_of_false (fun h => ?_) (by omega)
      cases final with
      | false => exact absurd (h 'σ' (by simp)) (by decide)
      | true => exact absurd (h 'ς' (by simp)) (by decide)
    · rw [if_neg hdot, if_neg hsigma, List.forall_mem_singleton, toNat_ofNat_lowerRune]
      exact lowerRune_lt_iff

theorem lowerChar_of_ascii {c : Char} (h : c.toNat < 128) (final : Bool) :
    lowerChar final c = [c.toLower] := by
  unfold lowerChar
  rw [if_neg (by omega), if_neg (by omega), ofNat_lowerRune h]

theorem toLower_hex_ascii {c : Char} (h : c.toLower ∈ hexAlphabet) : c.toNat < 128 := by
  rw [mem_hexAlphabet_iff, toNat_toLower] at h
  split at h <;> omega

/-- Only a hexadecimal digit of either case becomes one. -/
theorem lowerChar_hex_ascii {final : Bool} {c : Char}
    (h : ∀ x ∈ lowerChar final c, x ∈ hexAlphabet) : c.toNat < 128 := by
  have hascii := lowerChar_ascii_iff.mp fun x hx => (hexAlphabet_ascii x (h x hx)).2
  rcases hascii with hascii | hkelvin
  · exact hascii
  · -- the Kelvin sign becomes a `k`
    have hk : lowerChar final c = ['k'] := by
      unfold lowerChar
      rw [if_neg (by omega), if_neg (by omega), hkelvin, lowerRune_kelvin]
    rw [hk] at h
    exact absurd (h 'k' List.mem_cons_self) (by decide)

theorem lowerFrom_of_ascii (finalSigma : Str → Str → Bool) {s : Str}
    (h : ∀ c ∈ s, c.toNat < 128) (before : Str) :
    lowerFrom finalSigma before s = s.map Char.toLower := by
  induction s generalizing before with
  | nil => rfl
  | cons c s ih =>
    rw [lowerFrom, lowerChar_of_ascii (h c List.mem_cons_self),
      ih fun d hd => h d (List.mem_cons_of_mem c hd)]
    rfl

theorem lowerChar_hex_iff {final : Bool} {c : Char} :
    (∀ x ∈ lowerChar final c, x ∈ hexAlphabet) ↔ c.toLower ∈ hexAlphabet := by
  constructor
  · intro h
    rw [lowerChar_of_ascii (lowerChar_hex_ascii h)] at h
    exact h _ List.mem_cons_self
  · intro h
    rw [lowerChar_of_ascii (toLower_hex_ascii h), List.forall_mem_singleton]
    exact h

/-- What holds of all that a text becomes, character by character. -/
theorem lower_forall_iff {P Q : Char → Prop}
    (hchar : ∀ final c, (∀ x ∈ lowerChar final c, P x) ↔ Q c) (finalSigma : Str → Str → Bool)
    (s : Str) : (∀ x ∈ lower finalSigma s, P x) ↔ ∀ c ∈ s, Q c := by
  suffices ∀ before, (∀ x ∈ lowerFrom finalSigma before s, P x) ↔ ∀ c ∈ s, Q c from this []
  induction s with
  | nil =>
    intro before
    exact iff_of_true (fun x hx => absurd hx List.not_mem_nil)
      fun c hc => absurd hc List.not_mem_nil
  | cons c s ih =>
    intro before
    rw [lowerFrom, List.forall_mem_append, List.forall_mem_cons, hchar, ih]

theorem lower_ascii_iff {finalSigma : Str → Str → Bool} {s : Str} :
    (∀ x ∈ lower finalSigma s, x.toNat < 128) ↔ ∀ c ∈ s, LowersToAscii c :=
  lower_forall_iff (fun _ _ => lowerChar_ascii_iff) finalSigma s

/-- `str.lower` gives a digest exactly for its spellings in ASCII. -/
theorem lower_eq_iff (finalSigma : Str → Str → Bool) {s digest : Str}
    (hdigest : ∀ c ∈ digest, c ∈ hexAlphabet) :
    lower finalSigma s = digest ↔ s.map Char.toLower = digest := by
  have hsame : (∀ c ∈ s, c.toLower ∈ hexAlphabet) → lower finalSigma s = s.map Char.toLower :=
    fun h => lowerFrom_of_ascii finalSigma (fun c hc => toLower_hex_ascii (h c hc)) []
  constructor
  · rintro rfl
    have h := (lower_forall_iff (fun _ _ => lowerChar_hex_iff) finalSigma s).mp hdigest
    exact (hsame h).symm
  · rintro rfl
    exact hsame fun c hc => hdigest _ (List.mem_map_of_mem hc)

/-! ## Go -/

/-- The image of a character under `strings.ToLower`. -/
def toLowerRune (c : Char) : Char :=
  Char.ofNat (if c.toNat = 0x130 then 0x69 else lowerRune c.toNat)

theorem toLower_utf8 (s : Str) : toLower (utf8 s) = utf8 (s.map toLowerRune) := by
  unfold toLower
  rw [runes_utf8, List.flatMap_map]
  show s.flatMap (fun c => utf8 [toLowerRune c]) = (s.map toLowerRune).flatMap String.utf8EncodeChar
  rw [List.flatMap_map]
  apply List.flatMap_congr
  intro c _
  rw [utf8_cons, utf8_nil, List.append_nil]

theorem toNat_toLowerRune (c : Char) :
    (toLowerRune c).toNat = if c.toNat = 0x130 then 0x69 else lowerRune c.toNat := by
  unfold toLowerRune
  split
  · rfl
  · exact toNat_ofNat_lowerRune c

theorem toLowerRune_of_ascii {c : Char} (h : c.toNat < 128) : toLowerRune c = c.toLower := by
  unfold toLowerRune
  rw [if_neg (by omega), ofNat_lowerRune h]

theorem toLowerRune_hex_iff {c : Char} : toLowerRune c ∈ hexAlphabet ↔ c.toLower ∈ hexAlphabet := by
  constructor
  · intro h
    have hascii : c.toNat < 128 := by
      rw [mem_hexAlphabet_iff, toNat_toLowerRune] at h
      split at h
      · omega
      · have hlt : lowerRune c.toNat < 128 := by omega
        rcases lowerRune_lt_iff.mp hlt with hascii | hkelvin
        · exact hascii
        · rw [hkelvin, lowerRune_kelvin] at h
          omega
    rw [← toLowerRune_of_ascii hascii]
    exact h
  · intro h
    rw [toLowerRune_of_ascii (toLower_hex_ascii h)]
    exact h

/-- No capital letter is left. -/
theorem toLowerRune_not_capital (c : Char) :
    (toLowerRune c).toNat < 65 ∨ 90 < (toLowerRune c).toNat := by
  rw [toNat_toLowerRune]
  split
  · omega
  · by_cases hascii : c.toNat < 128
    · rw [lowerRune_of_lt hascii]
      split <;> omega
    · by_contra hcapital
      have hlt : lowerRune c.toNat < 128 := by omega
      rcases lowerRune_lt_iff.mp hlt with hlt | hkelvin
      · exact hascii hlt
      · rw [hkelvin, lowerRune_kelvin] at hcapital
        omega

/-- `strings.ToLower` gives a digest exactly for its spellings in ASCII. -/
theorem map_toLowerRune_eq_iff {s digest : Str} (hdigest : ∀ c ∈ digest, c ∈ hexAlphabet) :
    s.map toLowerRune = digest ↔ s.map Char.toLower = digest := by
  have hsame : (∀ c ∈ s, c.toLower ∈ hexAlphabet) → s.map toLowerRune = s.map Char.toLower :=
    fun h => List.map_congr_left fun c hc => toLowerRune_of_ascii (toLower_hex_ascii (h c hc))
  constructor
  · rintro rfl
    symm
    exact hsame fun c hc => toLowerRune_hex_iff.mp (hdigest _ (List.mem_map_of_mem hc))
  · rintro rfl
    exact hsame fun c hc => hdigest _ (List.mem_map_of_mem hc)

/-! ## Reading digests -/

/-- A digit that is no capital letter is the one its value is rendered with. -/
theorem fromHexChar_lower {b : UInt8} {n : Nat} (hcase : b.toNat < 65 ∨ 90 < b.toNat)
    (h : fromHexChar b = some n) : n < 16 ∧ UInt8.ofNat (hexDigit n).toNat = b := by
  have hbyte : ∀ k, k ≤ b.toNat → b = UInt8.ofNat (b.toNat - k + k) := by
    intro k hk
    rw [Nat.sub_add_cancel hk]
    exact UInt8.ofNat_toNat.symm
  unfold fromHexChar at h
  dsimp only at h
  split at h
  · cases h
    refine ⟨by omega, ?_⟩
    have hsum := hbyte 48 (by omega)
    have hsmall : b.toNat - 48 < 10 := by omega
    generalize b.toNat - 48 = m at hsum hsmall ⊢
    rw [hsum]
    interval_cases m <;> decide
  · split at h
    · cases h
      refine ⟨by omega, ?_⟩
      have hsum := hbyte 87 (by omega)
      have hlarge : 10 ≤ b.toNat - 87 := by omega
      have hsmall : b.toNat - 87 < 16 := by omega
      generalize b.toNat - 87 = m at hsum hlarge hsmall ⊢
      rw [hsum]
      interval_cases m <;> decide
    · split at h
      · omega
      · cases h

/-- Of the lowercase texts, only digests are read. -/
theorem decodeString_eq_some_iff {s : Bytes} (hcase : ∀ b ∈ s, b.toNat < 65 ∨ 90 < b.toNat)
    (bs : Bytes) : decodeString s = some bs ↔ s = utf8 (hexdigest bs) := by
  constructor
  · intro h
    fun_induction decodeString s generalizing bs with
    | case1 =>
      cases h
      rfl
    | case2 => cases h
    | case3 a b rest ih =>
      simp only [bind, Option.bind_eq_some_iff] at h
      obtain ⟨hi, hhi, lo, hlo, tail, htail, h⟩ := h
      cases h
      obtain ⟨hhi16, ha⟩ := fromHexChar_lower (hcase a (by simp)) hhi
      obtain ⟨hlo16, hb⟩ := fromHexChar_lower (hcase b (by simp)) hlo
      have hrest := ih (fun c hc => hcase c (by simp [hc])) tail htail
      have hvalue : (UInt8.ofNat (hi * 16 + lo)).toNat = hi * 16 + lo :=
        toNat_ofNat_byte (by omega)
      have hquot : (hi * 16 + lo) / 16 = hi := by omega
      have hrem : (hi * 16 + lo) % 16 = lo := by omega
      rw [utf8_hexdigest_cons, hvalue, hquot, hrem, ha, hb, ← hrest]
  · rintro rfl
    exact decodeString_hexdigest bs

/-- Go reads exactly the spellings of a digest in ASCII. -/
theorem decodeString_toLower_iff (s : Str) (bs : Bytes) :
    decodeString (toLower (utf8 s)) = some bs ↔ s.map Char.toLower = hexdigest bs := by
  have hcase : ∀ b ∈ toLower (utf8 s), b.toNat < 65 ∨ 90 < b.toNat := by
    intro b hb
    by_cases hascii : b.toNat < 128
    · rw [toLower_utf8] at hb
      obtain ⟨x, hx, hbx⟩ := List.mem_flatMap.mp hb
      obtain ⟨c, -, rfl⟩ := List.mem_map.mp hx
      rw [← (mem_utf8EncodeChar hascii).mp hbx]
      exact toLowerRune_not_capital c
    · omega
  rw [decodeString_eq_some_iff hcase, toLower_utf8,
    ← map_toLowerRune_eq_iff fun c hc => mem_hexdigest hc]
  exact ⟨utf8_injective, fun h => h ▸ rfl⟩

end ZaqorinCore.Text
