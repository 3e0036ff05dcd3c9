import ZaqorinCore.Text.Unicode

/-!
# Decoding bytes

Python's two readings of UTF-8, with and without replacement, the newlines of a file that is opened
as text, and base64: `b64encode` is RFC 4648 with padding, `b64decode` is `binascii.a2b_base64`,
which skips what is not in the alphabet.
-/

namespace ZaqorinCore.Text

/-! ## UTF-8 -/

/-- `bytes.decode("utf-8")`; `none` when it raises. -/
def decodeUtf8 (s : Bytes) : Option Str :=
  (runes s).mapM fun r =>
    if r.1 = runeError ∧ r.2.length = 1 then none else some (Char.ofNat r.1)

/-- How many bytes one replacement character stands for. -/
def badWidth (b : UInt8) (rest : Bytes) : Nat :=
  let n := b.toNat
  let (lo, hi) := secondRange n
  if 0xE0 ≤ n ∧ n ≤ 0xF4 then
    match rest with
    | c :: d :: _ =>
      if contIn lo hi c then
        if 0xF0 ≤ n ∧ contIn 0x80 0xBF d then 3 else 2
      else 1
    | [c] => if contIn lo hi c then 2 else 1
    | [] => 1
  else 1

/-- `decodeReplace` in front of a byte; the first argument counts the bytes still to be skipped. -/
def decodeReplaceFrom : Nat → Bytes → Str
  | _, [] => []
  | k + 1, _ :: rest => decodeReplaceFrom k rest
  | 0, b :: rest =>
    let (r, w) := decodeRune b rest
    if r = runeError ∧ w = 1 then Char.ofNat runeError :: decodeReplaceFrom (badWidth b rest - 1) rest
    else Char.ofNat r :: decodeReplaceFrom (w - 1) rest

/-- `bytes.decode("utf-8", errors="replace")`. -/
def decodeReplace (s : Bytes) : Str := decodeReplaceFrom 0 s

/-- The newlines of a text file. -/
def universalNewlines : Str → Str
  | '\r' :: '\n' :: rest => '\n' :: universalNewlines rest
  | '\r' :: rest => '\n' :: universalNewlines rest
  | c :: rest => c :: universalNewlines rest
  | [] => []

/-- `Path.read_text()` of a file in UTF-8. -/
def readText (s : Bytes) : Option Str := (decodeUtf8 s).map universalNewlines

theorem decodeReplace_of_ascii {s : Bytes} (h : ∀ b ∈ s, b.toNat < 0x80) :
    decodeReplace s = s.map fun b => Char.ofNat b.toNat := by
  induction s with
  | nil => rfl
  | cons b s ih =>
    have hb : b.toNat < 0x80 := h b List.mem_cons_self
    have hne : ¬ (b.toNat = runeError ∧ 1 = 1) := by
      unfold runeError
      omega
    have hrune : decodeRune b s = (b.toNat, 1) := by
      simp [decodeRune, hb]
    unfold decodeReplace at ih ⊢
    rw [decodeReplaceFrom, hrune]
    dsimp only
    rw [if_neg hne]
    rw [ih fun c hc => h c (List.mem_cons_of_mem _ hc), List.map_cons]

theorem ascii_utf8 {s : Str} (h : ∀ c ∈ s, c.toNat < 128) : ∀ b ∈ utf8 s, b.toNat < 0x80 := by
  rw [utf8_of_ascii h]
  intro b hb
  obtain ⟨c, hc, rfl⟩ := List.mem_map.mp hb
  have := h c hc
  rw [toNat_ofNat_byte (by omega)]
  exact this

theorem map_ofNat_utf8 {s : Str} (h : ∀ c ∈ s, c.toNat < 128) :
    (utf8 s).map (fun b => Char.ofNat b.toNat) = s := by
  rw [utf8_of_ascii h, List.map_map]
  conv_rhs => rw [← List.map_id s]
  apply List.map_congr_left
  intro c hc
  have hbyte : (UInt8.ofNat c.toNat).toNat = c.toNat := by
    have := h c hc
    exact toNat_ofNat_byte (by omega)
  simp only [Function.comp, hbyte, Char.ofNat_toNat, id]

/-- An ASCII text comes back from its bytes. -/
theorem decodeReplace_utf8 {s : Str} (h : ∀ c ∈ s, c.toNat < 128) : decodeReplace (utf8 s) = s := by
  rw [decodeReplace_of_ascii (ascii_utf8 h), map_ofNat_utf8 h]

theorem decodeUtf8_of_ascii {s : Bytes} (h : ∀ b ∈ s, b.toNat < 0x80) :
    decodeUtf8 s = some (s.map fun b => Char.ofNat b.toNat) := by
  unfold decodeUtf8
  rw [runes_of_ascii h]
  induction s with
  | nil => rfl
  | cons b s ih =>
    have hb : b.toNat < 0x80 := h b List.mem_cons_self
    have hne : ¬ (b.toNat = runeError ∧ [b].length = 1) := by
      unfold runeError
      omega
    rw [List.map_cons, List.mapM_cons, if_neg hne, ih fun c hc => h c (List.mem_cons_of_mem _ hc)]
    rfl

theorem decodeUtf8_utf8 {s : Str} (h : ∀ c ∈ s, c.toNat < 128) : decodeUtf8 (utf8 s) = some s := by
  rw [decodeUtf8_of_ascii (ascii_utf8 h), map_ofNat_utf8 h]

theorem universalNewlines_of_not_mem {s : Str} (h : '\r' ∉ s) : universalNewlines s = s := by
  induction s with
  | nil => rfl
  | cons c s ih =>
    have hc : c ≠ '\r' := fun hc => h (hc ▸ List.mem_cons_self)
    rw [universalNewlines, ih fun hs => h (List.mem_cons_of_mem _ hs)]
    · intro _ hcr
      exact absurd hcr hc
    · intro hcr
      exact absurd hcr hc

/-! ## Base64 -/

/-- The alphabet, in the order of the values. -/
def base64Alphabet : Str :=
  "ABCDEFGHIJKLMNOPQRSTUVWXYZabcdefghijklmnopqrstuvwxyz0123456789+/".toList

def base64Char (n : Nat) : Char := base64Alphabet.getD (n % 64) 'A'

/-- `base64.StdEncoding.EncodeToString`. -/
def b64encode : Bytes → Str
  | [] => []
  | [a] => [base64Char (a.toNat / 4), base64Char (a.toNat % 4 * 16), '=', '=']
  | [a, b] =>
    [base64Char (a.toNat / 4), base64Char (a.toNat % 4 * 16 + b.toNat / 16),
      base64Char (b.toNat % 16 * 4), '=']
  | a :: b :: c :: rest =>
    base64Char (a.toNat / 4) :: base64Char (a.toNat % 4 * 16 + b.toNat / 16) ::
      base64Char (b.toNat % 16 * 4 + c.toNat / 64) :: base64Char (c.toNat % 64) :: b64encode rest

def base64Value (c : Char) : Option Nat :=
  let n := base64Alphabet.findIdx (· == c)
  if n < 64 then some n else none

/-- The loop of `binascii.a2b_base64`: the place in the group of four, the bits that are left over
and the padding characters in a row. -/
def a2bBase64 : Nat → Nat → Nat → Str → Option Bytes
  | quad, _, _, [] => if quad = 0 then some [] else none
  | quad, left, pads, c :: rest =>
    if c = '=' then
      if 2 ≤ quad then
        if 4 ≤ quad + (pads + 1) then some [] else a2bBase64 quad left (pads + 1) rest
      else a2bBase64 quad left pads rest
    else
      match base64Value c with
      | none => a2bBase64 quad left pads rest
      | some v =>
        match quad with
        | 0 => a2bBase64 1 v 0 rest
        | 1 => (a2bBase64 2 (v % 16) 0 rest).map (UInt8.ofNat (left * 4 + v / 16) :: ·)
        | 2 => (a2bBase64 3 (v % 4) 0 rest).map (UInt8.ofNat (left * 16 + v / 4) :: ·)
        | _ => (a2bBase64 0 0 0 rest).map (UInt8.ofNat (left * 64 + v) :: ·)

/-- `base64.b64decode` of a `str`; `none` when it raises. -/
def b64decode (s : Str) : Option Bytes :=
  if s.all fun c => c.toNat < 128 then a2bBase64 0 0 0 s else none

theorem base64Char_spec (n : Nat) :
    base64Char n ≠ '=' ∧ base64Value (base64Char n) = some (n % 64) ∧
      (base64Char n).toNat < 128 := by
  have htable : ∀ i < 64, base64Alphabet.getD i 'A' ≠ '=' ∧
      base64Value (base64Alphabet.getD i 'A') = some i ∧
      (base64Alphabet.getD i 'A').toNat < 128 := by decide +kernel
  exact htable (n % 64) (Nat.mod_lt n (by decide))

/-- What the loop does at a character of the alphabet. -/
theorem a2bBase64_base64Char (quad left pads n : Nat) (rest : Str) :
    a2bBase64 quad left pads (base64Char n :: rest) =
      match quad with
      | 0 => a2bBase64 1 (n % 64) 0 rest
      | 1 => (a2bBase64 2 (n % 64 % 16) 0 rest).map (UInt8.ofNat (left * 4 + n % 64 / 16) :: ·)
      | 2 => (a2bBase64 3 (n % 64 % 4) 0 rest).map (UInt8.ofNat (left * 16 + n % 64 / 4) :: ·)
      | _ => (a2bBase64 0 0 0 rest).map (UInt8.ofNat (left * 64 + n % 64) :: ·) := by
  obtain ⟨hpad, hvalue, -⟩ := base64Char_spec n
  rw [a2bBase64.eq_def]
  simp only [if_neg hpad, hvalue]

theorem ofNat_of_toNat {a : UInt8} {n : Nat} (h : n = a.toNat) : UInt8.ofNat n = a := by
  rw [h, UInt8.ofNat_toNat]

theorem a2bBase64_b64encode (bs : Bytes) : a2bBase64 0 0 0 (b64encode bs) = some bs := by
  fun_induction b64encode bs with
  | case1 => rfl
  | case2 a =>
    have ha := a.toNat_lt
    have hfirst : UInt8.ofNat (a.toNat / 4 % 64 * 4 + a.toNat % 4 * 16 % 64 / 16) = a :=
      ofNat_of_toNat (by omega)
    simp only [a2bBase64_base64Char, hfirst]
    simp [a2bBase64]
  | case3 a b =>
    have ha := a.toNat_lt
    have hb := b.toNat_lt
    have hfirst : UInt8.ofNat (a.toNat / 4 % 64 * 4 +
        (a.toNat % 4 * 16 + b.toNat / 16) % 64 / 16) = a := ofNat_of_toNat (by omega)
    have hsecond : UInt8.ofNat ((a.toNat % 4 * 16 + b.toNat / 16) % 64 % 16 * 16 +
        b.toNat % 16 * 4 % 64 / 4) = b := ofNat_of_toNat (by omega)
    simp only [a2bBase64_base64Char, hfirst, hsecond]
    simp [a2bBase64]
  | case4 a b c rest ih =>
    have ha := a.toNat_lt
    have hb := b.toNat_lt
    have hc := c.toNat_lt
    have hfirst : UInt8.ofNat (a.toNat / 4 % 64 * 4 +
        (a.toNat % 4 * 16 + b.toNat / 16) % 64 / 16) = a := ofNat_of_toNat (by omega)
    have hsecond : UInt8.ofNat ((a.toNat % 4 * 16 + b.toNat / 16) % 64 % 16 * 16 +
        (b.toNat % 16 * 4 + c.toNat / 64) % 64 / 4) = b := ofNat_of_toNat (by omega)
    have hthird : UInt8.ofNat ((b.toNat % 16 * 4 + c.toNat / 64) % 64 % 4 * 64 +
        c.toNat % 64 % 64) = c := ofNat_of_toNat (by omega)
    simp only [a2bBase64_base64Char, ih, hfirst, hsecond, hthird]
    rfl

theorem ascii_b64encode (bs : Bytes) : ∀ c ∈ b64encode bs, c.toNat < 128 := by
  have hchar := fun n => (base64Char_spec n).2.2
  fun_induction b64encode bs with
  | case1 => simp
  | case2 a => simp [hchar]
  | case3 a b => simp [hchar]
  | case4 a b c rest ih => simpa [hchar] using ih

/-- The reader gives back what was encoded. -/
theorem b64decode_b64encode (bs : Bytes) : b64decode (b64encode bs) = some bs := by
  have hascii : (b64encode bs).all (fun c => c.toNat < 128) = true := by
    simpa using ascii_b64encode bs
  rw [b64decode, if_pos hascii, a2bBase64_b64encode]

/-- The encoding is longer than what it encodes. -/
theorem lt_length_b64encode {bs : Bytes} (h : bs ≠ []) : bs.length < (b64encode bs).length := by
  fun_induction b64encode bs with
  | case1 => exact absurd rfl h
  | case2 a => simp
  | case3 a b => simp
  | case4 a b c rest ih =>
    simp only [List.length_cons]
    by_cases hrest : rest = []
    · subst hrest
      simp
    · have := ih hrest
      omega

end ZaqorinCore.Text
