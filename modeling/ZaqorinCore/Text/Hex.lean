import ZaqorinCore.Text.Bytes

/-!
# Hexadecimal digests

`hexdigest` is Python's `hmac.hexdigest()` and Go's `hex.EncodeToString`; `decodeString`
is Go's `hex.DecodeString`, which reads both letter cases and refuses an odd length.
-/

namespace ZaqorinCore.Text

/-- The lowercase hexadecimal digit of a nibble. -/
def hexDigit (n : Nat) : Char := Nat.digitChar (n % 16)

/-- The lowercase hexadecimal rendering, two digits for each byte. -/
def hexdigest (bs : Bytes) : Str :=
  bs.flatMap fun b => [hexDigit (b.toNat / 16), hexDigit (b.toNat % 16)]

/-- The value of one hexadecimal digit byte of either case. -/
def fromHexChar (b : UInt8) : Option Nat :=
  let n := b.toNat
  if 48 ≤ n ∧ n ≤ 57 then some (n - 48)
  else if 97 ≤ n ∧ n ≤ 102 then some (n - 87)
  else if 65 ≤ n ∧ n ≤ 70 then some (n - 55)
  else none

/-- `hex.DecodeString`. -/
def decodeString : Bytes → Option Bytes
  | [] => some []
  | [_] => none
  | a :: b :: rest => do
    let hi ← fromHexChar a
    let lo ← fromHexChar b
    let tail ← decodeString rest
    return UInt8.ofNat (hi * 16 + lo) :: tail

/-- The byte of a lowercase hexadecimal digit. -/
theorem utf8_hexDigit (n : Nat) :
    utf8 [hexDigit n] = [UInt8.ofNat (hexDigit n).toNat] := by
  apply utf8_of_ascii
  intro c hc
  rw [List.mem_singleton.mp hc]
  unfold hexDigit
  have h : n % 16 < 16 := Nat.mod_lt _ (by omega)
  generalize n % 16 = m at h
  interval_cases m <;> decide

theorem fromHexChar_hexDigit {n : Nat} (h : n < 16) :
    fromHexChar (UInt8.ofNat (hexDigit n).toNat) = some n := by
  interval_cases n <;> decide

theorem hexdigest_cons (b : UInt8) (bs : Bytes) :
    hexdigest (b :: bs) = [hexDigit (b.toNat / 16), hexDigit (b.toNat % 16)] ++ hexdigest bs := by
  simp [hexdigest]

theorem hexdigest_length (bs : Bytes) : (hexdigest bs).length = 2 * bs.length := by
  induction bs with
  | nil => rfl
  | cons b bs ih =>
    rw [hexdigest_cons, List.length_append, ih]
    simp only [List.length_cons, List.length_nil]
    omega

theorem utf8_hexdigest_cons (b : UInt8) (bs : Bytes) : utf8 (hexdigest (b :: bs)) =
    UInt8.ofNat (hexDigit (b.toNat / 16)).toNat ::
      UInt8.ofNat (hexDigit (b.toNat % 16)).toNat :: utf8 (hexdigest bs) := by
  have htwo : ([hexDigit (b.toNat / 16), hexDigit (b.toNat % 16)] : Str) =
      [hexDigit (b.toNat / 16)] ++ [hexDigit (b.toNat % 16)] := rfl
  rw [hexdigest_cons, utf8_append, htwo, utf8_append, utf8_hexDigit, utf8_hexDigit]
  rfl

/-- Decoding a digest gives its bytes back. -/
theorem decodeString_hexdigest (bs : Bytes) : decodeString (utf8 (hexdigest bs)) = some bs := by
  induction bs with
  | nil => rfl
  | cons b bs ih =>
    have hb : b.toNat < 256 := b.toNat_lt
    have hbyte : UInt8.ofNat (b.toNat / 16 * 16 + b.toNat % 16) = b := by
      rw [Nat.div_add_mod']
      exact UInt8.ofNat_toNat
    rw [utf8_hexdigest_cons, decodeString, fromHexChar_hexDigit (by omega),
      fromHexChar_hexDigit (by omega), ih]
    simp only [Option.bind_eq_bind, Option.bind_some, Option.pure_def, hbyte]

theorem hexdigest_injective {bs bs' : Bytes} (h : hexdigest bs = hexdigest bs') : bs = bs' := by
  have hdecode : decodeString (utf8 (hexdigest bs)) = decodeString (utf8 (hexdigest bs')) := by
    rw [h]
  rw [decodeString_hexdigest, decodeString_hexdigest] at hdecode
  exact Option.some.inj hdecode

/-- The characters of a digest. -/
def hexAlphabet : Str :=
  ['0', '1', '2', '3', '4', '5', '6', '7', '8', '9', 'a', 'b', 'c', 'd', 'e', 'f']

theorem hexDigit_mem_alphabet (n : Nat) : hexDigit n ∈ hexAlphabet := by
  unfold hexDigit
  have h : n % 16 < 16 := Nat.mod_lt _ (by omega)
  generalize n % 16 = m at h
  interval_cases m <;> decide

theorem mem_hexdigest {bs : Bytes} {c : Char} (h : c ∈ hexdigest bs) : c ∈ hexAlphabet := by
  obtain ⟨b, -, hc⟩ := List.mem_flatMap.mp h
  rcases List.mem_cons.mp hc with rfl | hc
  · exact hexDigit_mem_alphabet _
  · rw [List.mem_singleton.mp hc]
    exact hexDigit_mem_alphabet _

/-! ## UUIDs -/

/-- A UUID is its 128-bit integer value. -/
abbrev Uuid := BitVec 128

/-- `%0wx`. -/
def hexPadded : Nat → Nat → Str
  | 0, _ => []
  | w + 1, n => hexPadded w (n / 16) ++ [hexDigit n]

/-- `str(uuid)`: eight, four, four, four and twelve digits joined by hyphens. -/
def uuidStr (u : Uuid) : Str :=
  let h := hexPadded 32 u.toNat
  h.take 8 ++ '-' :: (h.drop 8).take 4 ++ '-' :: (h.drop 12).take 4 ++ '-' ::
    (h.drop 16).take 4 ++ '-' :: h.drop 20

theorem mem_hexPadded {w n : Nat} {c : Char} (h : c ∈ hexPadded w n) : c ∈ hexAlphabet := by
  induction w generalizing n with
  | zero => exact absurd h List.not_mem_nil
  | succ w ih =>
    rcases List.mem_append.mp h with h | h
    · exact ih h
    · rw [List.mem_singleton.mp h]
      exact hexDigit_mem_alphabet _

@[simp]
theorem hexPadded_length (w n : Nat) : (hexPadded w n).length = w := by
  induction w generalizing n with
  | zero => rfl
  | succ w ih => simp [hexPadded, ih]

theorem mem_uuidStr {u : Uuid} {c : Char} (h : c ∈ uuidStr u) : c ∈ hexAlphabet ∨ c = '-' := by
  unfold uuidStr at h
  simp only [List.mem_append, List.mem_cons] at h
  rcases h with (((h | rfl | h) | rfl | h) | rfl | h) | rfl | h
  · exact Or.inl (mem_hexPadded (List.mem_of_mem_take h))
  · exact Or.inr rfl
  · exact Or.inl (mem_hexPadded (List.mem_of_mem_drop (List.mem_of_mem_take h)))
  · exact Or.inr rfl
  · exact Or.inl (mem_hexPadded (List.mem_of_mem_drop (List.mem_of_mem_take h)))
  · exact Or.inr rfl
  · exact Or.inl (mem_hexPadded (List.mem_of_mem_drop (List.mem_of_mem_take h)))
  · exact Or.inr rfl
  · exact Or.inl (mem_hexPadded (List.mem_of_mem_drop h))

theorem hexDigit_injective {m n : Nat} (h : hexDigit m = hexDigit n) : m % 16 = n % 16 := by
  unfold hexDigit at h
  have hm : m % 16 < 16 := Nat.mod_lt _ (by omega)
  have hn : n % 16 < 16 := Nat.mod_lt _ (by omega)
  generalize m % 16 = a at *
  generalize n % 16 = b at *
  interval_cases a <;> interval_cases b <;> first | rfl | exact absurd h (by decide)

theorem hexPadded_injective {w m n : Nat} (hm : m < 16 ^ w) (hn : n < 16 ^ w)
    (h : hexPadded w m = hexPadded w n) : m = n := by
  induction w generalizing m n with
  | zero => omega
  | succ w ih =>
    rw [pow_succ] at hm hn
    obtain ⟨hhead, hlast⟩ := List.append_inj' h rfl
    have hquot := ih (by omega) (by omega) hhead
    have hrem := hexDigit_injective (List.cons.inj hlast).1
    omega

/-- Without its hyphens a rendered UUID is its 32 digits. -/
theorem filter_uuidStr (u : Uuid) :
    (uuidStr u).filter (· != '-') = hexPadded 32 u.toNat := by
  have hplain : ∀ s : Str, (∀ c ∈ s, c ∈ hexPadded 32 u.toNat) → s.filter (· != '-') = s := by
    intro s hs
    rw [List.filter_eq_self]
    intro c hc
    have hne : ∀ c ∈ hexAlphabet, (c != '-') = true := by simp [hexAlphabet]
    exact hne c (mem_hexPadded (hs c hc))
  simp only [uuidStr, List.filter_append]
  rw [List.filter_cons_of_neg (by decide), List.filter_cons_of_neg (by decide),
    List.filter_cons_of_neg (by decide), List.filter_cons_of_neg (by decide),
    hplain _ (fun c hc => List.mem_of_mem_take hc),
    hplain _ (fun c hc => List.mem_of_mem_drop (List.mem_of_mem_take hc)),
    hplain _ (fun c hc => List.mem_of_mem_drop (List.mem_of_mem_take hc)),
    hplain _ (fun c hc => List.mem_of_mem_drop (List.mem_of_mem_take hc)),
    hplain _ (fun c hc => List.mem_of_mem_drop hc)]
  generalize hexPadded 32 u.toNat = s
  rw [List.append_assoc, List.append_assoc, List.append_assoc,
    show List.drop 20 s = List.drop 4 (List.drop 16 s) by rw [List.drop_drop],
    List.take_append_drop,
    show List.drop 16 s = List.drop 4 (List.drop 12 s) by rw [List.drop_drop],
    List.take_append_drop,
    show List.drop 12 s = List.drop 4 (List.drop 8 s) by rw [List.drop_drop],
    List.take_append_drop, List.take_append_drop]

theorem toNat_lt_hexPadded (u : Uuid) : u.toNat < 16 ^ 32 :=
  lt_of_lt_of_le u.isLt (by norm_num)

theorem uuidStr_injective {u v : Uuid} (h : uuidStr u = uuidStr v) : u = v := by
  have hhex : hexPadded 32 u.toNat = hexPadded 32 v.toNat := by
    rw [← filter_uuidStr u, ← filter_uuidStr v, h]
  exact BitVec.eq_of_toNat_eq
    (hexPadded_injective (toNat_lt_hexPadded u) (toNat_lt_hexPadded v) hhex)

/-- A rendered UUID starts with a hexadecimal digit. -/
theorem uuidStr_cons (u : Uuid) : ∃ c ∈ hexAlphabet, ∃ rest, uuidStr u = c :: rest := by
  have hlen : (hexPadded 32 u.toNat).length = 32 := hexPadded_length _ _
  cases h : hexPadded 32 u.toNat with
  | nil => rw [h] at hlen; cases hlen
  | cons c tail =>
    have hc : c ∈ hexPadded 32 u.toNat := by rw [h]; exact List.mem_cons_self
    exact ⟨c, mem_hexPadded hc, _, by simp only [uuidStr, h]; rfl⟩

end ZaqorinCore.Text
