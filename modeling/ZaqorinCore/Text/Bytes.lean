import Mathlib

/-!
# Byte strings and separated fields

A Python `str` is a list of characters and a Go `string` a list of bytes; `utf8` is
the encoding both languages use when the one becomes the other. The second half of
the file is about texts that are joined with a separator: which of the joined fields
can be recovered depends only on which of them are free of the separator.
-/

namespace ZaqorinCore.Text

/-- A Python `str` without lone surrogates. -/
abbrev Str := List Char

/-- A shortcut for the tests of membership among texts. -/
instance : LawfulBEq Str := inferInstance

/-- A Go `string` or `[]byte`: any sequence of bytes. -/
abbrev Bytes := List UInt8

/-- `str.encode("utf-8")`. -/
def utf8 (s : Str) : Bytes := s.flatMap String.utf8EncodeChar

/-- The bytes of a text constant. -/
def lit (s : String) : Bytes := utf8 s.toList

@[simp]
theorem utf8_nil : utf8 [] = [] := rfl

theorem utf8_cons (c : Char) (s : Str) : utf8 (c :: s) = String.utf8EncodeChar c ++ utf8 s := by
  simp [utf8]

@[simp]
theorem utf8_append (s t : Str) : utf8 (s ++ t) = utf8 s ++ utf8 t := by
  simp [utf8]

/-- An ASCII byte occurs in the encoding of a character only when it is that
character: every byte of a longer encoding has its high bit set. -/
theorem mem_utf8EncodeChar {c : Char} {b : UInt8} (hb : b.toNat < 128) :
    b ∈ String.utf8EncodeChar c ↔ c.toNat = b.toNat := by
  have hmod : ∀ n : Nat, n < 256 → (b = UInt8.ofNat n ↔ n = b.toNat) := by
    intro n hn
    constructor
    · rintro rfl
      simp; omega
    · rintro rfl
      simp
  have hvalid : c.toNat < 0x110000 := by
    rcases c.valid with h | h
    · exact lt_trans h (by decide)
    · exact h.2
  unfold String.utf8EncodeChar
  simp only [Char.toNat_val]
  split
  · rw [List.mem_singleton, hmod _ (by omega)]
  · split
    · simp only [List.mem_cons, List.not_mem_nil, or_false]
      rw [hmod _ (by omega), hmod _ (by omega)]
      omega
    · split
      · simp only [List.mem_cons, List.not_mem_nil, or_false]
        rw [hmod _ (by omega), hmod _ (by omega), hmod _ (by omega)]
        omega
      · simp only [List.mem_cons, List.not_mem_nil, or_false]
        rw [hmod _ (by omega), hmod _ (by omega), hmod _ (by omega), hmod _ (by omega)]
        omega

/-- An ASCII character occurs in a text exactly when its byte occurs in the encoding. -/
theorem mem_utf8_iff {c : Char} (hc : c.toNat < 128) {s : Str} :
    UInt8.ofNat c.toNat ∈ utf8 s ↔ c ∈ s := by
  have hb : (UInt8.ofNat c.toNat).toNat = c.toNat := by
    simp; omega
  unfold utf8
  rw [List.mem_flatMap]
  constructor
  · rintro ⟨d, hd, hmem⟩
    have := (mem_utf8EncodeChar (by omega)).mp hmem
    rw [hb] at this
    have hdc : d = c := Char.ext (UInt32.toNat_inj.mp this)
    exact hdc ▸ hd
  · intro h
    exact ⟨c, h, (mem_utf8EncodeChar (by omega)).mpr hb.symm⟩

/-- The encoding of an ASCII text has one byte for each character. -/
theorem utf8_of_ascii {s : Str} (h : ∀ c ∈ s, c.toNat < 128) :
    utf8 s = s.map (fun c => UInt8.ofNat c.toNat) := by
  induction s with
  | nil => rfl
  | cons c s ih =>
    have hc := h c List.mem_cons_self
    rw [utf8_cons, ih (fun d hd => h d (List.mem_cons_of_mem _ hd)), List.map_cons]
    unfold String.utf8EncodeChar
    simp only [Char.toNat_val]
    rw [if_pos (by omega)]
    rfl

theorem toNat_ofNat_byte {n : Nat} (h : n < 256) : (UInt8.ofNat n).toNat = n := by
  rw [UInt8.toNat_ofNat']
  exact Nat.mod_eq_of_lt h

theorem utf8_injective {s t : Str} (h : utf8 s = utf8 t) : s = t := by
  have hbytes : s.utf8Encode = t.utf8Encode := congrArg List.toByteArray h
  have hs : s.utf8Encode.utf8Decode? = some s.toArray := List.utf8Decode?_utf8Encode
  rw [hbytes, List.utf8Decode?_utf8Encode] at hs
  simpa using hs.symm

/-! ## Fields joined with a separator -/

section Fields

variable {α : Type} {sep : α}

/-- Text before the first separator is determined by the joined text. -/
theorem cut_first {a b x y : List α} (ha : sep ∉ a) (hb : sep ∉ b)
    (h : a ++ sep :: x = b ++ sep :: y) : a = b ∧ x = y := by
  induction a generalizing b with
  | nil =>
    cases b with
    | nil => exact ⟨rfl, (List.cons.inj h).2⟩
    | cons c b =>
      have := (List.cons.inj h).1
      exact absurd (this ▸ List.mem_cons_self) hb
  | cons c a ih =>
    cases b with
    | nil =>
      have := (List.cons.inj h).1
      exact absurd (this ▸ List.mem_cons_self) ha
    | cons d b =>
      obtain ⟨rfl, htail⟩ := List.cons.inj h
      obtain ⟨rfl, hxy⟩ := ih (fun hm => ha (List.mem_cons_of_mem _ hm))
        (fun hm => hb (List.mem_cons_of_mem _ hm)) htail
      exact ⟨rfl, hxy⟩

/-- Text after the last separator is determined by the joined text. -/
theorem cut_last {a b x y : List α} (ha : sep ∉ a) (hb : sep ∉ b)
    (h : x ++ sep :: a = y ++ sep :: b) : x = y ∧ a = b := by
  have hrev : a.reverse ++ sep :: x.reverse = b.reverse ++ sep :: y.reverse := by
    simpa using congrArg List.reverse h
  obtain ⟨hab, hxy⟩ := cut_first (by simpa using ha) (by simpa using hb) hrev
  exact ⟨List.reverse_injective hxy, List.reverse_injective hab⟩

/-- Three fields free of the separator are the only way to split their join into
three: any other split would have to contain one more separator. -/
theorem cut_three [DecidableEq α] {a b c a' b' c' : List α}
    (ha : sep ∉ a) (hb : sep ∉ b) (hc : sep ∉ c)
    (h : a' ++ sep :: (b' ++ sep :: c') = a ++ sep :: (b ++ sep :: c)) :
    a' = a ∧ b' = b ∧ c' = c := by
  have hcount := congrArg (List.count sep) h
  simp only [List.count_append, List.count_cons_self, List.count_eq_zero_of_not_mem ha,
    List.count_eq_zero_of_not_mem hb, List.count_eq_zero_of_not_mem hc] at hcount
  have ha' : sep ∉ a' := List.count_eq_zero.mp (by omega)
  have hb' : sep ∉ b' := List.count_eq_zero.mp (by omega)
  obtain ⟨rfl, hrest⟩ := cut_first ha' ha h
  obtain ⟨rfl, rfl⟩ := cut_first hb' hb hrest
  exact ⟨rfl, rfl, rfl⟩

end Fields

end ZaqorinCore.Text
