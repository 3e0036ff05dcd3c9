import ZaqorinCore.Base.Triple
import ZaqorinCore.Text.JsonText

/-!
# JSON texts of strings and objects

`json.dumps` with `ensure_ascii`, of strings and of objects of given members, and what the parser of
`json` makes of them. A string is its code points. It comes back as it was when no low surrogate
stands right behind a high one (`Paired`), as in every string that was itself read from JSON.
-/

namespace ZaqorinCore.Text.JsonText

open Base

/-! ## Strings -/

/-- `\uXXXX` -/
def dumpUnit (n : Nat) : Str := '\\' :: 'u' :: hexPadded 4 n

/-- `ESCAPE_DCT` -/
def escapes : List (Nat × Char) := [
  (92, '\\'), (34, '"'), (8, 'b'), (12, 'f'), (10, 'n'), (13, 'r'), (9, 't')]

/-- One character of `py_encode_basestring_ascii`. -/
def dumpPoint (n : Nat) : Str :=
  match escapes.lookup n with
  | some e => ['\\', e]
  | none =>
    if 32 ≤ n ∧ n ≤ 126 then [Char.ofNat n]
    else if n < 0x10000 then dumpUnit n
    else
      dumpUnit (0xd800 + (n - 0x10000) / 1024 % 1024) ++ dumpUnit (0xdc00 + (n - 0x10000) % 1024)

/-- `json.dumps` of a string. -/
def dumpString (points : List Nat) : Str := '"' :: (points.flatMap dumpPoint ++ ['"'])

/-- The units that a code point is written as. -/
def unitsOf (n : Nat) : List Nat :=
  if n < 0x10000 then [n]
  else [0xd800 + (n - 0x10000) / 1024 % 1024, 0xdc00 + (n - 0x10000) % 1024]

theorem unitsOf_small {n : Nat} (h : n < 0x10000) : unitsOf n = [n] := if_pos h

theorem unitsOf_large {n : Nat} (h : ¬ n < 0x10000) :
    unitsOf n = [0xd800 + (n - 0x10000) / 1024 % 1024, 0xdc00 + (n - 0x10000) % 1024] :=
  if_neg h

def IsHigh (n : Nat) : Prop := 0xd800 ≤ n ∧ n ≤ 0xdbff

def IsLow (n : Nat) : Prop := 0xdc00 ≤ n ∧ n ≤ 0xdfff

theorem isHigh_high (n : Nat) : IsHigh (0xd800 + n / 1024 % 1024) := by
  unfold IsHigh
  omega

theorem isLow_low (n : Nat) : IsLow (0xdc00 + n % 1024) := by
  unfold IsLow
  omega

theorem joined_units {n : Nat} (h : n < 0x110000) (hlarge : ¬ n < 0x10000) :
    0x10000 + ((0xd800 + (n - 0x10000) / 1024 % 1024 - 0xd800) * 1024 +
      (0xdc00 + (n - 0x10000) % 1024 - 0xdc00)) = n := by
  have hplane : (n - 0x10000) / 1024 % 1024 = (n - 0x10000) / 1024 := by
    apply Nat.mod_eq_of_lt
    omega
  rw [hplane, Nat.add_sub_cancel_left, Nat.add_sub_cancel_left, Nat.div_add_mod']
  omega

/-- The code points of a Python `str` in which surrogates that belong together are joined. -/
structure Paired (points : List Nat) : Prop where
  valid : ∀ n ∈ points, n < 0x110000
  joined : points.IsChain fun m n => ¬ (IsHigh m ∧ IsLow n)

theorem hexDigitValue_hexDigit (n : Nat) : hexDigitValue (hexDigit n) = some (n % 16) := by
  have hsmall : ∀ m < 16, hexDigitValue (Nat.digitChar m) = some m := by decide
  exact hsmall (n % 16) (Nat.mod_lt _ (by decide))

theorem decodeUXXXX_hexPadded {n : Nat} (h : n < 0x10000) :
    decodeUXXXX (hexDigit (n / 16 / 16 / 16)) (hexDigit (n / 16 / 16)) (hexDigit (n / 16))
      (hexDigit n) = some n := by
  have hvalue : ((n / 16 / 16 / 16 % 16 * 16 + n / 16 / 16 % 16) * 16 + n / 16 % 16) * 16 +
      n % 16 = n := by omega
  unfold decodeUXXXX
  simp only [hexDigitValue_hexDigit]
  exact congrArg some hvalue

theorem backslash_lt {c : Char} {n : Nat} (h : backslash.lookup c = some n) : n < 0x110000 := by
  have hall : (backslash.all fun p => decide (p.2 < 0x110000)) = true := by decide
  obtain ⟨l₁, l₂, hsplit, -⟩ := List.lookup_eq_some_iff.mp h
  have hmem : (c, n) ∈ backslash := by
    rw [hsplit]
    simp
  exact of_decide_eq_true (List.all_eq_true.mp hall (c, n) hmem)

theorem char_lt (c : Char) : c.toNat < 0x110000 := by
  rcases c.valid with h | h
  · exact lt_trans h (by decide)
  · exact h.2

theorem fromHexChar_lt {b : UInt8} {n : Nat} (h : fromHexChar b = some n) : n < 16 := by
  simp only [fromHexChar] at h
  split at h
  · cases h
    omega
  · split at h
    · cases h
      omega
    · split at h
      · cases h
        omega
      · cases h

theorem hexDigitValue_lt {c : Char} {n : Nat} (h : hexDigitValue c = some n) : n < 16 := by
  unfold hexDigitValue at h
  split at h
  · exact fromHexChar_lt h
  · cases h

theorem decodeUXXXX_lt {a b c d : Char} {n : Nat} (h : decodeUXXXX a b c d = some n) :
    n < 0x10000 := by
  simp only [decodeUXXXX, bind, Option.bind_eq_some_iff] at h
  obtain ⟨_, ha, _, hb, _, hc, _, hd, h⟩ := h
  have := hexDigitValue_lt ha
  have := hexDigitValue_lt hb
  have := hexDigitValue_lt hc
  have := hexDigitValue_lt hd
  cases h
  omega

theorem scanUnits_dumpUnit {n : Nat} (h : n < 0x10000) (t : Str) :
    scanUnits (dumpUnit n ++ t) = (scanUnits t).map fun r => (n :: r.1, r.2) := by
  have hdigits : hexPadded 4 n = [hexDigit (n / 16 / 16 / 16), hexDigit (n / 16 / 16),
      hexDigit (n / 16), hexDigit n] := rfl
  rw [dumpUnit, hdigits]
  show scanUnits ('\\' :: 'u' :: hexDigit (n / 16 / 16 / 16) :: hexDigit (n / 16 / 16) ::
    hexDigit (n / 16) :: hexDigit n :: t) = _
  rw [scanUnits, decodeUXXXX_hexPadded h]
  cases scanUnits t with
  | none => rfl
  | some r => rfl

theorem scanUnits_plain {c : Char} (hquote : c ≠ '"') (hback : c ≠ '\\') (hcontrol : 32 ≤ c.toNat)
    (t : Str) : scanUnits (c :: t) = (scanUnits t).map fun r => (c.toNat :: r.1, r.2) := by
  rw [scanUnits.eq_def]
  dsimp only
  rw [if_neg hquote, if_neg hback, if_neg (by omega)]
  cases scanUnits t with
  | none => rfl
  | some r => rfl

theorem scanUnits_escaped {n : Nat} {e : Char} (h : backslash.lookup e = some n) (he : e ≠ 'u')
    (t : Str) : scanUnits ('\\' :: e :: t) = (scanUnits t).map fun r => (n :: r.1, r.2) := by
  have hquote : '\\' ≠ '"' := by decide
  rw [scanUnits.eq_def]
  dsimp only
  rw [if_neg hquote, if_pos rfl]
  split
  · rename_i heq
    exact absurd (List.cons.inj heq).1 he
  · rename_i heq
    obtain ⟨rfl, rfl⟩ := List.cons.inj heq
    rw [h]
    cases scanUnits t with
    | none => rfl
    | some r => rfl
  · rename_i heq
    cases heq

/-- The escapes are those that the parser knows. -/
theorem backslash_of_escapes {n : Nat} {e : Char} (h : escapes.lookup n = some e) :
    backslash.lookup e = some n ∧ e ≠ 'u' ∧ n < 0x10000 := by
  have hall : (escapes.all fun p =>
      decide (backslash.lookup p.2 = some p.1 ∧ p.2 ≠ 'u' ∧ p.1 < 0x10000)) = true := by decide
  obtain ⟨l₁, l₂, hsplit, -⟩ := List.lookup_eq_some_iff.mp h
  have hmem : (n, e) ∈ escapes := by
    rw [hsplit]
    simp
  exact of_decide_eq_true (List.all_eq_true.mp hall (n, e) hmem)

/-- One code point is read as its units. -/
theorem scanUnits_dumpPoint {n : Nat} (h : n < 0x110000) (t : Str) :
    scanUnits (dumpPoint n ++ t) = (scanUnits t).map fun r => (unitsOf n ++ r.1, r.2) := by
  unfold dumpPoint
  cases hescape : escapes.lookup n with
  | some e =>
    obtain ⟨hback, he, hsmall⟩ := backslash_of_escapes hescape
    rw [unitsOf_small hsmall]
    exact scanUnits_escaped hback he t
  | none =>
    dsimp only
    split
    · rename_i hprintable
      have hascii : ∀ m < 127, (Char.ofNat m).toNat = m := by decide
      have hnat := hascii n (by omega)
      have hchar : ∀ d : Char, escapes.lookup d.toNat ≠ none → Char.ofNat n ≠ d := by
        rintro d hd rfl
        rw [hnat] at hd
        exact hd hescape
      rw [List.singleton_append, scanUnits_plain (hchar _ (by decide)) (hchar _ (by decide))
        (by omega), hnat, unitsOf_small (by omega)]
      rfl
    · split
      · rename_i hsmall
        rw [scanUnits_dumpUnit hsmall, unitsOf_small hsmall]
        rfl
      · rename_i hlarge
        rw [List.append_assoc, scanUnits_dumpUnit (by omega), scanUnits_dumpUnit (by omega),
          Option.map_map, unitsOf_large hlarge]
        rfl

theorem scanUnits_dumpString {points : List Nat} (h : ∀ n ∈ points, n < 0x110000) (rest : Str) :
    scanUnits (points.flatMap dumpPoint ++ '"' :: rest) = some (points.flatMap unitsOf, rest) := by
  induction points with
  | nil =>
    rw [List.flatMap_nil, List.nil_append, scanUnits.eq_def]
    exact if_pos rfl
  | cons n points ih =>
    rw [List.forall_mem_cons] at h
    rw [List.flatMap_cons, List.append_assoc, scanUnits_dumpPoint h.1, ih h.2]
    rfl

theorem joinSurrogates_cons {n u : Nat} (h : ¬ (IsHigh n ∧ IsLow u)) (units : List Nat) :
    joinSurrogates (n :: u :: units) = n :: joinSurrogates (u :: units) := by
  rw [joinSurrogates, if_neg]
  rintro ⟨h₁, h₂, h₃, h₄⟩
  exact h ⟨⟨h₁, h₂⟩, ⟨h₃, h₄⟩⟩

/-- The units of a string are joined to the string again. -/
theorem joinSurrogates_unitsOf {points : List Nat} (h : Paired points) :
    joinSurrogates (points.flatMap unitsOf) = points := by
  obtain ⟨hvalid, hjoined⟩ := h
  induction points with
  | nil => rfl
  | cons n points ih =>
    rw [List.forall_mem_cons] at hvalid
    have hrest := ih hvalid.2 hjoined.tail
    rw [List.flatMap_cons]
    by_cases hsmall : n < 0x10000
    · rw [unitsOf_small hsmall]
      cases points with
      | nil => rfl
      | cons m points =>
        obtain ⟨u, units, hunits, hlow⟩ : ∃ u units,
            unitsOf m = u :: units ∧ (IsLow u → u = m) := by
          by_cases hm : m < 0x10000
          · exact ⟨m, [], unitsOf_small hm, fun _ => rfl⟩
          · refine ⟨_, _, unitsOf_large hm, fun hlow => ?_⟩
            unfold IsLow at hlow
            omega
        have hpair : ¬ (IsHigh n ∧ IsLow u) := by
          rintro ⟨hn, hu⟩
          rw [List.isChain_cons_cons] at hjoined
          exact hjoined.1 ⟨hn, hlow hu ▸ hu⟩
        rw [List.flatMap_cons, hunits] at hrest ⊢
        show joinSurrogates (n :: u :: (units ++ _)) = _
        rw [joinSurrogates_cons hpair]
        exact congrArg (n :: ·) hrest
    · obtain ⟨hhigh, hhigh'⟩ := isHigh_high (n - 0x10000)
      obtain ⟨hlow, hlow'⟩ := isLow_low (n - 0x10000)
      rw [unitsOf_large hsmall]
      show joinSurrogates (_ :: _ :: points.flatMap unitsOf) = _
      rw [joinSurrogates, if_pos ⟨hhigh, hhigh', hlow, hlow'⟩, hrest,
        joined_units hvalid.1 hsmall]

/-- A string comes back as it was. -/
theorem scanString_dumpString {points : List Nat} (h : Paired points) (rest : Str) :
    scanString (points.flatMap dumpPoint ++ '"' :: rest) = .ok (points, rest) := by
  unfold scanString
  rw [scanUnits_dumpString h.valid]
  show Except.ok (joinSurrogates _, rest) = _
  rw [joinSurrogates_unitsOf h]

theorem scanUnits_valid {t rest : Str} {units : List Nat} (h : scanUnits t = some (units, rest)) :
    (∀ n ∈ units, n < 0x110000) ∧ units.length < t.length := by
  fun_induction scanUnits t generalizing units rest with
  | case1 => cases h
  | case2 t =>
    cases h
    exact ⟨fun n hn => absurd hn List.not_mem_nil, Nat.succ_pos _⟩
  | case3 a b c d t hquote ih =>
    simp only [bind, Option.bind_eq_some_iff] at h
    obtain ⟨unit, hunit, ⟨units', rest'⟩, hscan, h⟩ := h
    cases h
    obtain ⟨hvalid, hlen⟩ := ih hscan
    have hsmall : unit < 0x110000 := lt_of_lt_of_le (decodeUXXXX_lt hunit) (by decide)
    refine ⟨List.forall_mem_cons.mpr ⟨hsmall, hvalid⟩, ?_⟩
    simp only [List.length_cons]
    omega
  | case4 e t hlong hquote ih =>
    simp only [bind, Option.bind_eq_some_iff] at h
    obtain ⟨unit, hunit, ⟨units', rest'⟩, hscan, h⟩ := h
    cases h
    obtain ⟨hvalid, hlen⟩ := ih hscan
    refine ⟨List.forall_mem_cons.mpr ⟨backslash_lt hunit, hvalid⟩, ?_⟩
    simp only [List.length_cons]
    omega
  | case5 => cases h
  | case6 => cases h
  | case7 c t hquote hback hcontrol ih =>
    simp only [bind, Option.bind_eq_some_iff] at h
    obtain ⟨⟨units', rest'⟩, hscan, h⟩ := h
    cases h
    obtain ⟨hvalid, hlen⟩ := ih hscan
    refine ⟨List.forall_mem_cons.mpr ⟨char_lt c, hvalid⟩, ?_⟩
    simp only [List.length_cons]
    omega

theorem length_joinSurrogates (units : List Nat) :
    (joinSurrogates units).length ≤ units.length := by
  fun_induction joinSurrogates units with
  | case1 high low units hpair ih =>
    simp only [List.length_cons]
    omega
  | case2 high low units hpair ih =>
    simp only [List.length_cons] at ih ⊢
    omega
  | case3 units hshort => exact le_rfl

/-- A joined text begins as the units do or with a code point of two units. -/
theorem head?_joinSurrogates {u n : Nat} {units : List Nat}
    (h : (joinSurrogates (u :: units)).head? = some n) : n = u ∨ 0x10000 ≤ n := by
  cases units with
  | nil =>
    cases h
    exact Or.inl rfl
  | cons v units =>
    rw [joinSurrogates] at h
    split at h
    · rw [List.head?_cons, Option.some.injEq] at h
      omega
    · cases h
      exact Or.inl rfl

theorem joinSurrogates_paired {units : List Nat} (h : ∀ n ∈ units, n < 0x110000) :
    Paired (joinSurrogates units) := by
  fun_induction joinSurrogates units with
  | case1 high low units hpair ih =>
    rw [List.forall_mem_cons, List.forall_mem_cons] at h
    obtain ⟨hvalid, hjoined⟩ := ih h.2.2
    constructor
    · refine List.forall_mem_cons.mpr ⟨?_, hvalid⟩
      omega
    · refine List.isChain_cons.mpr ⟨?_, hjoined⟩
      rintro n - ⟨hhigh, -⟩
      unfold IsHigh at hhigh
      omega
  | case2 high low units hpair ih =>
    rw [List.forall_mem_cons] at h
    obtain ⟨hvalid, hjoined⟩ := ih h.2
    constructor
    · exact List.forall_mem_cons.mpr ⟨h.1, hvalid⟩
    · refine List.isChain_cons.mpr ⟨?_, hjoined⟩
      rintro n hn ⟨hhigh, hlow⟩
      rcases head?_joinSurrogates hn with rfl | hlarge
      · exact hpair ⟨hhigh.1, hhigh.2, hlow.1, hlow.2⟩
      · unfold IsLow at hlow
        omega
  | case3 units hshort =>
    cases units with
    | nil => exact ⟨nofun, .nil⟩
    | cons u units =>
      cases units with
      | nil => exact ⟨h, .singleton u⟩
      | cons v units => exact absurd rfl (hshort u v units)

/-- What the parser reads as a string is shorter than its text. -/
theorem paired_of_scanString {t rest : Str} {points : List Nat}
    (h : scanString t = .ok (points, rest)) : Paired points ∧ points.length < t.length := by
  unfold scanString at h
  split at h
  · rename_i units u hscan
    cases h
    obtain ⟨hvalid, hlen⟩ := scanUnits_valid hscan
    exact ⟨joinSurrogates_paired hvalid, lt_of_le_of_lt (length_joinSurrogates units) hlen⟩
  · cases h

/-! ## Objects -/

/-- Texts with the default separator of `json.dumps` between them. -/
def joined (texts : List Str) : Str := [',', ' '].intercalate texts

/-- One member of an object, whose value has its text. -/
def dumpMember (name : List Nat) (value : Str) : Str := dumpString name ++ ':' :: ' ' :: value

/-- `json.dumps` of an object, whose values have their texts. -/
def dumpObject (entries : List (List Nat × Str)) : Str :=
  '\x7b' :: (joined (entries.map fun entry => dumpMember entry.1 entry.2) ++ ['\x7d'])

section

variable {α β : Type}

/-- A parse that reads `a`, however many brackets were open before. -/
def Yields (p : Parse α) (a : α) : Prop := ∀ peak, (p.exec peak).1 = .ok a

theorem Yields.pure (a : α) : Yields (Pure.pure a) a := fun _ => rfl

theorem Yields.lift {x : Except Failure α} {a : α} (h : x = .ok a) : Yields (liftM x) a :=
  fun _ => h

theorem Yields.bind {p : Parse α} {f : α → Parse β} {a : α} {b : β} (hp : Yields p a)
    (hf : Yields (f a) b) : Yields (p >>= f) b := by
  intro peak
  have hresult := hp peak
  rw [Script.exec_bind]
  cases hrun : p.exec peak with
  | mk result peak' =>
    rw [hrun] at hresult
    cases hresult
    exact hf peak'

/-- A text that a parser reads as `a`, whatever stands behind it. -/
structure ReadsBack (element : Str → Parse (α × Str)) (text : Str) (a : α) : Prop where
  reads : ∀ rest, Yields (element (text ++ rest)) (a, rest)
  /-- It begins with no white space and closes no bracket. -/
  starts : ∃ c t, text = c :: t ∧ isSpace c = false ∧ ∀ b : BracketKind, c ≠ b.closing

variable {element : Str → Parse (α × Str)} {text : Str} {a : α}

theorem skipSpace_cons {c : Char} (h : isSpace c = false) (t : Str) :
    skipSpace (c :: t) = c :: t := by
  refine List.dropWhile_cons_of_neg ?_
  rw [h]
  exact Bool.false_ne_true

theorem ReadsBack.skipSpace (h : ReadsBack element text a) (rest : Str) :
    skipSpace (text ++ rest) = text ++ rest := by
  obtain ⟨c, t, rfl, hspace, -⟩ := h.starts
  exact skipSpace_cons hspace _

theorem closing_not_space (b : BracketKind) : isSpace b.closing = false := by
  cases b <;> rfl

theorem closing_ne_comma (b : BracketKind) : ',' ≠ b.closing := by
  cases b <;> decide

theorem joined_singleton (text : Str) : joined [text] = text := List.intercalate_singleton

theorem joined_cons (text : Str) (texts : List Str) :
    ∃ rest, joined (text :: texts) = text ++ rest := by
  cases texts with
  | nil => exact ⟨[], by rw [joined_singleton, List.append_nil]⟩
  | cons text' texts =>
    refine ⟨',' :: ' ' :: joined (text' :: texts), ?_⟩
    rw [joined, List.intercalate_cons_cons, List.append_assoc]
    rfl

/-- The loop reads one text after the other. -/
theorem elements_joined {b : BracketKind} {text : Str} {texts : List Str} {a : α} {values : List α}
    (hfirst : ReadsBack element text a) (h : List.Forall₂ (ReadsBack element) texts values)
    {n : Nat} (hn : texts.length < n) (rest : Str) :
    Yields (elements element b.closing n (joined (text :: texts) ++ b.closing :: rest))
      (a :: values, rest) := by
  induction h generalizing n text a with
  | nil =>
    obtain ⟨m, rfl⟩ := Nat.exists_eq_succ_of_ne_zero (Nat.ne_zero_of_lt hn)
    have hskip := skipSpace_cons (closing_not_space b) rest
    rw [elements, joined_singleton]
    refine Yields.bind (hfirst.reads _) ?_
    simp only [hskip, if_true]
    exact Yields.pure _
  | @cons text' a' texts values hsecond htexts ih =>
    obtain ⟨m, rfl⟩ := Nat.exists_eq_succ_of_ne_zero (Nat.ne_zero_of_lt hn)
    have htext : joined (text :: text' :: texts) ++ b.closing :: rest =
        text ++ ',' :: ' ' :: (joined (text' :: texts) ++ b.closing :: rest) := by
      simp [joined, List.intercalate_cons_cons]
    have hcomma : skipSpace (',' :: ' ' :: (joined (text' :: texts) ++ b.closing :: rest)) =
        ',' :: ' ' :: (joined (text' :: texts) ++ b.closing :: rest) := rfl
    have hblank : skipSpace (' ' :: (joined (text' :: texts) ++ b.closing :: rest)) =
        joined (text' :: texts) ++ b.closing :: rest := by
      obtain ⟨u, hu⟩ := joined_cons text' texts
      show skipSpace (joined (text' :: texts) ++ b.closing :: rest) = _
      rw [hu, List.append_assoc, hsecond.skipSpace]
    rw [elements, htext]
    refine Yields.bind (hfirst.reads _) ?_
    simp only [hcomma]
    rw [if_neg (closing_ne_comma b)]
    simp only [if_true, hblank]
    refine Yields.bind (ih hsecond (Nat.lt_of_succ_lt_succ hn)) ?_
    exact Yields.pure _

theorem members_joined {b : BracketKind} {texts : List Str} {values : List α}
    (h : List.Forall₂ (ReadsBack element) texts values) {n : Nat} (hn : texts.length ≤ n)
    (rest : Str) :
    Yields (members element b.closing n (joined texts ++ b.closing :: rest)) (values, rest) := by
  cases h with
  | nil =>
    have hskip : skipSpace (joined [] ++ b.closing :: rest) = b.closing :: rest :=
      skipSpace_cons (closing_not_space b) rest
    unfold members
    simp only [hskip, if_true]
    exact Yields.pure _
  | @cons text a texts values hfirst htexts =>
    have hloop := elements_joined (b := b) hfirst htexts (Nat.lt_of_succ_le hn) rest
    obtain ⟨u, hu⟩ := joined_cons text texts
    obtain ⟨c, t, rfl, hspace, hclosing⟩ := hfirst.starts
    rw [hu] at hloop ⊢
    have hskip : skipSpace (c :: t ++ u ++ b.closing :: rest) =
        c :: (t ++ u ++ b.closing :: rest) := skipSpace_cons hspace _
    unfold members
    simp only [hskip]
    rw [if_neg (hclosing b)]
    exact hloop

end

section

variable {scan : Str → Parse (Tree × Str)} {refuses : Str → Bool} {n opened : Nat}

theorem objectPair_dumpMember {name : List Nat} {text : Str} {value : Tree} (hname : Paired name)
    (hvalue : ReadsBack scan text value) :
    ReadsBack (objectPair scan) (dumpMember name text) (name, value) where
  reads := by
    intro rest
    have htext : dumpMember name text ++ rest =
        '"' :: (name.flatMap dumpPoint ++ '"' :: ':' :: ' ' :: (text ++ rest)) := by
      simp [dumpMember, dumpString]
    have hcolon : skipSpace (':' :: ' ' :: (text ++ rest)) = ':' :: ' ' :: (text ++ rest) := rfl
    have hblank : skipSpace (' ' :: (text ++ rest)) = text ++ rest := hvalue.skipSpace rest
    rw [htext]
    unfold objectPair
    refine Yields.bind (Yields.lift (scanString_dumpString hname _)) ?_
    simp only [hcolon, hblank]
    exact Yields.bind (hvalue.reads rest) (Yields.pure _)
  starts := ⟨'"', _, rfl, rfl, by rintro (_ | _) <;> decide⟩

theorem scanOnce_dumpString {points : List Nat} (h : Paired points) :
    ReadsBack (scanOnce refuses (n + 1) opened) (dumpString points) (.str points) where
  reads := by
    intro rest
    have htext : dumpString points ++ rest = '"' :: (points.flatMap dumpPoint ++ '"' :: rest) := by
      simp [dumpString]
    rw [htext]
    exact Yields.bind (Yields.lift (scanString_dumpString h rest)) (Yields.pure _)
  starts := ⟨'"', _, rfl, rfl, by rintro (_ | _) <;> decide⟩

theorem scanOnce_null :
    ReadsBack (scanOnce refuses (n + 1) opened) "null".toList .null where
  reads := by
    intro rest
    have htext : "null".toList ++ rest = 'n' :: 'u' :: 'l' :: 'l' :: rest := rfl
    have hnumber : matchNumber ('n' :: 'u' :: 'l' :: 'l' :: rest) = none := rfl
    have hword : word ('n' :: 'u' :: 'l' :: 'l' :: rest) = some (.null, rest) := by
      simp [word, words, List.dropPrefix?]
    have hatom : atom refuses ('n' :: 'u' :: 'l' :: 'l' :: rest) = .ok (.null, rest) := by
      unfold atom
      rw [hnumber, hword]
    rw [htext]
    exact Yields.lift hatom
  starts := ⟨'n', _, rfl, rfl, by rintro (_ | _) <;> decide⟩

/-- A member's name and value have the member's text. -/
structure Written (scan : Str → Parse (Tree × Str)) (entry : List Nat × Str)
    (pair : List Nat × Tree) : Prop where
  name : entry.1 = pair.1
  paired : Paired pair.1
  value : ReadsBack scan entry.2 pair.2

theorem scanOnce_dumpObject {entries : List (List Nat × Str)} {pairs : List (List Nat × Tree)}
    (h : List.Forall₂ (Written (scanOnce refuses n (opened + 1))) entries pairs)
    (hn : entries.length ≤ n) :
    ReadsBack (scanOnce refuses (n + 1) opened) (dumpObject entries) (.obj pairs) where
  reads := by
    intro rest
    have htext : dumpObject entries ++ rest = '\x7b' ::
        (joined (entries.map fun entry => dumpMember entry.1 entry.2) ++ '\x7d' :: rest) := by
      simp [dumpObject]
    have htexts : List.Forall₂ (ReadsBack (objectPair (scanOnce refuses n (opened + 1))))
        (entries.map fun entry => dumpMember entry.1 entry.2) pairs := by
      rw [List.forall₂_map_left_iff]
      refine h.imp ?_
      rintro entry ⟨name, value⟩ ⟨hname, hpaired, hvalue⟩
      cases hname
      exact objectPair_dumpMember hpaired hvalue
    have hmembers := members_joined (b := .brace) htexts (n := n) (by simpa using hn) rest
    have henter : Yields (enter (opened + 1)) ⟨⟩ := fun _ => rfl
    rw [htext]
    exact Yields.bind henter (Yields.bind hmembers (Yields.pure _))
  starts := ⟨'\x7b', _, rfl, rfl, by rintro (_ | _) <;> decide⟩

/-- A text that is read back is the whole text of its value. -/
theorem decode_readsBack {s : Str} {tree : Tree}
    (h : ReadsBack (scanOnce refuses (s.length + 1) 0) s tree) :
    Yields (decode (rawDecode refuses) s) tree := by
  have hskip : skipSpace s = s := by simpa using h.skipSpace []
  have hreads : Yields (rawDecode refuses (skipSpace s)) (tree, []) := by
    have hall := h.reads []
    rw [List.append_nil] at hall
    rw [hskip]
    exact hall
  unfold decode
  refine Yields.bind hreads ?_
  exact Yields.pure tree

end

/-! ## Characters and lengths -/

def Ascii (t : Str) : Prop := ∀ c ∈ t, c.toNat < 128

theorem Ascii.nil : Ascii [] := nofun

theorem Ascii.cons {c : Char} {t : Str} (hc : c.toNat < 128) (h : Ascii t) : Ascii (c :: t) :=
  List.forall_mem_cons.mpr ⟨hc, h⟩

theorem Ascii.append {t u : Str} (h : Ascii t) (hu : Ascii u) : Ascii (t ++ u) :=
  List.forall_mem_append.mpr ⟨h, hu⟩

theorem hexDigit_ascii (n : Nat) : (hexDigit n).toNat < 128 := by
  have hsmall : ∀ m < 16, (Nat.digitChar m).toNat < 128 := by decide
  exact hsmall (n % 16) (Nat.mod_lt _ (by decide))

theorem dumpUnit_ascii (n : Nat) : Ascii (dumpUnit n) := by
  have hdigits : hexPadded 4 n = [hexDigit (n / 16 / 16 / 16), hexDigit (n / 16 / 16),
      hexDigit (n / 16), hexDigit n] := rfl
  rw [dumpUnit, hdigits]
  refine Ascii.cons (by decide) (Ascii.cons (by decide) ?_)
  exact Ascii.cons (hexDigit_ascii _) (Ascii.cons (hexDigit_ascii _)
    (Ascii.cons (hexDigit_ascii _) (Ascii.cons (hexDigit_ascii _) Ascii.nil)))

/-- How many characters a code point takes. -/
def pointWidth (n : Nat) : Nat :=
  if (escapes.lookup n).isSome then 2
  else if 32 ≤ n ∧ n ≤ 126 then 1
  else if n < 0x10000 then 6
  else 12

theorem dumpPoint_ascii (n : Nat) : Ascii (dumpPoint n) := by
  unfold dumpPoint
  cases hescape : escapes.lookup n with
  | some e =>
    have hall : (escapes.all fun p => decide (p.2.toNat < 128)) = true := by decide
    obtain ⟨l₁, l₂, hsplit, -⟩ := List.lookup_eq_some_iff.mp hescape
    have hmem : (n, e) ∈ escapes := by
      rw [hsplit]
      simp
    have he : e.toNat < 128 := of_decide_eq_true (List.all_eq_true.mp hall (n, e) hmem)
    exact Ascii.cons (by decide) (Ascii.cons he Ascii.nil)
  | none =>
    dsimp only
    split
    · have hascii : ∀ m < 127, (Char.ofNat m).toNat < 128 := by decide
      exact Ascii.cons (hascii n (by omega)) Ascii.nil
    · split
      · exact dumpUnit_ascii n
      · exact (dumpUnit_ascii _).append (dumpUnit_ascii _)

theorem length_dumpPoint (n : Nat) : (dumpPoint n).length = pointWidth n := by
  unfold dumpPoint pointWidth
  cases escapes.lookup n with
  | some e => rfl
  | none =>
    dsimp only [Option.isSome_none]
    rw [if_neg Bool.false_ne_true]
    split
    · rfl
    · split
      · rfl
      · rfl

/-- How many characters a string takes. -/
def stringWidth (points : List Nat) : Nat := (points.map pointWidth).sum + 2

theorem length_dumpString (points : List Nat) :
    (dumpString points).length = stringWidth points := by
  have hbody : (points.flatMap dumpPoint).length = (points.map pointWidth).sum := by
    rw [List.length_flatMap]
    simp only [length_dumpPoint]
  rw [dumpString, List.length_cons, List.length_append, hbody, stringWidth, List.length_singleton]

theorem dumpString_ascii (points : List Nat) : Ascii (dumpString points) := by
  refine Ascii.cons (by decide) (Ascii.append ?_ (Ascii.cons (by decide) Ascii.nil))
  intro c hc
  obtain ⟨n, -, hn⟩ := List.mem_flatMap.mp hc
  exact dumpPoint_ascii n c hn

theorem joined_ascii {texts : List Str} (h : ∀ t ∈ texts, Ascii t) : Ascii (joined texts) := by
  induction texts with
  | nil => exact Ascii.nil
  | cons t texts ih =>
    rw [List.forall_mem_cons] at h
    cases texts with
    | nil =>
      rw [joined_singleton]
      exact h.1
    | cons u texts =>
      rw [joined, List.intercalate_cons_cons]
      refine (h.1.append ?_).append (ih h.2)
      exact Ascii.cons (by decide) (Ascii.cons (by decide) Ascii.nil)

theorem dumpMember_ascii {name : List Nat} {value : Str} (h : Ascii value) :
    Ascii (dumpMember name value) :=
  (dumpString_ascii name).append (Ascii.cons (by decide) (Ascii.cons (by decide) h))

theorem dumpObject_ascii {entries : List (List Nat × Str)} (h : ∀ entry ∈ entries, Ascii entry.2) :
    Ascii (dumpObject entries) := by
  refine Ascii.cons (by decide) (Ascii.append (joined_ascii ?_) (Ascii.cons (by decide) Ascii.nil))
  rw [List.forall_mem_map]
  exact fun entry hentry => dumpMember_ascii (h entry hentry)

theorem length_dumpMember (name : List Nat) (value : Str) :
    (dumpMember name value).length = stringWidth name + (value.length + 2) := by
  rw [dumpMember, List.length_append, length_dumpString, List.length_cons, List.length_cons]

theorem length_joined_cons (text text' : Str) (texts : List Str) :
    (joined (text :: text' :: texts)).length =
      text.length + (joined (text' :: texts)).length + 2 := by
  rw [joined, List.intercalate_cons_cons, List.length_append, List.length_append]
  show text.length + 2 + _ = text.length + (joined (text' :: texts)).length + 2
  exact Nat.add_right_comm _ _ _

theorem length_dumpObject (entries : List (List Nat × Str)) :
    (dumpObject entries).length =
      (joined (entries.map fun entry => dumpMember entry.1 entry.2)).length + 2 := by
  rw [dumpObject, List.length_cons, List.length_append, List.length_singleton]

/-! ## The strings of a text -/

section

variable {α β : Type}

/-- What a parse reads, when it reads anything. -/
def Returns (p : Parse α) (Q : α → Prop) : Prop :=
  Script.Triple (fun _ => True) p (fun a _ => Q a) fun _ _ => True

theorem Returns.pure {a : α} {Q : α → Prop} (h : Q a) : Returns (Pure.pure a) Q :=
  fun _ _ => h

theorem Returns.throw {e : Failure} {Q : α → Prop} :
    Returns (MonadExcept.throw e : Parse α) Q := fun _ _ => trivial

theorem Returns.lift {x : Except Failure α} {Q : α → Prop} (h : ∀ a, x = .ok a → Q a) :
    Returns (liftM x) Q :=
  Script.Triple.lift (fun a ha _ _ => h a ha) fun _ _ _ _ => trivial

theorem Returns.bind {p : Parse α} {f : α → Parse β} {Q : α → Prop} {R : β → Prop}
    (hp : Returns p Q) (hf : ∀ a, Q a → Returns (f a) R) : Returns (p >>= f) R :=
  Script.Triple.bind hp fun a s ha => hf a ha s trivial

theorem length_skipSpace (t : Str) : (skipSpace t).length ≤ t.length :=
  (List.dropWhile_sublist isSpace).length_le

variable {element : Str → Parse (α × Str)} {Q : α → Nat → Prop}

/-- What holds of each element, for the length of the text it was read from, holds of all. -/
theorem elements_returns (closing : Char) (hmono : ∀ a m n, m ≤ n → Q a m → Q a n)
    (helement : ∀ t, Returns (element t) fun r => r.2.length ≤ t.length ∧ Q r.1 t.length)
    (n : Nat) (t : Str) :
    Returns (elements element closing n t) fun r =>
      r.2.length ≤ t.length ∧ ∀ a ∈ r.1, Q a t.length := by
  induction n generalizing t with
  | zero => exact Returns.throw
  | succ n ih =>
    rw [elements]
    refine Returns.bind (helement t) ?_
    rintro ⟨value, rest⟩ ⟨(hlen : rest.length ≤ t.length), hvalue⟩
    have hskip := length_skipSpace rest
    cases hrest : skipSpace rest with
    | nil =>
      simp only [hrest]
      exact Returns.throw
    | cons c u =>
      rw [hrest, List.length_cons] at hskip
      simp only [hrest]
      by_cases hclose : c = closing
      · rw [if_pos hclose]
        refine Returns.pure ⟨show u.length ≤ t.length by omega, ?_⟩
        rw [List.forall_mem_singleton]
        exact hvalue
      · rw [if_neg hclose]
        by_cases hcomma : c = ','
        · have hnext := length_skipSpace u
          rw [if_pos hcomma]
          refine Returns.bind (ih (skipSpace u)) ?_
          rintro ⟨values, last⟩ ⟨(hlast : last.length ≤ (skipSpace u).length), hvalues⟩
          refine Returns.pure ⟨show last.length ≤ t.length by omega, ?_⟩
          rw [List.forall_mem_cons]
          exact ⟨hvalue, fun a ha => hmono a _ _ (by omega) (hvalues a ha)⟩
        · rw [if_neg hcomma]
          exact Returns.throw

theorem members_returns (closing : Char) (hmono : ∀ a m n, m ≤ n → Q a m → Q a n)
    (helement : ∀ t, Returns (element t) fun r => r.2.length ≤ t.length ∧ Q r.1 t.length)
    (n : Nat) (t : Str) :
    Returns (members element closing n t) fun r =>
      r.2.length ≤ t.length ∧ ∀ a ∈ r.1, Q a t.length := by
  have hskip := length_skipSpace t
  have hloop := elements_returns closing hmono helement n
  unfold members
  cases hrest : skipSpace t with
  | nil =>
    refine Script.Triple.conseq (hloop []) (fun _ h => h) ?_ fun _ _ h => h
    rintro ⟨values, rest⟩ - ⟨hlen, hvalues⟩
    exact ⟨le_trans hlen (Nat.zero_le _), fun a ha => hmono a _ _ (Nat.zero_le _) (hvalues a ha)⟩
  | cons c u =>
    rw [hrest] at hskip
    by_cases hclose : c = closing
    · simp only [hclose, if_true]
      exact Returns.pure ⟨le_trans (Nat.le_succ _) hskip, nofun⟩
    · simp only [if_neg hclose]
      refine Script.Triple.conseq (hloop (c :: u)) (fun _ h => h) ?_ fun _ _ h => h
      rintro ⟨values, rest⟩ - ⟨hlen, hvalues⟩
      exact ⟨le_trans hlen hskip, fun a ha => hmono a _ _ hskip (hvalues a ha)⟩

end

/-- The strings of a value that is read, its own and those of its members, have their surrogates
joined and are shorter than the text. -/
structure Spelled (tree : Tree) (length : Nat) : Prop where
  own : ∀ d, tree = .str d → Paired d ∧ d.length < length
  member : ∀ pairs, tree = .obj pairs → ∀ pair ∈ pairs, ∀ d, pair.2 = .str d →
    Paired d ∧ d.length < length

theorem Spelled.mono {tree : Tree} {m n : Nat} (hn : m ≤ n) (h : Spelled tree m) :
    Spelled tree n where
  own := by
    intro d hd
    obtain ⟨hpaired, hlen⟩ := h.own d hd
    exact ⟨hpaired, lt_of_lt_of_le hlen hn⟩
  member := by
    intro pairs hpairs pair hpair d hd
    obtain ⟨hpaired, hlen⟩ := h.member pairs hpairs pair hpair d hd
    exact ⟨hpaired, lt_of_lt_of_le hlen hn⟩

theorem words_ne_str : ∀ entry ∈ words, ∀ d, entry.2 ≠ .str d := by
  intro entry hentry d
  simp only [words, List.mem_cons, List.not_mem_nil, or_false] at hentry
  rcases hentry with rfl | rfl | rfl | rfl | rfl | rfl
  all_goals
    intro h
    cases h

theorem atom_ne_str {refuses : Str → Bool} {t rest : Str} {tree : Tree}
    (h : atom refuses t = .ok (tree, rest)) (d : List Nat) : tree ≠ .str d := by
  unfold atom at h
  split at h
  · split at h
    · cases h
      intro heq
      cases heq
    · split at h
      · cases h
      · cases h
        intro heq
        cases heq
  · split at h
    · rename_i found hword
      cases h
      obtain ⟨entry, hmem, hname⟩ := List.exists_of_findSome?_eq_some hword
      obtain ⟨u, -, hsame⟩ := Option.map_eq_some_iff.mp hname
      cases hsame
      exact words_ne_str entry hmem d
    · cases h

theorem scanString_returns {t rest : Str} {points : List Nat}
    (h : scanString t = .ok (points, rest)) : rest.length ≤ t.length := by
  obtain ⟨c, -, ht, hne⟩ := nested_scanString h
  have hlen := congrArg List.length ht
  have hpos := List.length_pos_of_ne_nil hne
  rw [List.length_cons, List.length_append] at hlen
  omega

theorem objectPair_returns {scan : Str → Parse (Tree × Str)}
    (hscan : ∀ t, Returns (scan t) fun r => r.2.length ≤ t.length ∧ Spelled r.1 t.length)
    (t : Str) :
    Returns (objectPair scan t) fun r => r.2.length ≤ t.length ∧ Spelled r.1.2 t.length := by
  unfold objectPair
  split
  · rename_i u
    refine Returns.bind (Returns.lift fun a ha => ha) ?_
    rintro ⟨key, v⟩ hkey
    have hv := scanString_returns hkey
    have hskip := length_skipSpace v
    dsimp only
    split
    · rename_i w hw
      have hnext := length_skipSpace w
      rw [hw, List.length_cons] at hskip
      refine Returns.bind (hscan _) ?_
      rintro ⟨value, rest⟩ ⟨(hlen : rest.length ≤ (skipSpace w).length), hvalue⟩
      refine Returns.pure ⟨show rest.length ≤ u.length + 1 by omega, ?_⟩
      refine hvalue.mono ?_
      rw [List.length_cons]
      omega
    · exact Returns.throw
  · exact Returns.throw

theorem scanOnce_returns (refuses : Str → Bool) (n opened : Nat) (t : Str) :
    Returns (scanOnce refuses n opened t) fun r =>
      r.2.length ≤ t.length ∧ Spelled r.1 t.length := by
  induction n generalizing opened t with
  | zero => exact Returns.throw
  | succ n ih =>
    rw [scanOnce.eq_def]
    dsimp only
    split
    · rename_i u
      refine Returns.bind (Returns.lift fun a ha => ha) ?_
      rintro ⟨points, rest⟩ hpoints
      have hrest := scanString_returns hpoints
      obtain ⟨hpaired, hlen⟩ := paired_of_scanString hpoints
      refine Returns.pure ⟨show rest.length ≤ u.length + 1 by omega, ?_, ?_⟩
      · intro d hd
        cases hd
        exact ⟨hpaired, lt_trans hlen (Nat.lt_succ_self _)⟩
      · intro pairs hpairs
        cases hpairs
    · rename_i u
      have hpairs := members_returns BracketKind.brace.closing
        (Q := fun pair : List Nat × Tree => Spelled pair.2) (fun _ _ _ => Spelled.mono)
        (objectPair_returns (ih (opened + 1))) n u
      refine Returns.bind (Q := fun _ => True) (fun _ _ => trivial) fun _ _ => ?_
      refine Returns.bind hpairs ?_
      rintro ⟨pairs, rest⟩ ⟨hlen, hspelled⟩
      refine Returns.pure ⟨le_trans hlen (Nat.le_succ _), ?_, ?_⟩
      · intro d hd
        cases hd
      · intro pairs' hpairs' pair hpair d hd
        cases hpairs'
        obtain ⟨hpaired, hshort⟩ := (hspelled pair hpair).own d hd
        exact ⟨hpaired, lt_trans hshort (Nat.lt_succ_self _)⟩
    · rename_i u
      have hitems := members_returns BracketKind.square.closing
        (Q := Spelled) (fun _ _ _ => Spelled.mono) (ih (opened + 1)) n u
      refine Returns.bind (Q := fun _ => True) (fun _ _ => trivial) fun _ _ => ?_
      refine Returns.bind hitems ?_
      rintro ⟨items, rest⟩ ⟨hlen, -⟩
      refine Returns.pure ⟨le_trans hlen (Nat.le_succ _), ?_, ?_⟩
      · intro d hd
        cases hd
      · intro pairs hpairs
        cases hpairs
    · refine Returns.lift ?_
      rintro ⟨tree, rest⟩ hatom
      obtain ⟨token, hsplit, -, hdepth⟩ := splits_atom hatom
      refine ⟨?_, fun d hd => absurd hd (atom_ne_str hatom d), fun pairs hpairs => ?_⟩
      · rw [hsplit.eq, List.length_append]
        exact Nat.le_add_left _ _
      · cases hpairs
        exact absurd hdepth (Nat.succ_ne_zero _)

/-- The strings among the members of an object that is read. -/
theorem member_of_decode {refuses : Str → Bool} {s : Str} {pairs : List (List Nat × Tree)}
    (h : ((decode (rawDecode refuses) s).exec 0).1 = .ok (.obj pairs)) {name d : List Nat}
    (hmem : (name, .str d) ∈ pairs) : Paired d ∧ d.length < s.length := by
  have hreturns := scanOnce_returns refuses ((skipSpace s).length + 1) 0 (skipSpace s) 0 trivial
  rw [exec_decode] at h
  unfold rawDecode at h
  split at h
  · rename_i tree rest peak hrun
    rw [hrun] at hreturns
    split at h
    · cases h
      obtain ⟨hpaired, hlen⟩ := hreturns.2.member pairs rfl _ hmem d rfl
      exact ⟨hpaired, lt_of_lt_of_le hlen (length_skipSpace s)⟩
    · cases h
  · cases h

end ZaqorinCore.Text.JsonText
