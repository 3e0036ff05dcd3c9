import ZaqorinCore.Text.Hex

/-!
# Character classes, letter case and numerals

The parts of the Unicode tables that the two runtimes consult: white space, decimal
digits and the lowercase mapping. `lower` and `pyInt` are Python's `str.lower()` and
`int(str)`; `trimSpace` and `toLower` are Go's `strings.TrimSpace` and `strings.ToLower`,
which read a byte string rune by rune and treat a byte that starts no rune as U+FFFD.
-/

namespace ZaqorinCore.Text

/-! ## Tables -/

/-- Code points of `str.isspace()`. -/
def pySpace (n : Nat) : Bool :=
  (9 ≤ n && n ≤ 13) || (28 ≤ n && n ≤ 32) || n == 0x85 || n == 0xA0 || n == 0x1680 ||
    (0x2000 ≤ n && n ≤ 0x200A) || n == 0x2028 || n == 0x2029 || n == 0x202F || n == 0x205F ||
    n == 0x3000

/-- Code points of Go's `unicode.IsSpace`: unlike Python's, without U+001C to U+001F. -/
def goSpace (n : Nat) : Bool :=
  (9 ≤ n && n ≤ 13) || n == 32 || n == 0x85 || n == 0xA0 || n == 0x1680 ||
    (0x2000 ≤ n && n ≤ 0x200A) || n == 0x2028 || n == 0x2029 || n == 0x202F || n == 0x205F ||
    n == 0x3000

/-- The zeros of the runs of ten decimal digits (general category Nd). -/
def decimalZeros : List Nat := [
  48, 1632, 1776, 1984, 2406, 2534, 2662, 2790, 2918, 3046, 3174, 3302, 3430, 3558, 3664, 3792,
  3872, 4160, 4240, 6112, 6160, 6470, 6608, 6784, 6800, 6992, 7088, 7232, 7248, 42528, 43216,
  43264, 43472, 43504, 43600, 44016, 65296, 66720, 68912, 69734, 69872, 69942, 70096, 70384,
  70736, 70864, 71248, 71360, 71472, 71904, 72016, 72784, 73040, 73120, 92768, 92864, 93008,
  120782, 120792, 120802, 120812, 120822, 123200, 123632, 125264, 130032]

/-- `unicodedata.decimal`: the value of a decimal digit of any script. -/
def decimalValue (n : Nat) : Option Nat :=
  (decimalZeros.find? fun z => z ≤ n && n < z + 10).map (n - ·)

/-- Runs of the one-to-one lowercase mapping: first and last code point, stride, and the
image of the first. -/
def lowerRuns : List (Nat × Nat × Nat × Nat) := [
  (65, 90, 1, 97), (192, 214, 1, 224), (216, 222, 1, 248), (256, 302, 2, 257),
  (306, 310, 2, 307), (313, 327, 2, 314), (330, 374, 2, 331), (376, 376, 1, 255),
  (377, 381, 2, 378), (385, 385, 1, 595), (386, 388, 2, 387), (390, 390, 1, 596),
  (391, 391, 1, 392), (393, 394, 1, 598), (395, 395, 1, 396), (398, 398, 1, 477),
  (399, 399, 1, 601), (400, 400, 1, 603), (401, 401, 1, 402), (403, 403, 1, 608),
  (404, 404, 1, 611), (406, 406, 1, 617), (407, 407, 1, 616), (408, 408, 1, 409),
  (412, 412, 1, 623), (413, 413, 1, 626), (415, 415, 1, 629), (416, 420, 2, 417),
  (422, 422, 1, 640), (423, 423, 1, 424), (425, 425, 1, 643), (428, 428, 1, 429),
  (430, 430, 1, 648), (431, 431, 1, 432), (433, 434, 1, 650), (435, 437, 2, 436),
  (439, 439, 1, 658), (440, 440, 1, 441), (444, 444, 1, 445), (452, 452, 1, 454),
  (453, 453, 1, 454), (455, 455, 1, 457), (456, 456, 1, 457), (458, 458, 1, 460),
  (459, 475, 2, 460), (478, 494, 2, 479), (497, 497, 1, 499), (498, 500, 2, 499),
  (502, 502, 1, 405), (503, 503, 1, 447), (504, 542, 2, 505), (544, 544, 1, 414),
  (546, 562, 2, 547), (570, 570, 1, 11365), (571, 571, 1, 572), (573, 573, 1, 410),
  (574, 574, 1, 11366), (577, 577, 1, 578), (579, 579, 1, 384), (580, 580, 1, 649),
  (581, 581, 1, 652), (582, 590, 2, 583), (880, 882, 2, 881), (886, 886, 1, 887),
  (895, 895, 1, 1011), (902, 902, 1, 940), (904, 906, 1, 941), (908, 908, 1, 972),
  (910, 911, 1, 973), (913, 929, 1, 945), (931, 939, 1, 963), (975, 975, 1, 983),
  (984, 1006, 2, 985), (1012, 1012, 1, 952), (1015, 1015, 1, 1016), (1017, 1017, 1, 1010),
  (1018, 1018, 1, 1019), (1021, 1023, 1, 891), (1024, 1039, 1, 1104), (1040, 1071, 1, 1072),
  (1120, 1152, 2, 1121), (1162, 1214, 2, 1163), (1216, 1216, 1, 1231), (1217, 1229, 2, 1218),
  (1232, 1326, 2, 1233), (1329, 1366, 1, 1377), (4256, 4293, 1, 11520), (4295, 4295, 1, 11559),
  (4301, 4301, 1, 11565), (5024, 5103, 1, 43888), (5104, 5109, 1, 5112), (7312, 7354, 1, 4304),
  (7357, 7359, 1, 4349), (7680, 7828, 2, 7681), (7838, 7838, 1, 223), (7840, 7934, 2, 7841),
  (7944, 7951, 1, 7936), (7960, 7965, 1, 7952), (7976, 7983, 1, 7968), (7992, 7999, 1, 7984),
  (8008, 8013, 1, 8000), (8025, 8031, 2, 8017), (8040, 8047, 1, 8032), (8072, 8079, 1, 8064),
  (8088, 8095, 1, 8080), (8104, 8111, 1, 8096), (8120, 8121, 1, 8112), (8122, 8123, 1, 8048),
  (8124, 8124, 1, 8115), (8136, 8139, 1, 8050), (8140, 8140, 1, 8131), (8152, 8153, 1, 8144),
  (8154, 8155, 1, 8054), (8168, 8169, 1, 8160), (8170, 8171, 1, 8058), (8172, 8172, 1, 8165),
  (8184, 8185, 1, 8056), (8186, 8187, 1, 8060), (8188, 8188, 1, 8179), (8486, 8486, 1, 969),
  (8490, 8490, 1, 107), (8491, 8491, 1, 229), (8498, 8498, 1, 8526), (8544, 8559, 1, 8560),
  (8579, 8579, 1, 8580), (9398, 9423, 1, 9424), (11264, 11311, 1, 11312),
  (11360, 11360, 1, 11361), (11362, 11362, 1, 619), (11363, 11363, 1, 7549),
  (11364, 11364, 1, 637), (11367, 11371, 2, 11368), (11373, 11373, 1, 593),
  (11374, 11374, 1, 625), (11375, 11375, 1, 592), (11376, 11376, 1, 594),
  (11378, 11378, 1, 11379), (11381, 11381, 1, 11382), (11390, 11391, 1, 575),
  (11392, 11490, 2, 11393), (11499, 11501, 2, 11500), (11506, 11506, 1, 11507),
  (42560, 42604, 2, 42561), (42624, 42650, 2, 42625), (42786, 42798, 2, 42787),
  (42802, 42862, 2, 42803), (42873, 42875, 2, 42874), (42877, 42877, 1, 7545),
  (42878, 42886, 2, 42879), (42891, 42891, 1, 42892), (42893, 42893, 1, 613),
  (42896, 42898, 2, 42897), (42902, 42920, 2, 42903), (42922, 42922, 1, 614),
  (42923, 42923, 1, 604), (42924, 42924, 1, 609), (42925, 42925, 1, 620),
  (42926, 42926, 1, 618), (42928, 42928, 1, 670), (42929, 42929, 1, 647),
  (42930, 42930, 1, 669), (42931, 42931, 1, 43859), (42932, 42946, 2, 42933),
  (42948, 42948, 1, 42900), (42949, 42949, 1, 642), (42950, 42950, 1, 7566),
  (42951, 42953, 2, 42952), (42960, 42960, 1, 42961), (42966, 42968, 2, 42967),
  (42997, 42997, 1, 42998), (65313, 65338, 1, 65345), (66560, 66599, 1, 66600),
  (66736, 66771, 1, 66776), (66928, 66938, 1, 66967), (66940, 66954, 1, 66979),
  (66956, 66962, 1, 66995), (66964, 66965, 1, 67003), (68736, 68786, 1, 68800),
  (71840, 71871, 1, 71872), (93760, 93791, 1, 93792), (125184, 125217, 1, 125218)]

/-- The one-to-one lowercase mapping of a code point. -/
def lowerRune (n : Nat) : Nat :=
  match lowerRuns.find? fun r => r.1 ≤ n && n ≤ r.2.1 && (n - r.1) % r.2.2.1 == 0 with
  | some (lo, _, _, image) => image + (n - lo)
  | none => n

set_option maxRecDepth 4096 in
theorem lowerRuns_spec :
    ∀ r ∈ lowerRuns, (r.1 = 65 ∧ r.2.1 = 90) ∨ 192 ≤ r.1 := by
  decide +kernel

/-- Outside the capital letters the lowercase mapping fixes ASCII. -/
theorem lowerRune_of_ascii {n : Nat} (h : n < 65 ∨ 90 < n) (hn : n < 128) : lowerRune n = n := by
  have hnone : lowerRuns.find?
      (fun r => r.1 ≤ n && n ≤ r.2.1 && (n - r.1) % r.2.2.1 == 0) = none := by
    rw [List.find?_eq_none]
    intro r hr
    rcases lowerRuns_spec r hr with hr | hr <;> simp <;> omega
  rw [lowerRune, hnone]

/-! ## Python's `str.lower()` -/

/-- The lowercase of one character. U+0130 is the one character with two; a capital
sigma has two images, and which one is used depends on where it stands. -/
def lowerChar (final : Bool) (c : Char) : Str :=
  if c.toNat = 0x130 then ['i', Char.ofNat 0x307]
  else if c.toNat = 0x3A3 then [if final then 'ς' else 'σ']
  else [Char.ofNat (lowerRune c.toNat)]

/-- `str.lower()` of the text `s` that follows `before`. `finalSigma before after` is
Unicode's Final_Sigma condition on a capital sigma between the two texts. -/
def lowerFrom (finalSigma : Str → Str → Bool) : Str → Str → Str
  | _, [] => []
  | before, c :: after =>
    lowerChar (finalSigma before after) c ++ lowerFrom finalSigma (before ++ [c]) after

/-- `str.lower()`. -/
def lower (finalSigma : Str → Str → Bool) (s : Str) : Str := lowerFrom finalSigma [] s

theorem hexAlphabet_ascii : ∀ c ∈ hexAlphabet, (c.toNat < 65 ∨ 90 < c.toNat) ∧ c.toNat < 128 := by
  simp [hexAlphabet]

theorem lowerRune_hex {c : Char} (h : c ∈ hexAlphabet) : Char.ofNat (lowerRune c.toNat) = c := by
  obtain ⟨hcase, hascii⟩ := hexAlphabet_ascii c h
  rw [lowerRune_of_ascii hcase hascii, Char.ofNat_toNat]

theorem lowerChar_hex {c : Char} (h : c ∈ hexAlphabet) (final : Bool) :
    lowerChar final c = [c] := by
  have hascii := (hexAlphabet_ascii c h).2
  rw [lowerChar, if_neg (by omega), if_neg (by omega), lowerRune_hex h]

theorem lower_of_mem_hex (finalSigma : Str → Str → Bool) {s : Str} (h : ∀ c ∈ s, c ∈ hexAlphabet) :
    lower finalSigma s = s := by
  suffices ∀ before, lowerFrom finalSigma before s = s from this []
  induction s with
  | nil => exact fun _ => rfl
  | cons c s ih =>
    intro before
    rw [lowerFrom, lowerChar_hex (h c List.mem_cons_self),
      ih (fun d hd => h d (List.mem_cons_of_mem _ hd))]
    rfl

/-! ## Go's rune decoding -/

/-- A continuation byte of a UTF-8 sequence, restricted to `lo..hi`. -/
def contIn (lo hi : Nat) (b : UInt8) : Bool := lo ≤ b.toNat && b.toNat ≤ hi

/-- The range of the second byte after a leading byte, as `utf8.DecodeRune` restricts it
to exclude overlong forms, surrogates and values above U+10FFFF. -/
def secondRange (b : Nat) : Nat × Nat :=
  if b = 0xE0 then (0xA0, 0xBF)
  else if b = 0xED then (0x80, 0x9F)
  else if b = 0xF0 then (0x90, 0xBF)
  else if b = 0xF4 then (0x80, 0x8F)
  else (0x80, 0xBF)

/-- `utf8.RuneError`. -/
def runeError : Nat := 0xFFFD

/-- `utf8.DecodeRune`: the first rune of a nonempty byte string and its width. -/
def decodeRune (b : UInt8) (rest : Bytes) : Nat × Nat :=
  let n := b.toNat
  let (lo, hi) := secondRange n
  if n < 0x80 then (n, 1)
  else if 0xC2 ≤ n ∧ n ≤ 0xDF then
    match rest with
    | c :: _ => if contIn lo hi c then (n % 32 * 64 + c.toNat % 64, 2) else (runeError, 1)
    | _ => (runeError, 1)
  else if 0xE0 ≤ n ∧ n ≤ 0xEF then
    match rest with
    | c :: d :: _ =>
      if contIn lo hi c && contIn 0x80 0xBF d then
        (n % 16 * 4096 + c.toNat % 64 * 64 + d.toNat % 64, 3)
      else (runeError, 1)
    | _ => (runeError, 1)
  else if 0xF0 ≤ n ∧ n ≤ 0xF4 then
    match rest with
    | c :: d :: e :: _ =>
      if contIn lo hi c && contIn 0x80 0xBF d && contIn 0x80 0xBF e then
        (n % 8 * 262144 + c.toNat % 64 * 4096 + d.toNat % 64 * 64 + e.toNat % 64, 4)
      else (runeError, 1)
    | _ => (runeError, 1)
  else (runeError, 1)

/-- The runes of a byte string, each with the bytes it was read from. The first argument
counts the bytes of the rune being read that are still to be skipped. -/
def runesFrom : Nat → Bytes → List (Nat × Bytes)
  | _, [] => []
  | k + 1, _ :: rest => runesFrom k rest
  | 0, b :: rest =>
    let (r, w) := decodeRune b rest
    (r, (b :: rest).take w) :: runesFrom (w - 1) rest

/-- The runes a Go `for range` over a string visits. -/
def runes (s : Bytes) : List (Nat × Bytes) := runesFrom 0 s

/-- `strings.TrimSpace`. -/
def trimSpace (s : Bytes) : Bytes :=
  let kept := ((runes s).dropWhile fun r => goSpace r.1).reverse
  ((kept.dropWhile fun r => goSpace r.1).reverse).flatMap Prod.snd

/-- `strings.ToLower`. U+0130 has the one-rune image `i` here. -/
def toLower (s : Bytes) : Bytes :=
  (runes s).flatMap fun r =>
    utf8 [Char.ofNat (if r.1 = 0x130 then 0x69 else lowerRune r.1)]

theorem runes_cons_ascii {b : UInt8} (h : b.toNat < 0x80) (s : Bytes) :
    runes (b :: s) = (b.toNat, [b]) :: runes s := by
  simp [runes, runesFrom, decodeRune, h]

theorem runes_of_ascii {s : Bytes} (h : ∀ b ∈ s, b.toNat < 0x80) :
    runes s = s.map fun b => (b.toNat, [b]) := by
  induction s with
  | nil => rfl
  | cons b s ih =>
    rw [runes_cons_ascii (h b List.mem_cons_self),
      ih (fun c hc => h c (List.mem_cons_of_mem _ hc)), List.map_cons]

/-- A text is not blank when it starts with an ASCII character that is no space. -/
theorem trimSpace_ne_nil {b : UInt8} (h : b.toNat < 0x80) (hs : goSpace b.toNat = false)
    (s : Bytes) : trimSpace (b :: s) ≠ [] := by
  unfold trimSpace
  rw [runes_cons_ascii h]
  have hdrop : List.dropWhile (fun r : Nat × Bytes => goSpace r.1) ((b.toNat, [b]) :: runes s) =
      (b.toNat, [b]) :: runes s := by
    rw [List.dropWhile_cons, if_neg (by simp [hs])]
  intro hnil
  simp only [hdrop] at hnil
  have hmem : (b.toNat, [b]) ∈
      (List.dropWhile (fun r : Nat × Bytes => goSpace r.1)
        ((b.toNat, [b]) :: runes s).reverse).reverse := by
    rw [List.mem_reverse, List.reverse_cons, List.dropWhile_append]
    split
    · rw [List.dropWhile_cons, if_neg (by simp [hs])]
      exact List.mem_cons_self
    · exact List.mem_append_right _ List.mem_cons_self
  have := List.flatMap_eq_nil_iff.mp hnil _ hmem
  simp at this

/-- `strings.TrimSpace` leaves an ASCII text without white space as it is. -/
theorem trimSpace_of_ascii {s : Bytes} (h : ∀ b ∈ s, b.toNat < 0x80 ∧ goSpace b.toNat = false) :
    trimSpace s = s := by
  have hkeep : ∀ l : List (Nat × Bytes), (∀ r ∈ l, goSpace r.1 = false) →
      l.dropWhile (fun r => goSpace r.1) = l := by
    intro l hl
    cases l with
    | nil => rfl
    | cons r l =>
      rw [List.dropWhile_cons, hl r List.mem_cons_self]
      rfl
  have hspace : ∀ r ∈ s.map fun b => (b.toNat, [b]), goSpace r.1 = false := by
    intro r hr
    obtain ⟨b, hb, rfl⟩ := List.mem_map.mp hr
    exact (h b hb).2
  unfold trimSpace
  simp only [runes_of_ascii fun b hb => (h b hb).1]
  rw [hkeep _ hspace, hkeep _ fun r hr => hspace r (List.mem_reverse.mp hr), List.reverse_reverse,
    List.flatMap_map]
  exact List.flatMap_singleton' s

/-- `strings.ToLower` leaves a lowercase digest as it is. -/
theorem toLower_hexdigest (bs : Bytes) : toLower (utf8 (hexdigest bs)) = utf8 (hexdigest bs) := by
  have hascii : ∀ c ∈ hexdigest bs, c.toNat < 128 :=
    fun c hc => (hexAlphabet_ascii c (mem_hexdigest hc)).2
  have hbyte : ∀ c ∈ hexdigest bs, (UInt8.ofNat c.toNat).toNat = c.toNat := by
    intro c hc
    have := hascii c hc
    exact toNat_ofNat_byte (by omega)
  have hsmall : ∀ b ∈ (hexdigest bs).map (fun c => UInt8.ofNat c.toNat), b.toNat < 0x80 := by
    intro b hb
    obtain ⟨c, hc, rfl⟩ := List.mem_map.mp hb
    rw [hbyte c hc]
    exact hascii c hc
  rw [toLower]
  nth_rewrite 1 [utf8_of_ascii hascii]
  rw [runes_of_ascii hsmall, List.map_map, List.flatMap_map, utf8]
  apply List.flatMap_congr
  intro c hc
  have hdot : ¬ c.toNat = 0x130 := by
    have := hascii c hc
    omega
  simp only [Function.comp, hbyte c hc, if_neg hdot, lowerRune_hex (mem_hexdigest hc), utf8_cons,
    utf8_nil, List.append_nil]

/-! ## Python's `int(str)` -/

/-- White space of the C locale, the only kind `int` strips from an ASCII text. -/
def asciiSpace (c : Char) : Bool := (9 ≤ c.toNat && c.toNat ≤ 13) || c.toNat == 32

/-- The ASCII image of a character of a text that is not all ASCII: any white space becomes
a blank and any decimal digit its ASCII digit; `?` is no part of a numeral. -/
def asciiImage (c : Char) : Char :=
  if c.toNat < 127 then c
  else if pySpace c.toNat then ' '
  else match decimalValue c.toNat with
    | some d => Nat.digitChar d
    | none => '?'

/-- Digits with single underscores between them: the value, the number of digits and what
follows. The first argument says whether the last character was a digit. -/
def readDigits : Bool → Nat → Nat → Str → Option (Nat × Nat × Str)
  | ok, n, k, [] => if ok then some (n, k, []) else none
  | ok, n, k, c :: rest =>
    if c.isDigit then readDigits true (n * 10 + (c.toNat - 48)) (k + 1) rest
    else if ok then (if c = '_' then readDigits false n k rest else some (n, k, c :: rest))
    else none

/-- `int(s)` in base ten; `none` is a `ValueError`. More than 4300 digits are refused. -/
def pyInt (s : Str) : Option Int :=
  let s := if s.all (fun c => c.toNat < 128) then s else s.map asciiImage
  let s := s.dropWhile asciiSpace
  let (negative, s) := match s with
    | '+' :: rest => (false, rest)
    | '-' :: rest => (true, rest)
    | _ => (false, s)
  match readDigits false 0 0 s with
  | some (n, k, rest) =>
    if rest.all asciiSpace && k ≤ 4300 then some (if negative then -(n : Int) else n) else none
  | none => none

/-- Only the two signs are taken off. -/
theorem mem_unsigned {c : Char} (hplus : c ≠ '+') (hminus : c ≠ '-') {s : Str} (h : c ∈ s) :
    c ∈ (match s with
      | '+' :: rest => (false, rest)
      | '-' :: rest => (true, rest)
      | _ => (false, s)).2 := by
  split
  · rename_i rest
    exact (List.mem_cons.mp h).resolve_left hplus
  · rename_i rest
    exact (List.mem_cons.mp h).resolve_left hminus
  · exact h

end ZaqorinCore.Text
