import ZaqorinCore.Base.Script
import ZaqorinCore.Text.Brackets
import ZaqorinCore.Text.Hex

/-!
# The recursive-descent parser of Python's `json`

The grammar of `json.decoder` and `json.scanner` over a text without lone surrogates: `NaN` and
the infinities are read, control characters in strings are not (`strict`), and the digits are the
ASCII ones. The state of a parse is the most arrays and objects that were open at once so far; it
stays when the parse fails. What `int` refuses to convert is a parameter.
-/

namespace ZaqorinCore.Text.JsonText

open Base

/-! ## What is read -/

/-- A value as it was written. A string is the list of its code points, for an escape can name a
lone surrogate, and an object keeps every pair. -/
inductive Tree
  | null
  | bool (b : Bool)
  | constant (name : Str)
  | int (text : Str)
  | float (text : Str)
  | str (points : List Nat)
  | arr (items : List Tree)
  | obj (pairs : List (List Nat × Tree))

mutual

/-- How many arrays and objects the innermost value stands in, itself counted. -/
def Tree.depth : Tree → Nat
  | .arr items => depthOfItems items + 1
  | .obj pairs => depthOfPairs pairs + 1
  | _ => 0

def depthOfItems : List Tree → Nat
  | [] => 0
  | item :: items => max item.depth (depthOfItems items)

def depthOfPairs : List (List Nat × Tree) → Nat
  | [] => 0
  | (_, item) :: pairs => max item.depth (depthOfPairs pairs)

end

/-- How a parse fails: with a `JSONDecodeError`, with the `ValueError` of `int`, or because the
model ran out of fuel. -/
inductive Failure
  | decode
  | value
  | fuel
  deriving DecidableEq, Repr

/-! ## White space, numbers and words -/

/-- `WHITESPACE` -/
def isSpace (c : Char) : Bool := c = ' ' ∨ c = '\t' ∨ c = '\n' ∨ c = '\r'

/-- `_w(s, end).end()` -/
def skipSpace (t : Str) : Str := t.dropWhile isSpace

/-- `0|[1-9]\d*` -/
def integerPart : Str → Option (Str × Str)
  | '0' :: t => some (['0'], t)
  | c :: t => if c.isDigit then some (c :: t.takeWhile Char.isDigit, t.dropWhile Char.isDigit)
    else none
  | [] => none

/-- `(\.\d+)?` -/
def fraction : Str → Str × Str
  | '.' :: c :: t =>
    if c.isDigit then ('.' :: c :: t.takeWhile Char.isDigit, t.dropWhile Char.isDigit)
    else ([], '.' :: c :: t)
  | t => ([], t)

/-- `[-+]?` -/
def sign : Str → Str × Str
  | '-' :: t => (['-'], t)
  | '+' :: t => (['+'], t)
  | t => ([], t)

/-- `([eE][-+]?\d+)?` -/
def exponent : Str → Str × Str
  | [] => ([], [])
  | e :: t =>
    if e = 'e' ∨ e = 'E' then
      match sign t with
      | (s, c :: u) =>
        if c.isDigit then (e :: s ++ c :: u.takeWhile Char.isDigit, u.dropWhile Char.isDigit)
        else ([], e :: t)
      | (_, []) => ([], e :: t)
    else ([], e :: t)

/-- `-?` -/
def minus : Str → Str × Str
  | '-' :: t => (['-'], t)
  | t => ([], t)

/-- `match_number`: the groups of `NUMBER_RE` and what follows them. -/
def matchNumber (t : Str) : Option ((Str × Str × Str) × Str) := do
  let (integer, u) ← integerPart (minus t).2
  let (frac, v) := fraction u
  let (exp, w) := exponent v
  return (((minus t).1 ++ integer, frac, exp), w)

/-- The names that `scan_once` knows. -/
def words : List (Str × Tree) := [
  ("null".toList, .null),
  ("true".toList, .bool true),
  ("false".toList, .bool false),
  ("NaN".toList, .constant "NaN".toList),
  ("Infinity".toList, .constant "Infinity".toList),
  ("-Infinity".toList, .constant "-Infinity".toList)]

def word (t : Str) : Option (Tree × Str) :=
  words.findSome? fun (name, tree) => (t.dropPrefix? name).map fun rest => (tree, rest)

/-- The end of `scan_once`, for a value that is no string, array or object. -/
def atom (refuses : Str → Bool) (t : Str) : Except Failure (Tree × Str) :=
  match matchNumber t with
  | some ((integer, frac, exp), rest) =>
    if frac ≠ [] ∨ exp ≠ [] then .ok (.float (integer ++ frac ++ exp), rest)
    else if refuses integer then .error .value
    else .ok (.int integer, rest)
  | none =>
    match word t with
    | some found => .ok found
    | none => .error .decode

/-! ## Strings -/

/-- `BACKSLASH` -/
def backslash : List (Char × Nat) := [
  ('"', 34), ('\\', 92), ('/', 47), ('b', 8), ('f', 12), ('n', 10), ('r', 13), ('t', 9)]

/-- The value of one hexadecimal digit of either case. -/
def hexDigitValue (c : Char) : Option Nat :=
  if c.toNat < 128 then fromHexChar (UInt8.ofNat c.toNat) else none

/-- `_decode_uXXXX` -/
def decodeUXXXX (a b c d : Char) : Option Nat := do
  let a ← hexDigitValue a
  let b ← hexDigitValue b
  let c ← hexDigitValue c
  let d ← hexDigitValue d
  return ((a * 16 + b) * 16 + c) * 16 + d

/-- The loop of `scanstring` with `strict`, behind the opening quotation mark; a surrogate stands
for itself. -/
def scanUnits : Str → Option (List Nat × Str)
  | [] => none
  | c :: t =>
    if c = '"' then some ([], t)
    else if c = '\\' then
      match t with
      | 'u' :: a :: b :: c :: d :: t => do
        let unit ← decodeUXXXX a b c d
        let (units, rest) ← scanUnits t
        return (unit :: units, rest)
      | e :: t => do
        let unit ← backslash.lookup e
        let (units, rest) ← scanUnits t
        return (unit :: units, rest)
      | [] => none
    else if c.toNat < 32 then none
    else do
      let (units, rest) ← scanUnits t
      return (c.toNat :: units, rest)

/-- A high surrogate with a low one behind it is one code point. -/
def joinSurrogates : List Nat → List Nat
  | high :: low :: units =>
    if 0xd800 ≤ high ∧ high ≤ 0xdbff ∧ 0xdc00 ≤ low ∧ low ≤ 0xdfff then
      (0x10000 + ((high - 0xd800) * 1024 + (low - 0xdc00))) :: joinSurrogates units
    else high :: joinSurrogates (low :: units)
  | units => units

/-- `scanstring` -/
def scanString (t : Str) : Except Failure (List Nat × Str) :=
  match scanUnits t with
  | some (units, rest) => .ok (joinSurrogates units, rest)
  | none => .error .decode

/-! ## Arrays and objects -/

abbrev Parse := Script Nat Failure

/-- One more array or object is open. -/
def enter (opened : Nat) : Script Nat Failure PUnit := modify (max opened)

/-- The loop of `JSONArray` and of `JSONObject`: elements with commas between them. -/
def elements {α : Type} (element : Str → Parse (α × Str)) (closing : Char) :
    Nat → Str → Parse (List α × Str)
  | 0, _ => throw .fuel
  | n + 1, t => do
    let (value, t) ← element t
    match skipSpace t with
    | [] => throw .decode
    | c :: t =>
      if c = closing then return ([value], t)
      else if c = ',' then do
        let (values, rest) ← elements element closing n (skipSpace t)
        return (value :: values, rest)
      else throw .decode

/-- What stands behind an opening bracket. -/
def members {α : Type} (element : Str → Parse (α × Str)) (closing : Char) (n : Nat) (t : Str) :
    Parse (List α × Str) :=
  match skipSpace t with
  | [] => elements element closing n []
  | c :: t => if c = closing then return ([], t) else elements element closing n (c :: t)

/-- `JSONArray` -/
def jsonArray (scanOnce : Str → Parse (Tree × Str)) (n : Nat) (t : Str) :
    Parse (List Tree × Str) :=
  members scanOnce BracketKind.square.closing n t

/-- A name, a colon and a value. -/
def objectPair (scanOnce : Str → Parse (Tree × Str)) (t : Str) :
    Parse ((List Nat × Tree) × Str) :=
  match t with
  | '"' :: t => do
    let (key, t) ← liftM (scanString t)
    match skipSpace t with
    | ':' :: t => do
      let (value, rest) ← scanOnce (skipSpace t)
      return ((key, value), rest)
    | _ => throw .decode
  | _ => throw .decode

/-- `JSONObject` -/
def jsonObject (scanOnce : Str → Parse (Tree × Str)) (n : Nat) (t : Str) :
    Parse (List (List Nat × Tree) × Str) :=
  members (objectPair scanOnce) BracketKind.brace.closing n t

/-- `scan_once`, inside of `opened` arrays and objects. -/
def scanOnce (refuses : Str → Bool) : Nat → Nat → Str → Parse (Tree × Str)
  | 0, _, _ => throw .fuel
  | n + 1, opened, t =>
    match t with
    | '"' :: t => do
      let (points, rest) ← liftM (scanString t)
      return (.str points, rest)
    | '\x7b' :: t => do
      enter (opened + 1)
      let (pairs, rest) ← jsonObject (scanOnce refuses n (opened + 1)) n t
      return (.obj pairs, rest)
    | '[' :: t => do
      enter (opened + 1)
      let (items, rest) ← jsonArray (scanOnce refuses n (opened + 1)) n t
      return (.arr items, rest)
    | t => liftM (atom refuses t)

/-- `JSONDecoder.raw_decode` -/
def rawDecode (refuses : Str → Bool) (t : Str) : Parse (Tree × Str) :=
  scanOnce refuses (t.length + 1) 0 t

/-- `JSONDecoder.decode`, for the `raw_decode` of its class. -/
def decode (rawDecode : Str → Parse (Tree × Str)) (s : Str) : Parse Tree := do
  let (tree, rest) ← rawDecode (skipSpace s)
  if skipSpace rest = [] then return tree else throw .decode

/-! ## What the tokens take -/

/-- A text is a token of plain characters and a rest. -/
structure Splits (t token rest : Str) : Prop where
  eq : t = token ++ rest
  plain : ∀ c ∈ token, Plain c

namespace Splits

theorem none (t : Str) : Splits t [] t := ⟨rfl, nofun⟩

theorem append {t token token' rest rest' : Str} (h : Splits t token rest)
    (h' : Splits rest token' rest') : Splits t (token ++ token') rest' where
  eq := by rw [h.eq, h'.eq, List.append_assoc]
  plain := by
    intro c hc
    rcases List.mem_append.mp hc with hc | hc
    · exact h.plain c hc
    · exact h'.plain c hc

theorem cons {c : Char} {t token rest : Str} (hc : Plain c) (h : Splits t token rest) :
    Splits (c :: t) (c :: token) rest where
  eq := by rw [h.eq, List.cons_append]
  plain := by
    intro d hd
    rcases List.mem_cons.mp hd with rfl | hd
    · exact hc
    · exact h.plain d hd

theorem spanned {p : Char → Bool} (hp : ∀ c, p c = true → Plain c) (t : Str) :
    Splits t (t.takeWhile p) (t.dropWhile p) where
  eq := (List.takeWhile_append_dropWhile).symm
  plain := fun c hc => hp c (List.mem_takeWhile_imp hc)

theorem nested {t token rest : Str} (h : Splits t token rest) : Nested 0 token :=
  Nested.of_plain h.plain

end Splits

theorem plain_of_isSpace {c : Char} (h : isSpace c = true) : Plain c := by
  simp only [isSpace, decide_eq_true_eq] at h
  rcases h with rfl | rfl | rfl | rfl <;> decide

theorem splits_skipSpace (t : Str) : Splits t (t.takeWhile isSpace) (skipSpace t) :=
  Splits.spanned (fun _ => plain_of_isSpace) t

theorem splits_digits (t : Str) :
    Splits t (t.takeWhile Char.isDigit) (t.dropWhile Char.isDigit) :=
  Splits.spanned (fun _ => plain_of_isDigit) t

theorem splits_integerPart {t integer rest : Str} (h : integerPart t = some (integer, rest)) :
    Splits t integer rest ∧ integer ≠ [] := by
  unfold integerPart at h
  split at h
  · cases h
    exact ⟨(Splits.none _).cons (by decide), List.cons_ne_nil _ _⟩
  · split at h
    · cases h
      exact ⟨(splits_digits _).cons (plain_of_isDigit ‹_›), List.cons_ne_nil _ _⟩
    · cases h
  · cases h

theorem splits_fraction (t : Str) : Splits t (fraction t).1 (fraction t).2 := by
  unfold fraction
  split
  · split
    · exact ((splits_digits _).cons (plain_of_isDigit ‹_›)).cons (by decide)
    · exact Splits.none _
  · exact Splits.none _

theorem splits_sign (t : Str) : Splits t (sign t).1 (sign t).2 := by
  unfold sign
  split
  · exact (Splits.none _).cons (by decide)
  · exact (Splits.none _).cons (by decide)
  · exact Splits.none _

theorem splits_minus (t : Str) : Splits t (minus t).1 (minus t).2 := by
  unfold minus
  split
  · exact (Splits.none _).cons (by decide)
  · exact Splits.none _

theorem splits_exponent (t : Str) : Splits t (exponent t).1 (exponent t).2 := by
  unfold exponent
  split
  · exact Splits.none _
  · rename_i e u
    split
    · rename_i he
      have hplain : Plain e := by rcases he with rfl | rfl <;> decide
      have hsign := splits_sign u
      split
      · rename_i s c v hs
        rw [hs] at hsign
        split
        · have hdigits := (splits_digits v).cons (plain_of_isDigit ‹_›)
          exact (hsign.cons hplain).append hdigits
        · exact Splits.none _
      · exact Splits.none _
    · exact Splits.none _

theorem splits_matchNumber {t integer frac exp rest : Str}
    (h : matchNumber t = some ((integer, frac, exp), rest)) :
    Splits t (integer ++ frac ++ exp) rest ∧ integer ≠ [] := by
  simp only [matchNumber, Option.bind_eq_bind, Option.bind_eq_some_iff] at h
  obtain ⟨⟨digits, u⟩, hdigits, h⟩ := h
  obtain ⟨hsplit, hne⟩ := splits_integerPart hdigits
  cases h
  constructor
  · exact (((splits_minus t).append hsplit).append (splits_fraction _)).append (splits_exponent _)
  · exact List.append_ne_nil_of_right_ne_nil _ hne

theorem words_plain : ∀ entry ∈ words, entry.1 ≠ [] ∧ (∀ c ∈ entry.1, Plain c) ∧
    entry.2.depth = 0 := by
  intro entry hentry
  simp only [words, List.mem_cons, List.not_mem_nil, or_false] at hentry
  rcases hentry with rfl | rfl | rfl | rfl | rfl | rfl
  all_goals exact ⟨by decide +kernel, by simp [Plain], rfl⟩

theorem splits_word {t rest : Str} {tree : Tree} (h : word t = some (tree, rest)) :
    ∃ name, Splits t name rest ∧ name ≠ [] ∧ tree.depth = 0 := by
  obtain ⟨⟨name, known⟩, hmem, hname⟩ := List.exists_of_findSome?_eq_some h
  obtain ⟨u, hu, hsame⟩ := Option.map_eq_some_iff.mp hname
  obtain ⟨hne, hplain, hdepth⟩ := words_plain _ hmem
  cases hsame
  obtain ⟨p, ht, hp⟩ := List.dropPrefix?_eq_some_iff.mp hu
  rw [eq_of_beq hp] at ht
  exact ⟨name, ⟨ht, hplain⟩, hne, hdepth⟩

/-- A value that is no string, array or object is plain, and nothing of it is open. -/
theorem splits_atom {refuses : Str → Bool} {t rest : Str} {tree : Tree}
    (h : atom refuses t = .ok (tree, rest)) :
    ∃ token, Splits t token rest ∧ token ≠ [] ∧ tree.depth = 0 := by
  unfold atom at h
  split at h
  · rename_i integer frac exp u hnumber
    obtain ⟨hsplit, hne⟩ := splits_matchNumber hnumber
    have htoken : integer ++ frac ++ exp ≠ [] := by
      simp only [ne_eq, List.append_eq_nil_iff, not_and]
      exact fun hnil => absurd hnil.1 hne
    split at h
    · cases h
      exact ⟨_, hsplit, htoken, rfl⟩
    · split at h
      · cases h
      · cases h
        exact ⟨_, hsplit, htoken, rfl⟩
  · split at h
    · cases h
      exact splits_word ‹_›
    · cases h

theorem atom_ne_fuel {refuses : Str → Bool} {t : Str} : atom refuses t ≠ .error .fuel := by
  unfold atom
  intro h
  split at h
  · split at h
    · cases h
    · split at h <;> cases h
  · split at h <;> cases h

theorem hexDigitValue_plain {c : Char} {n : Nat} (h : hexDigitValue c = some n) :
    c ≠ '"' ∧ c ≠ '\\' := by
  have hquote : hexDigitValue '"' = none := by decide
  have hback : hexDigitValue '\\' = none := by decide
  constructor
  · rintro rfl
    rw [hquote] at h
    cases h
  · rintro rfl
    rw [hback] at h
    cases h

theorem plain_decodeUXXXX {a b c d : Char} {n : Nat} (h : decodeUXXXX a b c d = some n) :
    (a ≠ '"' ∧ a ≠ '\\') ∧ (b ≠ '"' ∧ b ≠ '\\') ∧ (c ≠ '"' ∧ c ≠ '\\') ∧
      (d ≠ '"' ∧ d ≠ '\\') := by
  simp only [decodeUXXXX, bind, Option.bind_eq_some_iff] at h
  obtain ⟨_, ha, _, hb, _, hc, _, hd, -⟩ := h
  exact ⟨hexDigitValue_plain ha, hexDigitValue_plain hb, hexDigitValue_plain hc,
    hexDigitValue_plain hd⟩

/-- Up to its closing quotation mark, a string is quotable. -/
theorem quotable_scanUnits {t rest : Str} {units : List Nat}
    (h : scanUnits t = some (units, rest)) : ∃ c, Quotable c ∧ t = c ++ '"' :: rest := by
  fun_induction scanUnits t generalizing units rest with
  | case1 => cases h
  | case2 t =>
    cases h
    exact ⟨[], .nil, rfl⟩
  | case3 a b c d t hquote ih =>
    simp only [bind, Option.bind_eq_some_iff] at h
    obtain ⟨unit, hunit, ⟨units', rest'⟩, hscan, h⟩ := h
    cases h
    obtain ⟨body, hbody, ht⟩ := ih hscan
    obtain ⟨ha, hb, hc, hd⟩ := plain_decodeUXXXX hunit
    have hfour := (((hbody.char hd.1 hd.2).char hc.1 hc.2).char hb.1 hb.2).char ha.1 ha.2
    exact ⟨'\\' :: 'u' :: a :: b :: c :: d :: body, hfour.escaped, by rw [ht]; rfl⟩
  | case4 e t hlong hquote ih =>
    simp only [bind, Option.bind_eq_some_iff] at h
    obtain ⟨unit, hunit, ⟨units', rest'⟩, hscan, h⟩ := h
    cases h
    obtain ⟨body, hbody, ht⟩ := ih hscan
    exact ⟨'\\' :: e :: body, hbody.escaped, by rw [ht]; rfl⟩
  | case5 => cases h
  | case6 => cases h
  | case7 c t hquote hback hcontrol ih =>
    simp only [bind, Option.bind_eq_some_iff] at h
    obtain ⟨⟨units', rest'⟩, hscan, h⟩ := h
    cases h
    obtain ⟨body, hbody, ht⟩ := ih hscan
    exact ⟨c :: body, hbody.char hquote hback, by rw [ht]; rfl⟩

/-- A string has no bracket outside of its quotation marks. -/
theorem nested_scanString {t rest : Str} {points : List Nat}
    (h : scanString t = .ok (points, rest)) : ∃ c, Nested 0 c ∧ '"' :: t = c ++ rest ∧ c ≠ [] := by
  unfold scanString at h
  split at h
  · rename_i units u hscan
    cases h
    obtain ⟨body, hbody, ht⟩ := quotable_scanUnits hscan
    refine ⟨'"' :: (body ++ ['"']), .quoted hbody, ?_, List.cons_ne_nil _ _⟩
    rw [ht]
    simp
  · cases h

theorem scanString_ne_fuel {t : Str} : scanString t ≠ .error .fuel := by
  unfold scanString
  split <;> nofun

/-! ## What the parser takes -/

/-- How a parse of `t` inside of `opened` arrays and objects ends. When it succeeds, the text it
took has matching brackets before `closer`, and they nest as deep as what was read. When it
fails, the text up to there breaks off. The state is the most brackets that were open. -/
def Reads {α : Type} (n opened : Nat) (depth : α → Nat) (closer t : Str) (peak : Nat) :
    Except Failure (α × Str) × Nat → Prop
  | (.ok (a, rest), peak') => ∃ c, t = c ++ closer ++ rest ∧ rest.length < t.length ∧
      Nested (depth a) c ∧ peak' = max peak (opened + depth a)
  | (.error e, peak') => ∃ c rest d, t = c ++ rest ∧ Truncated d c ∧
      peak' = max peak (opened + d) ∧ (e = .fuel → n ≤ t.length)

namespace Reads

variable {α β : Type} {n opened peak : Nat} {depth : α → Nat} {depth' : β → Nat}
  {closer t : Str}

theorem fail {e : Failure} (hpeak : opened ≤ peak) (hfuel : e = .fuel → n ≤ t.length) :
    Reads n opened depth closer t peak (.error e, peak) := by
  refine ⟨[], t, 0, rfl, .start, ?_, hfuel⟩
  rw [Nat.add_zero, Nat.max_eq_left hpeak]

/-- A failure behind text with matching brackets. -/
theorem fail_after {d : Nat} {c rest : Str} {e : Failure} (hc : Nested d c) (he : e ≠ .fuel) :
    Reads n opened depth closer (c ++ rest) peak (.error e, max peak (opened + d)) :=
  ⟨c, rest, d, rfl, .nested hc, rfl, fun h => absurd h he⟩

theorem done {a : α} {c rest : Str} (hc : Nested (depth a) c) (hne : c ++ closer ≠ []) :
    Reads n opened depth closer (c ++ closer ++ rest) peak
      (.ok (a, rest), max peak (opened + depth a)) := by
  refine ⟨c, rfl, ?_, hc, rfl⟩
  have hpos := List.length_pos_of_ne_nil hne
  rw [List.length_append]
  omega

/-- A value without brackets, whose text is not empty. -/
theorem leaf {a : α} {c rest : Str} (hpeak : opened ≤ peak) (hc : Nested 0 c) (hne : c ≠ [])
    (ht : t = c ++ rest) (ha : depth a = 0) :
    Reads n opened depth [] t peak (.ok (a, rest), peak) := by
  refine ⟨c, ?_, ?_, ?_, ?_⟩
  · rw [ht, List.append_nil]
  · have hpos := List.length_pos_of_ne_nil hne
    rw [ht, List.length_append]
    omega
  · rw [ha]
    exact hc
  · rw [ha, Nat.add_zero, Nat.max_eq_left hpeak]

theorem bind {p : Parse (α × Str)} {f : α × Str → Parse (β × Str)}
    (hp : Reads n opened depth [] t peak (p.exec peak))
    (hf : ∀ a rest c, t = c ++ rest → rest.length < t.length → Nested (depth a) c →
      Reads n opened depth' closer t peak
        ((f (a, rest)).exec (max peak (opened + depth a)))) :
    Reads n opened depth' closer t peak ((p >>= f).exec peak) := by
  rw [Script.exec_bind]
  cases hrun : p.exec peak with
  | mk result peak' =>
    rw [hrun] at hp
    cases result with
    | error e => exact hp
    | ok a =>
      obtain ⟨c, ht, hlen, hnested, hpeak⟩ := hp
      rw [hpeak]
      rw [List.append_nil] at ht
      exact hf a.1 a.2 c ht hlen hnested

/-- Text with matching brackets before what is parsed. -/
theorem after {m d : Nat} {c : Str} {result : Except Failure (α × Str) × Nat}
    (hc : Nested d c) (hn : m ≤ n + c.length)
    (h : Reads n opened depth closer t (max peak (opened + d)) result) :
    Reads m opened (fun a => max d (depth a)) closer (c ++ t) peak result := by
  obtain ⟨outcome, peak'⟩ := result
  cases outcome with
  | error e =>
    obtain ⟨u, rest, k, ht, htruncated, hpeak, hfuel⟩ := h
    refine ⟨c ++ u, rest, max d k, ?_, htruncated.after hc, ?_, ?_⟩
    · rw [ht, List.append_assoc]
    · rw [hpeak]
      omega
    · intro he
      have := hfuel he
      rw [List.length_append]
      omega
  | ok a =>
    obtain ⟨u, ht, hlen, hnested, hpeak⟩ := h
    refine ⟨c ++ u, ?_, ?_, hc.append hnested, ?_⟩
    · rw [ht]
      simp only [List.append_assoc]
    · rw [List.length_append]
      omega
    · show peak' = max peak (opened + max d (depth a.1))
      rw [hpeak]
      omega

theorem map {g : α → β} {p : Parse (α × Str)}
    (h : Reads n opened (fun a => depth' (g a)) closer t peak (p.exec peak)) :
    Reads n opened depth' closer t peak
      ((p >>= fun (a, rest) => pure (g a, rest)).exec peak) := by
  rw [Script.exec_bind]
  cases hrun : p.exec peak with
  | mk result peak' =>
    rw [hrun] at h
    cases result with
    | error e => exact h
    | ok a => exact h

/-- An array or object around what is parsed. -/
theorem within (b : BracketKind) {result : Except Failure (α × Str) × Nat}
    (h : Reads n (opened + 1) depth [b.closing] t (max (opened + 1) peak) result) :
    Reads (n + 1) opened (fun a => depth a + 1) [] (b.opening :: t) peak result := by
  obtain ⟨outcome, peak'⟩ := result
  cases outcome with
  | error e =>
    obtain ⟨u, rest, k, ht, htruncated, hpeak, hfuel⟩ := h
    have hopened := Truncated.opened b .nil htruncated
    rw [Nat.zero_max] at hopened
    refine ⟨b.opening :: u, rest, k + 1, ?_, hopened, ?_, ?_⟩
    · rw [ht, List.cons_append]
    · rw [hpeak]
      omega
    · intro he
      exact Nat.succ_le_succ (hfuel he)
  | ok a =>
    obtain ⟨u, ht, hlen, hnested, hpeak⟩ := h
    refine ⟨b.opening :: (u ++ [b.closing]), ?_, ?_, hnested.within b, ?_⟩
    · rw [ht]
      simp only [List.append_nil, List.cons_append]
    · rw [List.length_cons]
      omega
    · show peak' = max peak (opened + (depth a.1 + 1))
      rw [hpeak]
      omega

theorem mono {m : Nat} {result : Except Failure (α × Str) × Nat} (hm : m ≤ n)
    (h : Reads n opened depth closer t peak result) :
    Reads m opened depth closer t peak result := by
  obtain ⟨outcome, peak'⟩ := result
  cases outcome with
  | error e =>
    obtain ⟨u, rest, k, ht, htruncated, hpeak, hfuel⟩ := h
    exact ⟨u, rest, k, ht, htruncated, hpeak, fun he => le_trans hm (hfuel he)⟩
  | ok a => exact h

end Reads

/-- A parser whose parses all end so, inside of `opened` arrays and objects. -/
def ReadsAll {α : Type} (n opened : Nat) (depth : α → Nat) (closer : Str)
    (p : Str → Parse (α × Str)) : Prop :=
  ∀ t peak, opened ≤ peak → Reads n opened depth closer t peak ((p t).exec peak)

section

variable {α : Type} {n opened : Nat} {depth : α → Nat} {depths : List α → Nat}
  {element : Str → Parse (α × Str)} {closing : Char}

theorem elements_reads (hnil : depths [] = 0)
    (hcons : ∀ a l, depths (a :: l) = max (depth a) (depths l))
    (helement : ReadsAll n opened depth [] element) {m : Nat} (hm : m ≤ n) :
    ReadsAll m opened depths [closing] (elements element closing m) := by
  induction m with
  | zero =>
    intro t peak hpeak
    exact Reads.fail hpeak fun _ => Nat.zero_le _
  | succ m ih =>
    intro t peak hpeak
    apply Reads.bind ((helement t peak hpeak).mono hm)
    intro value rest c ht hlen hnested
    obtain ⟨gap, hspace⟩ : ∃ gap, Splits rest gap (skipSpace rest) := ⟨_, splits_skipSpace rest⟩
    rw [ht]
    cases hskip : skipSpace rest with
    | nil =>
      simp only [hskip]
      exact Reads.fail_after hnested (by decide)
    | cons d u =>
      simp only [hskip]
      rw [hskip] at hspace
      by_cases hclose : d = closing
      · rw [if_pos hclose]
        have hdepth : depths [value] = depth value := by
          rw [hcons, hnil, Nat.max_zero]
        have hbody := hnested.append_of_zero hspace.nested
        have htext : c ++ rest = c ++ gap ++ [closing] ++ u := by
          rw [hspace.eq, hclose]
          simp
        rw [← hdepth] at hbody ⊢
        rw [htext]
        exact Reads.done hbody (List.append_ne_nil_of_right_ne_nil _ (List.cons_ne_nil _ _))
      · rw [if_neg hclose]
        by_cases hcomma : d = ','
        · rw [if_pos hcomma]
          obtain ⟨gap', hnext⟩ : ∃ gap, Splits u gap (skipSpace u) := ⟨_, splits_skipSpace u⟩
          have hcommas := hspace.append (hnext.cons (c := d) (by rw [hcomma]; decide))
          have hbody := hnested.append_of_zero hcommas.nested
          have hrest := ih (by omega) (skipSpace u) (max peak (opened + depth value)) (by omega)
          have htext : c ++ rest = (c ++ (gap ++ d :: gap')) ++ skipSpace u := by
            rw [hcommas.eq, ← List.append_assoc]
          rw [htext]
          apply Reads.map
          simp only [hcons]
          exact Reads.after hbody (by simp; omega) hrest
        · rw [if_neg hcomma]
          exact Reads.fail_after hnested (by decide)

theorem members_reads (hnil : depths [] = 0)
    (hcons : ∀ a l, depths (a :: l) = max (depth a) (depths l))
    (helement : ReadsAll n opened depth [] element) :
    ReadsAll n opened depths [closing] (members element closing n) := by
  intro t peak hpeak
  have hloop : ReadsAll n opened depths [closing] (elements element closing n) :=
    elements_reads hnil hcons helement le_rfl
  obtain ⟨gap, hspace⟩ : ∃ gap, Splits t gap (skipSpace t) := ⟨_, splits_skipSpace t⟩
  -- the loop starts behind the white space
  have hbehind : Reads n opened depths [closing] t peak
      ((elements element closing n (skipSpace t)).exec peak) := by
    have h := hloop (skipSpace t) (max peak (opened + 0)) (by omega)
    have hafter := Reads.after hspace.nested (Nat.le_add_right n gap.length) h
    rw [← hspace.eq, Nat.add_zero, Nat.max_eq_left hpeak] at hafter
    simp only [Nat.zero_max] at hafter
    exact hafter
  unfold members
  cases hskip : skipSpace t with
  | nil =>
    rw [hskip] at hbehind
    exact hbehind
  | cons d u =>
    rw [hskip] at hbehind hspace
    show Reads n opened depths [closing] t peak (Script.exec (if d = closing then _ else _) peak)
    by_cases hclose : d = closing
    · rw [if_pos hclose]
      have hbody := hspace.nested
      have htext : t = gap ++ [closing] ++ u := by
        rw [hspace.eq, hclose]
        simp
      rw [← hnil] at hbody
      have hdone : Reads n opened depths [closing] (gap ++ [closing] ++ u) peak
          (.ok ([], u), max peak (opened + depths [])) :=
        Reads.done hbody (List.append_ne_nil_of_right_ne_nil _ (List.cons_ne_nil _ _))
      rw [← htext, hnil, Nat.add_zero, Nat.max_eq_left hpeak] at hdone
      exact hdone
    · rw [if_neg hclose]
      exact hbehind

end

/-- The part of a pair before its value has no bracket, and the value ends the pair. -/
theorem objectPair_reads {n opened : Nat} {scan : Str → Parse (Tree × Str)}
    (hscan : ReadsAll n opened Tree.depth [] scan) :
    ReadsAll n opened (fun pair : List Nat × Tree => pair.2.depth) [] (objectPair scan) := by
  intro t peak hpeak
  unfold objectPair
  split
  · rename_i u
    rw [Script.exec_bind, Script.exec_lift]
    cases hkey : scanString u with
    | error e =>
      exact Reads.fail hpeak fun he => absurd (he ▸ hkey) scanString_ne_fuel
    | ok found =>
      obtain ⟨key, v⟩ := found
      obtain ⟨c, hc, ht, -⟩ := nested_scanString hkey
      obtain ⟨gap, hspace⟩ : ∃ gap, Splits v gap (skipSpace v) := ⟨_, splits_skipSpace v⟩
      show Reads n opened _ [] _ peak (Script.exec (match skipSpace v with
        | ':' :: t => do
          let (value, rest) ← scan (skipSpace t)
          return ((key, value), rest)
        | _ => throw .decode) peak)
      split
      · rename_i w hskip
        obtain ⟨gap', hnext⟩ : ∃ gap, Splits w gap (skipSpace w) := ⟨_, splits_skipSpace w⟩
        rw [hskip] at hspace
        have hcolon := hspace.append (hnext.cons (c := ':') (by decide))
        have hbody := hc.append_of_zero hcolon.nested
        have hvalue := hscan (skipSpace w) (max peak (opened + 0)) (by omega)
        have htext : '"' :: u = (c ++ (gap ++ ':' :: gap')) ++ skipSpace w := by
          rw [ht, hcolon.eq, ← List.append_assoc]
        have hafter := Reads.after hbody (Nat.le_add_right n _) hvalue
        rw [← htext, Nat.add_zero, Nat.max_eq_left hpeak] at hafter
        simp only [Nat.zero_max] at hafter
        exact Reads.map hafter
      · exact Reads.fail hpeak nofun
  · exact Reads.fail hpeak nofun

theorem scanOnce_reads (refuses : Str → Bool) (n opened : Nat) :
    ReadsAll n opened Tree.depth [] (scanOnce refuses n opened) := by
  induction n generalizing opened with
  | zero =>
    intro t peak hpeak
    exact Reads.fail hpeak fun _ => Nat.zero_le _
  | succ n ih =>
    intro t peak hpeak
    have hinside := ih (opened + 1)
    rw [scanOnce.eq_def]
    dsimp only
    split
    · rename_i u
      rw [Script.exec_bind, Script.exec_lift]
      cases hstr : scanString u with
      | error e =>
        exact Reads.fail hpeak fun he => absurd (he ▸ hstr) scanString_ne_fuel
      | ok found =>
        obtain ⟨points, v⟩ := found
        obtain ⟨c, hc, ht, hne⟩ := nested_scanString hstr
        exact Reads.leaf hpeak hc hne ht rfl
    · rename_i u
      have hpairs := objectPair_reads hinside
      have hmembers : ReadsAll n (opened + 1) depthOfPairs [BracketKind.brace.closing]
          (members (objectPair (scanOnce refuses n (opened + 1))) BracketKind.brace.closing n) :=
        members_reads rfl (fun _ _ => rfl) hpairs
      exact Reads.map (Reads.within .brace (hmembers u _ (le_max_left _ _)))
    · rename_i u
      have hmembers : ReadsAll n (opened + 1) depthOfItems [BracketKind.square.closing]
          (members (scanOnce refuses n (opened + 1)) BracketKind.square.closing n) :=
        members_reads rfl (fun _ _ => rfl) hinside
      exact Reads.map (Reads.within .square (hmembers u _ (le_max_left _ _)))
    · rw [Script.exec_lift]
      cases hatom : atom refuses t with
      | error e =>
        exact Reads.fail hpeak fun he => absurd (he ▸ hatom) atom_ne_fuel
      | ok found =>
        obtain ⟨tree, rest⟩ := found
        obtain ⟨token, hsplit, hne, hdepth⟩ := splits_atom hatom
        exact Reads.leaf hpeak hsplit.nested hne hsplit.eq hdepth

/-! ## Whole texts -/

theorem exec_decode (raw : Str → Parse (Tree × Str)) (s : Str) (peak : Nat) :
    (decode raw s).exec peak = match (raw (skipSpace s)).exec peak with
      | (.ok (tree, rest), peak') =>
        if skipSpace rest = [] then (.ok tree, peak') else (.error .decode, peak')
      | (.error e, peak') => (.error e, peak') := by
  unfold decode
  rw [Script.exec_bind]
  cases (raw (skipSpace s)).exec peak with
  | mk result peak' =>
    cases result with
    | error e => rfl
    | ok found =>
      obtain ⟨tree, rest⟩ := found
      show Script.exec (if skipSpace rest = [] then _ else _) peak' =
        if skipSpace rest = [] then _ else _
      by_cases hend : skipSpace rest = []
      · rw [if_pos hend, if_pos hend]
        rfl
      · rw [if_neg hend, if_neg hend]
        rfl

variable {refuses : Str → Bool} {s : Str} {tree : Tree} {peak : Nat}

/-- A text that is read has matching brackets, which nest as deep as the value, and as many of
them were open at once. -/
theorem nested_of_decode (h : (decode (rawDecode refuses) s).exec 0 = (.ok tree, peak)) :
    Nested tree.depth s ∧ peak = tree.depth := by
  rw [exec_decode] at h
  have hspace := splits_skipSpace s
  have hreads := scanOnce_reads refuses ((skipSpace s).length + 1) 0 (skipSpace s) 0 le_rfl
  unfold rawDecode at h
  split at h
  · rename_i found rest peak' hrun
    rw [hrun] at hreads
    obtain ⟨c, ht, -, hnested, hpeak⟩ := hreads
    split at h
    · rename_i hend
      cases h
      have hlast := (splits_skipSpace rest)
      rw [hend] at hlast
      refine ⟨?_, by omega⟩
      rw [hspace.eq, ht, hlast.eq, List.append_nil, List.append_nil]
      exact hspace.nested.zero_append (hnested.append_of_zero hlast.nested)
    · cases h
  · cases h

example : ((decode (rawDecode fun _ => false) "[[1, \"]\"], []]".toList).exec 0).2 = 2 := by
  decide +kernel

/-- The text up to a failure breaks off with as many brackets open as were at once, and the fuel
of the model is enough. -/
theorem truncated_of_decode {e : Failure}
    (h : (decode (rawDecode refuses) s).exec 0 = (.error e, peak)) :
    e ≠ .fuel ∧ ∃ c rest, s = c ++ rest ∧ Truncated peak c := by
  rw [exec_decode] at h
  have hspace := splits_skipSpace s
  have hreads := scanOnce_reads refuses ((skipSpace s).length + 1) 0 (skipSpace s) 0 le_rfl
  unfold rawDecode at h
  split at h
  · rename_i found rest peak' hrun
    rw [hrun] at hreads
    obtain ⟨c, ht, -, hnested, hpeak⟩ := hreads
    split at h
    · cases h
    · cases h
      refine ⟨nofun, s.takeWhile isSpace ++ c, rest, ?_, ?_⟩
      · rw [List.append_assoc, ← List.append_nil c, ← ht]
        exact hspace.eq
      · rw [hpeak, Nat.zero_add, Nat.zero_max]
        exact .nested (hspace.nested.zero_append hnested)
  · rename_i e' peak' hrun
    rw [hrun] at hreads
    obtain ⟨c, rest, d, ht, htruncated, hpeak, hfuel⟩ := hreads
    cases h
    constructor
    · intro he
      have := hfuel he
      omega
    · refine ⟨s.takeWhile isSpace ++ c, rest, ?_, ?_⟩
      · rw [List.append_assoc, ← ht]
        exact hspace.eq
      · have hafter := htruncated.after hspace.nested
        rw [hpeak, Nat.zero_add]
        exact hafter

end ZaqorinCore.Text.JsonText
