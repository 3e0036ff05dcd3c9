import ZaqorinCore.Text.Decimal

/-!
# RFC 3339 time stamps

The server renders an instant with Python's
`datetime.now(timezone.utc).isoformat(timespec="seconds").replace("+00:00", "Z")`, the agent
reads it with Go's `time.Parse(time.RFC3339, s)`. The reader is modelled with everything it
accepts beyond the rendering: a one-digit hour, a fraction after `.` or `,`, numeric zone
offsets up to `24:60`. An instant is a number of nanoseconds since the Unix epoch.

* `parseRFC3339_issuedAt`: the reader accepts every rendering, at the rendered instant.
* `not_mem_of_parseRFC3339`: an accepted text holds no byte outside the format's alphabet.
-/

namespace ZaqorinCore.Text

/-! ## The calendar -/

def isLeap (year : Nat) : Bool := year % 4 == 0 && (year % 100 != 0 || year % 400 == 0)

/-- `time.daysIn`. -/
def daysIn (month year : Nat) : Nat :=
  if month = 2 then (if isLeap year then 29 else 28)
  else if month = 4 ∨ month = 6 ∨ month = 9 ∨ month = 11 then 30
  else 31

/-- Days of the proleptic Gregorian calendar before the first of January of `year`, counted
from the year 1. -/
def daysBeforeYear (year : Nat) : Int :=
  let y : Int := (year : Int) - 1
  365 * y + y / 4 - y / 100 + y / 400

def daysBeforeMonth (month year : Nat) : Nat :=
  ((List.range (month - 1)).map fun m => daysIn (m + 1) year).sum

/-- Seconds since the Unix epoch of a civil time in UTC. -/
def unixSeconds (year month day hour minute second : Nat) : Int :=
  (daysBeforeYear year + daysBeforeMonth month year + ((day : Int) - 1) - 719162) * 86400 +
    hour * 3600 + minute * 60 + second

/-- A reading of the UTC clock, as a Python `datetime` holds it. -/
structure UtcTime where
  year : Nat
  month : Nat
  day : Nat
  hour : Nat
  minute : Nat
  second : Nat
  year_valid : 1 ≤ year ∧ year ≤ 9999
  month_valid : 1 ≤ month ∧ month ≤ 12
  day_valid : 1 ≤ day ∧ day ≤ daysIn month year
  clock_valid : hour < 24 ∧ minute < 60 ∧ second < 60

def UtcTime.instant (t : UtcTime) : Int :=
  unixSeconds t.year t.month t.day t.hour t.minute t.second * 1000000000

/-- 2026-01-02T03:04:05Z, the time of the concrete runs. -/
def UtcTime.sample : UtcTime where
  year := 2026
  month := 1
  day := 2
  hour := 3
  minute := 4
  second := 5
  year_valid := by decide
  month_valid := by decide
  day_valid := by decide
  clock_valid := by decide

/-! ## Rendering -/

/-- `str.replace(old, new)` for a nonempty `old`. The first argument counts the characters
of the last occurrence that are still to be skipped. -/
def replaceFrom (old new : Str) : Nat → Str → Str
  | _, [] => []
  | k + 1, _ :: rest => replaceFrom old new k rest
  | 0, c :: rest =>
    if old.isPrefixOf (c :: rest) then new ++ replaceFrom old new (old.length - 1) rest
    else c :: replaceFrom old new 0 rest

/-- `isoformat(timespec="seconds")` of an aware UTC `datetime`. -/
def UtcTime.isoformat (t : UtcTime) : Str :=
  padded 4 t.year ++ '-' :: padded 2 t.month ++ '-' :: padded 2 t.day ++ 'T' ::
    padded 2 t.hour ++ ':' :: padded 2 t.minute ++ ':' :: padded 2 t.second ++ "+00:00".toList

/-- The `issued_at` text of a command. -/
def UtcTime.issuedAt (t : UtcTime) : Str := replaceFrom "+00:00".toList ['Z'] 0 t.isoformat

theorem replaceFrom_append {old new s rest : Str} {c : Char} (hs : c ∉ s) :
    replaceFrom (c :: old) new 0 (s ++ rest) = s ++ replaceFrom (c :: old) new 0 rest := by
  induction s with
  | nil => rfl
  | cons d s ih =>
    have hd : ¬ c = d := fun h => hs (h ▸ List.mem_cons_self)
    rw [List.cons_append, replaceFrom, if_neg (by simp [hd]),
      ih (fun h => hs (List.mem_cons_of_mem _ h)), List.cons_append]

theorem plus_not_mem_padded (w n : Nat) : '+' ∉ padded w n := by
  intro h
  exact absurd (mem_padded h) (by decide)

theorem issuedAt_eq (t : UtcTime) : t.issuedAt =
    padded 4 t.year ++ '-' :: padded 2 t.month ++ '-' :: padded 2 t.day ++ 'T' ::
      padded 2 t.hour ++ ':' :: padded 2 t.minute ++ ':' :: padded 2 t.second ++ ['Z'] := by
  unfold UtcTime.issuedAt UtcTime.isoformat
  have hplus : "+00:00".toList = '+' :: "00:00".toList := rfl
  rw [hplus, replaceFrom_append (by simp [plus_not_mem_padded])]
  rfl

/-! ## Reading -/

def isDigitByte (b : UInt8) : Bool := 48 ≤ b.toNat && b.toNat ≤ 57

def digitOf (b : UInt8) : Nat := b.toNat - 48

/-- `getnum`: two digits, or one when the layout does not fix the width. -/
def getnum (fixed : Bool) : Bytes → Option (Nat × Bytes)
  | a :: b :: rest =>
    if isDigitByte a then
      if isDigitByte b then some (digitOf a * 10 + digitOf b, rest)
      else if fixed then none else some (digitOf a, b :: rest)
    else none
  | [a] => if isDigitByte a && !fixed then some (digitOf a, []) else none
  | [] => none

/-- A literal byte of the layout. -/
def skipByte (b : UInt8) : Bytes → Option Bytes
  | c :: rest => if c = b then some rest else none
  | [] => none

def getYear : Bytes → Option (Nat × Bytes)
  | a :: b :: c :: d :: rest =>
    if isDigitByte a && isDigitByte b && isDigitByte c && isDigitByte d then
      some (digitOf a * 1000 + digitOf b * 100 + digitOf c * 10 + digitOf d, rest)
    else none
  | _ => none

/-- The fraction the reader takes although the layout has none: at most nine digits count. -/
def getFraction (s : Bytes) : Nat × Bytes :=
  match s with
  | sep :: d :: rest =>
    if (sep = 46 ∨ sep = 44) ∧ isDigitByte d then
      let digits := (d :: rest).takeWhile isDigitByte
      let used := digits.take 9
      (used.foldl (fun n b => n * 10 + digitOf b) 0 * 10 ^ (9 - used.length),
        (d :: rest).dropWhile isDigitByte)
    else (0, s)
  | _ => (0, s)

/-- `Z` or a signed `hh:mm`, in seconds east of UTC. -/
def getZone : Bytes → Option (Int × Bytes)
  | sign :: h :: h' :: colon :: m :: m' :: rest =>
    if sign = 90 then some (0, h :: h' :: colon :: m :: m' :: rest)
    else if colon = 58 && isDigitByte h && isDigitByte h' && isDigitByte m && isDigitByte m' then
      let hr := digitOf h * 10 + digitOf h'
      let mm := digitOf m * 10 + digitOf m'
      if hr ≤ 24 ∧ mm ≤ 60 then
        if sign = 43 then some ((hr * 60 + mm) * 60, rest)
        else if sign = 45 then some (-((hr * 60 + mm) * 60), rest)
        else none
      else none
    else none
  | sign :: rest => if sign = 90 then some (0, rest) else none
  | [] => none

/-- `time.Parse(time.RFC3339, s)`. -/
def parseRFC3339 (s : Bytes) : Option Int := do
  let (year, s) ← getYear s
  let s ← skipByte 45 s
  let (month, s) ← getnum true s
  let s ← skipByte 45 s
  let (day, s) ← getnum true s
  let s ← skipByte 84 s
  let (hour, s) ← getnum false s
  let s ← skipByte 58 s
  let (minute, s) ← getnum true s
  let s ← skipByte 58 s
  let (second, s) ← getnum true s
  let (nsec, s) := getFraction s
  let (offset, s) ← getZone s
  if 1 ≤ month ∧ month ≤ 12 ∧ hour < 24 ∧ minute < 60 ∧ second < 60 ∧
      1 ≤ day ∧ day ≤ daysIn month year ∧ s = [] then
    some ((unixSeconds year month day hour minute second - offset) * 1000000000 + nsec)
  else none

/-! ## What an accepted text contains -/

/-- A byte the format has no place for. -/
def Foreign (p : UInt8) : Prop :=
  isDigitByte p = false ∧ p ∉ ([45, 84, 58, 46, 44, 90, 43] : Bytes)

theorem Foreign.ne_digit {p : UInt8} (hp : Foreign p) {a : UInt8} (ha : isDigitByte a = true) :
    p ≠ a := by
  rintro rfl
  rw [hp.1] at ha
  cases ha

theorem Foreign.ne_lit {p : UInt8} (hp : Foreign p) (b : UInt8)
    (hb : b ∈ ([45, 84, 58, 46, 44, 90, 43] : Bytes)) : p ≠ b := by
  rintro rfl
  exact hp.2 hb

theorem getnum_keeps {p : UInt8} (hp : Foreign p) {fixed : Bool} {s rest : Bytes} {n : Nat}
    (h : getnum fixed s = some (n, rest)) (hm : p ∈ s) : p ∈ rest := by
  unfold getnum at h
  split at h
  · rename_i a b tail
    split at h
    · rename_i ha
      split at h
      · rename_i hb
        cases h
        simpa [hp.ne_digit ha, hp.ne_digit hb] using hm
      · split at h
        · cases h
        · cases h
          simpa [hp.ne_digit ha] using hm
    · cases h
  · rename_i a
    split at h
    · rename_i ha
      simp only [Bool.and_eq_true] at ha
      simp [hp.ne_digit ha.1] at hm
    · cases h
  · cases h

theorem skipByte_keeps {p b : UInt8} (hb : p ≠ b) {s rest : Bytes}
    (h : skipByte b s = some rest) (hm : p ∈ s) : p ∈ rest := by
  unfold skipByte at h
  split at h
  · split at h
    · rename_i hc
      subst hc
      cases h
      simpa [hb] using hm
    · cases h
  · cases h

theorem getYear_keeps {p : UInt8} (hp : Foreign p) {s rest : Bytes} {n : Nat}
    (h : getYear s = some (n, rest)) (hm : p ∈ s) : p ∈ rest := by
  unfold getYear at h
  split at h
  · split at h
    · rename_i hd
      simp only [Bool.and_eq_true] at hd
      cases h
      simpa [hp.ne_digit hd.1.1.1, hp.ne_digit hd.1.1.2, hp.ne_digit hd.1.2,
        hp.ne_digit hd.2] using hm
    · cases h
  · cases h

theorem getFraction_keeps {p : UInt8} (hp : Foreign p) {s : Bytes} (hm : p ∈ s) :
    p ∈ (getFraction s).2 := by
  unfold getFraction
  split
  · rename_i sep d rest
    split
    · rename_i hsep
      have hps : p ≠ sep := by
        rintro rfl
        rcases hsep.1 with rfl | rfl
        · exact hp.2 (by decide)
        · exact hp.2 (by decide)
      have hmem : p ∈ d :: rest := by simpa [hps] using hm
      rw [← List.takeWhile_append_dropWhile (p := isDigitByte) (l := d :: rest),
        List.mem_append] at hmem
      rcases hmem with hmem | hmem
      · have := List.mem_takeWhile_imp hmem
        rw [hp.1] at this
        cases this
      · exact hmem
    · exact hm
  · exact hm

theorem getZone_keeps {p : UInt8} (hp : Foreign p) {s rest : Bytes} {n : Int}
    (h : getZone s = some (n, rest)) (hm : p ∈ s) : p ∈ rest := by
  unfold getZone at h
  split at h
  · rename_i sign d d' colon m m' tail
    split at h
    · rename_i hz
      subst hz
      cases h
      simpa [hp.ne_lit 90 (by decide)] using hm
    · split at h
      · rename_i hd
        simp only [Bool.and_eq_true, decide_eq_true_eq] at hd
        have hcolon : p ≠ colon := hd.1.1.1.1 ▸ hp.ne_lit 58 (by decide)
        have hrest : p ≠ sign → p ∈ tail := by
          intro hsign
          simpa [hsign, hp.ne_digit hd.1.1.1.2, hp.ne_digit hd.1.1.2, hcolon, hp.ne_digit hd.1.2,
            hp.ne_digit hd.2] using hm
        dsimp only at h
        split at h
        · split at h
          · rename_i hs
            cases h
            exact hrest (hs ▸ hp.ne_lit 43 (by decide))
          · split at h
            · rename_i hs
              cases h
              exact hrest (hs ▸ hp.ne_lit 45 (by decide))
            · cases h
        · cases h
      · cases h
  · split at h
    · rename_i hz
      subst hz
      cases h
      simpa [hp.ne_lit 90 (by decide)] using hm
    · cases h
  · cases h

/-- An accepted time stamp holds no foreign byte. -/
theorem not_mem_of_parseRFC3339 {p : UInt8} (hp : Foreign p) {s : Bytes} {t : Int}
    (h : parseRFC3339 s = some t) : p ∉ s := by
  intro hm
  simp only [parseRFC3339, Option.bind_eq_bind, Option.bind_eq_some_iff, Prod.exists] at h
  obtain ⟨_, s₁, h₁, s₂, h₂, _, s₃, h₃, s₄, h₄, _, s₅, h₅, s₆, h₆, _, s₇, h₇, s₈, h₈, _, s₉, h₉,
    s₁₀, h₁₀, _, s₁₁, h₁₁, _, s₁₂, h₁₂, hend⟩ := h
  have m₂ := skipByte_keeps (hp.ne_lit 45 (by decide)) h₂ (getYear_keeps hp h₁ hm)
  have m₄ := skipByte_keeps (hp.ne_lit 45 (by decide)) h₄ (getnum_keeps hp h₃ m₂)
  have m₆ := skipByte_keeps (hp.ne_lit 84 (by decide)) h₆ (getnum_keeps hp h₅ m₄)
  have m₈ := skipByte_keeps (hp.ne_lit 58 (by decide)) h₈ (getnum_keeps hp h₇ m₆)
  have m₁₀ := skipByte_keeps (hp.ne_lit 58 (by decide)) h₁₀ (getnum_keeps hp h₉ m₈)
  have m₁₂ := getZone_keeps hp h₁₂ (getFraction_keeps hp (getnum_keeps hp h₁₁ m₁₀))
  split at hend
  · rename_i hok
    rw [hok.2.2.2.2.2.2.2] at m₁₂
    cases m₁₂
  · cases hend

/-! ## The reader on the rendering -/

theorem utf8_padded_two (n : Nat) : utf8 (padded 2 n) =
    [UInt8.ofNat (48 + n / 10 % 10), UInt8.ofNat (48 + n % 10)] := by
  have hchar : ∀ d, d < 10 → utf8 [Nat.digitChar d] = [UInt8.ofNat (48 + d)] := by
    intro d hd
    interval_cases d <;> rfl
  have hsplit : padded 2 n = [Nat.digitChar (n / 10 % 10)] ++ [Nat.digitChar (n % 10)] := rfl
  rw [hsplit, utf8_append, hchar _ (Nat.mod_lt _ (by omega)), hchar _ (Nat.mod_lt _ (by omega))]
  rfl

theorem utf8_padded_four (n : Nat) : utf8 (padded 4 n) =
    utf8 (padded 2 (n / 100)) ++ utf8 (padded 2 n) := by
  have hsplit : padded 4 n = padded 2 (n / 10 / 10) ++ padded 2 n := rfl
  rw [hsplit, utf8_append, Nat.div_div_eq_div_mul]

theorem digitByte_spec {d : Nat} (h : d < 10) :
    isDigitByte (UInt8.ofNat (48 + d)) = true ∧ digitOf (UInt8.ofNat (48 + d)) = d := by
  interval_cases d <;> decide

theorem getnum_padded (fixed : Bool) {n : Nat} (h : n < 100) (rest : Bytes) :
    getnum fixed (utf8 (padded 2 n) ++ rest) = some (n, rest) := by
  obtain ⟨h₁, h₁'⟩ := digitByte_spec (Nat.mod_lt (n / 10) (by omega : 0 < 10))
  obtain ⟨h₂, h₂'⟩ := digitByte_spec (Nat.mod_lt n (by omega : 0 < 10))
  rw [utf8_padded_two]
  simp only [List.cons_append, List.nil_append, getnum, h₁, h₂, h₁', h₂', if_true]
  congr 2
  omega

theorem getYear_padded {n : Nat} (h : n < 10000) (rest : Bytes) :
    getYear (utf8 (padded 4 n) ++ rest) = some (n, rest) := by
  obtain ⟨h₁, h₁'⟩ := digitByte_spec (Nat.mod_lt (n / 100 / 10) (by omega : 0 < 10))
  obtain ⟨h₂, h₂'⟩ := digitByte_spec (Nat.mod_lt (n / 100) (by omega : 0 < 10))
  obtain ⟨h₃, h₃'⟩ := digitByte_spec (Nat.mod_lt (n / 10) (by omega : 0 < 10))
  obtain ⟨h₄, h₄'⟩ := digitByte_spec (Nat.mod_lt n (by omega : 0 < 10))
  rw [utf8_padded_four, utf8_padded_two, utf8_padded_two]
  simp only [List.cons_append, List.nil_append, getYear, h₁, h₂, h₃, h₄, h₁', h₂', h₃', h₄',
    Bool.and_self, if_true]
  congr 2
  omega

theorem skipByte_cons (b : UInt8) (rest : Bytes) : skipByte b (b :: rest) = some rest := by
  rw [skipByte, if_pos rfl]

theorem utf8_issuedAt (t : UtcTime) : utf8 t.issuedAt =
    utf8 (padded 4 t.year) ++ 45 :: (utf8 (padded 2 t.month) ++ 45 :: (utf8 (padded 2 t.day) ++
      84 :: (utf8 (padded 2 t.hour) ++ 58 :: (utf8 (padded 2 t.minute) ++
        58 :: (utf8 (padded 2 t.second) ++ [90]))))) := by
  have h₁ : String.utf8EncodeChar '-' = [45] := by decide
  have h₂ : String.utf8EncodeChar 'T' = [84] := by decide
  have h₃ : String.utf8EncodeChar ':' = [58] := by decide
  have h₄ : String.utf8EncodeChar 'Z' = [90] := by decide
  rw [issuedAt_eq]
  simp only [utf8_append, utf8_cons, utf8_nil, h₁, h₂, h₃, h₄, List.append_assoc,
    List.cons_append, List.nil_append, List.append_nil]

/-- The agent reads every `issued_at` the server renders, as the instant it was rendered
from. -/
theorem parseRFC3339_issuedAt (t : UtcTime) : parseRFC3339 (utf8 t.issuedAt) = some t.instant := by
  obtain ⟨hh, hm, hs⟩ := t.clock_valid
  have hy := t.year_valid
  have hmo := t.month_valid
  have hd := t.day_valid
  have hd' : t.day < 100 := by
    have : daysIn t.month t.year ≤ 31 := by
      unfold daysIn
      split_ifs <;> omega
    omega
  have hfraction : getFraction [90] = (0, [90]) := rfl
  have hzone : getZone [90] = some (0, []) := rfl
  rw [utf8_issuedAt, parseRFC3339, getYear_padded (by omega)]
  simp only [Option.bind_eq_bind, Option.bind_some, skipByte_cons,
    getnum_padded true (show t.month < 100 by omega), getnum_padded true hd',
    getnum_padded false (show t.hour < 100 by omega),
    getnum_padded true (show t.minute < 100 by omega),
    getnum_padded true (show t.second < 100 by omega), hfraction, hzone]
  rw [if_pos ⟨hmo.1, hmo.2, hh, hm, hs, hd.1, hd.2, trivial⟩, UtcTime.instant, sub_zero,
    Nat.cast_zero, add_zero]

end ZaqorinCore.Text
