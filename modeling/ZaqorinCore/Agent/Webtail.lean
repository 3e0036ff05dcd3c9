import ZaqorinCore.Base.Script
import ZaqorinCore.Text.Numeral
import ZaqorinCore.Text.Search

/-!
# Access log lines

`pkg/webtail`: `parseNginxLine` takes a line of nginx's combined format apart, with the bounds of
every slice expression checked as Go checks them. `returns_iff` says which lines it survives,
`Record.parse_render` that it inverts the format.
-/

namespace ZaqorinCore.Agent.Webtail

open ZaqorinCore.Base ZaqorinCore.Text

def space : UInt8 := 32
def quote : UInt8 := 34
def dash : UInt8 := 45
def openBracket : UInt8 := 91
def closeBracket : UInt8 := 93

/-! ## Slices -/

/-- How a call ends without fields. -/
inductive Stop
  | unrecognised  -- `return nil, false, nil`
  | outOfRange  -- the panic of a slice expression
  deriving DecidableEq, Repr

/-- `s[lo:]` -/
def sliceFrom (s : Bytes) (lo : Nat) : Except Stop Bytes :=
  if lo ≤ s.length then .ok (s.drop lo) else .error .outOfRange

/-- `s[lo:hi]` -/
def slice (s : Bytes) (lo hi : Nat) : Except Stop Bytes :=
  if lo ≤ hi ∧ hi ≤ s.length then .ok ((s.drop lo).take (hi - lo)) else .error .outOfRange

/-- `strings.IndexByte`; the line is not recognised without the byte. -/
def find (b : UInt8) (s : Bytes) : Except Stop Nat :=
  match indexByte b s with
  | none => .error .unrecognised
  | some i => .ok i

/-- What stands behind the first occurrence of a byte. -/
def skipPast (b : UInt8) (s : Bytes) : Except Stop Bytes := do
  let i ← find b s
  sliceFrom s (i + 1)

/-- What stands before the first occurrence of a byte and what stands behind it. -/
def cut (b : UInt8) (s : Bytes) : Except Stop (Bytes × Bytes) := do
  let i ← find b s
  let before ← slice s 0 i
  let after ← sliceFrom s (i + 1)
  return (before, after)

/-- `strings.TrimRight(s, "\r\n")` -/
def trimRight (s : Bytes) : Bytes := s.rdropWhile fun b => b == 13 || b == 10

/-- `strings.TrimLeft(s, " ")` -/
def trimLeft (s : Bytes) : Bytes := s.dropWhile (· == space)

/-- `strings.TrimPrefix(s, " ")` -/
def trimPrefix (s : Bytes) : Bytes := if s.head? = some space then s.tail else s

/-- `strings.SplitN` with a separator of one byte. -/
def splitN (b : UInt8) : Nat → Bytes → List Bytes
  | 0, _ => []
  | 1, s => [s]
  | n + 2, s =>
    match indexByte b s with
    | none => [s]
    | some i => s.take i :: splitN b (n + 1) (s.drop (i + 1))

/-! ## The fields of a line -/

/-- The keys of the metadata that a line can set. -/
inductive Key
  | sourceIP
  | method
  | uri
  | status
  | bytes
  | referer
  | userAgent
  | authUser
  deriving DecidableEq, Repr

def Key.name : Key → String
  | sourceIP => "src_ip"
  | method => "http_method"
  | uri => "uri"
  | status => "status_code"
  | bytes => "bytes_sent"
  | referer => "referer"
  | userAgent => "user_agent"
  | authUser => "auth_user"

theorem Key.name_injective {k l : Key} (h : k.name = l.name) : k = l := by
  cases k <;> cases l <;> first | rfl | exact absurd h (by decide)

/-- `map[string]string` -/
abbrev Fields := Key → Option Bytes

def Fields.set (m : Fields) (k : Key) (v : Bytes) : Fields := fun l => if l = k then some v else m l

/-! ## The parser -/

/-- The address and the user; what is left starts with the time. -/
def readHead (raw : Bytes) : Except Stop (Bytes × Bytes × Bytes) := do
  let (srcIP, rest) ← cut space raw
  let rest ← skipPast dash rest
  let (remoteUser, rest) ← cut space (trimLeft rest)
  return (srcIP, remoteUser, rest)

def skipTime (rest : Bytes) : Except Stop Bytes :=
  if rest.head? ≠ some openBracket then .error .unrecognised
  else do
    let rest ← skipPast closeBracket rest
    return trimPrefix rest

/-- The request line between its quotes; the closing quote and one more byte are skipped. -/
def readRequest (rest : Bytes) : Except Stop (Bytes × Bytes) :=
  if rest.head? ≠ some quote then .error .unrecognised
  else do
    let inner ← sliceFrom rest 1
    let reqEnd ← find quote inner
    let request ← slice rest 1 (1 + reqEnd)
    let rest ← sliceFrom rest (1 + reqEnd + 2)
    if rest = [] then .error .unrecognised else .ok (request, rest)

def splitRequest (request : Bytes) : Except Stop (Bytes × Bytes) :=
  match splitN space 3 request with
  | [method, uri, _] => .ok (method, uri)
  | _ => .error .unrecognised

/-- The status code or the number of bytes, as text. -/
def readNumber (rest : Bytes) : Except Stop (Bytes × Bytes) := do
  let (text, rest) ← cut space rest
  if (atoi text).isSome then .ok (text, rest) else .error .unrecognised

def extractQuoted (s : Bytes) : Except Stop (Bytes × Bytes) :=
  if s.head? ≠ some quote then .ok ([], s)
  else
    -- the loop over the bytes from 1 on
    match indexByte quote s.tail with
    | none => .ok ([], s)
    | some i => do
      let val ← slice s 1 (i + 1)
      let rest ← sliceFrom s (i + 1 + 1)
      return (val, trimPrefix rest)

/-- "-" stands for no value. -/
def orNone (v : Bytes) : Bytes := if v = lit "-" then [] else v

def makeFields (srcIP remoteUser method uri status bytes referer ua : Bytes) : Fields :=
  let out : Fields := fun _ => none
  let out := if srcIP ≠ lit "-" then out.set .sourceIP srcIP else out
  let out := if remoteUser ≠ lit "-" then out.set .authUser remoteUser else out
  let out := out.set .method method
  let out := out.set .uri uri
  let out := out.set .status status
  let out := out.set .bytes bytes
  let out := if referer ≠ [] then out.set .referer referer else out
  if ua ≠ [] then out.set .userAgent ua else out

/-- The line from its request line on. -/
def readTail (srcIP remoteUser rest : Bytes) : Except Stop Fields := do
  let (request, rest) ← readRequest rest
  let (method, uri) ← splitRequest request
  let (status, rest) ← readNumber rest
  let (bytes, rest) ← readNumber rest
  let (referer, rest) ← extractQuoted rest
  let (ua, _) ← extractQuoted rest
  return makeFields srcIP remoteUser method uri status bytes (orNone referer) (orNone ua)

def readLine (raw : Bytes) : Except Stop Fields := do
  let (srcIP, remoteUser, rest) ← readHead raw
  let rest ← skipTime rest
  readTail srcIP remoteUser rest

def parseNginxLine (raw : Bytes) : Except Stop Fields :=
  if raw = [] then .error .unrecognised
  else
    let raw := trimRight raw
    if raw = [] then .error .unrecognised else readLine raw

/-! ## The slices -/

section

variable {b : UInt8} {s x y : Bytes} {lo hi : Nat}

theorem sliceFrom_append {n : Nat} (h : n = x.length) : sliceFrom (x ++ y) n = .ok y := by
  rw [sliceFrom, if_pos (by simp [h]), h, List.drop_left]

theorem slice_append {w : Bytes} (hlo : lo = w.length) (hhi : hi = w.length + x.length) :
    slice (w ++ x ++ y) lo hi = .ok x := by
  have hbounds : lo ≤ hi ∧ hi ≤ (w ++ x ++ y).length := by
    simp only [List.length_append]
    omega
  rw [slice, if_pos hbounds, hlo, hhi, List.append_assoc, List.drop_left, Nat.add_sub_cancel_left,
    List.take_left]

theorem find_append (hx : b ∉ x) : find b (x ++ b :: y) = .ok x.length := by
  rw [find, indexByte_append hx]

theorem find_eq_unrecognised (h : b ∉ s) : find b s = .error .unrecognised := by
  rw [find, indexByte_eq_none h]

theorem skipPast_append (hx : b ∉ x) : skipPast b (x ++ b :: y) = .ok y := by
  have hsplit : x ++ b :: y = (x ++ [b]) ++ y := by simp
  rw [skipPast, find_append hx]
  show sliceFrom (x ++ b :: y) (x.length + 1) = .ok y
  rw [hsplit, sliceFrom_append (by simp)]

theorem cut_append (hx : b ∉ x) : cut b (x ++ b :: y) = .ok (x, y) := by
  have hsplit : x ++ b :: y = (x ++ [b]) ++ y := by simp
  have hbefore : slice (x ++ b :: y) 0 x.length = .ok x :=
    slice_append (w := []) (by simp) (by simp)
  have hafter : sliceFrom (x ++ b :: y) (x.length + 1) = .ok y := by
    rw [hsplit, sliceFrom_append (by simp)]
  simp only [cut, find_append hx, hbefore, hafter, bind, Except.bind, pure, Except.pure]

/-- A line is not recognised without the byte, and taken apart at its first occurrence else. -/
theorem cut_cases (b : UInt8) (s : Bytes) : cut b s = .error .unrecognised ∨
    ∃ x y, b ∉ x ∧ s = x ++ b :: y ∧ cut b s = .ok (x, y) := by
  by_cases h : b ∈ s
  · obtain ⟨x, y, rfl, hx⟩ := List.eq_append_cons_of_mem h
    exact Or.inr ⟨x, y, hx, rfl, cut_append hx⟩
  · left
    rw [cut, find_eq_unrecognised h]
    rfl

theorem skipPast_cases (b : UInt8) (s : Bytes) : skipPast b s = .error .unrecognised ∨
    ∃ x y, b ∉ x ∧ s = x ++ b :: y ∧ skipPast b s = .ok y := by
  by_cases h : b ∈ s
  · obtain ⟨x, y, rfl, hx⟩ := List.eq_append_cons_of_mem h
    exact Or.inr ⟨x, y, hx, rfl, skipPast_append hx⟩
  · left
    rw [skipPast, find_eq_unrecognised h]
    rfl

end

/-! ## The stages -/

section

variable {raw rest srcIP skipped blanks remoteUser time gap request y : Bytes}

theorem opens (b : UInt8) (s : Bytes) : ¬ (b :: s).head? ≠ some b := not_not.mpr rfl

theorem trimLeft_append (hblanks : ∀ b ∈ blanks, b = space) {c : UInt8} (hc : c ≠ space) :
    trimLeft (blanks ++ c :: y) = c :: y := by
  have hall : ∀ b ∈ blanks, (b == space) = true := fun b hb => beq_iff_eq.mpr (hblanks b hb)
  rw [trimLeft, List.dropWhile_append_of_pos hall,
    List.dropWhile_cons_of_neg (by simpa using hc)]

theorem readHead_append (hsrcIP : space ∉ srcIP) (hskipped : dash ∉ skipped)
    (hblanks : ∀ b ∈ blanks, b = space) (hne : remoteUser ≠ []) (huser : space ∉ remoteUser) :
    readHead (srcIP ++ space :: (skipped ++ dash :: (blanks ++ (remoteUser ++ space :: rest)))) =
      .ok (srcIP, remoteUser, rest) := by
  obtain ⟨c, user, rfl⟩ := List.exists_cons_of_ne_nil hne
  have hc : c ≠ space := by
    rintro rfl
    exact huser List.mem_cons_self
  have htrim : trimLeft (blanks ++ (c :: user ++ space :: rest)) = c :: user ++ space :: rest :=
    trimLeft_append hblanks hc
  simp only [readHead, cut_append hsrcIP, skipPast_append hskipped, htrim, cut_append huser, bind,
    Except.bind, pure, Except.pure]

theorem readHead_cases (raw : Bytes) : readHead raw = .error .unrecognised ∨
    ∃ srcIP skipped blanks remoteUser rest, space ∉ srcIP ∧ dash ∉ skipped ∧
      (∀ b ∈ blanks, b = space) ∧ remoteUser ≠ [] ∧ space ∉ remoteUser ∧
      raw = srcIP ++ space :: (skipped ++ dash :: (blanks ++ (remoteUser ++ space :: rest))) := by
  rcases cut_cases space raw with hcut | ⟨srcIP, raw, hsrcIP, rfl, hcut⟩
  · left
    simp only [readHead, hcut, bind, Except.bind]
  rcases skipPast_cases dash raw with hdash | ⟨skipped, raw, hskipped, rfl, hdash⟩
  · left
    simp only [readHead, hcut, hdash, bind, Except.bind]
  rcases cut_cases space (trimLeft raw) with huser | ⟨user, rest, huser, hraw, -⟩
  · left
    simp only [readHead, hcut, hdash, huser, bind, Except.bind]
  right
  refine ⟨srcIP, skipped, raw.takeWhile (· == space), user, rest, hsrcIP, hskipped, ?_, ?_, huser,
    ?_⟩
  · intro b hb
    exact beq_iff_eq.mp (List.mem_takeWhile_imp (p := (· == space)) hb)
  · -- the blanks in front of the user are gone
    rintro rfl
    have hhead := List.head?_dropWhile_not (· == space) raw
    rw [← trimLeft, hraw] at hhead
    simp at hhead
  · rw [← hraw, trimLeft, List.takeWhile_append_dropWhile]

theorem skipTime_append (htime : closeBracket ∉ time) (hgap : gap = [] ∨ gap = [space])
    (hrest : rest.head? ≠ some space) :
    skipTime (openBracket :: (time ++ closeBracket :: (gap ++ rest))) = .ok rest := by
  have htime' : closeBracket ∉ openBracket :: time := by
    intro h
    rcases List.mem_cons.mp h with h | h
    · exact absurd h (by decide)
    · exact htime h
  have hskip : skipPast closeBracket (openBracket :: (time ++ closeBracket :: (gap ++ rest))) =
      .ok (gap ++ rest) := skipPast_append htime'
  have htrim : trimPrefix (gap ++ rest) = rest := by
    rcases hgap with rfl | rfl
    · exact if_neg hrest
    · exact if_pos rfl
  rw [skipTime, if_neg (opens _ _), hskip]
  show Except.ok (trimPrefix (gap ++ rest)) = Except.ok rest
  rw [htrim]

theorem skipTime_cases (rest : Bytes) : skipTime rest = .error .unrecognised ∨
    ∃ time gap left, closeBracket ∉ time ∧ (gap = [] ∨ gap = [space]) ∧
      rest = openBracket :: (time ++ closeBracket :: (gap ++ left)) ∧ skipTime rest = .ok left := by
  cases rest with
  | nil => exact Or.inl rfl
  | cons c rest =>
    by_cases hc : c = openBracket
    · subst hc
      rw [skipTime, if_neg (opens _ _)]
      rcases skipPast_cases closeBracket (openBracket :: rest) with hskip | ⟨time, left, htime, heq,
        hskip⟩
      · left
        rw [hskip]
        rfl
      right
      cases time with
      | nil => exact absurd (List.cons.inj heq).1 (by decide)
      | cons c time =>
        obtain ⟨rfl, rfl⟩ := List.cons.inj heq
        have htime : closeBracket ∉ time := fun h => htime (List.mem_cons_of_mem _ h)
        rw [hskip]
        by_cases hblank : left.head? = some space
        · obtain ⟨left, rfl⟩ := List.head?_eq_some_iff.mp hblank
          exact ⟨time, [space], left, htime, Or.inr rfl, rfl, rfl⟩
        · refine ⟨time, [], left, htime, Or.inl rfl, rfl, ?_⟩
          show Except.ok (trimPrefix left) = Except.ok left
          rw [trimPrefix, if_neg hblank]
    · left
      rw [skipTime, if_pos (by simpa using hc)]

/-- Behind the closing quote one byte is skipped, which need not be there. -/
theorem readRequest_append (hrequest : quote ∉ request) :
    readRequest (quote :: (request ++ quote :: y)) =
      if y = [] then .error .outOfRange
      else if y.tail = [] then .error .unrecognised else .ok (request, y.tail) := by
  have hinner : sliceFrom (quote :: (request ++ quote :: y)) 1 = .ok (request ++ quote :: y) :=
    sliceFrom_append (x := [quote]) rfl
  have hslice : slice (quote :: (request ++ quote :: y)) 1 (1 + request.length) = .ok request :=
    slice_append (w := [quote]) rfl rfl
  rw [readRequest, if_neg (opens _ _), hinner]
  simp only [bind, Except.bind, find_append hrequest, hslice]
  cases y with
  | nil =>
    rw [sliceFrom, if_neg]
    · rfl
    · simp only [List.length_cons, List.length_append, List.length_nil]
      omega
  | cons c y =>
    have hsplit : quote :: (request ++ quote :: c :: y) =
        (quote :: (request ++ [quote, c])) ++ y := by simp
    have hafter : sliceFrom (quote :: (request ++ quote :: c :: y)) (1 + request.length + 2) =
        .ok y := by
      rw [hsplit, sliceFrom_append]
      simp only [List.length_cons, List.length_append, List.length_nil]
      omega
    rw [hafter]
    rfl

theorem readRequest_cases (rest : Bytes) : readRequest rest = .error .unrecognised ∨
    ∃ request y, quote ∉ request ∧ rest = quote :: (request ++ quote :: y) := by
  cases rest with
  | nil => exact Or.inl rfl
  | cons c rest =>
    by_cases hc : c = quote
    · subst hc
      by_cases hquote : quote ∈ rest
      · obtain ⟨request, y, rfl, hrequest⟩ := List.eq_append_cons_of_mem hquote
        exact Or.inr ⟨request, y, hrequest, rfl⟩
      · left
        have hinner : sliceFrom (quote :: rest) 1 = .ok rest := sliceFrom_append (x := [quote]) rfl
        rw [readRequest, if_neg (opens _ _), hinner]
        simp only [bind, Except.bind, find_eq_unrecognised hquote]
    · left
      rw [readRequest, if_pos (by simpa using hc)]

theorem splitRequest_ne (request : Bytes) : splitRequest request ≠ .error .outOfRange := by
  unfold splitRequest
  split
  · nofun
  · nofun

theorem readNumber_ne (rest : Bytes) : readNumber rest ≠ .error .outOfRange := by
  rcases cut_cases space rest with hcut | ⟨text, left, -, -, hcut⟩
  · rw [readNumber, hcut]
    nofun
  · simp only [readNumber, hcut, bind, Except.bind]
    split
    · nofun
    · nofun

theorem readNumber_eq_ok {text left : Bytes} (h : readNumber rest = .ok (text, left)) :
    (atoi text).isSome = true := by
  simp only [readNumber, bind_eq_ok] at h
  obtain ⟨⟨text', left'⟩, -, h⟩ := h
  dsimp only at h
  split at h
  · rename_i hatoi
    cases h
    exact hatoi
  · cases h

theorem readNumber_append {text : Bytes} (htext : space ∉ text)
    (hatoi : (atoi text).isSome = true) :
    readNumber (text ++ space :: rest) = .ok (text, rest) := by
  simp only [readNumber, cut_append htext, bind, Except.bind, if_pos hatoi]

theorem extractQuoted_append {val : Bytes} (hval : quote ∉ val) :
    extractQuoted (quote :: (val ++ quote :: rest)) = .ok (val, trimPrefix rest) := by
  have hval' : slice (quote :: (val ++ quote :: rest)) 1 (val.length + 1) = .ok val :=
    slice_append (w := [quote]) rfl (Nat.add_comm _ _)
  have hsplit : quote :: (val ++ quote :: rest) = (quote :: (val ++ [quote])) ++ rest := by simp
  have hafter : sliceFrom (quote :: (val ++ quote :: rest)) (val.length + 1 + 1) = .ok rest := by
    rw [hsplit, sliceFrom_append (by simp)]
  rw [extractQuoted, if_neg (opens _ _), List.tail_cons, indexByte_append hval]
  simp only [bind, Except.bind, hval', hafter, pure, Except.pure]

/-- The loop stays inside the line. -/
theorem exists_extractQuoted (s : Bytes) : ∃ out, extractQuoted s = .ok out := by
  cases s with
  | nil => exact ⟨_, rfl⟩
  | cons c s =>
    by_cases hc : c = quote
    · subst hc
      by_cases hquote : quote ∈ s
      · obtain ⟨val, rest, rfl, hval⟩ := List.eq_append_cons_of_mem hquote
        exact ⟨_, extractQuoted_append hval⟩
      · rw [extractQuoted, if_neg (opens _ _), List.tail_cons, indexByte_eq_none hquote]
        exact ⟨_, rfl⟩
    · rw [extractQuoted, if_pos (by simpa using hc)]
      exact ⟨_, rfl⟩

end

/-! ## The lines that end the agent -/

/-- The line, without its line break, ends with the closing quote of its request. -/
def CutAfterRequest (raw : Bytes) : Prop :=
  ∃ srcIP skipped blanks remoteUser time gap request : Bytes,
    space ∉ srcIP ∧ dash ∉ skipped ∧ (∀ b ∈ blanks, b = space) ∧ remoteUser ≠ [] ∧
    space ∉ remoteUser ∧ closeBracket ∉ time ∧ (gap = [] ∨ gap = [space]) ∧ quote ∉ request ∧
    trimRight raw =
      srcIP ++ space :: (skipped ++ dash :: (blanks ++ (remoteUser ++ space ::
        openBracket :: (time ++ closeBracket :: (gap ++ quote :: (request ++ [quote]))))))

/-- The call returns, and a line that it recognises has a method, a URI and two numbers. -/
structure Safe (raw : Bytes) : Prop where
  returns : parseNginxLine raw ≠ .error .outOfRange
  method : ∀ m, parseNginxLine raw = .ok m → (m .method).isSome = true
  uri : ∀ m, parseNginxLine raw = .ok m → (m .uri).isSome = true
  status : ∀ m, parseNginxLine raw = .ok m → ∃ text, m .status = some text ∧
    (atoi text).isSome = true
  bytes : ∀ m, parseNginxLine raw = .ok m → ∃ text, m .bytes = some text ∧
    (atoi text).isSome = true

section

variable {raw rest srcIP remoteUser : Bytes} {m : Fields}

/-- Only the slice behind the request can be out of range. -/
theorem readTail_outOfRange_iff :
    readTail srcIP remoteUser rest = .error .outOfRange ↔
      readRequest rest = .error .outOfRange := by
  constructor
  · intro h
    simp only [readTail, bind_eq_error] at h
    rcases h with h | ⟨⟨request, rest⟩, -, h | ⟨⟨method, uri⟩, -, h | ⟨⟨status, rest⟩, -, h |
      ⟨⟨bytes, rest⟩, -, h | ⟨⟨referer, rest⟩, -, h | ⟨⟨ua, rest⟩, -, h⟩⟩⟩⟩⟩⟩
    · exact h
    · exact absurd h (splitRequest_ne _)
    · exact absurd h (readNumber_ne _)
    · exact absurd h (readNumber_ne _)
    · obtain ⟨out, hout⟩ := exists_extractQuoted rest
      rw [hout] at h
      cases h
    · obtain ⟨out, hout⟩ := exists_extractQuoted rest
      rw [hout] at h
      cases h
    · cases h
  · intro h
    simp only [readTail, h, bind, Except.bind]

theorem readTail_eq_ok (h : readTail srcIP remoteUser rest = .ok m) :
    ∃ method uri status bytes referer ua, (atoi status).isSome = true ∧ (atoi bytes).isSome = true ∧
      m = makeFields srcIP remoteUser method uri status bytes referer ua := by
  simp only [readTail, bind_eq_ok] at h
  obtain ⟨⟨request, rest⟩, -, ⟨method, uri⟩, -, ⟨status, rest'⟩, hstatus, ⟨bytes, rest''⟩, hbytes,
    ⟨referer, _⟩, -, ⟨ua, _⟩, -, h⟩ := h
  cases h
  exact ⟨_, _, _, _, _, _, readNumber_eq_ok hstatus, readNumber_eq_ok hbytes, rfl⟩

/-- The checks for an empty line are made again by the search for the first blank. -/
theorem parse_eq (raw : Bytes) : parseNginxLine raw = readLine (trimRight raw) := by
  unfold parseNginxLine
  by_cases hraw : raw = []
  · rw [hraw]
    rfl
  · rw [if_neg hraw]
    dsimp only
    by_cases htrim : trimRight raw = []
    · rw [if_pos htrim, htrim]
      rfl
    · rw [if_neg htrim]

theorem parse_outOfRange_iff :
    parseNginxLine raw = .error .outOfRange ↔ CutAfterRequest raw := by
  rw [parse_eq]
  constructor
  · intro h
    rcases readHead_cases (trimRight raw) with hhead | ⟨srcIP, skipped, blanks, remoteUser, rest,
      hsrcIP, hskipped, hblanks, hne, huser, hraw⟩
    · rw [readLine, hhead] at h
      cases h
    have hhead : readHead (trimRight raw) = .ok (srcIP, remoteUser, rest) := by
      rw [hraw]
      exact readHead_append hsrcIP hskipped hblanks hne huser
    simp only [readLine, hhead, bind, Except.bind] at h
    rcases skipTime_cases rest with hskip | ⟨time, gap, left, htime, hgap, rfl, hskip⟩
    · rw [hskip] at h
      cases h
    rw [hskip] at h
    have hrequest : readRequest left = .error .outOfRange := readTail_outOfRange_iff.mp h
    rcases readRequest_cases left with hleft | ⟨request, y, hquote, rfl⟩
    · rw [hleft] at hrequest
      cases hrequest
    rw [readRequest_append hquote] at hrequest
    have hy : y = [] := by
      by_contra hy
      rw [if_neg hy] at hrequest
      split at hrequest <;> cases hrequest
    subst hy
    exact ⟨srcIP, skipped, blanks, remoteUser, time, gap, request, hsrcIP, hskipped, hblanks, hne,
      huser, htime, hgap, hquote, hraw⟩
  · rintro ⟨srcIP, skipped, blanks, remoteUser, time, gap, request, hsrcIP, hskipped, hblanks, hne,
      huser, htime, hgap, hquote, hraw⟩
    have hskip : skipTime (openBracket :: (time ++ closeBracket :: (gap ++ quote ::
        (request ++ [quote])))) = .ok (quote :: (request ++ [quote])) :=
      skipTime_append htime hgap (by simp [quote, space])
    have hrequest : readRequest (quote :: (request ++ [quote])) = .error .outOfRange := by
      rw [readRequest_append hquote, if_pos rfl]
    rw [hraw, readLine, readHead_append hsrcIP hskipped hblanks hne huser]
    simp only [bind, Except.bind, hskip]
    exact readTail_outOfRange_iff.mpr hrequest

theorem parse_eq_ok (h : parseNginxLine raw = .ok m) :
    ∃ srcIP remoteUser method uri status bytes referer ua, (atoi status).isSome = true ∧
      (atoi bytes).isSome = true ∧
      m = makeFields srcIP remoteUser method uri status bytes referer ua := by
  simp only [parse_eq, readLine, bind_eq_ok] at h
  obtain ⟨⟨srcIP, remoteUser, rest⟩, -, rest', -, h⟩ := h
  exact ⟨srcIP, remoteUser, readTail_eq_ok h⟩

end

/-- What the map holds for each key. -/
theorem makeFields_eq (srcIP remoteUser method uri status bytes referer ua : Bytes) (k : Key) :
    makeFields srcIP remoteUser method uri status bytes referer ua k =
      match k with
      | .sourceIP => if srcIP = lit "-" then none else some srcIP
      | .authUser => if remoteUser = lit "-" then none else some remoteUser
      | .method => some method
      | .uri => some uri
      | .status => some status
      | .bytes => some bytes
      | .referer => if referer = [] then none else some referer
      | .userAgent => if ua = [] then none else some ua := by
  cases k <;> simp [makeFields, Fields.set, ite_apply]

/-- The agent survives a line exactly when it is not cut off behind its request. -/
theorem returns_iff (raw : Bytes) : Safe raw ↔ ¬ CutAfterRequest raw := by
  rw [← parse_outOfRange_iff]
  refine ⟨fun h => h.returns, fun h => ⟨h, ?_, ?_, ?_, ?_⟩⟩
  all_goals
    intro m hm
    obtain ⟨srcIP, remoteUser, method, uri, status, bytes, referer, ua, hstatus, hbytes, rfl⟩ :=
      parse_eq_ok hm
    simp only [makeFields_eq]
  · rfl
  · rfl
  · exact ⟨status, rfl, hstatus⟩
  · exact ⟨bytes, rfl, hbytes⟩

def cutLine : Bytes := lit "1.2.3.4 - - [t] \"GET / HTTP/1.1\""

theorem cut_line_panics : parseNginxLine cutLine = .error .outOfRange ∧ ¬ Safe cutLine := by
  have h : parseNginxLine cutLine = .error .outOfRange := by rfl
  exact ⟨h, fun hsafe => hsafe.returns h⟩

/-! ## The combined format -/

/-- A decimal integer of 64 bits, as text. -/
structure DecimalInt where
  sign : Bytes
  digits : Bytes
  sign_cases : sign = [] ∨ sign = [43] ∨ sign = [45]
  digits_ne : digits ≠ []
  digits_digit : digits.all isDigitByte = true

namespace DecimalInt

def text (d : DecimalInt) : Bytes := d.sign ++ d.digits

def magnitude (d : DecimalInt) : Nat := d.digits.foldl (fun n b => n * 10 + digitOf b) 0

def value (d : DecimalInt) : Int := if d.sign = [45] then -(d.magnitude : Int) else d.magnitude

/-- The value is an `int`. -/
def InRange (d : DecimalInt) : Prop := -(2 ^ 63) ≤ d.value ∧ d.value < 2 ^ 63

theorem goSign_text (d : DecimalInt) : goSign d.text = (decide (d.sign = [45]), d.digits) := by
  obtain ⟨c, rest, hdigits⟩ := List.exists_cons_of_ne_nil d.digits_ne
  have hc : 48 ≤ c.toNat := by
    have hall := d.digits_digit
    rw [hdigits, List.all_cons, Bool.and_eq_true, isDigitByte, Bool.and_eq_true,
      decide_eq_true_eq] at hall
    exact hall.1.1
  have hsign : ∀ b : UInt8, b.toNat < 48 → (c :: rest).head? ≠ some b := by
    intro b hb heq
    cases heq
    omega
  rcases d.sign_cases with h | h | h
  · rw [goSign, text, h, List.nil_append, hdigits, if_neg (hsign 43 (by decide)),
      if_neg (hsign 45 (by decide))]
    rfl
  · rw [goSign, text, h]
    rfl
  · rw [goSign, text, h]
    rfl

theorem atoi_text {d : DecimalInt} (h : d.InRange) : atoi d.text = some d.value := by
  have hdigits : atoiDigits d.digits = some d.magnitude := if_pos ⟨d.digits_ne, d.digits_digit⟩
  unfold atoi
  simp only [goSign_text, hdigits, decide_eq_true_eq]
  exact if_pos h

theorem space_not_mem (d : DecimalInt) : space ∉ d.text := by
  intro hmem
  rcases List.mem_append.mp hmem with hsign | hdigits
  · rcases d.sign_cases with h | h | h
    all_goals
      rw [h] at hsign
      exact absurd hsign (by decide)
  · exact absurd (List.all_eq_true.mp d.digits_digit _ hdigits) (by decide)

end DecimalInt

/-- What the combined format shows of a request. -/
structure Record where
  remoteAddr : Bytes
  remoteUser : Bytes
  time : Bytes
  method : Bytes
  uri : Bytes
  protocol : Bytes
  status : DecimalInt
  bytes : DecimalInt
  referer : Bytes
  userAgent : Bytes
  remoteAddr_ne : remoteAddr ≠ []
  remoteAddr_space : space ∉ remoteAddr
  remoteUser_ne : remoteUser ≠ []
  remoteUser_space : space ∉ remoteUser
  time_bracket : closeBracket ∉ time
  method_space : space ∉ method
  method_quote : quote ∉ method
  uri_space : space ∉ uri
  uri_quote : quote ∉ uri
  protocol_quote : quote ∉ protocol
  status_range : status.InRange
  bytes_range : bytes.InRange
  referer_quote : quote ∉ referer
  userAgent_quote : quote ∉ userAgent

/-- `$remote_addr - $remote_user [$time_local] "$request" $status $body_bytes_sent "$http_referer"
"$http_user_agent"` -/
def Record.render (r : Record) : Bytes :=
  r.remoteAddr ++ lit " - " ++ r.remoteUser ++ lit " [" ++ r.time ++ lit "] \"" ++ r.method ++
    lit " " ++ r.uri ++ lit " " ++ r.protocol ++ lit "\" " ++ r.status.text ++ lit " " ++
    r.bytes.text ++ lit " \"" ++ r.referer ++ lit "\" \"" ++ r.userAgent ++ lit "\""

/-- The metadata of a record. -/
def Record.fields (r : Record) : Fields
  | .sourceIP => if r.remoteAddr = lit "-" then none else some r.remoteAddr
  | .authUser => if r.remoteUser = lit "-" then none else some r.remoteUser
  | .method => some r.method
  | .uri => some r.uri
  | .status => some r.status.text
  | .bytes => some r.bytes.text
  | .referer => if r.referer = lit "-" ∨ r.referer = [] then none else some r.referer
  | .userAgent => if r.userAgent = lit "-" ∨ r.userAgent = [] then none else some r.userAgent

theorem splitRequest_append {method uri protocol : Bytes} (hmethod : space ∉ method)
    (huri : space ∉ uri) :
    splitRequest (method ++ space :: (uri ++ space :: protocol)) = .ok (method, uri) := by
  have hsplit : splitN space 3 (method ++ space :: (uri ++ space :: protocol)) =
      [method, uri, protocol] := by
    simp [splitN, indexByte_append hmethod, indexByte_append huri]
  rw [splitRequest, hsplit]

theorem orNone_ite (v : Bytes) : (if orNone v = [] then none else some (orNone v)) =
    if v = lit "-" ∨ v = [] then none else some v := by
  by_cases hdash : v = lit "-"
  · rw [orNone, if_pos hdash, if_pos rfl, if_pos (Or.inl hdash)]
  · simp only [orNone, hdash, if_false, false_or]

namespace Record

variable (r : Record)

/-- The line behind the time. -/
def request : Bytes := r.method ++ space :: (r.uri ++ space :: r.protocol)

def trailer : Bytes := quote :: (r.userAgent ++ [quote])

def numbers : Bytes :=
  r.status.text ++ space :: (r.bytes.text ++ space :: quote :: (r.referer ++ quote :: space ::
    r.trailer))

theorem render_eq : r.render =
    r.remoteAddr ++ space :: ([] ++ dash :: ([space] ++ (r.remoteUser ++ space :: openBracket ::
      (r.time ++ closeBracket :: ([space] ++ quote :: (r.request ++ quote :: space ::
        r.numbers)))))) := by
  have hdash : lit " - " = [space, dash, space] := by decide +kernel
  have hopen : lit " [" = [space, openBracket] := by decide +kernel
  have hclose : lit "] \"" = [closeBracket, space, quote] := by decide +kernel
  have hspace : lit " " = [space] := by decide +kernel
  have hend : lit "\" " = [quote, space] := by decide +kernel
  have hbegin : lit " \"" = [space, quote] := by decide +kernel
  have hmiddle : lit "\" \"" = [quote, space, quote] := by decide +kernel
  have hquote : lit "\"" = [quote] := by decide +kernel
  unfold render
  simp only [request, numbers, trailer, hdash, hopen, hclose, hspace, hend, hbegin, hmiddle, hquote,
    List.append_assoc, List.cons_append, List.nil_append]

theorem trimRight_render : trimRight r.render = r.render := by
  have hquote : lit "\"" = [quote] := by decide +kernel
  unfold render
  rw [trimRight, hquote]
  exact List.rdropWhile_concat_neg _ _ _ (by decide)

theorem quote_not_mem_request : quote ∉ r.request := by
  intro h
  rcases List.mem_append.mp h with h | h
  · exact r.method_quote h
  rcases List.mem_cons.mp h with h | h
  · exact absurd h (by decide)
  rcases List.mem_append.mp h with h | h
  · exact r.uri_quote h
  rcases List.mem_cons.mp h with h | h
  · exact absurd h (by decide)
  · exact r.protocol_quote h

theorem readTail_numbers (srcIP remoteUser : Bytes) :
    readTail srcIP remoteUser (quote :: (r.request ++ quote :: space :: r.numbers)) =
      .ok (makeFields srcIP remoteUser r.method r.uri r.status.text r.bytes.text
        (orNone r.referer) (orNone r.userAgent)) := by
  have hne : r.numbers ≠ [] := by simp [numbers]
  have hrequest : readRequest (quote :: (r.request ++ quote :: space :: r.numbers)) =
      .ok (r.request, r.numbers) := by
    rw [readRequest_append r.quote_not_mem_request, if_neg (by simp), List.tail_cons, if_neg hne]
  have hsplit : splitRequest r.request = .ok (r.method, r.uri) :=
    splitRequest_append r.method_space r.uri_space
  have hstatus : readNumber r.numbers = .ok (r.status.text, _) :=
    readNumber_append r.status.space_not_mem (by rw [r.status.atoi_text r.status_range]; rfl)
  have hbytes : readNumber (r.bytes.text ++ space :: quote :: (r.referer ++ quote :: space ::
      r.trailer)) = .ok (r.bytes.text, _) :=
    readNumber_append r.bytes.space_not_mem (by rw [r.bytes.atoi_text r.bytes_range]; rfl)
  have hreferer : extractQuoted (quote :: (r.referer ++ quote :: space :: r.trailer)) =
      .ok (r.referer, r.trailer) := extractQuoted_append r.referer_quote
  have hua : extractQuoted r.trailer = .ok (r.userAgent, []) :=
    extractQuoted_append r.userAgent_quote
  simp only [readTail, hrequest, hsplit, hstatus, hbytes, hreferer, hua, bind, Except.bind, pure,
    Except.pure]

theorem makeFields_record : makeFields r.remoteAddr r.remoteUser r.method r.uri r.status.text
    r.bytes.text (orNone r.referer) (orNone r.userAgent) = r.fields := by
  funext k
  rw [makeFields_eq]
  cases k with
  | referer => exact orNone_ite r.referer
  | userAgent => exact orNone_ite r.userAgent
  | sourceIP | authUser | method | uri | status | bytes => rfl

/-- The parser inverts the format. -/
theorem parse_render : parseNginxLine r.render = .ok r.fields := by
  have hhead : readHead r.render = .ok (r.remoteAddr, r.remoteUser, openBracket ::
      (r.time ++ closeBracket :: ([space] ++ quote :: (r.request ++ quote :: space ::
        r.numbers)))) := by
    rw [render_eq]
    exact readHead_append r.remoteAddr_space (by simp) (by simp) r.remoteUser_ne r.remoteUser_space
  have htime : skipTime (openBracket :: (r.time ++ closeBracket :: ([space] ++ quote ::
      (r.request ++ quote :: space :: r.numbers)))) =
      .ok (quote :: (r.request ++ quote :: space :: r.numbers)) :=
    skipTime_append r.time_bracket (Or.inr rfl) (by simp [quote, space])
  rw [parse_eq, trimRight_render]
  simp only [readLine, hhead, htime, bind, Except.bind, readTail_numbers, makeFields_record]

-- `FormatNginxExample`
example : ∃ r : Record, r.render = lit ("203.0.113.42 - alice [30/Aug/2026:12:34:56 +0000] " ++
    "\"GET /admin/users?id=1 HTTP/1.1\" 200 1234 " ++
    "\"https://example.com/\" \"Mozilla/5.0\"") := by
  refine ⟨{
    remoteAddr := lit "203.0.113.42"
    remoteUser := lit "alice"
    time := lit "30/Aug/2026:12:34:56 +0000"
    method := lit "GET"
    uri := lit "/admin/users?id=1"
    protocol := lit "HTTP/1.1"
    status := ⟨[], lit "200", Or.inl rfl, by decide +kernel, by decide +kernel⟩
    bytes := ⟨[], lit "1234", Or.inl rfl, by decide +kernel, by decide +kernel⟩
    referer := lit "https://example.com/"
    userAgent := lit "Mozilla/5.0"
    remoteAddr_ne := ?_, remoteAddr_space := ?_, remoteUser_ne := ?_, remoteUser_space := ?_
    time_bracket := ?_, method_space := ?_, method_quote := ?_, uri_space := ?_, uri_quote := ?_
    protocol_quote := ?_, status_range := ⟨?_, ?_⟩, bytes_range := ⟨?_, ?_⟩, referer_quote := ?_
    userAgent_quote := ?_ }, ?_⟩
  all_goals decide +kernel

end Record

end ZaqorinCore.Agent.Webtail
