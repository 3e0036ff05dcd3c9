import ZaqorinCore.Text.Bytes

/-!
# Shell words

`shlex.quote` and `shlex.split`: the words of a command line by the rules of a POSIX shell. A quoted
text is read back as one word wherever it ends, at a space or at the end of the line, and so a line
of quoted texts is read back as those texts: `shellSplit_join`.
-/

namespace ZaqorinCore.Text

/-- The characters that `shlex.quote` leaves alone. -/
def shellSafe (c : Char) : Bool := c.isAlphanum || "_@%+=:,./-".toList.contains c

/-- How a character stands inside of single quotes. -/
def quoteChar (c : Char) : Str := if c = '\x27' then "\x27\"\x27\"\x27".toList else [c]

/-- `shlex.quote` -/
def shellQuote (s : Str) : Str :=
  if s = [] then "\x27\x27".toList
  else if s.all shellSafe then s
  else '\x27' :: (s.flatMap quoteChar ++ ['\x27'])

/-- What `shlex.split` has read last. -/
inductive ShellState
  | space
  | word
  | single
  | double
  | escape
  | escapeDouble

def shellSpace (c : Char) : Bool := " \t\r\n".toList.contains c

/-- The word that ends here, if there is one. -/
def endWord (word : Str) (quoted : Bool) (rest : List Str) : List Str :=
  if word ≠ [] ∨ quoted = true then word :: rest else rest

/-- The words from a place on; an open quote and a backslash at the end are refused. -/
def splitFrom : ShellState → Str → Bool → Str → Option (List Str)
  | .space, word, quoted, [] | .word, word, quoted, [] => some (endWord word quoted [])
  | _, _, _, [] => none
  | .space, word, quoted, c :: rest =>
    if shellSpace c then (splitFrom .space [] false rest).map (endWord word quoted)
    else if c = '\\' then splitFrom .escape word quoted rest
    else if c = '\x27' then splitFrom .single word quoted rest
    else if c = '\x22' then splitFrom .double word quoted rest
    else splitFrom .word [c] quoted rest
  | .word, word, quoted, c :: rest =>
    if shellSpace c then (splitFrom .space [] false rest).map (endWord word quoted)
    else if c = '\x27' then splitFrom .single word quoted rest
    else if c = '\x22' then splitFrom .double word quoted rest
    else if c = '\\' then splitFrom .escape word quoted rest
    else splitFrom .word (word ++ [c]) quoted rest
  | .single, word, _, c :: rest =>
    if c = '\x27' then splitFrom .word word true rest
    else splitFrom .single (word ++ [c]) true rest
  | .double, word, _, c :: rest =>
    if c = '\x22' then splitFrom .word word true rest
    else if c = '\\' then splitFrom .escapeDouble word true rest
    else splitFrom .double (word ++ [c]) true rest
  | .escape, word, quoted, c :: rest => splitFrom .word (word ++ [c]) quoted rest
  | .escapeDouble, word, quoted, c :: rest =>
    if c ≠ '\\' ∧ c ≠ '\x22' then splitFrom .double (word ++ ['\\', c]) quoted rest
    else splitFrom .double (word ++ [c]) quoted rest

/-- `shlex.split` -/
def shellSplit (s : Str) : Option (List Str) := splitFrom .space [] false s

/-- `" ".join(words)` -/
def joinWords : List Str → Str
  | [] => []
  | [word] => word
  | word :: next :: rest => word ++ ' ' :: joinWords (next :: rest)

/-! ## Reading a quoted text -/

theorem not_space_of_safe {c : Char} (h : shellSafe c = true) :
    shellSpace c = false ∧ c ≠ '\\' ∧ c ≠ '\x27' ∧ c ≠ '\x22' := by
  have hne : ∀ d : Char, shellSafe d = false → c ≠ d := by
    rintro d hd rfl
    rw [h] at hd
    cases hd
  refine ⟨?_, hne _ (by decide), hne _ (by decide), hne _ (by decide)⟩
  rw [← Bool.not_eq_true, shellSpace, List.contains_iff_mem]
  intro hmem
  have hunsafe : (" \t\r\n".toList.all fun d => !shellSafe d) = true := by decide
  have hspace := List.all_eq_true.mp hunsafe c hmem
  rw [h] at hspace
  cases hspace

theorem splitFrom_safe (word s rest : Str) (quoted : Bool) (h : s.all shellSafe = true) :
    splitFrom .word word quoted (s ++ rest) = splitFrom .word (word ++ s) quoted rest := by
  induction s generalizing word with
  | nil => rw [List.append_nil, List.nil_append]
  | cons c s ih =>
    rw [List.all_cons, Bool.and_eq_true] at h
    obtain ⟨hspace, hescape, hsingle, hdouble⟩ := not_space_of_safe h.1
    rw [List.cons_append, splitFrom, hspace, if_neg Bool.false_ne_true, if_neg hsingle,
      if_neg hdouble, if_neg hescape, ih _ h.2, List.append_assoc]
    rfl

/-- The closing quote, the quoted quote and the quote that opens again come to one quote. -/
theorem splitFrom_quoteChar (word rest : Str) (quoted : Bool) (c : Char) :
    splitFrom .single word quoted (quoteChar c ++ rest) =
      splitFrom .single (word ++ [c]) true rest := by
  unfold quoteChar
  split
  · rename_i hquote
    rw [hquote]
    rfl
  · rename_i hplain
    rw [List.singleton_append, splitFrom, if_neg hplain]

theorem splitFrom_quoteChars (word s rest : Str) (quoted : Bool) :
    splitFrom .single word quoted (s.flatMap quoteChar ++ '\x27' :: rest) =
      splitFrom .word (word ++ s) true rest := by
  induction s generalizing word quoted with
  | nil => rw [List.append_nil, List.flatMap_nil, List.nil_append, splitFrom, if_pos rfl]
  | cons c s ih =>
    rw [List.flatMap_cons, List.append_assoc, splitFrom_quoteChar, ih, List.append_assoc]
    rfl

/-- A quoted text is read as one word, up to where it ends. -/
theorem splitFrom_shellQuote (s rest : Str) :
    ∃ quoted, (s ≠ [] ∨ quoted = true) ∧
      splitFrom .space [] false (shellQuote s ++ rest) = splitFrom .word s quoted rest := by
  unfold shellQuote
  split
  · rename_i hnil
    rw [hnil]
    exact ⟨true, Or.inr rfl, rfl⟩
  · split
    · rename_i hne hsafe
      refine ⟨false, Or.inl hne, ?_⟩
      obtain ⟨c, s, rfl⟩ := List.exists_cons_of_ne_nil hne
      rw [List.all_cons, Bool.and_eq_true] at hsafe
      obtain ⟨hspace, hescape, hsingle, hdouble⟩ := not_space_of_safe hsafe.1
      rw [List.cons_append, splitFrom, hspace, if_neg Bool.false_ne_true, if_neg hescape,
        if_neg hsingle, if_neg hdouble, splitFrom_safe _ _ _ _ hsafe.2]
      rfl
    · refine ⟨true, Or.inr rfl, ?_⟩
      rw [List.cons_append, List.append_assoc]
      exact splitFrom_quoteChars [] s rest false

theorem endWord_of {word : Str} {quoted : Bool} (h : word ≠ [] ∨ quoted = true)
    (rest : List Str) : endWord word quoted rest = word :: rest :=
  if_pos h

/-- A line of quoted texts is read back as those texts. -/
theorem shellSplit_join (words : List Str) :
    shellSplit (joinWords (words.map shellQuote)) = some words := by
  unfold shellSplit
  induction words with
  | nil => rfl
  | cons word rest ih =>
    cases rest with
    | nil =>
      obtain ⟨quoted, hword, hread⟩ := splitFrom_shellQuote word []
      rw [List.append_nil] at hread
      show splitFrom .space [] false (shellQuote word) = _
      rw [hread, splitFrom, endWord_of hword]
    | cons next rest =>
      obtain ⟨quoted, hword, hread⟩ := splitFrom_shellQuote word
        (' ' :: joinWords ((next :: rest).map shellQuote))
      show splitFrom .space [] false
        (shellQuote word ++ ' ' :: joinWords ((next :: rest).map shellQuote)) = _
      rw [hread, splitFrom, if_pos (by decide), ih, Option.map_some, endWord_of hword]

theorem joinWords_concat {words : List Str} (h : words ≠ []) (last : Str) :
    joinWords (words ++ [last]) = joinWords words ++ ' ' :: last := by
  induction words with
  | nil => exact absurd rfl h
  | cons word rest ih =>
    cases rest with
    | nil => rfl
    | cons next rest =>
      show word ++ ' ' :: joinWords (next :: rest ++ [last]) = _
      rw [ih (List.cons_ne_nil _ _)]
      exact (List.append_assoc word (' ' :: joinWords (next :: rest)) _).symm

example : shellSplit "a 'b c' \"d\\\"e\" f\\ g".toList =
    some ["a".toList, "b c".toList, "d\"e".toList, "f g".toList] := by decide

end ZaqorinCore.Text
