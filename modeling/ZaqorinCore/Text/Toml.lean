import ZaqorinCore.Text.JsonText

/-!
# A part of TOML

Documents of TOML 1.0 as `tomllib` reads them, as far as configurations of plain tables need it:
comments, bare keys, basic strings, booleans and decimal integers, tables and arrays of tables with
one name. In this part no statement is longer than a line. A text that is refused, and one with a
statement of another kind, has no result.
-/

namespace ZaqorinCore.Text

inductive TomlValue
  | str (s : Str)
  | int (n : Int)
  | bool (b : Bool)
  deriving DecidableEq

/-- The members of a table, in the order in which they are written. -/
abbrev TomlMembers := List (Str × TomlValue)

inductive TomlItem
  | value (v : TomlValue)
  | table (members : TomlMembers)
  | tables (rows : List TomlMembers)
  deriving DecidableEq

abbrev TomlDoc := List (Str × TomlItem)

/-- A statement. -/
inductive TomlLine
  | blank
  | pair (key : Str) (value : TomlValue)
  | table (key : Str)
  | tables (key : Str)
  deriving DecidableEq

/-! ## Statements -/

def tomlSpace (c : Char) : Bool := c == ' ' || c == '\t'

/-- The characters that stand in no comment and in no string. -/
def tomlControl (c : Char) : Bool := (c.toNat < 0x20 && c != '\t') || c.toNat == 0x7F

def bareKeyChar (c : Char) : Bool := c.isAlphanum || c == '_' || c == '-'

/-- Nothing but a comment is left of the line. -/
def lineEnds (s : Str) : Bool :=
  match s.dropWhile tomlSpace with
  | [] => true
  | '#' :: rest => rest.all fun c => !tomlControl c
  | _ => false

/-- A bare key and what follows it. -/
def readKey (s : Str) : Option (Str × Str) :=
  if s.takeWhile bareKeyChar = [] then none
  else some (s.takeWhile bareKeyChar, (s.dropWhile bareKeyChar).dropWhile tomlSpace)

/-- The character of an escape of hexadecimal digits. -/
def hexScalar (digits : Str) : Option Char := do
  let values ← digits.mapM JsonText.hexDigitValue
  let n := values.foldl (fun n d => n * 16 + d) 0
  if n.isValidChar then return Char.ofNat n else none

/-- A basic string behind its opening quotation mark. -/
def readBasic : Str → Option (Str × Str)
  | [] => none
  | '\x22' :: rest => some ([], rest)
  | ['\\'] => none
  | '\\' :: 'b' :: rest => (readBasic rest).map fun r => ('\x08' :: r.1, r.2)
  | '\\' :: 't' :: rest => (readBasic rest).map fun r => ('\t' :: r.1, r.2)
  | '\\' :: 'n' :: rest => (readBasic rest).map fun r => ('\n' :: r.1, r.2)
  | '\\' :: 'f' :: rest => (readBasic rest).map fun r => ('\x0c' :: r.1, r.2)
  | '\\' :: 'r' :: rest => (readBasic rest).map fun r => ('\r' :: r.1, r.2)
  | '\\' :: '\x22' :: rest => (readBasic rest).map fun r => ('\x22' :: r.1, r.2)
  | '\\' :: '\\' :: rest => (readBasic rest).map fun r => ('\\' :: r.1, r.2)
  | '\\' :: 'u' :: a :: b :: c :: d :: rest =>
    match hexScalar [a, b, c, d] with
    | none => none
    | some x => (readBasic rest).map fun r => (x :: r.1, r.2)
  | '\\' :: 'U' :: a :: b :: c :: d :: e :: f :: g :: h :: rest =>
    match hexScalar [a, b, c, d, e, f, g, h] with
    | none => none
    | some x => (readBasic rest).map fun r => (x :: r.1, r.2)
  | '\\' :: _ :: _ => none
  | c :: rest =>
    if tomlControl c then none else (readBasic rest).map fun r => (c :: r.1, r.2)

/-- A decimal integer without a sign and what follows it. -/
def readNatural (s : Str) : Option (Nat × Str) :=
  let digits := s.takeWhile Char.isDigit
  if digits = [] ∨ (1 < digits.length ∧ digits.head? = some '0') ∨ 4300 < digits.length then none
  else some (Nat.ofDigitChars 10 digits 0, s.dropWhile Char.isDigit)

def readValue : Str → Option (TomlValue × Str)
  | '\x22' :: '\x22' :: '\x22' :: _ => none
  | '\x22' :: rest => (readBasic rest).map fun r => (.str r.1, r.2)
  | 't' :: 'r' :: 'u' :: 'e' :: rest => some (.bool true, rest)
  | 'f' :: 'a' :: 'l' :: 's' :: 'e' :: rest => some (.bool false, rest)
  | '+' :: rest => (readNatural rest).map fun r => (.int r.1, r.2)
  | '-' :: rest => (readNatural rest).map fun r => (.int (-r.1), r.2)
  | s => (readNatural s).map fun r => (.int r.1, r.2)

/-- The statement of a line. -/
def readLine (line : Str) : Option TomlLine :=
  match line.dropWhile tomlSpace with
  | '[' :: '[' :: rest => do
    let (key, rest) ← readKey (rest.dropWhile tomlSpace)
    match rest with
    | ']' :: ']' :: rest => if lineEnds rest then return .tables key else none
    | _ => none
  | '[' :: rest => do
    let (key, rest) ← readKey (rest.dropWhile tomlSpace)
    match rest with
    | ']' :: rest => if lineEnds rest then return .table key else none
    | _ => none
  | s =>
    if lineEnds s then some .blank
    else do
      let (key, rest) ← readKey s
      match rest with
      | '=' :: rest =>
        let (value, rest) ← readValue (rest.dropWhile tomlSpace)
        if lineEnds rest then return .pair key value else none
      | _ => none

/-! ## Documents -/

/-- A document that is being read. -/
structure TomlState where
  doc : TomlDoc
  /-- the table that a pair goes into -/
  header : Option Str

def TomlDoc.find (doc : TomlDoc) (key : Str) : Option TomlItem := List.lookup key doc

def TomlDoc.replace (doc : TomlDoc) (key : Str) (item : TomlItem) : TomlDoc :=
  doc.map fun e => if e.1 == key then (key, item) else e

/-- No key is defined twice. -/
def addMember (members : TomlMembers) (key : Str) (value : TomlValue) : Option TomlMembers :=
  if (List.lookup key members).isSome then none else some (members ++ [(key, value)])

/-- A pair goes into the table, or into the last one of an array. -/
def TomlItem.add (key : Str) (value : TomlValue) : TomlItem → Option TomlItem
  | .value _ => none
  | .table members => (addMember members key value).map .table
  | .tables rows =>
    match rows.getLast? with
    | none => none
    | some row => (addMember row key value).map fun row => .tables (rows.dropLast ++ [row])

def TomlState.step (st : TomlState) : TomlLine → Option TomlState
  | .blank => some st
  | .pair key value =>
    match st.header with
    | none =>
      if (st.doc.find key).isSome then none
      else some { st with doc := st.doc ++ [(key, .value value)] }
    | some name => do
      let item ← st.doc.find name
      let item ← item.add key value
      return { st with doc := st.doc.replace name item }
  | .table key =>
    if (st.doc.find key).isSome then none else some ⟨st.doc ++ [(key, .table [])], some key⟩
  | .tables key =>
    match st.doc.find key with
    | none => some ⟨st.doc ++ [(key, .tables [[]])], some key⟩
    | some (.tables rows) => some ⟨st.doc.replace key (.tables (rows ++ [[]])), some key⟩
    | some _ => none

/-- `src.replace("\r\n", "\n")` -/
def plainNewlines : Str → Str
  | '\r' :: '\n' :: rest => '\n' :: plainNewlines rest
  | c :: rest => c :: plainNewlines rest
  | [] => []

def readLines : TomlState → List Str → Option TomlState
  | st, [] => some st
  | st, line :: rest => do
    let statement ← readLine line
    let st ← st.step statement
    readLines st rest

/-- `tomllib.loads` -/
def tomlLoads (src : Str) : Option TomlDoc :=
  (readLines ⟨[], none⟩ ((plainNewlines src).splitOn '\n')).map TomlState.doc

/-! ## Reading line after line -/

theorem plainNewlines_of_not_mem {s : Str} (h : '\r' ∉ s) : plainNewlines s = s := by
  induction s with
  | nil => rfl
  | cons c s ih =>
    rw [List.mem_cons, not_or] at h
    rw [plainNewlines, ih h.2]
    rintro rest rfl
    exact absurd rfl h.1

/-- One line that is read, and the statement that is carried out. -/
theorem readLines_cons {st st' : TomlState} {line : Str} {statement : TomlLine}
    (hline : readLine line = some statement) (hstep : st.step statement = some st')
    (rest : List Str) : readLines st (line :: rest) = readLines st' rest := by
  rw [readLines, hline]
  show (st.step statement).bind (fun st => readLines st rest) = _
  rw [hstep]
  rfl

theorem readLines_append {st st' : TomlState} {lines : List Str}
    (h : readLines st lines = some st') (rest : List Str) :
    readLines st (lines ++ rest) = readLines st' rest := by
  induction lines generalizing st with
  | nil =>
    cases h
    rfl
  | cons line lines ih =>
    rw [readLines] at h
    obtain ⟨statement, hline, h⟩ := Option.bind_eq_some_iff.mp h
    obtain ⟨next, hstep, h⟩ := Option.bind_eq_some_iff.mp h
    rw [List.cons_append, readLines_cons hline hstep]
    exact ih h

/-- The lines of joined texts are those of the texts. -/
theorem splitOn_intercalate_newline {parts : List Str} (h : parts ≠ []) :
    (List.intercalate ['\n'] parts).splitOn '\n' = parts.flatMap (List.splitOn '\n') := by
  induction parts with
  | nil => exact absurd rfl h
  | cons part parts ih =>
    cases parts with
    | nil => simp
    | cons next parts =>
      rw [List.intercalate_cons_cons, List.append_assoc, List.singleton_append,
        List.splitOn_append_cons_self, ih (List.cons_ne_nil _ _)]
      rfl

/-! ## Tables -/

theorem lookup_of_not_mem {α : Type} {key : Str} {entries : List (Str × α)}
    (h : key ∉ entries.map Prod.fst) : List.lookup key entries = none := by
  rw [List.lookup_eq_none_iff]
  intro e he
  rw [bne_iff_ne]
  rintro rfl
  exact h (List.mem_map_of_mem he)

/-- The item that a key gets at the end of a document is found there. -/
theorem TomlDoc.find_concat {doc : TomlDoc} {key : Str} (h : doc.find key = none)
    (item : TomlItem) : TomlDoc.find (doc ++ [(key, item)]) key = some item := by
  unfold find at h ⊢
  rw [List.lookup_append, h, List.lookup_cons, beq_self_eq_true]
  rfl

theorem TomlDoc.replace_concat {doc : TomlDoc} {key : Str} (h : doc.find key = none)
    (item item' : TomlItem) :
    TomlDoc.replace (doc ++ [(key, item)]) key item' = doc ++ [(key, item')] := by
  have hother : ∀ e ∈ doc, (if e.1 == key then (key, item') else e) = e := by
    intro e he
    have hne := List.lookup_eq_none_iff.mp h e he
    rw [bne_iff_ne] at hne
    rw [if_neg]
    rw [beq_iff_eq]
    exact fun heq => hne heq.symm
  unfold replace
  rw [List.map_append, List.map_congr_left hother, List.map_id']
  simp

/-- Pairs with new keys are taken one after the other, by whatever holds those that were taken. -/
theorem readLines_taken {state : TomlMembers → TomlState} {keys : List Str}
    (hstep : ∀ taken key value, key ∉ keys ++ taken.map Prod.fst →
      (state taken).step (.pair key value) = some (state (taken ++ [(key, value)])))
    {lines : List Str} {taken members : TomlMembers}
    (hlines : List.Forall₂ (fun line m => readLine line = some (.pair m.1 m.2)) lines members)
    (hdistinct : (keys ++ (taken ++ members).map Prod.fst).Nodup) :
    readLines (state taken) lines = some (state (taken ++ members)) := by
  induction hlines generalizing taken with
  | nil => rw [List.append_nil, readLines]
  | @cons line m lines members hline _ ih =>
    have hnew : m.1 ∉ keys ++ taken.map Prod.fst := by
      rw [List.map_append, ← List.append_assoc, List.map_cons, List.nodup_append] at hdistinct
      exact fun hmem => hdistinct.2.2 _ hmem _ List.mem_cons_self rfl
    rw [readLines_cons hline (hstep taken m.1 m.2 hnew), ih, List.append_assoc]
    · rfl
    · rwa [List.append_assoc]

/-- The lines of pairs in front of all tables. -/
theorem readLines_top {doc : TomlDoc} {lines : List Str} {members : TomlMembers}
    (hlines : List.Forall₂ (fun line m => readLine line = some (.pair m.1 m.2)) lines members)
    (hdistinct : (doc.map Prod.fst ++ members.map Prod.fst).Nodup) :
    readLines ⟨doc, none⟩ lines =
      some ⟨doc ++ members.map fun m => (m.1, .value m.2), none⟩ := by
  let state (taken : TomlMembers) : TomlState :=
    ⟨doc ++ taken.map fun m => (m.1, .value m.2), none⟩
  have hstep : ∀ taken key value, key ∉ doc.map Prod.fst ++ taken.map Prod.fst →
      (state taken).step (.pair key value) = some (state (taken ++ [(key, value)])) := by
    intro taken key value hkey
    have hnew : (state taken).doc.find key = none := by
      apply lookup_of_not_mem
      rwa [List.map_append, List.map_map]
    rw [TomlState.step, hnew]
    show some (TomlState.mk (doc ++ _ ++ [(key, .value value)]) none) =
      some (TomlState.mk (doc ++ (taken ++ [(key, value)]).map _) none)
    rw [List.append_assoc, List.map_append]
    rfl
  have htaken : readLines (state []) lines = some (state ([] ++ members)) :=
    readLines_taken hstep hlines hdistinct
  rwa [show state [] = ⟨doc, none⟩ from congrArg (TomlState.mk · none) (List.append_nil doc)]
    at htaken

/-- The item takes the pairs at the end of the members. -/
def TakesPairs (wrap : TomlMembers → TomlItem) : Prop :=
  ∀ members key value, List.lookup key members = none →
    (wrap members).add key value = some (wrap (members ++ [(key, value)]))

theorem takesPairs_table : TakesPairs .table := by
  intro members key value h
  rw [TomlItem.add, addMember, h]
  rfl

theorem takesPairs_tables (rows : List TomlMembers) :
    TakesPairs fun members => .tables (rows ++ [members]) := by
  intro members key value h
  rw [TomlItem.add, List.getLast?_concat]
  dsimp only
  rw [addMember, h, List.dropLast_concat]
  rfl

/-- The lines of pairs fill the table at the end of the document. -/
theorem readLines_pairs {wrap : TomlMembers → TomlItem} (hwrap : TakesPairs wrap)
    {doc : TomlDoc} {name : Str} (hfree : doc.find name = none) {lines : List Str}
    {filled members : TomlMembers}
    (hlines : List.Forall₂ (fun line m => readLine line = some (.pair m.1 m.2)) lines members)
    (hdistinct : ((filled ++ members).map Prod.fst).Nodup) :
    readLines ⟨doc ++ [(name, wrap filled)], some name⟩ lines =
      some ⟨doc ++ [(name, wrap (filled ++ members))], some name⟩ := by
  let state (taken : TomlMembers) : TomlState := ⟨doc ++ [(name, wrap taken)], some name⟩
  have hstep : ∀ taken key value, key ∉ [] ++ taken.map Prod.fst →
      (state taken).step (.pair key value) = some (state (taken ++ [(key, value)])) := by
    intro taken key value hkey
    have hnew : List.lookup key taken = none := lookup_of_not_mem hkey
    have hfind := TomlDoc.find_concat hfree (wrap taken)
    rw [TomlState.step]
    show (TomlDoc.find (doc ++ [(name, wrap taken)]) name).bind _ = _
    rw [hfind]
    show ((wrap taken).add key value).bind _ = _
    rw [hwrap _ _ _ hnew]
    show some _ = some _
    rw [TomlDoc.replace_concat hfree]
  exact readLines_taken hstep hlines hdistinct

end ZaqorinCore.Text
