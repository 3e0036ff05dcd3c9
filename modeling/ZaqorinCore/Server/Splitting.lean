import ZaqorinCore.Server.Value

/-!
# Stripping and splitting texts of words

`s.strip()` on a text between blanks, and `s.split(" word ")` on a text that is written as words
with white space between them. A word of the text is taken for the separator exactly when it is
that word with a space right before it and right after it, and the space before it was not used up
by the separator before (`splitFrom_word`).
-/

namespace ZaqorinCore.Server

open Text

/-- White space only. -/
def Blank (s : Str) : Prop := ∀ c ∈ s, pySpace c.toNat = true

/-- No white space, and not empty. -/
structure Solid (s : Str) : Prop where
  nonempty : s ≠ []
  solid : ∀ c ∈ s, pySpace c.toNat = false

theorem Blank.nil : Blank [] := nofun

theorem Blank.tail {s : Str} (h : Blank s) : Blank s.tail :=
  fun c hc => h c (List.mem_of_mem_tail hc)

theorem Blank.append {s t : Str} (hs : Blank s) (ht : Blank t) : Blank (s ++ t) := by
  intro c hc
  obtain hc | hc := List.mem_append.mp hc
  · exact hs c hc
  · exact ht c hc

/-! ## `strip` -/

theorem dropWhile_blank {s : Str} (h : Blank s) (rest : Str) :
    ((s ++ rest).dropWhile fun c => pySpace c.toNat) =
      rest.dropWhile fun c => pySpace c.toNat := by
  induction s with
  | nil => rfl
  | cons c s ih =>
    rw [List.cons_append, List.dropWhile_cons, if_pos (h c List.mem_cons_self)]
    exact ih fun d hd => h d (List.mem_cons_of_mem _ hd)

theorem dropWhile_solid {c : Char} (h : pySpace c.toNat = false) (before rest : Str) :
    ((before ++ c :: rest).dropWhile fun c => pySpace c.toNat) =
      (before.dropWhile fun c => pySpace c.toNat) ++ c :: rest := by
  induction before with
  | nil => exact List.dropWhile_cons_of_neg (by simp [h])
  | cons d before ih =>
    by_cases hd : pySpace d.toNat = true
    · rw [List.cons_append, List.dropWhile_cons, if_pos hd, ih, List.dropWhile_cons, if_pos hd]
    · rw [List.cons_append, List.dropWhile_cons, if_neg hd, List.dropWhile_cons, if_neg hd]
      rfl

theorem strip_blank {s : Str} (h : Blank s) : strip s = [] := by
  have hdrop := dropWhile_blank h []
  rw [List.append_nil] at hdrop
  rw [strip, hdrop]
  rfl

/-- What stands between two characters that are no white space stays. -/
theorem strip_between {x y : Char} (hx : pySpace x.toNat = false) (hy : pySpace y.toNat = false)
    (before middle after : Str) :
    ∃ a b, strip (before ++ x :: (middle ++ y :: after)) = a ++ x :: (middle ++ y :: b) := by
  unfold strip
  rw [dropWhile_solid hx]
  have hreverse :
      ((before.dropWhile fun c => pySpace c.toNat) ++ x :: (middle ++ y :: after)).reverse =
      after.reverse ++ y :: (middle.reverse ++
        x :: (before.dropWhile fun c => pySpace c.toNat).reverse) := by
    simp
  rw [hreverse, dropWhile_solid hy]
  refine ⟨before.dropWhile fun c => pySpace c.toNat,
    (after.reverse.dropWhile fun c => pySpace c.toNat).reverse, ?_⟩
  simp

/-- A text that begins and ends with characters that are no white space. -/
structure Trimmed (s : Str) : Prop where
  nonempty : s ≠ []
  head : ∀ c ∈ s.head?, pySpace c.toNat = false
  last : ∀ c ∈ s.getLast?, pySpace c.toNat = false

theorem Solid.trimmed {s : Str} (h : Solid s) : Trimmed s where
  nonempty := h.nonempty
  head c hc := h.solid c (List.mem_of_mem_head? hc)
  last c hc := h.solid c (List.mem_of_mem_getLast? hc)

theorem Trimmed.append {s t : Str} (hs : Trimmed s) (ht : Trimmed t) (middle : Str) :
    Trimmed (s ++ (middle ++ t)) where
  nonempty := by simp [hs.nonempty]
  head c hc := by
    rw [List.head?_append_of_ne_nil _ hs.nonempty] at hc
    exact hs.head c hc
  last c hc := by
    rw [List.getLast?_append_of_ne_nil _ (by simp [ht.nonempty]),
      List.getLast?_append_of_ne_nil _ ht.nonempty] at hc
    exact ht.last c hc

theorem strip_trimmed {left s right : Str} (hleft : Blank left) (h : Trimmed s)
    (hright : Blank right) : strip (left ++ (s ++ right)) = s := by
  unfold strip
  rw [dropWhile_blank hleft]
  obtain ⟨c, rest, rfl⟩ := List.exists_cons_of_ne_nil h.nonempty
  have hc : pySpace c.toNat = false := h.head c rfl
  have hdrop : ((c :: rest) ++ right).dropWhile (fun c => pySpace c.toNat) =
      (c :: rest) ++ right := List.dropWhile_cons_of_neg (by simp [hc])
  rw [hdrop, List.reverse_append]
  have hblank : Blank right.reverse := fun d hd => hright d (List.mem_reverse.mp hd)
  rw [dropWhile_blank hblank]
  obtain ⟨d, before, hd⟩ := List.exists_cons_of_ne_nil (List.reverse_ne_nil_iff.mpr h.nonempty)
  have hlast : pySpace d.toNat = false := by
    apply h.last d
    rw [List.getLast?_eq_head?_reverse, hd]
    rfl
  rw [hd, List.dropWhile_cons_of_neg (by simp [hlast]), ← hd, List.reverse_reverse]

theorem strip_idem (s : Str) : strip (strip s) = strip s := by
  unfold strip
  generalize hblank : (fun c : Char => pySpace c.toNat) = blank
  generalize hbody : s.dropWhile blank = body
  have hhead : ∀ c ∈ body.head?, blank c = false := by
    intro c hc
    rw [← hbody] at hc
    have := List.head?_dropWhile_not blank s
    rw [Option.mem_def.mp hc] at this
    simpa using this
  have hkeep : ((body.reverse.dropWhile blank).reverse).dropWhile blank =
      (body.reverse.dropWhile blank).reverse := by
    obtain ⟨tail, htail⟩ : (body.reverse.dropWhile blank).reverse <+: body := by
      rw [← List.reverse_suffix, List.reverse_reverse]
      exact List.dropWhile_suffix _
    cases hrest : (body.reverse.dropWhile blank).reverse with
    | nil => rfl
    | cons c rest =>
      rw [hrest] at htail
      rw [List.dropWhile_cons, if_neg]
      rw [hhead c (by rw [← htail]; rfl)]
      exact Bool.false_ne_true
  rw [hkeep, List.reverse_reverse, List.dropWhile_idempotent]

/-! ## `split` -/

/-- The separator `" word "`. -/
def spaced (word : Str) : Str := ' ' :: (word ++ [' '])

theorem splitFrom_skip (sep piece rest : Str) (s : Str) :
    splitFrom sep s.length piece (s ++ rest) = splitFrom sep 0 piece rest := by
  induction s with
  | nil => rfl
  | cons c s ih => exact ih

/-- The piece that is being read is the start of the first one. -/
theorem splitFrom_piece (sep : Str) (k : Nat) (piece s : Str) :
    ∃ more others, splitFrom sep k piece s = (piece.reverse ++ more) :: others := by
  induction s generalizing k piece with
  | nil => exact ⟨[], [], by simp [splitFrom]⟩
  | cons c s ih =>
    cases k with
    | succ k => exact ih k piece
    | zero =>
      rw [splitFrom]
      split
      · exact ⟨[], _, by rw [List.append_nil]⟩
      · obtain ⟨more, others, h⟩ := ih 0 (c :: piece)
        exact ⟨c :: more, others, by rw [h]; simp⟩

variable {word : Str}

/-- No separator begins inside a word. -/
theorem splitFrom_solid {s : Str} (h : ∀ c ∈ s, pySpace c.toNat = false) (piece rest : Str) :
    splitFrom (spaced word) 0 piece (s ++ rest) =
      splitFrom (spaced word) 0 (s.reverse ++ piece) rest := by
  induction s generalizing piece with
  | nil => rfl
  | cons c s ih =>
    have hc : (spaced word).isPrefixOf (c :: (s ++ rest)) = false := by
      have hne : (' ' == c) = false := by
        apply beq_false_of_ne
        rintro rfl
        exact absurd (h ' ' List.mem_cons_self) (by decide)
      simp only [spaced, List.isPrefixOf, hne, Bool.false_and]
    rw [List.cons_append, splitFrom, hc, if_neg Bool.false_ne_true,
      ih fun d hd => h d (List.mem_cons_of_mem _ hd)]
    simp

/-- A word ends where white space begins. -/
def Ends (rest : Str) : Prop := ∀ c ∈ rest.head?, pySpace c.toNat = true

/-- The word with a space after it is read at a word of the text exactly when it is that word. -/
theorem word_prefix_iff (hword : Solid word) {s rest : Str} (hs : Solid s) (hrest : Ends rest) :
    word ++ [' '] <+: s ++ rest ↔ s = word ∧ rest.head? = some ' ' := by
  constructor
  · rintro ⟨more, hmore⟩
    rw [List.append_assoc, List.append_eq_append_iff] at hmore
    obtain ⟨extra, hext, hrest'⟩ | ⟨extra, hext, hrest'⟩ := hmore
    · cases extra with
      | nil =>
        rw [List.append_nil] at hext
        rw [List.nil_append] at hrest'
        exact ⟨hext, by rw [← hrest']; rfl⟩
      | cons d extra =>
        have hd : d = ' ' := by
          have := congrArg List.head? hrest'
          simpa using this.symm
        have := hs.solid d (by rw [hext]; simp)
        rw [hd] at this
        exact absurd this (by decide)
    · cases extra with
      | nil =>
        rw [List.append_nil] at hext
        rw [List.nil_append] at hrest'
        exact ⟨hext.symm, by rw [hrest']; rfl⟩
      | cons d extra =>
        have hblank := hrest d (by rw [hrest']; rfl)
        rw [hword.solid d (by rw [hext]; simp)] at hblank
        cases hblank
  · rintro ⟨rfl, hhead⟩
    obtain ⟨more, rfl⟩ := List.head?_eq_some_iff.mp hhead
    exact ⟨more, by simp⟩

/-- The separator is read at a word: after a space, and followed by one. -/
def ReadsAt (word gap s rest : Str) : Prop :=
  gap.getLast? = some ' ' ∧ s = word ∧ rest.head? = some ' '

instance (word gap s rest : Str) : Decidable (ReadsAt word gap s rest) :=
  inferInstanceAs (Decidable (_ ∧ _ ∧ _))

/-- One word of the text with the white space before it. -/
theorem splitFrom_word (hword : Solid word) {gap s rest : Str} (hgap : Blank gap) (hs : Solid s)
    (hrest : Ends rest) (piece : Str) :
    splitFrom (spaced word) 0 piece (gap ++ (s ++ rest)) =
      if ReadsAt word gap s rest then
        (piece.reverse ++ gap.dropLast) :: splitFrom (spaced word) 0 [] rest.tail
      else splitFrom (spaced word) 0 ((gap ++ s).reverse ++ piece) rest := by
  induction gap generalizing piece with
  | nil =>
    rw [if_neg (by simp [ReadsAt]), List.nil_append, splitFrom_solid hs.solid]
    rfl
  | cons c gap ih =>
    have hgap' : Blank gap := fun d hd => hgap d (List.mem_cons_of_mem _ hd)
    rw [List.cons_append, splitFrom]
    cases gap with
    | nil =>
      -- the last character of the gap: here the separator can begin
      have hiff : (spaced word).isPrefixOf (c :: (s ++ rest)) = true ↔
          ReadsAt word [c] s rest := by
        rw [List.isPrefixOf_iff_prefix, spaced, List.cons_prefix_cons,
          word_prefix_iff hword hs hrest, ReadsAt]
        simp [eq_comm]
      rw [List.nil_append]
      by_cases hreads : ReadsAt word [c] s rest
      · rw [if_pos (hiff.mpr hreads), if_pos hreads]
        obtain ⟨-, rfl, hhead⟩ := hreads
        obtain ⟨more, rfl⟩ := List.head?_eq_some_iff.mp hhead
        have hskip := splitFrom_skip (spaced s) [] more (s ++ [' '])
        have hlength : (spaced s).length - 1 = (s ++ [' ']).length := by simp [spaced]
        rw [hlength]
        rw [List.append_assoc] at hskip
        simp only [List.dropLast_singleton, List.append_nil, List.tail_cons]
        rw [← hskip]
        rfl
      · rw [if_neg (fun h => hreads (hiff.mp h)), if_neg hreads, splitFrom_solid hs.solid]
        simp
    | cons d gap =>
      -- white space follows, so the separator does not begin here
      have hd : pySpace d.toNat = true := hgap d (by simp)
      have hnot : ¬ (spaced word).isPrefixOf (c :: ((d :: gap) ++ (s ++ rest))) = true := by
        rw [List.isPrefixOf_iff_prefix, spaced, List.cons_prefix_cons]
        rintro ⟨-, hstart⟩
        obtain ⟨w, ws, rfl⟩ := List.exists_cons_of_ne_nil hword.nonempty
        obtain ⟨rfl, -⟩ := List.cons_prefix_cons.mp hstart
        rw [hword.solid w (by simp)] at hd
        cases hd
      have hsame : ReadsAt word (c :: d :: gap) s rest ↔ ReadsAt word (d :: gap) s rest := by
        unfold ReadsAt
        rw [List.getLast?_cons_cons]
      rw [if_neg hnot, ih hgap' (c :: piece)]
      by_cases hreads : ReadsAt word (d :: gap) s rest
      · rw [if_pos hreads, if_pos (hsame.mpr hreads)]
        simp [List.dropLast]
      · rw [if_neg hreads, if_neg (fun h => hreads (hsame.mp h))]
        simp

/-- White space at the end. -/
theorem splitFrom_blank (hword : Solid word) {gap : Str} (hgap : Blank gap) (piece : Str) :
    splitFrom (spaced word) 0 piece gap = [piece.reverse ++ gap] := by
  induction gap generalizing piece with
  | nil => simp [splitFrom]
  | cons c gap ih =>
    have hnot : ¬ (spaced word).isPrefixOf (c :: gap) = true := by
      rw [List.isPrefixOf_iff_prefix, spaced, List.cons_prefix_cons]
      rintro ⟨-, hstart⟩
      obtain ⟨w, ws, rfl⟩ := List.exists_cons_of_ne_nil hword.nonempty
      have hmem : w ∈ gap := hstart.subset (by simp)
      have := hgap w (List.mem_cons_of_mem _ hmem)
      rw [hword.solid w (by simp)] at this
      cases this
    rw [splitFrom, if_neg hnot, ih fun d hd => hgap d (List.mem_cons_of_mem _ hd)]
    simp

end ZaqorinCore.Server
