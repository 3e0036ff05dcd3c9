import ZaqorinCore.Server.Wire
import ZaqorinCore.Text.JsonText

/-!
# The depth guard

`DepthLimitedDecoder` of `utils/depth_json.py`, over the parser of `json` that it inherits. The
guard counts brackets and knows nothing of the grammar. On a text whose brackets match it counts
how deep they nest; on one that breaks off it counts how many are open, and no parser gets past
the place where they stop matching.
-/

namespace ZaqorinCore.Server.DepthGuard

open Text Base JsonText

/-! ## The decoders -/

/-- The parser of `json`, without a guard. -/
def parse (refuses : Str → Bool) (s : Str) : Parse Tree := decode (rawDecode refuses) s

/-- `json.loads` -/
def jsonLoads (refuses : Str → Bool) (s : Str) : Parse Tree :=
  if s.head? = some '\uFEFF' then throw .decode else parse refuses s

/-- `DepthLimitedDecoder.raw_decode` -/
def limitedRawDecode (refuses : Str → Bool) (t : Str) : Parse (Tree × Str) :=
  match checkDepth t with
  | none => throw .value
  | some _ => rawDecode refuses t

/-- `DepthLimitedDecoder.decode`, which `safe_loads` calls. -/
def limitedDecode (refuses : Str → Bool) (s : Str) : Parse Tree :=
  match checkDepth s with
  | none => throw .value
  | some _ => decode (limitedRawDecode refuses) s

/-- How a parse answers its caller, for the Python values that `build` makes. -/
def answer (build : Tree → Json) : Except Failure Tree → Except LoadError Json
  | .ok tree => .ok (build tree)
  | .error .value => .error .value
  | .error _ => .error .decode

/-! ## What the guard counts -/

theorem scan_quotable {t : Str} (h : Quotable t) (o : Int) :
    t.foldlM DepthScan.next ⟨o, true, false⟩ = some ⟨o, true, false⟩ := by
  induction h with
  | nil => rfl
  | @char c t hquote hback ht ih =>
    have hstep : DepthScan.next ⟨o, true, false⟩ c = some ⟨o, true, false⟩ := by
      simp [DepthScan.next, hquote, hback]
    rw [List.foldlM_cons, hstep]
    exact ih
  | @escaped c t ht ih =>
    have hback : DepthScan.next ⟨o, true, false⟩ '\\' = some ⟨o, true, true⟩ := rfl
    have hstep : DepthScan.next ⟨o, true, true⟩ c = some ⟨o, true, false⟩ := rfl
    rw [List.foldlM_cons, hback]
    show ((c :: t).foldlM DepthScan.next ⟨o, true, true⟩) = _
    rw [List.foldlM_cons, hstep]
    exact ih

theorem next_plain {c : Char} (hc : Plain c) (o : Int) :
    DepthScan.next ⟨o, false, false⟩ c = some ⟨o, false, false⟩ := by
  simp only [Plain, List.mem_cons, List.not_mem_nil, or_false, not_or] at hc
  simp [DepthScan.next, hc]

theorem next_opening (b : BracketKind) (o : Int) : DepthScan.next ⟨o, false, false⟩ b.opening =
    if maxJsonDepth < o + 1 then none else some ⟨o + 1, false, false⟩ := by
  cases b <;> rfl

theorem next_closing (b : BracketKind) (o : Int) :
    DepthScan.next ⟨o, false, false⟩ b.closing = some ⟨o - 1, false, false⟩ := by
  cases b <;> rfl

/-- The guard is exact on a text whose brackets match, and its count is back where it was. -/
theorem scan_nested {d : Nat} {t : Str} (h : Nested d t) (o : Nat) (ho : (o : Int) ≤ maxJsonDepth) :
    t.foldlM DepthScan.next ⟨o, false, false⟩ =
      if (o + d : Int) ≤ maxJsonDepth then some ⟨o, false, false⟩ else none := by
  induction h generalizing o with
  | nil =>
    rw [if_pos (by omega)]
    rfl
  | plain hc =>
    rw [if_pos (by omega), List.foldlM_cons, next_plain hc]
    rfl
  | @quoted t ht =>
    have hopen : DepthScan.next ⟨o, false, false⟩ '"' = some ⟨o, true, false⟩ := rfl
    have hclose : DepthScan.next ⟨o, true, false⟩ '"' = some ⟨o, false, false⟩ := rfl
    rw [if_pos (by omega), List.foldlM_cons, hopen]
    show (t ++ ['"']).foldlM DepthScan.next ⟨o, true, false⟩ = _
    rw [List.foldlM_append, scan_quotable ht]
    show ['"'].foldlM DepthScan.next ⟨o, true, false⟩ = _
    rw [List.foldlM_cons, hclose]
    rfl
  | @append d e t u ht hu iht ihu =>
    rw [List.foldlM_append, iht o ho]
    by_cases hd : (o + d : Int) ≤ maxJsonDepth
    · rw [if_pos hd]
      show u.foldlM DepthScan.next ⟨o, false, false⟩ = _
      rw [ihu o ho]
      congr 1
      apply propext
      push_cast
      omega
    · rw [if_neg hd, if_neg (by push_cast; omega)]
      rfl
  | @within d t b ht ih =>
    rw [List.foldlM_cons, next_opening]
    by_cases hlimit : maxJsonDepth < (o : Int) + 1
    · rw [if_pos hlimit, if_neg (by push_cast; omega)]
      rfl
    · rw [if_neg hlimit]
      show (t ++ [b.closing]).foldlM DepthScan.next ⟨((o + 1 : Nat) : Int), false, false⟩ = _
      rw [List.foldlM_append, ih (o + 1) (by push_cast; omega)]
      by_cases hd : (((o + 1 : Nat) : Int) + d) ≤ maxJsonDepth
      · have hback : ((o + 1 : Nat) : Int) - 1 = o := by omega
        rw [if_pos hd, if_pos (by push_cast at hd ⊢; omega)]
        show [b.closing].foldlM DepthScan.next ⟨((o + 1 : Nat) : Int), false, false⟩ = _
        rw [List.foldlM_cons, next_closing, hback]
        rfl
      · rw [if_neg hd, if_neg (by push_cast at hd ⊢; omega)]
        rfl

/-- On a text that breaks off, the guard passes exactly when few enough brackets are open. -/
theorem scan_truncated {d : Nat} {t : Str} (h : Truncated d t) (o : Nat)
    (ho : (o : Int) ≤ maxJsonDepth) :
    (t.foldlM DepthScan.next ⟨o, false, false⟩).isSome = true ↔ (o + d : Int) ≤ maxJsonDepth := by
  induction h generalizing o with
  | nested ht =>
    rw [scan_nested ht o ho]
    split
    · rename_i hd
      exact iff_of_true rfl hd
    · rename_i hd
      exact iff_of_false Bool.false_ne_true hd
  | @opened d e t u b ht hu ih =>
    rw [List.foldlM_append, scan_nested ht o ho]
    by_cases hd : (o + d : Int) ≤ maxJsonDepth
    · rw [if_pos hd]
      show ((b.opening :: u).foldlM DepthScan.next ⟨o, false, false⟩).isSome = true ↔ _
      rw [List.foldlM_cons, next_opening]
      by_cases hlimit : maxJsonDepth < (o : Int) + 1
      · rw [if_pos hlimit]
        refine iff_of_false Bool.false_ne_true ?_
        push_cast
        omega
      · rw [if_neg hlimit]
        show (u.foldlM DepthScan.next ⟨((o + 1 : Nat) : Int), false, false⟩).isSome = true ↔ _
        rw [ih (o + 1) (by push_cast; omega)]
        push_cast
        omega
    · rw [if_neg hd]
      refine iff_of_false Bool.false_ne_true ?_
      push_cast
      omega

theorem checkDepth_nested {d : Nat} {s : Str} (h : Nested d s) :
    (checkDepth s).isSome = true ↔ (d : Int) ≤ maxJsonDepth := by
  have hscan := scan_truncated (.nested h) 0 (by decide)
  simp only [Nat.cast_zero, zero_add] at hscan
  exact hscan

/-- What passes the guard passes it up to any place. -/
theorem le_of_checkDepth {d : Nat} {c rest : Str} (hc : Truncated d c)
    (h : (checkDepth (c ++ rest)).isSome = true) : (d : Int) ≤ maxJsonDepth := by
  unfold checkDepth at h
  rw [List.foldlM_append] at h
  have hscan := scan_truncated hc 0 (by decide)
  simp only [Nat.cast_zero, zero_add] at hscan
  rw [← hscan]
  cases hpre : c.foldlM DepthScan.next ⟨0, false, false⟩ with
  | none =>
    rw [hpre] at h
    exact h
  | some scan => rfl

/-- White space changes no count. -/
theorem checkDepth_skipSpace (s : Str) : checkDepth (skipSpace s) = checkDepth s := by
  have hspace := splits_skipSpace s
  conv_rhs => rw [hspace.eq]
  unfold checkDepth
  rw [List.foldlM_append]
  have hscan := scan_nested hspace.nested 0 (by decide)
  rw [if_pos (by decide)] at hscan
  simp only [Nat.cast_zero] at hscan
  rw [hscan]
  rfl

/-! ## The guarantee -/

/-- The second check, of `raw_decode`, repeats the first one. -/
theorem limitedDecode_of_passes {refuses : Str → Bool} {s : Str}
    (h : (checkDepth s).isSome = true) : limitedDecode refuses s = parse refuses s := by
  obtain ⟨scan, hscan⟩ := Option.isSome_iff_exists.mp h
  have hskip := checkDepth_skipSpace s
  unfold limitedDecode parse decode limitedRawDecode
  rw [hskip, hscan]

theorem limitedDecode_of_refused {refuses : Str → Bool} {s : Str} (h : checkDepth s = none) :
    (limitedDecode refuses s).exec 0 = (.error .value, 0) := by
  unfold limitedDecode
  rw [h]
  rfl

/-- Only `json.loads` looks for a byte order mark, but no value begins with one. -/
theorem parse_of_mark {refuses : Str → Bool} {s : Str} (h : s.head? = some '\uFEFF') :
    ((parse refuses s).exec 0).1 = .error .decode := by
  obtain ⟨t, rfl⟩ : ∃ t, s = '\uFEFF' :: t := by
    cases s with
    | nil => cases h
    | cons c t =>
      cases h
      exact ⟨t, rfl⟩
  have hskip : skipSpace ('\uFEFF' :: t) = '\uFEFF' :: t := rfl
  have hatom : atom refuses ('\uFEFF' :: t) = .error .decode := rfl
  have hscan : (rawDecode refuses ('\uFEFF' :: t)).exec 0 = (.error .decode, 0) := by
    show (liftM (atom refuses ('\uFEFF' :: t)) : Parse (Tree × Str)).exec 0 = _
    rw [hatom]
    rfl
  unfold parse
  rw [exec_decode, hskip, hscan]

theorem jsonLoads_eq {refuses : Str → Bool} {s : Str} :
    ((jsonLoads refuses s).exec 0).1 = ((parse refuses s).exec 0).1 := by
  unfold jsonLoads
  split
  · rename_i hmark
    rw [parse_of_mark hmark]
    rfl
  · rfl

/-- `safe_loads` of the frames is this decoder, when its library is this parser. -/
theorem safeLoads_eq (lib : Library) (refuses : Str → Bool) (build : Tree → Json) (s : Str) :
    safeLoads { lib with loads := fun t => answer build ((parse refuses t).exec 0).1 } s =
      answer build ((limitedDecode refuses s).exec 0).1 := by
  unfold safeLoads
  cases hscan : checkDepth s with
  | none =>
    rw [limitedDecode_of_refused hscan]
    rfl
  | some scan =>
    have hpass : (checkDepth s).isSome = true := by
      rw [hscan]
      rfl
    rw [limitedDecode_of_passes hpass]

/-- What the guard promises about a text. -/
structure Guarded (refuses : Str → Bool) (s : Str) : Prop where
  /-- A text that passes never has the parser inside of more arrays and objects than allowed. -/
  shallow : (checkDepth s).isSome = true →
    (((parse refuses s).exec 0).2 : Int) ≤ maxJsonDepth
  /-- The parser returns or reports an error. -/
  ends : ((parse refuses s).exec 0).1 ≠ .error .fuel
  /-- The guarded decoder reads a JSON text when its values nest no deeper than allowed. -/
  reads_iff : ∀ tree, ((jsonLoads refuses s).exec 0).1 = .ok tree →
    ((∃ value, ((limitedDecode refuses s).exec 0).1 = .ok value) ↔
      (tree.depth : Int) ≤ maxJsonDepth)
  /-- What it reads, `json.loads` reads as well. -/
  same : ∀ value, ((limitedDecode refuses s).exec 0).1 = .ok value →
    ((jsonLoads refuses s).exec 0).1 = .ok value
  /-- A text that passes the guard is read, or refused, as `json.loads` does it. -/
  transparent : (checkDepth s).isSome = true →
    ((limitedDecode refuses s).exec 0).1 = ((jsonLoads refuses s).exec 0).1

theorem transparent_of_passes {refuses : Str → Bool} {s : Str}
    (h : (checkDepth s).isSome = true) :
    ((limitedDecode refuses s).exec 0).1 = ((jsonLoads refuses s).exec 0).1 := by
  rw [limitedDecode_of_passes h, jsonLoads_eq]

theorem passes_of_ok {refuses : Str → Bool} {s : Str} {value : Tree}
    (h : ((limitedDecode refuses s).exec 0).1 = .ok value) : (checkDepth s).isSome = true := by
  cases hscan : checkDepth s with
  | none =>
    rw [limitedDecode_of_refused hscan] at h
    cases h
  | some scan => rfl

/-- How deep a text that is read nests decides whether the guard passes it. -/
theorem passes_iff_of_reads {refuses : Str → Bool} {s : Str} {tree : Tree}
    (h : ((parse refuses s).exec 0).1 = .ok tree) :
    (checkDepth s).isSome = true ↔ (tree.depth : Int) ≤ maxJsonDepth := by
  have hrun : (parse refuses s).exec 0 = (.ok tree, ((parse refuses s).exec 0).2) :=
    Prod.ext h rfl
  exact checkDepth_nested (nested_of_decode hrun).1

/-- A text that passes keeps the parser shallow, wherever the parser stops. -/
theorem shallow_of_passes {refuses : Str → Bool} {s : Str}
    (h : (checkDepth s).isSome = true) : (((parse refuses s).exec 0).2 : Int) ≤ maxJsonDepth := by
  cases hrun : (parse refuses s).exec 0 with
  | mk result peak =>
    cases result with
    | ok tree =>
      obtain ⟨hnested, hpeak⟩ := nested_of_decode hrun
      rw [hpeak]
      exact (checkDepth_nested hnested).mp h
    | error e =>
      obtain ⟨-, c, rest, hs, htruncated⟩ := truncated_of_decode hrun
      rw [hs] at h
      exact le_of_checkDepth htruncated h

theorem parse_ends (refuses : Str → Bool) (s : Str) :
    ((parse refuses s).exec 0).1 ≠ .error .fuel := by
  intro h
  have hrun : (parse refuses s).exec 0 = (.error .fuel, ((parse refuses s).exec 0).2) :=
    Prod.ext h rfl
  exact (truncated_of_decode hrun).1 rfl

/-- The guard keeps the parser shallow on every text, and on a JSON text it decides exactly by
the depth of the value. -/
theorem depth_guard (refuses : Str → Bool) (s : Str) : Guarded refuses s where
  shallow := shallow_of_passes
  ends := parse_ends refuses s
  reads_iff := by
    intro tree htree
    rw [jsonLoads_eq] at htree
    rw [← passes_iff_of_reads htree]
    constructor
    · rintro ⟨value, hvalue⟩
      exact passes_of_ok hvalue
    · intro hpass
      refine ⟨tree, ?_⟩
      rw [limitedDecode_of_passes hpass]
      exact htree
  same := by
    intro value hvalue
    rw [← transparent_of_passes (passes_of_ok hvalue)]
    exact hvalue
  transparent := transparent_of_passes

end ZaqorinCore.Server.DepthGuard
