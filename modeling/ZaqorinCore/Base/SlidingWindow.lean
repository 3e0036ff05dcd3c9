import Mathlib

/-!
# Sliding-window limits

A limiter lets an arrival through unless `limit` arrivals of its bucket were let through in
the closed interval of the given width that ends at it. `ledger` is this rule as it reads: every
arrival is judged on the whole history before it. An implementation that forgets the part of
the history that has left the window agrees with it as long as the clock does not run
backwards (`dropWhile_eq_recent`, `recent_recent`).
-/

namespace ZaqorinCore.Base

/-- What is limited and how it is answered. An arrival without a bucket is exempt; the answer to
any other is computed from the admissions of its bucket that are still in the window. -/
structure Limiter (α κ T ω : Type) where
  bucket : α → Option κ
  time : α → T
  width : T
  limit : Nat
  exempt : ω
  reply : α → List T → ω
  passes : ω → Bool
  passes_reply : ∀ a recent, passes (reply a recent) = decide (recent.length < limit)

namespace Limiter

variable {α κ T ω : Type}

/-! ## Times let through -/

section

variable [DecidableEq κ] (L : Limiter α κ T ω)

/-- The times at which arrivals of the bucket were let through. -/
def admitted (k : κ) (log : List (α × ω)) : List T :=
  (log.filter fun e => L.bucket e.1 = some k && L.passes e.2).map fun e => L.time e.1

theorem admitted_snoc (k : κ) (log : List (α × ω)) (a : α) (o : ω) :
    L.admitted k (log ++ [(a, o)]) = L.admitted k log ++
      if L.bucket a = some k ∧ L.passes o = true then [L.time a] else [] := by
  unfold admitted
  rw [List.filter_append, List.map_append]
  congr 1
  by_cases h : L.bucket a = some k ∧ L.passes o = true
  · rw [if_pos h, List.filter_cons_of_pos (by simpa using h)]
    rfl
  · rw [if_neg h, List.filter_cons_of_neg (by simpa using h)]
    rfl

/-- Only the entries of the bucket matter. -/
theorem admitted_filter (k : κ) (log : List (α × ω)) :
    L.admitted k (log.filter fun e => decide (L.bucket e.1 = some k)) = L.admitted k log := by
  unfold admitted
  rw [List.filter_filter]
  congr 2
  funext e
  by_cases h : L.bucket e.1 = some k
  · simp [h]
  · simp [h]

/-- Only arrivals are admitted. -/
theorem exists_of_mem_admitted {k : κ} {arrivals : List α} {log : List (α × ω)} {s : T}
    (hlog : log.map Prod.fst = arrivals) (h : s ∈ L.admitted k log) :
    ∃ a ∈ arrivals, L.time a = s := by
  obtain ⟨e, he, rfl⟩ := List.mem_map.mp h
  have hmem := List.mem_map_of_mem (f := Prod.fst) (List.mem_of_mem_filter he)
  rw [hlog] at hmem
  exact ⟨e.1, hmem, rfl⟩

end

/-! ## One bucket -/

variable [AddCommGroup T] [LinearOrder T]

/-- The times that lie in the window that ends at `t`, when none is after `t`. -/
def recent (width t : T) (past : List T) : List T := past.filter fun s => decide (t - width ≤ s)

/-- Every closed interval of the given width holds at most `limit` of the times. -/
def Sparse (width : T) (limit : Nat) (past : List T) : Prop :=
  ∀ x, (past.filter fun s => decide (x ≤ s ∧ s ≤ x + width)).length ≤ limit

theorem recent_append (width t : T) (past later : List T) :
    recent width t (past ++ later) = recent width t past ++ recent width t later :=
  List.filter_append ..

/-- What has left the window at one time is not in it later. -/
theorem recent_recent [IsOrderedAddMonoid T] {width t u : T} (h : t ≤ u) (past : List T) :
    recent width u (recent width t past) = recent width u past := by
  unfold recent
  rw [List.filter_filter]
  congr 1
  funext s
  by_cases hs : u - width ≤ s
  · have ht : t - width ≤ s := (sub_le_sub_right h width).trans hs
    rw [decide_eq_true hs, decide_eq_true ht, Bool.and_self]
  · rw [decide_eq_false hs, Bool.false_and]

/-- Dropping from the front is enough when the times are in order. -/
theorem dropWhile_eq_recent (width t : T) {past : List T} (h : past.Pairwise (· ≤ ·)) :
    (past.dropWhile fun s => decide (s < t - width)) = recent width t past := by
  induction past with
  | nil => rfl
  | cons s past ih =>
    rw [List.pairwise_cons] at h
    unfold recent at ih ⊢
    by_cases hs : s < t - width
    · have hout : ¬ decide (t - width ≤ s) = true := by
        rw [decide_eq_true_eq, not_le]
        exact hs
      rw [List.dropWhile_cons_of_pos (by exact decide_eq_true hs), ih h.2,
        List.filter_cons_of_neg (by exact hout)]
    · rw [List.dropWhile_cons_of_neg (by rw [decide_eq_true_eq]; exact hs)]
      symm
      apply List.filter_eq_self.mpr
      intro u hu
      rw [not_lt] at hs
      have : s ≤ u := by
        obtain rfl | hmem := List.mem_cons.mp hu
        · exact le_refl _
        · exact h.1 u hmem
      exact decide_eq_true (hs.trans this)

/-- The times that are kept at a moment give every later window what all times give it. -/
structure Follows (width now : T) (kept past : List T) : Prop where
  sorted : kept.Pairwise (· ≤ ·)
  before : ∀ s ∈ kept, s ≤ now
  recent_eq : ∀ t, now ≤ t → recent width t kept = recent width t past

theorem follows_nil (width now : T) : Follows width now ([] : List T) [] :=
  ⟨.nil, fun _ h => absurd h List.not_mem_nil, fun _ _ => rfl⟩

theorem Follows.later {width now t : T} {kept past : List T} (h : Follows width now kept past)
    (ht : now ≤ t) : Follows width t kept past :=
  ⟨h.sorted, fun s hs => (h.before s hs).trans ht, fun u hu => h.recent_eq u (ht.trans hu)⟩

/-- What has left the window may be forgotten. -/
theorem Follows.expire [IsOrderedAddMonoid T] {width now : T} {kept past : List T}
    (h : Follows width now kept past) : Follows width now (recent width now kept) past := by
  refine ⟨h.sorted.sublist List.filter_sublist,
    fun s hs => h.before s (List.mem_of_mem_filter hs), ?_⟩
  intro t ht
  rw [recent_recent ht, h.recent_eq t ht]

theorem Follows.append {width now : T} {kept past : List T} (h : Follows width now kept past) :
    Follows width now (kept ++ [now]) (past ++ [now]) := by
  refine ⟨?_, ?_, ?_⟩
  · apply List.pairwise_append.mpr
    refine ⟨h.sorted, List.pairwise_singleton _ _, ?_⟩
    intro s hs t ht
    rw [List.mem_singleton.mp ht]
    exact h.before s hs
  · intro s hs
    rcases List.mem_append.mp hs with hs | hs
    · exact h.before s hs
    · exact (List.mem_singleton.mp hs).le
  · intro t ht
    rw [recent_append, recent_append, h.recent_eq t ht]

/-- Times in order have left the window when the last of them has. -/
theorem recent_eq_nil {width t last : T} {kept : List T} (hsorted : kept.Pairwise (· ≤ ·))
    (hlast : kept.getLast? = some last) (h : last < t - width) : recent width t kept = [] := by
  apply List.filter_eq_nil_iff.mpr
  intro s hs
  have hle : s ≤ last := by
    obtain ⟨front, rfl⟩ := List.getLast?_eq_some_iff.mp hlast
    rcases List.mem_append.mp hs with hs | hs
    · exact (List.pairwise_append.mp hsorted).2.2 s hs last (by simp)
    · exact (List.mem_singleton.mp hs).le
  rw [decide_eq_true_eq, not_le]
  exact hle.trans_lt h

/-- One more time keeps the bound if the window that ends at it has room. -/
theorem Sparse.append [IsOrderedAddMonoid T] {width t : T} {limit : Nat} {past : List T}
    (h : Sparse width limit past) (hroom : (recent width t past).length < limit) :
    Sparse width limit (past ++ [t]) := by
  intro x
  rw [List.filter_append, List.length_append]
  by_cases ht : x ≤ t ∧ t ≤ x + width
  · have hin : (past.filter fun s => decide (x ≤ s ∧ s ≤ x + width)).length ≤
        (recent width t past).length := by
      apply (List.monotone_filter_right past _).length_le
      intro s hs
      have hs : x ≤ s ∧ s ≤ x + width := by simpa using hs
      have : t - width ≤ x := sub_le_iff_le_add.mpr ht.2
      exact decide_eq_true (this.trans hs.1)
    have hone : ([t].filter fun s => decide (x ≤ s ∧ s ≤ x + width)).length ≤ 1 :=
      List.length_filter_le ..
    omega
  · have hnone : [t].filter (fun s => decide (x ≤ s ∧ s ≤ x + width)) = [] := by
      simpa using ht
    rw [hnone]
    simpa using h x

theorem sparse_nil (width : T) (limit : Nat) : Sparse width limit ([] : List T) := by
  intro x
  simp

/-! ## The ledger -/

variable [DecidableEq κ] (L : Limiter α κ T ω)

/-- The answer to an arrival after what the log records. -/
def judge (log : List (α × ω)) (a : α) : ω :=
  match L.bucket a with
  | none => L.exempt
  | some k => L.reply a (recent L.width (L.time a) (L.admitted k log))

def ledger (arrivals : List α) : List (α × ω) :=
  arrivals.foldl (fun log a => log ++ [(a, L.judge log a)]) []

theorem ledger_snoc (arrivals : List α) (a : α) :
    L.ledger (arrivals ++ [a]) = L.ledger arrivals ++ [(a, L.judge (L.ledger arrivals) a)] :=
  List.foldl_append ..

theorem judge_of_bucket {k : κ} {a : α} (h : L.bucket a = some k) (log : List (α × ω)) :
    L.judge log a = L.reply a (recent L.width (L.time a) (L.admitted k log)) := by
  rw [judge, h]

/-- The answer depends on the arrivals of the same bucket only. -/
theorem judge_congr {a : α} {log log' : List (α × ω)}
    (h : ∀ k, L.bucket a = some k → L.admitted k log = L.admitted k log') :
    L.judge log a = L.judge log' a := by
  unfold judge
  cases hk : L.bucket a with
  | none => rfl
  | some k =>
    dsimp only
    rw [h k hk]

/-- The entries of a ledger are the answers to what came before them. -/
theorem judge_of_ledger_eq {arrivals : List α} {before after : List (α × ω)} {a : α} {o : ω}
    (h : L.ledger arrivals = before ++ (a, o) :: after) : o = L.judge before a := by
  induction arrivals using List.reverseRecOn generalizing after with
  | nil =>
    have h : [] = before ++ (a, o) :: after := h
    simp at h
  | append_singleton arrivals b ih =>
    rw [ledger_snoc] at h
    induction after using List.reverseRecOn with
    | nil =>
      obtain ⟨hbefore, hlast⟩ := List.append_inj' h rfl
      cases hlast
      rw [hbefore]
    | append_singleton after e _ =>
      have h : L.ledger arrivals ++ [(b, L.judge (L.ledger arrivals) b)] =
          (before ++ (a, o) :: after) ++ [e] := by
        rw [h]
        simp
      exact ih (List.append_inj' h rfl).1

/-- The bound of the limiter. -/
theorem sparse_admitted [IsOrderedAddMonoid T] (k : κ) (arrivals : List α) :
    Sparse L.width L.limit (L.admitted k (L.ledger arrivals)) := by
  induction arrivals using List.reverseRecOn with
  | nil => exact sparse_nil _ _
  | append_singleton arrivals a ih =>
    rw [ledger_snoc, admitted_snoc]
    split
    · rename_i h
      apply ih.append
      rw [L.judge_of_bucket h.1, L.passes_reply] at h
      exact of_decide_eq_true h.2
    · simpa using ih

theorem ledger_map_fst (arrivals : List α) : (L.ledger arrivals).map Prod.fst = arrivals := by
  induction arrivals using List.reverseRecOn with
  | nil => rfl
  | append_singleton arrivals a ih =>
    rw [ledger_snoc, List.map_append, ih]
    rfl

/-- An arrival is refused only when the window that ends at it is full. -/
theorem window_full {arrivals : List α} {before after : List (α × ω)} {a : α} {o : ω} {k : κ}
    (hclock : (arrivals.map L.time).Pairwise (· ≤ ·))
    (h : L.ledger arrivals = before ++ (a, o) :: after) (hk : L.bucket a = some k)
    (hrefused : L.passes o = false) : L.limit ≤ ((L.admitted k before).filter fun s =>
      decide (L.time a - L.width ≤ s ∧ s ≤ L.time a)).length := by
  have hjudge := L.judge_of_ledger_eq h
  rw [L.judge_of_bucket hk] at hjudge
  rw [hjudge, L.passes_reply] at hrefused
  have hearlier : ∀ s ∈ L.admitted k before, s ≤ L.time a := by
    intro s hs
    obtain ⟨b, hb, rfl⟩ := L.exists_of_mem_admitted rfl hs
    rw [← L.ledger_map_fst arrivals, h, List.map_append, List.map_append,
      List.pairwise_append] at hclock
    exact hclock.2.2 _ (List.mem_map_of_mem hb) (L.time a) (by simp)
  have hsame : (L.admitted k before).filter (fun s =>
        decide (L.time a - L.width ≤ s ∧ s ≤ L.time a)) =
      recent L.width (L.time a) (L.admitted k before) := by
    apply List.filter_congr
    intro s hs
    simp [hearlier s hs]
  rw [hsame]
  exact Nat.le_of_not_lt (of_decide_eq_false hrefused)

/-- A bucket's part of the ledger is the ledger of the bucket's own arrivals. -/
theorem ledger_filter (k : κ) (arrivals : List α) :
    (L.ledger arrivals).filter (fun e => decide (L.bucket e.1 = some k)) =
      L.ledger (arrivals.filter fun a => decide (L.bucket a = some k)) := by
  induction arrivals using List.reverseRecOn with
  | nil => rfl
  | append_singleton arrivals a ih =>
    rw [ledger_snoc, List.filter_append, List.filter_append, ih]
    by_cases h : L.bucket a = some k
    · rw [List.filter_cons_of_pos (by simpa using h), List.filter_cons_of_pos (by simpa using h),
        List.filter_nil, List.filter_nil, ledger_snoc]
      congr 3
      apply L.judge_congr
      intro k' hk'
      rw [h] at hk'
      cases hk'
      rw [← ih, admitted_filter]
    · rw [List.filter_cons_of_neg (by simpa using h), List.filter_cons_of_neg (by simpa using h),
        List.filter_nil, List.filter_nil, List.append_nil, List.append_nil]

end Limiter

end ZaqorinCore.Base
