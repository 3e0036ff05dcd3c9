import Mathlib

/-!
# Tumbling windows

Arrivals are cut into windows: a new one starts with the arrival that lies a whole width behind
the start of the last one. What counts the arrivals of the current window knows nothing of the
window before it, so it bounds each window but not an interval across two of them.
`Cuts.within_le_iff` says when such an interval keeps to the bound: for the arrival that would be
one too many it takes one in the window before, a whole width earlier.
-/

namespace ZaqorinCore.Base

/-! ## Counting in lists -/

section

variable {α : Type} {p q : α → Bool} {a : α} {l : List α}

/-- What holds at every place of a list holds at the places before the last one and there. -/
theorem forall_split_snoc {F : List α → α → Prop} :
    (∀ before b after, l ++ [a] = before ++ b :: after → F before b) ↔
      (∀ before b after, l = before ++ b :: after → F before b) ∧ F l a := by
  constructor
  · intro h
    refine ⟨fun before b after hsplit => ?_, h l a [] rfl⟩
    apply h before b (after ++ [a])
    rw [hsplit, List.append_assoc]
    rfl
  · rintro ⟨hearlier, hlast⟩ before b after hsplit
    rcases List.eq_nil_or_concat after with rfl | ⟨after, c, rfl⟩
    · obtain ⟨rfl, hb⟩ := List.append_inj' hsplit rfl
      cases hb
      exact hlast
    · rw [List.concat_eq_append, ← List.cons_append, ← List.append_assoc] at hsplit
      obtain ⟨rfl, -⟩ := List.append_inj' hsplit rfl
      exact hearlier before b after rfl

theorem length_filter_le (h : ∀ a ∈ l, p a = true → q a = true) :
    (l.filter p).length ≤ (l.filter q).length := by
  rw [← List.countP_eq_length_filter, ← List.countP_eq_length_filter]
  exact List.countP_mono_left h

/-- At most `n` entries of a sorted list are above a bound exactly when the one that has `n`
entries behind it is not. -/
theorem length_above_le_iff [LinearOrder α] (hl : l.Pairwise (· ≤ ·)) (c : α) (n : Nat) :
    (l.filter fun x => decide (c < x)).length ≤ n ↔
      ∀ i x, l[i]? = some x → i + 1 + n = l.length → x ≤ c := by
  induction l with
  | nil => simp
  | cons a l ih =>
    obtain ⟨hfirst, hrest⟩ := List.pairwise_cons.mp hl
    by_cases ha : c < a
    · -- all of them are above it
      have habove : ∀ x ∈ a :: l, c < x := by
        intro x hx
        rcases List.mem_cons.mp hx with rfl | hx
        · exact ha
        · exact ha.trans_le (hfirst x hx)
      rw [List.filter_eq_self.mpr fun x hx => decide_eq_true (habove x hx)]
      constructor
      · intro hlen i x _ hi
        omega
      · intro h
        by_contra hlong
        have hi : (a :: l).length - (n + 1) < (a :: l).length := by
          have : 0 < (a :: l).length := Nat.succ_pos _
          omega
        have hle := h _ _ (List.getElem?_eq_getElem hi) (by omega)
        exact absurd (habove _ (List.getElem_mem hi)) (not_lt.mpr hle)
    · rw [List.filter_cons_of_neg (by simpa using ha), ih hrest]
      constructor
      · intro h i x hx hi
        cases i with
        | zero =>
          cases hx
          exact not_lt.mp ha
        | succ i =>
          rw [List.length_cons] at hi
          exact h i x hx (by omega)
      · intro h i x hx hi
        refine h (i + 1) x hx ?_
        rw [List.length_cons]
        omega

end

/-! ## The windows -/

/-- The start of the current window, the arrivals of the window before it, and its own. -/
structure Windows (T : Type) where
  start : T
  previous : List T
  current : List T
  deriving DecidableEq

namespace Windows

variable {T : Type} [AddCommGroup T] [LinearOrder T]

/-- One more arrival. -/
def arrive (width : T) (w : Windows T) (t : T) : Windows T :=
  if width ≤ t - w.start then ⟨t, w.current, [t]⟩ else ⟨w.start, w.previous, w.current ++ [t]⟩

/-- The windows after these arrivals. -/
def cut (width start : T) (times : List T) : Windows T :=
  times.foldl (arrive width) ⟨start, [], []⟩

theorem cut_snoc (width start : T) (times : List T) (t : T) :
    cut width start (times ++ [t]) = (cut width start times).arrive width t :=
  List.foldl_append ..

/-- The arrivals less than a width before `now`. -/
def within (width now : T) (times : List T) : List T :=
  times.filter fun t => decide (now - width < t)

/-- The arrival that comes `limit` places before the one at `now`, if it belongs to the window
before, is at least a width earlier. -/
def Apart (width : T) (limit : Nat) (w : Windows T) (now : T) : Prop :=
  ∀ i t, w.previous[i]? = some t → i + 1 + limit = w.previous.length + w.current.length →
    t + width ≤ now

instance (width : T) (limit : Nat) (w : Windows T) (now : T) : Decidable (w.Apart width limit now) :=
  decidable_of_iff (∀ i : Fin w.previous.length,
      i.val + 1 + limit = w.previous.length + w.current.length → w.previous[i] + width ≤ now) <| by
    constructor
    · intro h i t hi hplace
      obtain ⟨hlt, rfl⟩ := List.getElem?_eq_some_iff.mp hi
      exact h ⟨i, hlt⟩ hplace
    · intro h i hplace
      exact h i _ (List.getElem?_eq_getElem i.isLt) hplace

/-- The windows are the last two pieces of the arrivals. What came before them lies a width before
the start of the current one. -/
structure Cuts (width start : T) (times : List T) (w : Windows T) : Prop where
  began : w.start ∈ start :: times
  pieces : ∃ older, times = older ++ (w.previous ++ w.current) ∧ ∀ t ∈ older, t + width ≤ w.start
  previous : ∀ t ∈ w.previous, t < w.start
  current : ∀ t ∈ w.current, w.start ≤ t ∧ t < w.start + width

section

variable [IsOrderedAddMonoid T] {width start now : T} {times : List T} {w : Windows T}

theorem cuts_cut (hwidth : 0 < width) (hclock : (start :: times).Pairwise (· ≤ ·)) :
    Cuts width start times (cut width start times) := by
  induction times using List.reverseRecOn with
  | nil => exact ⟨List.mem_cons_self, ⟨[], rfl, nofun⟩, nofun, nofun⟩
  | append_singleton times t ih =>
    rw [← List.cons_append, List.pairwise_append] at hclock
    have h := ih hclock.1
    have hstart : (cut width start times).start ≤ t :=
      hclock.2.2 _ h.began t (List.mem_singleton_self t)
    obtain ⟨older, hpieces, holder⟩ := h.pieces
    rw [cut_snoc, arrive]
    split
    · -- the current window has ended
      rename_i hout
      have hend : (cut width start times).start + width ≤ t := le_sub_iff_add_le'.mp hout
      refine ⟨by simp, ⟨older ++ (cut width start times).previous, ?_, ?_⟩, ?_, ?_⟩
      · rw [List.append_assoc, ← List.append_assoc _ _ [t], ← List.append_assoc older, ← hpieces]
      · intro s hs
        rcases List.mem_append.mp hs with hs | hs
        · exact (holder s hs).trans hstart
        · exact (add_le_add_left (h.previous s hs).le width).trans hend
      · exact fun s hs => (h.current s hs).2.trans_le hend
      · intro s hs
        obtain rfl := List.mem_singleton.mp hs
        exact ⟨le_rfl, lt_add_of_pos_right s hwidth⟩
    · rename_i hin
      refine ⟨?_, ⟨older, ?_, holder⟩, h.previous, ?_⟩
      · exact List.mem_append_left [t] h.began
      · rw [← List.append_assoc _ _ [t], ← List.append_assoc older, ← hpieces]
      · intro s hs
        rcases List.mem_append.mp hs with hs | hs
        · exact h.current s hs
        · obtain rfl := List.mem_singleton.mp hs
          exact ⟨hstart, sub_lt_iff_lt_add'.mp (not_le.mp hin)⟩

/-- What lies less than a width back are the current window and the end of the one before it. -/
theorem Cuts.length_within (h : Cuts width start times w) (hnow : now ∈ w.current) :
    (within width now times).length =
      (w.previous.filter fun t => decide (now - width < t)).length + w.current.length := by
  obtain ⟨older, hpieces, holder⟩ := h.pieces
  obtain ⟨hfrom, hto⟩ := h.current now hnow
  have hold : (older.filter fun t => decide (now - width < t)) = [] := by
    apply List.filter_eq_nil_iff.mpr
    intro t ht hlt
    have hle := le_sub_iff_add_le.mpr ((holder t ht).trans hfrom)
    exact absurd (of_decide_eq_true hlt) (not_lt.mpr hle)
  have hcurrent : (w.current.filter fun t => decide (now - width < t)) = w.current := by
    apply List.filter_eq_self.mpr
    intro t ht
    exact decide_eq_true ((sub_lt_iff_lt_add.mpr hto).trans_le (h.current t ht).1)
  rw [within, hpieces, List.filter_append, List.filter_append, hold, hcurrent, List.nil_append,
    List.length_append]

/-- With at most `limit` arrivals in its own window, an arrival finds at most so many less than a
width back exactly when the windows are apart. -/
theorem Cuts.within_le_iff (h : Cuts width start times w) (hsorted : times.Pairwise (· ≤ ·))
    (hnow : now ∈ w.current) {limit : Nat} (hlimit : w.current.length ≤ limit) :
    (within width now times).length ≤ limit ↔ w.Apart width limit now := by
  have hprevious : w.previous.Pairwise (· ≤ ·) := by
    obtain ⟨older, hpieces, -⟩ := h.pieces
    rw [hpieces] at hsorted
    exact (List.pairwise_append.mp (List.pairwise_append.mp hsorted).2.1).1
  rw [h.length_within hnow, ← Nat.le_sub_iff_add_le hlimit,
    length_above_le_iff hprevious (now - width) (limit - w.current.length)]
  unfold Apart
  refine forall₃_congr fun i t _ => ?_
  rw [le_sub_iff_add_le]
  apply imp_congr_left
  omega

/-- With at most `limit` arrivals in both windows it finds at most twice as many. -/
theorem Cuts.within_le_twice (h : Cuts width start times w) (hnow : now ∈ w.current) {limit : Nat}
    (hprevious : w.previous.length ≤ limit) (hcurrent : w.current.length ≤ limit) :
    (within width now times).length ≤ 2 * limit := by
  have hfilter := List.length_filter_le (fun t => decide (now - width < t)) w.previous
  rw [h.length_within hnow]
  omega

end

/-! ## Intervals -/

section

variable [IsOrderedAddMonoid T] {width : T} {limit : Nat} {log : List T}

/-- No interval of the width holds more than the limit exactly when none that ends at one of the
times does. -/
theorem interval_le_iff (hlog : log.Pairwise (· ≤ ·)) :
    (∀ x, (log.filter fun t => decide (x ≤ t ∧ t < x + width)).length ≤ limit) ↔
      ∀ before t after, log = before ++ t :: after →
        (within width t (before ++ [t])).length ≤ limit := by
  constructor
  · intro h before t after hsplit
    subst hsplit
    cases hnear : within width t (before ++ [t]) with
    | nil => exact Nat.zero_le _
    | cons x near =>
      -- the interval starts at the first of the times
      rw [← hnear]
      have hpre : (before ++ [t]).Pairwise (· ≤ ·) := by
        rw [List.append_cons] at hlog
        exact (List.pairwise_append.mp hlog).1
      have hsorted : (x :: near).Pairwise (· ≤ ·) := hnear ▸ hpre.filter _
      have hlast : ∀ s ∈ before ++ [t], s ≤ t := by
        intro s hs
        rcases List.mem_append.mp hs with hs | hs
        · exact (List.pairwise_append.mp hpre).2.2 s hs t (by simp)
        · exact le_of_eq (List.mem_singleton.mp hs)
      have hfirst : t < x + width := by
        have hx : x ∈ within width t (before ++ [t]) := by simp [hnear]
        exact sub_lt_iff_lt_add.mp (of_decide_eq_true (List.mem_filter.mp hx).2)
      have hmono : (within width t (before ++ [t])).length ≤
          ((before ++ [t]).filter fun s => decide (x ≤ s ∧ s < x + width)).length := by
        apply length_filter_le
        intro s hs hin
        apply decide_eq_true
        refine ⟨?_, (hlast s hs).trans_lt hfirst⟩
        have hmem : s ∈ x :: near := hnear ▸ List.mem_filter.mpr ⟨hs, hin⟩
        rcases List.mem_cons.mp hmem with rfl | hmem
        · exact le_rfl
        · exact (List.pairwise_cons.mp hsorted).1 s hmem
      have hwhole := h x
      rw [List.append_cons before t after, List.filter_append, List.length_append] at hwhole
      omega
  · intro h
    induction log using List.reverseRecOn with
    | nil => exact fun x => Nat.zero_le _
    | append_singleton log last ih =>
      rw [List.pairwise_append] at hlog
      intro x
      by_cases hlast : x ≤ last ∧ last < x + width
      · -- the interval holds nothing that is not less than a width before the last time
        refine le_trans (length_filter_le fun t ht hin => ?_) (h log last [] rfl)
        have hfrom := (of_decide_eq_true hin).1
        exact decide_eq_true ((sub_lt_iff_lt_add.mpr hlast.2).trans_le hfrom)
      · rw [List.filter_append, List.filter_cons_of_neg (by simpa using hlast), List.filter_nil,
          List.append_nil]
        apply ih hlog.1
        intro before t after hsplit
        apply h before t (after ++ [last])
        rw [hsplit, List.append_assoc]
        rfl

end

end Windows

end ZaqorinCore.Base
