import Mathlib

/-!
# Doubly linked lists in arrays

The cells of the list are the indices of two arrays of links; `none` is the sentinel for "no
link". `Links.Lists k l` says that the links hold the list `l`: the cells of `l` point at their
neighbours, and the two ends are `head` and `tail`. What the arrays hold at cells outside `l` is
arbitrary. Each operation is described once by what it does to `l`.
-/

namespace ZaqorinCore.Base

variable {ι : Type}

structure Links (ι : Type) where
  prev : ι → Option ι
  next : ι → Option ι
  head : Option ι
  tail : Option ι

/-- Following the links from a cell visits the cells of the list in order and then stops. -/
inductive Follows (link : ι → Option ι) : Option ι → List ι → Prop
  | stop : Follows link none []
  | visit {i : ι} {l : List ι} (rest : Follows link (link i) l) : Follows link (some i) (i :: l)

namespace Links

/-- The links hold the list `l`. -/
structure Lists (k : Links ι) (l : List ι) : Prop where
  nodup : l.Nodup
  head : k.head = l.head?
  tail : k.tail = l.getLast?
  prev : ∀ a i b, l = a ++ i :: b → k.prev i = a.getLast?
  next : ∀ a i b, l = a ++ i :: b → k.next i = b.head?

variable {k : Links ι} {l : List ι}

theorem Lists.of_empty (hhead : k.head = none) (htail : k.tail = none) : k.Lists [] where
  nodup := List.nodup_nil
  head := hhead
  tail := htail
  prev a i b h := by simp at h
  next a i b h := by simp at h

theorem Lists.follows_next_from (h : k.Lists l) {a b : List ι} (hl : l = a ++ b) :
    Follows k.next b.head? b := by
  induction b generalizing a with
  | nil => exact .stop
  | cons i b ih =>
    apply Follows.visit
    rw [h.next a i b hl]
    exact @ih (a ++ [i]) (by simpa using hl)

/-- From the head, the forward links visit the list. -/
theorem Lists.follows_next (h : k.Lists l) : Follows k.next k.head l := by
  rw [h.head]
  exact h.follows_next_from (List.nil_append l).symm

theorem Lists.follows_prev_from (h : k.Lists l) {a b : List ι} (hl : l = a ++ b) :
    Follows k.prev a.getLast? a.reverse := by
  induction a using List.reverseRecOn generalizing b with
  | nil => exact .stop
  | append_singleton a i ih =>
    rw [List.getLast?_concat, List.reverse_append]
    apply Follows.visit
    rw [h.prev a i b (by simpa using hl)]
    exact @ih (i :: b) (by simpa using hl)

/-- From the tail, the backward links visit it in reverse. -/
theorem Lists.follows_prev (h : k.Lists l) : Follows k.prev k.tail l.reverse := by
  rw [h.tail]
  exact h.follows_prev_from (List.append_nil l).symm

theorem Lists.head_eq_none_iff (h : k.Lists l) : k.head = none ↔ l = [] := by
  rw [h.head, List.head?_eq_none_iff]

theorem Lists.tail_eq_none_iff (h : k.Lists l) : k.tail = none ↔ l = [] := by
  rw [h.tail, List.getLast?_eq_none_iff]

theorem Lists.not_mem_split (h : k.Lists l) {a b : List ι} {i : ι} (hl : l = a ++ i :: b) :
    i ∉ a ∧ i ∉ b := by
  have hnodup := h.nodup
  rw [hl, List.nodup_middle, List.nodup_cons, List.mem_append, not_or] at hnodup
  exact hnodup.1

/-- Only the links of the listed cells matter. -/
theorem Lists.congr (h : k.Lists l) (k' : Links ι) (hhead : k'.head = k.head)
    (htail : k'.tail = k.tail) (hprev : ∀ i ∈ l, k'.prev i = k.prev i)
    (hnext : ∀ i ∈ l, k'.next i = k.next i) : k'.Lists l where
  nodup := h.nodup
  head := hhead.trans h.head
  tail := htail.trans h.tail
  prev a i b hl := (hprev i (by simp [hl])).trans (h.prev a i b hl)
  next a i b hl := (hnext i (by simp [hl])).trans (h.next a i b hl)

variable [DecidableEq ι]

/-! ## Operations -/

/-- The neighbours of a cell are joined past it; at an end of the list the end moves. -/
def splice (k : Links ι) (i : ι) : Links ι where
  prev := match k.next i with
    | none => k.prev
    | some n => Function.update k.prev n (k.prev i)
  next := match k.prev i with
    | none => k.next
    | some p => Function.update k.next p (k.next i)
  head := if k.prev i = none then k.next i else k.head
  tail := if k.next i = none then k.prev i else k.tail

/-- A cell leaves the list and its own links are reset. -/
def unlink (k : Links ι) (i : ι) : Links ι :=
  let k := k.splice i
  { k with
    prev := Function.update k.prev i none
    next := Function.update k.next i none }

/-- A new cell becomes the head. -/
def pushHead (k : Links ι) (i : ι) : Links ι where
  prev := match k.head with
    | none => Function.update k.prev i none
    | some j => Function.update (Function.update k.prev i none) j (some i)
  next := Function.update k.next i k.head
  head := some i
  tail := if k.tail = none then some i else k.tail

/-- A listed cell is moved to the head. The head itself stays where it is, so the moved cell
has a predecessor and the end that may move is the tail. -/
def moveToHead (k : Links ι) (i : ι) : Links ι :=
  if k.head = some i then k
  else
    let prev := match k.next i with
      | none => k.prev
      | some n => Function.update k.prev n (k.prev i)
    let next := match k.prev i with
      | none => k.next
      | some p => Function.update k.next p (k.next i)
    let tail := if k.tail = some i then k.prev i else k.tail
    pushHead { k with prev := prev, next := next, tail := tail } i

theorem splice_prev_of_ne {i j : ι} (hj : k.next i ≠ some j) :
    (k.splice i).prev j = k.prev j := by
  unfold splice
  cases hn : k.next i with
  | none => rfl
  | some n => exact Function.update_of_ne (by rintro rfl; exact hj hn) _ _

theorem splice_prev_of_eq {i j : ι} (hj : k.next i = some j) :
    (k.splice i).prev j = k.prev i := by
  simp [splice, hj]

theorem splice_next_of_ne {i j : ι} (hj : k.prev i ≠ some j) :
    (k.splice i).next j = k.next j := by
  unfold splice
  cases hp : k.prev i with
  | none => rfl
  | some p => exact Function.update_of_ne (by rintro rfl; exact hj hp) _ _

theorem splice_next_of_eq {i j : ι} (hj : k.prev i = some j) :
    (k.splice i).next j = k.next i := by
  simp [splice, hj]

/-- The cells before and after the spliced one are the list that remains. -/
theorem Lists.splice {a b : List ι} {i : ι} (h : k.Lists (a ++ i :: b)) :
    (k.splice i).Lists (a ++ b) := by
  have hprev := h.prev a i b rfl
  have hnext := h.next a i b rfl
  have hnodup := h.nodup
  rw [List.nodup_middle, List.nodup_cons] at hnodup
  have hdisjoint : ∀ x ∈ a, x ∉ b := fun x hxa hxb =>
    List.disjoint_of_nodup_append hnodup.2 hxa hxb
  constructor
  · exact hnodup.2
  · simp only [Links.splice, hprev, hnext, List.getLast?_eq_none_iff, h.head]
    cases a <;> simp
  · simp only [Links.splice, hprev, hnext, List.head?_eq_none_iff, h.tail]
    cases b <;> simp [List.getLast?_append]
  · intro c j d hl
    rcases List.append_eq_append_iff.mp hl with ⟨e, rfl, he⟩ | ⟨e, rfl, he⟩
    · -- the cell lies after the spliced one
      cases e with
      | nil =>
        rw [List.nil_append] at he
        rw [splice_prev_of_eq (by simp [hnext, he]), hprev, List.append_nil]
      | cons x e =>
        have hne : k.next i ≠ some j := by
          rw [hnext, he]
          intro hx
          cases hx
          rw [he] at hnodup
          have hb := (List.nodup_append.mp hnodup.2).2.1
          rw [List.cons_append, List.nodup_cons] at hb
          exact hb.1 (by simp)
        rw [splice_prev_of_ne hne, h.prev (a ++ i :: x :: e) j d (by simp [he])]
        simp [List.getLast?_append]
    · -- the cell lies before it
      cases e with
      | nil =>
        rw [List.nil_append] at he
        rw [splice_prev_of_eq (by simp [hnext, ← he]), hprev, List.append_nil]
      | cons x e =>
        obtain ⟨rfl, rfl⟩ := List.cons.inj he
        have hne : k.next i ≠ some j := by
          rw [hnext]
          intro hx
          exact hdisjoint j (by simp) (List.mem_of_mem_head? hx)
        rw [splice_prev_of_ne hne, h.prev c j (e ++ i :: b) (by simp)]
  · intro c j d hl
    rcases List.append_eq_append_iff.mp hl with ⟨e, rfl, he⟩ | ⟨e, rfl, he⟩
    · have hne : k.prev i ≠ some j := by
        rw [hprev]
        intro hx
        exact hdisjoint j (List.mem_of_getLast? hx) (by simp [he])
      rw [splice_next_of_ne hne, h.next (a ++ i :: e) j d (by simp [he])]
    · cases e with
      | nil =>
        rw [List.nil_append] at he
        have hne : k.prev i ≠ some j := by
          rw [hprev, List.append_nil]
          intro hx
          exact hdisjoint j (by simpa using List.mem_of_getLast? hx) (by simp [← he])
        rw [splice_next_of_ne hne, h.next (c ++ [i]) j d (by simp [← he])]
      | cons x e =>
        obtain ⟨rfl, rfl⟩ := List.cons.inj he
        cases e using List.reverseRecOn with
        | nil =>
          rw [splice_next_of_eq (by simp [hprev]), hnext]
          rfl
        | append_singleton e y _ =>
          have hne : k.prev i ≠ some j := by
            rw [hprev]
            intro hx
            have hlast : (c ++ j :: (e ++ [y])).getLast? = some y := by
              rw [← List.cons_append, ← List.append_assoc, List.getLast?_concat]
            obtain rfl : y = j := Option.some.inj (hlast.symm.trans hx)
            have ha := (List.nodup_append.mp hnodup.2).1
            have hj := (List.nodup_append.mp ha).2.1
            rw [List.nodup_cons] at hj
            exact hj.1 (by simp)
          rw [splice_next_of_ne hne, h.next c j (e ++ [y] ++ i :: b) (by simp)]
          cases e <;> simp

/-- Unlinking a cell takes it out of the list. -/
theorem Lists.unlink {a b : List ι} {i : ι} (h : k.Lists (a ++ i :: b)) :
    (k.unlink i).Lists (a ++ b) := by
  have hmem := h.not_mem_split rfl
  have hne : ∀ j ∈ a ++ b, j ≠ i := by
    rintro j hj rfl
    exact (List.mem_append.mp hj).elim hmem.1 hmem.2
  refine h.splice.congr (k.unlink i) rfl rfl ?_ ?_
  · intro j hj
    exact Function.update_of_ne (hne j hj) _ _
  · intro j hj
    exact Function.update_of_ne (hne j hj) _ _

/-- A cell that is not listed is put in front. -/
theorem Lists.pushHead {i : ι} (h : k.Lists l) (hi : i ∉ l) : (k.pushHead i).Lists (i :: l) := by
  have hhead : ∀ j, k.head = some j → j ∈ l := by
    intro j hj
    rw [h.head] at hj
    exact List.mem_of_mem_head? hj
  constructor
  · exact List.nodup_cons.mpr ⟨hi, h.nodup⟩
  · rfl
  · simp only [Links.pushHead, h.tail, List.getLast?_eq_none_iff]
    cases l using List.reverseRecOn <;> simp [List.getLast?_cons]
  · intro a j b hl
    cases a with
    | nil =>
      obtain ⟨rfl, rfl⟩ := List.cons.inj hl
      unfold Links.pushHead
      cases hk : k.head with
      | none => simp
      | some m =>
        have hne : i ≠ m := by
          rintro rfl
          exact hi (hhead i hk)
        simp [Function.update_of_ne hne]
    | cons x a =>
      obtain ⟨rfl, rfl⟩ := List.cons.inj hl
      have hji : j ≠ i := by
        rintro rfl
        exact hi (by simp)
      have hold := h.prev a j b rfl
      unfold Links.pushHead
      rw [h.head]
      cases a with
      | nil => simp
      | cons y a =>
        have hjy : j ≠ y := by
          rintro rfl
          exact (List.nodup_cons.mp h.nodup).1 (by simp)
        simp [Function.update_of_ne hji, Function.update_of_ne hjy, hold, List.getLast?_cons]
  · intro a j b hl
    cases a with
    | nil =>
      obtain ⟨rfl, rfl⟩ := List.cons.inj hl
      simp [Links.pushHead, h.head]
    | cons x a =>
      obtain ⟨rfl, rfl⟩ := List.cons.inj hl
      have hji : j ≠ i := by
        rintro rfl
        exact hi (by simp)
      simp only [Links.pushHead, Function.update_of_ne hji]
      exact h.next a j b rfl

/-- A listed cell is moved to the front. -/
theorem Lists.moveToHead {a b : List ι} {i : ι} (h : k.Lists (a ++ i :: b)) :
    (k.moveToHead i).Lists (i :: (a ++ b)) := by
  have hmem := h.not_mem_split rfl
  have hprev := h.prev a i b rfl
  have hnext := h.next a i b rfl
  unfold Links.moveToHead
  split
  · rename_i hhead
    -- the cell is the head already
    cases a with
    | nil => exact h
    | cons x a =>
      rw [h.head] at hhead
      cases hhead
      exact absurd (List.mem_cons_self) hmem.1
  · rename_i hhead
    refine Lists.pushHead ?_ (by simp [hmem])
    have hne : k.prev i ≠ none := by
      rw [hprev, Ne, List.getLast?_eq_none_iff]
      rintro rfl
      exact hhead h.head
    have htail : (if k.tail = some i then k.prev i else k.tail) =
        if k.next i = none then k.prev i else k.tail := by
      have hiff : k.tail = some i ↔ k.next i = none := by
        rw [h.tail, hnext, List.head?_eq_none_iff]
        constructor
        · intro hlast
          cases b using List.reverseRecOn with
          | nil => rfl
          | append_singleton b y _ =>
            have hy : y = i := by simpa [List.getLast?_append, List.getLast?_cons] using hlast
            subst hy
            exact absurd (by simp) hmem.2
        · rintro rfl
          simp
      simp only [hiff]
    refine h.splice.congr _ ?_ htail (fun _ _ => rfl) (fun _ _ => rfl)
    simp [Links.splice, hne]

end Links

/-! ## Walking the links -/

/-- Counting the cells of a walk; `none` when the walk is cut off before it stops. -/
def countFrom (link : ι → Option ι) : Nat → Option ι → Nat → Option Nat
  | _, none, n => some n
  | 0, some _, _ => none
  | fuel + 1, some i, n => countFrom link fuel (link i) (n + 1)

theorem Follows.countFrom {link : ι → Option ι} {start : Option ι} {l : List ι}
    (h : Follows link start l) {fuel : Nat} (hfuel : l.length ≤ fuel) (n : Nat) :
    countFrom link fuel start n = some (n + l.length) := by
  induction h generalizing fuel n with
  | stop => cases fuel <;> rfl
  | visit _ ih =>
    cases fuel with
    | zero => simp at hfuel
    | succ fuel =>
      rw [List.length_cons] at hfuel ⊢
      rw [ZaqorinCore.Base.countFrom, ih (by omega)]
      congr 1
      omega

end ZaqorinCore.Base
