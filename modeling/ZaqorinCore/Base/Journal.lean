import Mathlib

/-!
# Journals in daily files

A journal is written through a buffered handle to the file of a day. A call of the handle passes
some of what is pending on to the file, and one that fails may also lose a part of what is left.
Read in the order of their days, the files hold a subsequence of what was handed to the journal, as
long as the days do not run backwards: `all_transfer_sublist`.
-/

namespace ZaqorinCore.Base

variable {α : Type}

/-! ## Files -/

/-- What the files hold, by their days, the first day first. -/
abbrev Files (α : Type) := List (Int × List α)

namespace Files

/-- At the end of the file of a day, which is created when it does not exist. -/
def append (day : Int) (pieces : List α) : Files α → Files α
  | [] => [(day, pieces)]
  | (d, content) :: rest =>
    if day < d then (day, pieces) :: (d, content) :: rest
    else if day = d then (d, content ++ pieces) :: rest
    else (d, content) :: append day pieces rest

/-- One file after the other. -/
def all (files : Files α) : List α := (files.map Prod.snd).flatten

/-- The days are in order and none is after the given one. -/
structure UpTo (day : Int) (files : Files α) : Prop where
  sorted : files.Pairwise fun f g => f.1 < g.1
  last : ∀ f ∈ files, f.1 ≤ day

theorem upTo_nil (day : Int) : UpTo day ([] : Files α) := ⟨List.Pairwise.nil, by simp⟩

theorem UpTo.mono {day day' : Int} {files : Files α} (h : UpTo day files) (hle : day ≤ day') :
    UpTo day' files :=
  ⟨h.sorted, fun f hf => (h.last f hf).trans hle⟩

theorem mem_append {day : Int} {pieces : List α} {files : Files α} {f : Int × List α}
    (h : f ∈ files.append day pieces) : f.1 = day ∨ ∃ g ∈ files, g.1 = f.1 := by
  induction files with
  | nil =>
    left
    rw [List.mem_singleton.mp h]
  | cons g rest ih =>
    rw [append] at h
    split at h
    · obtain rfl | hrest := List.mem_cons.mp h
      · exact Or.inl rfl
      · exact Or.inr ⟨f, hrest, rfl⟩
    · split at h
      · obtain rfl | hrest := List.mem_cons.mp h
        · exact Or.inr ⟨g, List.mem_cons_self, rfl⟩
        · exact Or.inr ⟨f, List.mem_cons_of_mem _ hrest, rfl⟩
      · obtain rfl | hrest := List.mem_cons.mp h
        · exact Or.inr ⟨_, List.mem_cons_self, rfl⟩
        · obtain hday | ⟨g', hg', heq⟩ := ih hrest
          · exact Or.inl hday
          · exact Or.inr ⟨g', List.mem_cons_of_mem _ hg', heq⟩

/-- The last day grows at the end. -/
theorem all_append {day : Int} {files : Files α} (h : UpTo day files) (pieces : List α) :
    (files.append day pieces).all = files.all ++ pieces := by
  induction files with
  | nil => simp [append, all]
  | cons f rest ih =>
    have hsorted := List.pairwise_cons.mp h.sorted
    have hday : ¬ day < f.1 := not_lt.mpr (h.last f List.mem_cons_self)
    rw [append, if_neg hday]
    split
    · rename_i heq
      -- no later file can be there
      have hrest : rest = [] := by
        apply List.eq_nil_iff_forall_not_mem.mpr
        intro g hg
        have := hsorted.1 g hg
        have := h.last g (List.mem_cons_of_mem _ hg)
        omega
      subst hrest
      simp [all]
    · have hrec := ih ⟨hsorted.2, fun g hg => h.last g (List.mem_cons_of_mem _ hg)⟩
      unfold all at hrec ⊢
      rw [List.map_cons, List.flatten_cons, hrec]
      simp

theorem UpTo.append {day : Int} {files : Files α} (h : UpTo day files) (pieces : List α) :
    UpTo day (files.append day pieces) := by
  constructor
  · induction files with
    | nil => exact List.pairwise_singleton ..
    | cons f rest ih =>
      have hsorted := List.pairwise_cons.mp h.sorted
      have hlast := h.last f List.mem_cons_self
      rw [Files.append, if_neg (not_lt.mpr hlast)]
      split
      · exact List.pairwise_cons.mpr ⟨hsorted.1, hsorted.2⟩
      · rename_i hne
        refine List.pairwise_cons.mpr
          ⟨?_, ih ⟨hsorted.2, fun g hg => h.last g (List.mem_cons_of_mem _ hg)⟩⟩
        intro g hg
        obtain hday | ⟨g', hg', heq⟩ := mem_append hg
        · rw [hday]
          exact lt_of_le_of_ne hlast (Ne.symm hne)
        · rw [← heq]
          exact hsorted.1 g' hg'
  · intro f hf
    obtain hday | ⟨g, hg, heq⟩ := mem_append hf
    · exact le_of_eq hday
    · rw [← heq]
      exact h.last g hg

end Files

/-! ## Handles -/

/-- An open file and what has not reached it yet. -/
structure Handle (α : Type) where
  day : Int
  pending : List α

/-- What a call of the handle does with the device: how many pieces pass, whether it fails, and how
many of the pieces that are left survive a failure. -/
structure Io where
  passed : Nat
  fails : Bool
  kept : Nat

namespace Handle

/-- The pieces that are left after a call. -/
def left (h : Handle α) (io : Io) : List α :=
  if io.fails then (h.pending.drop io.passed).take io.kept else h.pending.drop io.passed

def write (h : Handle α) (pieces : List α) : Handle α := { h with pending := h.pending ++ pieces }

def transfer (h : Handle α) (io : Io) (files : Files α) : Handle α × Files α :=
  ({ h with pending := h.left io }, files.append h.day (h.pending.take io.passed))

/-- A flush that does not fail passes everything. -/
def flush (h : Handle α) (io : Io) (files : Files α) : Handle α × Files α :=
  h.transfer (if io.fails then io else ⟨h.pending.length, false, 0⟩) files

section

variable {h : Handle α} {files : Files α}

@[simp] theorem transfer_day (io : Io) : (h.transfer io files).1.day = h.day := rfl

@[simp] theorem flush_day (io : Io) : (h.flush io files).1.day = h.day := rfl

@[simp] theorem write_day (pieces : List α) : (h.write pieces).day = h.day := rfl

theorem left_sublist (io : Io) : (h.left io).Sublist (h.pending.drop io.passed) := by
  unfold left
  split
  · exact List.take_sublist ..
  · exact List.Sublist.refl _

theorem upTo_transfer (hfiles : files.UpTo h.day) (io : Io) :
    (h.transfer io files).2.UpTo h.day := hfiles.append _

/-- A call neither repeats nor reorders. -/
theorem all_transfer_sublist (hfiles : files.UpTo h.day) (io : Io) :
    ((h.transfer io files).2.all ++ (h.transfer io files).1.pending).Sublist
      (files.all ++ h.pending) := by
  have hleft := left_sublist (h := h) io
  have hall : (h.transfer io files).2.all = files.all ++ h.pending.take io.passed :=
    Files.all_append hfiles _
  rw [hall, List.append_assoc]
  apply List.Sublist.append_left
  have hsplit := (List.Sublist.refl (h.pending.take io.passed)).append hleft
  rw [List.take_append_drop] at hsplit
  exact hsplit

/-- What is pending when the handle is given up is lost. -/
theorem all_transfer_files_sublist (hfiles : files.UpTo h.day) (io : Io) :
    (h.transfer io files).2.all.Sublist (files.all ++ h.pending) :=
  (List.sublist_append_left _ _).trans (all_transfer_sublist hfiles io)

end

/-- From the first handle and files to the second the journal has been handed these pieces: some
of them are in the files or pending, at the end and in order. -/
structure Takes (before : Handle α × Files α) (pieces : List α) (after : Handle α × Files α) :
    Prop where
  day : after.1.day = before.1.day
  upTo : after.2.UpTo before.1.day
  order : (after.2.all ++ after.1.pending).Sublist (before.2.all ++ before.1.pending ++ pieces)

section

variable {a b c : Handle α × Files α} {ps qs : List α}

/-- A write and whatever the device does with it. -/
theorem takes_write (hfiles : a.2.UpTo a.1.day) (pieces : List α) (io : Io) :
    Takes a pieces ((a.1.write pieces).transfer io a.2) where
  day := rfl
  upTo := upTo_transfer (h := a.1.write pieces) hfiles io
  order := by
    rw [List.append_assoc]
    exact all_transfer_sublist (h := a.1.write pieces) hfiles io

theorem takes_flush (hfiles : a.2.UpTo a.1.day) (io : Io) : Takes a [] (a.1.flush io a.2) where
  day := rfl
  upTo := upTo_transfer hfiles _
  order := by
    rw [List.append_nil]
    exact all_transfer_sublist hfiles _

theorem Takes.trans (h₁ : Takes a ps b) (h₂ : Takes b qs c) : Takes a (ps ++ qs) c where
  day := h₂.day.trans h₁.day
  upTo := h₁.day ▸ h₂.upTo
  order := by
    rw [← List.append_assoc]
    exact h₂.order.trans (h₁.order.append_right qs)

theorem Takes.mono (h : Takes a ps b) (hsub : ps.Sublist qs) : Takes a qs b :=
  ⟨h.day, h.upTo, h.order.trans (hsub.append_left _)⟩

/-- The files are ready for the next call. -/
theorem Takes.ready (h : Takes a ps b) : b.2.UpTo b.1.day := by
  rw [h.day]
  exact h.upTo

end

end Handle

end ZaqorinCore.Base
