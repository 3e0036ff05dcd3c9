import Mathlib

/-!
# Memory layouts

A value of a fixed size lies in memory as that many bytes. `Layout.pair` puts one field after
another, so the layout of a struct is the pairing of its fields in order; `Layout.read` reads a
struct from the start of a buffer and fails on a short one.
-/

namespace ZaqorinCore.Base

/-- The bytes a value is written as, and the value that the first bytes of a buffer stand for. -/
structure Layout (α : Type) where
  size : Nat
  put : α → List UInt8
  get : List UInt8 → α
  length_put : ∀ a, (put a).length = size
  get_put : ∀ a rest, get (put a ++ rest) = a

/-! ## Little-endian numbers -/

def leNat : List UInt8 → Nat
  | [] => 0
  | b :: bs => b.toNat + 256 * leNat bs

def leBytes : Nat → Nat → List UInt8
  | 0, _ => []
  | width + 1, n => UInt8.ofNat n :: leBytes width (n / 256)

theorem leBytes_length (width n : Nat) : (leBytes width n).length = width := by
  induction width generalizing n with
  | zero => rfl
  | succ width ih =>
    rw [leBytes, List.length_cons, ih]

theorem leNat_leBytes (width n : Nat) : leNat (leBytes width n) = n % 256 ^ width := by
  induction width generalizing n with
  | zero =>
    rw [Nat.pow_zero, Nat.mod_one]
    rfl
  | succ width ih =>
    have hbyte : (UInt8.ofNat n).toNat = n % 256 := by simp
    rw [leBytes, leNat, ih, hbyte, Nat.pow_succ', Nat.mod_mul]

theorem leNat_lt (bs : List UInt8) : leNat bs < 256 ^ bs.length := by
  induction bs with
  | nil => exact Nat.one_pos
  | cons b bs ih =>
    have hb : b.toNat < 256 := b.toNat_lt
    rw [leNat, List.length_cons, Nat.pow_succ']
    omega

/-! ## Big-endian numbers -/

def beNat (bs : List UInt8) : Nat := leNat bs.reverse

def beBytes (width n : Nat) : List UInt8 := (leBytes width n).reverse

theorem beBytes_length (width n : Nat) : (beBytes width n).length = width := by
  rw [beBytes, List.length_reverse, leBytes_length]

theorem beNat_beBytes (width n : Nat) : beNat (beBytes width n) = n % 256 ^ width := by
  rw [beNat, beBytes, List.reverse_reverse, leNat_leBytes]

namespace Layout

variable {α β : Type}

/-- Reading a struct: a buffer shorter than the struct is an error, further bytes are left. -/
def read (l : Layout α) (buffer : List UInt8) : Option α :=
  if l.size ≤ buffer.length then some (l.get buffer) else none

def u8 : Layout UInt8 where
  size := 1
  put b := [b]
  get buffer := buffer.headD 0
  length_put _ := rfl
  get_put _ _ := rfl

def u32le : Layout UInt32 where
  size := 4
  put w := leBytes 4 w.toNat
  get buffer := UInt32.ofNat (leNat (buffer.take 4))
  length_put w := leBytes_length 4 w.toNat
  get_put w rest := by
    have htake : (leBytes 4 w.toNat ++ rest).take 4 = leBytes 4 w.toNat :=
      List.take_left' (leBytes_length 4 w.toNat)
    have hlt : w.toNat < 256 ^ 4 := w.toNat_lt
    rw [htake, leNat_leBytes, Nat.mod_eq_of_lt hlt, UInt32.ofNat_toNat]

theorem toNat_get_u32le (buffer : List UInt8) :
    (u32le.get buffer).toNat = leNat (buffer.take 4) := by
  have hlt := leNat_lt (buffer.take 4)
  have hlen : (buffer.take 4).length ≤ 4 := List.length_take_le 4 buffer
  have hpow : 256 ^ (buffer.take 4).length ≤ 256 ^ 4 := Nat.pow_le_pow_right (by omega) hlen
  exact UInt32.toNat_ofNat_of_lt (lt_of_lt_of_le hlt hpow)

/-- An array of bytes. -/
def array (n : Nat) : Layout (List.Vector UInt8 n) where
  size := n
  put v := v.toList
  get buffer := ⟨buffer.takeD n 0, List.takeD_length n buffer 0⟩
  length_put v := v.toList_length
  get_put v rest := by
    apply Subtype.ext
    have hlen : v.toList.length = n := v.toList_length
    have hle : n ≤ (v.toList ++ rest).length := by
      rw [List.length_append, hlen]
      exact Nat.le_add_right n rest.length
    exact (List.takeD_eq_take 0 hle).trans (List.take_left' hlen)

theorem toList_get_array {n : Nat} {buffer : List UInt8} (h : n ≤ buffer.length) :
    ((array n).get buffer).toList = buffer.take n :=
  List.takeD_eq_take 0 h

/-- Bytes that are written as zeros and skipped when read. -/
def padding (n : Nat) : Layout Unit where
  size := n
  put _ := List.replicate n 0
  get _ := ()
  length_put _ := List.length_replicate
  get_put _ _ := rfl

/-- One field after another. -/
def pair (l₁ : Layout α) (l₂ : Layout β) : Layout (α × β) where
  size := l₁.size + l₂.size
  put p := l₁.put p.1 ++ l₂.put p.2
  get buffer := (l₁.get buffer, l₂.get (buffer.drop l₁.size))
  length_put p := by rw [List.length_append, l₁.length_put, l₂.length_put]
  get_put p rest := by
    rw [List.append_assoc, l₁.get_put, List.drop_left' (l₁.length_put p.1), l₂.get_put]

/-- The same bytes under the names of a struct. -/
def named (l : Layout α) (f : α → β) (g : β → α) (h : ∀ b, f (g b) = b) : Layout β where
  size := l.size
  put b := l.put (g b)
  get buffer := f (l.get buffer)
  length_put b := l.length_put (g b)
  get_put b rest := by rw [l.get_put, h]

theorem read_put (l : Layout α) (a : α) (rest : List UInt8) :
    l.read (l.put a ++ rest) = some a := by
  have hle : l.size ≤ (l.put a ++ rest).length := by
    rw [List.length_append, l.length_put]
    exact Nat.le_add_right _ _
  rw [read, if_pos hle, l.get_put]

theorem read_eq_none_iff (l : Layout α) (buffer : List UInt8) :
    l.read buffer = none ↔ buffer.length < l.size := by
  unfold read
  split
  · simpa using ‹l.size ≤ buffer.length›
  · simpa using ‹¬ l.size ≤ buffer.length›

end Layout

end ZaqorinCore.Base
