import ZaqorinCore.Text.Bytes

/-!
# Texts with nested brackets

Square brackets and braces that match each other, in a text that may hold quotations. A bracket
between quotation marks is no bracket, and a backslash there takes the next character as it is.
`Nested` is a text all of whose brackets match; `Truncated` is one that breaks off, so that some of
them are still open. Both count how many brackets are open at a time.
-/

namespace ZaqorinCore.Text

/-- A character that neither opens nor closes a bracket or a quotation. -/
def Plain (c : Char) : Prop := c ∉ ['"', '[', ']', '\x7b', '\x7d']

instance (c : Char) : Decidable (Plain c) :=
  inferInstanceAs (Decidable (c ∉ ['"', '[', ']', '\x7b', '\x7d']))

/-- What may stand between two quotation marks. -/
inductive Quotable : Str → Prop
  | nil : Quotable []
  | char {c : Char} {t : Str} (hquote : c ≠ '"') (hback : c ≠ '\\') (ht : Quotable t) :
      Quotable (c :: t)
  | escaped {c : Char} {t : Str} (ht : Quotable t) : Quotable ('\\' :: c :: t)

inductive BracketKind
  | square
  | brace
  deriving DecidableEq, Repr

namespace BracketKind

def opening : BracketKind → Char
  | square => '['
  | brace => '\x7b'

def closing : BracketKind → Char
  | square => ']'
  | brace => '\x7d'

end BracketKind

/-- A text whose brackets match, and how many of them are open where the most are. -/
inductive Nested : Nat → Str → Prop
  | nil : Nested 0 []
  | plain {c : Char} (hc : Plain c) : Nested 0 [c]
  | quoted {t : Str} (ht : Quotable t) : Nested 0 ('"' :: (t ++ ['"']))
  | append {d e : Nat} {t u : Str} (ht : Nested d t) (hu : Nested e u) :
      Nested (max d e) (t ++ u)
  | within {d : Nat} {t : Str} (b : BracketKind) (ht : Nested d t) :
      Nested (d + 1) (b.opening :: (t ++ [b.closing]))

/-- A text that breaks off, and how many brackets are open where the most are. -/
inductive Truncated : Nat → Str → Prop
  | nested {d : Nat} {t : Str} (ht : Nested d t) : Truncated d t
  | opened {d e : Nat} {t u : Str} (b : BracketKind) (ht : Nested d t) (hu : Truncated e u) :
      Truncated (max d (e + 1)) (t ++ b.opening :: u)

theorem plain_of_isDigit {c : Char} (h : c.isDigit = true) : Plain c := by
  intro hmem
  simp only [List.mem_cons, List.not_mem_nil, or_false] at hmem
  rcases hmem with rfl | rfl | rfl | rfl | rfl <;> exact absurd h (by decide)

namespace Nested

theorem append_of_zero {d : Nat} {t u : Str} (ht : Nested d t) (hu : Nested 0 u) :
    Nested d (t ++ u) := by
  have h := ht.append hu
  rwa [Nat.max_zero] at h

theorem zero_append {d : Nat} {t u : Str} (ht : Nested 0 t) (hu : Nested d u) :
    Nested d (t ++ u) := by
  have h := ht.append hu
  rwa [Nat.zero_max] at h

theorem of_plain {t : Str} (h : ∀ c ∈ t, Plain c) : Nested 0 t := by
  induction t with
  | nil => exact nil
  | cons c t ih =>
    have hc : Nested 0 [c] := plain (h c List.mem_cons_self)
    exact hc.zero_append (ih fun d hd => h d (List.mem_cons_of_mem c hd))

end Nested

/-- Before a text that breaks off, a text whose brackets match changes only the count. -/
theorem Truncated.after {d e : Nat} {t u : Str} (ht : Nested d t) (hu : Truncated e u) :
    Truncated (max d e) (t ++ u) := by
  cases hu with
  | nested hu => exact .nested (ht.append hu)
  | opened b hv hw =>
    rw [← List.append_assoc, ← Nat.max_assoc]
    exact .opened b (ht.append hv) hw

theorem Truncated.start : Truncated 0 [] := .nested .nil

end ZaqorinCore.Text
