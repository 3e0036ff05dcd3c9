import ZaqorinCore.Base.FileTree
import ZaqorinCore.Text.Bytes

/-!
# Paths as text

Go's `path/filepath` on a system whose separator is `/`. A path is what stands between its
separators; the functions clean it of `.` and, where they can, of `..`.
-/

namespace ZaqorinCore.Text

open Base

structure Path (ν : Type) where
  rooted : Bool
  hops : List (Hop ν)
  deriving DecidableEq, Repr

def separator : UInt8 := 47

def hopOf (name : Bytes) : Hop Bytes :=
  if name = [] ∨ name = lit "." then .here else if name = lit ".." then .up else .into name

def parsePath (s : Bytes) : Path Bytes where
  rooted := s.head? = some separator
  hops := (s.splitOn separator).map hopOf

section

variable {ν : Type}

/-- The loop of `filepath.Clean`; the components that are kept are given from the last one. -/
def cleanHops (rooted : Bool) : List (Hop ν) → List (Hop ν) → List (Hop ν)
  | kept, [] => kept.reverse
  | kept, .here :: rest => cleanHops rooted kept rest
  | kept, .into n :: rest => cleanHops rooted (.into n :: kept) rest
  | .into _ :: kept, .up :: rest => cleanHops rooted kept rest
  | [], .up :: rest => cleanHops rooted (if rooted then [] else [.up]) rest
  | hop :: kept, .up :: rest => cleanHops rooted (.up :: hop :: kept) rest

/-- `filepath.Clean` -/
def Path.clean (p : Path ν) : Path ν := ⟨p.rooted, cleanHops p.rooted [] p.hops⟩

/-- `filepath.Join` of two paths that are not empty. -/
def Path.join (p q : Path ν) : Path ν := Path.clean ⟨p.rooted, p.hops ++ q.hops⟩

/-- The names of a clean path from the root. -/
def Path.names (p : Path ν) : List ν := p.hops.filterMap fun
  | .into n => some n
  | _ => none

/-- The path from the root, of the same names. -/
def ofNames (names : List ν) : Path ν := ⟨true, names.map .into⟩

/-- `filepath.Abs`, for a working directory that may be unknown. -/
def Path.abs (wd : Option (List (Hop ν))) (p : Path ν) : Option (List ν) :=
  if p.rooted then some p.clean.names
  else wd.map fun hops => (Path.join ⟨true, hops⟩ p).names

/-- `filepath.Rel` of two clean paths from the root. -/
def rel [DecidableEq ν] : List ν → List ν → List (Hop ν)
  | b :: base, n :: targ =>
    if b = n then rel base targ
    else .up :: (base.map fun _ => .up) ++ (n :: targ).map .into
  | base, targ => (base.map fun _ => .up) ++ targ.map .into

/-- The relative path is `..` or starts with it. -/
def escapes [DecidableEq ν] (base targ : List ν) : Bool :=
  match rel base targ with
  | .up :: _ => true
  | _ => false

theorem escapes_iff [DecidableEq ν] (base targ : List ν) :
    escapes base targ = true ↔ ¬ base <+: targ := by
  induction base generalizing targ with
  | nil => cases targ <;> simp [escapes, rel]
  | cons b base ih =>
    cases targ with
    | nil => simp [escapes, rel]
    | cons n targ =>
      by_cases h : b = n
      · subst h
        rw [List.cons_prefix_cons, escapes, rel, if_pos rfl]
        simpa [escapes] using ih targ
      · rw [List.cons_prefix_cons, escapes, rel, if_neg h]
        simp [h]

end

end ZaqorinCore.Text
