import ZaqorinCore.Text.Float
import ZaqorinCore.Server.Detect

/-!
# Values of rules and events

A rule holds what `yaml.safe_load` builds, an event what `json.loads` builds, and the matcher
compares the two as Python does: numbers and booleans by value, texts with texts only.
`Runtime` is what is taken as given of the Python runtime.
-/

namespace ZaqorinCore.Server

open Text Base

def valueError : PyError := .other "ValueError"

def typeError : PyError := .other "TypeError"

/-- An exception of the runtime, by its name. -/
def raised {α : Type} (x : Except String α) : Except PyError α := x.mapError .other

/-- A value of `yaml.safe_load` that is none of the others: a date, bytes, a set or a tuple, with
its `str`, `bool` and `int`. -/
structure YamlObject where
  type : String
  text : Except String Str
  truthy : Bool
  toInt : Except String Int

/-- A value of `yaml.safe_load`: a `float` is kept as its `repr`, and the keys of a mapping are
distinct. -/
inductive Yaml
  | null
  | bool (b : Bool)
  | int (n : Int)
  | float (repr : Str)
  | str (s : Str)
  | seq (items : List Yaml)
  | map (fields : List (Yaml × Yaml))
  | object (value : YamlObject)

/-- The parts of the runtime that are parameters: `re.compile` with the search of what it returns,
the letters and digits of `\w` outside ASCII, the condition on a final sigma, and the text of a
list or a mapping. -/
structure Runtime where
  compile : Str → Except String (Str → Bool)
  alnum : Char → Bool
  finalSigma : Str → Str → Bool
  reprJson : Json → Str
  reprYaml : Yaml → Except String Str

/-! ## Texts -/

/-- `str(n)` refuses a number of more than 4300 digits. -/
def strInt (n : Int) : Except PyError Str :=
  if (Nat.toDigits 10 n.natAbs).length ≤ 4300 then pure (itoa n) else throw valueError

/-- `str(v)`. -/
def Yaml.toStr (rt : Runtime) : Yaml → Except PyError Str
  | .null => pure "None".toList
  | .bool true => pure "True".toList
  | .bool false => pure "False".toList
  | .int n => strInt n
  | .float repr => pure repr
  | .str s => pure s
  | .object o => raised o.text
  | v => raised (rt.reprYaml v)

/-- `s.strip()`. -/
def strip (s : Str) : Str :=
  ((s.dropWhile fun c => pySpace c.toNat).reverse.dropWhile fun c => pySpace c.toNat).reverse

/-- `s.split(sep)`; the first argument counts the characters of a separator still to be skipped,
the second holds the piece that is being read, in reverse. -/
def splitFrom (sep : Str) : Nat → Str → Str → List Str
  | _, piece, [] => [piece.reverse]
  | k + 1, piece, _ :: rest => splitFrom sep k piece rest
  | 0, piece, c :: rest =>
    if sep.isPrefixOf (c :: rest) then piece.reverse :: splitFrom sep (sep.length - 1) [] rest
    else splitFrom sep 0 (c :: piece) rest

def split (sep : String) (s : Str) : List Str := splitFrom sep.toList 0 [] s

/-- `s.partition(c)`; without the separator the last part is empty. -/
def partition (c : Char) (s : Str) : Str × Str :=
  (s.takeWhile (· != c), (s.dropWhile (· != c)).drop 1)

/-- `needle in s`. -/
def contains (needle s : Str) : Bool := s.tails.any needle.isPrefixOf

/-! ## Numbers -/

/-- `bool(v)`. -/
def Yaml.truthy : Yaml → Bool
  | .null => false
  | .bool b => b
  | .int n => n != 0
  | .float repr => pyFloat repr != some (.fin 0)
  | .str s => !s.isEmpty
  | .seq items => !items.isEmpty
  | .map fields => !fields.isEmpty
  | .object o => o.truthy

/-- Rounding toward zero. -/
def truncate (q : ℚ) : Int := if q < 0 then ⌈q⌉ else ⌊q⌋

/-- `int(v)`. -/
def Yaml.toInt : Yaml → Except PyError Int
  | .bool b => pure (if b then 1 else 0)
  | .int n => pure n
  | .float repr =>
    match pyFloat repr with
    | some (.fin q) => pure (truncate q)
    | some .inf | some .negInf => throw .overflowError
    | _ => throw valueError
  | .str s => match pyInt s with
    | some n => pure n
    | none => throw valueError
  | .object o => raised o.toInt
  | _ => throw typeError

/-- The number that a value is compared as. -/
def Yaml.num : Yaml → Option Double
  | .bool b => some (.fin (if b then 1 else 0))
  | .int n => some (.fin n)
  | .float repr => pyFloat repr
  | _ => none

/-- A number is equal to a value that is an equal number. -/
def numEq (x : Double) (y : Yaml) : Bool := y.num.any x.eq

/-- `float(v)` of an event's value; the outer error is an `OverflowError`, `none` a `TypeError` or a
`ValueError`. -/
def Json.toFloat : Json → Except PyError (Option Double)
  | .bool b => pure (some (.fin (if b then 1 else 0)))
  | .int n => match floatOfInt n with
    | some x => pure (some x)
    | none => throw .overflowError
  | .float repr => pure (pyFloat repr)
  | .str s => pure (pyFloat s)
  | _ => pure none

theorem Json.toFloat_int (n : Int) : (Json.int n).toFloat = match floatOfInt n with
    | some x => pure (some x)
    | none => throw .overflowError :=
  rfl

/-! ## Mappings and equality -/

/-- Whether a key of a mapping is the text. -/
def Yaml.isKey (key : Str) : Yaml → Bool
  | .str k => k == key
  | _ => false

/-- `d.get(key)` of a mapping; `none` when the key is absent. -/
def Yaml.lookup (fields : List (Yaml × Yaml)) (key : Str) : Option Yaml :=
  (fields.find? fun f => f.1.isKey key).map Prod.snd

/-- `d.get(key)` with `None` for an absent key. -/
def Yaml.get (fields : List (Yaml × Yaml)) (key : String) : Yaml :=
  (lookup fields key.toList).getD .null

mutual

/-- `a == b` of an event's value and a rule's. -/
def pyEq : Json → Yaml → Bool
  | .null, .null => true
  | .null, _ => false
  | .bool b, y => numEq (.fin (if b then 1 else 0)) y
  | .int n, y => numEq (.fin n) y
  | .float repr, y => (pyFloat repr).any (numEq · y)
  | .str s, y => y.isKey s
  | .arr xs, .seq ys => pyEqList xs ys
  | .arr _, _ => false
  | .obj fs, .map gs => fs.length == gs.length && pyEqFields fs gs
  | .obj _, _ => false

def pyEqList : List Json → List Yaml → Bool
  | [], [] => true
  | x :: xs, y :: ys => pyEq x y && pyEqList xs ys
  | _, _ => false

def pyEqFields : List (Str × Json) → List (Yaml × Yaml) → Bool
  | [], _ => true
  | (k, v) :: fs, gs => (Yaml.lookup gs k).any (pyEq v) && pyEqFields fs gs

end

/-- `a in list`. -/
def pyIn (a : Json) (items : List Yaml) : Bool := items.any (pyEq a)

/-- Python's name of the type of a value. -/
def Yaml.typeName : Yaml → String
  | .null => "NoneType"
  | .bool _ => "bool"
  | .int _ => "int"
  | .float _ => "float"
  | .str _ => "str"
  | .seq _ => "list"
  | .map _ => "dict"
  | .object o => o.type

end ZaqorinCore.Server
