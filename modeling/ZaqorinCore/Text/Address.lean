import ZaqorinCore.Text.Decimal

/-!
# Addresses as text

`net.IP.String` of Go: dotted decimal for four bytes and for the sixteen bytes of a mapped IPv4
address, and for other sixteen bytes groups of hexadecimal digits with the first longest run of
two or more zero groups written `::`.
-/

namespace ZaqorinCore.Text

def dotted (ip : Bytes) : Str :=
  List.intercalate ['.'] (ip.map fun b => itoa b.toNat)

/-- The sixteen-bit groups of an address. -/
def groups : Bytes → List Nat
  | high :: low :: rest => (256 * high.toNat + low.toNat) :: groups rest
  | _ => []

/-- The first longest run of two or more zero groups, as its start and its end. -/
def zeroRun (gs : List Nat) : Nat × Nat :=
  (List.range gs.length).foldl (fun best i =>
    let run := ((gs.drop i).takeWhile (· == 0)).length
    if 2 ≤ run ∧ best.2 - best.1 < run then (i, i + run) else best) (gs.length, gs.length)

def joinGroups (gs : List Nat) : Str :=
  List.intercalate [':'] (gs.map (Nat.toDigits 16))

def colonHex (gs : List Nat) : Str :=
  let run := zeroRun gs
  if run.1 = gs.length then joinGroups gs
  else joinGroups (gs.take run.1) ++ [':', ':'] ++ joinGroups (gs.drop run.2)

/-- The prefix of the mapped IPv4 addresses. -/
def mappedV4 : Bytes := List.replicate 10 0 ++ [0xff, 0xff]

def ipString (ip : Bytes) : Str :=
  if ip.length = 4 then dotted ip
  else if mappedV4.isPrefixOf ip then dotted (ip.drop 12)
  else colonHex (groups ip)

example : ipString [1, 2, 3, 4] = "1.2.3.4".toList := by decide

example : ipString [0x20, 1, 0x0d, 0xb8, 0, 0, 0, 0, 0, 0, 0, 0, 0, 0, 0, 1] =
    "2001:db8::1".toList := by decide

end ZaqorinCore.Text
