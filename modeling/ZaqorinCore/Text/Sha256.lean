import ZaqorinCore.Text.Hex

/-!
# SHA-256 and HMAC

`sha256` follows FIPS 180-4 on byte strings and `hmacSha256` is RFC 2104 over it: Python's
`hmac.new(key, msg, hashlib.sha256).digest()` and Go's `hmac.New(sha256.New, key)`. No proof
about the programs opens these definitions; they are here so that the signing functions are
closed terms.
-/

namespace ZaqorinCore.Text

abbrev Word := BitVec 32

def roundConstants : List Word := [
  0x428a2f98, 0x71374491, 0xb5c0fbcf, 0xe9b5dba5, 0x3956c25b, 0x59f111f1, 0x923f82a4,
  0xab1c5ed5, 0xd807aa98, 0x12835b01, 0x243185be, 0x550c7dc3, 0x72be5d74, 0x80deb1fe,
  0x9bdc06a7, 0xc19bf174, 0xe49b69c1, 0xefbe4786, 0x0fc19dc6, 0x240ca1cc, 0x2de92c6f,
  0x4a7484aa, 0x5cb0a9dc, 0x76f988da, 0x983e5152, 0xa831c66d, 0xb00327c8, 0xbf597fc7,
  0xc6e00bf3, 0xd5a79147, 0x06ca6351, 0x14292967, 0x27b70a85, 0x2e1b2138, 0x4d2c6dfc,
  0x53380d13, 0x650a7354, 0x766a0abb, 0x81c2c92e, 0x92722c85, 0xa2bfe8a1, 0xa81a664b,
  0xc24b8b70, 0xc76c51a3, 0xd192e819, 0xd6990624, 0xf40e3585, 0x106aa070, 0x19a4c116,
  0x1e376c08, 0x2748774c, 0x34b0bcb5, 0x391c0cb3, 0x4ed8aa4a, 0x5b9cca4f, 0x682e6ff3,
  0x748f82ee, 0x78a5636f, 0x84c87814, 0x8cc70208, 0x90befffa, 0xa4506ceb, 0xbef9a3f7,
  0xc67178f2]

/-- The eight working variables of a compression. -/
structure Digest where
  a : Word
  b : Word
  c : Word
  d : Word
  e : Word
  f : Word
  g : Word
  h : Word

def initialDigest : Digest :=
  ⟨0x6a09e667, 0xbb67ae85, 0x3c6ef372, 0xa54ff53a,
    0x510e527f, 0x9b05688c, 0x1f83d9ab, 0x5be0cd19⟩

/-- The message schedule, newest word first; the first argument counts the words still to
be appended. -/
def extendSchedule : Nat → List Word → List Word
  | 0, ws => ws
  | n + 1, ws =>
    let w := fun i => ws.getD i 0
    let s0 := (w 14).rotateRight 7 ^^^ (w 14).rotateRight 18 ^^^ (w 14) >>> 3
    let s1 := (w 1).rotateRight 17 ^^^ (w 1).rotateRight 19 ^^^ (w 1) >>> 10
    extendSchedule n ((s1 + w 6 + s0 + w 15) :: ws)

def sha256Round (s : Digest) (kw : Word × Word) : Digest :=
  let s1 := s.e.rotateRight 6 ^^^ s.e.rotateRight 11 ^^^ s.e.rotateRight 25
  let ch := (s.e &&& s.f) ^^^ (~~~s.e &&& s.g)
  let t1 := s.h + s1 + ch + kw.1 + kw.2
  let s0 := s.a.rotateRight 2 ^^^ s.a.rotateRight 13 ^^^ s.a.rotateRight 22
  let maj := (s.a &&& s.b) ^^^ (s.a &&& s.c) ^^^ (s.b &&& s.c)
  ⟨t1 + (s0 + maj), s.a, s.b, s.c, s.d + t1, s.e, s.f, s.g⟩

/-- One block of sixteen words. -/
def compressBlock (s : Digest) (block : List Word) : Digest :=
  let ws := (extendSchedule 48 block.reverse).reverse
  let r := (roundConstants.zip ws).foldl sha256Round s
  ⟨s.a + r.a, s.b + r.b, s.c + r.c, s.d + r.d, s.e + r.e, s.f + r.f, s.g + r.g, s.h + r.h⟩

def wordsOf : Bytes → List Word
  | p :: q :: r :: t :: rest =>
    BitVec.ofNat 32 (p.toNat * 16777216 + q.toNat * 65536 + r.toNat * 256 + t.toNat) :: wordsOf rest
  | _ => []

/-- The message followed by a one bit, zeros, and its bit length in eight bytes. -/
def padMessage (m : Bytes) : Bytes :=
  let bits := 8 * m.length
  m ++ 0x80 :: List.replicate ((119 - m.length % 64) % 64) 0 ++
    (List.range 8).map fun i => UInt8.ofNat (bits / 256 ^ (7 - i))

def compressBlocks : Nat → Digest → List Word → Digest
  | 0, s, _ => s
  | n + 1, s, ws => compressBlocks n (compressBlock s (ws.take 16)) (ws.drop 16)

def bytesOf (w : Word) : Bytes :=
  (List.range 4).map fun i => UInt8.ofNat (w.toNat / 256 ^ (3 - i))

def sha256 (m : Bytes) : Bytes :=
  let padded := padMessage m
  let s := compressBlocks (padded.length / 64) initialDigest (wordsOf padded)
  [s.a, s.b, s.c, s.d, s.e, s.f, s.g, s.h].flatMap bytesOf

theorem sha256_length (m : Bytes) : (sha256 m).length = 32 := by
  simp [sha256, bytesOf]

/-- RFC 2104 with a block of 64 bytes. -/
def hmacSha256 (key msg : Bytes) : Bytes :=
  let key := if 64 < key.length then sha256 key else key
  let block := key ++ List.replicate (64 - key.length) 0
  sha256 (block.map (· ^^^ 0x5C) ++ sha256 (block.map (· ^^^ 0x36) ++ msg))

example : (sha256 (lit "abc")).take 4 = [0xBA, 0x78, 0x16, 0xBF] := by decide +kernel

end ZaqorinCore.Text
