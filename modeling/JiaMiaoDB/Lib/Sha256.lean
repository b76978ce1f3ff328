import JiaMiaoDB.Lib.ByteFormat

/-! SHA-256 on byte strings, with the digest in hexadecimal. -/

set_option autoImplicit false

namespace Sha256

def roundConstants : List UInt32 := [
  0x428a2f98, 0x71374491, 0xb5c0fbcf, 0xe9b5dba5, 0x3956c25b, 0x59f111f1, 0x923f82a4, 0xab1c5ed5,
  0xd807aa98, 0x12835b01, 0x243185be, 0x550c7dc3, 0x72be5d74, 0x80deb1fe, 0x9bdc06a7, 0xc19bf174,
  0xe49b69c1, 0xefbe4786, 0x0fc19dc6, 0x240ca1cc, 0x2de92c6f, 0x4a7484aa, 0x5cb0a9dc, 0x76f988da,
  0x983e5152, 0xa831c66d, 0xb00327c8, 0xbf597fc7, 0xc6e00bf3, 0xd5a79147, 0x06ca6351, 0x14292967,
  0x27b70a85, 0x2e1b2138, 0x4d2c6dfc, 0x53380d13, 0x650a7354, 0x766a0abb, 0x81c2c92e, 0x92722c85,
  0xa2bfe8a1, 0xa81a664b, 0xc24b8b70, 0xc76c51a3, 0xd192e819, 0xd6990624, 0xf40e3585, 0x106aa070,
  0x19a4c116, 0x1e376c08, 0x2748774c, 0x34b0bcb5, 0x391c0cb3, 0x4ed8aa4a, 0x5b9cca4f, 0x682e6ff3,
  0x748f82ee, 0x78a5636f, 0x84c87814, 0x8cc70208, 0x90befffa, 0xa4506ceb, 0xbef9a3f7, 0xc67178f2]

/-- The chaining value. -/
structure State where
  (a b c d e f g h : UInt32)

def State.initial : State :=
  ⟨0x6a09e667, 0xbb67ae85, 0x3c6ef372, 0xa54ff53a, 0x510e527f, 0x9b05688c, 0x1f83d9ab, 0x5be0cd19⟩

def rotRight (x n : UInt32) : UInt32 := (x >>> n) ||| (x <<< (32 - n))

def sig0 (x : UInt32) : UInt32 := rotRight x 7 ^^^ rotRight x 18 ^^^ (x >>> 3)
def sig1 (x : UInt32) : UInt32 := rotRight x 17 ^^^ rotRight x 19 ^^^ (x >>> 10)
def ep0 (x : UInt32) : UInt32 := rotRight x 2 ^^^ rotRight x 13 ^^^ rotRight x 22
def ep1 (x : UInt32) : UInt32 := rotRight x 6 ^^^ rotRight x 11 ^^^ rotRight x 25

/-- The big-endian words of a block. -/
def words : Bytes → List UInt32
  | p :: q :: r :: s :: rest =>
    ((p.toUInt32 <<< 24) ||| (q.toUInt32 <<< 16) ||| (r.toUInt32 <<< 8) ||| s.toUInt32) :: words rest
  | _ => []

/-- Extends the schedule, which is kept newest first. -/
def extend : Nat → List UInt32 → List UInt32
  | 0, w => w
  | n + 1, w =>
    extend n ((sig1 (w.getD 1 0) + w.getD 6 0 + sig0 (w.getD 14 0) + w.getD 15 0) :: w)

def step (s : State) (kw : UInt32 × UInt32) : State :=
  let t1 := s.h + ep1 s.e + ((s.e &&& s.f) ^^^ (~~~s.e &&& s.g)) + kw.1 + kw.2
  let t2 := ep0 s.a + ((s.a &&& s.b) ^^^ (s.a &&& s.c) ^^^ (s.b &&& s.c))
  ⟨t1 + t2, s.a, s.b, s.c, s.d + t1, s.e, s.f, s.g⟩

def transform (s : State) (block : Bytes) : State :=
  let schedule := (extend 48 (words block).reverse).reverse
  let r := (roundConstants.zip schedule).foldl step s
  ⟨s.a + r.a, s.b + r.b, s.c + r.c, s.d + r.d, s.e + r.e, s.f + r.f, s.g + r.g, s.h + r.h⟩

/-- `0x80`, zeros up to 56 modulo 64, and the bit length in eight bytes. -/
def pad (data : Bytes) : Bytes :=
  let zeros := (119 - data.length % 64) % 64
  data ++ [0x80] ++ List.replicate zeros 0 ++ (ByteFormat.putLE 8 (8 * data.length)).reverse

def blocks : Nat → Bytes → List Bytes
  | 0, _ => []
  | n + 1, bs => bs.take 64 :: blocks n (bs.drop 64)

def hexDigit (n : Nat) : UInt8 := UInt8.ofNat (if n < 10 then 48 + n else 87 + n)

def hex (bs : Bytes) : Bytes := bs.flatMap fun b => [hexDigit (b.toNat / 16), hexDigit (b.toNat % 16)]

def sha256 (data : Bytes) : Bytes :=
  let padded := pad data
  let s := (blocks (padded.length / 64) padded).foldl transform State.initial
  hex ([s.a, s.b, s.c, s.d, s.e, s.f, s.g, s.h].flatMap fun w =>
    (ByteFormat.putLE 4 w.toNat).reverse)

end Sha256
