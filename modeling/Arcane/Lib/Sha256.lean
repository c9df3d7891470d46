import Arcane.Lib.Utf8

/-!
# SHA-256

The hash function on byte strings: `sha256` cuts the padded message into blocks of sixteen words
and runs the 64 rounds on each.
-/

namespace Sha256

open Text

def rotr (x : UInt32) (n : UInt32) : UInt32 := (x >>> n) ||| (x <<< (32 - n))

/-- The eight working variables. -/
structure Words where
  a : UInt32
  b : UInt32
  c : UInt32
  d : UInt32
  e : UInt32
  f : UInt32
  g : UInt32
  h : UInt32

def Words.add (x y : Words) : Words :=
  ⟨x.a + y.a, x.b + y.b, x.c + y.c, x.d + y.d, x.e + y.e, x.f + y.f, x.g + y.g, x.h + y.h⟩

def init : Words :=
  ⟨0x6a09e667, 0xbb67ae85, 0x3c6ef372, 0xa54ff53a, 0x510e527f, 0x9b05688c, 0x1f83d9ab, 0x5be0cd19⟩

def constants : List UInt32 :=
  [0x428a2f98, 0x71374491, 0xb5c0fbcf, 0xe9b5dba5, 0x3956c25b, 0x59f111f1, 0x923f82a4, 0xab1c5ed5,
    0xd807aa98, 0x12835b01, 0x243185be, 0x550c7dc3, 0x72be5d74, 0x80deb1fe, 0x9bdc06a7, 0xc19bf174,
    0xe49b69c1, 0xefbe4786, 0x0fc19dc6, 0x240ca1cc, 0x2de92c6f, 0x4a7484aa, 0x5cb0a9dc, 0x76f988da,
    0x983e5152, 0xa831c66d, 0xb00327c8, 0xbf597fc7, 0xc6e00bf3, 0xd5a79147, 0x06ca6351, 0x14292967,
    0x27b70a85, 0x2e1b2138, 0x4d2c6dfc, 0x53380d13, 0x650a7354, 0x766a0abb, 0x81c2c92e, 0x92722c85,
    0xa2bfe8a1, 0xa81a664b, 0xc24b8b70, 0xc76c51a3, 0xd192e819, 0xd6990624, 0xf40e3585, 0x106aa070,
    0x19a4c116, 0x1e376c08, 0x2748774c, 0x34b0bcb5, 0x391c0cb3, 0x4ed8aa4a, 0x5b9cca4f, 0x682e6ff3,
    0x748f82ee, 0x78a5636f, 0x84c87814, 0x8cc70208, 0x90befffa, 0xa4506ceb, 0xbef9a3f7, 0xc67178f2]

def be32 (x : UInt32) : Bytes :=
  [(x >>> 24).toUInt8, (x >>> 16).toUInt8, (x >>> 8).toUInt8, x.toUInt8]

def be64 (n : ℕ) : Bytes := be32 (.ofNat (n / 2 ^ 32)) ++ be32 (.ofNat n)

/-- The message, a one bit, zeros, and the length in bits. -/
def pad (m : Bytes) : Bytes :=
  m ++ 0x80 :: List.replicate ((119 - m.length % 64) % 64) 0 ++ be64 (8 * m.length)

def words : Bytes → List UInt32
  | a :: b :: c :: d :: m =>
    (a.toUInt32 <<< 24 ||| b.toUInt32 <<< 16 ||| c.toUInt32 <<< 8 ||| d.toUInt32) :: words m
  | _ => []

/-- The word sixteen places after the first of `w`. -/
def nextWord (w : List UInt32) : UInt32 :=
  let w₁ := w.getD 1 0
  let w₁₄ := w.getD 14 0
  (rotr w₁₄ 17 ^^^ rotr w₁₄ 19 ^^^ (w₁₄ >>> 10)) + w.getD 9 0 +
    (rotr w₁ 7 ^^^ rotr w₁ 18 ^^^ (w₁ >>> 3)) + w.getD 0 0

/-- `n` words of the message schedule, from a window of sixteen. -/
def schedule : ℕ → List UInt32 → List UInt32
  | 0, _ => []
  | n + 1, w => w.getD 0 0 :: schedule n (w.tail ++ [nextWord w])

def round (s : Words) (kw : UInt32 × UInt32) : Words :=
  let t₁ := s.h + (rotr s.e 6 ^^^ rotr s.e 11 ^^^ rotr s.e 25) +
    ((s.e &&& s.f) ^^^ (~~~s.e &&& s.g)) + kw.1 + kw.2
  let t₂ := (rotr s.a 2 ^^^ rotr s.a 13 ^^^ rotr s.a 22) +
    ((s.a &&& s.b) ^^^ (s.a &&& s.c) ^^^ (s.b &&& s.c))
  ⟨t₁ + t₂, s.a, s.b, s.c, s.d + t₁, s.e, s.f, s.g⟩

def compress (s : Words) (block : List UInt32) : Words :=
  s.add ((constants.zip (schedule 64 block)).foldl round s)

/-- The blocks of sixteen words, one after the other. -/
def run : ℕ → Words → List UInt32 → Words
  | 0, s, _ => s
  | n + 1, s, w => run n (compress s (w.take 16)) (w.drop 16)

def Words.bytes (s : Words) : Bytes :=
  be32 s.a ++ be32 s.b ++ be32 s.c ++ be32 s.d ++ be32 s.e ++ be32 s.f ++ be32 s.g ++ be32 s.h

@[simp]
theorem Words.length_bytes (s : Words) : s.bytes.length = 32 := rfl

end Sha256

def sha256 (m : Text.Bytes) : Text.Bytes :=
  let w := Sha256.words (Sha256.pad m)
  (Sha256.run (w.length / 16) Sha256.init w).bytes

@[simp]
theorem length_sha256 (m : Text.Bytes) : (sha256 m).length = 32 :=
  Sha256.Words.length_bytes _

example : sha256 "abc".toUTF8.toList =
    [0xba, 0x78, 0x16, 0xbf, 0x8f, 0x01, 0xcf, 0xea, 0x41, 0x41, 0x40, 0xde, 0x5d, 0xae, 0x22, 0x23,
      0xb0, 0x03, 0x61, 0xa3, 0x96, 0x17, 0x7a, 0x9c, 0xb4, 0x10, 0xff, 0x61, 0xf2, 0x00, 0x15,
      0xad] := by
  decide +kernel
