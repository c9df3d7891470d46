import Arcane.Lib.Utf8

/-!
# Keccak-256

The hash function of Ethereum on byte strings: `keccak256` cuts the padded message into blocks of
seventeen lanes, adds each to the first lanes of the state and runs the 24 rounds. A lane is a
number below `2 ^ 64`; five lanes are a `Plane`, and five planes a `State`.
-/

namespace Keccak

open Text

def rotl (x n : ℕ) : ℕ := Nat.lor (Nat.shiftLeft x n % 2 ^ 64) (Nat.shiftRight x (64 - n))

structure Plane where
  a : ℕ
  b : ℕ
  c : ℕ
  d : ℕ
  e : ℕ

structure State where
  v : Plane
  w : Plane
  x : Plane
  y : Plane
  z : Plane

def Plane.zero : Plane := ⟨0, 0, 0, 0, 0⟩

def Plane.xor (p q : Plane) : Plane :=
  ⟨Nat.xor p.a q.a, Nat.xor p.b q.b, Nat.xor p.c q.c, Nat.xor p.d q.d, Nat.xor p.e q.e⟩

/-- The parities of the columns. -/
def parity (s : State) : Plane := s.v.xor (s.w.xor (s.x.xor (s.y.xor s.z)))

/-- What each column gets from its neighbours. -/
def mix (c : Plane) : Plane :=
  ⟨Nat.xor c.e (rotl c.b 1), Nat.xor c.a (rotl c.c 1), Nat.xor c.b (rotl c.d 1),
    Nat.xor c.c (rotl c.e 1), Nat.xor c.d (rotl c.a 1)⟩

def theta (s : State) : State :=
  let d := mix (parity s)
  ⟨s.v.xor d, s.w.xor d, s.x.xor d, s.y.xor d, s.z.xor d⟩

def rhoPi (s : State) : State where
  v := ⟨s.v.a, rotl s.w.b 44, rotl s.x.c 43, rotl s.y.d 21, rotl s.z.e 14⟩
  w := ⟨rotl s.v.d 28, rotl s.w.e 20, rotl s.x.a 3, rotl s.y.b 45, rotl s.z.c 61⟩
  x := ⟨rotl s.v.b 1, rotl s.w.c 6, rotl s.x.d 25, rotl s.y.e 8, rotl s.z.a 18⟩
  y := ⟨rotl s.v.e 27, rotl s.w.a 36, rotl s.x.b 10, rotl s.y.c 15, rotl s.z.d 56⟩
  z := ⟨rotl s.v.c 62, rotl s.w.d 55, rotl s.x.e 39, rotl s.y.a 41, rotl s.z.b 2⟩

def andNot (x y : ℕ) : ℕ := Nat.land (Nat.xor x (2 ^ 64 - 1)) y

def Plane.chi (p : Plane) : Plane :=
  ⟨Nat.xor p.a (andNot p.b p.c), Nat.xor p.b (andNot p.c p.d), Nat.xor p.c (andNot p.d p.e),
    Nat.xor p.d (andNot p.e p.a), Nat.xor p.e (andNot p.a p.b)⟩

def chi (s : State) : State := ⟨s.v.chi, s.w.chi, s.x.chi, s.y.chi, s.z.chi⟩

def iota (s : State) (c : ℕ) : State := { s with v := { s.v with a := Nat.xor s.v.a c } }

def round (s : State) (c : ℕ) : State := iota (chi (rhoPi (theta s))) c

def constants : List ℕ :=
  [0x0000000000000001, 0x0000000000008082, 0x800000000000808a, 0x8000000080008000,
    0x000000000000808b, 0x0000000080000001, 0x8000000080008081, 0x8000000000008009,
    0x000000000000008a, 0x0000000000000088, 0x0000000080008009, 0x000000008000000a,
    0x000000008000808b, 0x800000000000008b, 0x8000000000008089, 0x8000000000008003,
    0x8000000000008002, 0x8000000000000080, 0x000000000000800a, 0x800000008000000a,
    0x8000000080008081, 0x8000000000008080, 0x0000000080000001, 0x8000000080008008]

/-- The message, a one bit, zeros, and a one bit: a whole number of blocks of 136 bytes. -/
def pad (m : Bytes) : Bytes :=
  match 135 - m.length % 136 with
  | 0 => m ++ [0x81]
  | n + 1 => m ++ 0x01 :: List.replicate n 0 ++ [0x80]

/-- A lane from its bytes, the first the lowest. -/
def lane : Bytes → ℕ := List.foldr (fun x n => 256 * n + x.toNat) 0

def laneAt (b : Bytes) (i : ℕ) : ℕ := lane ((b.drop (8 * i)).take 8)

def planeAt (b : Bytes) (i : ℕ) : Plane :=
  ⟨laneAt b i, laneAt b (i + 1), laneAt b (i + 2), laneAt b (i + 3), laneAt b (i + 4)⟩

/-- A block is added to the first lanes. -/
def absorb (s : State) (b : Bytes) : State :=
  constants.foldl round ⟨s.v.xor (planeAt b 0), s.w.xor (planeAt b 5), s.x.xor (planeAt b 10),
    s.y.xor ⟨laneAt b 15, laneAt b 16, 0, 0, 0⟩, s.z⟩

/-- The blocks one after the other. -/
def run : ℕ → State → Bytes → State
  | 0, s, _ => s
  | n + 1, s, b => run n (absorb s (b.take 136)) (b.drop 136)

def laneBytes (n : ℕ) : Bytes :=
  [.ofNat n, .ofNat (n / 2 ^ 8), .ofNat (n / 2 ^ 16), .ofNat (n / 2 ^ 24), .ofNat (n / 2 ^ 32),
    .ofNat (n / 2 ^ 40), .ofNat (n / 2 ^ 48), .ofNat (n / 2 ^ 56)]

end Keccak

@[irreducible]
def keccak256 (m : Text.Bytes) : Text.Bytes :=
  let b := Keccak.pad m
  let s := Keccak.run (b.length / 136) ⟨.zero, .zero, .zero, .zero, .zero⟩ b
  Keccak.laneBytes s.v.a ++ Keccak.laneBytes s.v.b ++ Keccak.laneBytes s.v.c ++
    Keccak.laneBytes s.v.d

@[simp]
theorem length_keccak256 (m : Text.Bytes) : (keccak256 m).length = 32 := by
  unfold keccak256
  rfl

example : keccak256 [] =
    [0xc5, 0xd2, 0x46, 0x01, 0x86, 0xf7, 0x23, 0x3c, 0x92, 0x7e, 0x7d, 0xb2, 0xdc, 0xc7, 0x03, 0xc0,
      0xe5, 0x00, 0xb6, 0x53, 0xca, 0x82, 0x27, 0x3b, 0x7b, 0xfa, 0xd8, 0x04, 0x5d, 0x85, 0xa4,
      0x70] := by
  decide +kernel
