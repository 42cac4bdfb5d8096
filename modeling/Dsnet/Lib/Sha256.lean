import Dsnet.Lib.Bytes

/-! SHA-256 (FIPS 180-4) of a message of bytes. Words are numbers below `2 ^ 32`. -/

namespace Dsnet
namespace Sha256

/-- Addition of words. -/
def add (x y : Nat) : Nat := (x + y) % 2 ^ 32

/-- `ROTR`. -/
def rotr (n x : Nat) : Nat := (x >>> n) ||| (x <<< (32 - n)) % 2 ^ 32

/-- `Ch`. -/
def ch (x y z : Nat) : Nat := (x &&& y) ^^^ ((2 ^ 32 - 1 - x) &&& z)

/-- `Maj`. -/
def maj (x y z : Nat) : Nat := (x &&& y) ^^^ (x &&& z) ^^^ (y &&& z)

/-- `Σ0`, `Σ1`, `σ0` and `σ1`. -/
def bigSigma0 (x : Nat) : Nat := rotr 2 x ^^^ rotr 13 x ^^^ rotr 22 x

def bigSigma1 (x : Nat) : Nat := rotr 6 x ^^^ rotr 11 x ^^^ rotr 25 x

def smallSigma0 (x : Nat) : Nat := rotr 7 x ^^^ rotr 18 x ^^^ (x >>> 3)

def smallSigma1 (x : Nat) : Nat := rotr 17 x ^^^ rotr 19 x ^^^ (x >>> 10)

/-- The constants of the rounds. -/
def constants : List Nat :=
  [0x428a2f98, 0x71374491, 0xb5c0fbcf, 0xe9b5dba5, 0x3956c25b, 0x59f111f1, 0x923f82a4, 0xab1c5ed5,
   0xd807aa98, 0x12835b01, 0x243185be, 0x550c7dc3, 0x72be5d74, 0x80deb1fe, 0x9bdc06a7, 0xc19bf174,
   0xe49b69c1, 0xefbe4786, 0x0fc19dc6, 0x240ca1cc, 0x2de92c6f, 0x4a7484aa, 0x5cb0a9dc, 0x76f988da,
   0x983e5152, 0xa831c66d, 0xb00327c8, 0xbf597fc7, 0xc6e00bf3, 0xd5a79147, 0x06ca6351, 0x14292967,
   0x27b70a85, 0x2e1b2138, 0x4d2c6dfc, 0x53380d13, 0x650a7354, 0x766a0abb, 0x81c2c92e, 0x92722c85,
   0xa2bfe8a1, 0xa81a664b, 0xc24b8b70, 0xc76c51a3, 0xd192e819, 0xd6990624, 0xf40e3585, 0x106aa070,
   0x19a4c116, 0x1e376c08, 0x2748774c, 0x34b0bcb5, 0x391c0cb3, 0x4ed8aa4a, 0x5b9cca4f, 0x682e6ff3,
   0x748f82ee, 0x78a5636f, 0x84c87814, 0x8cc70208, 0x90befffa, 0xa4506ceb, 0xbef9a3f7, 0xc67178f2]

/-- The eight working variables. -/
structure State where
  a : Nat
  b : Nat
  c : Nat
  d : Nat
  e : Nat
  f : Nat
  g : Nat
  h : Nat

/-- The initial hash value. -/
def State.initial : State :=
  ⟨0x6a09e667, 0xbb67ae85, 0x3c6ef372, 0xa54ff53a, 0x510e527f, 0x9b05688c, 0x1f83d9ab, 0x5be0cd19⟩

/-- One round, with its constant and its word of the schedule. -/
def State.round (s : State) (x : Nat × Nat) : State :=
  let t1 := add (add (add (add s.h (bigSigma1 s.e)) (ch s.e s.f s.g)) x.1) x.2
  let t2 := add (bigSigma0 s.a) (maj s.a s.b s.c)
  ⟨add t1 t2, s.a, s.b, s.c, add s.d t1, s.e, s.f, s.g⟩

/-- The schedule, newest word first, with `n` more words. -/
def schedule : Nat → List Nat → List Nat
  | 0, w => w
  | n + 1, w =>
    schedule n (add (add (add (w.getD 15 0) (smallSigma0 (w.getD 14 0))) (w.getD 6 0)) (smallSigma1 (w.getD 1 0)) :: w)

/-- The words of a block. -/
def words : List Nat → List Nat
  | b₀ :: b₁ :: b₂ :: b₃ :: rest => (((b₀ * 256 + b₁) * 256 + b₂) * 256 + b₃) :: words rest
  | _ => []

/-- The hash value after a block of 64 bytes. -/
def State.block (s : State) (block : List Nat) : State :=
  let t := (constants.zip (schedule 48 (words block).reverse).reverse).foldl State.round s
  ⟨add s.a t.a, add s.b t.b, add s.c t.c, add s.d t.d, add s.e t.e, add s.f t.f, add s.g t.g, add s.h t.h⟩

/-- The message with its padding: a one, zeros up to a multiple of 64, and its length in bits. -/
def pad (m : List Nat) : List Nat :=
  m ++ [0x80] ++ List.replicate ((119 - m.length % 64) % 64) 0 ++ (bytes 8 (8 * m.length)).reverse

/-- The hash value after `n` blocks. -/
def State.blocks : Nat → State → List Nat → State
  | 0, s, _ => s
  | n + 1, s, m => State.blocks n (s.block (m.take 64)) (m.drop 64)

/-- The digest: 32 bytes. -/
def hash (m : List UInt8) : List UInt8 :=
  let padded := pad (m.map UInt8.toNat)
  let s := State.blocks (padded.length / 64) .initial padded
  [s.a, s.b, s.c, s.d, s.e, s.f, s.g, s.h].flatMap fun w => (bytes 4 w).reverse.map UInt8.ofNat

/-- The digest of "abc". -/
example : hash [0x61, 0x62, 0x63] =
    [0xba, 0x78, 0x16, 0xbf, 0x8f, 0x01, 0xcf, 0xea, 0x41, 0x41, 0x40, 0xde, 0x5d, 0xae, 0x22, 0x23,
     0xb0, 0x03, 0x61, 0xa3, 0x96, 0x17, 0x7a, 0x9c, 0xb4, 0x10, 0xff, 0x61, 0xf2, 0x00, 0x15, 0xad] := by
  decide +kernel

end Sha256
end Dsnet
