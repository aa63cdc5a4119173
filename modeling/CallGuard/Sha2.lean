/-! # SHA-2

The hash functions SHA-256, SHA-384 and SHA-512 on lists of bytes. The two word sizes share one
description: the constants of the narrow functions are the upper halves of the wide ones. -/

namespace CallGuard.Sha2

/-! ## Constants -/

/-- The first 64 bits of the fractional parts of the cube roots of the first eighty primes. -/
def cubeRoots : List Nat :=
  [0x428a2f98d728ae22, 0x7137449123ef65cd, 0xb5c0fbcfec4d3b2f,
   0xe9b5dba58189dbbc, 0x3956c25bf348b538, 0x59f111f1b605d019,
   0x923f82a4af194f9b, 0xab1c5ed5da6d8118, 0xd807aa98a3030242,
   0x12835b0145706fbe, 0x243185be4ee4b28c, 0x550c7dc3d5ffb4e2,
   0x72be5d74f27b896f, 0x80deb1fe3b1696b1, 0x9bdc06a725c71235,
   0xc19bf174cf692694, 0xe49b69c19ef14ad2, 0xefbe4786384f25e3,
   0x0fc19dc68b8cd5b5, 0x240ca1cc77ac9c65, 0x2de92c6f592b0275,
   0x4a7484aa6ea6e483, 0x5cb0a9dcbd41fbd4, 0x76f988da831153b5,
   0x983e5152ee66dfab, 0xa831c66d2db43210, 0xb00327c898fb213f,
   0xbf597fc7beef0ee4, 0xc6e00bf33da88fc2, 0xd5a79147930aa725,
   0x06ca6351e003826f, 0x142929670a0e6e70, 0x27b70a8546d22ffc,
   0x2e1b21385c26c926, 0x4d2c6dfc5ac42aed, 0x53380d139d95b3df,
   0x650a73548baf63de, 0x766a0abb3c77b2a8, 0x81c2c92e47edaee6,
   0x92722c851482353b, 0xa2bfe8a14cf10364, 0xa81a664bbc423001,
   0xc24b8b70d0f89791, 0xc76c51a30654be30, 0xd192e819d6ef5218,
   0xd69906245565a910, 0xf40e35855771202a, 0x106aa07032bbd1b8,
   0x19a4c116b8d2d0c8, 0x1e376c085141ab53, 0x2748774cdf8eeb99,
   0x34b0bcb5e19b48a8, 0x391c0cb3c5c95a63, 0x4ed8aa4ae3418acb,
   0x5b9cca4f7763e373, 0x682e6ff3d6b2b8a3, 0x748f82ee5defb2fc,
   0x78a5636f43172f60, 0x84c87814a1f0ab72, 0x8cc702081a6439ec,
   0x90befffa23631e28, 0xa4506cebde82bde9, 0xbef9a3f7b2c67915,
   0xc67178f2e372532b, 0xca273eceea26619c, 0xd186b8c721c0c207,
   0xeada7dd6cde0eb1e, 0xf57d4f7fee6ed178, 0x06f067aa72176fba,
   0x0a637dc5a2c898a6, 0x113f9804bef90dae, 0x1b710b35131c471b,
   0x28db77f523047d84, 0x32caab7b40c72493, 0x3c9ebe0a15c9bebc,
   0x431d67c49c100d4c, 0x4cc5d4becb3e42b6, 0x597f299cfc657e2a,
   0x5fcb6fab3ad6faec, 0x6c44198c4a475817]

/-- The first 64 bits of the fractional parts of the square roots of the first sixteen primes. -/
def squareRoots : List Nat :=
  [0x6a09e667f3bcc908, 0xbb67ae8584caa73b, 0x3c6ef372fe94f82b,
   0xa54ff53a5f1d36f1, 0x510e527fade682d1, 0x9b05688c2b3e6c1f,
   0x1f83d9abfb41bd6b, 0x5be0cd19137e2179, 0xcbbb9d5dc1059ed8,
   0x629a292a367cd507, 0x9159015a3070dd17, 0x152fecd8f70e5939,
   0x67332667ffc00b31, 0x8eb44a8768581511, 0xdb0c2e0d64f98fa7,
   0x47b5481dbefa4fa4]

/-! ## Word size -/

/-- What depends on the word size: the round constants, the three rotations of each sum, and two
rotations and a shift for the message schedule. -/
structure Family (w : Nat) where
  constants : List (BitVec w)
  sum0 : Nat × Nat × Nat
  sum1 : Nat × Nat × Nat
  mix0 : Nat × Nat × Nat
  mix1 : Nat × Nat × Nat

/-- Words of 32 bits and 64 rounds. -/
def narrow : Family 32 where
  constants := (cubeRoots.take 64).map fun k => BitVec.ofNat 32 (k >>> 32)
  sum0 := (2, 13, 22)
  sum1 := (6, 11, 25)
  mix0 := (7, 18, 3)
  mix1 := (17, 19, 10)

/-- Words of 64 bits and 80 rounds. -/
def wide : Family 64 where
  constants := cubeRoots.map (BitVec.ofNat 64)
  sum0 := (28, 34, 39)
  sum1 := (14, 18, 41)
  mix0 := (1, 8, 7)
  mix1 := (19, 61, 6)

variable {w : Nat}

/-- The exclusive or of three rotations. -/
def sum (r : Nat × Nat × Nat) (x : BitVec w) : BitVec w :=
  x.rotateRight r.1 ^^^ x.rotateRight r.2.1 ^^^ x.rotateRight r.2.2

/-- The exclusive or of two rotations and a shift. -/
def mix (r : Nat × Nat × Nat) (x : BitVec w) : BitVec w :=
  x.rotateRight r.1 ^^^ x.rotateRight r.2.1 ^^^ x >>> r.2.2

/-! ## Compression -/

structure Words (w : Nat) where
  a : BitVec w
  b : BitVec w
  c : BitVec w
  d : BitVec w
  e : BitVec w
  f : BitVec w
  g : BitVec w
  h : BitVec w

namespace Words

def toList (s : Words w) : List (BitVec w) :=
  [s.a, s.b, s.c, s.d, s.e, s.f, s.g, s.h]

def add (s t : Words w) : Words w :=
  ⟨s.a + t.a, s.b + t.b, s.c + t.c, s.d + t.d, s.e + t.e, s.f + t.f, s.g + t.g, s.h + t.h⟩

end Words

/-- One round with a constant and a message word. -/
def round (fam : Family w) (s : Words w) (constant word : BitVec w) : Words w :=
  let t1 := s.h + sum fam.sum1 s.e + (s.e &&& s.f ^^^ ~~~s.e &&& s.g) + constant + word
  let t2 := sum fam.sum0 s.a + (s.a &&& s.b ^^^ s.a &&& s.c ^^^ s.b &&& s.c)
  ⟨t1 + t2, s.a, s.b, s.c, s.d + t1, s.e, s.f, s.g⟩

/-- The message words from the current one on, sixteen at a time: drops the first and adds the one
that follows the last. -/
def slide (fam : Family w) (window : List (BitVec w)) : List (BitVec w) :=
  let word (i : Nat) := window.getD i 0
  window.drop 1 ++ [mix fam.mix1 (word 14) + word 9 + mix fam.mix0 (word 1) + word 0]

/-- Runs the rounds of a block of sixteen words. -/
def compress (fam : Family w) (s : Words w) (block : List (BitVec w)) : Words w :=
  let run := fam.constants.foldl
    (fun (p : Words w × List (BitVec w)) k => (round fam p.1 k (p.2.getD 0 0), slide fam p.2))
    (s, block)
  s.add run.1

/-! ## Messages -/

/-- A natural in a number of bytes, the highest first. -/
def bigEndian : Nat → Nat → List UInt8
  | 0, _ => []
  | n + 1, x => UInt8.ofNat (x >>> (8 * n)) :: bigEndian n x

/-- The natural that bytes stand for, the highest first. -/
def ofBigEndian (bytes : List UInt8) : Nat :=
  bytes.foldl (fun n b => n * 256 + b.toNat) 0

def blockBytes (w : Nat) : Nat := 2 * w

/-- A message with a one bit, zeros and its length in bits, up to a whole number of blocks. -/
def pad (w : Nat) (message : List UInt8) : List UInt8 :=
  let used := message.length + 1 + w / 4
  let zeros := (blockBytes w - used % blockBytes w) % blockBytes w
  message ++ 0x80 :: (List.replicate zeros 0 ++ bigEndian (w / 4) (8 * message.length))

/-- The first `count` pieces of a list, each of `size` elements. -/
def chunks {α : Type} (size : Nat) : Nat → List α → List (List α)
  | 0, _ => []
  | count + 1, xs => xs.take size :: chunks size count (xs.drop size)

def words (w : Nat) (block : List UInt8) : List (BitVec w) :=
  (chunks (w / 8) 16 block).map fun bytes => BitVec.ofNat w (ofBigEndian bytes)

/-- The hash value of a message from an initial one. -/
def hash (fam : Family w) (start : Words w) (message : List UInt8) : List UInt8 :=
  let padded := pad w message
  let blocks := chunks (blockBytes w) (padded.length / blockBytes w) padded
  let final := blocks.foldl (fun s block => compress fam s (words w block)) start
  final.toList.flatMap fun x => bigEndian (w / 8) x.toNat

def initial (w : Nat) (xs : List Nat) : Words w :=
  let x (i : Nat) := BitVec.ofNat w (xs.getD i 0)
  ⟨x 0, x 1, x 2, x 3, x 4, x 5, x 6, x 7⟩

end CallGuard.Sha2

/-! ## Hash functions -/

namespace CallGuard

inductive Sha2 where
  | sha256
  | sha384
  | sha512
deriving DecidableEq, Repr

namespace Sha2

def digest : Sha2 → List UInt8 → List UInt8
  | sha256, m => hash narrow (initial 32 (squareRoots.map (· >>> 32))) m
  | sha384, m => (hash wide (initial 64 (squareRoots.drop 8)) m).take 48
  | sha512, m => hash wide (initial 64 squareRoots) m

def blockSize : Sha2 → Nat
  | sha256 => blockBytes 32
  | sha384 => blockBytes 64
  | sha512 => blockBytes 64

/-- A key of exactly one block: long keys are hashed, and zeros follow. -/
def blockKey (a : Sha2) (key : List UInt8) : List UInt8 :=
  let key := if a.blockSize < key.length then a.digest key else key
  key ++ List.replicate (a.blockSize - key.length) 0

def hmac (a : Sha2) (key message : List UInt8) : List UInt8 :=
  let key := a.blockKey key
  let inner := a.digest (key.map (· ^^^ 0x36) ++ message)
  a.digest (key.map (· ^^^ 0x5c) ++ inner)

end Sha2

end CallGuard
