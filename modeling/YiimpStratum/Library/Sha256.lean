import Mathlib.Data.BitVec
import YiimpStratum.Library.BigEndian

/-!
# The secure hash algorithm SHA-256

The standard on words of 32 bits: the functions of the words, the schedule of
a block, the rounds of the compression, the padding of a message and its
digest.
-/

namespace YiimpStratum.Sha256

open YiimpStratum

/-! ## Words -/

abbrev Word := BitVec 32

def ch (x y z : Word) : Word :=
  (x &&& y) ^^^ (~~~x &&& z)

def maj (x y z : Word) : Word :=
  (x &&& y) ^^^ (x &&& z) ^^^ (y &&& z)

def bigSigma0 (x : Word) : Word :=
  x.rotateRight 2 ^^^ x.rotateRight 13 ^^^ x.rotateRight 22

def bigSigma1 (x : Word) : Word :=
  x.rotateRight 6 ^^^ x.rotateRight 11 ^^^ x.rotateRight 25

def smallSigma0 (x : Word) : Word :=
  x.rotateRight 7 ^^^ x.rotateRight 18 ^^^ x >>> 3

def smallSigma1 (x : Word) : Word :=
  x.rotateRight 17 ^^^ x.rotateRight 19 ^^^ x >>> 10

/-- The fractional parts of the cube roots of the first primes. -/
def constants : List Word :=
  [0x428a2f98, 0x71374491, 0xb5c0fbcf, 0xe9b5dba5,
    0x3956c25b, 0x59f111f1, 0x923f82a4, 0xab1c5ed5,
    0xd807aa98, 0x12835b01, 0x243185be, 0x550c7dc3,
    0x72be5d74, 0x80deb1fe, 0x9bdc06a7, 0xc19bf174,
    0xe49b69c1, 0xefbe4786, 0x0fc19dc6, 0x240ca1cc,
    0x2de92c6f, 0x4a7484aa, 0x5cb0a9dc, 0x76f988da,
    0x983e5152, 0xa831c66d, 0xb00327c8, 0xbf597fc7,
    0xc6e00bf3, 0xd5a79147, 0x06ca6351, 0x14292967,
    0x27b70a85, 0x2e1b2138, 0x4d2c6dfc, 0x53380d13,
    0x650a7354, 0x766a0abb, 0x81c2c92e, 0x92722c85,
    0xa2bfe8a1, 0xa81a664b, 0xc24b8b70, 0xc76c51a3,
    0xd192e819, 0xd6990624, 0xf40e3585, 0x106aa070,
    0x19a4c116, 0x1e376c08, 0x2748774c, 0x34b0bcb5,
    0x391c0cb3, 0x4ed8aa4a, 0x5b9cca4f, 0x682e6ff3,
    0x748f82ee, 0x78a5636f, 0x84c87814, 0x8cc70208,
    0x90befffa, 0xa4506ceb, 0xbef9a3f7, 0xc67178f2]

def constant (t : Nat) : Word :=
  constants.getD t 0

/-! ## The compression of a block -/

/-- The working variables, or the words of a hash value. -/
@[ext]
structure Registers where
  a : Word
  b : Word
  c : Word
  d : Word
  e : Word
  f : Word
  g : Word
  h : Word

namespace Registers

/-- The initial hash value. -/
def initial : Registers where
  a := 0x6a09e667
  b := 0xbb67ae85
  c := 0x3c6ef372
  d := 0xa54ff53a
  e := 0x510e527f
  f := 0x9b05688c
  g := 0x1f83d9ab
  h := 0x5be0cd19

def add (left right : Registers) : Registers where
  a := left.a + right.a
  b := left.b + right.b
  c := left.c + right.c
  d := left.d + right.d
  e := left.e + right.e
  f := left.f + right.f
  g := left.g + right.g
  h := left.h + right.h

def words (r : Registers) : List Word :=
  [r.a, r.b, r.c, r.d, r.e, r.f, r.g, r.h]

end Registers

/-- The word of a block at this place. -/
def blockWord (block : List UInt8) (t : Nat) : Word :=
  BitVec.ofNat 32 (BigEndian.value ((block.drop (4 * t)).take 4))

/-- The message schedule. -/
def schedule (block : List UInt8) (t : Nat) : Word :=
  if t < 16 then blockWord block t
  else
    smallSigma1 (schedule block (t - 2)) + schedule block (t - 7) +
      smallSigma0 (schedule block (t - 15)) + schedule block (t - 16)

theorem schedule_of_lt (block : List UInt8) {t : Nat} (first : t < 16) :
    schedule block t = blockWord block t := by
  rw [schedule, if_pos first]

theorem schedule_of_le (block : List UInt8) {t : Nat} (later : 16 ≤ t) :
    schedule block t =
      smallSigma1 (schedule block (t - 2)) + schedule block (t - 7) +
        smallSigma0 (schedule block (t - 15)) + schedule block (t - 16) := by
  rw [schedule, if_neg (Nat.not_lt.mpr later)]

def Registers.round (r : Registers) (k w : Word) : Registers :=
  let first := r.h + bigSigma1 r.e + ch r.e r.f r.g + k + w
  let second := bigSigma0 r.a + maj r.a r.b r.c
  { a := first + second
    b := r.a
    c := r.b
    d := r.c
    e := r.d + first
    f := r.e
    g := r.f
    h := r.g }

/-- So many rounds on a block. -/
def rounds (block : List UInt8) (start : Registers) : Nat → Registers
  | 0 => start
  | t + 1 => (rounds block start t).round (constant t) (schedule block t)

def compress (hash : Registers) (block : List UInt8) : Registers :=
  hash.add (rounds block hash 64)

/-! ## Messages -/

/-- The blocks of a message compressed; an incomplete one is left out. -/
def absorb (hash : Registers) (bytes : List UInt8) : Registers :=
  if bytes.length < 64 then hash
  else absorb (compress hash (bytes.take 64)) (bytes.drop 64)
termination_by bytes.length
decreasing_by
  rw [List.length_drop]
  omega

/-- The number of zeros between the one bit and the length. -/
def zeros (length : Nat) : Nat :=
  (119 - length % 64) % 64

/-- What is appended to a message of this length. -/
def padding (length : Nat) : List UInt8 :=
  0x80 :: (List.replicate (zeros length) 0 ++ BigEndian.encode 8 (8 * length))

def digest (hash : Registers) : List UInt8 :=
  hash.words.flatMap fun word => BigEndian.encode 4 word.toNat

def sha256 (message : List UInt8) : List UInt8 :=
  digest (absorb .initial (message ++ padding message.length))

@[simp]
theorem length_digest (hash : Registers) : (digest hash).length = 32 := by
  simp [digest, Registers.words]

@[simp]
theorem length_sha256 (message : List UInt8) : (sha256 message).length = 32 :=
  length_digest _

/-! ## Absorbing in parts -/

theorem absorb_of_lt (hash : Registers) {bytes : List UInt8}
    (short : bytes.length < 64) : absorb hash bytes = hash := by
  rw [absorb, if_pos short]

@[simp]
theorem absorb_nil (hash : Registers) : absorb hash [] = hash :=
  absorb_of_lt hash (Nat.zero_lt_succ 63)

/-- A block in front is compressed first. -/
theorem absorb_block (hash : Registers) {block : List UInt8}
    (full : block.length = 64) (bytes : List UInt8) :
    absorb hash (block ++ bytes) = absorb (compress hash block) bytes := by
  rw [absorb, if_neg (by rw [List.length_append]; omega),
    List.take_left' full, List.drop_left' full]

/-- Whole blocks are absorbed before what follows them. -/
theorem absorb_append (hash : Registers) (front bytes : List UInt8)
    (whole : front.length % 64 = 0) :
    absorb hash (front ++ bytes) = absorb (absorb hash front) bytes := by
  induction count : front.length / 64 generalizing hash front with
  | zero =>
      have empty : front = [] := List.length_eq_zero_iff.mp (by omega)
      rw [empty, List.nil_append, absorb_nil]
  | succ count ih =>
      obtain ⟨block, rest, rfl, full⟩ :
          ∃ block rest, front = block ++ rest ∧ block.length = 64 :=
        ⟨front.take 64, front.drop 64, (List.take_append_drop 64 front).symm,
          by rw [List.length_take]; omega⟩
      rw [List.length_append] at whole count
      rw [List.append_assoc, absorb_block hash full, absorb_block hash full]
      exact ih _ rest (by omega) (by omega)

/-- A padded message consists of whole blocks. -/
theorem length_padding (length : Nat) :
    (length + (padding length).length) % 64 = 0 := by
  simp only [padding, zeros, List.length_cons, List.length_append,
    List.length_replicate, BigEndian.length_encode]
  omega

end YiimpStratum.Sha256
