import YiimpStratum.Library.Sha256

/-!
# SHA-256

The functions of `algos/sha256.c`.  The type `uint32` is an `unsigned long` of
64 bits there: the words are never reduced to 32 bits, except where they are
shifted to the right and where their bytes are written.
-/

namespace YiimpStratum.Algos

open YiimpStratum

/-! ## Words and bytes -/

/-- `uint32` -/
abbrev Uint32 := BitVec 64

/-- A byte as it is converted to a word. -/
def ofByte (byte : UInt8) : Uint32 :=
  byte.toBitVec.setWidth 64

/-- The conversion `(uint8)` -/
def toByte (n : Uint32) : UInt8 :=
  ⟨n.setWidth 8⟩

/-- `GET_UINT32` -/
def getUint32 (b : List UInt8) (i : Nat) : Uint32 :=
  ofByte (b.getD i 0) <<< 24 ||| ofByte (b.getD (i + 1) 0) <<< 16 |||
    ofByte (b.getD (i + 2) 0) <<< 8 ||| ofByte (b.getD (i + 3) 0)

/-- `PUT_UINT32` -/
def putUint32 (n : Uint32) : List UInt8 :=
  [toByte (n >>> 24), toByte (n >>> 16), toByte (n >>> 8), toByte n]

/-! ## A block -/

/-- `SHR` -/
def shr (x : Uint32) (n : Nat) : Uint32 :=
  (x &&& 0xFFFFFFFF) >>> n

/-- `ROTR` -/
def rotr (x : Uint32) (n : Nat) : Uint32 :=
  shr x n ||| x <<< (32 - n)

/-- `S0` -/
def s0 (x : Uint32) : Uint32 :=
  rotr x 7 ^^^ rotr x 18 ^^^ shr x 3

/-- `S1` -/
def s1 (x : Uint32) : Uint32 :=
  rotr x 17 ^^^ rotr x 19 ^^^ shr x 10

/-- `S2` -/
def s2 (x : Uint32) : Uint32 :=
  rotr x 2 ^^^ rotr x 13 ^^^ rotr x 22

/-- `S3` -/
def s3 (x : Uint32) : Uint32 :=
  rotr x 6 ^^^ rotr x 11 ^^^ rotr x 25

/-- `F0` -/
def f0 (x y z : Uint32) : Uint32 :=
  (x &&& y) ||| (z &&& (x ||| y))

/-- `F1` -/
def f1 (x y z : Uint32) : Uint32 :=
  z ^^^ (x &&& (y ^^^ z))

/-- The words `W`, of which `R(t)` stores the next one. -/
def extend (W : List Uint32) (t : Nat) : List Uint32 :=
  if t < 16 then W
  else
    W ++
      [s1 (W.getD (t - 2) 0) + W.getD (t - 7) 0 + s0 (W.getD (t - 15) 0) +
        W.getD (t - 16) 0]

/-- The variables `A` to `H`, and `state`. -/
structure Variables where
  A : Uint32
  B : Uint32
  C : Uint32
  D : Uint32
  E : Uint32
  F : Uint32
  G : Uint32
  H : Uint32

/-- `P`: what is stored into the variables `d` and `h`. -/
def p (a b c d e f g h x K : Uint32) : Uint32 × Uint32 :=
  let temp1 := h + s3 e + f1 e f g + K + x
  let temp2 := s2 a + f0 a b c
  (d + temp1, temp1 + temp2)

/-- The constants in the order of the calls of `P`. -/
def Ks : List Uint32 :=
  [0x428A2F98, 0x71374491, 0xB5C0FBCF, 0xE9B5DBA5,
    0x3956C25B, 0x59F111F1, 0x923F82A4, 0xAB1C5ED5,
    0xD807AA98, 0x12835B01, 0x243185BE, 0x550C7DC3,
    0x72BE5D74, 0x80DEB1FE, 0x9BDC06A7, 0xC19BF174,
    0xE49B69C1, 0xEFBE4786, 0x0FC19DC6, 0x240CA1CC,
    0x2DE92C6F, 0x4A7484AA, 0x5CB0A9DC, 0x76F988DA,
    0x983E5152, 0xA831C66D, 0xB00327C8, 0xBF597FC7,
    0xC6E00BF3, 0xD5A79147, 0x06CA6351, 0x14292967,
    0x27B70A85, 0x2E1B2138, 0x4D2C6DFC, 0x53380D13,
    0x650A7354, 0x766A0ABB, 0x81C2C92E, 0x92722C85,
    0xA2BFE8A1, 0xA81A664B, 0xC24B8B70, 0xC76C51A3,
    0xD192E819, 0xD6990624, 0xF40E3585, 0x106AA070,
    0x19A4C116, 0x1E376C08, 0x2748774C, 0x34B0BCB5,
    0x391C0CB3, 0x4ED8AA4A, 0x5B9CCA4F, 0x682E6FF3,
    0x748F82EE, 0x78A5636F, 0x84C87814, 0x8CC70208,
    0x90BEFFFA, 0xA4506CEB, 0xBEF9A3F7, 0xC67178F2]

def K (t : Nat) : Uint32 :=
  Ks.getD t 0

/-- The eight patterns in which the variables are handed to `P`, in turn. -/
def callP (t : Nat) (v : Variables) (x : Uint32) : Variables :=
  match t % 8 with
  | 0 =>
      let r := p v.A v.B v.C v.D v.E v.F v.G v.H x (K t)
      { v with D := r.1, H := r.2 }
  | 1 =>
      let r := p v.H v.A v.B v.C v.D v.E v.F v.G x (K t)
      { v with C := r.1, G := r.2 }
  | 2 =>
      let r := p v.G v.H v.A v.B v.C v.D v.E v.F x (K t)
      { v with B := r.1, F := r.2 }
  | 3 =>
      let r := p v.F v.G v.H v.A v.B v.C v.D v.E x (K t)
      { v with A := r.1, E := r.2 }
  | 4 =>
      let r := p v.E v.F v.G v.H v.A v.B v.C v.D x (K t)
      { v with H := r.1, D := r.2 }
  | 5 =>
      let r := p v.D v.E v.F v.G v.H v.A v.B v.C x (K t)
      { v with G := r.1, C := r.2 }
  | 6 =>
      let r := p v.C v.D v.E v.F v.G v.H v.A v.B x (K t)
      { v with F := r.1, B := r.2 }
  | _ =>
      let r := p v.B v.C v.D v.E v.F v.G v.H v.A x (K t)
      { v with E := r.1, A := r.2 }

/-- So many calls of `P`. -/
def calls (W : List Uint32) (v : Variables) : Nat → List Uint32 × Variables
  | 0 => (W, v)
  | t + 1 =>
      let (W, v) := calls W v t
      let W := extend W t
      (W, callP t v (W.getD t 0))

def sha256Process (state : Variables) (data : List UInt8) : Variables :=
  let W := (List.range 16).map fun t => getUint32 data (4 * t)
  let v := (calls W state 64).2
  { A := state.A + v.A
    B := state.B + v.B
    C := state.C + v.C
    D := state.D + v.D
    E := state.E + v.E
    F := state.F + v.F
    G := state.G + v.G
    H := state.H + v.H }

/-! ## A message -/

/-- `sha256_context` -/
structure Sha256Context where
  total0 : Uint32
  total1 : Uint32
  state : Variables
  buffer : List UInt8

/-- A context on the stack: the buffer is not set. -/
def sha256Starts (buffer : List UInt8) : Sha256Context where
  total0 := 0
  total1 := 0
  state :=
    { A := 0x6A09E667
      B := 0xBB67AE85
      C := 0x3C6EF372
      D := 0xA54FF53A
      E := 0x510E527F
      F := 0x9B05688C
      G := 0x1F83D9AB
      H := 0x5BE0CD19 }
  buffer := buffer

/-- `memcpy` into an array; behind its end the array grows. -/
def memcpy (array : List UInt8) (offset : Nat) (bytes : List UInt8) :
    List UInt8 :=
  array.take offset ++ bytes ++ array.drop (offset + bytes.length)

/-- The loop over the blocks of the input, and the bytes behind them. -/
def processBlocks (ctx : Sha256Context) (left : Nat) (input : List UInt8) :
    Sha256Context :=
  if 64 ≤ input.length then
    processBlocks
      { ctx with state := sha256Process ctx.state (input.take 64) } left
      (input.drop 64)
  else if input = [] then ctx
  else { ctx with buffer := memcpy ctx.buffer left input }
termination_by input.length
decreasing_by
  rw [List.length_drop]
  omega

def sha256Update (ctx : Sha256Context) (input : List UInt8) : Sha256Context :=
  let length : Uint32 := BitVec.ofNat 64 input.length
  if length = 0 then ctx
  else
    let left := (ctx.total0 &&& 0x3F).toNat
    let fill := 64 - left
    let total0 := (ctx.total0 + length) &&& 0xFFFFFFFF
    let total1 := if total0 < length then ctx.total1 + 1 else ctx.total1
    let ctx := { ctx with total0 := total0, total1 := total1 }
    if left ≠ 0 ∧ fill ≤ input.length then
      let buffer := memcpy ctx.buffer left (input.take fill)
      processBlocks
        { ctx with state := sha256Process ctx.state buffer, buffer := buffer } 0
        (input.drop fill)
    else processBlocks ctx left input

/-- `sha256_padding` -/
def sha256Padding : List UInt8 :=
  0x80 :: List.replicate 63 0

def sha256Finish (ctx : Sha256Context) : List UInt8 :=
  let high := ctx.total0 >>> 29 ||| ctx.total1 <<< 3
  let low := ctx.total0 <<< 3
  let msglen := putUint32 high ++ putUint32 low
  let last := (ctx.total0 &&& 0x3F).toNat
  let padn := if last < 56 then 56 - last else 120 - last
  let ctx := sha256Update ctx (sha256Padding.take padn)
  let ctx := sha256Update ctx msglen
  putUint32 ctx.state.A ++ putUint32 ctx.state.B ++ putUint32 ctx.state.C ++
    putUint32 ctx.state.D ++ putUint32 ctx.state.E ++ putUint32 ctx.state.F ++
    putUint32 ctx.state.G ++ putUint32 ctx.state.H

/-- The bytes in front of a terminator. -/
def stringBytes (memory : List UInt8) : List UInt8 :=
  memory.takeWhile (· ≠ 0)

/-- The bytes from `input` on; a length of zero stands for that of a string. -/
def hashed (memory : List UInt8) (len : Nat) : List UInt8 :=
  if len = 0 then stringBytes memory else memory.take len

/-- `sha256_hash`, with what the stack holds in place of the buffer. -/
def sha256Hash (stack memory : List UInt8) (len : Nat) : List UInt8 :=
  sha256Finish (sha256Update (sha256Starts stack) (hashed memory len))

def sha256DoubleHash (stack stack' memory : List UInt8) (len : Nat) :
    List UInt8 :=
  sha256Hash stack' (sha256Hash stack memory len) 32

end YiimpStratum.Algos
