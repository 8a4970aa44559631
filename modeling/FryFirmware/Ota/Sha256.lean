import FryFirmware.Lib.Memory
import Mathlib.Data.List.Basic
import Mathlib.Tactic.Common

/-!
# The streaming hash

`lib/fry_core/sha256.cpp`: the working variables, the 64-byte buffer that
`update` fills and `finish` pads, and the hexadecimal digest. `sha256` is the
hash of a whole message as FIPS 180-4 defines it, over the same compression
function; `Sha256Properties` compares the two.
-/

set_option autoImplicit false

namespace FryFirmware.Ota

open Lib

/-! ## Compression -/

def rotr (x n : UInt32) : UInt32 := (x >>> n) ||| (x <<< (32 - n))
def ch (x y z : UInt32) : UInt32 := (x &&& y) ^^^ (~~~x &&& z)
def maj (x y z : UInt32) : UInt32 := (x &&& y) ^^^ (x &&& z) ^^^ (y &&& z)
def ep0 (x : UInt32) : UInt32 := rotr x 2 ^^^ rotr x 13 ^^^ rotr x 22
def ep1 (x : UInt32) : UInt32 := rotr x 6 ^^^ rotr x 11 ^^^ rotr x 25
def sig0 (x : UInt32) : UInt32 := rotr x 7 ^^^ rotr x 18 ^^^ (x >>> 3)
def sig1 (x : UInt32) : UInt32 := rotr x 17 ^^^ rotr x 19 ^^^ (x >>> 10)

def kK : List UInt32 := [
  0x428a2f98, 0x71374491, 0xb5c0fbcf, 0xe9b5dba5, 0x3956c25b, 0x59f111f1, 0x923f82a4, 0xab1c5ed5,
  0xd807aa98, 0x12835b01, 0x243185be, 0x550c7dc3, 0x72be5d74, 0x80deb1fe, 0x9bdc06a7, 0xc19bf174,
  0xe49b69c1, 0xefbe4786, 0x0fc19dc6, 0x240ca1cc, 0x2de92c6f, 0x4a7484aa, 0x5cb0a9dc, 0x76f988da,
  0x983e5152, 0xa831c66d, 0xb00327c8, 0xbf597fc7, 0xc6e00bf3, 0xd5a79147, 0x06ca6351, 0x14292967,
  0x27b70a85, 0x2e1b2138, 0x4d2c6dfc, 0x53380d13, 0x650a7354, 0x766a0abb, 0x81c2c92e, 0x92722c85,
  0xa2bfe8a1, 0xa81a664b, 0xc24b8b70, 0xc76c51a3, 0xd192e819, 0xd6990624, 0xf40e3585, 0x106aa070,
  0x19a4c116, 0x1e376c08, 0x2748774c, 0x34b0bcb5, 0x391c0cb3, 0x4ed8aa4a, 0x5b9cca4f, 0x682e6ff3,
  0x748f82ee, 0x78a5636f, 0x84c87814, 0x8cc70208, 0x90befffa, 0xa4506ceb, 0xbef9a3f7, 0xc67178f2]

/-- The eight words of `_state`, and the working variables of `transform`. -/
structure Words where
  a : UInt32
  b : UInt32
  c : UInt32
  d : UInt32
  e : UInt32
  f : UInt32
  g : UInt32
  h : UInt32
  deriving DecidableEq, Repr

def initialWords : Words :=
  ⟨0x6a09e667, 0xbb67ae85, 0x3c6ef372, 0xa54ff53a, 0x510e527f, 0x9b05688c, 0x1f83d9ab, 0x5be0cd19⟩

def Words.toList (w : Words) : List UInt32 := [w.a, w.b, w.c, w.d, w.e, w.f, w.g, w.h]

/-- The word `m[i]` of a block, `j = 4 * i`. -/
def blockWord (block : List UInt8) (j : Nat) : UInt32 :=
  ((block.getD j 0).toUInt32 <<< 24) ||| ((block.getD (j + 1) 0).toUInt32 <<< 16) |||
    ((block.getD (j + 2) 0).toUInt32 <<< 8) ||| (block.getD (j + 3) 0).toUInt32

def extend (m : List UInt32) (i : Nat) : List UInt32 :=
  m ++ [sig1 (m.getD (i - 2) 0) + m.getD (i - 7) 0 + sig0 (m.getD (i - 15) 0) + m.getD (i - 16) 0]

/-- The array `m` of `transform`. -/
def schedule (block : List UInt8) : List UInt32 :=
  (List.range' 16 48).foldl extend ((List.range 16).map fun i => blockWord block (4 * i))

def round (m : List UInt32) (w : Words) (i : Nat) : Words :=
  let t1 := w.h + ep1 w.e + ch w.e w.f w.g + kK.getD i 0 + m.getD i 0
  let t2 := ep0 w.a + maj w.a w.b w.c
  ⟨t1 + t2, w.a, w.b, w.c, w.d + t1, w.e, w.f, w.g⟩

def Words.add (w v : Words) : Words :=
  ⟨w.a + v.a, w.b + v.b, w.c + v.c, w.d + v.d, w.e + v.e, w.f + v.f, w.g + v.g, w.h + v.h⟩

def transform (state : Words) (block : List UInt8) : Words :=
  state.add ((List.range 64).foldl (round (schedule block)) state)

/-- The digest bytes of the eight words, most significant first. -/
def digestBytes (state : Words) : List UInt8 :=
  state.toList.flatMap fun w => (List.range 4).map fun i => (w >>> UInt32.ofNat (24 - i * 8)).toUInt8

/-! ## Streaming -/

structure Sha256 where
  state : Words := initialWords
  buffer : Memory UInt8 64 := Memory.filled 64 0
  bufferLen : Nat := 0
  bitLen : UInt64 := 0
  deriving DecidableEq

/-- One turn of the loop of `update`. -/
def Sha256.updateByte (s : Sha256) (byte : UInt8) : Sha256 :=
  let buffer := s.buffer.store s.bufferLen [byte]
  if s.bufferLen + 1 = 64 then
    { state := transform s.state buffer.cells
      buffer := buffer
      bufferLen := 0
      bitLen := s.bitLen + 512 }
  else { s with buffer := buffer, bufferLen := s.bufferLen + 1 }

def Sha256.update (s : Sha256) (data : List UInt8) : Sha256 := data.foldl Sha256.updateByte s

/-- The bytes of `_bitLen`, most significant first. -/
def lengthBytes (bitLen : UInt64) : List UInt8 :=
  (List.range 8).map fun j => (bitLen >>> UInt64.ofNat (8 * (7 - j))).toUInt8

/-- `finish`: `0x80`, zeros up to the length field or, where it no longer fits, up
to the end of a block of their own, then the length. -/
def Sha256.finish (s : Sha256) : List UInt8 :=
  let marked := s.buffer.store s.bufferLen [0x80]
  let i := s.bufferLen + 1
  let bitLen := s.bitLen + UInt64.ofNat s.bufferLen * 8
  if s.bufferLen < 56 then
    let padded := marked.store i (List.replicate (56 - i) 0)
    digestBytes (transform s.state (padded.store 56 (lengthBytes bitLen)).cells)
  else
    let padded := marked.store i (List.replicate (64 - i) 0)
    let state := transform s.state padded.cells
    let cleared := padded.store 0 (List.replicate 56 0)
    digestBytes (transform state (cleared.store 56 (lengthBytes bitLen)).cells)

def Sha256.hash (data : List UInt8) : List UInt8 := (({} : Sha256).update data).finish

/-! ## The hash of a message -/

/-- The padded message: `0x80`, the least number of zeros that leaves room for the
length in a whole number of blocks, the length in bits. -/
def pad (message : List UInt8) : List UInt8 :=
  message ++ [0x80] ++ List.replicate ((119 - message.length % 64) % 64) 0 ++
    lengthBytes (UInt64.ofNat (message.length * 8))

def blocks (data : List UInt8) : List (List UInt8) :=
  (List.range (data.length / 64)).map fun i => (data.drop (64 * i)).take 64

def sha256 (message : List UInt8) : List UInt8 :=
  digestBytes ((blocks (pad message)).foldl transform initialWords)

/-! ## Hexadecimal -/

def kHex : List UInt8 := [48, 49, 50, 51, 52, 53, 54, 55, 56, 57, 65, 66, 67, 68, 69, 70]

def hexDigits (data : List UInt8) : List UInt8 :=
  data.flatMap fun byte : UInt8 =>
    [kHex.getD (byte >>> 4 &&& 0x0f).toNat 0, kHex.getD (byte &&& 0x0f).toNat 0]

/-- `bytesToHexUpper` into a buffer of `outLen` bytes: what it writes, NUL included. -/
def bytesToHexUpper (data : List UInt8) (outLen : Nat) : List UInt8 :=
  if outLen < data.length * 2 + 1 then (if outLen > 0 then [0] else [])
  else hexDigits data ++ [0]

example : sha256 [0x61, 0x62, 0x63] =
    [0xba, 0x78, 0x16, 0xbf, 0x8f, 0x01, 0xcf, 0xea, 0x41, 0x41, 0x40, 0xde, 0x5d, 0xae, 0x22, 0x23,
      0xb0, 0x03, 0x61, 0xa3, 0x96, 0x17, 0x7a, 0x9c, 0xb4, 0x10, 0xff, 0x61, 0xf2, 0x00, 0x15, 0xad] := by
  decide +kernel

end FryFirmware.Ota
