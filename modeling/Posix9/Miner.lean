import Posix9.Environment

/-! rustchain_miner_posix9.c: sha256 and sha256_hex. A size_t and an unsigned long have 32 bits; `data` holds
    the bytes there are, and an array that is written to is a memory. -/

namespace Posix9.Miner

open Memory

abbrev UChar := BitVec 8
abbrev ULong := BitVec 32

def sha256_k : Vector ULong 64 := #v[
  0x428a2f98, 0x71374491, 0xb5c0fbcf, 0xe9b5dba5, 0x3956c25b, 0x59f111f1,
  0x923f82a4, 0xab1c5ed5, 0xd807aa98, 0x12835b01, 0x243185be, 0x550c7dc3,
  0x72be5d74, 0x80deb1fe, 0x9bdc06a7, 0xc19bf174, 0xe49b69c1, 0xefbe4786,
  0x0fc19dc6, 0x240ca1cc, 0x2de92c6f, 0x4a7484aa, 0x5cb0a9dc, 0x76f988da,
  0x983e5152, 0xa831c66d, 0xb00327c8, 0xbf597fc7, 0xc6e00bf3, 0xd5a79147,
  0x06ca6351, 0x14292967, 0x27b70a85, 0x2e1b2138, 0x4d2c6dfc, 0x53380d13,
  0x650a7354, 0x766a0abb, 0x81c2c92e, 0x92722c85, 0xa2bfe8a1, 0xa81a664b,
  0xc24b8b70, 0xc76c51a3, 0xd192e819, 0xd6990624, 0xf40e3585, 0x106aa070,
  0x19a4c116, 0x1e376c08, 0x2748774c, 0x34b0bcb5, 0x391c0cb3, 0x4ed8aa4a,
  0x5b9cca4f, 0x682e6ff3, 0x748f82ee, 0x78a5636f, 0x84c87814, 0x8cc70208,
  0x90befffa, 0xa4506ceb, 0xbef9a3f7, 0xc67178f2]

def ROTR (x : ULong) (n : ℕ) : ULong := x >>> n ||| x <<< (32 - n)
def CH (x y z : ULong) : ULong := (x &&& y) ^^^ (~~~x &&& z)
def MAJ (x y z : ULong) : ULong := (x &&& y) ^^^ (x &&& z) ^^^ (y &&& z)
def EP0 (x : ULong) : ULong := ROTR x 2 ^^^ ROTR x 13 ^^^ ROTR x 22
def EP1 (x : ULong) : ULong := ROTR x 6 ^^^ ROTR x 11 ^^^ ROTR x 25
def SIG0 (x : ULong) : ULong := ROTR x 7 ^^^ ROTR x 18 ^^^ x >>> 3
def SIG1 (x : ULong) : ULong := ROTR x 17 ^^^ ROTR x 19 ^^^ x >>> 10

/-! ### sha256 -/

def padded_len (len : ULong) : ULong := (len + 9 + 63) / 64 * 64

/-- What `block` gets at the position `pos` of the padded data. -/
def paddedByte (data : List UChar) (len pos : ULong) : UChar :=
  if pos < len then data.getD pos.toNat 0
  else if pos = len then 0x80
  else if pos ≥ padded_len len - 8 then
    let bit_pos := pos - (padded_len len - 8)
    let bit_len : BitVec 64 := len.setWidth 64 * 8
    (bit_len >>> (56 - bit_pos * 8) &&& 0xff).setWidth 8
  else 0

/-- The first loop over a block. -/
def fillBlock (data : List UChar) (len block_idx : ULong) : Vector UChar 64 :=
  Vector.ofFn fun i => paddedByte data len (block_idx * 64 + BitVec.ofNat 32 i)

def blockWord (block : Vector UChar 64) (i : ℕ) : ULong :=
  block[i * 4]!.setWidth 32 <<< 24 ||| block[i * 4 + 1]!.setWidth 32 <<< 16 |||
    block[i * 4 + 2]!.setWidth 32 <<< 8 ||| block[i * 4 + 3]!.setWidth 32

/-- `w`, after the loop to 16 and the loop to 64. -/
def schedule (block : Vector UChar 64) : Vector ULong 64 :=
  let w := (List.range 16).foldl (fun w i => w.setIfInBounds i (blockWord block i)) (Vector.replicate 64 0)
  (List.range' 16 48).foldl (fun w i =>
    w.setIfInBounds i (SIG1 w[i - 2]! + w[i - 7]! + SIG0 w[i - 15]! + w[i - 16]!)) w

structure Working where
  a : ULong
  b : ULong
  c : ULong
  d : ULong
  e : ULong
  f : ULong
  g : ULong
  hh : ULong

def round (w : Vector ULong 64) (v : Working) (i : ℕ) : Working :=
  let t1 := v.hh + EP1 v.e + CH v.e v.f v.g + sha256_k[i]! + w[i]!
  let t2 := EP0 v.a + MAJ v.a v.b v.c
  { hh := v.g, g := v.f, f := v.e, e := v.d + t1, d := v.c, c := v.b, b := v.a, a := t1 + t2 }

/-- One round of the block loop. -/
def hashBlock (data : List UChar) (len : ULong) (h : Vector ULong 8) (block_idx : ℕ) : Vector ULong 8 :=
  let w := schedule (fillBlock data len (BitVec.ofNat 32 block_idx))
  let v := (List.range 64).foldl (round w) ⟨h[0], h[1], h[2], h[3], h[4], h[5], h[6], h[7]⟩
  #v[h[0] + v.a, h[1] + v.b, h[2] + v.c, h[3] + v.d, h[4] + v.e, h[5] + v.f, h[6] + v.g, h[7] + v.hh]

/-- `h` behind the block loop. -/
def blockLoop (data : List UChar) (len : ULong) : Vector ULong 8 :=
  (List.range (padded_len len / 64).toNat).foldl (hashBlock data len)
    #v[0x6a09e667, 0xbb67ae85, 0x3c6ef372, 0xa54ff53a, 0x510e527f, 0x9b05688c, 0x1f83d9ab, 0x5be0cd19]

/-- The four bytes of `h[i]` in `out`. -/
def wordBytes (x : ULong) : List UChar :=
  [(x >>> 24 &&& 0xff).setWidth 8, (x >>> 16 &&& 0xff).setWidth 8, (x >>> 8 &&& 0xff).setWidth 8,
    (x &&& 0xff).setWidth 8]

/-- `out`, after the call. -/
def sha256 (data : List UChar) (len : ULong) (out : ℕ → UChar) : ℕ → UChar :=
  let h := blockLoop data len
  (List.range 8).foldl (fun out i => write out (i * 4) (wordBytes h[i]!)) out

/-! ### sha256_hex -/

def hex : CStr := "0123456789abcdef".toList

def sha256_hex (data : List UChar) (len : ULong) (out : ℕ → Char) : ℕ → Char :=
  let hash := sha256 data len fun _ => 0
  let out := (List.range 32).foldl (fun out i => write out (i * 2)
    [hex.getD (hash i >>> 4 &&& 0xf).toNat NUL, hex.getD (hash i &&& 0xf).toNat NUL]) out
  write out 64 [NUL]

end Posix9.Miner
