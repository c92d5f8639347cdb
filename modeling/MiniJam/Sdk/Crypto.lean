import MiniJam.Lib.Scale
import Mathlib.Data.Fin.VecNotation

/-!
# `MiniJam.Sdk.Crypto`: the hash function of the SDK

The C functions of `service-toolchain/sdk/src/crypto.c`. Each definition follows the function
of the same name. A table and a block that is only read are functions on their indices. An
array that a function writes to is a vector, its argument and its result.
-/

set_option autoImplicit false

namespace MiniJam.Sdk

/-- `IV`. -/
def IV : Fin 8 → UInt64 :=
  ![0x6a09e667f3bcc908, 0xbb67ae8584caa73b,
    0x3c6ef372fe94f82b, 0xa54ff53a5f1d36f1,
    0x510e527fade682d1, 0x9b05688c2b3e6c1f,
    0x1f83d9abfb41bd6b, 0x5be0cd19137e2179]

/-- `SIGMA`: a row for each of the twelve rounds. -/
def SIGMA : Fin 12 → Fin 16 → Fin 16 :=
  ![![0, 1, 2, 3, 4, 5, 6, 7, 8, 9, 10, 11, 12, 13, 14, 15],
    ![14, 10, 4, 8, 9, 15, 13, 6, 1, 12, 0, 2, 11, 7, 5, 3],
    ![11, 8, 12, 0, 5, 2, 15, 13, 10, 14, 3, 6, 7, 1, 9, 4],
    ![7, 9, 3, 1, 13, 12, 11, 14, 2, 6, 5, 10, 4, 0, 15, 8],
    ![9, 0, 5, 7, 2, 4, 10, 15, 14, 1, 11, 12, 6, 8, 3, 13],
    ![2, 12, 6, 10, 0, 11, 8, 3, 4, 13, 7, 5, 15, 14, 1, 9],
    ![12, 5, 1, 15, 14, 13, 4, 10, 0, 7, 6, 3, 9, 2, 8, 11],
    ![13, 11, 7, 14, 12, 1, 3, 9, 5, 0, 15, 4, 8, 6, 2, 10],
    ![6, 15, 14, 9, 11, 3, 0, 8, 12, 2, 13, 7, 1, 4, 10, 5],
    ![10, 2, 8, 4, 7, 6, 1, 5, 15, 11, 9, 14, 3, 12, 13, 0],
    ![0, 1, 2, 3, 4, 5, 6, 7, 8, 9, 10, 11, 12, 13, 14, 15],
    ![14, 10, 4, 8, 9, 15, 13, 6, 1, 12, 0, 2, 11, 7, 5, 3]]

/-- `load64`. -/
def load64 (p : Fin 8 → UInt8) : UInt64 :=
  (List.finRange 8).foldl
    (fun value i => value ||| (p i).toUInt64 <<< UInt64.ofNat (8 * i.val)) 0

/-- `rotr64`. -/
def rotr64 (value : UInt64) (shift : Nat) : UInt64 :=
  value >>> UInt64.ofNat shift ||| value <<< UInt64.ofNat (64 - shift)

/-- The macro `G` on the places `a`, `b`, `c` and `d` of the array `v`. -/
def G (a b c d : Fin 16) (x y : UInt64) (v : Vector UInt64 16) : Vector UInt64 16 :=
  let v := v.set a (v[a] + v[b] + x)
  let v := v.set d (rotr64 (v[d] ^^^ v[a]) 32)
  let v := v.set c (v[c] + v[d])
  let v := v.set b (rotr64 (v[b] ^^^ v[c]) 24)
  let v := v.set a (v[a] + v[b] + y)
  let v := v.set d (rotr64 (v[d] ^^^ v[a]) 16)
  let v := v.set c (v[c] + v[d])
  v.set b (rotr64 (v[b] ^^^ v[c]) 63)

/-- The body of the loop over the rounds, with the row `s` of `SIGMA`. -/
def compressRound (m : Vector UInt64 16) (s : Fin 16 → Fin 16) (v : Vector UInt64 16) :
    Vector UInt64 16 :=
  let v := G 0 4 8 12 m[s 0] m[s 1] v
  let v := G 1 5 9 13 m[s 2] m[s 3] v
  let v := G 2 6 10 14 m[s 4] m[s 5] v
  let v := G 3 7 11 15 m[s 6] m[s 7] v
  let v := G 0 5 10 15 m[s 8] m[s 9] v
  let v := G 1 6 11 12 m[s 10] m[s 11] v
  let v := G 2 7 8 13 m[s 12] m[s 13] v
  G 3 4 9 14 m[s 14] m[s 15] v

/-- The array `v` of `compress` before the rounds. -/
def compressStart (h : Vector UInt64 8) (count : UInt64) (last : Bool) : Vector UInt64 16 :=
  let v := Vector.ofFn fun i : Fin 16 =>
    if hi : i.val < 8 then h[i.val] else IV ⟨i.val - 8, by omega⟩
  let v := v.set 12 (v[12] ^^^ count)
  if last then v.set 14 (~~~ v[14]) else v

/-- `compress`. -/
def compress (h : Vector UInt64 8) (block : Fin 128 → UInt8) (count : UInt64) (last : Bool) :
    Vector UInt64 8 :=
  let m := Vector.ofFn fun i : Fin 16 => load64 fun j => block ⟨i.val * 8 + j.val, by omega⟩
  let v := (List.finRange 12).foldl (fun v r => compressRound m (SIGMA r) v)
    (compressStart h count last)
  Vector.ofFn fun i : Fin 8 => h[i] ^^^ (v[i.val] ^^^ v[i.val + 8])

/-- The loop of `minijam_blake2b_256` over the blocks before the last one: the state, the bytes
that are left, and the count it ends with. -/
def absorbBlocks (h : Vector UInt64 8) (bytes : Bytes) (count : UInt64) :
    Vector UInt64 8 × Bytes × UInt64 :=
  if hlong : bytes.length > 128 then
    absorbBlocks (compress h (fun i => bytes.get ⟨i.val, by omega⟩) (count + 128) false)
      (bytes.drop 128) (count + 128)
  else (h, bytes, count)
termination_by bytes.length
decreasing_by
  rw [List.length_drop]
  omega

/-- The block that is zeroed and then filled with the bytes that are left. -/
def lastBlock (bytes : Bytes) (i : Fin 128) : UInt8 :=
  if hi : i.val < bytes.length then bytes.get ⟨i.val, hi⟩ else 0

/-- The state before the first block. -/
def initialState : Vector UInt64 8 := (Vector.ofFn IV).set 0 (IV 0 ^^^ 0x01010020)

/-- The loop of `minijam_blake2b_256` that fills `output` from the state. -/
def outputBytes (h : Vector UInt64 8) : Bytes :=
  List.ofFn fun i : Fin 32 => (h[i.val / 8] >>> UInt64.ofNat (8 * (i.val % 8))).toUInt8

/-- `minijam_blake2b_256`: the 32 bytes of `output`. -/
def minijamBlake2b256 (input : Bytes) : Bytes :=
  let rest := absorbBlocks initialState input 0
  let h := compress rest.1 (lastBlock rest.2.1) (rest.2.2 + UInt64.ofNat rest.2.1.length) true
  outputBytes h

end MiniJam.Sdk
