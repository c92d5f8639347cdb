import MiniJam.Sdk.Crypto
import MiniJam.Lib.Blake2
import Mathlib.Data.List.OfFn

/-!
# `MiniJam.Proofs.SdkCrypto`: the hash of the SDK is BLAKE2b

`compress_eq` compares the compression function of `crypto.c` with that of the specification,
assignment by assignment: the words of the C arrays, read as bit vectors, go through the same
values. `absorbBlocks_eq` follows the loop over the blocks: what is left to take in after each
turn is what the specification has left. `sdk_hash_is_blake2b` is the result for data of every
length.
-/

set_option autoImplicit false

namespace MiniJam.Sdk

open Scale Blake2

/-- The words of a C array as the specification has them. -/
def bits {n : Nat} (v : Vector UInt64 n) : Vector (BitVec 64) n := v.map UInt64.toBitVec

variable {n : Nat} {bytes : Bytes}

theorem bits_set (v : Vector UInt64 n) (i : Nat) (x : UInt64) (hi : i < n) :
    bits (v.set i x) = (bits v).set i x.toBitVec := Vector.map_set

/-- A word as bits. -/
theorem bits_get (v : Vector UInt64 n) (i : Nat) (hi : i < n) :
    (bits v)[i] = v[i].toBitVec := Vector.getElem_map _ _

theorem bits_ofFn (f : Fin n → UInt64) :
    bits (Vector.ofFn f) = Vector.ofFn fun i => (f i).toBitVec := by
  ext i hi
  simp [bits]

/-! ### The compression function -/

/-- The rotation by shifts is a rotation. -/
theorem rotr64_eq (value : UInt64) {shift : Nat} (hpos : 0 < shift) (hlt : shift < 64) :
    (rotr64 value shift).toBitVec = value.toBitVec.rotateRight shift := by
  unfold rotr64
  rw [BitVec.rotateRight_def, UInt64.toBitVec_or, UInt64.toBitVec_shiftRight,
    UInt64.toBitVec_shiftLeft, BitVec.ushiftRight_eq', BitVec.shiftLeft_eq']
  congr 2
  · simp [BitVec.toNat_umod]
  · simp [BitVec.toNat_umod]
    omega

/-- The mixing of the SDK is the mixing of the hash. -/
theorem G_eq (a b c d : Fin 16) (x y : UInt64) (v : Vector UInt64 16) :
    bits (G a b c d x y v) = mix blake2b a b c d x.toBitVec y.toBitVec (bits v) := by
  have h32 (value : UInt64) := rotr64_eq value (by decide : 0 < 32) (by decide)
  have h24 (value : UInt64) := rotr64_eq value (by decide : 0 < 24) (by decide)
  have h16 (value : UInt64) := rotr64_eq value (by decide : 0 < 16) (by decide)
  have h63 (value : UInt64) := rotr64_eq value (by decide : 0 < 63) (by decide)
  unfold G mix
  simp only [bits_set, Fin.getElem_fin, UInt64.toBitVec_add, h32, h24, h16, h63,
    UInt64.toBitVec_xor, ← bits_get, blake2b]

/-- One round of the compression. -/
theorem compressRound_eq (m : Vector UInt64 16) (s : Fin 16 → Fin 16) (v : Vector UInt64 16) :
    bits (compressRound m s v) = Blake2.round blake2b (bits m) s (bits v) := by
  unfold compressRound Blake2.round
  simp only [G_eq, Fin.getElem_fin, ← bits_get]

theorem iv_eq (i : Fin 8) : (IV i).toBitVec = blake2b.iv i := by
  revert i
  decide

theorem ofNat_toNat (x : UInt64) : BitVec.ofNat 64 x.toNat = x.toBitVec := by
  rw [← UInt64.toNat_toBitVec, BitVec.ofNat_toNat, BitVec.setWidth_eq]

theorem compressStart_eq (h : Vector UInt64 8) (count : UInt64) (last : Bool) :
    bits (compressStart h count last) = start blake2b (bits h) count.toNat last := by
  -- The count is below `2 ^ 64`, so its upper word is zero and the C code leaves it out.
  have hupper : count.toNat / 2 ^ 64 = 0 := Nat.div_eq_of_lt count.toNat_lt
  have hwords : bits (Vector.ofFn fun i : Fin 16 =>
        if hi : i.val < 8 then h[i.val] else IV ⟨i.val - 8, by omega⟩) =
      Vector.ofFn fun i : Fin blockWords =>
        if hi : i.val < stateWords then (bits h)[i.val]
        else blake2b.iv ⟨i.val - stateWords,
          Nat.sub_lt_left_of_lt_add (Nat.le_of_not_lt hi) i.isLt⟩ := by
    rw [bits_ofFn]
    congr 1
    funext i
    split
    · exact (bits_get h i.val _).symm
    · exact iv_eq _
  unfold compressStart start
  simp only [← hwords, hupper, ofNat_toNat, BitVec.xor_zero, Vector.set_getElem_self,
    BitVec.xor_allOnes]
  split
  · simp only [bits_set, UInt64.toBitVec_xor, UInt64.toBitVec_not, ← bits_get]
  · simp only [bits_set, UInt64.toBitVec_xor, ← bits_get]

/-- The rows of the rounds after the tenth are those of the first two. -/
theorem sigma_eq (r : Fin 12) : SIGMA r = schedule r.val := by
  revert r
  decide +kernel

theorem load64_eq (p : Fin 8 → UInt8) :
    (load64 p).toBitVec = BitVec.ofNat 64 (leVal (List.ofFn p)) := by
  have hloop : load64 p = UInt64.orBytes 0 (List.ofFn p) 0 := by
    simp [load64, List.finRange_succ, List.ofFn_succ, UInt64.orBytes]
  have hvalue : (load64 p).toNat = leVal (List.ofFn p) := by
    rw [hloop, UInt64.toNat_orBytes (by decide) (by simp)]
    simp
  rw [← hvalue, ofNat_toNat]

/-- A part of an array, as a list. -/
theorem take_drop_ofFn (f : Fin n → UInt8) {k m : Nat} (hm : k + m ≤ n) :
    ((List.ofFn f).drop k).take m = List.ofFn fun j : Fin m => f ⟨k + j.val, by omega⟩ := by
  apply List.ext_getElem
  · simp only [List.length_take, List.length_drop, List.length_ofFn]
    omega
  · intro j hj hj'
    simp only [List.getElem_take, List.getElem_drop, List.getElem_ofFn]

theorem compress_eq (h : Vector UInt64 8) (block : Fin 128 → UInt8) (count : UInt64)
    (last : Bool) :
    bits (compress h block count last) =
      Blake2.compress blake2b (bits h) (words 64 (List.ofFn block)) count.toNat last := by
  have hwords : bits (Vector.ofFn fun i : Fin 16 =>
        load64 fun j => block ⟨i.val * 8 + j.val, by omega⟩) = words 64 (List.ofFn block) := by
    rw [bits_ofFn]
    unfold words
    congr 1
    funext i
    have hi : i.val < 16 := i.isLt
    rw [load64_eq, take_drop_ofFn block (by omega)]
  have hrounds (m v : Vector UInt64 16) :
      (List.range 12).foldl (fun v r => Blake2.round blake2b (bits m) (schedule r) v) (bits v) =
        bits ((List.finRange 12).foldl (fun v r => compressRound m (SIGMA r) v) v) := by
    rw [show List.range 12 = (List.finRange 12).map Fin.val by decide, List.foldl_map]
    refine List.foldl_hom bits fun v r => ?_
    rw [compressRound_eq, sigma_eq]
  unfold compress Blake2.compress
  rw [bits_ofFn]
  simp only [show blake2b.rounds = 12 from rfl, ← hwords, ← compressStart_eq, hrounds,
    Fin.getElem_fin, bits_get, UInt64.toBitVec_xor, BitVec.xor_assoc]

/-! ### The blocks -/

/-- A block that is read from data. -/
theorem ofFn_get_take (hlong : 128 < bytes.length) :
    List.ofFn (fun i : Fin 128 => bytes.get ⟨i.val, by omega⟩) = bytes.take 128 := by
  apply List.ext_getElem
  · simp only [List.length_take, List.length_ofFn]
    omega
  · intro i hi hi'
    simp only [List.getElem_take, List.getElem_ofFn, List.get_eq_getElem]

theorem ofFn_lastBlock (hshort : bytes.length ≤ 128) :
    List.ofFn (lastBlock bytes) = bytes ++ List.replicate (128 - bytes.length) 0 := by
  apply List.ext_getElem
  · simp only [List.length_append, List.length_ofFn, List.length_replicate]
    omega
  · intro i hi hi'
    simp only [List.getElem_append, List.getElem_ofFn, List.getElem_replicate, lastBlock,
      List.get_eq_getElem]

/-- Each turn of the loop leaves the specification to take in the rest, and the loop ends with
one block. -/
theorem absorbBlocks_eq (h : Vector UInt64 8) {count : UInt64}
    (hfits : count.toNat + bytes.length < 2 ^ 64) :
    absorb blake2b (bits h) count.toNat bytes =
      bits (compress (absorbBlocks h bytes count).1 (lastBlock (absorbBlocks h bytes count).2.1)
        ((absorbBlocks h bytes count).2.2 +
          UInt64.ofNat (absorbBlocks h bytes count).2.1.length) true) := by
  fun_induction absorbBlocks h bytes count with
  | case1 h bytes count hlong ih =>
    -- The byte counter does not wrap.
    have hcount : (count + 128).toNat = count.toNat + 128 := by
      rw [UInt64.toNat_add, show (128 : UInt64).toNat = 128 from rfl, Nat.mod_eq_of_lt (by omega)]
    have hrest : (count + 128).toNat + (bytes.drop 128).length < 2 ^ 64 := by
      rw [hcount, List.length_drop]
      omega
    have hblock : blockBytes 64 < bytes.length := hlong
    rw [absorb_of_lt (by decide) hblock, ← ih hrest, compress_eq, ofFn_get_take hlong, hcount]
    rfl
  | case2 h bytes count hshort =>
    have hle : bytes.length ≤ 128 := Nat.le_of_not_lt hshort
    have hcount : (count + UInt64.ofNat bytes.length).toNat = count.toNat + bytes.length := by
      rw [UInt64.toNat_add, UInt64.toNat_ofNat', Nat.mod_eq_of_lt (a := bytes.length) (by omega),
        Nat.mod_eq_of_lt hfits]
    have hblock : bytes.length ≤ blockBytes 64 := hle
    rw [absorb_of_le (by decide) hblock, compress_eq, ofFn_lastBlock hle, hcount]
    rfl

/-! ### The digest -/

/-- A shift and a cut give one byte of a word. -/
theorem toUInt8_shiftRight (x : UInt64) {k : Nat} (hk : k < 8) :
    (x >>> UInt64.ofNat (8 * k)).toUInt8 = UInt8.ofNat (x.toNat / 256 ^ k) := by
  have hshift : (UInt64.ofNat (8 * k)).toNat % 64 = 8 * k := by
    rw [UInt64.toNat_ofNat', Nat.mod_eq_of_lt (a := 8 * k) (by omega), Nat.mod_eq_of_lt (by omega)]
  apply UInt8.toNat_inj.mp
  rw [UInt64.toNat_toUInt8, UInt64.toNat_shiftRight, hshift, Nat.shiftRight_eq_div_pow,
    UInt8.toNat_ofNat', Nat.pow_mul]

theorem outputBytes_eq (h : Vector UInt64 8) :
    outputBytes h = ((bits h).toList.flatMap fun word => leBytes 8 word.toNat).take 32 := by
  have hall : (bits h).toList.flatMap (fun word => leBytes 8 word.toNat) =
      List.ofFn fun k : Fin (8 * 8) => UInt8.ofNat (h[k.val / 8].toNat / 256 ^ (k.val % 8)) := by
    rw [List.ofFn_mul, List.flatMap_def]
    congr 1
    apply List.ext_getElem
    · simp
    · intro i hi hi'
      have hplace (j : Fin 8) : (i * 8 + j.val) / 8 = i ∧ (i * 8 + j.val) % 8 = j.val := by omega
      simp only [List.getElem_map, Vector.getElem_toList, bits_get, List.getElem_ofFn,
        leBytes_eq_ofFn, UInt64.toNat_toBitVec, hplace]
  have hpart := take_drop_ofFn (fun k : Fin (8 * 8) =>
    UInt8.ofNat (h[k.val / 8].toNat / 256 ^ (k.val % 8))) (by decide : 0 + 32 ≤ 8 * 8)
  rw [List.drop_zero] at hpart
  unfold outputBytes
  rw [hall, hpart]
  congr 1
  funext i
  rw [toUInt8_shiftRight _ (Nat.mod_lt _ (by decide))]
  simp

theorem bits_initialState : bits initialState = init blake2b 32 := by decide +kernel

/-- The hash function of the SDK is BLAKE2b with 32 bytes, on data of every length, and its
compression function is that of the specification. -/
theorem sdk_hash_is_blake2b :
    (∀ input : Bytes, input.length < 2 ^ 64 →
      minijamBlake2b256 input = Blake2.hash blake2b 32 input) ∧
    ∀ (h : Vector UInt64 8) (block : Fin 128 → UInt8) (count : UInt64) (last : Bool),
      bits (compress h block count last) =
        Blake2.compress blake2b (bits h) (words 64 (List.ofFn block)) count.toNat last := by
  refine ⟨fun input hlength => ?_, compress_eq⟩
  have hfits : (0 : UInt64).toNat + input.length < 2 ^ 64 := by simpa using hlength
  have hdata := absorbBlocks_eq initialState hfits
  rw [bits_initialState] at hdata
  unfold minijamBlake2b256 Blake2.hash
  simp only [outputBytes_eq, ← hdata]
  rfl

/-- The digest that the test of the SDK expects for `abc`. -/
theorem sdk_hash_is_blake2b_abc :
    minijamBlake2b256 [97, 98, 99] =
      [0xbd, 0xdd, 0x81, 0x3c, 0x63, 0x42, 0x39, 0x72, 0x31, 0x71, 0xef, 0x3f, 0xee, 0x98, 0x57,
        0x9b, 0x94, 0x96, 0x4e, 0x3b, 0xb1, 0xcb, 0x3e, 0x42, 0x72, 0x62, 0xc8, 0xc0, 0x68, 0xd5,
        0x23, 0x19] :=
  (sdk_hash_is_blake2b.1 [97, 98, 99] (by decide)).trans (by decide +kernel)

end MiniJam.Sdk
