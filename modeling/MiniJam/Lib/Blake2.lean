import MiniJam.Lib.Scale
import Mathlib.Data.Fin.VecNotation
import Mathlib.Data.Fintype.Basic

/-!
# `MiniJam.Lib.Blake2`: the hash functions BLAKE2

The specification of the family, unkeyed, over words of `w` bits. The members differ in the
word size, the number of rounds, the rotations and the initial words. BLAKE2b is the one with
64-bit words.

The data is cut into blocks of sixteen words, the last one padded with zeros. The compression
function takes in one block after the other, together with the number of bytes so far, and the
last block with a flag. Data without bytes is one block.

`absorb_of_le` and `absorb_of_lt` are the two cases a program that hashes block by block goes
through.
-/

set_option autoImplicit false

namespace Blake2

open Scale

/-- The number of words of a block, and of the working vector. -/
abbrev blockWords : Nat := 16

/-- The number of words of the state. -/
abbrev stateWords : Nat := 8

-- For the numerals that stand for a word's index.
local instance neZero_blockWords : NeZero blockWords := ⟨by decide⟩

local instance neZero_stateWords : NeZero stateWords := ⟨by decide⟩

/-- What the members of the family differ in. -/
structure Params (w : Nat) where
  rounds : Nat
  r₁ : Nat
  r₂ : Nat
  r₃ : Nat
  r₄ : Nat
  iv : Fin stateWords → BitVec w

/-- The permutations of the words of a block, one for each of ten rounds. -/
def sigma : Fin 10 → Fin blockWords → Fin blockWords :=
  ![![0, 1, 2, 3, 4, 5, 6, 7, 8, 9, 10, 11, 12, 13, 14, 15],
    ![14, 10, 4, 8, 9, 15, 13, 6, 1, 12, 0, 2, 11, 7, 5, 3],
    ![11, 8, 12, 0, 5, 2, 15, 13, 10, 14, 3, 6, 7, 1, 9, 4],
    ![7, 9, 3, 1, 13, 12, 11, 14, 2, 6, 5, 10, 4, 0, 15, 8],
    ![9, 0, 5, 7, 2, 4, 10, 15, 14, 1, 11, 12, 6, 8, 3, 13],
    ![2, 12, 6, 10, 0, 11, 8, 3, 4, 13, 7, 5, 15, 14, 1, 9],
    ![12, 5, 1, 15, 14, 13, 4, 10, 0, 7, 6, 3, 9, 2, 8, 11],
    ![13, 11, 7, 14, 12, 1, 3, 9, 5, 0, 15, 4, 8, 6, 2, 10],
    ![6, 15, 14, 9, 11, 3, 0, 8, 12, 2, 13, 7, 1, 4, 10, 5],
    ![10, 2, 8, 4, 7, 6, 1, 5, 15, 11, 9, 14, 3, 12, 13, 0]]

/-- The rounds after the tenth start over. -/
def schedule (round : Nat) : Fin blockWords → Fin blockWords :=
  sigma ⟨round % 10, Nat.mod_lt _ (by decide)⟩

section
variable {w : Nat} (p : Params w)

/-- Mix two words into four words of the working vector. -/
def mix (a b c d : Fin blockWords) (x y : BitVec w) (v : Vector (BitVec w) blockWords) :
    Vector (BitVec w) blockWords :=
  let v := v.set a (v[a] + v[b] + x)
  let v := v.set d ((v[d] ^^^ v[a]).rotateRight p.r₁)
  let v := v.set c (v[c] + v[d])
  let v := v.set b ((v[b] ^^^ v[c]).rotateRight p.r₂)
  let v := v.set a (v[a] + v[b] + y)
  let v := v.set d ((v[d] ^^^ v[a]).rotateRight p.r₃)
  let v := v.set c (v[c] + v[d])
  v.set b ((v[b] ^^^ v[c]).rotateRight p.r₄)

/-- A round mixes the columns and then the diagonals. -/
def round (m : Vector (BitVec w) blockWords) (s : Fin blockWords → Fin blockWords)
    (v : Vector (BitVec w) blockWords) :
    Vector (BitVec w) blockWords :=
  let v := mix p 0 4 8 12 m[s 0] m[s 1] v
  let v := mix p 1 5 9 13 m[s 2] m[s 3] v
  let v := mix p 2 6 10 14 m[s 4] m[s 5] v
  let v := mix p 3 7 11 15 m[s 6] m[s 7] v
  let v := mix p 0 5 10 15 m[s 8] m[s 9] v
  let v := mix p 1 6 11 12 m[s 10] m[s 11] v
  let v := mix p 2 7 8 13 m[s 12] m[s 13] v
  mix p 3 4 9 14 m[s 14] m[s 15] v

/-- The working vector at the start: the state, the initial words, the count of bytes as two
words, and the flag of the last block. -/
def start (h : Vector (BitVec w) stateWords) (t : Nat) (final : Bool) :
    Vector (BitVec w) blockWords :=
  let v := Vector.ofFn fun i : Fin blockWords =>
    if hi : i.val < stateWords then h[i.val]
    else p.iv ⟨i.val - stateWords, Nat.sub_lt_left_of_lt_add (Nat.le_of_not_lt hi) i.isLt⟩
  let v := v.set 12 (v[12] ^^^ BitVec.ofNat w t)
  let v := v.set 13 (v[13] ^^^ BitVec.ofNat w (t / 2 ^ w))
  if final then v.set 14 (v[14] ^^^ BitVec.allOnes w) else v

/-- The compression function. -/
def compress (h : Vector (BitVec w) stateWords) (m : Vector (BitVec w) blockWords)
    (t : Nat) (final : Bool) :
    Vector (BitVec w) stateWords :=
  let v := (List.range p.rounds).foldl (fun v r => round p m (schedule r) v) (start p h t final)
  Vector.ofFn fun i : Fin stateWords =>
    have hi : i.val + stateWords < blockWords := Nat.add_lt_add_right i.isLt stateWords
    h[i] ^^^ v[i.val] ^^^ v[i.val + stateWords]

/-! ### Data -/

/-- The bytes of a block. -/
def blockBytes (w : Nat) : Nat := blockWords * (w / 8)

/-- The words of a block, the lowest byte of a word first. -/
def words (w : Nat) (block : Bytes) : Vector (BitVec w) blockWords :=
  Vector.ofFn fun i => BitVec.ofNat w (leVal ((block.drop (i.val * (w / 8))).take (w / 8)))

/-- The number of blocks that data fills. There is always one. -/
def blockCount (w : Nat) (data : Bytes) : Nat :=
  max 1 ((data.length + blockBytes w - 1) / blockBytes w)

/-- The data with zeros to the end of its last block. -/
def padded (w : Nat) (data : Bytes) : Bytes :=
  data ++ List.replicate (blockCount w data * blockBytes w - data.length) 0

def block (w : Nat) (data : Bytes) (i : Nat) : Bytes :=
  ((padded w data).drop (i * blockBytes w)).take (blockBytes w)

/-- Take in the first `n` blocks of the data, none of them the last, after `offset` bytes that
were taken in before. -/
def absorbFirst (h : Vector (BitVec w) stateWords) (offset : Nat) (data : Bytes) (n : Nat) :
    Vector (BitVec w) stateWords :=
  (List.range n).foldl (fun h i =>
    compress p h (words w (block w data i)) (offset + (i + 1) * blockBytes w) false) h

/-- Take in all blocks of the data. -/
def absorb (h : Vector (BitVec w) stateWords) (offset : Nat) (data : Bytes) :
    Vector (BitVec w) stateWords :=
  compress p (absorbFirst p h offset data (blockCount w data - 1))
    (words w (block w data (blockCount w data - 1))) (offset + data.length) true

/-- The state at the start of a hash of `n` bytes. -/
def init (n : Nat) : Vector (BitVec w) stateWords :=
  (Vector.ofFn p.iv).set 0 (p.iv 0 ^^^ BitVec.ofNat w 0x01010000 ^^^ BitVec.ofNat w n)

/-- The hash of `n` bytes. -/
def hash (n : Nat) (data : Bytes) : Bytes :=
  ((absorb p (init p n) 0 data).toList.flatMap fun word => leBytes (w / 8) word.toNat).take n

end

/-- BLAKE2b. -/
def blake2b : Params 64 where
  rounds := 12
  r₁ := 32
  r₂ := 24
  r₃ := 16
  r₄ := 63
  iv := ![0x6a09e667f3bcc908, 0xbb67ae8584caa73b, 0x3c6ef372fe94f82b, 0xa54ff53a5f1d36f1,
    0x510e527fade682d1, 0x9b05688c2b3e6c1f, 0x1f83d9abfb41bd6b, 0x5be0cd19137e2179]

/-! ### Block by block -/

section
variable {w offset : Nat} {p : Params w} {h : Vector (BitVec w) stateWords} {data : Bytes}

/-- Data of at most one block is padded and taken in as the last block. -/
theorem absorb_of_le (hw : 0 < blockBytes w) (hdata : data.length ≤ blockBytes w) :
    absorb p h offset data =
      compress p h (words w (data ++ List.replicate (blockBytes w - data.length) 0))
        (offset + data.length) true := by
  have hcount : blockCount w data = 1 := by
    have hle : (data.length + blockBytes w - 1) / blockBytes w ≤ 1 :=
      Nat.lt_succ_iff.mp ((Nat.div_lt_iff_lt_mul hw).mpr (by omega))
    unfold blockCount
    omega
  unfold absorb absorbFirst block padded
  rw [hcount]
  simp only [Nat.sub_self, List.range_zero, List.foldl_nil, Nat.zero_mul, List.drop_zero,
    Nat.one_mul]
  rw [List.take_of_length_le]
  simp
  omega

/-- One block more than the data without its first block. -/
theorem blockCount_of_lt (hw : 0 < blockBytes w) (hdata : blockBytes w < data.length) :
    blockCount w data = blockCount w (data.drop (blockBytes w)) + 1 := by
  unfold blockCount
  rw [List.length_drop]
  have hstep : (data.length + blockBytes w - 1) / blockBytes w =
      (data.length - blockBytes w + blockBytes w - 1) / blockBytes w + 1 := by
    rw [← Nat.add_div_right _ hw]
    congr 1
    omega
  have hpos : 1 ≤ (data.length - blockBytes w + blockBytes w - 1) / blockBytes w :=
    (Nat.le_div_iff_mul_le hw).mpr (by omega)
  omega

/-- The blocks after the first are those of the data without its first block. -/
theorem block_succ (hw : 0 < blockBytes w) (hdata : blockBytes w < data.length) (i : Nat) :
    block w data (i + 1) = block w (data.drop (blockBytes w)) i := by
  -- The padding is the same: one block more to fill and one block more of data.
  have hpad : blockCount w data * blockBytes w - data.length =
      blockCount w (data.drop (blockBytes w)) * blockBytes w -
        (data.drop (blockBytes w)).length := by
    rw [blockCount_of_lt hw hdata, Nat.succ_mul, List.length_drop]
    omega
  unfold block padded
  rw [hpad, Nat.succ_mul, Nat.add_comm (i * _), ← List.drop_drop,
    List.drop_append_of_le_length (Nat.le_of_lt hdata)]

theorem block_zero (hdata : blockBytes w < data.length) :
    block w data 0 = data.take (blockBytes w) := by
  unfold block padded
  rw [Nat.zero_mul, List.drop_zero, List.take_append_of_le_length (Nat.le_of_lt hdata)]

/-- The first of several blocks, and then those of the data without it. -/
theorem absorbFirst_succ (hw : 0 < blockBytes w) (hdata : blockBytes w < data.length) (n : Nat) :
    absorbFirst p h offset data (n + 1) =
      absorbFirst p
        (compress p h (words w (data.take (blockBytes w))) (offset + blockBytes w) false)
        (offset + blockBytes w) (data.drop (blockBytes w)) n := by
  have hcount (i : Nat) : offset + (i + 1 + 1) * blockBytes w =
      offset + blockBytes w + (i + 1) * blockBytes w := by
    rw [Nat.succ_mul (i + 1)]
    omega
  unfold absorbFirst
  rw [List.range_succ_eq_map, List.foldl_cons, List.foldl_map, block_zero hdata, Nat.zero_add,
    Nat.one_mul]
  simp only [Nat.succ_eq_add_one, block_succ hw hdata, hcount]

/-- The first of several blocks is taken in without the flag. -/
theorem absorb_of_lt (hw : 0 < blockBytes w) (hdata : blockBytes w < data.length) :
    absorb p h offset data =
      absorb p (compress p h (words w (data.take (blockBytes w))) (offset + blockBytes w) false)
        (offset + blockBytes w) (data.drop (blockBytes w)) := by
  have hone : 1 ≤ blockCount w (data.drop (blockBytes w)) := Nat.le_max_left _ _
  obtain ⟨n, hn⟩ := Nat.exists_eq_add_of_le' hone
  have hlength : offset + blockBytes w + (data.drop (blockBytes w)).length =
      offset + data.length := by
    rw [List.length_drop]
    omega
  unfold absorb
  rw [blockCount_of_lt hw hdata, hn, Nat.add_sub_cancel, Nat.add_sub_cancel,
    absorbFirst_succ hw hdata, block_succ hw hdata, hlength]

end

end Blake2
