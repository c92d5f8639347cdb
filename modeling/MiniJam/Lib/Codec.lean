import MiniJam.Lib.Framing
import MiniJam.Lib.Scale

/-!
# `MiniJam.Lib.Codec`: codecs that are lawful by construction

A `LawfulCodec` is an encoding with a decoder that takes exactly that encoding off the front of
any bytes. Bytes, words and byte strings of a fixed length have one, and products, lists and
types in bijection with one of these get theirs from their parts.
-/

set_option autoImplicit false

/-- An encoding and a decoder that returns the value and the bytes it left. -/
structure LawfulCodec (α : Type) where
  encode : α → Bytes
  decode : Bytes → Option (α × Bytes)
  decode_encode : ∀ a rest, decode (encode a ++ rest) = some (a, rest)

namespace LawfulCodec

open Scale

variable {α β : Type}

/-- A lawful codec reads what it wrote off the front. -/
theorem selfDelimiting (codec : LawfulCodec α) : Framing.SelfDelimiting codec.encode := by
  intro a b r s heq
  have ha := codec.decode_encode a r
  rw [heq, codec.decode_encode b s] at ha
  cases ha
  exact ⟨rfl, rfl⟩

/-- A byte string of a fixed length. -/
def fixed (n : Nat) : LawfulCodec (FixedBytes n) where
  encode v := v.toList
  decode bytes := (FixedBytes.tryFrom (bytes.take n)).map fun v => (v, bytes.drop n)
  decode_encode := by
    intro v rest
    have hlength : v.toList.length = n := v.toList_length
    have htake : (v.toList ++ rest).take n = v.toList := List.take_left' hlength
    have hdrop : (v.toList ++ rest).drop n = rest := List.drop_left' hlength
    rw [htake, hdrop, FixedBytes.tryFrom, dif_pos hlength]
    rfl

/-- A number in `n` bytes, the low byte first. -/
def word (n : Nat) (toNat : α → Nat) (ofNat : Nat → α) (hbound : ∀ a, toNat a < 256 ^ n)
    (hinverse : ∀ a, ofNat (toNat a) = a) : LawfulCodec α where
  encode a := leBytes n (toNat a)
  decode bytes := (decodeLe n bytes).map fun (x, rest) => (ofNat x, rest)
  decode_encode a rest := by
    rw [decodeLe_append n _ _ (hbound a)]
    simp [hinverse]

def u8 : LawfulCodec UInt8 :=
  word 1 UInt8.toNat UInt8.ofNat (fun x => x.toNat_lt) fun _ => UInt8.ofNat_toNat

def u16 : LawfulCodec UInt16 :=
  word 2 UInt16.toNat UInt16.ofNat (fun x => x.toNat_lt) fun _ => UInt16.ofNat_toNat

def u32 : LawfulCodec UInt32 :=
  word 4 UInt32.toNat UInt32.ofNat (fun x => x.toNat_lt) fun _ => UInt32.ofNat_toNat

def u64 : LawfulCodec UInt64 :=
  word 8 UInt64.toNat UInt64.ofNat (fun x => x.toNat_lt) fun _ => UInt64.ofNat_toNat

/-- One value after the other. -/
def prod (first : LawfulCodec α) (second : LawfulCodec β) : LawfulCodec (α × β) where
  encode p := first.encode p.1 ++ second.encode p.2
  decode bytes := do
    let (a, bytes) ← first.decode bytes
    let (b, bytes) ← second.decode bytes
    some ((a, b), bytes)
  decode_encode := by
    rintro ⟨a, b⟩ rest
    simp [List.append_assoc, first.decode_encode, second.decode_encode]

/-- The codec of a type that is made of another one. -/
def map (codec : LawfulCodec α) (pack : α → β) (unpack : β → α) (hpack : ∀ b, pack (unpack b) = b) :
    LawfulCodec β where
  encode b := codec.encode (unpack b)
  decode bytes := (codec.decode bytes).map fun (a, rest) => (pack a, rest)
  decode_encode b rest := by simp [codec.decode_encode, hpack]

/-! ### Lists -/

/-- Each element behind a one, and a zero at the end. -/
def encodeList (codec : LawfulCodec α) : List α → Bytes
  | [] => [0]
  | a :: as => 1 :: codec.encode a ++ encodeList codec as

/-- At most `fuel` elements. -/
def decodeList (codec : LawfulCodec α) : Nat → Bytes → Option (List α × Bytes)
  | _, [] => none
  | 0, _ => none
  | fuel + 1, tag :: bytes =>
    if tag = 0 then some ([], bytes)
    else do
      let (a, bytes) ← codec.decode bytes
      let (as, bytes) ← decodeList codec fuel bytes
      some (a :: as, bytes)

theorem length_lt_length_encodeList (codec : LawfulCodec α) (as : List α) :
    as.length < (encodeList codec as).length := by
  induction as with
  | nil => simp [encodeList]
  | cons a as ih =>
    simp only [encodeList, List.length_cons, List.length_append]
    omega

/-- A list is read back from its encoding. -/
theorem decodeList_encodeList (codec : LawfulCodec α) (as : List α) (rest : Bytes) {fuel : Nat}
    (hfuel : as.length < fuel) :
    decodeList codec fuel (encodeList codec as ++ rest) = some (as, rest) := by
  induction as generalizing fuel with
  | nil =>
    cases fuel with
    | zero => simp at hfuel
    | succ fuel => simp [encodeList, decodeList]
  | cons a as ih =>
    cases fuel with
    | zero => simp at hfuel
    | succ fuel =>
      have hless : as.length < fuel := by simpa using hfuel
      simp [encodeList, decodeList, codec.decode_encode, ih hless]

def list (codec : LawfulCodec α) : LawfulCodec (List α) where
  encode := encodeList codec
  decode bytes := decodeList codec bytes.length bytes
  decode_encode as rest := by
    refine decodeList_encodeList codec as rest ?_
    have hlength := length_lt_length_encodeList codec as
    rw [List.length_append]
    omega

end LawfulCodec
