import MiniJam.Lib.Hex
import MiniJam.ChainClient.Hex

/-!
# `MiniJam.Proofs.HexDecoders`: the three readers of hexadecimal texts

The worker and the node read exactly the texts that `Hex.decode` reads (`hexText_ok_iff`). The
chain client reads more, and it may panic. `scan` is its reading of a text, slice by slice, and
`decodeHex_apply` connects it to the source: a slice is accepted also when it is a plus sign and
a digit, since `from_str_radix` allows a sign, and it is a panic when it ends within a character.

`decode_hex_uniform_iff` says for which texts the three agree.
-/

set_option autoImplicit false

namespace MiniJam

/-! ### The worker and the node -/

variable {ε : Type}

/-- A nibble is a digit. -/
theorem hexNibble_eq (error : ε) (byte : UInt8) :
    hexNibble error byte = (Hex.digit byte).elim (.error error) .ok := by
  unfold hexNibble Hex.digit
  split
  · rfl
  · split
    · rfl
    · split <;> rfl

/-- The loop over the chunks reads the texts of digits. -/
theorem hexChunks_eq (error : ε) {text : Bytes} (heven : text.length % 2 = 0) :
    hexChunks error text = (Hex.decode text).elim (.error error) .ok := by
  fun_induction Hex.decode text with
  | case1 => rfl
  | case2 c => simp at heven
  | case3 high low rest ih =>
    have hrest : rest.length % 2 = 0 := (Nat.add_mod_right rest.length 2).symm.trans heven
    rw [hexChunks, hexNibble_eq, hexNibble_eq, ih hrest]
    cases hhigh : Hex.digit high with
    | none => rfl
    | some h =>
      cases hlow : Hex.digit low with
      | none => rfl
      | some l =>
        have hbyte := Hex.shift_or (Hex.digit_lt hhigh) (Hex.digit_lt hlow)
        cases Hex.decode rest with
        | none => rfl
        | some output =>
          show Except.ok ((h <<< 4 ||| l) :: output) = _
          rw [hbyte]
          rfl

/-- The decoders return what the digits after the mark stand for. -/
theorem hexText_ok_iff {odd character : ε} {input : String} {bytes : Bytes} :
    hexText odd character input = .ok bytes ↔
      Hex.decode (withoutMark (asBytes input)) = some bytes := by
  unfold hexText
  by_cases heven : (withoutMark (asBytes input)).length % 2 = 0
  · rw [if_neg (not_not_intro heven), hexChunks_eq character heven]
    cases Hex.decode (withoutMark (asBytes input)) <;> simp
  · rw [if_pos heven, Hex.decode_of_odd heven]
    simp

namespace ChainClient

/-! ### The slices of the chain client -/

/-- A text begins with a character, or it is empty. -/
def StartsChar : Bytes → Prop
  | [] => True
  | byte :: _ => ¬ (0x80 ≤ byte ∧ byte < 0xc0)

instance : DecidablePred StartsChar := fun text => by
  cases text <;> unfold StartsChar <;> infer_instance

/-- Two digits, or a plus sign and a digit. -/
def IsNumber (high low : UInt8) : Prop := (Hex.IsDigit high ∨ high = 0x2b) ∧ Hex.IsDigit low

instance (high low : UInt8) : Decidable (IsNumber high low) := by
  unfold IsNumber
  infer_instance

/-- Some slice is not a number, and no slice up to it ends within a character. -/
def Refused : Bytes → Prop
  | high :: low :: rest => StartsChar rest ∧ (¬ IsNumber high low ∨ Refused rest)
  | _ => False

/-- What comes of a text. -/
inductive Scan where
  | accepted (bytes : Bytes)
  | refused
  | cut

def Scan.cons (byte : UInt8) : Scan → Scan
  | accepted bytes => accepted (byte :: bytes)
  | refused => refused
  | cut => cut

/-- Read a text, slice by slice. -/
def scan : Bytes → Scan
  | [] => .accepted []
  | [_] => .accepted []
  | high :: low :: rest =>
    if StartsChar rest then
      match hexByte high low with
      | some byte => (scan rest).cons byte
      | none => .refused
    else .cut

def Scan.outcome : Scan → Outcome Unit ChainClientError Bytes
  | accepted bytes => .ok bytes ()
  | refused => .err (.decode "invalid digit found in string") ()
  | cut => .panicked

/-- A cut is a character boundary when the text after it starts one. -/
theorem isCharBoundary_append (before text : Bytes) :
    isCharBoundary (before ++ text) before.length ↔ before = [] ∨ StartsChar text := by
  unfold isCharBoundary
  cases text with
  | nil => simp [StartsChar]
  | cons byte text => simp [StartsChar, imp_iff_not_or]

variable {text : Bytes}

/-- The loop from the end of `before` on, which is no place within a character. -/
theorem decodeSlices_apply (before : Bytes) {rounds : Nat} (hlength : text.length = 2 * rounds)
    (hstart : before = [] ∨ StartsChar text) :
    decodeSlices (before ++ text) rounds before.length () = (scan text).outcome := by
  induction rounds generalizing before text with
  | zero =>
    rw [List.eq_nil_of_length_eq_zero hlength]
    rfl
  | succ rounds ih =>
    obtain ⟨high, low, rest, rfl⟩ : ∃ high low rest, text = high :: low :: rest := by
      cases text with
      | nil => cases hlength
      | cons high text =>
        cases text with
        | nil =>
          simp only [List.length_singleton] at hlength
          omega
        | cons low rest => exact ⟨high, low, rest, rfl⟩
    have hrest : rest.length = 2 * rounds := by
      simp only [List.length_cons] at hlength
      omega
    have hsplit : before ++ high :: low :: rest = (before ++ [high, low]) ++ rest := by simp
    have hend : before.length + 2 = (before ++ [high, low]).length := by simp
    -- The slice panics where the text after it starts no character.
    have hstop : isCharBoundary (before ++ high :: low :: rest) (before.length + 2) ↔
        StartsChar rest := by
      rw [hsplit, hend, isCharBoundary_append]
      simp
    have hslice : slice (before ++ high :: low :: rest) before.length (before.length + 2) =
        if StartsChar rest then some [high, low] else none := by
      unfold slice
      simp [hstop, (isCharBoundary_append before _).mpr hstart]
    rw [decodeSlices, scan, hslice]
    by_cases hchar : StartsChar rest
    · have hnext := ih (before ++ [high, low]) hrest (.inr hchar)
      rw [← hsplit, ← hend] at hnext
      rw [if_pos hchar, if_pos hchar]
      cases hbyte : hexByte high low with
      | none =>
        simp only [fromStrRadix, hbyte, Tx.expect_some_bind_apply]
        rfl
      | some byte =>
        simp only [fromStrRadix, hbyte, Tx.expect_some_bind_apply, Tx.okOr_some_bind_apply]
        show Tx.bind _ _ () = _
        unfold Tx.bind
        rw [hnext]
        cases scan rest <;> rfl
    · rw [if_neg hchar, if_neg hchar]
      rfl

theorem decodeHex_apply (value : String) :
    decodeHex value () =
      if (withoutMark (asBytes value)).length % 2 = 0 then
        (scan (withoutMark (asBytes value))).outcome
      else .err (.decode "odd-length hex") () := by
  generalize htext : withoutMark (asBytes value) = text
  show (Tx.ensure _ _ >>= fun _ => decodeSlices (withoutMark (asBytes value)) _ 0) () = _
  rw [htext]
  by_cases heven : text.length % 2 = 0
  · have hlength : text.length = 2 * (text.length / 2) := by omega
    rw [if_pos heven, Tx.ensure_bind_apply, if_pos heven]
    exact decodeSlices_apply [] hlength (.inl rfl)
  · rw [if_neg heven, Tx.ensure_bind_apply, if_neg heven]

/-! ### Which texts are read -/

theorem hexDigit_eq : ∀ byte : UInt8, hexDigit byte = Hex.digit byte :=
  Hex.forall_byte (by decide +kernel)

theorem hexByte_of_digits {high low h l : UInt8} (hhigh : Hex.digit high = some h)
    (hlow : Hex.digit low = some l) : hexByte high low = some (h * 16 + l) := by
  have hsign : high ≠ 43 := by
    rintro rfl
    cases hhigh
  rw [hexByte, if_neg hsign, hexDigit_eq, hexDigit_eq, hhigh, hlow]
  rfl

theorem hexByte_eq_none_iff {high low : UInt8} :
    hexByte high low = none ↔ ¬ IsNumber high low := by
  unfold hexByte IsNumber
  rw [hexDigit_eq, hexDigit_eq, ← Hex.isSome_digit, ← Hex.isSome_digit]
  split
  · simp_all
  · cases Hex.digit high <;> cases Hex.digit low <;> simp_all

theorem scan_eq_refused_iff : scan text = .refused ↔ Refused text := by
  fun_induction scan text with
  | case1 => simp [Refused]
  | case2 c => simp [Refused]
  | case3 high low rest hchar byte hbyte ih =>
    have hnumber : IsNumber high low := by
      by_contra hno
      rw [hexByte_eq_none_iff.mpr hno] at hbyte
      cases hbyte
    rw [Refused, ← ih]
    cases scan rest <;> simp [Scan.cons, hchar, hnumber]
  | case4 high low rest hchar hbyte =>
    simp [Refused, hchar, hexByte_eq_none_iff.mp hbyte]
  | case5 high low rest hchar => simp [Refused, hchar]

/-- No digit is a byte within a character. -/
theorem startsChar_of_digit : ∀ c : UInt8, Hex.IsDigit c → ¬ (0x80 ≤ c ∧ c < 0xc0) :=
  Hex.forall_byte (by decide +kernel)

theorem startsChar_of_decode {bytes : Bytes} (h : Hex.decode text = some bytes) :
    StartsChar text := by
  cases text with
  | nil => trivial
  | cons c text =>
    have hdigits := ((Hex.isSome_decode _).mp (Option.isSome_of_eq_some h)).2
    exact startsChar_of_digit c (hdigits c List.mem_cons_self)

/-- A text of digits is accepted, as the bytes it stands for. -/
theorem scan_of_decode {bytes : Bytes} (h : Hex.decode text = some bytes) :
    scan text = .accepted bytes := by
  fun_induction Hex.decode text generalizing bytes with
  | case1 => simp_all [scan]
  | case2 c => simp at h
  | case3 high low rest ih =>
    obtain ⟨hi, hhigh, h⟩ := Option.bind_eq_some_iff.mp h
    obtain ⟨lo, hlow, h⟩ := Option.bind_eq_some_iff.mp h
    obtain ⟨output, hrest, h⟩ := Option.bind_eq_some_iff.mp h
    cases h
    rw [scan, if_pos (startsChar_of_decode hrest), hexByte_of_digits hhigh hlow]
    show (scan rest).cons _ = _
    rw [ih hrest]
    rfl

/-! ### The round trip -/

theorem asBytes_append (s t : String) : asBytes (s ++ t) = asBytes s ++ asBytes t := by
  simp [asBytes, String.toByteArray_append]

theorem asBytes_formatByte : ∀ byte : UInt8,
    asBytes (formatByte byte) = [Hex.lower (byte / 16), Hex.lower (byte % 16)] :=
  Hex.forall_byte (by decide +kernel)

theorem asBytes_hex (bytes : Bytes) : asBytes (hex bytes) = ascii "0x" ++ Hex.encode bytes := by
  have hjoin : asBytes (String.join (bytes.map formatByte)) = Hex.encode bytes := by
    induction bytes with
    | nil => rfl
    | cons byte bytes ih =>
      rw [List.map_cons, String.join_cons, asBytes_append, asBytes_formatByte, ih]
      rfl
  unfold hex
  rw [asBytes_append, hjoin]
  rfl

/-! ### The three readers -/

/-- Reading one text is total, and the three readers give the same answer. -/
structure Uniform (s : String) : Prop where
  total : decodeHex s () ≠ .panicked
  accepts : (∃ bytes, decodeHex s () = .ok bytes ()) ↔
    (withoutMark (asBytes s)).length % 2 = 0 ∧ ∀ c ∈ withoutMark (asBytes s), Hex.IsDigit c
  reads : ∀ bytes, decodeHex s () = .ok bytes () →
    Hex.decode (withoutMark (asBytes s)) = some bytes
  worker : ∀ bytes, decodeHex s () = .ok bytes () ↔ Worker.decodeHex s = .ok bytes
  node : ∀ bytes, decodeHex s () = .ok bytes () ↔ NodeRpc.parseHexVec s = .ok bytes

/-- It is enough to compare the chain client with `Hex.decode`. -/
theorem uniform_iff {s : String} :
    Uniform s ↔ decodeHex s () ≠ .panicked ∧
      ∀ bytes, decodeHex s () = .ok bytes () ↔
        Hex.decode (withoutMark (asBytes s)) = some bytes := by
  constructor
  · intro h
    exact ⟨h.total, fun bytes => (h.worker bytes).trans hexText_ok_iff⟩
  · rintro ⟨htotal, hanswer⟩
    refine ⟨htotal, ?_, fun bytes => (hanswer bytes).mp, fun bytes => ?_, fun bytes => ?_⟩
    · rw [← Hex.isSome_decode, Option.isSome_iff_exists]
      exact exists_congr hanswer
    · exact (hanswer bytes).trans hexText_ok_iff.symm
    · exact (hanswer bytes).trans hexText_ok_iff.symm

/-- The texts of which the chain client reads what `Hex.decode` reads. -/
theorem scan_agrees_iff (heven : text.length % 2 = 0) :
    (scan text ≠ .cut ∧ ∀ bytes, scan text = .accepted bytes ↔ Hex.decode text = some bytes) ↔
      (∀ c ∈ text, Hex.IsDigit c) ∨ Refused text := by
  constructor
  · rintro ⟨hcut, hagree⟩
    cases hscan : scan text with
    | accepted bytes =>
      have hsome := Option.isSome_of_eq_some ((hagree bytes).mp hscan)
      exact .inl ((Hex.isSome_decode text).mp hsome).2
    | refused => exact .inr (scan_eq_refused_iff.mp hscan)
    | cut => exact absurd hscan hcut
  · rintro (hdigits | hrefused)
    · obtain ⟨bytes, hbytes⟩ :=
        Option.isSome_iff_exists.mp ((Hex.isSome_decode text).mpr ⟨heven, hdigits⟩)
      rw [scan_of_decode hbytes, hbytes]
      simp
    · have hscan := scan_eq_refused_iff.mpr hrefused
      refine ⟨by simp [hscan], fun bytes => ⟨fun h => ?_, fun h => scan_of_decode h⟩⟩
      rw [hscan] at h
      cases h

/-- The chain client panics on no text, and it reads what the worker and the node read, exactly
when the text, without its mark, has an odd length, or consists of digits, or is refused: it has
a slice that is neither two digits nor a plus sign and a digit, and no slice up to it ends within
a character. What `hex` writes is always read back. -/
theorem decode_hex_uniform_iff (s : String) (bytes : Bytes) :
    (Uniform s ↔
      (withoutMark (asBytes s)).length % 2 = 1 ∨
      (∀ c ∈ withoutMark (asBytes s), Hex.IsDigit c) ∨ Refused (withoutMark (asBytes s))) ∧
    decodeHex (hex bytes) () = .ok bytes () := by
  constructor
  · rw [uniform_iff, decodeHex_apply]
    generalize withoutMark (asBytes s) = text
    by_cases heven : text.length % 2 = 0
    · have hodd : ¬ text.length % 2 = 1 := by omega
      rw [if_pos heven, or_iff_right hodd, ← scan_agrees_iff heven]
      cases scan text <;> simp [Scan.outcome]
    · have hodd : text.length % 2 = 1 := by omega
      rw [if_neg heven, Hex.decode_of_odd heven]
      simp [hodd]
  · have htext : withoutMark (asBytes (hex bytes)) = Hex.encode bytes := by
      rw [asBytes_hex]
      rfl
    have hdecode := Hex.decode_encode bytes
    have heven := ((Hex.isSome_decode _).mp (Option.isSome_of_eq_some hdecode)).1
    rw [decodeHex_apply, htext, if_pos heven, scan_of_decode hdecode]
    rfl

/-- A sign is read as part of a number, and a character of two bytes is cut. The worker refuses
both texts. -/
theorem signed_and_cut_texts :
    (decodeHex "+f" () = .ok [15] () ∧
      Worker.decodeHex "+f" = .error (.chain "hex input contains a non-hex character") ∧
      ¬ Uniform "+f") ∧
    decodeHex "aéb" () = .panicked ∧
      Worker.decodeHex "aéb" = .error (.chain "hex input contains a non-hex character") ∧
      ¬ Uniform "aéb" := by
  refine ⟨⟨rfl, rfl, fun h => ?_⟩, rfl, rfl, fun h => h.total rfl⟩
  have hread : Worker.decodeHex "+f" = .ok [15] := (h.worker [15]).mp rfl
  cases hread

end ChainClient

end MiniJam
