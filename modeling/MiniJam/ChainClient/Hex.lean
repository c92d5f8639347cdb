import MiniJam.ChainClient.Client
import MiniJam.Worker.Bundle

/-!
# `MiniJam.ChainClient.Hex`: hexadecimal texts between the node and its clients

The function `hex` of the chain client, and the functions that read such texts: `decode_hex` of
the chain client (`rpc.rs`), `decode_hex` of the worker and `parse_hex_vec` of the node. Each
definition follows the function of the same name.

A `str` is a `String`, and its bytes are UTF-8. The chain client cuts the text into slices of
two bytes. A slice that does not begin and end between characters is a panic. The other two work
on the bytes.
-/

set_option autoImplicit false

namespace MiniJam

/-- `str::as_bytes`. -/
def asBytes (text : String) : Bytes := text.toByteArray.data.toList

/-- `text.strip_prefix("0x").unwrap_or(text)`. -/
def withoutMark (text : Bytes) : Bytes := if text.take 2 = ascii "0x" then text.drop 2 else text

/-! ### The chain client -/

namespace ChainClient

/-- `format!("{byte:02x}")`. -/
def formatByte (byte : UInt8) : String :=
  String.ofList [Nat.digitChar (byte.toNat / 16), Nat.digitChar (byte.toNat % 16)]

def hex (bytes : Bytes) : String := "0x" ++ String.join (bytes.map formatByte)

/-- `str::is_char_boundary`. The bytes of a character after its first one are those from `0x80`
to `0xbf`. -/
def isCharBoundary (text : Bytes) (index : Nat) : Bool :=
  index == 0 ||
    match text[index]? with
    | some byte => !(0x80 ≤ byte && byte < 0xc0)
    | none => index == text.length

/-- `&text[start..stop]`. `none` is a panic. -/
def slice (text : Bytes) (start stop : Nat) : Option Bytes :=
  if start ≤ stop ∧ isCharBoundary text start ∧ isCharBoundary text stop then
    some ((text.drop start).take (stop - start))
  else none

/-- `u8::from_str_radix(text, 16)` on a text of two bytes. -/
def fromStrRadix : Bytes → Option UInt8
  | [high, low] => hexByte high low
  | _ => none

/-- The slices from `index` on, up to the first that is not a number. -/
def decodeSlices (value : Bytes) : (rounds index : Nat) → Tx Unit ChainClientError Bytes
  | 0, _ => pure []
  | rounds + 1, index => do
    let text ← Tx.expect (slice value index (index + 2))
    let byte ← Tx.okOr (fromStrRadix text) (.decode "invalid digit found in string")
    let bytes ← decodeSlices value rounds (index + 2)
    pure (byte :: bytes)

def decodeHex (value : String) : Tx Unit ChainClientError Bytes := do
  let value := withoutMark (asBytes value)
  Tx.ensure (value.length % 2 = 0) (.decode "odd-length hex")
  decodeSlices value (value.length / 2) 0

end ChainClient

/-! ### The worker and the node -/

section
variable {ε : Type}

/-- `hex_nibble`, with the error of its crate. -/
def hexNibble (error : ε) (byte : UInt8) : Except ε UInt8 :=
  if 0x30 ≤ byte ∧ byte ≤ 0x39 then .ok (byte - 0x30)
  else if 0x61 ≤ byte ∧ byte ≤ 0x66 then .ok (byte - 0x61 + 10)
  else if 0x41 ≤ byte ∧ byte ≤ 0x46 then .ok (byte - 0x41 + 10)
  else .error error

/-- The loop over `chunks_exact(2)`. -/
def hexChunks (error : ε) : Bytes → Except ε Bytes
  | high :: low :: rest => do
    let high ← hexNibble error high
    let low ← hexNibble error low
    let output ← hexChunks error rest
    .ok ((high <<< 4 ||| low) :: output)
  | _ => .ok []

/-- Read a text, with the errors for an odd length and for a character. -/
def hexText (odd character : ε) (input : String) : Except ε Bytes :=
  let hex := withoutMark (asBytes input)
  if hex.length % 2 ≠ 0 then .error odd else hexChunks character hex

end

namespace Worker

def decodeHex : String → Except WorkerError Bytes :=
  hexText (.chain "hex input has odd length") (.chain "hex input contains a non-hex character")

end Worker

namespace NodeRpc

structure ErrorObjectOwned where
  code : Int
  message : String
  data : Option String
  deriving DecidableEq

def invalidParams (message : String) : ErrorObjectOwned :=
  ⟨-32602, "Invalid MiniJAM RPC params", some message⟩

def parseHexVec : String → Except ErrorObjectOwned Bytes :=
  hexText (invalidParams "hex input must have an even length")
    (invalidParams "hex input contains a non-hex character")

end NodeRpc

end MiniJam
