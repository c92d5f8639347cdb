import MiniJam.Sdk.HostBridge

/-!
# `MiniJam.Sdk.Calls`: the functions of the SDK

The C functions of `service-toolchain/sdk/src/minijam.c` that read the results of a work and
the storage of a service. Each definition follows the function of the same name. A pointer is
an address of the machine's memory. An out-parameter is a part of the result, and it is `none`
where the function does not set it.

`none` in a read of a C array, and a panic of a whole function, stand for a read that the
program must not make: outside of the array, or of a byte that nobody has written.
-/

set_option autoImplicit false

namespace MiniJam.Sdk

/-- `minijam_status`. -/
inductive Status where
  | ok
  | notFound
  | bufferTooSmall
  | hostError
  deriving DecidableEq

/-! ### Natural numbers -/

/-- The loop that counts the one bits at the top of a byte, with the rounds it has left. -/
def leadingOnes (first : UInt8) : (rounds : Nat) → (length : Nat) → Nat
  | 0, length => length
  | rounds + 1, length =>
    if first &&& ((0x80 : UInt8) >>> UInt8.ofNat length) ≠ 0 then
      leadingOnes first rounds (length + 1)
    else length

/-- The loop over the bytes after the first, from the `i`-th on. -/
def readLow (load : Nat → Option UInt8) (offset : Nat) :
    (rounds : Nat) → (i : Nat) → (low : UInt64) → Option UInt64
  | 0, _, low => some low
  | rounds + 1, i, low => do
    let b ← load (offset + i)
    readLow load offset rounds (i + 1) (low ||| b.toUInt64 <<< UInt64.ofNat (8 * i))

/-- `decode_fnencode` on an array that is read by `load`: the offset it leaves, and the value
if it succeeds. -/
def decodeFnencode (load : Nat → Option UInt8) (size offset : Nat) :
    Option (Nat × Option UInt64) :=
  if offset ≥ size then some (offset, none)
  else do
    let first ← load offset
    let offset := offset + 1
    if first < 0x80 then some (offset, some first.toUInt64)
    else
      let length := leadingOnes first 8 0
      if length = 0 ∨ length > 7 ∨ size - offset < length then some (offset, none)
      else do
        let low ← readLow load offset length 0 0
        let high := first &&& ((0x7f : UInt8) >>> UInt8.ofNat length)
        some (offset + length, some (high.toUInt64 <<< UInt64.ofNat (8 * length) ||| low))

/-! ### Results -/

/-- The size of the array on the stack for the start of an operand. -/
def headerCapacity : Nat := 160

/-- The mode of `FETCH` for operands. -/
def fetchOperand : UInt64 := 15

/-- The operand up to its payload: the size of the payload and the offset it starts at, or
`none` if the operand has another form. -/
def parseHeader (load : Nat → Option UInt8) (available : Nat) : Option (Option (UInt64 × Nat)) :=
  let offset := 1 + 4 * 32
  if available ≤ offset then some none
  else do
    let (offset, gas) ← decodeFnencode load available offset
    if gas = none then some none
    else if offset ≥ available then some none
    else do
      let kind ← load offset
      if kind ≠ 0 then some none
      else do
        let (offset, payloadSize) ← decodeFnencode load available (offset + 1)
        some (payloadSize.map fun size => (size, offset))

section
variable {η : Type} (host : Host η)

/-- `minijam_result` from the header on. -/
def resultPayload (index output capacity itemSize : UInt64) :
    Option (UInt64 × Nat) → M η (Status × Option UInt64)
  | none => pure (.hostError, none)
  | some (payloadSize, offset) =>
    if payloadSize > capacity then pure (.bufferTooSmall, some payloadSize)
    else do
      let fetched ← hostCall6 host MiniJamHostCall.fetch.id output (UInt64.ofNat offset)
        payloadSize fetchOperand index 0
      pure (if fetched = itemSize then .ok else .hostError, some payloadSize)

/-- `minijam_result`, with the place of its array on the stack. -/
def minijamResult (stack index output capacity : UInt64) : M η (Status × Option UInt64) := do
  Tx.modify fun vm => { vm with memory := vm.memory.forget stack.toNat headerCapacity }
  let itemSize ← hostCall6 host MiniJamHostCall.fetch.id stack 0 (UInt64.ofNat headerCapacity)
    fetchOperand index 0
  if itemSize = hostNone then pure (.notFound, none)
  else do
    let available := min itemSize.toNat headerCapacity
    let vm ← Tx.read
    let header ← Tx.expect (parseHeader (fun i => vm.memory.load (stack.toNat + i)) available)
    resultPayload host index output capacity itemSize header

/-! ### Storage -/

/-- `minijam_storage_read`. -/
def minijamStorageRead (key keySize output capacity : UInt64) : M η (Status × Option UInt64) := do
  let length ← hostCall6 host MiniJamHostCall.read.id hostNone key keySize output 0 capacity
  if length = hostNone then pure (.notFound, none)
  else pure (if length > capacity then .bufferTooSmall else .ok, some length)

/-- `minijam_storage_write`. -/
def minijamStorageWrite (key keySize value valueSize : UInt64) : M η Status := do
  let result ← hostCall6 host MiniJamHostCall.write.id key keySize value valueSize 0 0
  pure (if result = 1 then .hostError else .ok)

/-- `minijam_storage_delete`. -/
def minijamStorageDelete (key keySize : UInt64) : M η Status :=
  minijamStorageWrite host key keySize 0 0

end

end MiniJam.Sdk
