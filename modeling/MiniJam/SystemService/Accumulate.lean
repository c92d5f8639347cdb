import MiniJam.Protocol.Types

/-!
# `MiniJam.SystemService.Accumulate`: the accumulate code of Service 0

The C program of `services/system-service/src/service.c`. It reads a batch of system
operations from its input, as bytes, and answers each operation with a receipt in its
storage. A pointer into the input is the list of bytes from that position to the end. Each
definition follows the function of the same name.

The host calls are parameters over a host state: `NEW` and `TRANSFER` return a number, and
`WRITE` may be refused, which the program does not notice. The environment keeps the writes
the program asks for, in order, beside the storage they lead to.
-/

set_option autoImplicit false

namespace MiniJam.SystemService

open Scale

/-! ### Constants -/

/-- `SYSTEM_INPUT_MAX`. -/
def systemInputMax : Nat := 16384

/-- `REJECT_REQUEST_ID`. -/
def rejectRequestId : UInt32 := 3

/-- `REJECT_NONCE`. -/
def rejectNonce : UInt32 := 4

/-- `REJECT_COMMAND`. -/
def rejectCommand : UInt32 := 5

/-- `REJECT_NEW`. -/
def rejectNew : UInt32 := 6

/-- `REJECT_TRANSFER`. -/
def rejectTransfer : UInt32 := 7

/-- `STAGE0_SERVICE_BALANCE`. -/
def stage0ServiceBalance : UInt64 := 1024

def transferMemo : Bytes := List.replicate 128 0

/-! ### The environment -/

/-- The host calls, over the state of the host. -/
structure Host (η : Type) where
  new : (codeHash : Bytes) → (codeLen : UInt32) → (minItemGas minMemoGas : UInt64) → η →
    UInt64 × η
  transfer : (serviceId amount gasLimit : UInt64) → (memo : Bytes) → η → UInt64 × η
  write : (key value : Bytes) → η → Bool × η

/-- What the program works on. -/
structure Env (η : Type) where
  storage : Bytes → Option Bytes
  host : η
  writes : List (Bytes × Bytes) := []
  yielded : Bool := false

/-! ### Bytes -/

def loadU32 (p : Bytes) : UInt32 := UInt32.ofNat (leVal (p.take 4))

def loadU64 (p : Bytes) : UInt64 := UInt64.ofNat (leVal (p.take 8))

/-- A compact number of one, two or four bytes, with the position after it. -/
def compactU32 : Bytes → Option (UInt32 × Bytes)
  | [] => none
  | first :: cursor =>
    if first &&& 3 = 0 then some ((first >>> 2).toUInt32, cursor)
    else
      match cursor with
      | b₀ :: rest =>
        if first &&& 3 = 1 then some (b₀.toUInt32 <<< 6 ||| (first >>> 2).toUInt32, rest)
        else
          match rest with
          | b₁ :: b₂ :: rest =>
            if first &&& 3 = 2 then
              some ((first >>> 2).toUInt32 ||| b₀.toUInt32 <<< 6 ||| b₁.toUInt32 <<< 14
                ||| b₂.toUInt32 <<< 22, rest)
            else none
          | _ => none
      | [] => none

/-- The storage keys. -/
def lastNonceKey (sender : Bytes) : Bytes := ascii "system/last-nonce/" ++ sender

@[inherit_doc lastNonceKey]
def receiptKey (requestId : Bytes) : Bytes := ascii "system/receipt/" ++ requestId

@[inherit_doc lastNonceKey]
def allocationKey (allocationId : Bytes) : Bytes := ascii "system/allocation/" ++ allocationId

/-! ### Storage -/

section
variable {η : Type} (host : Host η)

/-- Ask the host for a write. Its answer is ignored. -/
def storageWrite (key value : Bytes) (env : Env η) : Env η :=
  let (taken, state) := host.write key value env.host
  { env with
    storage := if taken then Function.update env.storage key (some value) else env.storage
    host := state
    writes := env.writes ++ [(key, value)] }

/-- The receipt of a rejected operation. -/
def rejectedReceipt (code : UInt32) : Bytes := 1 :: encodeU32 code

def writeRejected (requestId : Bytes) (code : UInt32) : Env η → Env η :=
  storageWrite host (receiptKey requestId) (rejectedReceipt code)

/-- A nonce is fresh when none is stored, or eight bytes with a smaller one. A value that
does not fit the buffer or is shorter makes every nonce stale. -/
def nonceIsFresh (storage : Bytes → Option Bytes) (sender : Bytes) (nonce : UInt64) : Bool :=
  match storage (lastNonceKey sender) with
  | none => true
  | some old => decide (old.length = 8) && decide (nonce > loadU64 old)

def writeNonce (sender : Bytes) (nonce : UInt64) : Env η → Env η :=
  storageWrite host (lastNonceKey sender) (encodeU64 nonce)

def writeAllocationReceipt (allocationId : UInt64) (status : UInt8) (code : UInt32) :
    Env η → Env η :=
  storageWrite host (allocationKey (encodeU64 allocationId)) (status :: encodeU32 code)

/-! ### Commands -/

def applyAllocation (command : Bytes) : Env η → Env η :=
  writeAllocationReceipt host (loadU64 command) 0 0

/-- What `create_service` does with the fields of its command. -/
def createServiceWith (requestId submitter : Bytes) (nonce : UInt64) (codeHash : Bytes)
    (codeLen : UInt32) (minItemGas minMemoGas : UInt64) (env : Env η) : Env η :=
  if !nonceIsFresh env.storage submitter nonce then
    writeRejected host requestId rejectNonce env
  else
    let (sid, state) := host.new codeHash codeLen minItemGas minMemoGas env.host
    let env := { env with host := state }
    if sid.toNat > u32Max then writeRejected host requestId rejectNew env
    else
      let (transfer, state) := host.transfer sid stage0ServiceBalance minMemoGas transferMemo
        env.host
      let env := { env with host := state }
      if transfer ≠ 0 then writeRejected host requestId rejectTransfer env
      else
        let env := storageWrite host (receiptKey requestId) (0 :: encodeU32 sid.toUInt32) env
        writeNonce host submitter nonce env

def createService (requestId submitter : Bytes) (nonce : UInt64) (command : Bytes) :
    Env η → Env η :=
  let codeHash := command.take 32
  let codeLen := loadU32 (command.drop 32)
  let minItemGas := loadU64 (command.drop 36)
  let minMemoGas := loadU64 (command.drop 44)
  createServiceWith host requestId submitter nonce codeHash codeLen minItemGas minMemoGas

/-! ### The batch -/

variable (hash : Bytes → Hash)

def requestIdMatches (requestId submitter encodedNonce encodedCommand : Bytes) : Bool :=
  decide ((hash (ascii "minijam/system-op/v2" ++ submitter ++ encodedNonce ++
    encodedCommand)).toList = requestId)

/-- One turn of the loop: the position after the operation, or none when the program
returns. -/
def operation (cursor : Bytes) (env : Env η) : Option Bytes × Env η :=
  if cursor.length < 73 then (none, env)
  else
    let requestId := cursor.take 32
    let submitter := (cursor.drop 32).take 32
    let encodedNonce := (cursor.drop 64).take 8
    let encodedCommand := cursor.drop 72
    let nonce := loadU64 (cursor.drop 64)
    let command := encodedCommand.head?
    let cursor := cursor.drop 73
    if command = some 0 then
      if cursor.length < 52 then (none, env)
      else if requestIdMatches hash requestId submitter encodedNonce (encodedCommand.take 53) then
        (some (cursor.drop 52), createService host requestId submitter nonce cursor env)
      else (some (cursor.drop 52), writeRejected host requestId rejectRequestId env)
    else if command = some 1 then
      if cursor.length < 20 then (none, env)
      else if requestIdMatches hash requestId submitter encodedNonce (encodedCommand.take 21) then
        (some (cursor.drop 20), writeNonce host submitter nonce (applyAllocation host cursor env))
      else (some (cursor.drop 20), writeRejected host requestId rejectRequestId env)
    else (none, writeRejected host requestId rejectCommand env)

/-- The loop over the operations, and what follows it. -/
def operations : Nat → Bytes → Env η → Env η
  | 0, cursor, env => if cursor = [] then { env with yielded := true } else env
  | count + 1, cursor, env =>
    match operation host hash cursor env with
    | (none, env) => env
    | (some cursor, env) => operations count cursor env

/-- `MINIJAM_ACCUMULATE` on the payload of the first operand, if there is one. -/
def accumulate (payload : Option Bytes) (env : Env η) : Env η :=
  match payload with
  | none => env
  | some input =>
    if input.length > systemInputMax then env
    else
      match compactU32 input with
      | none => env
      | some (count, cursor) =>
        if count > 64 then env else operations host hash count.toNat cursor env

end

end MiniJam.SystemService
