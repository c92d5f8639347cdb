import MiniJam.SystemService.Accumulate

/-!
# `MiniJam.SystemService.Reads`: the accumulate code of Service 0 with its reads checked

The program of `MiniJam.SystemService.Accumulate` once more, with pointers as positions in
the input. Every read of the input says where it reads and how much; a read that is not
inside the input ends the run with `none`, which stands for undefined behaviour. What the
program does with the bytes it has read is the same as there.
-/

set_option autoImplicit false

namespace MiniJam.SystemService

open Scale

/-- Read `n` bytes at a position of the input. -/
def readAt (input : Bytes) (pos n : Nat) : Option Bytes :=
  if pos + n ≤ input.length then some ((input.drop pos).take n) else none

/-- `compact_u32`: the value and the position after it, or a failure. -/
def compactU32At (input : Bytes) (pos : Nat) : Option (Option (UInt32 × Nat)) :=
  if pos = input.length then some none
  else do
    let first := (← readAt input pos 1).headD 0
    let pos := pos + 1
    if first &&& 3 = 0 then some (some ((first >>> 2).toUInt32, pos))
    else if first &&& 3 = 1 ∧ 1 ≤ input.length - pos then do
      let b₀ := (← readAt input pos 1).headD 0
      some (some (b₀.toUInt32 <<< 6 ||| (first >>> 2).toUInt32, pos + 1))
    else if first &&& 3 = 2 ∧ 3 ≤ input.length - pos then do
      let b₀ := (← readAt input pos 1).headD 0
      let b₁ := (← readAt input (pos + 1) 1).headD 0
      let b₂ := (← readAt input (pos + 2) 1).headD 0
      some (some ((first >>> 2).toUInt32 ||| b₀.toUInt32 <<< 6 ||| b₁.toUInt32 <<< 14
        ||| b₂.toUInt32 <<< 22, pos + 3))
    else some none

section
variable {η : Type} (host : Host η) (hash : Bytes → Hash)

/-- `request_id_matches` on an operation at a position, with a command of `size` bytes. -/
def requestIdMatchesAt (input : Bytes) (pos size : Nat) : Option Bool := do
  let submitter ← readAt input (pos + 32) 32
  let encodedNonce ← readAt input (pos + 64) 8
  let encodedCommand ← readAt input (pos + 72) size
  let requestId ← readAt input pos 32
  some (requestIdMatches hash requestId submitter encodedNonce encodedCommand)

/-- `write_rejected` for the operation at a position. -/
def writeRejectedAt (input : Bytes) (pos : Nat) (code : UInt32) (env : Env η) :
    Option (Env η) := do
  let requestId ← readAt input pos 32
  some (writeRejected host requestId code env)

/-- `create_service` for the operation at a position. -/
def createServiceAt (input : Bytes) (pos : Nat) (nonce : UInt64) (env : Env η) :
    Option (Env η) := do
  let codeHash ← readAt input (pos + 73) 32
  let codeLen ← readAt input (pos + 73 + 32) 4
  let minItemGas ← readAt input (pos + 73 + 36) 8
  let minMemoGas ← readAt input (pos + 73 + 44) 8
  let requestId ← readAt input pos 32
  let submitter ← readAt input (pos + 32) 32
  some (createServiceWith host requestId submitter nonce codeHash (loadU32 codeLen)
    (loadU64 minItemGas) (loadU64 minMemoGas) env)

/-- `apply_allocation` and `write_nonce` for the operation at a position. -/
def applyAllocationAt (input : Bytes) (pos : Nat) (nonce : UInt64) (env : Env η) :
    Option (Env η) := do
  let allocationId ← readAt input (pos + 73) 8
  let submitter ← readAt input (pos + 32) 32
  some (writeNonce host submitter nonce
    (writeAllocationReceipt host (loadU64 allocationId) 0 0 env))

/-- One turn of the loop: the position after the operation, or none when the program
returns. -/
def operationAt (input : Bytes) (pos : Nat) (env : Env η) : Option (Option Nat × Env η) :=
  if input.length - pos < 73 then some (none, env)
  else do
    let nonce := loadU64 (← readAt input (pos + 64) 8)
    let command ← readAt input (pos + 72) 1
    if command = [0] then
      if input.length - (pos + 73) < 52 then some (none, env)
      else do
        let matched ← requestIdMatchesAt hash input pos 53
        let env ← if matched then createServiceAt host input pos nonce env
          else writeRejectedAt host input pos rejectRequestId env
        some (some (pos + 73 + 52), env)
    else if command = [1] then
      if input.length - (pos + 73) < 20 then some (none, env)
      else do
        let matched ← requestIdMatchesAt hash input pos 21
        let env ← if matched then applyAllocationAt host input pos nonce env
          else writeRejectedAt host input pos rejectRequestId env
        some (some (pos + 73 + 20), env)
    else do
      let env ← writeRejectedAt host input pos rejectCommand env
      some (none, env)

/-- The loop over the operations, and what follows it. -/
def operationsAt (input : Bytes) : Nat → Nat → Env η → Option (Env η)
  | 0, pos, env => some (if pos = input.length then { env with yielded := true } else env)
  | count + 1, pos, env =>
    match operationAt host hash input pos env with
    | none => none
    | some (none, env) => some env
    | some (some pos, env) => operationsAt input count pos env

/-- `MINIJAM_ACCUMULATE` with its reads checked. -/
def accumulateAt (payload : Option Bytes) (env : Env η) : Option (Env η) :=
  match payload with
  | none => some env
  | some input =>
    if input.length > systemInputMax then some env
    else
      match compactU32At input 0 with
      | none => none
      | some none => some env
      | some (some (count, pos)) =>
        if count > 64 then some env else operationsAt host hash input count.toNat pos env

end

end MiniJam.SystemService
