import MiniJam.Protocol.Executor
import MiniJam.SystemService.Accumulate

/-!
# `MiniJam.Proofs.Service0`: Service 0 on an encoded batch

`accumulate_encode` takes the C program from bytes to operations: on the encoding of a batch
its loop reads the operations one by one and performs each in turn.
-/

set_option autoImplicit false

namespace MiniJam.SystemService

open Scale

/-! ### Reading what was encoded -/

theorem loadU64_encode (x : UInt64) (rest : Bytes) : loadU64 (encodeU64 x ++ rest) = x := by
  have hx : x.toNat < 256 ^ 8 := x.toNat_lt
  unfold loadU64 encodeU64
  rw [List.take_left' (length_leBytes 8 _), leVal_leBytes, Nat.mod_eq_of_lt hx]
  exact UInt64.ofNat_toNat

theorem loadU32_encode (x : UInt32) (rest : Bytes) : loadU32 (encodeU32 x ++ rest) = x := by
  have hx : x.toNat < 256 ^ 4 := x.toNat_lt
  unfold loadU32 encodeU32
  rw [List.take_left' (length_leBytes 4 _), leVal_leBytes, Nat.mod_eq_of_lt hx]
  exact UInt32.ofNat_toNat

/-- The two encodings a batch length can have. -/
theorem compactU32_compact {n : Nat} (h : n ≤ 64) (rest : Bytes) :
    compactU32 (compact n ++ rest) = some (UInt32.ofNat n, rest) := by
  have hone : ∀ n : Fin 64, UInt8.ofNat (n.val * 4 % 256) &&& 3 = 0 ∧
      (UInt8.ofNat (n.val * 4 % 256) >>> 2).toUInt32 = UInt32.ofNat n.val := by decide
  rcases Nat.lt_or_eq_of_le h with hlt | rfl
  · obtain ⟨hmode, hvalue⟩ := hone ⟨n, hlt⟩
    have hcompact : compact n ++ rest = UInt8.ofNat (n * 4 % 256) :: rest := by
      unfold compact
      rw [if_pos (by omega)]
      rfl
    rw [hcompact]
    simp only [compactU32, hmode, hvalue, if_true]
  · rfl

theorem length_encode_command (command : SystemCommandV2) :
    command.encode.length = 53 ∨ command.encode.length = 21 := by
  cases command with
  | createService codeHash codeLen minItemGas minMemoGas =>
    left
    simp [SystemCommandV2.encode, encodeU8]
  | applyAllocation allocationId targetService amount =>
    right
    simp [SystemCommandV2.encode, encodeU8]

section
variable (op : SystemOpV2) (rest : Bytes)

/-- The fields of an operation in front of the cursor. -/
theorem take_requestId : (op.encode ++ rest).take 32 = op.requestId.toList := by
  simp only [SystemOpV2.encode, List.append_assoc]
  exact List.take_left' (by simp)

theorem drop_requestId : (op.encode ++ rest).drop 32 =
    op.submitter.toList ++ (encodeU64 op.nonce ++ (op.command.encode ++ rest)) := by
  simp only [SystemOpV2.encode, List.append_assoc]
  exact List.drop_left' (by simp)

theorem drop_submitter : (op.encode ++ rest).drop 64 =
    encodeU64 op.nonce ++ (op.command.encode ++ rest) := by
  rw [show 64 = 32 + 32 from rfl, ← List.drop_drop, drop_requestId]
  exact List.drop_left' (by simp)

theorem drop_nonce : (op.encode ++ rest).drop 72 = op.command.encode ++ rest := by
  rw [show 72 = 64 + 8 from rfl, ← List.drop_drop, drop_submitter]
  exact List.drop_left' (by simp)

end

/-! ### One operation -/

section
variable {η : Type} (host : Host η) (hash : Bytes → Hash)

/-- The fields of a command that creates a service, as bytes after the tag. -/
def createFields (codeHash : Hash) (codeLen : UInt32) (minItemGas minMemoGas : UInt64) : Bytes :=
  codeHash.toList ++ encodeU32 codeLen ++ encodeU64 minItemGas ++ encodeU64 minMemoGas

/-- What the program does for an operation whose request id is right. -/
def process (op : SystemOpV2) (env : Env η) : Env η :=
  match op.command with
  | .createService codeHash codeLen minItemGas minMemoGas =>
    createServiceWith host op.requestId.toList op.submitter.toList op.nonce codeHash.toList
      codeLen minItemGas minMemoGas env
  | .applyAllocation allocationId _ _ =>
    writeNonce host op.submitter.toList op.nonce (writeAllocationReceipt host allocationId 0 0 env)

/-- The operation carries the id that is computed from its fields. -/
def Identified (op : SystemOpV2) : Prop :=
  hash (SystemOpV2.requestPayload op.submitter op.nonce op.command) = op.requestId

/-- What the program does for an operation. -/
def perform (op : SystemOpV2) (env : Env η) : Env η :=
  if hash (SystemOpV2.requestPayload op.submitter op.nonce op.command) = op.requestId then
    process host op env
  else writeRejected host op.requestId.toList rejectRequestId env

variable {hash} in
theorem perform_identified {op : SystemOpV2} (hid : Identified hash op) (env : Env η) :
    perform host hash op env = process host op env :=
  if_pos hid

/-- The fields of a command are read back. -/
theorem createService_createFields (requestId submitter : Bytes) (nonce : UInt64)
    (codeHash : Hash) (codeLen : UInt32) (minItemGas minMemoGas : UInt64) (rest : Bytes) :
    createService host requestId submitter nonce
        (createFields codeHash codeLen minItemGas minMemoGas ++ rest) =
      createServiceWith host requestId submitter nonce codeHash.toList codeLen minItemGas
        minMemoGas := by
  have hcode : (createFields codeHash codeLen minItemGas minMemoGas ++ rest).take 32 =
      codeHash.toList := by
    simp only [createFields, List.append_assoc]
    exact List.take_left' (by simp)
  have hlen : (createFields codeHash codeLen minItemGas minMemoGas ++ rest).drop 32 =
      encodeU32 codeLen ++ (encodeU64 minItemGas ++ (encodeU64 minMemoGas ++ rest)) := by
    simp only [createFields, List.append_assoc]
    exact List.drop_left' (by simp)
  have hitem : (createFields codeHash codeLen minItemGas minMemoGas ++ rest).drop 36 =
      encodeU64 minItemGas ++ (encodeU64 minMemoGas ++ rest) := by
    rw [show 36 = 32 + 4 from rfl, ← List.drop_drop, hlen]
    exact List.drop_left' (by simp)
  have hmemo : (createFields codeHash codeLen minItemGas minMemoGas ++ rest).drop 44 =
      encodeU64 minMemoGas ++ rest := by
    rw [show 44 = 36 + 8 from rfl, ← List.drop_drop, hitem]
    exact List.drop_left' (by simp)
  unfold createService
  rw [hcode, hlen, hitem, hmemo, loadU32_encode, loadU64_encode, loadU64_encode]

/-- The request id is compared with the hash of the operation's own bytes. -/
theorem requestIdMatches_iff (op : SystemOpV2) :
    requestIdMatches hash op.requestId.toList op.submitter.toList (encodeU64 op.nonce)
      op.command.encode = true ↔
      hash (SystemOpV2.requestPayload op.submitter op.nonce op.command) = op.requestId := by
  unfold requestIdMatches SystemOpV2.requestPayload
  rw [decide_eq_true_iff]
  exact List.Vector.toList_injective.eq_iff

/-- One turn of the loop, with the fields in front of the command read. -/
theorem operation_fields (op : SystemOpV2) (rest : Bytes) (env : Env η) :
    operation host hash (op.encode ++ rest) env =
      let bytes := op.command.encode ++ rest
      let id := op.requestId.toList
      let submitter := op.submitter.toList
      if bytes.head? = some 0 then
        if (bytes.drop 1).length < 52 then (none, env)
        else if requestIdMatches hash id submitter (encodeU64 op.nonce) (bytes.take 53) then
          (some ((bytes.drop 1).drop 52),
            createService host id submitter op.nonce (bytes.drop 1) env)
        else (some ((bytes.drop 1).drop 52), writeRejected host id rejectRequestId env)
      else if bytes.head? = some 1 then
        if (bytes.drop 1).length < 20 then (none, env)
        else if requestIdMatches hash id submitter (encodeU64 op.nonce) (bytes.take 21) then
          (some ((bytes.drop 1).drop 20),
            writeNonce host submitter op.nonce (applyAllocation host (bytes.drop 1) env))
        else (some ((bytes.drop 1).drop 20), writeRejected host id rejectRequestId env)
      else (none, writeRejected host id rejectCommand env) := by
  -- The fields begin at the offsets 0, 32, 64 and 72.
  have hnonce : loadU64 ((op.encode ++ rest).drop 64) = op.nonce := by
    rw [drop_submitter, loadU64_encode]
  have hencoded : ((op.encode ++ rest).drop 64).take 8 = encodeU64 op.nonce := by
    rw [drop_submitter]
    exact List.take_left' (by simp)
  have hsubmitter : ((op.encode ++ rest).drop 32).take 32 = op.submitter.toList := by
    rw [drop_requestId]
    exact List.take_left' (by simp)
  have hafter : (op.encode ++ rest).drop 73 = (op.command.encode ++ rest).drop 1 := by
    rw [show 73 = 72 + 1 from rfl, ← List.drop_drop, drop_nonce]
  have hlength : ¬ (op.encode ++ rest).length < 73 := by
    have := length_encode_command op.command
    simp only [SystemOpV2.encode, List.length_append, List.Vector.toList_length, length_encodeU64]
    omega
  unfold operation
  rw [if_neg hlength]
  simp only [take_requestId, hsubmitter, hencoded, hnonce, drop_nonce, hafter]

/-- One turn of the loop performs the operation at the cursor. -/
theorem operation_encode (op : SystemOpV2) (rest : Bytes) (env : Env η) :
    operation host hash (op.encode ++ rest) env = (some rest, perform host hash op env) := by
  have hmatches := requestIdMatches_iff hash op
  rw [operation_fields]
  unfold perform process
  -- The tag of the command decides the branch, and its length where the next one starts.
  cases hcommand : op.command with
  | createService codeHash codeLen minItemGas minMemoGas =>
    have hbytes : (SystemCommandV2.createService codeHash codeLen minItemGas minMemoGas).encode =
        0 :: createFields codeHash codeLen minItemGas minMemoGas := by
      simp [SystemCommandV2.encode, createFields, encodeU8]
    rw [hcommand, hbytes] at hmatches
    dsimp only
    have hfields : (createFields codeHash codeLen minItemGas minMemoGas).length = 52 := by
      simp [createFields]
    have hcreate := createService_createFields host op.requestId.toList op.submitter.toList
      op.nonce codeHash codeLen minItemGas minMemoGas rest
    generalize createFields codeHash codeLen minItemGas minMemoGas = fields at *
    have htake : ((0 :: fields) ++ rest).take 53 = 0 :: fields :=
      List.take_left' (by simp [hfields])
    rw [List.cons_append] at htake
    have hdrop : (fields ++ rest).drop 52 = rest := List.drop_left' hfields
    rw [hbytes]
    simp only [List.cons_append, htake, List.head?_cons, if_true, List.drop_succ_cons,
      List.drop_zero, hdrop, hcreate]
    rw [if_neg (by rw [List.length_append]; omega)]
    split_ifs with h₁ h₂ h₂
    · rfl
    · exact absurd (hmatches.mp h₁) h₂
    · exact absurd (hmatches.mpr h₂) h₁
    · rfl
  | applyAllocation allocationId targetService amount =>
    have hbytes : (SystemCommandV2.applyAllocation allocationId targetService amount).encode =
        1 :: (encodeU64 allocationId ++ (encodeU32 targetService ++ encodeU64 amount)) := by
      simp [SystemCommandV2.encode, encodeU8]
    rw [hcommand, hbytes] at hmatches
    have hfields : (encodeU64 allocationId ++
        (encodeU32 targetService ++ encodeU64 amount)).length = 20 := by
      simp
    have hid : loadU64 (encodeU64 allocationId ++ (encodeU32 targetService ++ encodeU64 amount) ++
        rest) = allocationId := by
      rw [List.append_assoc, loadU64_encode]
    generalize encodeU64 allocationId ++ (encodeU32 targetService ++ encodeU64 amount) = fields at *
    have htake : ((1 :: fields) ++ rest).take 21 = 1 :: fields :=
      List.take_left' (by simp [hfields])
    rw [List.cons_append] at htake
    have hdrop : (fields ++ rest).drop 20 = rest := List.drop_left' hfields
    rw [hbytes]
    simp only [List.cons_append, htake, List.head?_cons, List.drop_succ_cons, List.drop_zero,
      hdrop, applyAllocation, hid]
    rw [if_neg (by decide), if_pos trivial, if_neg (by rw [List.length_append]; omega)]
    split_ifs with h₁ h₂ h₂
    · rfl
    · exact absurd (hmatches.mp h₁) h₂
    · exact absurd (hmatches.mpr h₂) h₁
    · rfl

/-! ### The batch -/

/-- Perform operations in order. -/
def performAll (ops : List SystemOpV2) (env : Env η) : Env η :=
  ops.foldl (fun env op => perform host hash op env) env

theorem operations_encode (ops : List SystemOpV2) (env : Env η) :
    operations host hash ops.length (ops.flatMap SystemOpV2.encode) env =
      { performAll host hash ops env with yielded := true } := by
  induction ops generalizing env with
  | nil => rfl
  | cons op ops ih =>
    rw [List.flatMap_cons, List.length_cons, operations, operation_encode]
    exact ih _

/-- An operation takes at most 125 bytes. -/
theorem length_flatMap_encode (ops : List SystemOpV2) :
    (ops.flatMap SystemOpV2.encode).length ≤ ops.length * 125 := by
  induction ops with
  | nil => simp
  | cons op ops ih =>
    have := length_encode_command op.command
    have hop : op.encode.length ≤ 125 := by
      simp only [SystemOpV2.encode, List.length_append, List.Vector.toList_length,
        length_encodeU64]
      omega
    rw [List.flatMap_cons, List.length_append, List.length_cons]
    omega

/-- A batch is shorter than the input buffer. -/
theorem length_encode_batch (batch : SystemOpBatch) : batch.encode.length ≤ systemInputMax := by
  have hsum := length_flatMap_encode batch.toList
  have hcompact : (compact batch.toList.length).length ≤ 2 := by
    have := batch.length_le
    unfold compact
    split_ifs
    · simp
    · simp
    · omega
    · omega
  have := batch.length_le
  unfold SystemOpBatch.encode systemInputMax
  rw [List.length_append]
  omega

/-- The length in front of a batch is read, and is within the bound. -/
theorem compactU32_encode_batch (batch : SystemOpBatch) :
    ∃ count : UInt32, compactU32 batch.encode =
        some (count, batch.toList.flatMap SystemOpV2.encode) ∧
      count.toNat = batch.toList.length ∧ ¬ count > 64 := by
  have hcount := batch.length_le
  have hnat : (UInt32.ofNat batch.toList.length).toNat = batch.toList.length :=
    UInt32.toNat_ofNat_of_lt' (by simp only [UInt32.size]; omega)
  refine ⟨UInt32.ofNat batch.toList.length, compactU32_compact hcount _, hnat, ?_⟩
  rw [gt_iff_lt, UInt32.lt_iff_toNat_lt, hnat]
  show ¬ 64 < batch.toList.length
  omega

/-- On an encoded batch the program performs the operations in order. -/
theorem accumulate_encode (batch : SystemOpBatch) (env : Env η) :
    accumulate host hash (some batch.encode) env =
      { performAll host hash batch.toList env with yielded := true } := by
  obtain ⟨count, hcompact, hcount, hle⟩ := compactU32_encode_batch batch
  simp only [accumulate, if_neg (Nat.not_lt.mpr (length_encode_batch batch)), hcompact,
    if_neg hle, hcount]
  exact operations_encode host hash batch.toList env

/-! ### Keys -/

/-- The key of a nonce is no key of a receipt: they differ in their eighth byte. -/
theorem lastNonceKey_ne_receiptKey (sender requestId : Bytes) :
    lastNonceKey sender ≠ receiptKey requestId := by
  intro h
  have htake : ascii "system/l" = ascii "system/r" := congrArg (List.take 8) h
  exact absurd htake (by decide)

theorem lastNonceKey_ne_allocationKey (sender allocationId : Bytes) :
    lastNonceKey sender ≠ allocationKey allocationId := by
  intro h
  have htake : ascii "system/l" = ascii "system/a" := congrArg (List.take 8) h
  exact absurd htake (by decide)

end

end MiniJam.SystemService
