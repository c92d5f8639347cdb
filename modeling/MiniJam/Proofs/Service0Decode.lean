import MiniJam.Proofs.Service0Runs
import MiniJam.SystemService.Reads

/-!
# `MiniJam.Proofs.Service0Decode`: Service 0 reads what the runtime writes

First the reads: on every input the program stays inside it, and pointers and cursors give
the same run (`accumulateAt_eq`). Then what is read from an encoded batch: the operations
with their fields, each in its turn (`accumulate_processes`). Last the receipts, which are
encodings of `SystemReceiptV2` (`receipts_decode`).
-/

set_option autoImplicit false

namespace MiniJam.SystemService

open Scale

/-! ### Positions and cursors -/

section
variable {η : Type} (host : Host η) (hash : Bytes → Hash) {input : Bytes} {pos : Nat}

/-- A read inside the input. -/
theorem readAt_of_le {n k : Nat} (h : pos + k + n ≤ input.length) :
    readAt input (pos + k) n = some (((input.drop pos).drop k).take n) := by
  unfold readAt
  rw [if_pos h, List.drop_drop]

theorem loadU64_take (bytes : Bytes) : loadU64 (bytes.take 8) = loadU64 bytes := by
  unfold loadU64
  rw [List.take_take, Nat.min_self]

theorem loadU32_take (bytes : Bytes) : loadU32 (bytes.take 4) = loadU32 bytes := by
  unfold loadU32
  rw [List.take_take, Nat.min_self]

/-- One byte at a position. -/
theorem readAt_one (h : pos < input.length) :
    readAt input pos 1 = some [input[pos]] := by
  unfold readAt
  rw [if_pos (by omega), List.drop_eq_getElem_cons h]
  rfl

/-- The batch length is read inside the input. -/
theorem compactU32At_eq (input : Bytes) :
    ∃ found, compactU32At input 0 = some found ∧
      compactU32 input = found.map (fun read => (read.1, input.drop read.2)) ∧
      ∀ read ∈ found, read.2 ≤ input.length := by
  unfold compactU32At
  -- The cases are those of the bytes that are there: none, one, or enough for a form.
  cases input with
  | nil => exact ⟨none, rfl, rfl, by simp⟩
  | cons first rest =>
    rw [if_neg (by simp), readAt_one (by simp)]
    by_cases hzero : first &&& 3 = 0
    · exact ⟨some ((first >>> 2).toUInt32, 1), by simp [hzero], by simp [compactU32, hzero],
        by simp⟩
    · cases rest with
      | nil => exact ⟨none, by simp [hzero], by simp [compactU32, hzero], by simp⟩
      | cons b₀ rest =>
        by_cases hone : first &&& 3 = 1
        · refine ⟨some (b₀.toUInt32 <<< 6 ||| (first >>> 2).toUInt32, 2), ?_, ?_, by simp⟩
          · simp [hone, readAt]
          · simp [compactU32, hone]
        · by_cases htwo : first &&& 3 = 2
          · rcases rest with _ | ⟨b₁, _ | ⟨b₂, rest⟩⟩
            · exact ⟨none, by simp [htwo], by simp [compactU32, htwo], by simp⟩
            · exact ⟨none, by simp [htwo], by simp [compactU32, htwo], by simp⟩
            · refine ⟨some ((first >>> 2).toUInt32 ||| b₀.toUInt32 <<< 6 ||| b₁.toUInt32 <<< 14
                ||| b₂.toUInt32 <<< 22, 4), ?_, ?_, by simp⟩
              · simp [htwo, readAt]
              · simp [compactU32, htwo]
          · refine ⟨none, by simp [hzero, hone, htwo], ?_, by simp⟩
            simp only [compactU32, if_neg hzero, if_neg hone, if_neg htwo, Option.map_none]
            split <;> rfl

/-- The request id is checked on bytes of the operation. -/
theorem requestIdMatchesAt_eq {size : Nat} (h : pos + 72 + size ≤ input.length) :
    requestIdMatchesAt hash input pos size =
      some (requestIdMatches hash ((input.drop pos).take 32) (((input.drop pos).drop 32).take 32)
        (((input.drop pos).drop 64).take 8) (((input.drop pos).drop 72).take size)) := by
  have hid : readAt input pos 32 = some ((input.drop pos).take 32) :=
    readAt_of_le (k := 0) (by omega)
  unfold requestIdMatchesAt
  rw [readAt_of_le (by omega), readAt_of_le (by omega), readAt_of_le h, hid]
  rfl

theorem writeRejectedAt_eq (h : pos + 32 ≤ input.length) (code : UInt32) (env : Env η) :
    writeRejectedAt host input pos code env =
      some (writeRejected host ((input.drop pos).take 32) code env) := by
  have hid : readAt input pos 32 = some ((input.drop pos).take 32) :=
    readAt_of_le (k := 0) (by omega)
  unfold writeRejectedAt
  rw [hid]
  rfl

theorem createServiceAt_eq (h : pos + 73 + 52 ≤ input.length) (nonce : UInt64) (env : Env η) :
    createServiceAt host input pos nonce env =
      some (createService host ((input.drop pos).take 32) (((input.drop pos).drop 32).take 32)
        nonce ((input.drop pos).drop 73) env) := by
  have hid : readAt input pos 32 = some ((input.drop pos).take 32) :=
    readAt_of_le (k := 0) (by omega)
  unfold createServiceAt
  rw [Nat.add_assoc pos 73 32, Nat.add_assoc pos 73 36, Nat.add_assoc pos 73 44,
    readAt_of_le (by omega), readAt_of_le (by omega), readAt_of_le (by omega),
    readAt_of_le (by omega), readAt_of_le (by omega), hid]
  unfold createService
  simp only [Option.bind_eq_bind, Option.bind_some, loadU32_take, loadU64_take, List.drop_drop]

theorem applyAllocationAt_eq (h : pos + 73 + 20 ≤ input.length) (nonce : UInt64) (env : Env η) :
    applyAllocationAt host input pos nonce env =
      some (writeNonce host (((input.drop pos).drop 32).take 32) nonce
        (applyAllocation host ((input.drop pos).drop 73) env)) := by
  unfold applyAllocationAt
  rw [readAt_of_le (by omega), readAt_of_le (by omega)]
  simp only [Option.bind_eq_bind, Option.bind_some, loadU64_take]
  rfl

/-- The tag of a command, read as one byte or taken from the front. -/
theorem take_one_eq (bytes : Bytes) (h : 0 < bytes.length) (tag : UInt8) :
    bytes.take 1 = [tag] ↔ bytes.head? = some tag := by
  cases bytes with
  | nil => cases h
  | cons b rest => simp

/-- One turn of the loop stays inside the input, and ends at a position inside it. -/
theorem operationAt_eq (hpos : pos ≤ input.length) (env : Env η) :
    ∃ next, operationAt host hash input pos env =
        some (next, (operation host hash (input.drop pos) env).2) ∧
      (operation host hash (input.drop pos) env).1 = next.map (fun pos => input.drop pos) ∧
      ∀ pos ∈ next, pos ≤ input.length := by
  unfold operationAt operation
  rw [List.length_drop]
  -- Each length check of the code keeps the reads after it inside the input.
  by_cases hshort : input.length - pos < 73
  · rw [if_pos hshort, if_pos hshort]
    exact ⟨none, rfl, rfl, by simp⟩
  rw [if_neg hshort, if_neg hshort, readAt_of_le (by omega), readAt_of_le (by omega)]
  have htag := take_one_eq ((input.drop pos).drop 72) (by simp only [List.length_drop]; omega)
  simp only [Option.bind_eq_bind, Option.bind_some, loadU64_take, htag, List.length_drop,
    Nat.sub_sub]
  by_cases hcreate : ((input.drop pos).drop 72).head? = some 0
  · rw [if_pos hcreate, if_pos hcreate]
    by_cases hlong : input.length - (pos + 73) < 52
    · rw [if_pos hlong, if_pos hlong]
      exact ⟨none, rfl, rfl, by simp⟩
    · rw [if_neg hlong, if_neg hlong, requestIdMatchesAt_eq hash (by omega), Option.bind_some]
      refine ⟨some (pos + 73 + 52), ?_, ?_, by simp; omega⟩
      · split_ifs
        · rw [createServiceAt_eq host (by omega), Option.bind_some]
        · rw [writeRejectedAt_eq host (by omega), Option.bind_some]
      · split_ifs <;> simp only [Option.map_some, List.drop_drop, Nat.add_assoc]
  · rw [if_neg hcreate, if_neg hcreate]
    by_cases happly : ((input.drop pos).drop 72).head? = some 1
    · rw [if_pos happly, if_pos happly]
      by_cases hlong : input.length - (pos + 73) < 20
      · rw [if_pos hlong, if_pos hlong]
        exact ⟨none, rfl, rfl, by simp⟩
      · rw [if_neg hlong, if_neg hlong, requestIdMatchesAt_eq hash (by omega), Option.bind_some]
        refine ⟨some (pos + 73 + 20), ?_, ?_, by simp; omega⟩
        · split_ifs
          · rw [applyAllocationAt_eq host (by omega), Option.bind_some]
          · rw [writeRejectedAt_eq host (by omega), Option.bind_some]
        · split_ifs <;> simp only [Option.map_some, List.drop_drop, Nat.add_assoc]
    · rw [if_neg happly, if_neg happly, writeRejectedAt_eq host (by omega), Option.bind_some]
      exact ⟨none, rfl, rfl, by simp⟩

theorem operationsAt_eq (count : Nat) (hpos : pos ≤ input.length) (env : Env η) :
    operationsAt host hash input count pos env =
      some (operations host hash count (input.drop pos) env) := by
  induction count generalizing pos env with
  | zero =>
    unfold operationsAt operations
    have hend : pos = input.length ↔ input.drop pos = [] := by
      rw [List.drop_eq_nil_iff]
      omega
    simp only [hend]
  | succ count ih =>
    obtain ⟨next, hat, hnext, hinside⟩ := operationAt_eq host hash hpos env
    unfold operationsAt operations
    rw [hat]
    generalize operation host hash (input.drop pos) env = turn at hnext ⊢
    obtain ⟨cursor, env'⟩ := turn
    cases next with
    | none =>
      cases hnext
      rfl
    | some next =>
      cases hnext
      exact ih (hinside next rfl) env'

/-- On every input the program reads inside it only, and does what it does on cursors. -/
theorem accumulateAt_eq (payload : Option Bytes) (env : Env η) :
    accumulateAt host hash payload env = some (accumulate host hash payload env) := by
  cases payload with
  | none => rfl
  | some input =>
    obtain ⟨found, hat, hfound, hinside⟩ := compactU32At_eq input
    unfold accumulateAt accumulate
    dsimp only
    rw [hat, hfound]
    split_ifs
    · rfl
    · cases found with
      | none => rfl
      | some read =>
        dsimp only [Option.map_some]
        split_ifs
        · rfl
        · exact operationsAt_eq host hash _ (hinside read rfl) env

end

/-! ### The operations of an encoded batch -/

section
variable {η : Type} {host : Host η} {hash : Bytes → Hash}

/-- A turn reads an operation: its fields are at the cursor, its id is found right, and what
the turn leaves is what the operation stands for. -/
structure Turn.Reads (host : Host η) (hash : Bytes → Hash) (t : Turn η) (op : SystemOpV2) :
    Prop where
  requestId : t.requestId = op.requestId.toList
  submitter : t.submitter = op.submitter.toList
  nonce : t.nonce = op.nonce
  command : (t.cursor.drop 72).take op.command.encode.length = op.command.encode
  matched : requestIdMatches hash t.requestId t.submitter ((t.cursor.drop 64).take 8)
    ((t.cursor.drop 72).take op.command.encode.length) = true
  after : t.after host hash = process host op t.env

theorem Turn.reads_encode {op : SystemOpV2} (hid : Identified hash op) (rest : Bytes)
    (env : Env η) : Turn.Reads host hash ⟨op.encode ++ rest, env⟩ op := by
  have hsubmitter : ((op.encode ++ rest).drop 32).take 32 = op.submitter.toList := by
    rw [drop_requestId]
    exact List.take_left' (by simp)
  have hencoded : ((op.encode ++ rest).drop 64).take 8 = encodeU64 op.nonce := by
    rw [drop_submitter]
    exact List.take_left' (by simp)
  have hcommand : ((op.encode ++ rest).drop 72).take op.command.encode.length =
      op.command.encode := by
    rw [drop_nonce]
    exact List.take_left' rfl
  refine ⟨take_requestId op rest, hsubmitter, ?_, hcommand, ?_, ?_⟩
  · show loadU64 ((op.encode ++ rest).drop 64) = op.nonce
    rw [drop_submitter, loadU64_encode]
  · show requestIdMatches hash ((op.encode ++ rest).take 32) (((op.encode ++ rest).drop 32).take 32)
      (((op.encode ++ rest).drop 64).take 8) _ = true
    rw [hcommand, take_requestId, hsubmitter, hencoded]
    exact (requestIdMatches_iff hash op).mpr hid
  · show (operation host hash (op.encode ++ rest) env).2 = process host op env
    rw [operation_encode]
    exact perform_identified host hid env

/-- The turns of the loop read the operations, each in its turn. -/
theorem turns_encode (ops : List SystemOpV2) (hids : ∀ op ∈ ops, Identified hash op)
    (env : Env η) :
    List.Forall₂ (Turn.Reads host hash)
      (turns host hash ops.length (ops.flatMap SystemOpV2.encode) env) ops := by
  induction ops generalizing env with
  | nil => exact List.Forall₂.nil
  | cons op ops ih =>
    rw [List.length_cons, List.flatMap_cons, turns, operation_encode]
    refine List.Forall₂.cons (Turn.reads_encode (hids op List.mem_cons_self) _ env) ?_
    exact ih (fun op' hop' => hids op' (List.mem_cons_of_mem _ hop')) _

theorem performAll_identified (ops : List SystemOpV2) (hids : ∀ op ∈ ops, Identified hash op)
    (env : Env η) :
    performAll host hash ops env = ops.foldl (fun env op => process host op env) env := by
  induction ops generalizing env with
  | nil => rfl
  | cons op ops ih =>
    show performAll host hash ops (perform host hash op env) = _
    rw [perform_identified host (hids op List.mem_cons_self), List.foldl_cons]
    exact ih (fun op' hop' => hids op' (List.mem_cons_of_mem _ hop')) _

/-! ### Receipts -/

/-- What was written under the key of a receipt decodes to a receipt. -/
def ReceiptsDecode (env : Env η) : Prop :=
  ∀ requestId value, (receiptKey requestId, value) ∈ env.writes →
    ∃ receipt, SystemReceiptV2.decode value = some (receipt, [])

theorem receiptsDecode_storageWrite {env : Env η} (h : ReceiptsDecode env) {key value : Bytes}
    (hvalue : ∀ requestId, key = receiptKey requestId →
      ∃ receipt : SystemReceiptV2, value = receipt.encode) :
    ReceiptsDecode (storageWrite host key value env) := by
  intro requestId written hmem
  rw [storageWrite_writes] at hmem
  rcases List.mem_append.mp hmem with hold | hnew
  · exact h requestId written hold
  · obtain ⟨rfl, rfl⟩ := Prod.mk.inj (List.mem_singleton.mp hnew)
    obtain ⟨receipt, rfl⟩ := hvalue requestId rfl
    have hdecode := receipt.decode_encode []
    rw [List.append_nil] at hdecode
    exact ⟨receipt, hdecode⟩

/-- Rejections and created services are answered with encoded receipts; nonces and
allocations are stored elsewhere. -/
theorem receiptsDecode_process (op : SystemOpV2) {env : Env η} (h : ReceiptsDecode env) :
    ReceiptsDecode (process host op env) := by
  have hrejected : ∀ (code : UInt32) (state : η), ReceiptsDecode
      (writeRejected host op.requestId.toList code { env with host := state }) :=
    fun code state => receiptsDecode_storageWrite (by exact h) fun _ _ => ⟨.rejected code, rfl⟩
  have hnonce : ∀ {env : Env η}, ReceiptsDecode env →
      ReceiptsDecode (writeNonce host op.submitter.toList op.nonce env) :=
    fun h => receiptsDecode_storageWrite h fun _ hkey =>
      absurd hkey (lastNonceKey_ne_receiptKey _ _)
  unfold process
  cases op.command with
  | createService codeHash codeLen minItemGas minMemoGas =>
    unfold createServiceWith
    dsimp only
    split_ifs
    · exact hrejected _ env.host
    · exact hrejected _ _
    · exact hrejected _ _
    · refine hnonce (receiptsDecode_storageWrite (by exact h) fun _ _ => ⟨.serviceCreated _, rfl⟩)
  | applyAllocation allocationId targetService amount =>
    refine hnonce (receiptsDecode_storageWrite h fun _ hkey => ?_)
    exact absurd hkey (allocationKey_ne_receiptKey _ _)

theorem receiptsDecode_foldl (ops : List SystemOpV2) (env : Env η) (h : ReceiptsDecode env) :
    ReceiptsDecode (ops.foldl (fun env op => process host op env) env) := by
  induction ops generalizing env with
  | nil => exact h
  | cons op ops ih => exact ih _ (receiptsDecode_process op h)

end

/-! ### The two sides together -/

/-- Service 0 decodes what the runtime encodes. On the encoding of a batch of operations made
by `SystemOpV2::new` it stays inside the input, reads each operation in its turn with the
fields it has and its id found right, does what the operations stand for one after the
other, and yields at the end of the input. What it writes under the key of a receipt decodes
to a receipt. -/
theorem service0_decodes_batch {η : Type} (c : Crypto) (host : Host η) (batch : SystemOpBatch)
    (hnew : ∀ op ∈ batch.toList, op = SystemOpV2.new c op.submitter op.nonce op.command)
    (storage : Bytes → Option Bytes) (state : η) :
    let env : Env η := { storage := storage, host := state }
    let final := batch.toList.foldl (fun env op => process host op env) env
    accumulateAt host c.blake2_256 (some batch.encode) env = some { final with yielded := true } ∧
    List.Forall₂ (Turn.Reads host c.blake2_256)
      (accumulateTurns host c.blake2_256 (some batch.encode) env) batch.toList ∧
    ∀ (requestId : Hash) (value : Bytes), (receiptKey requestId.toList, value) ∈ final.writes →
      ∃ receipt, SystemReceiptV2.decode value = some (receipt, []) := by
  intro env final
  have hids : ∀ op ∈ batch.toList, Identified c.blake2_256 op := by
    intro op hop
    exact (congrArg SystemOpV2.requestId (hnew op hop)).symm
  refine ⟨?_, ?_, ?_⟩
  · rw [accumulateAt_eq, accumulate_encode, performAll_identified _ hids]
  · obtain ⟨count, hcompact, hcount, hle⟩ := compactU32_encode_batch batch
    simp only [accumulateTurns, if_neg (Nat.not_lt.mpr (length_encode_batch batch)), hcompact,
      if_neg hle, hcount]
    exact turns_encode batch.toList hids env
  · intro requestId value hmem
    refine receiptsDecode_foldl batch.toList env ?_ requestId.toList value hmem
    intro requestId value hmem
    cases hmem

open Reference

/-- A batch with both kinds of operation, the last with a nonce that was used. -/
def mixedBatch : SystemOpBatch :=
  let create (nonce : UInt64) := SystemOpV2.new crypto alice nonce
    (.createService (FixedBytes.fill 32 5) 1 2 3)
  let allocate := SystemOpV2.new crypto bob 4 (.applyAllocation 9 1 10)
  ⟨[create 7, allocate, create 7], by simp⟩

/-- The first operation is answered with the service it created, the last with a rejection. -/
theorem service0_decodes_batch_mixed :
    let final := mixedBatch.toList.foldl (fun env op => process countingHost op env) emptyEnv
    (∀ op ∈ mixedBatch.toList,
      op = SystemOpV2.new crypto op.submitter op.nonce op.command) ∧
    (final.writes.filter fun write => decide (write.1.take 15 = ascii "system/receipt/")).map
        (fun write => SystemReceiptV2.decode write.2) =
      [some (.serviceCreated 1, []), some (.rejected rejectNonce, [])] ∧
    accumulateAt countingHost crypto.blake2_256 (some mixedBatch.encode) emptyEnv =
      some { final with yielded := true } ∧
    List.Forall₂ (Turn.Reads countingHost crypto.blake2_256)
      (accumulateTurns countingHost crypto.blake2_256 (some mixedBatch.encode) emptyEnv)
      mixedBatch.toList ∧
    ∀ (requestId : Hash) (value : Bytes), (receiptKey requestId.toList, value) ∈ final.writes →
      ∃ receipt, SystemReceiptV2.decode value = some (receipt, []) := by
  have hnew : ∀ op ∈ mixedBatch.toList,
      op = SystemOpV2.new crypto op.submitter op.nonce op.command := by
    decide +kernel
  exact ⟨hnew, by decide +kernel,
    service0_decodes_batch crypto countingHost mixedBatch hnew (fun _ => none) 0⟩

end MiniJam.SystemService
