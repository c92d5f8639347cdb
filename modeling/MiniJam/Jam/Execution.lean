import MiniJam.Jam.Ingress

/-!
# `MiniJam.Jam.Execution`: the virtual block

At the end of a host block the pallet builds one input from its queues, hands it to the
executor, checks the output and commits it. Everything up to the check only reads the
storage, so it is written as functions of a state. The commit runs in a transaction; what
became of it is handled after the transaction, where a fatal failure panics. Each definition
follows the function of the same name in `pallets/minijam/src/lib.rs`.
-/

set_option autoImplicit false

namespace MiniJam.Jam

open Scale

variable {AccountId Ledger : Type} [DecidableEq AccountId] {T : Config AccountId Ledger}

/-! ### Host values -/

def hostParentHash (s : State T) (block : BlockNumber) : Hash :=
  T.workers.crypto.blake2_256 (s.base.blockHash (UInt32.ofNat (block.toNat - 1))).toList

def hostParentStateRoot (s : State T) (block : BlockNumber) : Hash :=
  T.workers.crypto.blake2_256 (ascii "minijam/parent-state-root" ++ (hostParentHash s block).toList)

def hostEntropy (T : Config AccountId Ledger) (block : BlockNumber) : Hash :=
  T.workers.crypto.blake2_256 (ascii "minijam/host-entropy" ++ encodeU32 block)

/-! ### Building the input -/

def candidateForWork (s : State T) (workId : WorkId) :
    Option (AssignmentRound × CandidateRecord AccountId) := do
  let work ← s.works.lookup workId
  let candidate ← s.candidates.lookup (workId, work.round)
  some (work.round, candidate)

/-- Split the queue into the items that are due and those that stay, both in queue order. -/
def splitQueue (maxReports : Nat) (reportsPaused : Bool) (block : BlockNumber)
    (queue : List ExecutionItem) : List ExecutionItem × List ExecutionItem :=
  queue.foldl (fun acc item =>
    if !reportsPaused ∧ item.executeAt ≤ block ∧ acc.1.length < maxReports then
      (acc.1 ++ [item], acc.2)
    else (acc.1, acc.2 ++ [item])) ([], [])

/-- The order of the due items: by work, then by report hash. -/
def dueKey (s : State T) (item : ExecutionItem) : Nat ×ₗ List Nat :=
  toLex (item.workId.toNat, (((candidateForWork s item.workId).map fun found =>
    found.2.envelope.canonicalReportHash).getD (FixedBytes.fill 32 0xff)).key)

def dueItems (s : State T) (block : BlockNumber) : List ExecutionItem :=
  sortByKey (dueKey s) (splitQueue T.maxExecutionReports.toNat s.reportImportPaused block
    s.executionQueue.toList).1

def retainedItems (s : State T) (block : BlockNumber) : List ExecutionItem :=
  (splitQueue T.maxExecutionReports.toNat s.reportImportPaused block
    s.executionQueue.toList).2

/-- The report of one due item. The work must still be accepted. -/
def dueReport (s : State T) (item : ExecutionItem) :
    Except ExecutionFailure CanonicalReportBytes :=
  match candidateForWork s item.workId with
  | none => .error .fatal
  | some (round, candidate) =>
    match s.works.lookup item.workId with
    | none => .error .fatal
    | some work =>
      if work.round ≠ round ∨ work.status ≠ .accepted then .error .fatal
      else .ok candidate.envelope.canonicalReport

/-- `try_into` with a fatal failure. -/
def tryIntoBatch {α : Type} {n : Nat} (l : List α) : Except ExecutionFailure (BoundedVec α n) :=
  match BoundedVec.tryFrom l with
  | some batch => .ok batch
  | none => .error .fatal

def pendingPreimageBatch (s : State T) : Except ExecutionFailure PreimageBatch :=
  tryIntoBatch ((sortByKey (fun preimage : PendingPreimage AccountId =>
    toLex (preimage.metadata.requester.toNat,
      toLex (preimage.metadata.blobHash.key, preimage.metadata.blobLen.toNat)))
    s.pendingPreimages.toList).map PendingPreimage.canonical)

def getPendingAllocations (s : State T) : List (PendingAllocation AccountId) :=
  sortByKey (fun pending => pending.allocation.allocationId.toNat)
    ((StorageMap.iter T.workers.iterOrder s.pendingAllocations).map Prod.snd)

def pendingAllocationInputs (s : State T) : List Bytes :=
  (getPendingAllocations s).map fun pending => pending.allocation.encode

def allocationSystemOp (s : State T) (allocation : AllocationV1) :
    Except ExecutionFailure SystemOpV2 :=
  let amount := jamAmount allocation.amount
  if amount.toNat ≠ allocation.amount then .error .fatal
  else match s.protocolState.lookup (serviceInfoStateKey allocation.targetService) with
    | none => .error .fatal
    | some bytes =>
      match T.codec.decodeServiceInfo bytes.toList with
      | none => .error .fatal
      | some (serviceInfo, _) =>
        if serviceInfo.minMemoGas = 0 then .error .fatal
        else .ok (SystemOpV2.new T.workers.crypto allocationSystemSender allocation.allocationId
          (.applyAllocation allocation.allocationId allocation.targetService amount))

/-- The operation of one encoded allocation. -/
def allocationInputOp (s : State T) (encoded : Bytes) : Except ExecutionFailure SystemOpV2 :=
  match AllocationV1.decode encoded with
  | none => .error .fatal
  | some (allocation, rest) =>
    if rest ≠ [] then .error .fatal else allocationSystemOp s allocation

/-- The pending system operations in batch order. -/
def sortedSystemOps (s : State T) : List SystemOpV2 :=
  (sortByKey (fun pending : PendingSystemOp AccountId =>
    toLex (pending.op.submitter.key, toLex (pending.op.nonce.toNat, pending.op.requestId.key)))
    s.pendingSystemOps.toList).map PendingSystemOp.op

def pendingSystemOpsBatch (s : State T) : Except ExecutionFailure SystemOpBatch := do
  let allocationOps ← (pendingAllocationInputs s).mapM (allocationInputOp s)
  tryIntoBatch (sortedSystemOps s ++ allocationOps)

/-- The preimages of the virtual block: none while they are paused. -/
def blockPreimages (s : State T) : Except ExecutionFailure PreimageBatch :=
  if s.preimageImportPaused then .ok BoundedVec.empty else pendingPreimageBatch s

/-- The system operations of the virtual block: none while they are paused. -/
def blockSystemOps (s : State T) : Except ExecutionFailure SystemOpBatch :=
  if s.systemOpsPaused then .ok BoundedVec.empty else pendingSystemOpsBatch s

/-- The input of the virtual block, up to the call of the executor. -/
def executionInput (s : State T) (block : BlockNumber) (due : List ExecutionItem) :
    Except ExecutionFailure MiniJamExecutionInput := do
  let reports ← due.mapM (dueReport s)
  let reports ← tryIntoBatch reports
  let preimages ← blockPreimages s
  let systemOps ← blockSystemOps s
  .ok
    { protocolVersion := protocolVersionV1
      slot := block
      parentHash := hostParentHash s block
      parentStateRoot := hostParentStateRoot s block
      entropy := hostEntropy T block
      reports := reports
      preimages := preimages
      systemOps := systemOps
      maxGas := T.maxExecutionGas }

/-! ### Failures of the executor and of the output check -/

/-- What an error of the executor means for the block. -/
def executionFailure (workIds : List WorkId) (input : MiniJamExecutionInput) :
    MiniJamError → ExecutionFailure
  | .execution outcome =>
    match workIds.head? with
    | some workId => .yielded workId outcome
    | none => if input.systemOps.toList ≠ [] then .systemOpsYielded outcome else .fatal
  | .state _ => .fatal
  | .invariant _ => .fatal
  | .input _ =>
    if input.reports.toList = [] ∧ input.preimages.toList ≠ [] ∧ input.systemOps.toList = [] then
      .preimagesRejected .invalidInput
    else .fatal

def mapValidationError (input : MiniJamExecutionInput) (error : ValidationError) :
    ExecutionFailure :=
  if input.reports.toList = [] ∧ input.preimages.toList ≠ [] ∧ input.systemOps.toList = [] then
    .preimagesRejected (match error with
      | .gasExceeded => .gasExceeded
      | .deltaTooLarge => .deltaTooLarge
      | .state _ => .invalidOutput
      | .invariant _ => .invalidOutput)
  else .fatal

/-! ### Committing the output -/

def applyChange (change : ProtocolStateChange) : X T Unit :=
  match change.operation with
  | .remove => Tx.modify fun s => { s with protocolState := s.protocolState.erase change.key }
  | _ => do
    let value ← Tx.okOr change.value .fatal
    Tx.modify fun s => { s with protocolState := s.protocolState.insert change.key value }

def applyDelta (delta : ValidatedDelta) : X T Unit := Tx.forEach applyChange delta.changes

def consumeAllocationAfterTransition (allocationId : UInt64) : X T Unit := do
  let s ← Tx.read
  Tx.ensure (!s.processedAllocations.contains allocationId) .fatal
  let pending ← Tx.okOr (s.pendingAllocations.lookup allocationId) .fatal
  processAllocation allocationId pending

/-- Consume one pending allocation when the changes hold its receipt. -/
def consumeIfConfirmed (changes : List ProtocolStateChange)
    (pending : PendingAllocation AccountId) : X T Unit :=
  let allocationId := pending.allocation.allocationId
  let key := allocationReceiptStateKey T allocationId
  match changes.find? fun change => decide (change.key = key) with
  | none => pure ()
  | some change => do
    let value ← Tx.okOr change.value .fatal
    Tx.ensure (5 ≤ value.toList.length) .fatal
    if value.toList.head? = some 0 then consumeAllocationAfterTransition allocationId
    else pure ()

def consumeSuccessfulAllocations (changes : List ProtocolStateChange) : X T Unit := do
  let s ← Tx.read
  Tx.forEach (consumeIfConfirmed changes) (getPendingAllocations s)

/-- The output names the preimage as consumed. -/
def consumesPreimage (T : Config AccountId Ledger) (consumed : List Hash)
    (pending : PendingPreimage AccountId) : Bool :=
  decide (T.workers.crypto.blake2_256 pending.canonical.toList ∈ consumed)

/-- The output names the operation as consumed. -/
def consumesSystemOp (consumed : List Hash) (pending : PendingSystemOp AccountId) : Bool :=
  decide (pending.op.requestId ∈ consumed)

def consumePreimages (consumed : List Hash) : X T Unit :=
  if consumed = [] then pure ()
  else Tx.modify fun s =>
    let loop := s.pendingPreimages.removeAll (consumesPreimage T consumed)
    { s with
      pendingPreimages := loop.1
      pendingPreimageKeys := loop.2.foldl (fun keys pending =>
        keys.erase (PreimageKeyV1.ofMetadata pending.metadata)) s.pendingPreimageKeys }

def consumeSystemOps (consumed : List Hash) : X T Unit :=
  if consumed = [] then pure ()
  else Tx.modify fun s =>
    let loop := s.pendingSystemOps.removeAll (consumesSystemOp consumed)
    { s with
      pendingSystemOps := loop.1
      pendingSystemOpKeys := loop.2.foldl (fun keys pending => keys.erase pending.op.requestId)
        s.pendingSystemOpKeys
      events := s.events ++ loop.2.map fun pending => .systemOpConsumed pending.op.requestId }

/-- Mark one work of the batch as imported when its report was consumed. -/
def importReport (output : MiniJamExecutionOutput) (workId : WorkId) : X T Unit := do
  let s ← Tx.read
  let found ← Tx.okOr (candidateForWork s workId) .fatal
  if found.2.envelope.canonicalReportHash ∈ output.consumedReports.toList then do
    let work ← Tx.okOr (s.works.lookup workId) .fatal
    Tx.modify fun s => { s with
      works := s.works.insert workId { work with status := .imported }
      executionReceipts := s.executionReceipts.insert workId output.receiptHash }
    depositEvent (.reportImported workId output.receiptHash)
  else pure ()

/-- Apply a checked output: the delta, then the consumed allocations, preimages, system
operations and reports. -/
def commitOutput (workIds : List WorkId) (input : MiniJamExecutionInput)
    (output : MiniJamExecutionOutput) (delta : ValidatedDelta) : X T BlockStfSummary := do
  applyDelta delta
  consumeSuccessfulAllocations delta.changes
  consumePreimages output.consumedPreimages.toList
  consumeSystemOps output.consumedSystemOps.toList
  Tx.forEach (importReport output) workIds
  Tx.modify fun s => { s with lastExecutionReceipt := some output.receiptHash }
  pure
    { reportCount := input.reports.toList.length
      preimageCount := input.preimages.toList.length
      systemOpCount := input.systemOps.toList.length
      receiptHash := output.receiptHash }

def executeBlockStfInner (block : BlockNumber) (due : List ExecutionItem) :
    X T BlockStfSummary := do
  let s ← Tx.read
  let input ← Tx.lift (executionInput s block due)
  let workIds := due.map ExecutionItem.workId
  match T.executor.execute input s.protocolReader with
  | .error e => Tx.throw (executionFailure workIds input e)
  | .ok output =>
    match validateExecutionOutput T.workers.crypto input output s.protocolReader with
    | .error e => Tx.throw (mapValidationError input e)
    | .ok delta => commitOutput workIds input output delta

/-! ### Quarantine after a failed block -/

def quarantinePreimage (T : Config AccountId Ledger) (code : ExecutionErrorCode)
    (blockNumber : BlockNumber) (pending : PendingPreimage AccountId) :
    QuarantinedPreimage AccountId where
  submitter := pending.submitter
  metadata := pending.metadata
  canonicalHash := T.workers.crypto.blake2_256 pending.canonical.toList
  errorCode := code
  blockNumber := blockNumber
  retryable := false

def quarantinePendingPreimages (code : ExecutionErrorCode) : M T Unit := do
  let s ← Tx.read
  let pending := s.pendingPreimages.toList
  Tx.modify fun s => { s with pendingPreimages := BoundedVec.empty }
  if pending = [] then pure ()
  else Tx.modify fun s =>
    let pushed := s.quarantinedPreimages.pushAll
      (pending.map (quarantinePreimage T code s.base.blockNumber))
    { s with
      pendingPreimageKeys := pending.foldl (fun keys pending =>
        keys.erase (PreimageKeyV1.ofMetadata pending.metadata)) s.pendingPreimageKeys
      events := s.events ++ pending.map fun pending =>
        .preimageFailed pending.metadata.requester pending.metadata.blobHash
          pending.metadata.blobLen code
      quarantinedPreimages := pushed.1
      preimageImportPaused := pushed.2 || s.preimageImportPaused }

def quarantineSystemOp (T : Config AccountId Ledger) (outcome : ExecutionOutcome)
    (blockNumber : BlockNumber) (pending : PendingSystemOp AccountId) :
    QuarantinedSystemOp AccountId where
  submitter := pending.submitter
  op := pending.op
  canonicalHash := T.workers.crypto.blake2_256 pending.op.encode
  errorCode := ExecutionErrorCode.ofOutcome outcome
  blockNumber := blockNumber
  retryable := true

def quarantinePendingSystemOps (outcome : ExecutionOutcome) : M T Unit := do
  let s ← Tx.read
  let pending := s.pendingSystemOps.toList
  Tx.modify fun s => { s with pendingSystemOps := BoundedVec.empty }
  if pending = [] then pure ()
  else Tx.modify fun s =>
    let pushed := s.quarantinedSystemOps.pushAll
      (pending.map (quarantineSystemOp T outcome s.base.blockNumber))
    { s with
      pendingSystemOpKeys := pending.foldl (fun keys pending => keys.erase pending.op.requestId)
        s.pendingSystemOpKeys
      events := s.events ++ pending.map fun pending =>
        .systemOpFailed pending.op.requestId outcome
      quarantinedSystemOps := pushed.1
      systemOpsPaused := pushed.2 || s.systemOpsPaused }

/-! ### The hook -/

/-- The virtual block in its transaction: the retained items replace the queue on success. -/
def runBlockStf (block : BlockNumber) : X T BlockStfSummary := do
  let s ← Tx.read
  let retained := retainedItems s block
  Tx.transaction do
    let summary ← executeBlockStfInner block (dueItems s block)
    let bounded ← Tx.expect (BoundedVec.tryFrom retained)
    Tx.modify fun s => { s with executionQueue := bounded }
    pure summary

/-- What the hook does about a failed block. -/
def handleFailure : ExecutionFailure → M T Unit
  | .yielded workId outcome => depositEvent (.executionYielded workId outcome)
  | .systemOpsYielded outcome => quarantinePendingSystemOps outcome
  | .preimagesRejected code => quarantinePendingPreimages code
  | .fatal => Tx.abort

def executeBlockStf (block : BlockNumber) : M T Unit := do
  let result ← Tx.attempt (runBlockStf block)
  match result with
  | .ok summary => depositEvent (.blockStfExecuted block summary)
  | .error e => handleFailure e

def onFinalize (block : BlockNumber) : M T Unit := executeBlockStf block

end MiniJam.Jam
