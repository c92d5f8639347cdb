import MiniJam.Protocol.Types

/-!
# `MiniJam.Protocol.Executor`: the executor interface and the output check

The block input handed to the executor, the output it answers with, and the commitments
over both (`minijam-jamcore-api`); then `validateExecutionOutput`, the check of an output
against its input and the protocol state (`minijam-state-adapter`).

The executor itself is a parameter: three functions, none of them constrained. The
protocol state is seen through a `ProtocolStateReader`, which may fail.
-/

set_option autoImplicit false

namespace MiniJam

open Scale

/-! ### Inputs, outputs and their commitments -/

structure MiniJamExecutionInput where
  protocolVersion : UInt16
  slot : UInt32
  parentHash : Hash
  parentStateRoot : Hash
  entropy : Hash
  reports : ReportBatch
  preimages : PreimageBatch
  systemOps : SystemOpBatch
  maxGas : UInt64

structure MiniJamExecutionOutput where
  orderedChanges : StateChanges
  consumedReports : BoundedVec Hash 4
  consumedPreimages : BoundedVec Hash 64
  consumedSystemOps : BoundedVec Hash 64
  inputHash : Hash
  headerHash : Hash
  accumulateRoot : Hash
  gasUsed : UInt64
  receiptHash : Hash

/-- A length as the four bytes that `(x.len() as u32).to_le_bytes()` writes. -/
def lenPrefix (n : Nat) : Bytes := leBytes 4 n

def appendLenPrefixedBytes (out bytes : Bytes) : Bytes := out ++ lenPrefix bytes.length ++ bytes

def appendHashes (out : Bytes) (hashes : List Hash) : Bytes :=
  hashes.foldl (fun out hash => out ++ hash.toList) (out ++ lenPrefix hashes.length)

def appendStateChange (out : Bytes) (change : ProtocolStateChange) : Bytes :=
  let out := out ++ change.key.toList
  let out := out ++ (match change.operation with
    | .upsert => [0]
    | .update => [1]
    | .remove => [2])
  match change.value with
  | some value => appendLenPrefixedBytes (out ++ [1]) value.toList
  | none => out ++ [0]

def appendStateChanges (out : Bytes) (changes : List ProtocolStateChange) : Bytes :=
  changes.foldl appendStateChange (out ++ lenPrefix changes.length)

namespace MiniJamExecutionInput

/-- The bytes hashed by `compute_input_hash`. -/
def inputPayload (input : MiniJamExecutionInput) : Bytes :=
  let out := ascii "minijam/block-input/v1"
  let out := out ++ encodeU16 input.protocolVersion
  let out := out ++ encodeU32 input.slot
  let out := out ++ input.parentHash.toList ++ input.parentStateRoot.toList
    ++ input.entropy.toList
  let out := input.reports.toList.foldl (fun out r => appendLenPrefixedBytes out r.toList)
    (out ++ lenPrefix input.reports.toList.length)
  let out := input.preimages.toList.foldl (fun out p => appendLenPrefixedBytes out p.toList)
    (out ++ lenPrefix input.preimages.toList.length)
  let out := input.systemOps.toList.foldl (fun out op => appendLenPrefixedBytes out op.encode)
    (out ++ lenPrefix input.systemOps.toList.length)
  out ++ encodeU64 input.maxGas

def computeInputHash (c : Crypto) (input : MiniJamExecutionInput) : Hash :=
  c.blake2_256 input.inputPayload

end MiniJamExecutionInput

namespace MiniJamExecutionOutput

/-- The bytes hashed by `compute_receipt_hash`. -/
def receiptPayload (output : MiniJamExecutionOutput) : Bytes :=
  let out := ascii "minijam/execution-receipt/v1" ++ output.inputHash.toList
  let out := appendStateChanges out output.orderedChanges.toList
  let out := appendHashes out output.consumedReports.toList
  let out := appendHashes out output.consumedPreimages.toList
  let out := appendHashes out output.consumedSystemOps.toList
  out ++ output.headerHash.toList ++ output.accumulateRoot.toList ++ encodeU64 output.gasUsed

def computeReceiptHash (c : Crypto) (output : MiniJamExecutionOutput) : Hash :=
  c.blake2_256 output.receiptPayload

end MiniJamExecutionOutput

/-! ### The executor -/

inductive InputError where
  | unsupportedVersion
  | invalidReportEncoding
  | invalidPreimageEncoding
  | reportHashMismatch
  | preimageHashMismatch
  | metadataMismatch
  | limitExceeded
  deriving DecidableEq

inductive ExecutionOutcome where
  | outOfGas
  | trap
  | serviceFailure
  deriving DecidableEq

inductive StateError where
  | missingState
  | decode
  | invalidKey
  | invalidOperation
  deriving DecidableEq

inductive InvariantError where
  | duplicateKey
  | unsortedChanges
  | receiptMismatch
  deriving DecidableEq

inductive MiniJamError where
  | input (e : InputError)
  | execution (o : ExecutionOutcome)
  | state (e : StateError)
  | invariant (e : InvariantError)
  deriving DecidableEq

/-- Read access to the protocol state. -/
abbrev ProtocolStateReader : Type := StateKey → Except StateError (Option Bytes)

structure ServiceResultProjection where
  serviceId : UInt32
  codeHash : Hash
  refineGasUsed : UInt64
  accumulateGas : UInt64

structure ReportProjectionV1 where
  packageHash : Hash
  contextHash : Hash
  exportsRoot : Hash
  resultCount : UInt32
  services : List ServiceResultProjection
  totalRefineGas : UInt64
  totalAccumulateGas : UInt64

structure MiniJamExecutor where
  execute : MiniJamExecutionInput → ProtocolStateReader →
    Except MiniJamError MiniJamExecutionOutput
  validatePreimageSubmission : Bytes → ProtocolStateReader →
    Except MiniJamError PreimageMetadataV1
  projectReport : Bytes → Except MiniJamError ReportProjectionV1

/-! ### The output check -/

/-- An output's changes after the check. -/
structure ValidatedDelta where
  changes : List ProtocolStateChange

inductive ValidationError where
  | gasExceeded
  | deltaTooLarge
  | state (e : StateError)
  | invariant (e : InvariantError)
  deriving DecidableEq

/-- The pairs of neighbours, as `windows(2)` gives them. -/
def windows2 {α : Type} (l : List α) : List (α × α) := l.zip l.tail

/-- `encoded_size` of a slice of changes. -/
def encodedSize (changes : List ProtocolStateChange) : Nat :=
  (compact changes.length).length + (changes.map fun change => change.encode.length).sum

/-- The operations against the state: an upsert writes an absent key, an update a present
one, a removal carries no value and removes a present key. -/
def checkOperations (state : ProtocolStateReader) :
    List ProtocolStateChange → Except ValidationError Unit
  | [] => .ok ()
  | change :: rest =>
    match state change.key with
    | .error e => .error (.state e)
    | .ok found =>
      match change.operation, change.value.isSome, found.isSome with
      | .upsert, true, false => checkOperations state rest
      | .update, true, true => checkOperations state rest
      | .remove, false, true => checkOperations state rest
      | _, _, _ => .error (.state .invalidOperation)

def validateCommon (maxGas gasUsed : UInt64) (inputHashMatches receiptMatches : Bool)
    (orderedChanges : List ProtocolStateChange) (state : ProtocolStateReader) :
    Except ValidationError ValidatedDelta :=
  if gasUsed > maxGas then .error .gasExceeded
  else if !receiptMatches then .error (.invariant .receiptMismatch)
  else if !inputHashMatches then .error (.invariant .receiptMismatch)
  else if encodedSize orderedChanges > maxDeltaBytes then .error .deltaTooLarge
  else if (windows2 orderedChanges).any fun p => decide (p.2.key.key ≤ p.1.key.key) then
    if (windows2 orderedChanges).any fun p => decide (p.1.key = p.2.key) then
      .error (.invariant .duplicateKey)
    else .error (.invariant .unsortedChanges)
  else
    match checkOperations state orderedChanges with
    | .error e => .error e
    | .ok () => .ok ⟨orderedChanges⟩

def validateExecutionOutput (c : Crypto) (input : MiniJamExecutionInput)
    (output : MiniJamExecutionOutput) (state : ProtocolStateReader) :
    Except ValidationError ValidatedDelta :=
  validateCommon input.maxGas output.gasUsed
    (decide (output.inputHash = input.computeInputHash c))
    (decide (output.computeReceiptHash c = output.receiptHash))
    output.orderedChanges.toList state

/-- Neighbours are related in a list exactly when no pair of neighbours fails the test. -/
theorem windows2_any_eq_false {α : Type} {p : α × α → Bool} {l : List α} :
    (windows2 l).any p = false ↔ l.IsChain fun a b => p (a, b) = false := by
  unfold windows2
  induction l with
  | nil => simp
  | cons a l ih =>
    cases l with
    | nil => simp
    | cons b l =>
      rw [List.isChain_cons_cons, ← ih]
      simp

/-- A checked delta is the output's list of changes, in strictly increasing key order. -/
theorem validateExecutionOutput_ok {c : Crypto} {input : MiniJamExecutionInput}
    {output : MiniJamExecutionOutput} {state : ProtocolStateReader} {delta : ValidatedDelta}
    (h : validateExecutionOutput c input output state = .ok delta) :
    delta.changes = output.orderedChanges.toList ∧
      delta.changes.Pairwise fun a b => a.key.key < b.key.key := by
  unfold validateExecutionOutput validateCommon at h
  split_ifs at h with hgas hreceipt hinput hsize hsorted
  rw [Bool.not_eq_true] at hsorted
  cases hcheck : checkOperations state output.orderedChanges.toList with
  | error e =>
    rw [hcheck] at h
    cases h
  | ok u =>
    rw [hcheck] at h
    cases h
    refine ⟨rfl, ?_⟩
    have hchain := windows2_any_eq_false.mp hsorted
    simp only [decide_eq_false_iff_not, not_le] at hchain
    exact hchain.pairwise

/-- So a key has one change at most, and looking it up finds that change. -/
theorem find_change {changes : List ProtocolStateChange}
    (hsorted : changes.Pairwise fun a b => a.key.key < b.key.key)
    {change : ProtocolStateChange} (hmem : change ∈ changes) :
    changes.find? (fun other => decide (other.key = change.key)) = some change := by
  induction changes with
  | nil => cases hmem
  | cons first rest ih =>
    obtain ⟨hfirst, hrest⟩ := List.pairwise_cons.mp hsorted
    rcases List.mem_cons.mp hmem with rfl | hmem
    · simp
    · have hne : first.key ≠ change.key := by
        intro heq
        have := hfirst change hmem
        rw [heq] at this
        exact lt_irrefl _ this
      rw [List.find?_cons_of_neg (by simpa using hne)]
      exact ih hrest hmem

end MiniJam
