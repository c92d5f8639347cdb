import MiniJam.Runtime.Config
import MiniJam.Workers.Run

/-!
# `MiniJam.Runtime.Reference`: an environment the chain runs in

A small stand-in for every outside part, so that the model can be run on concrete inputs:
balances in a `Book`, a positional checksum for the hash, signatures that repeat the key and
the message, a codec for one-item packages, and executors that consume what they are given.
Nothing general is proved from this module. It serves the concrete runs that show a
hypothesis to be satisfiable or a property to fail.
-/

set_option autoImplicit false

namespace MiniJam.Reference

open Scale

/-! ### Host functions -/

/-- The bytes as one number, position by position. Short strings have different values. -/
def checksum (bytes : Bytes) : Nat := bytes.foldl (fun acc b => acc * 257 + b.toNat + 1) 0

/-- A checksum as `n` bytes. -/
def digest (n : Nat) (bytes : Bytes) : FixedBytes n :=
  ⟨leBytes n (checksum bytes), length_leBytes n _⟩

/-- The signature of a message under a key. -/
def sign (key : PublicKey) (message : Hash) : Signature :=
  ⟨key.toList ++ message.toList, by simp⟩

def crypto : Crypto where
  blake2_256 := digest 32
  sr25519Verify signature message key := decide (signature = sign key message)
  cidV1 _ _ digest := .ok (1 :: digest)

/-! ### Codec -/

/-- The one item every package has. -/
def item : Jam.WorkItem where
  service := 1
  codeHash := FixedBytes.fill 32 5
  refineGasLimit := 10000000000
  accumulateGasLimit := 10000000000

/-- Every non-empty byte string is a package of one item. A service record is its minimum
memo gas in one byte. -/
def codec : Jam.Codec where
  decodeWorkPackage bytes := if bytes = [] then none else some (⟨[item], [1]⟩, [])
  decodeServiceInfo bytes := bytes.head?.map fun b => (⟨b.toUInt64⟩, bytes.tail)
  serviceStorageKey service key := digest 31 (encodeU32 service ++ key)

/-- A report is its accumulate gas in billions, followed by its package. -/
def projectReport : Bytes → Except MiniJamError ReportProjectionV1
  | [] => .error (.input .invalidReportEncoding)
  | gas :: package => .ok
    { packageHash := digest 32 package
      contextHash := digest 32 [1]
      exportsRoot := FixedBytes.fill 32 0
      resultCount := 1
      services := [⟨1, FixedBytes.fill 32 5, 0, gas.toUInt64 * 1000000000⟩]
      totalRefineGas := 0
      totalAccumulateGas := gas.toUInt64 * 1000000000 }

/-! ### Executors -/

/-- The receipt of an allocation that was applied: status, then four bytes of code. -/
def appliedReceipt : StateValue := ⟨[0, 0, 0, 0, 0], by decide⟩

/-- The change an operation makes to the protocol state: an allocation writes its receipt. -/
def operationChange (state : ProtocolStateReader) (op : SystemOpV2) :
    Option ProtocolStateChange :=
  match op.command with
  | .createService .. => none
  | .applyAllocation allocationId .. =>
    let key := codec.serviceStorageKey Jam.systemServiceId
      (ascii "system/allocation/" ++ encodeU64 allocationId)
    some
      { key := key
        operation := match state key with
          | .ok (some _) => .update
          | _ => .upsert
        value := some appliedReceipt }

/-- An output for an input, with the reports that `consumes` selects. Everything else of the
input is consumed, and both commitments are right. -/
def outputFor (consumes : Bytes → Bool) (input : MiniJamExecutionInput)
    (state : ProtocolStateReader) : MiniJamExecutionOutput :=
  let output : MiniJamExecutionOutput :=
    { orderedChanges := BoundedVec.takeFrom
        (input.systemOps.toList.filterMap (operationChange state))
      consumedReports := BoundedVec.takeFrom
        ((input.reports.toList.map BoundedVec.toList).filter consumes |>.map (digest 32))
      consumedPreimages := BoundedVec.takeFrom
        (input.preimages.toList.map fun preimage => digest 32 preimage.toList)
      consumedSystemOps := BoundedVec.takeFrom (input.systemOps.toList.map SystemOpV2.requestId)
      inputHash := input.computeInputHash crypto
      headerHash := FixedBytes.fill 32 0
      accumulateRoot := FixedBytes.fill 32 0
      gasUsed := 0
      receiptHash := FixedBytes.fill 32 0 }
  { output with receiptHash := output.computeReceiptHash crypto }

/-- An executor that answers with `answer`. -/
def executor (answer : MiniJamExecutionInput → ProtocolStateReader →
    Except MiniJamError MiniJamExecutionOutput) : MiniJamExecutor where
  execute := answer
  validatePreimageSubmission bytes _ :=
    .ok ⟨1, digest 32 bytes, UInt32.ofNat bytes.length⟩
  projectReport := projectReport

/-- Consume the whole input. -/
def consumeAll (input : MiniJamExecutionInput) (state : ProtocolStateReader) :
    Except MiniJamError MiniJamExecutionOutput := .ok (outputFor (fun _ => true) input state)

/-- Consume everything except the reports. -/
def skipReports (input : MiniJamExecutionInput) (state : ProtocolStateReader) :
    Except MiniJamError MiniJamExecutionOutput := .ok (outputFor (fun _ => false) input state)

/-- Refuse every input. -/
def refuse (e : MiniJamError) (_ : MiniJamExecutionInput) (_ : ProtocolStateReader) :
    Except MiniJamError MiniJamExecutionOutput := .error e

/-! ### The runtime in this environment -/

abbrev Ledger : Type := Book AccountId32 HoldReason

def environment (answer : MiniJamExecutionInput → ProtocolStateReader →
    Except MiniJamError MiniJamExecutionOutput) : Environment Ledger where
  currency := Book.currency
  crypto := crypto
  iterOrder := id
  iterOrder_perm := fun ids => List.Perm.refl ids
  codec := codec
  executor := executor answer

/-- The runtime configuration with an executor that answers with `answer`. -/
abbrev runtime (answer : MiniJamExecutionInput → ProtocolStateReader →
    Except MiniJamError MiniJamExecutionOutput) : Jam.Config AccountId32 Ledger :=
  Runtime.config (environment answer)

/-- The account of one worker, which is also the ingress relayer. -/
def alice : AccountId32 := FixedBytes.fill 32 1

/-- The account of the allocation relayer. -/
def bob : AccountId32 := FixedBytes.fill 32 2

/-- The worker's session key. -/
def aliceKey : PublicKey := FixedBytes.fill 32 3

/-- A ledger where everybody has the same free balance. -/
def ledger : Ledger where
  free _ := 1000000 * Runtime.unit
  held _ _ := 0

/-- One worker, both relayers, a service record for service 1, and one without memo gas for
service 2. -/
def genesis : GenesisConfig AccountId32 where
  workers := [(alice, aliceKey, 1000 * Runtime.unit)]
  protocolState := [((Jam.serviceInfoStateKey 1).toList, [1]),
    ((Jam.serviceInfoStateKey 2).toList, [0])]
  serviceFuel := []
  ingressRelayer := some alice
  allocationRelayer := some bob

/-! ### Concrete runs -/

section
variable (T : Jam.Config AccountId32 Ledger)

/-- What the actions reach from the reference genesis. -/
def reached (actions : List (Action T)) :
    Option (Chain.History T × Jam.State T) :=
  Tx.reach Action.run (genesisBuild genesis (Jam.State.init T ledger)) actions

variable (actions : List (Action T))

/-- What holds after the actions holds of a run from the reference genesis. -/
theorem exists_historyFrom (P : Chain.History T → Jam.State T → Prop)
    (h : ∃ r ∈ reached T actions, P r.1 r.2) :
    ∃ h s, Trace (fun s => genesisBuild genesis (Jam.State.init T ledger) = .ok () s)
      (Chain.Step T) h s ∧ P h s :=
  Tx.exists_trace (fun _ hs => hs) actions P h

/-- The form of `exists_historyFrom` that forgets the genesis. -/
theorem exists_history (P : Chain.History T → Jam.State T → Prop)
    (h : ∃ r ∈ reached T actions, P r.1 r.2) : ∃ h s, Chain.Run T h s ∧ P h s := by
  obtain ⟨h, s, hr, hP⟩ := exists_historyFrom T actions P h
  exact ⟨h, s, hr.mono (fun _ hs => ⟨genesis, ledger, hs⟩) fun _ _ _ hs => hs, hP⟩

/-- The form of `exists_history` for a property of the state. -/
theorem exists_run (P : Jam.State T → Prop) (h : ∃ r ∈ reached T actions, P r.2) :
    ∃ h s, Chain.Run T h s ∧ P s :=
  exists_history T actions (fun _ => P) h

/-- The form of `exists_run` for a property of the states that two runs reach. -/
theorem exists_runs (actions' : List (Action T)) (P : Jam.State T → Jam.State T → Prop)
    (h : ∃ r ∈ reached T actions, ∃ r' ∈ reached T actions', P r.2 r'.2) :
    ∃ h s h' s', Chain.Run T h s ∧ Chain.Run T h' s' ∧ P s s' := by
  obtain ⟨h, s, hrun, hP⟩ := exists_run T actions (fun s => ∃ r' ∈ reached T actions', P s r'.2) h
  obtain ⟨h', s', hrun', hP'⟩ := exists_run T actions' (P s) hP
  exact ⟨h, s, h', s', hrun, hrun', hP'⟩

/-- The form of `exists_run` for a property of the states around one more action. -/
theorem exists_step (action : Action T) (P : Jam.State T → Jam.State T → Prop)
    (h : ∃ r ∈ reached T actions, ∃ s', action.run r.2 = .ok () s' ∧ P r.2 s') :
    ∃ h s s', Chain.Run T h s ∧ action.run s = .ok () s' ∧ P s s' := by
  obtain ⟨h, s, hrun, s', hstep, hP⟩ :=
    exists_run T actions (fun s => ∃ s', action.run s = .ok () s' ∧ P s s') h
  exact ⟨h, s, s', hrun, hstep, hP⟩

omit actions in
/-- The form of `exists_history` for the workers pallet on its own. -/
theorem exists_workersHistory (W : Workers.Config AccountId32 Ledger)
    (actions : List (Workers.Action AccountId32 Ledger))
    (P : Workers.History W → Workers.State W → Prop)
    (h : ∃ r ∈ Tx.reach Workers.Action.run
      (Workers.genesisBuild genesis.workers (Workers.State.init W ledger)) actions, P r.1 r.2) :
    ∃ h s, Workers.Run W h s ∧ P h s :=
  Tx.exists_trace (fun _ hs => ⟨genesis.workers, ledger, hs⟩) actions P h

variable {T}

/-- The report of a package, with its gas in billions. -/
def envelope (workId : WorkId) (gas package : UInt8) : ReportEnvelopeV1 where
  protocolVersion := 1
  chainId := FixedBytes.fill 32 77
  workId := workId
  assignmentRound := 0
  canonicalReport := ⟨[gas, package], by simp⟩
  canonicalReportHash := digest 32 [gas, package]
  projectedMetadata :=
    { packageHash := digest 32 [package]
      contextHash := digest 32 [1]
      exportsRoot := FixedBytes.fill 32 0
      accumulateGas := gas.toUInt64 * 1000000000 }

/-- The worker's vote for a report submitted in the first block. -/
def supportVote (workId : WorkId) (gas package : UInt8) : WorkerVoteV1 where
  workId := workId
  round := 0
  assignmentEpoch := 0
  candidateReportHash := digest 32 [gas, package]
  verdict := .support
  deadline := 600
  chainId := FixedBytes.fill 32 77
  protocolVersion := 1

/-- Submit a work, its report and the vote that accepts it. -/
def voteThrough (workId : WorkId) (gas package : UInt8) : List (Action T) :=
  [.extrinsic (.signed alice) (.submitWork (BoundedVec.takeFrom [package])
      ⟨⟨[1], by decide⟩, FixedBytes.fill 32 0, 1⟩),
    .extrinsic (.signed alice) (.submitCandidate (envelope workId gas package)),
    .extrinsic .unsigned (.submitVote 0 (supportVote workId gas package)
      (sign aliceKey ((supportVote workId gas package).signingHash crypto)))]

end

end MiniJam.Reference
