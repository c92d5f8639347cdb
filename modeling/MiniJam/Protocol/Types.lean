import MiniJam.Lib.Collections
import MiniJam.Lib.Scale

/-!
# `MiniJam.Protocol.Types`: the wire types of `minijam-protocol`

The values that cross a boundary of the chain: work references, candidate envelopes, worker
votes, system operations and protocol-state changes, with the byte strings that are hashed
to identify or to sign them. Field widths and list bounds are those of the Rust types.

`Crypto` holds the two primitives the protocol takes from outside. Nothing is assumed about
either of them.
-/

set_option autoImplicit false

namespace MiniJam

open Scale

/-- A 32-byte hash. -/
abbrev Hash : Type := FixedBytes 32

/-- A 31-byte protocol-state key. -/
abbrev StateKey : Type := FixedBytes 31

abbrev ChainId : Type := Hash
abbrev PublicKey : Type := FixedBytes 32
abbrev Signature : Type := FixedBytes 64
abbrev WorkId : Type := UInt64
abbrev WorkerId : Type := UInt64
abbrev AssignmentRound : Type := UInt8
abbrev BlockNumber : Type := UInt32
abbrev EpochIndex : Type := UInt32

abbrev CanonicalReportBytes : Type := BoundedVec UInt8 1048576
abbrev CanonicalPreimageBytes : Type := BoundedVec UInt8 1048576
abbrev StateValue : Type := BoundedVec UInt8 1048576

/-- `PROTOCOL_VERSION_V1`. -/
def protocolVersionV1 : UInt16 := 1

/-- `MAX_DELTA_BYTES`. -/
def maxDeltaBytes : Nat := 4 * 1048576

/-- `RAW_CODEC`. -/
def rawCodec : UInt64 := 0x55

/-- `BLAKE2B_256_MULTIHASH`. -/
def blake2b256Multihash : UInt64 := 0xb220

/-- The primitives that come from outside the repository. -/
structure Crypto where
  blake2_256 : Bytes → Hash
  sr25519Verify : Signature → Hash → PublicKey → Bool
  /-- `Cid::new_v1(codec, Multihash::<64>::wrap(code, digest)?).to_bytes()`, for a codec, a code
  and a digest. An error of `wrap` is its text. -/
  cidV1 : UInt64 → UInt64 → Bytes → Except String Bytes

/-- The identifier of a Blake2b digest exists, is not empty and fits a `ContentRef`. -/
def Crypto.LawfulCid (c : Crypto) : Prop :=
  ∀ digest : Hash, ∃ cid, c.cidV1 rawCodec blake2b256Multihash digest.toList = .ok cid ∧
    cid ≠ [] ∧ cid.length ≤ 128

/-- The bytes of an ASCII literal. -/
def ascii (s : String) : Bytes := s.toList.map fun c => UInt8.ofNat c.toNat

/-! ### System operations -/

inductive SystemCommandV2 where
  | createService (codeHash : Hash) (codeLen : UInt32) (minItemGas minMemoGas : UInt64)
  | applyAllocation (allocationId : UInt64) (targetService : UInt32) (amount : UInt64)
  deriving DecidableEq

def SystemCommandV2.encode : SystemCommandV2 → Bytes
  | .createService codeHash codeLen minItemGas minMemoGas =>
    encodeU8 0 ++ codeHash.toList ++ encodeU32 codeLen ++ encodeU64 minItemGas
      ++ encodeU64 minMemoGas
  | .applyAllocation allocationId targetService amount =>
    encodeU8 1 ++ encodeU64 allocationId ++ encodeU32 targetService ++ encodeU64 amount

structure SystemOpV2 where
  requestId : Hash
  submitter : FixedBytes 32
  nonce : UInt64
  command : SystemCommandV2
  deriving DecidableEq

namespace SystemOpV2

def encode (op : SystemOpV2) : Bytes :=
  op.requestId.toList ++ op.submitter.toList ++ encodeU64 op.nonce ++ op.command.encode

/-- The bytes hashed into a request id: the domain, the submitter, the nonce and the
command. -/
def requestPayload (submitter : FixedBytes 32) (nonce : UInt64) (command : SystemCommandV2) :
    Bytes :=
  ascii "minijam/system-op/v2" ++ submitter.toList ++ encodeU64 nonce ++ command.encode

/-- The bytes determine the submitter and the nonce. -/
theorem requestPayload_inj {submitter submitter' : FixedBytes 32} {nonce nonce' : UInt64}
    {command command' : SystemCommandV2}
    (h : requestPayload submitter nonce command = requestPayload submitter' nonce' command') :
    submitter = submitter' ∧ nonce = nonce' := by
  unfold requestPayload at h
  rw [List.append_assoc, List.append_assoc, List.append_assoc, List.append_assoc] at h
  -- The domain is the same, and the two fields after it have fixed lengths.
  obtain ⟨hsubmitter, hrest⟩ := List.append_inj (List.append_cancel_left h) (by simp)
  obtain ⟨hnonce, -⟩ := List.append_inj hrest (by simp)
  exact ⟨List.Vector.toList_injective hsubmitter, encodeU64_injective hnonce⟩

def computeRequestId (c : Crypto) (submitter : FixedBytes 32) (nonce : UInt64)
    (command : SystemCommandV2) : Hash :=
  c.blake2_256 (requestPayload submitter nonce command)

def new (c : Crypto) (submitter : FixedBytes 32) (nonce : UInt64)
    (command : SystemCommandV2) : SystemOpV2 where
  requestId := computeRequestId c submitter nonce command
  submitter := submitter
  nonce := nonce
  command := command

def requestIdMatches (c : Crypto) (op : SystemOpV2) : Bool :=
  decide (op.requestId = computeRequestId c op.submitter op.nonce op.command)

end SystemOpV2

/-- The commands of the first version, which named a controller. -/
inductive SystemCommandV1 where
  | createService (controller codeHash : Hash) (codeLen : UInt32) (minItemGas minMemoGas : UInt64)
  | upgradeService (controller : Hash) (serviceId : UInt32) (codeHash : Hash) (codeLen : UInt32)
      (minItemGas minMemoGas : UInt64)
  deriving DecidableEq

def SystemCommandV1.encode : SystemCommandV1 → Bytes
  | .createService controller codeHash codeLen minItemGas minMemoGas =>
    encodeU8 0 ++ controller.toList ++ codeHash.toList ++ encodeU32 codeLen ++ encodeU64 minItemGas
      ++ encodeU64 minMemoGas
  | .upgradeService controller serviceId codeHash codeLen minItemGas minMemoGas =>
    encodeU8 1 ++ controller.toList ++ encodeU32 serviceId ++ codeHash.toList ++ encodeU32 codeLen
      ++ encodeU64 minItemGas ++ encodeU64 minMemoGas

/-- The bytes hashed into a request id of the first version. -/
def SystemOpV1.requestPayload (sender : FixedBytes 32) (nonce : UInt64)
    (command : SystemCommandV1) : Bytes :=
  ascii "minijam/system-op/v1" ++ sender.toList ++ encodeU64 nonce ++ command.encode

/-- The batch bound of `SystemOpBatch`, in the protocol crate. -/
abbrev SystemOpBatch : Type := BoundedVec SystemOpV2 64

/-- The encoding of a batch: the number of operations, then each of them. -/
def SystemOpBatch.encode (batch : SystemOpBatch) : Bytes :=
  compact batch.toList.length ++ batch.toList.flatMap SystemOpV2.encode

inductive SystemReceiptV2 where
  | serviceCreated (serviceId : UInt32)
  | rejected (code : UInt32)
  deriving DecidableEq

namespace SystemReceiptV2

def encode : SystemReceiptV2 → Bytes
  | .serviceCreated serviceId => encodeU8 0 ++ encodeU32 serviceId
  | .rejected code => encodeU8 1 ++ encodeU32 code

/-- A receipt in front of other bytes: the index of the variant, then its field. -/
def decode : Bytes → Option (SystemReceiptV2 × Bytes)
  | [] => none
  | variant :: bytes =>
    if variant = 0 then
      (decodeLe 4 bytes).map fun (n, rest) => (.serviceCreated (UInt32.ofNat n), rest)
    else if variant = 1 then
      (decodeLe 4 bytes).map fun (n, rest) => (.rejected (UInt32.ofNat n), rest)
    else none

/-- A receipt is read back from its bytes. -/
theorem decode_encode (receipt : SystemReceiptV2) (rest : Bytes) :
    decode (receipt.encode ++ rest) = some (receipt, rest) := by
  have hfield : ∀ x : UInt32, decodeLe 4 (encodeU32 x ++ rest) = some (x.toNat, rest) :=
    fun x => decodeLe_append 4 x.toNat rest x.toNat_lt
  cases receipt with
  | serviceCreated serviceId =>
    simp [encode, encodeU8, decode, hfield]
  | rejected code =>
    simp [encode, encodeU8, decode, hfield]

end SystemReceiptV2

/-! ### Works, candidates and preimages -/

structure ContentRef where
  cidV1 : BoundedVec UInt8 128
  contentHash : Hash
  size : UInt64
  deriving DecidableEq

structure ReportMetadataV1 where
  packageHash : Hash
  contextHash : Hash
  exportsRoot : Hash
  accumulateGas : UInt64
  deriving DecidableEq

/-- A candidate report. The bulletin evidence and the signature list of the Rust type are
not read by the runtime. -/
structure ReportEnvelopeV1 where
  protocolVersion : UInt16
  chainId : ChainId
  workId : WorkId
  assignmentRound : AssignmentRound
  canonicalReport : CanonicalReportBytes
  canonicalReportHash : Hash
  projectedMetadata : ReportMetadataV1
  deriving DecidableEq

def ReportEnvelopeV1.computedReportHash (c : Crypto) (e : ReportEnvelopeV1) : Hash :=
  c.blake2_256 e.canonicalReport.toList

structure PreimageMetadataV1 where
  requester : UInt32
  blobHash : Hash
  blobLen : UInt32
  deriving DecidableEq

abbrev ReportBatch : Type := BoundedVec CanonicalReportBytes 4
abbrev PreimageBatch : Type := BoundedVec CanonicalPreimageBytes 64

/-! ### Votes -/

inductive OpposeReason where
  | invalidRefine
  | missingData
  | contextMismatch
  | malformedOutput
  | other (hash : Hash)
  deriving DecidableEq

def OpposeReason.encode : OpposeReason → Bytes
  | .invalidRefine => encodeU8 0
  | .missingData => encodeU8 1
  | .contextMismatch => encodeU8 2
  | .malformedOutput => encodeU8 3
  | .other hash => encodeU8 4 ++ hash.toList

inductive Verdict where
  | support
  | oppose (reason : OpposeReason)
  deriving DecidableEq

def Verdict.encode : Verdict → Bytes
  | .support => encodeU8 0
  | .oppose reason => encodeU8 1 ++ reason.encode

def Verdict.isSupport : Verdict → Bool
  | .support => true
  | .oppose _ => false

structure WorkerVoteV1 where
  workId : WorkId
  round : AssignmentRound
  assignmentEpoch : EpochIndex
  candidateReportHash : Hash
  verdict : Verdict
  deadline : BlockNumber
  chainId : ChainId
  protocolVersion : UInt16
  deriving DecidableEq

namespace WorkerVoteV1

def encode (v : WorkerVoteV1) : Bytes :=
  encodeU64 v.workId ++ encodeU8 v.round ++ encodeU32 v.assignmentEpoch
    ++ v.candidateReportHash.toList ++ v.verdict.encode ++ encodeU32 v.deadline
    ++ v.chainId.toList ++ encodeU16 v.protocolVersion

def signingPayload (v : WorkerVoteV1) : Bytes := ascii "minijam/worker-vote-v1" ++ v.encode

def signingHash (c : Crypto) (v : WorkerVoteV1) : Hash := c.blake2_256 v.signingPayload

end WorkerVoteV1

/-! ### Protocol state changes -/

inductive StateOperation where
  | upsert
  | update
  | remove
  deriving DecidableEq

structure ProtocolStateChange where
  key : StateKey
  operation : StateOperation
  value : Option StateValue
  deriving DecidableEq

abbrev StateChanges : Type := BoundedVec ProtocolStateChange 4096

def ProtocolStateChange.encode (change : ProtocolStateChange) : Bytes :=
  change.key.toList
    ++ (match change.operation with
        | .upsert => encodeU8 0
        | .update => encodeU8 1
        | .remove => encodeU8 2)
    ++ (match change.value with
        | none => encodeU8 0
        | some value => encodeU8 1 ++ encodeBytes value.toList)

end MiniJam
