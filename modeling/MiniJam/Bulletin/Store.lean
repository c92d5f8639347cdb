import MiniJam.Lib.Result
import MiniJam.Lib.Tx
import MiniJam.Protocol.Types

/-!
# `MiniJam.Bulletin.Store`: the simulated bulletin store

`SimulatedBulletinStore` of `crates/minijam-bulletin-simulator/src/lib.rs` keeps the metadata of
stored contents behind a lock and the contents as files. Each definition follows the function of
the same name. `blobs` is the directory of the files. Whether a file can be written is up to the
file system: `io` is the error it reports, if any.

`store_with_cid_config` takes the lock twice. The two locked parts are definitions of their own,
`storeMetadata` (with the checks before it) and `storeCleanup`, since other calls may run between
them.
-/

set_option autoImplicit false

namespace MiniJam.Bulletin

open Scale

inductive HashingAlgorithm where
  | blake2b256
  | sha2_256
  | keccak256
  deriving DecidableEq

structure CidConfig where
  codec : UInt64 := rawCodec
  hashing : HashingAlgorithm := .blake2b256
  deriving DecidableEq

structure StorageLocation where
  blockNumber : BlockNumber
  transactionIndex : UInt32
  deriving DecidableEq

structure StorageReceipt where
  content : ContentRef
  location : StorageLocation
  retentionUntil : BlockNumber
  deriving DecidableEq

structure Authorization where
  transactionsLeft : UInt32
  bytesLeft : UInt64
  expiresAt : BlockNumber
  deriving DecidableEq

inductive RenewalRef where
  | byLocation (location : StorageLocation)
  | byContentHash (hash : Hash)

inductive Fault where
  | missing
  | corrupt
  | timeout

inductive BulletinError where
  | unauthorized
  | quotaExhausted
  | authorizationExpired
  | missing
  | expired
  | corrupt
  | unsupportedCid
  | timeout
  | io (message : String)
  | invalidCid (message : String)
  deriving DecidableEq

structure State where
  blockNumber : BlockNumber
  nextIndex : UInt32
  authorizations : StorageMap PublicKey Authorization
  entries : StorageMap Hash StorageReceipt
  locations : StorageMap (BlockNumber × UInt32) Hash
  faults : StorageMap Hash Fault
  blobs : StorageMap Hash Bytes

/-- `SimulatedBulletinStore::new`. -/
def State.new : State := ⟨0, 0, ∅, ∅, ∅, ∅, ∅⟩

abbrev M (α : Type) : Type := Tx State BulletinError α

/-- The block number goes up, and the transactions of the block are counted from 0 again. -/
def advanceBlocks (blocks : BlockNumber) : M Unit := Tx.modify fun s =>
  { s with blockNumber := s.blockNumber.satAdd blocks, nextIndex := 0 }

def authorize (account : PublicKey) (transactions : UInt32) (bytes : UInt64)
    (expiresAt : BlockNumber) : M Unit := Tx.modify fun s =>
  { s with authorizations := s.authorizations.insert account ⟨transactions, bytes, expiresAt⟩ }

def cidFor (c : Crypto) (config : CidConfig) (data : Bytes) :
    Except BulletinError (Hash × Bytes) := do
  Except.ensure (config.codec = rawCodec ∧ config.hashing = .blake2b256) .unsupportedCid
  let contentHash := c.blake2_256 data
  let cid ← (c.cidV1 config.codec blake2b256Multihash contentHash.toList).mapError .invalidCid
  pure (contentHash, cid)

def locateHash (s : State) : RenewalRef → Option Hash
  | .byContentHash hash => some hash
  | .byLocation location => s.locations.lookup (location.blockNumber, location.transactionIndex)

def checkAuthorization (account : PublicKey) (bytes : UInt64) : M Unit := do
  let s ← Tx.read
  let authorization ← Tx.okOr (s.authorizations.lookup account) .unauthorized
  Tx.ensure (s.blockNumber < authorization.expiresAt) .authorizationExpired
  Tx.ensure (authorization.transactionsLeft ≠ 0 ∧ bytes ≤ authorization.bytesLeft) .quotaExhausted
  let charged : Authorization := { authorization with
    transactionsLeft := authorization.transactionsLeft - 1
    bytesLeft := authorization.bytesLeft - bytes }
  Tx.modify fun s => { s with authorizations := s.authorizations.insert account charged }

def checkFault (s : State) (hash : Hash) : Except BulletinError Unit :=
  match s.faults.lookup hash with
  | some .missing => .error .missing
  | some .corrupt => .error .corrupt
  | some .timeout => .error .timeout
  | none => .ok ()

def writeBlobAtomic (io : Option String) (hash : Hash) (data : Bytes) : M Unit := do
  let s ← Tx.read
  if s.blobs.contains hash = true then pure ()
  else
    match io with
    | some message => Tx.throw (.io message)
    | none => Tx.modify fun s => { s with blobs := s.blobs.insert hash data }

section
variable (c : Crypto) (retentionPeriod : BlockNumber)

/-- A store up to the end of its first locked part: the receipt, and whether the blob has to be
written. -/
def storeMetadata (account : PublicKey) (config : CidConfig) (data : Bytes) :
    M (StorageReceipt × Bool) := do
  let (contentHash, cid) ← Tx.lift (cidFor c config data)
  let cidV1 ← Tx.okOr (BoundedVec.tryFrom cid) (.invalidCid "CID exceeds the protocol bound")
  checkAuthorization account (UInt64.ofNat data.length)
  let s ← Tx.read
  let receipt : StorageReceipt :=
    { content := ⟨cidV1, contentHash, UInt64.ofNat data.length⟩
      location := ⟨s.blockNumber, s.nextIndex⟩
      retentionUntil := s.blockNumber.satAdd retentionPeriod }
  Tx.modify fun s => { s with
    nextIndex := s.nextIndex.satAdd 1
    locations := s.locations.insert (s.blockNumber, s.nextIndex) contentHash
    entries := s.entries.insert contentHash receipt }
  pure (receipt, !s.entries.contains contentHash)

/-- What a store undoes when the blob was not written. -/
def storeCleanup (receipt : StorageReceipt) : M Unit := Tx.modify fun s => { s with
  entries := s.entries.erase receipt.content.contentHash
  locations := s.locations.erase (receipt.location.blockNumber, receipt.location.transactionIndex) }

/-- A store that nothing runs beside. -/
def storeWithCidConfig (io : Option String) (account : PublicKey) (config : CidConfig)
    (data : Bytes) : M StorageReceipt := do
  let (receipt, shouldWrite) ← storeMetadata c retentionPeriod account config data
  if shouldWrite = true then
    match ← Tx.attempt (writeBlobAtomic io receipt.content.contentHash data) with
    | .error error =>
      storeCleanup receipt
      Tx.throw error
    | .ok () => pure receipt
  else pure receipt

def renew (account : PublicKey) (reference : RenewalRef) : M StorageReceipt := do
  checkAuthorization account 0
  let s ← Tx.read
  let hash ← Tx.okOr (locateHash s reference) .missing
  Tx.modify fun s => { s with nextIndex := s.nextIndex.satAdd 1 }
  let entry ← Tx.okOr (s.entries.lookup hash) .missing
  let receipt : StorageReceipt :=
    { entry with
      location := ⟨s.blockNumber, s.nextIndex⟩
      retentionUntil := s.blockNumber.satAdd retentionPeriod }
  Tx.modify fun s => { s with
    entries := s.entries.insert hash receipt
    locations := s.locations.insert
      (receipt.location.blockNumber, receipt.location.transactionIndex)
      hash }
  pure receipt

def fetch (s : State) (content : ContentRef) : Except BulletinError Bytes := do
  checkFault s content.contentHash
  let entry ← Except.okOr (s.entries.lookup content.contentHash) .missing
  Except.ensure (s.blockNumber < entry.retentionUntil) .expired
  let data ← Except.okOr (s.blobs.lookup content.contentHash) .missing
  let (hash, cid) ← cidFor c {} data
  Except.ensure (hash = content.contentHash ∧ UInt64.ofNat data.length = content.size ∧
    cid = content.cidV1.toList) .corrupt
  pure data

end

end MiniJam.Bulletin
