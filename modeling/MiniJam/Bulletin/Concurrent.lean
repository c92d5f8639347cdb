import MiniJam.Bulletin.Store
import MiniJam.Lib.Trace

/-!
# `MiniJam.Bulletin.Concurrent`: stores that run beside each other

A store is three steps: the locked update of the metadata, the write of the blob, and, when the
write failed, the locked cleanup. A store that does not have to write returns after the first
one. Steps of other calls may come in between. Renewals, new blocks and new authorizations are one
step each.

`returned` is what the callers know: the receipts that stores have returned, each with the stored
bytes. The contents that are stored come from a set, over which the hash function can be assumed
to have no collision. No faults are injected, and the block number is only advanced.
-/

set_option autoImplicit false

namespace MiniJam.Bulletin

/-- Where a running store is. -/
inductive Phase where
  | writing
  | failing (error : BulletinError)
  | returning
  deriving DecidableEq

structure Running where
  receipt : StorageReceipt
  data : Bytes
  phase : Phase
  deriving DecidableEq

/-- The store with the calls that run, by a number for each of them. -/
structure System where
  store : State
  running : Nat → Option Running
  returned : List (StorageReceipt × Bytes)

/-- A new store that nobody uses yet. -/
def System.new : System := ⟨State.new, fun _ => none, []⟩

inductive Event where
  | start (id : Nat) (account : PublicKey) (config : CidConfig) (data : Bytes)
  | write (id : Nat) (io : Option String)
  | cleanup (id : Nat)
  | returns (id : Nat) (receipt : StorageReceipt) (data : Bytes)
  | renew (account : PublicKey) (reference : RenewalRef)
  | advanceBlocks (blocks : BlockNumber)
  | authorize (account : PublicKey) (transactions : UInt32) (bytes : UInt64)
      (expiresAt : BlockNumber)

/-- The call is at another place. -/
def System.set (y : System) (s : State) (id : Nat) (call : Option Running) : System :=
  { y with store := s, running := Function.update y.running id call }

variable (c : Crypto) (retentionPeriod : BlockNumber) (contents : Set Bytes)

inductive Step : System → Event → System → Prop
  | start (y : System) (id : Nat) (account : PublicKey) (config : CidConfig) (data : Bytes)
      (receipt : StorageReceipt) (shouldWrite : Bool) (s' : State) (hfree : y.running id = none)
      (hdata : data ∈ contents)
      (h : storeMetadata c retentionPeriod account config data y.store =
        .ok (receipt, shouldWrite) s') :
      Step y (.start id account config data)
        (y.set s' id (some ⟨receipt, data, if shouldWrite = true then .writing else .returning⟩))
  | refuse (y : System) (id : Nat) (account : PublicKey) (config : CidConfig) (data : Bytes)
      (e : BulletinError) (s' : State)
      (h : storeMetadata c retentionPeriod account config data y.store = .err e s') :
      Step y (.start id account config data) { y with store := s' }
  | write (y : System) (id : Nat) (io : Option String) (receipt : StorageReceipt) (data : Bytes)
      (s' : State) (hcall : y.running id = some ⟨receipt, data, .writing⟩)
      (h : writeBlobAtomic io receipt.content.contentHash data y.store = .ok () s') :
      Step y (.write id io) (y.set s' id (some ⟨receipt, data, .returning⟩))
  | fail (y : System) (id : Nat) (io : Option String) (receipt : StorageReceipt) (data : Bytes)
      (e : BulletinError) (s' : State) (hcall : y.running id = some ⟨receipt, data, .writing⟩)
      (h : writeBlobAtomic io receipt.content.contentHash data y.store = .err e s') :
      Step y (.write id io) (y.set s' id (some ⟨receipt, data, .failing e⟩))
  | cleanup (y : System) (id : Nat) (receipt : StorageReceipt) (data : Bytes) (e : BulletinError)
      (s' : State) (hcall : y.running id = some ⟨receipt, data, .failing e⟩)
      (h : storeCleanup receipt y.store = .ok () s') :
      Step y (.cleanup id) (y.set s' id none)
  | returns (y : System) (id : Nat) (receipt : StorageReceipt) (data : Bytes)
      (hcall : y.running id = some ⟨receipt, data, .returning⟩) :
      Step y (.returns id receipt data)
        { y.set y.store id none with returned := (receipt, data) :: y.returned }
  | renew (y : System) (account : PublicKey) (reference : RenewalRef) (s' : State)
      (h : (∃ receipt, Bulletin.renew retentionPeriod account reference y.store = .ok receipt s') ∨
        ∃ e, Bulletin.renew retentionPeriod account reference y.store = .err e s') :
      Step y (.renew account reference) { y with store := s' }
  | advanceBlocks (y : System) (blocks : BlockNumber) (s' : State)
      (h : Bulletin.advanceBlocks blocks y.store = .ok () s') :
      Step y (.advanceBlocks blocks) { y with store := s' }
  | authorize (y : System) (account : PublicKey) (transactions : UInt32) (bytes : UInt64)
      (expiresAt : BlockNumber) (s' : State)
      (h : Bulletin.authorize account transactions bytes expiresAt y.store = .ok () s') :
      Step y (.authorize account transactions bytes expiresAt) { y with store := s' }

/-- Runs of the store from its start. -/
abbrev Run : List (Transition System Event) → System → Prop :=
  Trace (· = System.new) (Step c retentionPeriod contents)

end MiniJam.Bulletin
