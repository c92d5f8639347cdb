import MiniJam.Lib.Trace
import MiniJam.Runtime.Frame

/-!
# `MiniJam.Bridge.Ledger`: the bridge engine and the bridge pallet

`BridgeLedger` of `crates/minijam-bridge-engine/src/lib.rs` keeps an escrow for each account. The
pallet of `pallets/minijam-bridge/src/lib.rs` keeps one hold on an escrow account, with a record
of every amount that came in and of every amount that was released. Each definition follows the
function of the same name.

Amounts and nonces are natural numbers. The checked additions of the source are checks against
`2 ^ 128` and `2 ^ 64`.
-/

set_option autoImplicit false

namespace MiniJam.Bridge

inductive AssetId where
  | native
  deriving DecidableEq

/-! ### The engine -/

inductive BridgeError where
  | zeroAmount
  | insufficientEscrow
  | nonceConsumed
  | unexpectedNonce
  | overflow
  deriving DecidableEq

inductive BridgeEffect where
  | inbound (nonce : Nat) (targetService : UInt32) (asset : AssetId) (amount : Balance)
      (account : PublicKey)
  | outbound (nonce : Nat) (sourceService : UInt32) (asset : AssetId) (amount : Balance)
      (account : PublicKey)
  deriving DecidableEq

structure BridgeLedger where
  nextInboundNonce : Nat
  escrow : StorageMap PublicKey Balance
  consumedOutbound : StorageMap Nat Unit

/-- A sum of the width, or none. -/
def checkedAdd (width a b : Nat) : Option Nat := if a + b < 2 ^ width then some (a + b) else none

namespace BridgeLedger

/-- `BridgeLedger::default`. -/
def empty : BridgeLedger := ⟨0, ∅, ∅⟩

def escrowed (ledger : BridgeLedger) (account : PublicKey) : Balance :=
  (ledger.escrow.lookup account).getD 0

def prepareInbound (account : PublicKey) (targetService : UInt32) (amount : Balance) :
    Tx BridgeLedger BridgeError BridgeEffect := do
  Tx.ensure (amount ≠ 0) .zeroAmount
  let ledger ← Tx.read
  let nonce := ledger.nextInboundNonce
  let nextNonce ← Tx.okOr (checkedAdd 64 nonce 1) .unexpectedNonce
  let newBalance ← Tx.okOr (checkedAdd 128 (ledger.escrowed account) amount) .overflow
  Tx.modify fun ledger => { ledger with
    nextInboundNonce := nextNonce
    escrow := ledger.escrow.insert account newBalance }
  pure (.inbound nonce targetService .native amount account)

def applyOutbound (nonce : Nat) (account : PublicKey) (sourceService : UInt32)
    (amount : Balance) : Tx BridgeLedger BridgeError BridgeEffect := do
  Tx.ensure (amount ≠ 0) .zeroAmount
  let ledger ← Tx.read
  Tx.ensure (ledger.consumedOutbound.contains nonce = false) .nonceConsumed
  let escrow ← Tx.okOr (ledger.escrow.lookup account) .insufficientEscrow
  Tx.ensure (amount ≤ escrow) .insufficientEscrow
  Tx.modify fun ledger => { ledger with
    escrow := ledger.escrow.insert account (escrow - amount)
    consumedOutbound := ledger.consumedOutbound.insert nonce () }
  pure (.outbound nonce sourceService .native amount account)

end BridgeLedger

/-- A call of the engine. -/
inductive EngineCall where
  | prepareInbound (account : PublicKey) (targetService : UInt32) (amount : Balance)
  | applyOutbound (nonce : Nat) (account : PublicKey) (sourceService : UInt32) (amount : Balance)

def EngineCall.run : EngineCall → Tx BridgeLedger BridgeError BridgeEffect
  | .prepareInbound account targetService amount =>
    BridgeLedger.prepareInbound account targetService amount
  | .applyOutbound nonce account sourceService amount =>
    BridgeLedger.applyOutbound nonce account sourceService amount

/-- A call with what it returned. -/
def EngineStep (ledger : BridgeLedger) (l : EngineCall × Except BridgeError BridgeEffect)
    (ledger' : BridgeLedger) : Prop :=
  match l.2 with
  | .ok effect => l.1.run ledger = .ok effect ledger'
  | .error e => l.1.run ledger = .err e ledger'

/-! ### The pallet -/

inductive Error where
  | zeroAmount
  | nonceOverflow
  | outboundAlreadyProcessed
  deriving DecidableEq

inductive DispatchError where
  | badOrigin
  | currency
  | bridge (error : Error)
  deriving DecidableEq

section
variable (AccountId Reason Ledger : Type)

structure Config where
  currency : Currency AccountId Reason Ledger
  /-- `HoldReason::BridgeEscrow`. -/
  bridgeEscrow : Reason
  escrowAccount : AccountId

/-- An `InboundRecord` or an `OutboundRecord`. The service is the target or the source. -/
structure Record where
  nonce : Nat
  account : AccountId
  service : UInt32
  asset : AssetId
  amount : Balance

inductive Event where
  | inboundEscrowed (nonce : Nat) (account : AccountId) (targetService : UInt32) (amount : Balance)
  | outboundReleased (nonce : Nat) (account : AccountId) (sourceService : UInt32)
      (amount : Balance)

structure State where
  ledger : Ledger
  nextInboundNonce : Nat
  inboundRecords : StorageMap Nat (Record AccountId)
  processedOutboundNonces : StorageMap Nat Unit
  outboundRecords : StorageMap Nat (Record AccountId)
  events : List (Event AccountId)

end

variable {AccountId Reason Ledger : Type} (T : Config AccountId Reason Ledger)

/-- The bodies of the calls. -/
abbrev M (AccountId Ledger α : Type) : Type := Tx (State AccountId Ledger) DispatchError α

/-- An operation of the currency on the ledger of the pallet. -/
def withLedger (operation : Ledger → Option Ledger) : M AccountId Ledger Unit := do
  let s ← Tx.read
  let ledger ← Tx.okOr (operation s.ledger) .currency
  Tx.modify fun s => { s with ledger := ledger }

def ensureSigned : Origin AccountId → M AccountId Ledger AccountId
  | .signed who => pure who
  | _ => Tx.throw .badOrigin

def ensureRoot : Origin AccountId → M AccountId Ledger Unit
  | .root => pure ()
  | _ => Tx.throw .badOrigin

def bridgeIn (origin : Origin AccountId) (targetService : UInt32) (amount : Balance) :
    M AccountId Ledger Unit := Tx.transaction do
  let account ← ensureSigned origin
  Tx.ensure (amount ≠ 0) (.bridge .zeroAmount)
  let s ← Tx.read
  let nonce := s.nextInboundNonce
  let next ← Tx.okOr (checkedAdd 64 nonce 1) (.bridge .nonceOverflow)
  withLedger (T.currency.transfer account T.escrowAccount amount)
  withLedger (T.currency.hold T.bridgeEscrow T.escrowAccount amount)
  Tx.modify fun s => { s with
    inboundRecords := s.inboundRecords.insert nonce ⟨nonce, account, targetService, .native, amount⟩
    nextInboundNonce := next
    events := s.events ++ [.inboundEscrowed nonce account targetService amount] }

def releaseOutbound (origin : Origin AccountId) (nonce : Nat) (account : AccountId)
    (sourceService : UInt32) (amount : Balance) : M AccountId Ledger Unit := Tx.transaction do
  ensureRoot origin
  Tx.ensure (amount ≠ 0) (.bridge .zeroAmount)
  let s ← Tx.read
  Tx.ensure (s.processedOutboundNonces.contains nonce = false) (.bridge .outboundAlreadyProcessed)
  withLedger (T.currency.release T.bridgeEscrow T.escrowAccount amount)
  withLedger (T.currency.transfer T.escrowAccount account amount)
  Tx.modify fun s => { s with
    processedOutboundNonces := s.processedOutboundNonces.insert nonce ()
    outboundRecords := s.outboundRecords.insert nonce
      ⟨nonce, account, sourceService, .native, amount⟩
    events := s.events ++ [.outboundReleased nonce account sourceService amount] }

/-- What can happen: a call, or anything else in the runtime, which changes the ledger only. -/
inductive Action (AccountId Ledger : Type) where
  | bridgeIn (origin : Origin AccountId) (targetService : UInt32) (amount : Balance)
  | releaseOutbound (origin : Origin AccountId) (nonce : Nat) (account : AccountId)
      (sourceService : UInt32) (amount : Balance)
  | elsewhere (ledger : Ledger)

def Action.run : Action AccountId Ledger → M AccountId Ledger Unit
  | .bridgeIn origin targetService amount => Bridge.bridgeIn T origin targetService amount
  | .releaseOutbound origin nonce account sourceService amount =>
    Bridge.releaseOutbound T origin nonce account sourceService amount
  | .elsewhere ledger => Tx.modify fun s => { s with ledger := ledger }

/-- The balance that is held for the bridge. -/
def State.escrowHold (s : State AccountId Ledger) : Balance :=
  T.currency.balanceOnHold s.ledger T.bridgeEscrow T.escrowAccount

/-- An action with the error it returned, if any. Nobody else uses the hold of the bridge. -/
def PalletStep (s : State AccountId Ledger) (l : Action AccountId Ledger × Option DispatchError)
    (s' : State AccountId Ledger) : Prop :=
  Tx.Step (Action.run T) s l s' ∧
    ∀ ledger, l.1 = .elsewhere ledger → s'.escrowHold T = s.escrowHold T

/-- Nothing is on hold and nothing was recorded. -/
structure State.Initial (s : State AccountId Ledger) : Prop where
  hold : s.escrowHold T = 0
  next : s.nextInboundNonce = 0
  inbound : s.inboundRecords = ∅
  processed : s.processedOutboundNonces = ∅
  outbound : s.outboundRecords = ∅

/-- What a map of records adds up to. -/
def recorded (records : StorageMap Nat (Record AccountId)) : Balance :=
  (records.entries.map fun entry => entry.2.amount).sum

end MiniJam.Bridge
