import MiniJam.Lib.Async
import MiniJam.Runtime.Chain

/-!
# `MiniJam.ChainClient.Client`: the chain client

The client of `crates/minijam-chain-client/src/lib.rs`: it signs the calls of the ingress
relayer, hands them to a node and keeps the nonces of the account and of its system operations.
Its calls may be polled at the same time and share five mutexes.

Each definition follows the function of the same name, as an `Async`. The functions of `rpc.rs`
that talk to the node are requests, and the answer to a request is what that function returns.
A guard is `guarded` for the length of its scope, and an error that leaves a scope drops its
guards. A guard that is made in the scrutinee of a `match` lives to the end of the `match`. When
the `match` is the last expression of a function, it even outlives the guards in the function's
variables (`guardedTail`).

An extrinsic is what was signed: the nonce, the genesis hash and the call.
-/

set_option autoImplicit false

namespace MiniJam.ChainClient

open Scale

/-! ### Results -/

inductive ChainClientError where
  | rpc (message : String)
  | dispatch (message : String)
  | decode (message : String)
  | transactionFailed (message : String)
  | inputTooLarge
  deriving DecidableEq

def ChainClientError.isRpc : ChainClientError → Bool
  | .rpc _ => true
  | _ => false

inductive DispatchOutcome where
  | success
  | failed (error : String)
  deriving DecidableEq

/-- A JSON value. Texts are their bytes. -/
inductive Json where
  | null
  | bool (value : Bool)
  | number (value : Int)
  | text (bytes : Bytes)
  | array (items : List Json)
  | object (fields : List (String × Json))

def Json.get (key : String) : Json → Option Json
  | .object fields => fields.lookup key
  | _ => none

def Json.asText : Json → Option Bytes
  | .text bytes => some bytes
  | _ => none

structure TransactionLifecycle where
  statuses : List Json
  includedBlock : Option Hash
  includedExtrinsicIndex : Option UInt32
  dispatchOutcome : Option DispatchOutcome
  dispatchError : Option String

structure Submission where
  extrinsicHash : Hash
  submittedNonce : UInt32
  correlation : Hash
  lifecycle : Option TransactionLifecycle

/-! ### The block of a transaction -/

def hexDigit (byte : UInt8) : Option UInt8 :=
  if 48 ≤ byte ∧ byte ≤ 57 then some (byte - 48)
  else if 97 ≤ byte ∧ byte ≤ 102 then some (byte - 87)
  else if 65 ≤ byte ∧ byte ≤ 70 then some (byte - 55)
  else none

/-- `u8::from_str_radix` on two characters, of which the first may be a plus sign. -/
def hexByte (high low : UInt8) : Option UInt8 :=
  if high = 43 then hexDigit low
  else do
    let high ← hexDigit high
    let low ← hexDigit low
    some (high * 16 + low)

def hexBytes : Bytes → Option Bytes
  | high :: low :: rest => do
    let byte ← hexByte high low
    let bytes ← hexBytes rest
    some (byte :: bytes)
  | _ => some []

def hashOfHex (text : Bytes) : Option Hash := do
  let text := if text.take 2 = ascii "0x" then text.drop 2 else text
  if text.length ≠ 64 then none
  else do
    let bytes ← hexBytes text
    if h : bytes.length = 32 then some ⟨bytes, h⟩ else none

/-- The block of the latest status that has one. -/
def includedBlockFromStatuses (statuses : List Json) : Option Hash :=
  statuses.reverse.findSome? fun status => do
    let value ← (status.get "inBlock").or (status.get "finalized")
    let text ← value.asText
    hashOfHex text

/-! ### Nonces -/

structure NonceCursor where
  next : Option UInt32 := none
  deriving DecidableEq

namespace NonceCursor

def peek (cursor : NonceCursor) : Option UInt32 := cursor.next

def commit (nonce : UInt32) (_ : NonceCursor) : NonceCursor := ⟨some (nonce.satAdd 1)⟩

/-- The nonce to use, and the cursor after it. -/
def take (cursor : NonceCursor) : Option UInt32 × NonceCursor :=
  match cursor.next with
  | none => (none, cursor)
  | some nonce => (some nonce, ⟨some (nonce.satAdd 1)⟩)

def initializeAt (nonce : UInt32) (_ : NonceCursor) : NonceCursor := ⟨some (nonce.satAdd 1)⟩

def invalidate (_ : NonceCursor) : NonceCursor := ⟨none⟩

end NonceCursor

/-! ### The client -/

variable {AccountId Ledger : Type}

/-- A signed extrinsic of the client's account. -/
structure SignedExtrinsic (T : Jam.Config AccountId Ledger) where
  nonce : UInt32
  genesis : Hash
  call : Call T

structure PreparedSystemOperation (T : Jam.Config AccountId Ledger) where
  encodedExtrinsic : SignedExtrinsic T
  submittedNonce : UInt32
  systemOpNonce : UInt64
  correlation : Hash

inductive Mutex where
  | rpc
  | nextNonce
  | submitLock
  | systemOpLock
  | nextSystemOpNonce
  deriving DecidableEq

/-- What the mutexes protect, apart from the connection. -/
structure Shared where
  nextNonce : NonceCursor := {}
  nextSystemOpNonce : Option UInt64 := none
  deriving DecidableEq

/-- What the client asks the node. -/
inductive Query (T : Jam.Config AccountId Ledger) where
  | connect
  | accountNonce
  | systemOpNonce (sender : Hash)
  | genesisHash
  | submitExtrinsic (encoded : SignedExtrinsic T)
  | submitAndWatch (encoded : SignedExtrinsic T)
  | dispatchOutcomeAt (block extrinsicHash : Hash)

variable {T : Jam.Config AccountId Ledger}

@[reducible] def Query.Reply : Query T → Type
  | .connect => Unit
  | .accountNonce => UInt32
  | .systemOpNonce _ => UInt64
  | .genesisHash => Hash
  | .submitExtrinsic _ => Hash
  | .submitAndWatch _ => Hash × List Json
  | .dispatchOutcomeAt _ _ => UInt32 × DispatchOutcome

abbrev Query.Answer (q : Query T) : Type := Except ChainClientError q.Reply

/-- A call that may fail. -/
abbrev ClientM (T : Jam.Config AccountId Ledger) : Type → Type :=
  ExceptT ChainClientError (Async Mutex (Query T) Query.Answer Shared)

namespace ClientM

variable {α : Type}

def request (q : Query T) : ClientM T q.Reply := ExceptT.mk (.await q .done)

/-- Hold a mutex for the length of a scope, whether the scope fails or not. -/
def guarded (m : Mutex) (body : ClientM T α) : ClientM T α := ExceptT.mk (Async.guarded m body.run)

/-- The mutexes of a function's variables, and one of a temporary in its last expression. The
temporary is dropped after the variables, which are dropped in reverse order. -/
def guardedTail {β : Type} (locals : List Mutex) (temporary : Mutex) (body : ClientM T α)
    (last : α → ClientM T β) : ClientM T β :=
  ExceptT.mk (locals.foldr .lock (body.run >>= fun
    | .error error => .unlockAll locals.reverse (.done (.error error))
    | .ok a => .lock temporary ((last a).run >>= fun result =>
        .unlockAll locals.reverse (.unlock temporary (.done result)))))

/-- Read the shared data and update it. -/
def access (f : Shared → Shared) : ClientM T Shared := ExceptT.mk (.access f fun s => .done (.ok s))

/-- What a call returned, failed or not. -/
def attempt (body : ClientM T α) : ClientM T (Except ChainClientError α) :=
  ExceptT.mk (body.run >>= fun result => pure (.ok result))

/-- Change the cursor of the account nonce under its mutex. -/
def updateNonce (f : NonceCursor → NonceCursor) : ClientM T Unit := guarded .nextNonce do
  let _ ← access fun s => { s with nextNonce := f s.nextNonce }

/-- Set the next nonce of the system operations under its mutex. -/
def setSystemOpNonce (next : Option UInt64) : ClientM T Unit := guarded .nextSystemOpNonce do
  let _ ← access fun s => { s with nextSystemOpNonce := next }

end ClientM

open ClientM

/-! ### Connection and nonces -/

def reconnect : ClientM T Unit := do
  let _ ← request .connect
  guarded .rpc (pure ())

/-- What follows a request that failed: the connection is made anew after a failure of it. -/
def recover (error : ChainClientError) : ClientM T Unit :=
  if error.isRpc then do
    let _ ← attempt reconnect
  else pure ()

def allocateNonce : ClientM T UInt32 := guarded .nextNonce do
  let shared ← access fun s => { s with nextNonce := s.nextNonce.take.2 }
  match shared.nextNonce.take.1 with
  | some nonce => pure nonce
  | none => do
    let nonce ← guarded .rpc (request .accountNonce)
    let _ ← access fun s => { s with nextNonce := s.nextNonce.initializeAt nonce }
    pure nonce

def commitAccountNonce (prepared : PreparedSystemOperation T) : ClientM T Unit :=
  updateNonce (NonceCursor.commit prepared.submittedNonce)

def commitSystemOpNonce (prepared : PreparedSystemOperation T) : ClientM T Unit :=
  setSystemOpNonce (some (prepared.systemOpNonce.satAdd 1))

def invalidateSystemOpNonce : ClientM T Unit := setSystemOpNonce none

/-! ### Calls -/

def signCall (nonce : UInt32) (genesis : Hash) (call : Call T) : SignedExtrinsic T :=
  ⟨nonce, genesis, call⟩

def submitCall (call : Call T) (correlation : Hash) : ClientM T Submission :=
  guardedTail [.submitLock] .rpc
    (do
      let nonce ← allocateNonce
      let genesis ← guarded .rpc (request .genesisHash)
      pure (signCall nonce genesis call))
    fun encoded => do
      let submitted ← attempt (request (.submitExtrinsic encoded))
      match submitted with
      | .ok extrinsicHash =>
        pure
          { extrinsicHash := extrinsicHash
            submittedNonce := encoded.nonce
            correlation := correlation
            lifecycle := none }
      | .error error => do
        updateNonce NonceCursor.invalidate
        recover error
        throw error

def dispatchError : DispatchOutcome → Option String
  | .success => none
  | .failed error => some error

def submitCallAndWatch (call : Call T) (correlation : Hash) : ClientM T Submission :=
  guarded .submitLock do
    let nonce ← allocateNonce
    let genesis ← guarded .rpc (request .genesisHash)
    let encoded := signCall nonce genesis call
    let watched ← attempt (guarded .rpc (request (.submitAndWatch encoded)))
    match watched with
    | .ok (extrinsicHash, statuses) =>
      match includedBlockFromStatuses statuses with
      | none => throw (.decode "finalized transaction has no included block")
      | some block => do
        updateNonce (NonceCursor.commit nonce)
        let (index, outcome) ← guarded .rpc (request (.dispatchOutcomeAt block extrinsicHash))
        match outcome with
        | .failed error => throw (.dispatch error)
        | .success =>
          pure
            { extrinsicHash := extrinsicHash
              submittedNonce := nonce
              correlation := correlation
              lifecycle := some
                { statuses := statuses
                  includedBlock := some block
                  includedExtrinsicIndex := some index
                  dispatchOutcome := some outcome
                  dispatchError := dispatchError outcome } }
    | .error error => do
      updateNonce NonceCursor.invalidate
      recover error
      throw error

/-! ### System operations -/

/-- The system-operation nonce to use: the cached one, or the one of a finalized block. -/
def nextSystemNonce (sender : Hash) : ClientM T UInt64 := do
  let shared ← access id
  match shared.nextSystemOpNonce with
  | some nonce => pure nonce
  | none => guarded .rpc (request (.systemOpNonce sender))

/-- The account nonce to use, which is not taken yet. -/
def peekNonce : ClientM T UInt32 := guarded .nextNonce do
  let shared ← access id
  match shared.nextNonce.peek with
  | some nonce => pure nonce
  | none => guarded .rpc (request .accountNonce)

def prepareSystemCommandInner (account : AccountId) (command : SystemCommandV2) :
    ClientM T (PreparedSystemOperation T) :=
  let sender := Jam.systemOpSender T account
  guarded .nextSystemOpNonce do
    let systemNonce ← nextSystemNonce sender
    let correlation := SystemOpV2.computeRequestId T.workers.crypto sender systemNonce command
    let submittedNonce ← peekNonce
    let genesis ← guarded .rpc (request .genesisHash)
    pure
      { encodedExtrinsic := signCall submittedNonce genesis (.submitSystemOp command)
        submittedNonce := submittedNonce
        systemOpNonce := systemNonce
        correlation := correlation }

def prepareSystemCommand (account : AccountId) (command : SystemCommandV2) :
    ClientM T (PreparedSystemOperation T) :=
  guarded .systemOpLock (prepareSystemCommandInner account command)

/-- What became of the extrinsic in the block it was included in. -/
def attributeDispatch (block : Option Hash) (extrinsicHash : Hash) :
    ClientM T (UInt32 × DispatchOutcome) :=
  match block with
  | some block =>
    -- The guard of the connection is a temporary of the scrutinee.
    guarded .rpc do
      let attributed ← attempt (request (.dispatchOutcomeAt block extrinsicHash))
      match attributed with
      | .ok value => pure value
      | .error error => do
        invalidateSystemOpNonce
        throw error
  | none => do
    invalidateSystemOpNonce
    throw (.decode "finalized transaction has no included block")

/-- The cached nonce follows an operation that was queued, and is unknown after any other. -/
def settleSystemOpNonce (prepared : PreparedSystemOperation T) :
    DispatchOutcome → ClientM T Unit
  | .success => commitSystemOpNonce prepared
  | .failed _ => invalidateSystemOpNonce

def completePreparedSubmission (prepared : PreparedSystemOperation T) (extrinsicHash : Hash)
    (statuses : List Json) : ClientM T Submission := do
  let includedBlock := includedBlockFromStatuses statuses
  commitAccountNonce prepared
  let (index, outcome) ← attributeDispatch includedBlock extrinsicHash
  settleSystemOpNonce prepared outcome
  pure
    { extrinsicHash := extrinsicHash
      submittedNonce := prepared.submittedNonce
      correlation := prepared.correlation
      lifecycle := some
        { statuses := statuses
          includedBlock := includedBlock
          includedExtrinsicIndex := some index
          dispatchOutcome := some outcome
          dispatchError := dispatchError outcome } }

/-- What follows the watch of a prepared extrinsic. -/
def finishPrepared (prepared : PreparedSystemOperation T) :
    Except ChainClientError (Hash × List Json) → ClientM T Submission
  | .ok (extrinsicHash, statuses) => completePreparedSubmission prepared extrinsicHash statuses
  | .error error => do
    updateNonce NonceCursor.invalidate
    setSystemOpNonce none
    recover error
    throw error

def submitSystemCommand (account : AccountId) (command : SystemCommandV2) :
    ClientM T Submission :=
  guarded .systemOpLock do
    guarded .submitLock do
      let prepared ← prepareSystemCommandInner account command
      let watched ← attempt (guarded .rpc (request (.submitAndWatch prepared.encodedExtrinsic)))
      finishPrepared prepared watched

def submitPreparedExtrinsic (prepared : PreparedSystemOperation T) : ClientM T Submission :=
  guardedTail [.systemOpLock, .submitLock] .rpc (pure ()) fun _ => do
    let watched ← attempt (request (.submitAndWatch prepared.encodedExtrinsic))
    finishPrepared prepared watched

/-! ### The public calls -/

/-- A call to the client. -/
inductive ClientCall (T : Jam.Config AccountId Ledger) where
  | submitPreimage (bytes : Bytes)
  | submitPreimageFinalized (bytes : Bytes)
  | submitWork (canonical : Bytes) (bundleRef : ContentRef) (packageHash : Hash)
  | submitAllocation (allocationId : UInt64) (targetService : UInt32) (amount : Balance)
  | submitCreateService (codeHash : Hash) (codeLen : UInt32) (minItemGas minMemoGas : UInt64)
  | prepareCreateService (codeHash : Hash) (codeLen : UInt32) (minItemGas minMemoGas : UInt64)
  | submitPreparedExtrinsic (prepared : PreparedSystemOperation T)

inductive Output (T : Jam.Config AccountId Ledger) where
  | submission (submission : Submission)
  | prepared (prepared : PreparedSystemOperation T)

/-- Convert bytes to a bounded vector for a call. -/
def tryInto {n : Nat} (bytes : Bytes) (next : BoundedVec UInt8 n → ClientM T Submission) :
    ClientM T Submission :=
  match BoundedVec.tryFrom bytes with
  | none => throw .inputTooLarge
  | some bytes => next bytes

/-- The routine of a call to the client of an account. -/
def ClientCall.routine (account : AccountId) : ClientCall T → ClientM T (Output T)
  | .submitPreimage bytes => .submission <$> tryInto bytes fun canonicalPreimage =>
      submitCall (.submitPreimage canonicalPreimage) (T.workers.crypto.blake2_256 bytes)
  | .submitPreimageFinalized bytes => .submission <$> tryInto bytes fun canonicalPreimage =>
      submitCallAndWatch (.submitPreimage canonicalPreimage) (T.workers.crypto.blake2_256 bytes)
  | .submitWork canonical bundleRef packageHash =>
      .submission <$> tryInto canonical fun canonicalWorkPackage =>
        submitCallAndWatch (.submitWork canonicalWorkPackage bundleRef) packageHash
  | .submitAllocation allocationId targetService amount =>
      let allocation : Jam.AllocationV1 := ⟨allocationId, targetService, amount⟩
      .submission <$> submitCall (.submitAllocation allocation)
        (T.workers.crypto.blake2_256 allocation.encode)
  | .submitCreateService codeHash codeLen minItemGas minMemoGas =>
      .submission <$> submitSystemCommand account
        (.createService codeHash codeLen minItemGas minMemoGas)
  | .prepareCreateService codeHash codeLen minItemGas minMemoGas =>
      .prepared <$> prepareSystemCommand account
        (.createService codeHash codeLen minItemGas minMemoGas)
  | .submitPreparedExtrinsic prepared =>
      .submission <$> ChainClient.submitPreparedExtrinsic prepared

/-! ### Runs -/

/-- Calls to one client that are polled at the same time. -/
abbrev Calls (ι : Type) (T : Jam.Config AccountId Ledger) (W : Type) : Type :=
  Pool ι Mutex (Query T) Query.Answer Shared W (Except ChainClientError (Output T))

abbrev Event (ι : Type) (T : Jam.Config AccountId Ledger) : Type :=
  Pool.Event ι Mutex (Query T) Query.Answer

/-- The calls to a client that has just connected. -/
def connected {ι W : Type} (account : AccountId) (calls : ι → ClientCall T) (world : W) :
    Calls ι T W := Pool.start (fun i => (calls i).routine account) {} world

/-- The calls of a connected client in any schedule and with any answers. The world remembers
the answers. -/
def Run {ι : Type} [DecidableEq ι] (account : AccountId) (calls : ι → ClientCall T) :
    List (Transition (Calls ι T (List (Sigma (Query.Answer (T := T))))) (Event ι T)) →
      Calls ι T (List (Sigma (Query.Answer (T := T)))) → Prop :=
  Trace (· = connected account calls []) (Pool.Step (World.log _ _))

/-- The answers of a node that takes every extrinsic. -/
def healthyNode : (q : Query T) → q.Answer
  | .connect => .ok ()
  | .accountNonce => .ok 0
  | .systemOpNonce _ => .ok 0
  | .genesisHash => .ok (FixedBytes.fill 32 0)
  | .submitExtrinsic _ => .ok (FixedBytes.fill 32 1)
  | .submitAndWatch _ => .ok (FixedBytes.fill 32 1, [])
  | .dispatchOutcomeAt _ _ => .ok (0, .success)

end MiniJam.ChainClient
