import MiniJam.Bridge.Ledger
import MiniJam.Lib.Escrow

/-!
# `MiniJam.Proofs.Bridge`: the escrow of the bridge is conserved

The engine keeps an escrow for each account and the pallet one hold. Both are books of
`MiniJam.Lib.Escrow`: an accepted inbound is a deposit, an accepted outbound is a payout, and a
call that fails moves nothing. The balances and the nonces of a run follow from its moves. For the
pallet the moves are also kept as records, so that the hold is what the records leave
(`State.Kept`).
-/

set_option autoImplicit false

namespace MiniJam.Bridge

open Escrow

/-- A checked addition returns the sum when it fits. -/
theorem checkedAdd_eq_some {width a b c : Nat} :
    checkedAdd width a b = some c ↔ a + b < 2 ^ width ∧ a + b = c := by
  unfold checkedAdd
  split_ifs with h <;> simp [h]

/-! ### The engine -/

/-- The inbound amount of an effect. -/
def BridgeEffect.deposits : BridgeEffect → List (Entry PublicKey)
  | .inbound nonce _ _ amount account => [⟨nonce, account, amount⟩]
  | .outbound _ _ _ _ _ => []

/-- The outbound amount of an effect. -/
def BridgeEffect.payouts : BridgeEffect → List (Entry PublicKey)
  | .inbound _ _ _ _ _ => []
  | .outbound nonce _ _ amount account => [⟨nonce, account, amount⟩]

/-- The effects that the calls returned, in order. -/
def accepted (h : List (Transition BridgeLedger (EngineCall × Except BridgeError BridgeEffect))) :
    List BridgeEffect :=
  h.reverse.flatMap fun t => t.label.2.toOption.toList

namespace BridgeLedger

/-- The ledger as a book. -/
def book (ledger : BridgeLedger) : Book PublicKey where
  held := ledger.escrowed
  next := ledger.nextInboundNonce
  spent n := ledger.consumedOutbound.contains n = true

/-- Writing the escrow of an account changes that account only. -/
theorem escrowed_insert (ledger : BridgeLedger) (account : PublicKey) (amount : Balance) :
    (fun account' => ((ledger.escrow.insert account amount).lookup account').getD 0) =
      Function.update ledger.escrowed account amount := by
  funext account'
  rw [StorageMap.lookup_insert_eq, Function.update_apply]
  split_ifs with h
  · rfl
  · rfl

variable {account : PublicKey} {effect : BridgeEffect} {ledger ledger' : BridgeLedger}

/-- A deposit goes into the escrow under the next nonce. -/
theorem prepareInbound_ok {service : UInt32} {amount : Balance}
    (h : prepareInbound account service amount ledger = .ok effect ledger') :
    effect = .inbound ledger.nextInboundNonce service .native amount account ∧
      ledger' = { ledger with
        nextInboundNonce := ledger.nextInboundNonce + 1
        escrow := ledger.escrow.insert account (ledger.escrowed account + amount) } := by
  unfold prepareInbound at h
  obtain ⟨-, h⟩ := Tx.ensure_bind_ok.mp h
  rw [Tx.read_bind_apply] at h
  obtain ⟨next, hnext, h⟩ := Tx.okOr_bind_ok.mp h
  obtain ⟨balance, hbalance, h⟩ := Tx.okOr_bind_ok.mp h
  obtain ⟨-, rfl⟩ := checkedAdd_eq_some.mp hnext
  obtain ⟨-, rfl⟩ := checkedAdd_eq_some.mp hbalance
  cases h
  exact ⟨rfl, rfl⟩

/-- A payout takes from the escrow, once for each nonce. -/
theorem applyOutbound_ok {nonce : Nat} {service : UInt32} {amount : Balance}
    (h : applyOutbound nonce account service amount ledger = .ok effect ledger') :
    effect = .outbound nonce service .native amount account ∧
      ledger.consumedOutbound.contains nonce = false ∧ amount ≤ ledger.escrowed account ∧
      ledger' = { ledger with
        escrow := ledger.escrow.insert account (ledger.escrowed account - amount)
        consumedOutbound := ledger.consumedOutbound.insert nonce () } := by
  unfold applyOutbound at h
  obtain ⟨-, h⟩ := Tx.ensure_bind_ok.mp h
  rw [Tx.read_bind_apply] at h
  obtain ⟨hfresh, h⟩ := Tx.ensure_bind_ok.mp h
  obtain ⟨escrow, hescrow, h⟩ := Tx.okOr_bind_ok.mp h
  obtain ⟨hle, h⟩ := Tx.ensure_bind_ok.mp h
  have hheld : ledger.escrowed account = escrow := by rw [escrowed, hescrow, Option.getD_some]
  cases h
  rw [hheld]
  exact ⟨rfl, hfresh, hle, rfl⟩

end BridgeLedger

open BridgeLedger

/-- A call that fails has checked and not written. -/
theorem engineCall_err {call : EngineCall} {e : BridgeError} {ledger ledger' : BridgeLedger}
    (h : call.run ledger = .err e ledger') : ledger' = ledger := by
  -- Every check comes before the first write.
  cases call with
  | prepareInbound account service amount =>
    simp only [EngineCall.run, prepareInbound, Tx.ensure_bind_apply, Tx.read_bind_apply] at h
    split_ifs at h
    · cases hnext : checkedAdd 64 ledger.nextInboundNonce 1 <;>
        cases hbalance : checkedAdd 128 (ledger.escrowed account) amount <;>
        · rw [hnext, hbalance] at h
          cases h
          try rfl
    · cases h
      rfl
  | applyOutbound nonce account service amount =>
    simp only [EngineCall.run, applyOutbound, Tx.ensure_bind_apply, Tx.read_bind_apply] at h
    split_ifs at h
    · cases hescrow : ledger.escrow.lookup account with
      | none =>
        rw [hescrow] at h
        cases h
        rfl
      | some escrow =>
        rw [hescrow, Tx.okOr_some_bind_apply, Tx.ensure_bind_apply] at h
        split_ifs at h
        · cases h
        · cases h
          rfl
    · cases h
      rfl
    · cases h
      rfl

theorem engine_moves {ledger ledger' : BridgeLedger}
    {l : EngineCall × Except BridgeError BridgeEffect} (h : EngineStep ledger l ledger') :
    Moves (l.2.toOption.toList.flatMap BridgeEffect.deposits)
      (l.2.toOption.toList.flatMap BridgeEffect.payouts) ledger.book ledger'.book := by
  obtain ⟨call, result⟩ := l
  cases result with
  | error e =>
    rw [engineCall_err h]
    exact .refl _
  | ok effect =>
    cases call with
    | prepareInbound account service amount =>
      obtain ⟨rfl, rfl⟩ := prepareInbound_ok h
      exact .deposit (b := ledger.book) account amount (escrowed_insert ledger account _) rfl rfl
    | applyOutbound nonce account service amount =>
      obtain ⟨rfl, hfresh, hle, rfl⟩ := applyOutbound_ok h
      refine .payout account hle (escrowed_insert ledger account _) rfl (by simp [book, hfresh]) ?_
      intro n
      simp only [book, StorageMap.contains, StorageMap.lookup_insert_eq]
      split_ifs with hn <;> simp [hn]

/-! ### The pallet -/

variable {AccountId Reason Ledger : Type} {T : Config AccountId Reason Ledger}
  {s s' : State AccountId Ledger}

/-- The pallet as a book with one key. -/
def State.book (T : Config AccountId Reason Ledger) (s : State AccountId Ledger) : Book Unit where
  held _ := s.escrowHold T
  next := s.nextInboundNonce
  spent n := s.processedOutboundNonces.contains n = true

/-- The amount that a successful `bridge_in` brings in. -/
def deposits (t : Transition (State AccountId Ledger)
    (Action AccountId Ledger × Option DispatchError)) : List (Entry Unit) :=
  match t.label with
  | (.bridgeIn _ _ amount, none) => [⟨t.pre.nextInboundNonce, (), amount⟩]
  | _ => []

/-- The amount that a successful `release_outbound` pays out. -/
def payouts (t : Transition (State AccountId Ledger)
    (Action AccountId Ledger × Option DispatchError)) : List (Entry Unit) :=
  match t.label with
  | (.releaseOutbound _ nonce _ _ amount, none) => [⟨nonce, (), amount⟩]
  | _ => []

theorem withLedger_bind_ok {operation : Ledger → Option Ledger}
    {f : Unit → M AccountId Ledger Unit} (h : (withLedger operation >>= f) s = .ok () s') :
    ∃ ledger, operation s.ledger = some ledger ∧ f () { s with ledger := ledger } = .ok () s' := by
  obtain ⟨u, s₁, hfirst, h⟩ := Tx.bind_ok.mp h
  unfold withLedger at hfirst
  rw [Tx.read_bind_apply] at hfirst
  obtain ⟨ledger, hledger, hfirst⟩ := Tx.okOr_bind_ok.mp hfirst
  cases hfirst
  exact ⟨ledger, hledger, h⟩

variable {origin : Origin AccountId}

theorem bridgeIn_ok (hc : LawfulCurrency T.currency) {service : UInt32} {amount : Balance}
    (h : bridgeIn T origin service amount s = .ok () s') :
    s'.escrowHold T = s.escrowHold T + amount ∧
      s'.nextInboundNonce = s.nextInboundNonce + 1 ∧
      s'.processedOutboundNonces = s.processedOutboundNonces ∧
      s'.outboundRecords = s.outboundRecords ∧
      ∃ who, s'.inboundRecords = s.inboundRecords.insert s.nextInboundNonce
        ⟨s.nextInboundNonce, who, service, .native, amount⟩ := by
  obtain ⟨who, s₁, hwho, h⟩ := Tx.bind_ok.mp (Tx.transaction_ok.mp h)
  obtain rfl : s = s₁ := by
    cases origin <;> cases hwho
    rfl
  obtain ⟨-, h⟩ := Tx.ensure_bind_ok.mp h
  rw [Tx.read_bind_apply] at h
  obtain ⟨next, hnext, h⟩ := Tx.okOr_bind_ok.mp h
  obtain ⟨-, rfl⟩ := checkedAdd_eq_some.mp hnext
  obtain ⟨ledger₁, htransfer, h⟩ := withLedger_bind_ok h
  obtain ⟨ledger₂, hhold, h⟩ := withLedger_bind_ok h
  cases h
  refine ⟨?_, rfl, rfl, rfl, who, rfl⟩
  show T.currency.balanceOnHold ledger₂ _ _ = T.currency.balanceOnHold s.ledger _ _ + amount
  rw [hc.hold_same _ _ _ _ _ hhold, hc.transfer_holds _ _ _ _ _ htransfer]

theorem releaseOutbound_ok (hc : LawfulCurrency T.currency) {nonce : Nat} {account : AccountId}
    {service : UInt32} {amount : Balance}
    (h : releaseOutbound T origin nonce account service amount s = .ok () s') :
    s.processedOutboundNonces.contains nonce = false ∧
      s'.escrowHold T + amount = s.escrowHold T ∧
      s'.nextInboundNonce = s.nextInboundNonce ∧
      s'.processedOutboundNonces = s.processedOutboundNonces.insert nonce () ∧
      s'.inboundRecords = s.inboundRecords ∧
      s'.outboundRecords = s.outboundRecords.insert nonce
        ⟨nonce, account, service, .native, amount⟩ := by
  obtain ⟨u, s₁, hroot, h⟩ := Tx.bind_ok.mp (Tx.transaction_ok.mp h)
  obtain rfl : s = s₁ := by
    cases origin <;> cases hroot
    rfl
  obtain ⟨-, h⟩ := Tx.ensure_bind_ok.mp h
  rw [Tx.read_bind_apply] at h
  obtain ⟨hfresh, h⟩ := Tx.ensure_bind_ok.mp h
  obtain ⟨ledger₁, hrelease, h⟩ := withLedger_bind_ok h
  obtain ⟨ledger₂, htransfer, h⟩ := withLedger_bind_ok h
  cases h
  refine ⟨hfresh, ?_, rfl, rfl, rfl, rfl⟩
  show T.currency.balanceOnHold ledger₂ _ _ + amount = T.currency.balanceOnHold s.ledger _ _
  rw [hc.transfer_holds _ _ _ _ _ htransfer, hc.release_same _ _ _ _ _ hrelease]

/-- A call that fails is undone. -/
theorem palletStep_err {action : Action AccountId Ledger} {e : DispatchError}
    (h : PalletStep T s (action, some e) s') : s' = s := by
  have hrun : action.run T s = .err e s' := h.1
  cases action with
  | bridgeIn origin service amount => exact Tx.transaction_err hrun
  | releaseOutbound origin nonce account service amount => exact Tx.transaction_err hrun
  | elsewhere ledger => cases hrun

variable {l : Action AccountId Ledger × Option DispatchError}

theorem pallet_moves (hc : LawfulCurrency T.currency) (h : PalletStep T s l s') :
    Moves (deposits ⟨s, l, s'⟩) (payouts ⟨s, l, s'⟩) (s.book T) (s'.book T) := by
  obtain ⟨action, result⟩ := l
  cases result with
  | some e =>
    obtain rfl := palletStep_err h
    cases action <;> exact .refl _
  | none =>
    have hrun : action.run T s = .ok () s' := h.1
    cases action with
    | bridgeIn origin service amount =>
      obtain ⟨hhold, hnext, hprocessed, -⟩ := bridgeIn_ok hc hrun
      refine .deposit (b := s.book T) () amount ?_ hnext ?_
      · funext u
        simp [State.book, hhold]
      · simp [State.book, hprocessed]
    | releaseOutbound origin nonce account service amount =>
      obtain ⟨hfresh, hhold, hnext, hprocessed, -⟩ := releaseOutbound_ok hc hrun
      refine .payout (b := s.book T) () ?_ ?_ hnext (by simp [State.book, hfresh]) ?_
      · exact Nat.le.intro ((Nat.add_comm _ _).trans hhold)
      · funext u
        simp [State.book, ← hhold]
      · intro n
        simp only [State.book, hprocessed, StorageMap.contains, StorageMap.lookup_insert_eq]
        split_ifs with hn <;> simp [hn]
    | elsewhere ledger =>
      cases hrun
      -- The rest of the runtime leaves this hold.
      have hhold := h.2 ledger rfl
      have hbook : s.book T = State.book T { s with ledger := ledger } := by
        unfold State.book
        rw [hhold]
      rw [hbook]
      exact .refl _

/-- The records say what came in and what was released. -/
structure State.Kept (T : Config AccountId Reason Ledger) (s : State AccountId Ledger) :
    Prop where
  hold : s.escrowHold T + recorded s.outboundRecords = recorded s.inboundRecords
  inbound : ∀ n, s.inboundRecords.contains n = true ↔ n < s.nextInboundNonce
  outbound : ∀ n, s.outboundRecords.contains n = s.processedOutboundNonces.contains n

/-- A record under a new nonce adds its amount. -/
theorem recorded_insert {records : StorageMap Nat (Record AccountId)} {nonce : Nat}
    (h : records.contains nonce = false) (record : Record AccountId) :
    recorded (records.insert nonce record) = record.amount + recorded records := by
  have hnew : nonce ∉ records := AList.lookup_eq_none.mp (StorageMap.lookup_of_not_contains h)
  unfold recorded
  rw [AList.entries_insert_of_notMem hnew, List.map_cons, List.sum_cons]

theorem State.Kept.step (hc : LawfulCurrency T.currency) (hkept : s.Kept T)
    (h : PalletStep T s l s') : s'.Kept T := by
  obtain ⟨action, result⟩ := l
  cases result with
  | some e =>
    rw [palletStep_err h]
    exact hkept
  | none =>
    have hrun : action.run T s = .ok () s' := h.1
    cases action with
    | bridgeIn origin service amount =>
      obtain ⟨hhold, hnext, hprocessed, houtbound, who, hinbound⟩ := bridgeIn_ok hc hrun
      -- The recorded nonces are below the next one, so its record is new.
      have hnew : s.inboundRecords.contains s.nextInboundNonce = false := by
        rw [← Bool.not_eq_true, hkept.inbound]
        exact Nat.lt_irrefl _
      refine ⟨?_, fun n => ?_, fun n => ?_⟩
      · rw [hhold, houtbound, hinbound, recorded_insert hnew, ← hkept.hold, Nat.add_right_comm,
          Nat.add_comm amount]
      · have hn := hkept.inbound n
        rw [hinbound, hnext, StorageMap.contains, StorageMap.lookup_insert_eq]
        split_ifs with hlast
        · simp [hlast]
        · exact hn.trans (by omega)
      · rw [houtbound, hprocessed, hkept.outbound]
    | releaseOutbound origin nonce account service amount =>
      obtain ⟨hfresh, hhold, hnext, hprocessed, hinbound, houtbound⟩ := releaseOutbound_ok hc hrun
      have hnew : s.outboundRecords.contains nonce = false := (hkept.outbound nonce).trans hfresh
      refine ⟨?_, fun n => ?_, fun n => ?_⟩
      · rw [houtbound, hinbound, recorded_insert hnew, ← hkept.hold, ← hhold, Nat.add_assoc]
      · rw [hinbound, hnext]
        exact hkept.inbound n
      · have hn := hkept.outbound n
        simp only [houtbound, hprocessed, StorageMap.contains, StorageMap.lookup_insert_eq] at hn ⊢
        split_ifs
        · rfl
        · exact hn
    | elsewhere ledger =>
      cases hrun
      exact ⟨(h.2 ledger rfl).symm ▸ hkept.hold, hkept.inbound, hkept.outbound⟩

theorem State.Initial.kept (h : s.Initial T) : s.Kept T := by
  refine ⟨?_, fun n => ?_, fun n => ?_⟩
  · rw [h.hold, h.outbound, h.inbound]
    rfl
  · simp [h.inbound, h.next, StorageMap.contains]
  · rw [h.outbound, h.processed]
    rfl

/-- The escrow of the bridge is conserved and each outbound pays once, in the engine and in the
pallet. What is in escrow and what was paid out is what came in, inbound nonces count up from 0,
no outbound nonce is accepted twice, and a call that fails changes nothing. -/
theorem bridge_escrow_conserved (hc : LawfulCurrency T.currency) :
    (∀ h ledger, Trace (· = BridgeLedger.empty) EngineStep h ledger →
      (∀ account,
        ledger.escrowed account + total account ((accepted h).flatMap BridgeEffect.payouts) =
          total account ((accepted h).flatMap BridgeEffect.deposits)) ∧
      ((accepted h).flatMap BridgeEffect.deposits).map Entry.nonce =
        List.range ledger.nextInboundNonce ∧
      (((accepted h).flatMap BridgeEffect.payouts).map Entry.nonce).Nodup ∧
      ∀ t ∈ h, ∀ e, t.label.2 = .error e → t.post = t.pre) ∧
    ∀ h s, Trace (State.Initial T) (PalletStep T) h s →
      s.escrowHold T + recorded s.outboundRecords = recorded s.inboundRecords ∧
      (∀ n, s.inboundRecords.contains n = true ↔ n < s.nextInboundNonce) ∧
      (h.reverse.flatMap deposits).map Entry.nonce = List.range s.nextInboundNonce ∧
      ((h.reverse.flatMap payouts).map Entry.nonce).Nodup ∧
      ∀ t ∈ h, ∀ e, t.label.2 = some e → t.post = t.pre := by
  constructor
  · intro h ledger hr
    -- The escrow moves by the logged deposits and payouts only.
    have hmoves := Moves.of_trace BridgeLedger.book
      (fun t => t.label.2.toOption.toList.flatMap BridgeEffect.deposits)
      (fun t => t.label.2.toOption.toList.flatMap BridgeEffect.payouts)
      (b := BridgeLedger.empty.book) (fun ledger hledger => by rw [hledger])
      (fun _ _ _ => engine_moves) hr
    rw [← List.flatMap_assoc, ← List.flatMap_assoc] at hmoves
    refine ⟨fun account => ?_, hmoves.nonces_eq_range rfl, hmoves.nodup, fun t ht e he => ?_⟩
    · exact (hmoves.balance account).trans (Nat.zero_add _)
    · have hstep := hr.steps t ht
      rw [EngineStep, he] at hstep
      exact engineCall_err hstep
  · intro h s hr
    have hkept : s.Kept T := hr.invariant_state (fun _ => State.Initial.kept)
      fun _ _ _ hkept hstep => hkept.step hc hstep
    -- So does the hold of the pallet, which is one account of the same book.
    have hmoves := Moves.of_trace (State.book T) deposits payouts
      (b := ⟨fun _ => 0, 0, fun _ => False⟩) (fun s hs => by
        simp [State.book, hs.hold, hs.next, hs.processed, StorageMap.contains])
      (fun _ _ _ => pallet_moves hc) hr
    refine ⟨hkept.hold, hkept.inbound, hmoves.nonces_eq_range rfl, hmoves.nodup,
      fun t ht e he => ?_⟩
    have hstep := hr.steps t ht
    rw [← Prod.mk.eta (p := t.label), he] at hstep
    exact palletStep_err hstep

/-- Five come in over the reference currency, and three are paid out. -/
theorem bridge_escrow_conserved_paid :
    let T : Config Bool Bool (Book Bool Bool) := ⟨Book.currency, true, true⟩
    ∃ h s, Trace (State.Initial T) (PalletStep T) h s ∧ h.length = 2 ∧ s.escrowHold T = 2 ∧
      s.escrowHold T + recorded s.outboundRecords = recorded s.inboundRecords := by
  intro T
  have hinitial : State.Initial T ⟨⟨fun _ => 9, fun _ _ => 0⟩, 0, ∅, ∅, ∅, []⟩ :=
    ⟨rfl, rfl, rfl, rfl, rfl⟩
  have hin : Trace (State.Initial T) (PalletStep T) _ _ := (Trace.start hinitial).extend
    (l := (Action.bridgeIn (.signed false) 7 5, none)) ⟨rfl, fun _ h => by cases h⟩
  have hout : Trace (State.Initial T) (PalletStep T) _ _ := hin.extend
    (l := (Action.releaseOutbound .root 42 false 7 3, none)) ⟨rfl, fun _ h => by cases h⟩
  exact ⟨_, _, hout, rfl, rfl, ((bridge_escrow_conserved Book.currency_lawful).2 _ _ hout).1⟩

end MiniJam.Bridge
