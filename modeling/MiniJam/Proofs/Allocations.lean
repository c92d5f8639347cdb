import MiniJam.Proofs.IngressSteps
import MiniJam.Runtime.Reference

/-!
# `MiniJam.Proofs.Allocations`: from the admission of an allocation to its execution

An allocation is admitted when its target has a service record, whatever the record holds.
Its conversion into an operation, one or more blocks later, decodes the record and wants a
minimum memo gas. `admitted_allocation_converts` says what keeps the two checks together:
the record is payable when the allocation is admitted, and no block replaces the record of a
pending allocation's target by one that is not. Without that the conversion fails
(`admitted_allocation_fails`).
-/

set_option autoImplicit false

namespace MiniJam.Jam

variable {AccountId Ledger : Type} {T : Config AccountId Ledger} {s s' : State T}

/-! ### Converting an allocation -/

/-- A service record that an allocation can be paid to: it decodes, and its minimum memo gas
is not zero. -/
def PayableRecord (T : Config AccountId Ledger) (record : Option StateValue) : Prop :=
  ∃ bytes info rest, record = some bytes ∧
    T.codec.decodeServiceInfo bytes.toList = some (info, rest) ∧ info.minMemoGas ≠ 0

instance (record : Option StateValue) : Decidable (PayableRecord T record) :=
  decidable_of_iff (record.any (fun bytes => (T.codec.decodeServiceInfo bytes.toList).any
      fun decoded => decide (decoded.1.minMemoGas ≠ 0)) = true) (by
    unfold PayableRecord
    cases record with
    | none => simp
    | some bytes =>
      cases hdecode : T.codec.decodeServiceInfo bytes.toList with
      | none => simp [hdecode]
      | some decoded =>
        obtain ⟨info, rest⟩ := decoded
        simp [hdecode])

/-- The record of a service can be paid to. -/
def Payable (s : State T) (service : UInt32) : Prop :=
  PayableRecord T (s.protocolState.lookup (serviceInfoStateKey service))

instance (s : State T) (service : UInt32) : Decidable (Payable s service) :=
  inferInstanceAs (Decidable (PayableRecord T _))

theorem FitsJam.lt {amount : Balance} (h : FitsJam amount) : amount < 2 ^ 64 := by
  rw [← show (jamAmount amount).toNat = amount from h]
  exact (jamAmount amount).toNat_lt

/-- The operation an allocation converts to. -/
def AllocationV1.systemOp (T : Config AccountId Ledger) (a : AllocationV1) : SystemOpV2 :=
  SystemOpV2.new T.workers.crypto allocationSystemSender a.allocationId
    (.applyAllocation a.allocationId a.targetService (jamAmount a.amount))

variable {a : AllocationV1}

/-- An allocation converts exactly when its amount fits and its target is payable. -/
theorem allocationSystemOp_ok {op : SystemOpV2} :
    allocationSystemOp s a = .ok op ↔
      FitsJam a.amount ∧ Payable s a.targetService ∧ op = a.systemOp T := by
  unfold allocationSystemOp Payable PayableRecord FitsJam
  dsimp only
  split_ifs with hfits
  · simp [hfits]
  · rw [not_not] at hfits
    -- The code stops without a record, without a service in it and without its gas.
    cases hrecord : s.protocolState.lookup (serviceInfoStateKey a.targetService) with
    | none => simp
    | some bytes =>
      dsimp only
      cases hdecode : T.codec.decodeServiceInfo bytes.toList with
      | none =>
        refine ⟨nofun, ?_⟩
        rintro ⟨-, ⟨_, _, _, hsome, hdecode', -⟩, -⟩
        cases hsome
        rw [hdecode] at hdecode'
        cases hdecode'
      | some decoded =>
        obtain ⟨info, rest⟩ := decoded
        dsimp only
        split_ifs with hzero
        · refine ⟨nofun, ?_⟩
          rintro ⟨-, ⟨_, _, _, hsome, hdecode', hgas⟩, -⟩
          cases hsome
          rw [hdecode] at hdecode'
          cases hdecode'
          exact absurd hzero hgas
        · constructor
          · intro h
            cases h
            exact ⟨hfits, ⟨bytes, info, rest, rfl, hdecode, hzero⟩, rfl⟩
          · rintro ⟨-, -, rfl⟩
            rfl

/-- The encoded form of an allocation that fits converts like the allocation. -/
theorem allocationInputOp_encode (h : FitsJam a.amount) :
    allocationInputOp s a.encode = allocationSystemOp s a := by
  have hfits : a.amount < 2 ^ 128 := h.lt.trans (by decide)
  unfold allocationInputOp
  rw [AllocationV1.decode_encode a hfits]
  simp

/-! ### Admitted allocations convert -/

/-- The target of an allocation is payable when the allocation is admitted. -/
def PayableAtAdmission (t : Chain.TakenStep T) : Prop :=
  ∀ a, AdmitsAllocation t.label a → Payable t.pre a.targetService

/-- A block writes to the record of a pending allocation's target only payable records. -/
def KeepsTargetsPayable (t : Chain.TakenStep T) : Prop :=
  ∀ block, t.label = (.onFinalize block, none) → ∀ answer ∈ answered t.pre block,
    ∀ pending ∈ getPendingAllocations t.pre, ∀ change ∈ answer.2.2.changes,
      change.key = serviceInfoStateKey pending.allocation.targetService →
      PayableRecord T (writtenValue change)

instance (t : Chain.TakenStep T) : Decidable (PayableAtAdmission t) :=
  decidable_of_iff (¬ ∃ a, AdmitsAllocation t.label a ∧ ¬ Payable t.pre a.targetService)
    (by simp [PayableAtAdmission])

instance (t : Chain.TakenStep T) : Decidable (KeepsTargetsPayable t) :=
  decidable_of_iff (¬ ∃ block, t.label = (.onFinalize block, none) ∧
    ¬ ∀ answer ∈ answered t.pre block, ∀ pending ∈ getPendingAllocations t.pre,
      ∀ change ∈ answer.2.2.changes,
        change.key = serviceInfoStateKey pending.allocation.targetService →
        PayableRecord T (writtenValue change)) (by simp [KeepsTargetsPayable])

variable {l : Chain.Label T}

/-- A step that keeps the targets payable keeps each of them payable. -/
theorem payable_step (h : IngressStep ⟨s, l, s'⟩) (hkeeps : KeepsTargetsPayable ⟨s, l, s'⟩)
    {id : UInt64} {pending : PendingAllocation AccountId}
    (hp : s.pendingAllocations.lookup id = some pending)
    (hpayable : Payable s pending.allocation.targetService) :
    Payable s' pending.allocation.targetService := by
  unfold Payable
  rcases h.protocolState with hstate | ⟨block, input, output, delta, hl, ha, hcommit⟩
  · rw [show s'.protocolState = s.protocolState from hstate]
    exact hpayable
  · obtain ⟨s₁, happly, hstate⟩ := hcommit.protocolState
    rw [show s'.protocolState = s₁.protocolState from hstate]
    rcases applyChanges_lookup happly (serviceInfoStateKey pending.allocation.targetService) with
      hsame | ⟨change, hmem, hkey, hwritten⟩
    · rw [hsame]
      exact hpayable
    · rw [hwritten]
      exact hkeeps block hl _ ha.answered_eq pending (mem_getPendingAllocations.mpr ⟨id, hp⟩)
        change hmem hkey

section
variable [DecidableEq AccountId]

/-- In every run in which the target of each allocation is payable when the allocation is
admitted, and no block replaces the record of a pending allocation's target by one that is
not, every admitted allocation converts in every state in which it is pending, from its
record and from its encoded form. -/
theorem admitted_allocation_converts (h : Chain.History T)
    (s : State T) (hr : Trace (fun _ => True) (Chain.Step T) h s)
    (hadmission : ∀ t ∈ h, PayableAtAdmission t) (hkeeps : ∀ t ∈ h, KeepsTargetsPayable t) :
    ∀ t ∈ h, ∀ a, AdmitsAllocation t.label a →
      (s.pendingAllocations.lookup a.allocationId).map PendingAllocation.allocation = some a →
      ∃ op, allocationSystemOp s a = .ok op ∧ allocationInputOp s a.encode = .ok op := by
  suffices hinv : ∀ t ∈ h, ∀ a, AdmitsAllocation t.label a → FitsJam a.amount ∧
      ((s.pendingAllocations.lookup a.allocationId).map PendingAllocation.allocation = some a →
        Payable s a.targetService) by
    intro t ht a hadmits hpending
    obtain ⟨hfits, hpayable⟩ := hinv t ht a hadmits
    have hop := allocationSystemOp_ok.mpr ⟨hfits, hpayable hpending, rfl⟩
    exact ⟨_, hop, (allocationInputOp_encode hfits).trans hop⟩
  revert hadmission hkeeps
  refine Trace.invariant (I := fun h s => (∀ t ∈ h, PayableAtAdmission t) →
    (∀ t ∈ h, KeepsTargetsPayable t) → ∀ t ∈ h, ∀ a, AdmitsAllocation t.label a →
      FitsJam a.amount ∧
      ((s.pendingAllocations.lookup a.allocationId).map PendingAllocation.allocation = some a →
        Payable s a.targetService)) ?_ ?_ hr
  · intro s _ _ _ t ht
    cases ht
  · intro h s l s' ih hstep hadmission hkeeps t ht a hadmits
    have hold := ih (fun t ht => hadmission t (List.mem_cons_of_mem _ ht))
      fun t ht => hkeeps t (List.mem_cons_of_mem _ ht)
    have hnew : ∀ who a, l = (.extrinsic (.signed who) (.submitAllocation a), none) →
        Admitted s who a s' → Payable s' a.targetService := by
      intro who a hl hadmitted
      unfold Payable
      rw [hadmitted.protocolState]
      exact hadmission _ List.mem_cons_self a ⟨_, hl⟩
    rcases List.mem_cons.mp ht with rfl | ht
    · obtain ⟨origin, rfl⟩ : ∃ origin, l = (.extrinsic origin (.submitAllocation a), none) :=
        hadmits
      obtain ⟨who, rfl, hadmitted⟩ := submitAllocation_admitted (Tx.transaction_ok.mp hstep)
      exact ⟨hadmitted.fits, fun _ => hnew who a rfl hadmitted⟩
    · obtain ⟨hfits, hpayable⟩ := hold t ht a hadmits
      refine ⟨hfits, fun hpending => ?_⟩
      obtain ⟨pending, hlookup, rfl⟩ := Option.map_eq_some_iff.mp hpending
      have hq := ingressStep_of_step hstep
      -- The allocation was pending before the step, or the step admitted it again.
      rcases hq.pendingAllocation hlookup with hp | ⟨hl, hadmitted, -⟩
      · exact payable_step hq (hkeeps _ List.mem_cons_self) hp (hpayable (by rw [hp]; rfl))
      · exact hnew _ _ hl hadmitted

end

/-! ### Runs with one allocation -/

open Reference

/-- A payable allocation that is still pending after a block committed without it. -/
theorem admitted_allocation_converts_paused : ∃ h s t,
    Chain.Run (runtime consumeAll) h s ∧
    (∀ t ∈ h, PayableAtAdmission t) ∧ (∀ t ∈ h, KeepsTargetsPayable t) ∧
    t ∈ h ∧ AdmitsAllocation t.label ⟨5, 1, 7⟩ ∧
    (s.pendingAllocations.lookup 5).map PendingAllocation.allocation = some ⟨5, 1, 7⟩ ∧
    ∃ op, allocationSystemOp s ⟨5, 1, 7⟩ = .ok op := by
  obtain ⟨h, s, hrun, hadmission, hkeeps, ⟨t, ht, hadmits⟩, hpending⟩ :=
    exists_history (runtime consumeAll)
    [.extrinsic (.signed bob) (.submitAllocation ⟨5, 1, 7⟩),
      .extrinsic .root (.pauseExecution true), .onFinalize 1]
    (fun h s => (∀ t ∈ h, PayableAtAdmission t) ∧ (∀ t ∈ h, KeepsTargetsPayable t) ∧
      (∃ t ∈ h, AdmitsAllocation t.label ⟨5, 1, 7⟩) ∧
      (s.pendingAllocations.lookup 5).map PendingAllocation.allocation = some ⟨5, 1, 7⟩)
    (by decide +kernel)
  have htrace : Trace (fun _ => True) (Chain.Step _) h s :=
    hrun.mono (fun _ _ => trivial) fun _ _ _ hstep => hstep
  obtain ⟨op, hop, -⟩ := admitted_allocation_converts h s htrace hadmission hkeeps t ht _
    hadmits hpending
  exact ⟨h, s, t, hrun, hadmission, hkeeps, ht, hadmits, hpending, op, hop⟩

/-- An allocation to a service whose record has no minimum memo gas is admitted. It does not
convert, and the next block panics. -/
theorem admitted_allocation_fails : ∃ h s t,
    Chain.Run (runtime consumeAll) h s ∧
    t ∈ h ∧ AdmitsAllocation t.label ⟨5, 2, 7⟩ ∧
    (s.pendingAllocations.lookup 5).map PendingAllocation.allocation = some ⟨5, 2, 7⟩ ∧
    allocationSystemOp s ⟨5, 2, 7⟩ = .error .fatal ∧ onFinalize 1 s = .panicked := by
  obtain ⟨h, s, hrun, ⟨t, ht, hadmits⟩, hpending, hop, hpanic⟩ :=
    exists_history (runtime consumeAll)
    [.extrinsic (.signed bob) (.submitAllocation ⟨5, 2, 7⟩)]
    (fun h s => (∃ t ∈ h, AdmitsAllocation t.label ⟨5, 2, 7⟩) ∧
      (s.pendingAllocations.lookup 5).map PendingAllocation.allocation = some ⟨5, 2, 7⟩ ∧
      allocationSystemOp s ⟨5, 2, 7⟩ = .error .fatal ∧ onFinalize 1 s = .panicked)
    (by decide +kernel)
  exact ⟨h, s, t, hrun, ht, hadmits, hpending, hop, hpanic⟩

end MiniJam.Jam
