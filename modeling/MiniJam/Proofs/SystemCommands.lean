import MiniJam.Proofs.AllocationOnce

/-!
# `MiniJam.Proofs.SystemCommands`: whether the batch holds valid commands only

The batch of a virtual block has two sources. A command of `submit_system_op` goes through
`validate_system_command` first. An allocation of `submit_allocation` is checked by that call
alone and becomes an `ApplyAllocation` command when the block is built.

`validate_system_command` wants an allocation id, a target and an amount above zero;
`submit_allocation` wants only the amount above zero. So an allocation with the id 0, or one to
service 0, enters the batch as a command that `submit_system_op` refuses
(`zero_allocation_in_batch`). Nothing else is missing: the commands of a batch are valid exactly
when every pending allocation has an id and a target above zero (`batch_commands_valid_iff`).
-/

set_option autoImplicit false

namespace MiniJam

/-- What `validate_system_command` asks of a command. -/
def SystemCommandV2.Valid : SystemCommandV2 → Prop
  | .createService _ codeLen minItemGas minMemoGas =>
    codeLen > 0 ∧ minItemGas > 0 ∧ minMemoGas > 0
  | .applyAllocation allocationId targetService amount =>
    allocationId > 0 ∧ targetService > 0 ∧ amount > 0

end MiniJam

namespace MiniJam.Jam

variable {AccountId Ledger : Type} {T : Config AccountId Ledger} {s s' : State T}

theorem validateSystemCommand_ok_iff {command : SystemCommandV2} :
    validateSystemCommand command s = .ok () s ↔ command.Valid := by
  cases command with
  | createService codeHash codeLen minItemGas minMemoGas =>
    unfold validateSystemCommand
    rw [Tx.ensure_bind_ok, Tx.ensure_bind_ok, Tx.ensure_ok, and_iff_left rfl]
    rfl
  | applyAllocation allocationId targetService amount =>
    unfold validateSystemCommand
    rw [Tx.ensure_bind_ok, Tx.ensure_bind_ok, Tx.ensure_ok, and_iff_left rfl]
    rfl

/-- The part of the checks that `submit_allocation` leaves out. -/
def AllocationV1.Named (a : AllocationV1) : Prop := a.allocationId ≠ 0 ∧ a.targetService ≠ 0

/-- The part of the checks that `submit_allocation` makes. -/
def AllocationV1.Funded (a : AllocationV1) : Prop := a.amount ≠ 0 ∧ FitsJam a.amount

/-- With an amount that `submit_allocation` takes, the command of an allocation is valid
exactly when the allocation has an id and a target. -/
theorem AllocationV1.Funded.valid_iff {a : AllocationV1} (h : a.Funded) :
    (a.systemOp T).command.Valid ↔ a.Named := by
  obtain ⟨hzero, hfits⟩ := h
  have hamount : jamAmount a.amount > 0 := by
    refine UInt64.lt_iff_toNat_lt.mpr ?_
    rw [show (jamAmount a.amount).toNat = a.amount from hfits]
    exact Nat.pos_of_ne_zero hzero
  show (a.allocationId > 0 ∧ a.targetService > 0 ∧ jamAmount a.amount > 0) ↔ _
  rw [and_iff_left hamount]
  exact and_congr UInt64.pos_iff_ne_zero UInt32.pos_iff_ne_zero

/-! ### The pending allocations of a run -/

/-- Every pending allocation has `P`. -/
def AllocationsSatisfy (P : AllocationV1 → Prop) (s : State T) : Prop :=
  ∀ id pending, s.pendingAllocations.lookup id = some pending → P pending.allocation

section
variable [DecidableEq AccountId]

variable {h : Chain.History T}

/-- A property of allocations that every admitted allocation has. -/
theorem allocationsSatisfy_of_run {P : AllocationV1 → Prop} (hr : Chain.Run T h s)
    (hadmits : ∀ t ∈ h, ∀ a, AdmitsAllocation t.label a → P a) : AllocationsSatisfy P s := by
  induction hr with
  | start hgenesis =>
    obtain ⟨_, hpending⟩ := genesis_initial hgenesis State.pendingAllocations fun _ _ => rfl
    intro id pending hlookup
    rw [hpending] at hlookup
    cases hlookup
  | extend _ hstep ih =>
    intro id pending hlookup
    rcases (ingressStep_of_step hstep).pendingAllocation hlookup with hold | ⟨hl, -, -⟩
    · exact ih (fun t ht => hadmits t (List.mem_cons_of_mem _ ht)) id pending hold
    · exact hadmits _ List.mem_cons_self _ ⟨_, hl⟩

variable {l : Chain.Label T}

theorem funded_of_admitted (hstep : Chain.Step T s l s') {a : AllocationV1}
    (hadmits : AdmitsAllocation l a) : a.Funded := by
  obtain ⟨origin, rfl⟩ := hadmits
  obtain ⟨_, -, -, hzero, hfits, -⟩ := submitAllocation_ok (Tx.transaction_ok.mp hstep)
  exact ⟨hzero, hfits⟩

theorem valid_of_submitted (hstep : Chain.Step T s l s') {command : SystemCommandV2}
    (hsubmits : SubmitsCommand l command) : command.Valid := by
  obtain ⟨origin, rfl⟩ := hsubmits
  have hrun : submitSystemOp origin command s = .ok () s' := Tx.transaction_ok.mp hstep
  obtain ⟨_, -, -, hrun⟩ := ensureIngressRelayer_bind_ok.mp hrun
  obtain ⟨_, s₁, hvalid, -⟩ := Tx.bind_ok.mp hrun
  rw [validateSystemCommand_ok hvalid] at hvalid
  exact validateSystemCommand_ok_iff.mp hvalid

/-- In every state of a run the queued and the quarantined operations have valid commands. -/
theorem commandsValid_of_run (hr : Chain.Run T h s) : CommandsSatisfy SystemCommandV2.Valid s := by
  induction hr with
  | start hgenesis => exact .genesis hgenesis
  | extend _ hstep ih =>
    exact ih.step (ingressStep_of_step hstep) fun _ => valid_of_submitted hstep

omit [DecidableEq AccountId] in
/-- The commands of a batch are valid exactly when the pending allocations have ids and
targets. The queued operations are valid in any case. -/
theorem batch_valid_iff (hcommands : CommandsSatisfy SystemCommandV2.Valid s)
    (hfunded : AllocationsSatisfy AllocationV1.Funded s) {batch : SystemOpBatch}
    (hbatch : pendingSystemOpsBatch s = .ok batch) :
    (∀ op ∈ batch.toList, op.command.Valid) ↔ AllocationsSatisfy AllocationV1.Named s := by
  constructor
  · intro hvalid id pending hid
    -- The batch was built, so every pending allocation was converted.
    obtain ⟨op, hmem, hop⟩ := pendingSystemOpsBatch_converts hbatch hid
    rw [allocationInputOp_encode (hfunded id pending hid).2] at hop
    obtain ⟨-, -, rfl⟩ := allocationSystemOp_ok.mp hop
    exact (hfunded id pending hid).valid_iff.mp (hvalid _ hmem)
  · intro hnamed op hop
    rcases mem_pendingSystemOpsBatch hbatch hop with
      ⟨pending, hpending, rfl⟩ | ⟨id, pending, hid, hconverted⟩
    · exact hcommands.pending pending hpending
    · rw [allocationInputOp_encode (hfunded id pending hid).2] at hconverted
      obtain ⟨-, -, rfl⟩ := allocationSystemOp_ok.mp hconverted
      exact (hfunded id pending hid).valid_iff.mpr (hnamed id pending hid)

/-- In every state of a run, the commands of the batch pass `validate_system_command` exactly
when no pending allocation has the id 0 or the target 0. An allocation that was admitted
converts to a command that passes exactly when it has neither. So all batches pass in a run
that admits only such allocations. -/
theorem batch_commands_valid_iff {h : Chain.History T}
    (hr : Chain.Run T h s) :
    (∀ batch, pendingSystemOpsBatch s = .ok batch →
      ((∀ op ∈ batch.toList, validateSystemCommand op.command s = .ok () s) ↔
        ∀ id pending, s.pendingAllocations.lookup id = some pending →
          pending.allocation.allocationId ≠ 0 ∧ pending.allocation.targetService ≠ 0)) ∧
    (∀ t ∈ h, ∀ a, AdmitsAllocation t.label a → ∀ (s' : State T) op,
      allocationSystemOp s' a = .ok op →
      op.command = .applyAllocation a.allocationId a.targetService (jamAmount a.amount) ∧
      (validateSystemCommand op.command t.pre = .ok () t.pre ↔
        a.allocationId ≠ 0 ∧ a.targetService ≠ 0)) ∧
    ((∀ t ∈ h, ∀ a, AdmitsAllocation t.label a → a.allocationId ≠ 0 ∧ a.targetService ≠ 0) →
      ∀ batch, pendingSystemOpsBatch s = .ok batch →
      ∀ op ∈ batch.toList, validateSystemCommand op.command s = .ok () s) := by
  have hfunded : AllocationsSatisfy AllocationV1.Funded s :=
    allocationsSatisfy_of_run hr fun t ht a => funded_of_admitted (hr.steps t ht)
  -- Submitted commands were checked, so the allocations decide.
  have hstate : ∀ batch, pendingSystemOpsBatch s = .ok batch →
      ((∀ op ∈ batch.toList, validateSystemCommand op.command s = .ok () s) ↔
        AllocationsSatisfy AllocationV1.Named s) := by
    intro batch hbatch
    rw [← batch_valid_iff (commandsValid_of_run hr) hfunded hbatch]
    exact forall₂_congr fun op _ => validateSystemCommand_ok_iff
  refine ⟨hstate, ?_, ?_⟩
  · intro t ht a hadmits s' op hop
    obtain ⟨-, -, rfl⟩ := allocationSystemOp_ok.mp hop
    refine ⟨rfl, ?_⟩
    rw [validateSystemCommand_ok_iff]
    exact (funded_of_admitted (hr.steps t ht) hadmits).valid_iff
  · intro hnamed batch hbatch
    exact (hstate batch hbatch).mpr (allocationsSatisfy_of_run hr hnamed)

end

/-! ### Runs with one allocation -/

open Reference

/-- A run whose allocation has an id and a target: the batch of one command is valid. -/
theorem batch_commands_valid_iff_named : ∃ h s batch,
    Chain.Run (runtime consumeAll) h s ∧
    (∃ t ∈ h, AdmitsAllocation t.label ⟨5, 1, 7⟩) ∧
    pendingSystemOpsBatch s = .ok batch ∧ batch.toList.length = 1 ∧
    ∀ op ∈ batch.toList, validateSystemCommand op.command s = .ok () s := by
  obtain ⟨h, s, hrun, hadmits, ⟨batch, hbatch, hlength⟩, hpending⟩ :=
    exists_history (runtime consumeAll)
    [.extrinsic (.signed bob) (.submitAllocation ⟨5, 1, 7⟩)]
    (fun h s => (∃ t ∈ h, AdmitsAllocation t.label ⟨5, 1, 7⟩) ∧
      (∃ batch, pendingSystemOpsBatch s = .ok batch ∧ batch.toList.length = 1) ∧
      ∀ pending ∈ getPendingAllocations s, pending.allocation = ⟨5, 1, 7⟩) (by decide +kernel)
  refine ⟨h, s, batch, hrun, hadmits, hbatch, hlength, ?_⟩
  refine ((batch_commands_valid_iff hrun).1 batch hbatch).mpr fun id pending hid => ?_
  rw [hpending pending (mem_getPendingAllocations.mpr ⟨id, hid⟩)]
  decide

/-- An allocation with the id 0 is admitted. The batch is built, and the command in it is one
that `submit_system_op` would have refused. -/
theorem zero_allocation_in_batch : ∃ h s batch op,
    Chain.Run (runtime consumeAll) h s ∧
    (∃ t ∈ h, AdmitsAllocation t.label ⟨0, 1, 7⟩) ∧
    pendingSystemOpsBatch s = .ok batch ∧ op ∈ batch.toList ∧
    op.command = .applyAllocation 0 1 7 ∧
    (validateSystemCommand op.command s).error = some (.jam .invalidSystemOp) := by
  obtain ⟨h, s, hrun, hadmits, batch, hbatch, op, hop, hrefused⟩ :=
    exists_history (runtime consumeAll)
    [.extrinsic (.signed bob) (.submitAllocation ⟨0, 1, 7⟩)]
    (fun h s => (∃ t ∈ h, AdmitsAllocation t.label ⟨0, 1, 7⟩) ∧
      ∃ batch, pendingSystemOpsBatch s = .ok batch ∧ ∃ op ∈ batch.toList,
        op.command = .applyAllocation 0 1 7 ∧
        (validateSystemCommand op.command s).error = some (.jam .invalidSystemOp))
    (by decide +kernel)
  exact ⟨h, s, batch, op, hrun, hadmits, hbatch, hop, hrefused⟩

end MiniJam.Jam
