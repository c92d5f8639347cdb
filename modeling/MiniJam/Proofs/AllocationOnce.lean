import MiniJam.Proofs.AllocationLedger

/-!
# `MiniJam.Proofs.AllocationOnce`: allocations are authorised and applied once

Two calls lead into the batch of system operations. `submit_allocation` is guarded by the
allocation relayer and the registry of processed allocations. `submit_system_op` is guarded by
neither, and it takes an `ApplyAllocation` command as any other. So the ingress relayer can have
any amount applied, twice (`ingress_applies_allocation`).

In a run in which every submitted system operation creates a service, the batch holds the admitted
allocations only, and no two committed blocks apply the same one (`allocations_authorised_once`).
The executor is assumed to report a receipt for every allocation of a batch it succeeds on
(`ReportsReceipts`).
-/

set_option autoImplicit false

namespace MiniJam.Jam

variable {AccountId Ledger : Type} {T : Config AccountId Ledger} {s s' : State T}
  {block : BlockNumber}

/-! ### What the batch is made of -/

variable {batch : SystemOpBatch} {op : SystemOpV2} {due : List ExecutionItem}
  {input : MiniJamExecutionInput} {P : SystemCommandV2 → Prop} {l : Chain.Label T}

/-- An operation of the batch is a pending one or the conversion of a pending allocation. -/
theorem mem_pendingSystemOpsBatch (h : pendingSystemOpsBatch s = .ok batch)
    (hop : op ∈ batch.toList) :
    (∃ pending ∈ s.pendingSystemOps.toList, pending.op = op) ∨
      ∃ id pending, s.pendingAllocations.lookup id = some pending ∧
        allocationInputOp s pending.allocation.encode = .ok op := by
  unfold pendingSystemOpsBatch at h
  obtain ⟨ops, hops, hbatch⟩ := Except.bind_ok_iff.mp h
  rw [tryIntoBatch_ok.mp hbatch, List.mem_append] at hop
  rcases hop with hop | hop
  · obtain ⟨pending, hpending, rfl⟩ := List.mem_map.mp hop
    exact Or.inl ⟨pending, (sortByKey_perm _ _).mem_iff.mp hpending, rfl⟩
  · obtain ⟨encoded, hencoded, hconverted⟩ :=
      (Except.mapM_ok_iff.mp hops).exists_of_mem_right hop
    obtain ⟨pending, hpending, rfl⟩ := List.mem_map.mp hencoded
    obtain ⟨id, hid⟩ := mem_getPendingAllocations.mp hpending
    exact Or.inr ⟨id, pending, hid, hconverted⟩

variable {id : UInt64}

variable {pending : PendingAllocation AccountId} {h : Chain.History T}

/-- When the batch is built, every pending allocation is converted into one of its
operations. -/
theorem pendingSystemOpsBatch_converts (h : pendingSystemOpsBatch s = .ok batch)
    (hid : s.pendingAllocations.lookup id = some pending) :
    ∃ op ∈ batch.toList, allocationInputOp s pending.allocation.encode = .ok op := by
  unfold pendingSystemOpsBatch at h
  obtain ⟨ops, hops, hbatch⟩ := Except.bind_ok_iff.mp h
  have hencoded : pending.allocation.encode ∈ pendingAllocationInputs s :=
    List.mem_map.mpr ⟨pending, mem_getPendingAllocations.mpr ⟨id, hid⟩, rfl⟩
  obtain ⟨op, hop, hconverted⟩ := (Except.mapM_ok_iff.mp hops).exists_of_mem_left hencoded
  refine ⟨op, ?_, hconverted⟩
  rw [tryIntoBatch_ok.mp hbatch]
  exact List.mem_append_right _ hop

/-- An operation of the input is a pending one or the conversion of a pending allocation. -/
theorem BuiltInput.mem_systemOps (h : BuiltInput s block due input)
    (hop : op ∈ input.systemOps.toList) :
    (∃ pending ∈ s.pendingSystemOps.toList, pending.op = op) ∨
      ∃ id pending, s.pendingAllocations.lookup id = some pending ∧
        allocationInputOp s pending.allocation.encode = .ok op := by
  have hbatch := h.systemOps
  unfold blockSystemOps at hbatch
  split_ifs at hbatch
  · injection hbatch with hbatch
    rw [← hbatch] at hop
    cases hop
  · exact mem_pendingSystemOpsBatch hbatch hop

/-! ### The commands in the queues -/

/-- Every queued and every quarantined system operation has a command with `P`. -/
structure CommandsSatisfy (P : SystemCommandV2 → Prop) (s : State T) : Prop where
  pending : ∀ pending ∈ s.pendingSystemOps.toList, P pending.op.command
  quarantined : ∀ quarantined ∈ s.quarantinedSystemOps.toList, P quarantined.op.command

/-- The command of a system operation that was submitted. -/
def SubmitsCommand (l : Chain.Label T) (command : SystemCommandV2) : Prop :=
  ∃ origin, l = (.extrinsic origin (.submitSystemOp command), none)

/-- A property of commands that every submitted command has is kept by every step. -/
theorem CommandsSatisfy.step (hs : CommandsSatisfy P s) (h : IngressStep ⟨s, l, s'⟩)
    (hsubmits : ∀ command, SubmitsCommand l command → P command) : CommandsSatisfy P s' := by
  have hstored : ∀ op, op ∈ s'.pendingOps ∨ op ∈ s'.quarantinedOps → P op.command := by
    intro op hop
    obtain ⟨_, hmoves, -⟩ := h.systemOps
    rcases hmoves.mem_items (Multiset.mem_add.mpr hop) with hold | hqueued
    · rcases Multiset.mem_add.mp hold with hold | hold
      · obtain ⟨pending, hpending, rfl⟩ := List.mem_map.mp hold
        exact hs.pending pending hpending
      · obtain ⟨quarantined, hquarantined, rfl⟩ := List.mem_map.mp hold
        exact hs.quarantined quarantined hquarantined
    · rcases h.nonces with ⟨-, hnil⟩ | ⟨who, command, hl, hops, -⟩
      · rw [hnil] at hqueued
        cases hqueued
      · rw [hops, List.mem_singleton] at hqueued
        rw [hqueued]
        exact hsubmits command ⟨_, hl⟩
  exact ⟨fun pending hp => hstored _ (Or.inl (List.mem_map_of_mem hp)),
    fun quarantined hq => hstored _ (Or.inr (List.mem_map_of_mem hq))⟩

/-- At genesis nothing is queued. -/
theorem CommandsSatisfy.genesis [DecidableEq AccountId] (hgenesis : Chain.Genesis T s) :
    CommandsSatisfy P s := by
  obtain ⟨_, hops⟩ := genesis_initial hgenesis State.opStore fun _ _ => rfl
  have hpending : s.pendingSystemOps.toList = [] := congrArg KeyedQueue.Store.queue hops
  have hquarantined : s.quarantinedSystemOps.toList = [] :=
    congrArg KeyedQueue.Store.quarantine hops
  constructor
  · simp [hpending]
  · simp [hquarantined]

/-! ### The registry of allocations over a run -/

/-- The command creates a service. -/
def CreatesService (command : SystemCommandV2) : Prop :=
  ∃ codeHash codeLen minItemGas minMemoGas,
    command = .createService codeHash codeLen minItemGas minMemoGas

/-- The executor reports, for every allocation of a batch it succeeds on, a change at the
receipt key of the allocation whose value begins with the byte 0. -/
def ReportsReceipts (T : Config AccountId Ledger) : Prop :=
  ∀ input state output, T.executor.execute input state = .ok output →
    ∀ op ∈ input.systemOps.toList, ∀ id service amount,
      op.command = .applyAllocation id service amount →
      ∃ change ∈ output.orderedChanges.toList, ∃ value : StateValue,
        change.key = allocationReceiptStateKey T id ∧ change.value = some value ∧
        value.toList.head? = some 0

/-- The transition committed a block whose input applies the allocation. -/
def Applies (t : Chain.TakenStep T) (id : UInt64) : Prop :=
  ∃ block, t.label = (.onFinalize block, none) ∧ ∃ answer ∈ answered t.pre block,
    ∃ op ∈ answer.1.systemOps.toList, ∃ service amount,
      op.command = .applyAllocation id service amount

instance (command : SystemCommandV2) (id : UInt64) :
    Decidable (∃ service amount, command = .applyAllocation id service amount) := by
  cases command with
  | createService => exact isFalse (by simp)
  | applyAllocation id' => exact decidable_of_iff (id' = id) (by simp)

instance (t : Chain.TakenStep T) (id : UInt64) : Decidable (Applies t id) :=
  inferInstanceAs (Decidable (∃ _, _ ∧ _))

/-- The pending allocation was admitted in the history, from the relayer of that moment. -/
def AdmittedIn (h : Chain.History T)
    (pending : PendingAllocation AccountId) : Prop :=
  ∃ t ∈ h, t.label =
      (.extrinsic (.signed pending.submitter) (.submitAllocation pending.allocation), none) ∧
    t.pre.allocationRelayerOf = some pending.submitter

/-- What is pending was admitted in the run. -/
theorem admittedIn_of_pending [DecidableEq AccountId] (hr : Chain.Run T h s)
    (hid : s.pendingAllocations.lookup id = some pending) : AdmittedIn h pending := by
  have hadmitted := (ledgerSound_of_run hr).registry.pending id pending hid
  obtain ⟨⟨pre, l, post⟩, ht, hby⟩ := List.exists_of_findSome?_eq_some hadmitted
  obtain ⟨hlabel, -⟩ := admittedBy_eq_some hby
  obtain rfl : l = _ := hlabel
  obtain ⟨who, horigin, hrelayer⟩ :=
    submitAllocation_admitted (Tx.transaction_ok.mp (hr.steps _ ht))
  cases horigin
  exact ⟨_, ht, rfl, hrelayer.relayer⟩

/-- With operations that create services, an allocation in an input is a pending one. -/
theorem applied_pending (hcommands : CommandsSatisfy CreatesService s) (hsound : LedgerSound h s)
    (hinput : BuiltInput s block due input) (hop : op ∈ input.systemOps.toList) {service : UInt32}
    {amount : UInt64} (hcommand : op.command = .applyAllocation id service amount) :
    ∃ pending, s.pendingAllocations.lookup id = some pending ∧
      pending.allocation = ⟨id, service, amount.toNat⟩ := by
  rcases hinput.mem_systemOps hop with ⟨pending, hpending, rfl⟩ | ⟨id', pending, hid, hconverted⟩
  · obtain ⟨_, _, _, _, hcreates⟩ := hcommands.pending pending hpending
    rw [hcreates] at hcommand
    cases hcommand
  · have hfits := hsound.fits id' pending hid
    rw [allocationInputOp_encode hfits] at hconverted
    obtain ⟨-, -, rfl⟩ := allocationSystemOp_ok.mp hconverted
    -- The conversion writes the allocation's own fields into the command.
    have hcommand : SystemCommandV2.applyAllocation pending.allocation.allocationId
        pending.allocation.targetService (jamAmount pending.allocation.amount) =
        .applyAllocation id service amount := hcommand
    injection hcommand with h₁ h₂ h₃
    have hamount : amount.toNat = pending.allocation.amount := h₃ ▸ hfits
    obtain ⟨_, _, _, rfl⟩ := admittedAllocation_mem (hsound.registry.pending id' pending hid)
    exact ⟨pending, h₁ ▸ hid, by rw [← h₁, ← h₂, hamount]⟩

section
variable [DecidableEq AccountId]

variable {h : Chain.History T}

/-- An allocation that a step applies was pending before and is processed after it. -/
theorem applies_step (hexec : ReportsReceipts T) (hcommands : CommandsSatisfy CreatesService s)
    (hsound : LedgerSound h s) (hstep : Chain.Step T s l s') (happlies : Applies ⟨s, l, s'⟩ id) :
    (∃ pending, s.pendingAllocations.lookup id = some pending) ∧
      s'.processedAllocations.contains id = true := by
  obtain ⟨block, hl, ⟨input, output, delta⟩, hanswered, op, hop, service, amount, hcommand⟩ :=
    happlies
  have ha := answered_eq_some hanswered
  obtain rfl : l = _ := hl
  obtain ⟨pending, hpending, hallocation⟩ :=
    applied_pending hcommands hsound (executionInput_ok ha.input_eq) hop hcommand
  refine ⟨⟨pending, hpending⟩, ?_⟩
  obtain ⟨summary, s₁, queue, hc, -, rfl⟩ := onFinalize_of_answered ha hstep
  -- The receipt is the only change at its key, so the commit finds it.
  obtain ⟨hchanges, hsorted⟩ := validateExecutionOutput_ok ha.validate_eq
  obtain ⟨change, hmem, value, hkey, hvalue, hhead⟩ :=
    hexec input _ output ha.execute_eq op hop id service amount hcommand
  have hfound := find_change hsorted (hchanges ▸ hmem)
  rw [hkey] at hfound
  have hid : pending.allocation.allocationId = id := by rw [hallocation]
  have := (commitOutput_ingress hc).processes id pending hpending
    (by rw [hid]; exact ⟨change, hfound, value, hvalue, hhead⟩)
  rwa [hid] at this

/-- What was applied in a run is processed, and was applied once. -/
structure AppliedOnce (h : Chain.History T) (s : State T) : Prop where
  commands : CommandsSatisfy CreatesService s
  applied : ∀ t ∈ h, ∀ id, Applies t id → s.processedAllocations.contains id = true
  once : ∀ id, h.Pairwise fun t t' => ¬ (Applies t id ∧ Applies t' id)

theorem AppliedOnce.step (hexec : ReportsReceipts T) (ha : AppliedOnce h s)
    (hsound : LedgerSound h s) (hstep : Chain.Step T s l s')
    (hsubmits : ∀ command, SubmitsCommand l command → CreatesService command) :
    AppliedOnce (⟨s, l, s'⟩ :: h) s' where
  commands := ha.commands.step (ingressStep_of_step hstep) hsubmits
  applied := by
    intro t ht id happlies
    rcases List.mem_cons.mp ht with rfl | ht
    · exact (applies_step hexec ha.commands hsound hstep happlies).2
    · exact ((ingressStep_of_step hstep).processed (ha.applied t ht id happlies)).1
  once := by
    intro id
    refine List.pairwise_cons.mpr ⟨?_, ha.once id⟩
    rintro t ht ⟨hnow, hbefore⟩
    obtain ⟨⟨pending, hpending⟩, -⟩ := applies_step hexec ha.commands hsound hstep hnow
    have hnone := hsound.registry.disjoint id (ha.applied t ht id hbefore)
    cases hnone.symm.trans hpending

theorem appliedOnce_of_run (hexec : ReportsReceipts T) (hr : Chain.Run T h s)
    (hsubmits : ∀ t ∈ h, ∀ command, SubmitsCommand t.label command → CreatesService command) :
    AppliedOnce h s := by
  induction hr with
  | start hgenesis =>
    exact ⟨.genesis hgenesis, fun t ht => absurd ht List.not_mem_nil, fun _ => List.Pairwise.nil⟩
  | extend hr hstep ih =>
    exact (ih fun t ht => hsubmits t (List.mem_cons_of_mem _ ht)).step hexec
      (ledgerSound_of_run hr) hstep (hsubmits _ List.mem_cons_self)

/-- In every run in which each submitted system operation creates a service: every
allocation in an input handed to the executor is the pending one of its id, admitted by
`submit_allocation` from the allocation relayer of that moment, and no two committed blocks
apply the same allocation. -/
theorem allocations_authorised_once (hexec : ReportsReceipts T)
    (h : Chain.History T) (s : State T) (hr : Chain.Run T h s)
    (hsubmits : ∀ t ∈ h, ∀ command, SubmitsCommand t.label command → CreatesService command) :
    (∀ block input op id service amount,
      executionInput s block (dueItems s block) = .ok input → op ∈ input.systemOps.toList →
      op.command = .applyAllocation id service amount →
      ∃ pending, s.pendingAllocations.lookup id = some pending ∧
        pending.allocation = ⟨id, service, amount.toNat⟩ ∧ AdmittedIn h pending) ∧
    ∀ id, h.Pairwise fun t t' => ¬ (Applies t id ∧ Applies t' id) := by
  have happlied := appliedOnce_of_run hexec hr hsubmits
  refine ⟨?_, happlied.once⟩
  intro block input op id service amount hinput hop hcommand
  obtain ⟨pending, hpending, hallocation⟩ := applied_pending happlied.commands
    (ledgerSound_of_run hr) (executionInput_ok hinput) hop hcommand
  exact ⟨pending, hpending, hallocation, admittedIn_of_pending hr hpending⟩

end

/-! ### Runs with one allocation id -/

open Reference

/-- The reference executor reports the receipts. -/
theorem reportsReceipts_consumeAll :
    ReportsReceipts (runtime consumeAll) := by
  intro input state output hexecute op hop id service amount hcommand
  cases hexecute
  have hlength : (input.systemOps.toList.filterMap (operationChange state)).length ≤
      4096 := by
    have := input.systemOps.length_le
    have := List.length_filterMap_le (operationChange state) input.systemOps.toList
    omega
  have hchanges : (outputFor (fun _ => true) input state).orderedChanges.toList =
      input.systemOps.toList.filterMap (operationChange state) :=
    BoundedVec.toList_takeFrom hlength
  obtain ⟨change, hchange, hkey, hvalue⟩ : ∃ change,
      operationChange state op = some change ∧
      change.key = allocationReceiptStateKey (runtime consumeAll) id ∧
      change.value = some appliedReceipt := by
    unfold operationChange
    rw [hcommand]
    exact ⟨_, rfl, rfl, rfl⟩
  rw [hchanges]
  exact ⟨change, List.mem_filterMap.mpr ⟨op, hop, hchange⟩, appliedReceipt, hkey,
    hvalue, rfl⟩

instance (l : Chain.Label T) :
    Decidable (∀ command, SubmitsCommand l command → CreatesService command) :=
  decidable_of_bool (match l with
    | (.extrinsic _ (.submitSystemOp command), none) => (command matches .createService ..)
    | _ => true) <| by
      constructor
      · rintro h command ⟨origin, rfl⟩
        cases command with
        | createService => exact ⟨_, _, _, _, rfl⟩
        | applyAllocation => cases h
      · intro h
        split
        · obtain ⟨_, _, _, _, rfl⟩ := h _ ⟨_, rfl⟩
          rfl
        · rfl

/-- An allocation that is admitted and applied, next to an operation that creates a
service. -/
theorem allocations_authorised_once_applied : ∃ h s,
    Chain.Run (runtime consumeAll) h s ∧
    (∀ t ∈ h, ∀ command, SubmitsCommand t.label command → CreatesService command) ∧
    (∃ t ∈ h, Applies t 5) ∧
    ∀ id, h.Pairwise fun t t' => ¬ (Applies t id ∧ Applies t' id) := by
  obtain ⟨h, s, hrun, hsubmits, happlies⟩ :=
    exists_history (runtime consumeAll)
    [.extrinsic (.signed bob) (.submitAllocation ⟨5, 1, 7⟩),
      .extrinsic (.signed alice)
        (.submitSystemOp (.createService (FixedBytes.fill 32 0) 1 1 1)),
      .onFinalize 1, .onFinalize 2]
    (fun h _ => (∀ t ∈ h, ∀ command, SubmitsCommand t.label command → CreatesService command) ∧
      ∃ t ∈ h, Applies t 5) (by decide +kernel)
  exact ⟨h, s, hrun, hsubmits, happlies,
    (allocations_authorised_once reportsReceipts_consumeAll h s hrun hsubmits).2⟩

/-- The ingress relayer, who is not the allocation relayer, submits the same allocation as a
system operation before each of two blocks. Both blocks apply it, and it is never pending. -/
theorem ingress_applies_allocation : ∃ h s,
    ReportsReceipts (runtime consumeAll) ∧
    Chain.Run (runtime consumeAll) h s ∧
    (∀ t ∈ h, t.pre.allocationRelayerOf ≠ some alice ∧
      t.pre.pendingAllocations.lookup 5 = none) ∧
    (∃ t ∈ h, Applies t 5) ∧ ¬ h.Pairwise fun t t' => ¬ (Applies t 5 ∧ Applies t' 5) := by
  obtain ⟨h, s, hrun, hnever, happlies, htwice⟩ :=
    exists_history (runtime consumeAll)
    [.extrinsic (.signed alice) (.submitSystemOp (.applyAllocation 5 1 7)),
      .onFinalize 1,
      .extrinsic (.signed alice) (.submitSystemOp (.applyAllocation 5 1 7)),
      .onFinalize 2]
    (fun h _ => (∀ t ∈ h, t.pre.allocationRelayerOf ≠ some alice ∧
        t.pre.pendingAllocations.lookup 5 = none) ∧
      (∃ t ∈ h, Applies t 5) ∧ ¬ h.Pairwise fun t t' => ¬ (Applies t 5 ∧ Applies t' 5))
    (by decide +kernel)
  exact ⟨h, s, reportsReceipts_consumeAll, hrun, hnever, happlies, htwice⟩

end MiniJam.Jam
