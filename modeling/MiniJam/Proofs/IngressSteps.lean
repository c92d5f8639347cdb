import MiniJam.Proofs.Admission

/-!
# `MiniJam.Proofs.IngressSteps`: what a step does to the queues, exactly

`HookIngress` gives the exact effect of the end-of-block hook on the queues of the virtual block.
A committed block has the effect `CommitIngress`. A refused block leaves everything, or it moves
one queue, which was in the input, into its quarantine.

`IngressStep` says what any step of the chain does. The system operations and the preimages move
as `KeyedQueue.Moves` allows, the nonces move with a submission, the registry of the allocations
processes entries or admits one, and the protocol state is written by a committed block. Every
invariant about the queues is proved from these fields.
-/

set_option autoImplicit false

namespace MiniJam.Jam

open KeyedQueue

variable {AccountId Ledger : Type} {T : Config AccountId Ledger} {s s' : State T}
  {block : BlockNumber}

/-! ### An input that cannot be built -/

theorem tryIntoBatch_fails {α : Type} {n : Nat} (l : List α) :
    Except.Fails (· = .fatal) (tryIntoBatch l : Except ExecutionFailure (BoundedVec α n)) := by
  unfold tryIntoBatch
  split
  · exact .ok _
  · exact .error rfl

theorem dueReport_fails (s : State T) (item : ExecutionItem) :
    Except.Fails (· = .fatal) (dueReport s item) := by
  unfold dueReport
  split
  · exact .error rfl
  · split
    · exact .error rfl
    · split_ifs
      · exact .error rfl
      · exact .ok _

theorem allocationInputOp_fails (s : State T) (encoded : Bytes) :
    Except.Fails (· = .fatal) (allocationInputOp s encoded) := by
  unfold allocationInputOp
  split
  · exact .error rfl
  · split_ifs
    · exact .error rfl
    · unfold allocationSystemOp
      dsimp only
      split_ifs
      · exact .error rfl
      · split
        · exact .error rfl
        · split
          · exact .error rfl
          · split_ifs
            · exact .error rfl
            · exact .ok _

/-- Building the input fails fatally or not at all. -/
theorem executionInput_fails (s : State T) (block : BlockNumber) (due : List ExecutionItem) :
    Except.Fails (· = .fatal) (executionInput s block due) := by
  have hpreimages : Except.Fails (· = .fatal) (blockPreimages s) := by
    unfold blockPreimages pendingPreimageBatch
    split_ifs
    · exact .ok _
    · exact tryIntoBatch_fails _
  have hops : Except.Fails (· = .fatal) (blockSystemOps s) := by
    unfold blockSystemOps pendingSystemOpsBatch
    split_ifs
    · exact .ok _
    · exact (Except.Fails.mapM (allocationInputOp_fails s) _).bind fun _ => tryIntoBatch_fails _
  exact (Except.Fails.mapM (dueReport_fails s) due).bind fun _ =>
    (tryIntoBatch_fails _).bind fun _ => hpreimages.bind fun _ => hops.bind fun _ => .ok _

/-! ### The cases of the hook -/

/-- The effect of the hook on the queues. -/
inductive HookIngress (s : State T) (block : BlockNumber) : State T → Prop where
  | committed {input : MiniJamExecutionInput} {output : MiniJamExecutionOutput}
      {delta : ValidatedDelta} {s' : State T} (ha : Answered s block input output delta)
      (hcommit : CommitIngress s output delta s') : HookIngress s block s'
  | yielded {s' : State T} (hnot : ∀ input output delta, ¬ Answered s block input output delta)
      (hkept : eventItems.Within s s') : HookIngress s block s'
  | opsQuarantined {outcome : ExecutionOutcome} {input : MiniJamExecutionInput} {s' : State T}
      (hnot : ∀ input output delta, ¬ Answered s block input output delta)
      (hinput : executionInput s block (dueItems s block) = .ok input)
      (hexecute : T.executor.execute input s.protocolReader = .error (.execution outcome))
      (hops : input.systemOps.toList ≠ [])
      (hrun : runBlockStf block s = .err (.systemOpsYielded outcome) s)
      (hquarantine : quarantinePendingSystemOps outcome s = .ok () s') : HookIngress s block s'
  | preimagesQuarantined {code : ExecutionErrorCode} {input : MiniJamExecutionInput}
      {s' : State T} (hnot : ∀ input output delta, ¬ Answered s block input output delta)
      (hinput : executionInput s block (dueItems s block) = .ok input)
      (hpreimages : input.preimages.toList ≠ [])
      (hrun : runBlockStf block s = .err (.preimagesRejected code) s)
      (hquarantine : quarantinePendingPreimages code s = .ok () s') : HookIngress s block s'

variable {input : MiniJamExecutionInput} {workIds : List WorkId} {error : MiniJamError}
  {outcome : ExecutionOutcome} {code : ExecutionErrorCode} {l : Chain.Label T}
  {origin : Origin AccountId}

/-- Only an execution failure of a batch with operations moves the operations. -/
theorem executionFailure_systemOps
    (h : executionFailure workIds input error = .systemOpsYielded outcome) :
    error = .execution outcome ∧ input.systemOps.toList ≠ [] := by
  cases error with
  | execution outcome' =>
    simp only [executionFailure] at h
    split at h
    · cases h
    · split_ifs at h with hops
      cases h
      exact ⟨rfl, hops⟩
  | state e => cases h
  | invariant e => cases h
  | input e =>
    simp only [executionFailure] at h
    split_ifs at h

/-- Only a rejected input with preimages moves the preimages. -/
theorem executionFailure_preimages
    (h : executionFailure workIds input error = .preimagesRejected code) :
    input.preimages.toList ≠ [] := by
  cases error with
  | execution outcome' =>
    simp only [executionFailure] at h
    split at h
    · cases h
    · split_ifs at h
  | state e => cases h
  | invariant e => cases h
  | input e =>
    simp only [executionFailure] at h
    split_ifs at h with hkind
    exact hkind.2.1

theorem mapValidationError_preimages {error : ValidationError} {e : ExecutionFailure}
    (h : mapValidationError input error = e) :
    e = .fatal ∨ (∃ code, e = .preimagesRejected code) ∧ input.preimages.toList ≠ [] := by
  unfold mapValidationError at h
  split_ifs at h with hkind
  · exact Or.inr ⟨⟨_, h.symm⟩, hkind.2.1⟩
  · exact Or.inl h.symm

/-- A block refused with its operations yielded had operations in its input. -/
theorem Refused.systemOps (h : Refused s block (.systemOpsYielded outcome)) : ∃ input,
    executionInput s block (dueItems s block) = .ok input ∧
    T.executor.execute input s.protocolReader = .error (.execution outcome) ∧
    input.systemOps.toList ≠ [] := by
  generalize he : ExecutionFailure.systemOpsYielded outcome = e at h
  cases h with
  | input h =>
    rw [executionInput_fails s block (dueItems s block) e h] at he
    cases he
  | @executor input error hinput hexecute =>
    obtain ⟨rfl, hops⟩ := executionFailure_systemOps he.symm
    exact ⟨input, hinput, hexecute, hops⟩
  | output hinput hexecute hvalidate =>
    rcases mapValidationError_preimages he.symm with heq | ⟨⟨code, heq⟩, -⟩
    · cases heq
    · cases heq
  | commit ha h => cases he

/-- A block refused with its preimages rejected had preimages in its input. -/
theorem Refused.preimages (h : Refused s block (.preimagesRejected code)) : ∃ input,
    executionInput s block (dueItems s block) = .ok input ∧ input.preimages.toList ≠ [] := by
  generalize he : ExecutionFailure.preimagesRejected code = e at h
  cases h with
  | input h =>
    rw [executionInput_fails s block (dueItems s block) e h] at he
    cases he
  | @executor input error hinput hexecute =>
    exact ⟨input, hinput, executionFailure_preimages he.symm⟩
  | @output input _ _ hinput hexecute hvalidate =>
    rcases mapValidationError_preimages he.symm with heq | ⟨-, hpreimages⟩
    · cases heq
    · exact ⟨input, hinput, hpreimages⟩
  | commit ha h => cases he

/-- Every run of the hook that returns has one of the four effects. -/
theorem onFinalize_ingress (h : onFinalize block s = .ok () s') : HookIngress s block s' := by
  rcases runBlockStf_cases s block with
    ⟨input, output, delta, _, _, _, ha, -, -, -⟩ | ⟨e, hr, hrun⟩
  · obtain ⟨summary, s₁, queue, hc, -, rfl⟩ := onFinalize_of_answered ha h
    -- The queue and the event that are written last are outside all of this.
    obtain ⟨h₁, h₂, h₃, h₄, h₅, h₆, h₇, h₈, h₉⟩ := commitOutput_ingress hc
    exact .committed ha ⟨h₁, h₂, h₃, h₄, h₅, h₆, h₇, h₈, h₉⟩
  · rw [onFinalize_of_run_err hrun] at h
    have hnot : e ≠ .fatal → ∀ input output delta, ¬ Answered s block input output delta :=
      fun hne _ _ _ ha => hne (ha.refused_fatal hr)
    cases e with
    | yielded workId outcome =>
      cases h
      exact .yielded (hnot nofun) rfl
    | systemOpsYielded outcome =>
      obtain ⟨input, hinput, hexecute, hops⟩ := hr.systemOps
      exact .opsQuarantined (hnot nofun) hinput hexecute hops hrun h
    | preimagesRejected code =>
      obtain ⟨input, hinput, hpreimages⟩ := hr.preimages
      exact .preimagesQuarantined (hnot nofun) hinput hpreimages hrun h
    | fatal => cases h

/-! ### What a step brings in and lets out -/

def State.pendingOps (s : State T) : List SystemOpV2 :=
  s.pendingSystemOps.toList.map PendingSystemOp.op

def State.quarantinedOps (s : State T) : List SystemOpV2 :=
  s.quarantinedSystemOps.toList.map QuarantinedSystemOp.op

section
variable [DecidableEq AccountId]

/-- The operation that a successful submission queues and announces. -/
def queuedOps (t : Chain.TakenStep T) : List SystemOpV2 :=
  match t.label with
  | (.extrinsic origin (.submitSystemOp command), none) =>
    match origin with
    | .signed who => [t.pre.nextSystemOp who command]
    | _ => []
  | _ => []

/-- The pending operations that a committed block names as consumed. -/
def consumedOps (t : Chain.TakenStep T) : List SystemOpV2 :=
  match t.label with
  | (.onFinalize block, none) =>
    match answered t.pre block with
    | some (_, output, _) => (t.pre.pendingSystemOps.toList.filter
        (consumesSystemOp output.consumedSystemOps.toList)).map PendingSystemOp.op
    | none => []
  | _ => []

/-- The quarantined operations that root drops or clears. -/
def removedOps (t : Chain.TakenStep T) : List SystemOpV2 :=
  match t.label with
  | (.extrinsic _ (.dropQuarantinedSystemOp requestId), none) =>
    (t.pre.findQuarantined requestId).toList.map QuarantinedSystemOp.op
  | (.extrinsic _ .clearQuarantinedSystemOps, none) => t.pre.quarantinedOps
  | _ => []

/-- The quarantined operation that root puts back into the queue. -/
def retriedOps (t : Chain.TakenStep T) : List SystemOpV2 :=
  match t.label with
  | (.extrinsic _ (.retryQuarantinedSystemOp requestId), none) =>
    (t.pre.findQuarantined requestId).toList.map QuarantinedSystemOp.op
  | _ => []

/-- The preimage that a successful submission queues and announces. -/
def queuedPreimages (t : Chain.TakenStep T) : List PreimageKeyV1 :=
  match t.label with
  | (.extrinsic _ (.submitPreimage canonical), none) =>
    (T.executor.validatePreimageSubmission canonical.toList
      t.pre.protocolReader).toOption.toList.map PreimageKeyV1.ofMetadata
  | _ => []

/-- The pending preimages that a committed block names as consumed. -/
def consumedPreimages (t : Chain.TakenStep T) : List PreimageKeyV1 :=
  match t.label with
  | (.onFinalize block, none) =>
    match answered t.pre block with
    | some (_, output, _) => (t.pre.pendingPreimages.toList.filter
        (consumesPreimage T output.consumedPreimages.toList)).map PendingPreimage.key
    | none => []
  | _ => []

/-- A failed block that moves a queue finds room for all of it in the quarantine. -/
def QuarantineRoom (t : Chain.TakenStep T) : Prop :=
  match t.label with
  | (.onFinalize block, none) =>
    match runBlockStf block t.pre with
    | .err (.systemOpsYielded _) _ => t.pre.quarantinedSystemOps.toList.length +
        t.pre.pendingSystemOps.toList.length ≤ T.maxPendingSystemOps.toNat
    | .err (.preimagesRejected _) _ => t.pre.quarantinedPreimages.toList.length +
        t.pre.pendingPreimages.toList.length ≤ T.maxPendingPreimages.toNat
    | _ => True
  | _ => True

instance (t : Chain.TakenStep T) : Decidable (QuarantineRoom t) := by
  unfold QuarantineRoom
  split
  · split <;> infer_instance
  · infer_instance

end

/-- The allocation that a transition admitted under an id. -/
def admittedBy (id : UInt64) (t : Chain.TakenStep T) :
    Option (PendingAllocation AccountId) :=
  match t.label with
  | (.extrinsic origin (.submitAllocation allocation), none) =>
    match origin with
    | .signed who => if allocation.allocationId = id then some ⟨who, allocation⟩ else none
    | _ => none
  | _ => none

/-- The label of a `submit_allocation` that succeeded. -/
def AdmitsAllocation (l : Chain.Label T) (a : AllocationV1) : Prop :=
  ∃ origin, l = (.extrinsic origin (.submitAllocation a), none)

/-- What holds of the allocation that a step admitted can be tested. -/
instance decidableAdmitted (l : Chain.Label T) (P : AllocationV1 → Prop) [DecidablePred P] :
    Decidable (∃ a, AdmitsAllocation l a ∧ P a) :=
  decidable_of_bool (match l with
    | (.extrinsic _ (.submitAllocation a), none) => decide (P a)
    | _ => false) <| by
      constructor
      · split
        · exact fun h => ⟨_, ⟨_, rfl⟩, of_decide_eq_true h⟩
        · nofun
      · rintro ⟨a, ⟨origin, rfl⟩, ha⟩
        exact decide_eq_true ha

instance (l : Chain.Label T) (a : AllocationV1) : Decidable (AdmitsAllocation l a) :=
  decidable_of_iff (∃ b, AdmitsAllocation l b ∧ b = a) (by simp)

/-- An amount that fits the executor's 64-bit balance. -/
def FitsJam (amount : Balance) : Prop := (jamAmount amount).toNat = amount

/-- An allocation that a step admits. -/
structure Admitted (s : State T) (who : AccountId) (a : AllocationV1) (s' : State T) : Prop where
  relayer : s.allocationRelayerOf = some who
  fits : FitsJam a.amount
  notPending : s.registry.pending.lookup a.allocationId = none
  notProcessed : s.registry.processed.contains a.allocationId = false
  room : s.registry.count < T.maxPendingAllocations.toNat
  registry : s'.registry = s.registry.enter a.allocationId ⟨who, a⟩
    (PendingAllocation.pendingReceipt ⟨who, a⟩)
  protocolState : s'.protocolState = s.protocolState

/-- What a step does to the queues, the nonces, the registry of the allocations, the protocol
state and the quarantined execution queue. -/
structure IngressStep (t : Chain.TakenStep T) : Prop where
  preimages : ∃ lost, Moves id PendingPreimage.key (fun held => .ofMetadata held.metadata)
    t.pre.preimageStore (queuedPreimages t) [] (consumedPreimages t) lost t.post.preimageStore ∧
      (QuarantineRoom t → lost = [])
  systemOps : ∃ lost, Moves SystemOpV2.requestId PendingSystemOp.op QuarantinedSystemOp.op
    t.pre.opStore (queuedOps t) (retriedOps t) (consumedOps t ++ removedOps t) lost
      t.post.opStore ∧ (QuarantineRoom t → lost = [])
  nonces : (t.post.systemOpNonces = t.pre.systemOpNonces ∧ queuedOps t = []) ∨
    ∃ who command, t.label = (.extrinsic (.signed who) (.submitSystemOp command), none) ∧
      queuedOps t = [t.pre.nextSystemOp who command] ∧
      t.post.systemOpNonces = t.pre.systemOpNonces.insert (systemOpSender T who)
        ((t.pre.systemOpNonce (systemOpSender T who)).satAdd 1)
  registry : (∃ P, OnceRegistry.Processes PendingAllocation.processedReceipt P t.pre.registry
      t.post.registry ∧ ∀ id, admittedBy id t = none) ∨
    ∃ who a, t.label = (.extrinsic (.signed who) (.submitAllocation a), none) ∧
      Admitted t.pre who a t.post
  protocolState : t.post.protocolState = t.pre.protocolState ∨ ∃ block input output delta,
    t.label = (.onFinalize block, none) ∧ Answered t.pre block input output delta ∧
      CommitIngress t.pre output delta t.post
  quarantine : t.post.quarantinedExecutionQueue = t.pre.quarantinedExecutionQueue ∨
    ∃ origin, t.label = (.extrinsic origin .quarantinePending, none)

section
variable {t : Chain.TakenStep T}

/-- An operation that is pending after a step was pending before it, or the step queued or
retried it. -/
theorem IngressStep.pendingOp (h : IngressStep t) {op : SystemOpV2}
    (hop : op ∈ t.post.pendingOps) :
    op ∈ t.pre.pendingOps ∨ op ∈ queuedOps t ∨ op ∈ retriedOps t := by
  obtain ⟨_, hmoves, -⟩ := h.systemOps
  have := hmoves.queued.subset hop
  rw [List.mem_append, List.mem_append, or_assoc] at this
  exact this

/-- A retried operation is the one that root found. -/
theorem mem_retriedOps {op : SystemOpV2} (h : op ∈ retriedOps t) : ∃ origin requestId found,
    t.label = (.extrinsic origin (.retryQuarantinedSystemOp requestId), none) ∧
      t.pre.findQuarantined requestId = some found ∧ found.op = op := by
  unfold retriedOps at h
  split at h
  · rename_i origin requestId hl
    obtain ⟨found, hfound, hop⟩ := List.mem_map.mp h
    exact ⟨origin, requestId, found, hl, Option.mem_toList.mp hfound, hop⟩
  · cases h

/-- An allocation that is pending after a step was pending before it, or the step admitted
it. -/
theorem IngressStep.pendingAllocation (h : IngressStep t) {id : UInt64}
    {pending : PendingAllocation AccountId}
    (hlookup : t.post.pendingAllocations.lookup id = some pending) :
    t.pre.pendingAllocations.lookup id = some pending ∨
      t.label = (.extrinsic (.signed pending.submitter) (.submitAllocation pending.allocation),
        none) ∧ Admitted t.pre pending.submitter pending.allocation t.post ∧
        pending.allocation.allocationId = id := by
  have hlookup : t.post.registry.pending.lookup id = some pending := hlookup
  rcases h.registry with ⟨P, hprocesses, -⟩ | ⟨who, a, hl, hadmitted⟩
  · rcases (hprocesses.cases id).1 with hkept | ⟨-, hgone⟩
    · exact Or.inl (hkept.symm.trans hlookup)
    · rw [hgone] at hlookup
      cases hlookup
  · rw [hadmitted.registry] at hlookup
    have hlookup : (t.pre.pendingAllocations.insert a.allocationId ⟨who, a⟩).lookup id =
      some pending := hlookup
    rw [StorageMap.lookup_insert_eq] at hlookup
    split_ifs at hlookup with hid
    · cases hlookup
      exact Or.inr ⟨hl, hadmitted, hid.symm⟩
    · exact Or.inl hlookup

end

/-! ### The steps outside the queues -/

/-- The label is a successful call of the queues or the end-of-block hook. -/
def isIngress (l : Chain.Label T) : Bool :=
  match l.2 with
  | some _ => false
  | none =>
    match l.1 with
    | .extrinsic _ (.submitPreimage _) => true
    | .extrinsic _ (.submitSystemOp _) => true
    | .extrinsic _ (.retryQuarantinedSystemOp _) => true
    | .extrinsic _ (.dropQuarantinedSystemOp _) => true
    | .extrinsic _ .clearQuarantinedSystemOps => true
    | .extrinsic _ (.submitAllocation _) => true
    | .consumeAllocation _ => true
    | .onFinalize _ => true
    | _ => false

/-- A step outside the queues brings nothing in and lets nothing out. -/
theorem flows_of_not_ingress {t : Chain.TakenStep T}
    (h : isIngress t.label = false) :
    queuedOps t = [] ∧ retriedOps t = [] ∧ consumedOps t = [] ∧ removedOps t = [] ∧
      queuedPreimages t = [] ∧ consumedPreimages t = [] ∧ ∀ id, admittedBy id t = none := by
  obtain ⟨pre, ⟨action, _ | e⟩, post⟩ := t
  · cases action with
    | extrinsic origin call =>
      cases call <;> first | exact ⟨rfl, rfl, rfl, rfl, rfl, rfl, fun _ => rfl⟩ | cases h
    | onFinalize block => cases h
    | consumeAllocation allocationId => cases h
    | _ => exact ⟨rfl, rfl, rfl, rfl, rfl, rfl, fun _ => rfl⟩
  · cases action with
    | extrinsic origin call => cases call <;> exact ⟨rfl, rfl, rfl, rfl, rfl, rfl, fun _ => rfl⟩
    | _ => exact ⟨rfl, rfl, rfl, rfl, rfl, rfl, fun _ => rfl⟩

theorem IngressStep.kept (hl : isIngress l = false) (h : ingresslessItems.Within s s')
    (hquarantine : s'.quarantinedExecutionQueue = s.quarantinedExecutionQueue ∨
      ∃ origin, l = (.extrinsic origin .quarantinePending, none)) : IngressStep ⟨s, l, s'⟩ := by
  obtain ⟨h₁, h₂, h₃, h₄, h₅, h₆, h₇⟩ := flows_of_not_ingress (t := ⟨s, l, s'⟩) hl
  obtain ⟨_, rfl⟩ := h.exists_put
  refine ⟨⟨[], ?_, fun _ => rfl⟩, ⟨[], ?_, fun _ => rfl⟩, Or.inl ⟨rfl, h₁⟩,
    Or.inl ⟨fun _ => False, .refl, h₇⟩, Or.inl rfl, hquarantine⟩
  · rw [h₅, h₆]
    exact .keep
  · rw [h₁, h₂, h₃, h₄]
    exact .keep

/-! ### The steps of the queues -/

theorem findQuarantined_requestId {requestId : Hash} {found : QuarantinedSystemOp AccountId}
    (h : s.findQuarantined requestId = some found) : found.op.requestId = requestId := by
  unfold State.findQuarantined at h
  have hfound := List.find?_some h
  exact of_decide_eq_true hfound

/-- Taking an operation out of the quarantine takes out the one that is found. -/
theorem removeQuarantined_perm (s : State T) (requestId : Hash) :
    ((s.findQuarantined requestId).toList ++
      (s.removeQuarantined requestId).quarantinedSystemOps.toList).Perm
        s.quarantinedSystemOps.toList :=
  swapRemoveFirst_perm _ _

theorem HookIngress.ingressStep (h : HookIngress s block s') :
    IngressStep ⟨s, (.onFinalize block, none), s'⟩ := by
  -- A block that is not committed consumes nothing.
  have hnothing : (∀ input output delta, ¬ Answered s block input output delta) →
      consumedOps ⟨s, (.onFinalize block, none), s'⟩ = [] ∧
      consumedPreimages ⟨s, (.onFinalize block, none), s'⟩ = [] := by
    intro hnot
    simp only [consumedOps, consumedPreimages, answered_eq_none hnot, and_self]
  cases h with
  | @committed input output delta _ ha hcommit =>
    obtain ⟨_, hpreimages⟩ := hcommit.preimages
    obtain ⟨_, hops⟩ := hcommit.systemOps
    refine ⟨⟨[], ?_, fun _ => rfl⟩, ⟨[], ?_, fun _ => rfl⟩, Or.inl ⟨hcommit.systemOpNonces, rfl⟩,
      Or.inl ⟨_, hcommit.registry, fun _ => rfl⟩,
      Or.inr ⟨block, input, output, delta, rfl, ha, hcommit⟩,
      Or.inl hcommit.quarantinedExecutionQueue⟩
    · simp only [consumedPreimages, ha.answered_eq]
      unfold State.preimageStore
      rw [hcommit.quarantinedPreimages]
      exact .drain hpreimages
    · simp only [consumedOps, ha.answered_eq, removedOps, List.append_nil]
      unfold State.opStore
      rw [hcommit.quarantinedSystemOps]
      exact .drain hops
  | yielded hnot hkept =>
    obtain ⟨hops, hpreimages⟩ := hnothing hnot
    obtain ⟨_, rfl⟩ := hkept.exists_put
    refine ⟨⟨[], ?_, fun _ => rfl⟩, ⟨[], ?_, fun _ => rfl⟩, Or.inl ⟨rfl, rfl⟩,
      Or.inl ⟨fun _ => False, .refl, fun _ => rfl⟩, Or.inl rfl, Or.inl rfl⟩
    · rw [hpreimages]
      exact .keep
    · rw [hops]
      exact .keep
  | @opsQuarantined outcome input _ hnot hinput hexecute hops hrun hquarantine =>
    obtain ⟨hops, hpreimages⟩ := hnothing hnot
    have hstore := quarantinePendingSystemOps_ok hquarantine
    obtain ⟨_, rfl⟩ := ((quarantinePendingSystemOps_within _).of_ok hquarantine).exists_put
    refine ⟨⟨[], ?_, fun _ => rfl⟩, ⟨s.pendingOps.drop (T.maxPendingSystemOps.toNat -
      s.quarantinedSystemOps.toList.length), ?_, fun hroom => ?_⟩, Or.inl ⟨rfl, rfl⟩,
      Or.inl ⟨fun _ => False, .refl, fun _ => rfl⟩, Or.inl rfl, Or.inl rfl⟩
    · rw [hpreimages]
      exact .keep
    · rw [hops, hstore]
      exact .quarantine _ (List.map_map ..)
    · simp only [QuarantineRoom, hrun] at hroom
      exact List.drop_eq_nil_of_le ((List.length_map _).trans_le (Nat.le_sub_of_add_le' hroom))
  | @preimagesQuarantined code input _ hnot hinput hpreimages hrun hquarantine =>
    obtain ⟨hops, hpreimages⟩ := hnothing hnot
    have hstore := quarantinePendingPreimages_ok hquarantine
    obtain ⟨_, rfl⟩ := ((quarantinePendingPreimages_within _).of_ok hquarantine).exists_put
    refine ⟨⟨(s.pendingPreimages.toList.map PendingPreimage.key).drop (T.maxPendingPreimages.toNat
      - s.quarantinedPreimages.toList.length), ?_, fun hroom => ?_⟩, ⟨[], ?_, fun _ => rfl⟩,
      Or.inl ⟨rfl, rfl⟩,
      Or.inl ⟨fun _ => False, .refl, fun _ => rfl⟩, Or.inl rfl, Or.inl rfl⟩
    · rw [hpreimages, hstore]
      exact .quarantine _ (List.map_map ..)
    · simp only [QuarantineRoom, hrun] at hroom
      exact List.drop_eq_nil_of_le ((List.length_map _).trans_le (Nat.le_sub_of_add_le' hroom))
    · rw [hops]
      exact .keep

/-- The counter does not saturate where there is room. -/
theorem satAdd32_one_of_lt {count : Nat} {limit : UInt32} (h : count < limit.toNat) :
    satAdd32 count 1 = count + 1 := by
  have := limit.toNat_lt
  unfold satAdd32 u32Max
  omega

variable [DecidableEq AccountId]

theorem submitAllocation_admitted {a : AllocationV1} (h : submitAllocation origin a s = .ok () s') :
    ∃ who, origin = .signed who ∧ Admitted s who a s' := by
  obtain ⟨who, horigin, hrelayer, -, hfits, -, hprocessed, hpending, hroom, rfl⟩ :=
    submitAllocation_ok h
  refine ⟨who, horigin, hrelayer, hfits, ?_, hprocessed, hroom, ?_, rfl⟩
  · exact Option.not_isSome_iff_eq_none.mp (Bool.eq_false_iff.mp hpending)
  · show OnceRegistry.mk _ _ _ (satAdd32 s.pendingAllocationCount 1) = _
    rw [satAdd32_one_of_lt hroom]
    rfl

/-- The steps of the successful extrinsics. -/
theorem ingressStep_of_call {call : Call T} (h : call.body origin s = .ok () s') :
    IngressStep ⟨s, (.extrinsic origin call, none), s'⟩ := by
  have hwork : isIngress (T := T) (.extrinsic origin call, none) = false →
      workItems.Within s s' → IngressStep ⟨s, (.extrinsic origin call, none), s'⟩ :=
    fun hl h => .kept hl (h.mono fun _ _ => rfl) (Or.inl (h.unchanged _ fun _ _ => rfl))
  have hbase : ∀ {m : Workers.M T.workers Unit}, (inWorkers m : M T Unit) s = .ok () s' →
      workItems.Within s s' := fun h => ((inWorkers_within _).of_ok h).mono fun _ _ => rfl
  cases call with
  | register sessionKey stake => exact hwork rfl (hbase h)
  | scheduleUpdate sessionKey stake => exact hwork rfl (hbase h)
  | submitVote workerId vote signature => exact hwork rfl (hbase h)
  | submitEquivocation workerId first firstSignature second secondSignature =>
    exact hwork rfl (hbase h)
  | submitWork package bundleRef => exact hwork rfl ((submitWork_within _ _ _).of_ok h)
  | submitCandidate envelope => exact hwork rfl ((submitCandidate_within _ _).of_ok h)
  | pauseExecution paused =>
    obtain ⟨-, h⟩ := ensureRoot_bind_ok.mp h
    cases h
    exact .kept rfl rfl (Or.inl rfl)
  | quarantinePending =>
    obtain ⟨-, rfl⟩ := quarantinePending_ok h
    exact .kept rfl rfl (Or.inr ⟨origin, rfl⟩)
  | submitPreimage canonical =>
    obtain ⟨who, metadata, pending, rfl, -, hmetadata, hnew, hpending, rfl⟩ := submitPreimage_ok h
    refine ⟨⟨[], ?_, fun _ => rfl⟩, ⟨[], .keep, fun _ => rfl⟩, Or.inl ⟨rfl, rfl⟩,
      Or.inl ⟨fun _ => False, .refl, fun _ => rfl⟩, Or.inl rfl, Or.inl rfl⟩
    simp only [queuedPreimages, hmetadata]
    unfold State.preimageStore
    rw [hpending]
    exact .push (q := s.preimageStore) ⟨who, canonical, metadata⟩ hnew
  | submitSystemOp command =>
    obtain ⟨who, pending, rfl, -, hnew, hpending, rfl⟩ := submitSystemOp_ok h
    refine ⟨⟨[], .keep, fun _ => rfl⟩, ⟨[], ?_, fun _ => rfl⟩,
      Or.inr ⟨who, command, rfl, rfl, rfl⟩,
      Or.inl ⟨fun _ => False, .refl, fun _ => rfl⟩, Or.inl rfl, Or.inl rfl⟩
    unfold State.opStore
    rw [hpending]
    exact .push (q := s.opStore) ⟨who, s.nextSystemOp who command⟩ hnew
  | fundService serviceId amount =>
    obtain ⟨_, _, _, _, _, -, -, rfl⟩ := fundService_ok h
    exact .kept rfl rfl (Or.inl rfl)
  | dropQuarantinedSystemOp requestId =>
    have hperm := removeQuarantined_perm s requestId
    rw [dropQuarantinedSystemOp_ok h]
    exact ⟨⟨[], .keep, fun _ => rfl⟩, ⟨[], .release hperm, fun _ => rfl⟩, Or.inl ⟨rfl, rfl⟩,
      Or.inl ⟨fun _ => False, .refl, fun _ => rfl⟩, Or.inl rfl, Or.inl rfl⟩
  | retryQuarantinedSystemOp requestId =>
    obtain ⟨retry, pending, -, hretry, hpending, rfl⟩ := retryQuarantinedSystemOp_ok h
    have hnew := retryQuarantinedSystemOp_new h
    have hperm := removeQuarantined_perm s requestId
    rw [hretry] at hperm
    refine ⟨⟨[], .keep, fun _ => rfl⟩, ⟨[], ?_, fun _ => rfl⟩, Or.inl ⟨rfl, rfl⟩,
      Or.inl ⟨fun _ => False, .refl, fun _ => rfl⟩, Or.inl rfl, Or.inl rfl⟩
    simp only [retriedOps, hretry]
    -- The index gets the id of the request, which is the id of what is found.
    obtain rfl := findQuarantined_requestId hretry
    unfold State.opStore
    rw [hpending]
    exact .retry (q := s.opStore) ⟨retry.submitter, retry.op⟩ hnew rfl hperm
  | clearQuarantinedSystemOps =>
    rw [clearQuarantinedSystemOps_ok h]
    refine ⟨⟨[], .keep, fun _ => rfl⟩, ⟨[], ?_, fun _ => rfl⟩, Or.inl ⟨rfl, rfl⟩,
      Or.inl ⟨fun _ => False, .refl, fun _ => rfl⟩, Or.inl rfl, Or.inl rfl⟩
    exact .release (List.Perm.of_eq (List.append_nil _))
  | setIngressRelayer newRelayer =>
    obtain ⟨-, h⟩ := ensureRoot_bind_ok.mp h
    cases h
    exact .kept rfl rfl (Or.inl rfl)
  | submitAllocation allocation =>
    obtain ⟨who, rfl, hadmitted⟩ := submitAllocation_admitted h
    obtain ⟨_, -, -, -, -, -, -, -, -, rfl⟩ := submitAllocation_ok h
    exact ⟨⟨[], .keep, fun _ => rfl⟩, ⟨[], .keep, fun _ => rfl⟩, Or.inl ⟨rfl, rfl⟩,
      Or.inr ⟨who, allocation, rfl, hadmitted⟩, Or.inl rfl, Or.inl rfl⟩
  | setAllocationRelayer newRelayer =>
    obtain ⟨-, h⟩ := ensureRoot_bind_ok.mp h
    cases h
    exact .kept rfl rfl (Or.inl rfl)

/-- Every step of the chain is such a step. -/
theorem ingressStep_of_step (h : Chain.Step T s l s') : IngressStep ⟨s, l, s'⟩ := by
  obtain ⟨action, _ | e⟩ := l
  · cases action with
    | extrinsic origin call => exact ingressStep_of_call (Tx.transaction_ok.mp h)
    | workersOnInitialize block =>
      obtain ⟨_, rfl⟩ := ((inWorkers_within _).of_ok h).exists_put
      exact .kept rfl rfl (Or.inl rfl)
    | jamOnInitialize block =>
      obtain ⟨_, rfl⟩ := ((onInitialize_within _).of_ok h).exists_put
      exact .kept rfl rfl (Or.inl rfl)
    | onFinalize block => exact (onFinalize_ingress h).ingressStep
    | consumeAllocation allocationId =>
      obtain ⟨pending, hpending, rfl⟩ := consumeAllocation_ok (Tx.transaction_ok.mp h)
      exact ⟨⟨[], .keep, fun _ => rfl⟩, ⟨[], .keep, fun _ => rfl⟩, Or.inl ⟨rfl, rfl⟩,
        Or.inl ⟨fun _ => True, .single (.mk hpending trivial), fun _ => rfl⟩, Or.inl rfl,
        Or.inl rfl⟩
    | system blockNumber blockHash ledger =>
      cases h
      exact .kept rfl rfl (Or.inl rfl)
  · rw [step_err h]
    exact .kept rfl rfl (Or.inl rfl)

end MiniJam.Jam
