import MiniJam.Proofs.Allocations

/-!
# `MiniJam.Proofs.AllocationLedger`: the registries of the allocations

Four storage items describe the allocations: the pending ones, the processed ids, a receipt for
each, and a counter of the pending ones. `submit_allocation` adds to them, `consume_allocation`
and the loop of the end-of-block hook move an entry from pending to processed. `LedgerSound` is
the invariant, in terms of `OnceRegistry`.

The loop walks a snapshot of the pending allocations. Each turn processes at most its own, so the
allocation of the next turn is still there (`consume_turn_succeeds`).
-/

set_option autoImplicit false

namespace MiniJam.Jam

open OnceRegistry

variable {AccountId Ledger : Type} {T : Config AccountId Ledger} {s s' : State T}
  {block : BlockNumber}

/-! ### Admissions in a history -/

/-- The allocation that was admitted under an id, the latest if there were several. -/
def admittedAllocation (h : Chain.History T) (id : UInt64) :
    Option (PendingAllocation AccountId) :=
  h.findSome? (admittedBy id)

variable {pending : PendingAllocation AccountId} {h : Chain.History T}

variable {t : Chain.TakenStep T} {id : UInt64}

/-- A transition that admitted an allocation under an id is a successful submission of it. -/
theorem admittedBy_eq_some (h : admittedBy id t = some pending) :
    t.label = (.extrinsic (.signed pending.submitter) (.submitAllocation pending.allocation),
      none) ∧ pending.allocation.allocationId = id := by
  unfold admittedBy at h
  split at h
  · rename_i origin allocation hlabel
    split at h
    · split_ifs at h with hid
      cases h
      exact ⟨hlabel, hid⟩
    · cases h
  · cases h

/-- What was admitted is a successful submission of the history. -/
theorem admittedAllocation_mem (hadmitted : admittedAllocation h id = some pending) :
    ∃ t ∈ h, AdmitsAllocation t.label pending.allocation ∧
      pending.allocation.allocationId = id := by
  obtain ⟨t, ht, hby⟩ := List.exists_of_findSome?_eq_some hadmitted
  obtain ⟨hlabel, hid⟩ := admittedBy_eq_some hby
  exact ⟨t, ht, ⟨_, hlabel⟩, hid⟩

/-! ### One step -/

/-- The registry is sound for what a history admitted, and the pending amounts fit. -/
structure LedgerSound (h : Chain.History T) (s : State T) : Prop where
  registry : Sound PendingAllocation.pendingReceipt PendingAllocation.processedReceipt
    T.maxPendingAllocations.toNat (admittedAllocation h) s.registry
  fits : ∀ id pending, s.pendingAllocations.lookup id = some pending →
    FitsJam pending.allocation.amount
  once : h.Pairwise fun t t' => ∀ id, ¬ ((admittedBy id t).isSome ∧ (admittedBy id t').isSome)

/-- The receipt of an id: of the allocation that was admitted under it, with its status. -/
theorem LedgerSound.receipt (hsound : LedgerSound h s) (id : UInt64) :
    s.allocationReceipts.lookup id =
      (admittedAllocation h id).map fun pending => ⟨pending.allocation,
        if s.processedAllocations.contains id then .processed else .pending⟩ := by
  have hreceipt : s.allocationReceipts.lookup id = _ := hsound.registry.receipts id
  have hprocessed : s.registry.processed = s.processedAllocations := rfl
  rw [hreceipt, hprocessed]
  congr 1
  funext pending
  split_ifs
  · rfl
  · rfl

/-- An admission under a new id adds to what the history admitted. -/
theorem admittedAllocation_cons {who : AccountId} {a : AllocationV1}
    (hlabel : t.label = (.extrinsic (.signed who) (.submitAllocation a), none)) :
    admittedAllocation (t :: h) =
      Function.update (admittedAllocation h) a.allocationId (some ⟨who, a⟩) := by
  funext id
  have hby : admittedBy id t = if a.allocationId = id then some ⟨who, a⟩ else none := by
    unfold admittedBy
    rw [hlabel]
  unfold admittedAllocation
  rw [List.findSome?_cons, hby]
  by_cases hid : a.allocationId = id
  · rw [if_pos hid, ← hid, Function.update_self]
  · rw [if_neg hid, Function.update_of_ne (Ne.symm hid)]

/-- One step keeps the ledger sound. -/
theorem LedgerSound.step (hsound : LedgerSound h s) {l : Chain.Label T}
    (hstep : IngressStep ⟨s, l, s'⟩) : LedgerSound (⟨s, l, s'⟩ :: h) s' := by
  have hfits : ∀ id pending, s'.pendingAllocations.lookup id = some pending →
      FitsJam pending.allocation.amount := by
    intro id pending hlookup
    rcases hstep.pendingAllocation hlookup with hold | ⟨-, hadmitted, -⟩
    · exact hsound.fits id pending hold
    · exact hadmitted.fits
  rcases hstep.registry with ⟨P, hprocesses, hnone⟩ | ⟨who, a, hl, hadmitted⟩
  · have hsame : admittedAllocation (⟨s, l, s'⟩ :: h) = admittedAllocation h := by
      funext id
      unfold admittedAllocation
      rw [List.findSome?_cons, hnone id]
    refine ⟨hsame ▸ hprocesses.sound hsound.registry, hfits, ?_⟩
    refine List.pairwise_cons.mpr ⟨?_, hsound.once⟩
    rintro t - id ⟨hsome, -⟩
    rw [hnone id] at hsome
    cases hsome
  · obtain rfl : l = _ := hl
    refine ⟨?_, hfits, List.pairwise_cons.mpr ⟨?_, hsound.once⟩⟩
    · rw [show s'.registry = _ from hadmitted.registry, admittedAllocation_cons rfl]
      exact hsound.registry.enter hadmitted.notPending hadmitted.notProcessed hadmitted.room
    · rintro t ht id ⟨hnow, hbefore⟩
      -- An id that is admitted now was neither pending nor processed, so never admitted.
      obtain ⟨pending, hnow⟩ := Option.isSome_iff_exists.mp hnow
      obtain ⟨hlabel, hid⟩ := admittedBy_eq_some hnow
      have hallocation : a = pending.allocation := by
        have := congrArg Prod.fst hlabel
        simp only [Action.extrinsic.injEq, Call.submitAllocation.injEq] at this
        exact this.2
      have hnever := hsound.registry.admitted_eq_none hadmitted.notPending hadmitted.notProcessed
      rw [hallocation, hid] at hnever
      have := List.findSome?_eq_none_iff.mp hnever t ht
      rw [this] at hbefore
      cases hbefore

section
variable [DecidableEq AccountId]

/-- The ledger is sound in every state that is reached. -/
theorem ledgerSound_of_run (hr : Chain.Run T h s) : LedgerSound h s := by
  refine hr.invariant (I := LedgerSound) ?_ ?_
  · intro s hs
    obtain ⟨_, hregistry⟩ := genesis_initial hs State.registry fun _ _ => rfl
    obtain ⟨_, hpending⟩ := genesis_initial hs State.pendingAllocations fun _ _ => rfl
    refine ⟨?_, ?_, List.Pairwise.nil⟩
    · rw [hregistry]
      exact Sound.empty
    · intro id pending hlookup
      rw [hpending] at hlookup
      cases hlookup
  · intro h s l s' hsound hstep
    exact hsound.step (ingressStep_of_step hstep)

/-- A pending allocation is stored under its id. -/
theorem pendingAllocation_id (hr : Chain.Run T h s) (id : UInt64)
    (pending : PendingAllocation AccountId)
    (hpending : s.pendingAllocations.lookup id = some pending) :
    pending.allocation.allocationId = id := by
  obtain ⟨_, -, -, hid⟩ := admittedAllocation_mem
    ((ledgerSound_of_run hr).registry.pending id pending hpending)
  exact hid

omit [DecidableEq AccountId] in
/-- A processed id stays processed, and no later step admits it. -/
theorem IngressStep.processed (h : IngressStep t)
    (hid : t.pre.processedAllocations.contains id = true) :
    t.post.processedAllocations.contains id = true ∧ admittedBy id t = none := by
  rcases h.registry with ⟨P, hprocesses, hnone⟩ | ⟨who, a, hl, hadmitted⟩
  · exact ⟨(hprocesses.cases id).2 hid, hnone id⟩
  · have hne : a.allocationId ≠ id := by
      rintro rfl
      have hnot := hadmitted.notProcessed
      rw [show t.pre.registry.processed.contains a.allocationId = true from hid] at hnot
      cases hnot
    constructor
    · show t.post.registry.processed.contains id = true
      rw [hadmitted.registry]
      exact hid
    · unfold admittedBy
      rw [hl]
      exact if_neg hne

/-- A processed id stays processed over every later run, which never admits it. -/
theorem processed_later (hr : Trace (· = s) (Chain.Step T) h s')
    (hid : s.processedAllocations.contains id = true) :
    s'.processedAllocations.contains id = true ∧ ∀ t ∈ h, admittedBy id t = none := by
  refine hr.invariant (I := fun h s' => s'.processedAllocations.contains id = true ∧
    ∀ t ∈ h, admittedBy id t = none) ?_ ?_
  · intro s₀ hs
    subst hs
    exact ⟨hid, fun t ht => absurd ht List.not_mem_nil⟩
  · intro h s l s' hi hstep
    obtain ⟨hstays, hnone⟩ := (ingressStep_of_step hstep).processed hi.1
    exact ⟨hstays, List.forall_mem_cons.mpr ⟨hnone, hi.2⟩⟩

/-- A submission that succeeded in a run admitted its allocation. -/
theorem admittedBy_of_label (hstep : Chain.Step T t.pre t.label t.post) {a : AllocationV1}
    (hadmits : AdmitsAllocation t.label a) : (admittedBy a.allocationId t).isSome := by
  obtain ⟨pre, l, post⟩ := t
  obtain ⟨origin, rfl⟩ : ∃ origin, l = (.extrinsic origin (.submitAllocation a), none) := hadmits
  obtain ⟨who, rfl, -⟩ := submitAllocation_admitted (Tx.transaction_ok.mp hstep)
  simp [admittedBy]

end

/-! ### The loop of the hook -/

/-- The snapshot of the loop holds each id once. -/
theorem nodup_getPendingAllocations (hsound : LedgerSound h s) :
    ((getPendingAllocations s).map fun pending => pending.allocation.allocationId).Nodup := by
  have hperm : ((getPendingAllocations s).map fun pending =>
      pending.allocation.allocationId).Perm
      ((StorageMap.iter T.workers.iterOrder s.pendingAllocations).map Prod.fst) := by
    refine ((sortByKey_perm _ _).map _).trans (List.Perm.of_eq ?_)
    rw [List.map_map]
    refine List.map_congr_left ?_
    rintro ⟨id, pending⟩ hmem
    have hlookup := (StorageMap.mem_iter T.workers.iterOrder_perm).mp hmem
    obtain ⟨_, _, _, hid⟩ := admittedAllocation_mem (hsound.registry.pending id pending hlookup)
    exact hid
  rw [hperm.nodup_iff]
  exact StorageMap.nodup_iter_keys T.workers.iterOrder_perm _

/-- Every turn of the loop can consume its allocation: neither fatal exit is taken. -/
theorem consume_turn_succeeds (hsound : LedgerSound h s) {changes : List ProtocolStateChange}
    {before after : List (PendingAllocation AccountId)}
    (hsplit : getPendingAllocations s = before ++ pending :: after)
    (hrun : Tx.forEach (consumeIfConfirmed changes) before s = .ok () s') :
    ∃ s'', consumeAllocationAfterTransition pending.allocation.allocationId s' = .ok () s'' := by
  have hprocesses := consumeEach_registry hrun
  have hnodup := nodup_getPendingAllocations hsound
  rw [hsplit, List.map_append, List.map_cons] at hnodup
  -- The turns before this one process other ids.
  have hother : pending.allocation.allocationId ∉
      before.map fun pending => pending.allocation.allocationId := by
    intro hmem
    exact (List.nodup_append.mp hnodup).2.2 _ hmem _ List.mem_cons_self rfl
  obtain ⟨id, hlookup⟩ := mem_getPendingAllocations.mp
    (show pending ∈ getPendingAllocations s by rw [hsplit]; simp)
  obtain ⟨_, _, _, rfl⟩ := admittedAllocation_mem (hsound.registry.pending id pending hlookup)
  have hpending : s'.pendingAllocations.lookup pending.allocation.allocationId = some pending := by
    rcases (hprocesses.cases pending.allocation.allocationId).1 with hkept | ⟨⟨hmem, -⟩, -⟩
    · exact hkept.trans hlookup
    · exact absurd hmem hother
  have hnot : s'.processedAllocations.contains pending.allocation.allocationId = false := by
    by_contra hcontains
    have hnone := (hprocesses.sound hsound.registry).disjoint _
      (Bool.not_eq_false _ ▸ hcontains)
    have hsome : s'.registry.pending.lookup pending.allocation.allocationId = some pending :=
      hpending
    rw [hnone] at hsome
    cases hsome
  refine ⟨s'.processed pending.allocation.allocationId pending, ?_⟩
  unfold consumeAllocationAfterTransition
  rw [Tx.read_bind_apply]
  refine Tx.ensure_bind_ok.mpr ⟨by rw [hnot]; rfl, ?_⟩
  exact Tx.okOr_bind_ok.mpr ⟨pending, hpending, rfl⟩

/-! ### The ledger over a run -/

/-- An operation built from a pending allocation applies an id that is not processed. -/
theorem builtOp_not_processed (hsound : LedgerSound h s) {encoded : Bytes}
    (hmem : encoded ∈ pendingAllocationInputs s) {op : SystemOpV2}
    (hop : allocationInputOp s encoded = .ok op) {service : UInt32} {amount : UInt64}
    (hcommand : op.command = .applyAllocation id service amount) :
    s.processedAllocations.contains id = false := by
  obtain ⟨pending, hpending, rfl⟩ := List.mem_map.mp hmem
  obtain ⟨id', hlookup⟩ := mem_getPendingAllocations.mp hpending
  obtain ⟨_, _, _, rfl⟩ := admittedAllocation_mem (hsound.registry.pending id' pending hlookup)
  rw [allocationInputOp_encode (hsound.fits _ pending hlookup)] at hop
  obtain ⟨-, -, rfl⟩ := allocationSystemOp_ok.mp hop
  -- The command names the id of the pending allocation.
  obtain ⟨rfl, -, -⟩ := SystemCommandV2.applyAllocation.inj hcommand
  by_contra hcontains
  have hnone := hsound.registry.disjoint _ (Bool.not_eq_false _ ▸ hcontains)
  rw [show s.registry.pending.lookup _ = some pending from hlookup] at hnone
  cases hnone

section
variable [DecidableEq AccountId]

/-- In every state that is reached: the counter is the number of pending allocations and
within the limit; no id is both pending and processed; the receipts are those of the pending
and the processed ids, each with its status and the one allocation that was submitted under
the id; a processed id stays processed in every later state, is not admitted again, and no
operation is built for it; and no turn of the consuming loop takes a fatal exit. -/
theorem allocation_ledger_sound (h : Chain.History T) (s : State T)
    (hr : Chain.Run T h s) :
    s.pendingAllocationCount = s.pendingAllocations.keys.length ∧
    s.pendingAllocationCount ≤ T.maxPendingAllocations.toNat ∧
    (∀ id, s.processedAllocations.contains id = true →
      s.pendingAllocations.contains id = false) ∧
    (∀ id, s.allocationReceipts.contains id = true ↔
      s.pendingAllocations.contains id = true ∨ s.processedAllocations.contains id = true) ∧
    (∀ id receipt, s.allocationReceipts.lookup id = some receipt →
      receipt.status = (if s.processedAllocations.contains id then .processed else .pending) ∧
      receipt.allocation.allocationId = id ∧
      ∃ t ∈ h, AdmitsAllocation t.label receipt.allocation) ∧
    (h.Pairwise fun t t' => ∀ a a', AdmitsAllocation t.label a → AdmitsAllocation t'.label a' →
      a.allocationId ≠ a'.allocationId) ∧
    (∀ h' s', Trace (· = s) (Chain.Step T) h' s' → ∀ id,
      s.processedAllocations.contains id = true →
      s'.processedAllocations.contains id = true ∧
      (∀ t ∈ h', ∀ a, AdmitsAllocation t.label a → a.allocationId ≠ id) ∧
      ∀ encoded ∈ pendingAllocationInputs s', ∀ op, allocationInputOp s' encoded = .ok op →
        ∀ service amount, op.command ≠ .applyAllocation id service amount) ∧
    (∀ delta s₀ before pending after s₁, applyDelta delta s = .ok () s₀ →
      getPendingAllocations s₀ = before ++ pending :: after →
      Tx.forEach (consumeIfConfirmed delta.changes) before s₀ = .ok () s₁ →
      ∃ s₂, consumeAllocationAfterTransition pending.allocation.allocationId s₁ = .ok () s₂) := by
  have hsound := ledgerSound_of_run hr
  have hreg := hsound.registry
  refine ⟨hreg.count_eq, hreg.count_le, ?_, ?_, ?_, ?_, ?_, ?_⟩
  · intro id hid
    have hnone : s.pendingAllocations.lookup id = none := hreg.disjoint id hid
    unfold StorageMap.contains
    rw [hnone]
    rfl
  · intro id
    have hreceipt := hsound.receipt id
    constructor
    · intro hcontains
      unfold StorageMap.contains at hcontains
      rw [hreceipt, Option.isSome_map] at hcontains
      obtain ⟨pending, hadmitted⟩ := Option.isSome_iff_exists.mp hcontains
      exact (hreg.kept id pending hadmitted).imp_left fun hlookup =>
        Option.isSome_iff_exists.mpr ⟨pending, hlookup⟩
    · -- An id that is pending or processed was admitted, so it has a receipt.
      intro hunion
      obtain ⟨pending, hadmitted⟩ : ∃ pending, admittedAllocation h id = some pending := by
        rcases hunion with hpending | hprocessed
        · obtain ⟨pending, hlookup⟩ := Option.isSome_iff_exists.mp hpending
          exact ⟨pending, hreg.pending id pending hlookup⟩
        · exact hreg.processed id hprocessed
      unfold StorageMap.contains
      rw [hreceipt, hadmitted]
      rfl
  · intro id receipt hlookup
    rw [hsound.receipt id] at hlookup
    obtain ⟨pending, hadmitted, rfl⟩ := Option.map_eq_some_iff.mp hlookup
    obtain ⟨t, ht, hadmits, hid⟩ := admittedAllocation_mem hadmitted
    exact ⟨rfl, hid, t, ht, hadmits⟩
  · refine hsound.once.imp_of_mem ?_
    intro t t' ht ht' hnot a a' ha ha' heq
    exact hnot a.allocationId ⟨admittedBy_of_label (hr.steps t ht) ha,
      heq ▸ admittedBy_of_label (hr.steps t' ht') ha'⟩
  · -- What is processed stays so, and it is neither admitted nor built again.
    intro h' s' hlater id hid
    obtain ⟨hstays, hnone⟩ := processed_later hlater hid
    refine ⟨hstays, ?_, ?_⟩
    · rintro t ht a hadmits rfl
      have hsome := admittedBy_of_label (hlater.steps t ht) hadmits
      rw [hnone t ht] at hsome
      cases hsome
    · intro encoded hmem op hop service amount hcommand
      have hfree := builtOp_not_processed (ledgerSound_of_run (hr.append hlater)) hmem hop hcommand
      rw [hstays] at hfree
      cases hfree
  · -- The changes leave the registry, so the loop begins with the sound one.
    intro delta s₀ before pending after s₁ hdelta hsplit hrun
    have hwithin := (applyDelta_within delta).of_ok hdelta
    have hsame := hwithin.unchanged State.registry fun _ _ => rfl
    have hpending := hwithin.unchanged State.pendingAllocations fun _ _ => rfl
    exact consume_turn_succeeds ⟨hsame ▸ hreg, hpending ▸ hsound.fits, hsound.once⟩ hsplit hrun

end

open Reference

/-- One allocation is processed and a second one is pending. -/
theorem allocation_ledger_sound_both : ∃ h s,
    Chain.Run (runtime consumeAll) h s ∧
    s.processedAllocations.contains 5 = true ∧ s.pendingAllocations.contains 6 = true ∧
    s.pendingAllocationCount = s.pendingAllocations.keys.length := by
  obtain ⟨h, s, hrun, hprocessed, hpending⟩ := exists_run
    (runtime consumeAll)
    [.extrinsic (.signed bob) (.submitAllocation ⟨5, 1, 7⟩), .onFinalize 1,
      .extrinsic (.signed bob) (.submitAllocation ⟨6, 1, 8⟩)]
    (fun s => s.processedAllocations.contains 5 = true ∧ s.pendingAllocations.contains 6 = true)
    (by decide +kernel)
  exact ⟨h, s, hrun, hprocessed, hpending, (allocation_ledger_sound h s hrun).1⟩

end MiniJam.Jam
