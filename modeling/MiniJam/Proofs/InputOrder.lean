import MiniJam.Proofs.AllocationLedger
import MiniJam.Proofs.QueueIndex
import MiniJam.Proofs.WorkMoves

/-!
# `MiniJam.Proofs.InputOrder`: the input of a block does not depend on the order of arrival

The pallet sorts everything it hands to the executor. A sort hides the order of arrival when
no two entries have the same key. In a reachable state that is so for all four collections:
a work is queued once, the indices beside the two queues keep keys apart, and an allocation is
stored under its own id.

`execution_input_order_free` compares the inputs built from two storages that hold the same
entries in different orders.
-/

set_option autoImplicit false
set_option synthInstance.maxSize 400

namespace MiniJam.Jam

open Scale

variable {AccountId Ledger : Type} {T : Config AccountId Ledger} {s s' : State T}
  {block : BlockNumber}

/-! ### The due items -/

/-- The items of the queue that are old enough for a block. -/
def State.ripe (s : State T) (block : BlockNumber) : List ExecutionItem :=
  s.executionQueue.toList.filter fun item => decide (item.executeAt ≤ block)

/-- With room for all ripe items, the split takes exactly these. -/
theorem splitQueue_ripe {maxReports : Nat} {queue : List ExecutionItem}
    (hroom : (queue.filter fun item => decide (item.executeAt ≤ block)).length ≤ maxReports) :
    (splitQueue maxReports false block queue).1 =
      queue.filter fun item => decide (item.executeAt ≤ block) := by
  -- The invariant of the fold: there is room for what was taken and for what is still to come.
  suffices h : ∀ (queue : List ExecutionItem) (acc : List ExecutionItem × List ExecutionItem),
      acc.1.length + (queue.filter fun item => decide (item.executeAt ≤ block)).length
        ≤ maxReports →
      (queue.foldl (fun acc item =>
        if !false ∧ item.executeAt ≤ block ∧ acc.1.length < maxReports then
          (acc.1 ++ [item], acc.2)
        else (acc.1, acc.2 ++ [item])) acc).1 =
        acc.1 ++ queue.filter fun item => decide (item.executeAt ≤ block) by
    exact h queue ([], []) (by simpa using hroom)
  intro queue
  induction queue with
  | nil =>
    intro acc _
    simp
  | cons item queue ih =>
    intro acc hroom
    rw [List.foldl_cons]
    by_cases hripe : item.executeAt ≤ block
    · simp only [hripe, decide_true, List.filter_cons_of_pos, List.length_cons] at hroom ⊢
      have hlt : acc.1.length < maxReports := by omega
      rw [if_pos ⟨rfl, trivial, hlt⟩, ih (acc.1 ++ [item], acc.2) (by simp; omega)]
      simp
    · simp only [hripe, decide_false, Bool.false_eq_true, not_false_eq_true,
        List.filter_cons_of_neg, false_and, and_false, if_false] at hroom ⊢
      exact ih (acc.1, acc.2 ++ [item]) hroom

/-- While reports are paused nothing is due. -/
theorem splitQueue_paused (maxReports : Nat) (queue : List ExecutionItem) :
    (splitQueue maxReports true block queue).1 = [] := by
  suffices h : ∀ (queue : List ExecutionItem) (acc : List ExecutionItem × List ExecutionItem),
      (queue.foldl (fun acc item =>
        if !true ∧ item.executeAt ≤ block ∧ acc.1.length < maxReports then
          (acc.1 ++ [item], acc.2)
        else (acc.1, acc.2 ++ [item])) acc).1 = acc.1 from h queue ([], [])
  intro queue
  induction queue with
  | nil => exact fun _ => rfl
  | cons item queue ih => exact fun acc => ih (acc.1, acc.2 ++ [item])

/-! ### Two storages with the same entries -/

/-- The storages hold the same entries in the four collections, in any order, and agree on
everything else that the input of the block is built from. -/
@[mk_iff]
structure SameButOrder (block : BlockNumber) (s s' : State T) : Prop where
  queue : s.executionQueue.toList.Perm s'.executionQueue.toList
  preimages : s.pendingPreimages.toList.Perm s'.pendingPreimages.toList
  systemOps : s.pendingSystemOps.toList.Perm s'.pendingSystemOps.toList
  allocations : ∀ id, s.pendingAllocations.lookup id = s'.pendingAllocations.lookup id
  works : ∀ id, s.works.lookup id = s'.works.lookup id
  candidates : ∀ k, s.candidates.lookup k = s'.candidates.lookup k
  protocolState : ∀ key, s.protocolState.lookup key = s'.protocolState.lookup key
  reportsPaused : s.reportImportPaused = s'.reportImportPaused
  preimagesPaused : s.preimageImportPaused = s'.preimageImportPaused
  systemOpsPaused : s.systemOpsPaused = s'.systemOpsPaused
  parent : hostParentHash s block = hostParentHash s' block

/-- The pending allocations sorted out of an iteration in some order. -/
def allocationsIn (order : List UInt64 → List UInt64) (s : State T) :
    List (PendingAllocation AccountId) :=
  sortByKey (fun pending => pending.allocation.allocationId.toNat)
    ((StorageMap.iter order s.pendingAllocations).map Prod.snd)

section
variable (hsame : SameButOrder block s s')
include hsame

/-- The candidates are the same. -/
theorem SameButOrder.candidateForWork (id : WorkId) :
    candidateForWork s id = candidateForWork s' id := by
  unfold Jam.candidateForWork
  simp only [hsame.works, hsame.candidates]

theorem SameButOrder.dueItems
    (hnodup : (s.executionQueue.toList.map ExecutionItem.workId).Nodup)
    (hripe : (s.ripe block).length ≤ T.maxExecutionReports.toNat) :
    dueItems s block = dueItems s' block := by
  have hkey : dueKey s = dueKey s' := by
    funext item
    unfold dueKey
    rw [hsame.candidateForWork]
  unfold Jam.dueItems
  rw [hkey, ← hsame.reportsPaused]
  cases s.reportImportPaused with
  | true => rw [splitQueue_paused, splitQueue_paused]
  | false =>
    have hperm := hsame.queue.filter fun item => decide (item.executeAt ≤ block)
    rw [splitQueue_ripe hripe, splitQueue_ripe (hperm.length_eq.symm.trans_le hripe)]
    refine sortByKey_eq_of_perm hperm ?_
    -- The first part of the key is the work, and a work is queued once.
    intro a ha b hb heq
    have hid : a.workId = b.workId := UInt64.toNat_inj.mp (Prod.mk.inj (toLex.injective heq)).1
    exact List.inj_on_of_nodup_map hnodup (List.mem_of_mem_filter ha)
      (List.mem_of_mem_filter hb) hid

theorem SameButOrder.dueReport (item : ExecutionItem) : dueReport s item = dueReport s' item := by
  unfold Jam.dueReport
  rw [hsame.candidateForWork, hsame.works]

theorem SameButOrder.blockPreimages
    (hnodup : (s.pendingPreimages.toList.map PendingPreimage.key).Nodup) :
    blockPreimages s = blockPreimages s' := by
  unfold Jam.blockPreimages pendingPreimageBatch
  rw [hsame.preimagesPaused, sortByKey_eq_of_perm hsame.preimages]
  -- The sort key is the key of the index, field by field.
  intro a ha b hb heq
  refine List.inj_on_of_nodup_map hnodup ha hb ?_
  obtain ⟨hrequester, hrest⟩ := Prod.mk.inj (toLex.injective heq)
  obtain ⟨hhash, hlen⟩ := Prod.mk.inj (toLex.injective hrest)
  unfold PendingPreimage.key PreimageKeyV1.ofMetadata
  rw [UInt32.toNat_inj.mp hrequester, FixedBytes.key_injective hhash, UInt32.toNat_inj.mp hlen]

theorem SameButOrder.sortedSystemOps
    (hnodup : (s.pendingSystemOps.toList.map PendingSystemOp.requestId).Nodup) :
    sortedSystemOps s = sortedSystemOps s' := by
  unfold Jam.sortedSystemOps
  rw [sortByKey_eq_of_perm hsame.systemOps]
  intro a ha b hb heq
  refine List.inj_on_of_nodup_map hnodup ha hb ?_
  obtain ⟨-, hrest⟩ := Prod.mk.inj (toLex.injective heq)
  exact FixedBytes.key_injective (Prod.mk.inj (toLex.injective hrest)).2

/-- Whatever the orders in which the two maps are iterated. -/
theorem SameButOrder.allocationsIn
    (hids : ∀ id pending, s.pendingAllocations.lookup id = some pending →
      pending.allocation.allocationId = id)
    {order order' : List UInt64 → List UInt64} (horder : ∀ ids, (order ids).Perm ids)
    (horder' : ∀ ids, (order' ids).Perm ids) : allocationsIn order s = allocationsIn order' s' := by
  unfold Jam.allocationsIn
  refine sortByKey_eq_of_perm ((StorageMap.iter_perm horder horder' hsame.allocations).map _) ?_
  intro a ha b hb heq
  obtain ⟨⟨id, _⟩, hid, rfl⟩ := List.mem_map.mp ha
  obtain ⟨⟨id', _⟩, hid', rfl⟩ := List.mem_map.mp hb
  rw [StorageMap.mem_iter horder] at hid hid'
  have hkey : id = id' := by
    rw [← hids _ _ hid, ← hids _ _ hid']
    exact UInt64.toNat_inj.mp heq
  subst hkey
  exact Option.some.inj (hid.symm.trans hid')

theorem SameButOrder.allocationInputOp (encoded : Bytes) :
    allocationInputOp s encoded = allocationInputOp s' encoded := by
  have hop : allocationSystemOp s = allocationSystemOp s' := by
    funext allocation
    unfold allocationSystemOp
    rw [hsame.protocolState]
  unfold Jam.allocationInputOp
  rw [hop]

end

section
variable [DecidableEq AccountId] {h : Chain.History T}

/-- In a state that a run reaches, with room for all items that are due, the input of the
virtual block is the one that is built from any other storage with the same entries in other
orders. The same allocations come out whatever the order in which the map is iterated. -/
theorem execution_input_order_free (hr : Chain.Run T h s) (hsame : SameButOrder block s s')
    (hripe : (s.ripe block).length ≤ T.maxExecutionReports.toNat) :
    executionInput s block (dueItems s block) = executionInput s' block (dueItems s' block) ∧
      (∀ input input', executionInput s block (dueItems s block) = .ok input →
        executionInput s' block (dueItems s' block) = .ok input' →
        input.computeInputHash T.workers.crypto = input'.computeInputHash T.workers.crypto) ∧
      ∀ order, (∀ ids, (order ids).Perm ids) →
        allocationsIn order s = getPendingAllocations s ∧
        allocationsIn order s' = getPendingAllocations s := by
  have hids := pendingAllocation_id hr
  have horder := T.workers.iterOrder_perm
  have hops : blockSystemOps s = blockSystemOps s' := by
    have hsorted := hsame.sortedSystemOps (systemOps_indexed hr).nodup
    have hinputs : pendingAllocationInputs s = pendingAllocationInputs s' :=
      congrArg (List.map _) (hsame.allocationsIn hids horder horder)
    unfold blockSystemOps pendingSystemOpsBatch
    rw [hsame.systemOpsPaused, hsorted, hinputs, funext hsame.allocationInputOp]
  have hinput : executionInput s block (dueItems s block) =
      executionInput s' block (dueItems s' block) := by
    have hdue := hsame.dueItems (workBook_sound hr).queue_nodup hripe
    have hpreimages := hsame.blockPreimages (preimages_indexed hr).nodup
    unfold executionInput hostParentStateRoot
    rw [hdue, funext hsame.dueReport, hpreimages, hops, hsame.parent]
  refine ⟨hinput, ?_, ?_⟩
  · intro input input' hok hok'
    rw [hinput, hok'] at hok
    cases hok
    rfl
  · intro order horder'
    have hself : SameButOrder block s s :=
      ⟨.refl _, .refl _, .refl _, fun _ => rfl, fun _ => rfl, fun _ => rfl, fun _ => rfl, rfl, rfl,
        rfl, rfl⟩
    exact ⟨hself.allocationsIn hids horder' horder, (hsame.allocationsIn hids horder horder').symm⟩

end

/-! ### Two runs -/

instance [DecidableEq AccountId] (block : BlockNumber) (s s' : State T) :
    Decidable (SameButOrder block s s') :=
  decidable_of_iff' _ (sameButOrder_iff block s s')

open Reference

/-- The reference runtime with room for two works in a round. -/
abbrev twoWorks : Config AccountId32 Reference.Ledger :=
  { runtime consumeAll with
    workers := { (runtime consumeAll).workers with maxWorksPerRound := 2 } }

/-- The votes on the works 0 and 1, each counted before the other comes. -/
def votes : Fin 2 → List (Action twoWorks)
  | 0 => (voteThrough 0 2 1).drop 1 ++ [.jamOnInitialize 1]
  | 1 => (voteThrough 1 2 2).drop 1 ++ [.jamOnInitialize 1]

/-- A preimage, an operation of a relayer and an allocation. -/
def ingress : Fin 2 → List (Action twoWorks)
  | 0 => [.extrinsic (.signed alice) (.submitPreimage (BoundedVec.takeFrom [1])),
      .extrinsic (.signed alice) (.submitSystemOp
        (.createService (FixedBytes.fill 32 9) 1 1 1)),
      .extrinsic (.signed bob) (.submitAllocation ⟨1, 1, 1⟩)]
  | 1 => [.extrinsic .root (.setIngressRelayer bob),
      .extrinsic (.signed bob) (.submitPreimage (BoundedVec.takeFrom [2])),
      .extrinsic (.signed bob) (.submitSystemOp
        (.createService (FixedBytes.fill 32 9) 1 1 1)),
      .extrinsic (.signed bob) (.submitAllocation ⟨2, 1, 1⟩),
      .extrinsic .root (.setIngressRelayer alice)]

/-- Two works, and the rest in the order of two indices. -/
def arrivals (i j : Fin 2) : List (Action twoWorks) :=
  (voteThrough 0 2 1).take 1 ++ (voteThrough 1 2 2).take 1 ++
    votes i ++ votes j ++ ingress i ++ ingress j

/-- What stands in the four collections: works, preimages, submitters and allocation ids. -/
def contents (s : State twoWorks) :
    List WorkId × List Bytes × List AccountId32 × List UInt64 :=
  (s.executionQueue.toList.map ExecutionItem.workId,
    s.pendingPreimages.toList.map (fun pending => pending.canonical.toList),
    s.pendingSystemOps.toList.map PendingSystemOp.submitter, s.pendingAllocations.keys)

/-- The same entries arrive in two orders, and the inputs are the same. -/
theorem execution_input_order_free_arrivals : ∃ h s h' s', Chain.Run twoWorks h s ∧
    Chain.Run twoWorks h' s' ∧
    contents s = ([0, 1], [[1], [2]], [alice, bob], [2, 1]) ∧
    contents s' = ([1, 0], [[2], [1]], [bob, alice], [1, 2]) ∧
    (s.ripe 50).length = 2 ∧ (executionInput s 50 (dueItems s 50)).toBool = true ∧
    executionInput s 50 (dueItems s 50) = executionInput s' 50 (dueItems s' 50) := by
  obtain ⟨h, s, h', s', hrun, hrun', hsame, hcontents, hcontents', hripe, hbuilt⟩ :=
    exists_runs twoWorks (arrivals 0 1) (arrivals 1 0)
    (fun s s' => SameButOrder 50 s s' ∧
      contents s = ([0, 1], [[1], [2]], [alice, bob], [2, 1]) ∧
      contents s' = ([1, 0], [[2], [1]], [bob, alice], [1, 2]) ∧
      (s.ripe 50).length = 2 ∧ (executionInput s 50 (dueItems s 50)).toBool = true)
    (by decide +kernel)
  have hroom : (s.ripe 50).length ≤ twoWorks.maxExecutionReports.toNat := by
    rw [hripe]
    decide
  exact ⟨h, s, h', s', hrun, hrun', hcontents, hcontents', hripe, hbuilt,
    (execution_input_order_free hrun hsame hroom).1⟩

end MiniJam.Jam
