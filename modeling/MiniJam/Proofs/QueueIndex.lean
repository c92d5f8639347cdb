import MiniJam.Proofs.QueueAccounts

/-!
# `MiniJam.Proofs.QueueIndex`: the queues and their key indices agree

A map beside each queue holds the keys that are in it, and a submission is refused when its key is
there. Submission, retry, consumption, quarantining and the two removals by root, which touch the
quarantine alone, write the queue and the map of the system operations, and the two agree after
each of them (`KeyedQueue.Moves.indexed`).

That no pending operation is also in the quarantine is a matter of the accounts: all stored
operations were queued once, and queued operations have different request ids.
-/

set_option autoImplicit false

namespace MiniJam.Jam

open KeyedQueue

variable {AccountId Ledger : Type} {T : Config AccountId Ledger} {s s' : State T}
  {block : BlockNumber}

/-- The index of the pending system operations holds their request ids. -/
abbrev State.SystemOpsIndexed (s : State T) : Prop :=
  Indexed PendingSystemOp.requestId s.pendingSystemOps.toList s.pendingSystemOpKeys

/-- The index of the pending preimages holds their keys. -/
abbrev State.PreimagesIndexed (s : State T) : Prop :=
  Indexed PendingPreimage.key s.pendingPreimages.toList s.pendingPreimageKeys

/-! ### Whole runs -/

variable [DecidableEq AccountId]

variable {h : Chain.History T}

/-- In every state that is reached the two queues agree with their indices. -/
theorem systemOps_indexed (hr : Chain.Run T h s) : s.SystemOpsIndexed := by
  induction hr with
  | start hs =>
    obtain ⟨_, hstore⟩ := genesis_initial hs State.opStore fun _ _ => rfl
    show Indexed _ (State.opStore _).queue (State.opStore _).index
    rw [hstore]
    exact Indexed.nil
  | extend _ hstep ih =>
    obtain ⟨_, hmoves, -⟩ := (ingressStep_of_step hstep).systemOps
    exact hmoves.indexed ih

theorem preimages_indexed (hr : Chain.Run T h s) : s.PreimagesIndexed := by
  induction hr with
  | start hs =>
    obtain ⟨_, hstore⟩ := genesis_initial hs State.preimageStore fun _ _ => rfl
    show Indexed _ (State.preimageStore _).queue (State.preimageStore _).index
    rw [hstore]
    exact Indexed.nil
  | extend _ hstep ih =>
    obtain ⟨_, hmoves, -⟩ := (ingressStep_of_step hstep).preimages
    exact hmoves.indexed ih

/-- Every stored operation was queued, as often as it is stored. -/
theorem storedOps_le_queued (hr : Chain.Run T h s) :
    ((s.pendingOps ++ s.quarantinedOps : List SystemOpV2) : Multiset SystemOpV2) ≤
      (h.flatMap queuedOps : List SystemOpV2) := by
  obtain ⟨lost, hlost, -⟩ := systemOps_accounted hr
  rw [← hlost, ← Multiset.coe_add, add_assoc, add_assoc]
  exact Multiset.le_add_right _ _

theorem mem_queuedOps_of_stored (hr : Chain.Run T h s) {op : SystemOpV2}
    (hop : op ∈ s.pendingOps ++ s.quarantinedOps) : op ∈ h.flatMap queuedOps :=
  Multiset.mem_coe.mp (Multiset.mem_of_le (storedOps_le_queued hr) (Multiset.mem_coe.mpr hop))

/-- What distinguishes the queued operations distinguishes the stored ones. -/
theorem nodup_storedOps (hr : Chain.Run T h s) {β : Type} {f : SystemOpV2 → β}
    (hf : ((h.flatMap queuedOps).map f).Nodup) :
    ((s.pendingOps ++ s.quarantinedOps).map f).Nodup := by
  rw [← Multiset.coe_nodup, ← Multiset.map_coe] at hf ⊢
  exact Multiset.nodup_of_le (Multiset.map_le_map (storedOps_le_queued hr)) hf

/-! ### One consume step -/

omit [DecidableEq AccountId] in
/-- Consuming system operations succeeds, removes the named ones, keeps all others and keeps
the index in step. -/
theorem consumeSystemOps_exact (hi : s.SystemOpsIndexed) (consumed : List Hash) :
    ∃ s', consumeSystemOps consumed s = .ok () s' ∧
      s'.pendingSystemOps.toList.Perm
        (s.pendingSystemOps.toList.filter fun pending => !consumesSystemOp consumed pending) ∧
      s'.SystemOpsIndexed := by
  have hok : ∃ s', consumeSystemOps consumed s = .ok () s' := by
    unfold consumeSystemOps
    split_ifs
    · exact ⟨_, rfl⟩
    · exact ⟨_, rfl⟩
  obtain ⟨s', h⟩ := hok
  obtain ⟨removed, hdrained⟩ := consumeSystemOps_drained h
  exact ⟨s', h, hdrained.perm_filter.1, hdrained.indexed hi⟩

omit [DecidableEq AccountId] in
theorem consumePreimages_exact (hi : s.PreimagesIndexed) (consumed : List Hash) :
    ∃ s', consumePreimages consumed s = .ok () s' ∧
      s'.pendingPreimages.toList.Perm
        (s.pendingPreimages.toList.filter fun pending => !consumesPreimage T consumed pending) ∧
      s'.PreimagesIndexed := by
  have hok : ∃ s', consumePreimages consumed s = .ok () s' := by
    unfold consumePreimages
    split_ifs
    · exact ⟨_, rfl⟩
    · exact ⟨_, rfl⟩
  obtain ⟨s', h⟩ := hok
  obtain ⟨removed, hdrained⟩ := consumePreimages_drained h
  exact ⟨s', h, hdrained.perm_filter.1, hdrained.indexed hi⟩

/-! ### The queues and the indices -/

/-- In every state that is reached: the keys of each index are the keys of its queue, which
are pairwise different; the pending request ids are not in the quarantine; the id of every
stored operation is the hash of its fields; and one consume step takes exactly the named
entries out. -/
theorem queues_agree_with_indices (h : Chain.History T)
    (s : State T) (hr : Chain.Run T h s) (hnonces : NoncesBelowMax h)
    (hhash : Set.InjOn T.workers.crypto.blake2_256 (requestMessages h)) :
    (∀ id, s.pendingSystemOpKeys.contains id = true ↔
      id ∈ s.pendingOps.map SystemOpV2.requestId) ∧
    (s.pendingOps.map SystemOpV2.requestId).Nodup ∧
    (s.pendingOps.map SystemOpV2.requestId).Disjoint
      (s.quarantinedOps.map SystemOpV2.requestId) ∧
    (∀ op ∈ s.pendingOps ++ s.quarantinedOps, op.requestIdMatches T.workers.crypto = true) ∧
    (∀ key, s.pendingPreimageKeys.contains key = true ↔ key ∈ s.pendingPreimageList) ∧
    s.pendingPreimageList.Nodup ∧
    (∀ consumed, ∃ s', consumeSystemOps consumed s = .ok () s' ∧
      s'.pendingSystemOps.toList.Perm
        (s.pendingSystemOps.toList.filter fun pending => !consumesSystemOp consumed pending) ∧
      s'.SystemOpsIndexed) ∧
    (∀ consumed, ∃ s', consumePreimages consumed s = .ok () s' ∧
      s'.pendingPreimages.toList.Perm
        (s.pendingPreimages.toList.filter fun pending => !consumesPreimage T consumed pending) ∧
      s'.PreimagesIndexed) := by
  have hnumbered := opsNumbered_of_run hr hnonces
  have hnodup := nodup_storedOps hr (hnumbered.nodup_requestIds hhash)
  rw [List.map_append] at hnodup
  have hops := systemOps_indexed hr
  have hpreimages := preimages_indexed hr
  have hids : s.pendingSystemOps.toList.map PendingSystemOp.requestId =
      s.pendingOps.map SystemOpV2.requestId := by
    unfold State.pendingOps
    rw [List.map_map]
    rfl
  refine ⟨fun id => ?_, (List.nodup_append.mp hnodup).1, List.disjoint_of_nodup_append hnodup,
    fun op hop => ?_, hpreimages.contains_iff, hpreimages.nodup,
    consumeSystemOps_exact hops, consumePreimages_exact hpreimages⟩
  · rw [← hids]
    exact hops.contains_iff id
  · -- A queued operation was built by `new`, which computes the id.
    have hnew := hnumbered.eq_new op (mem_queuedOps_of_stored hr hop)
    unfold SystemOpV2.requestIdMatches
    rw [decide_eq_true_iff]
    exact congrArg SystemOpV2.requestId hnew

open Reference

/-- An operation in each queue, and a preimage. -/
theorem queues_agree_with_indices_mixed : ∃ h s, Chain.Run failing h s ∧ NoncesBelowMax h ∧
    Set.InjOn failing.workers.crypto.blake2_256 (requestMessages h) ∧
    s.pendingOps.length = 1 ∧ s.quarantinedOps.length = 1 ∧ s.pendingPreimageList.length = 1 ∧
    (s.pendingOps.map SystemOpV2.requestId).Disjoint
      (s.quarantinedOps.map SystemOpV2.requestId) := by
  obtain ⟨h, s, hrun, hnonces, hids, hpending, hquarantined, hpreimage⟩ :=
    exists_history failing
    [.extrinsic (.signed alice) (.submitSystemOp createService),
      .onFinalize 1,
      .extrinsic (.signed alice) (.submitSystemOp createService),
      .extrinsic (.signed alice) (.submitPreimage (BoundedVec.takeFrom [7]))]
    (fun h s => NoncesBelowMax h ∧ ((h.flatMap queuedOps).map SystemOpV2.requestId).Nodup ∧
      s.pendingOps.length = 1 ∧ s.quarantinedOps.length = 1 ∧
      s.pendingPreimageList.length = 1) (by decide +kernel)
  have hhash := injOn_requestMessages hrun hnonces hids
  exact ⟨h, s, hrun, hnonces, hhash, hpending, hquarantined, hpreimage,
    (queues_agree_with_indices h s hrun hnonces hhash).2.2.1⟩

end MiniJam.Jam
