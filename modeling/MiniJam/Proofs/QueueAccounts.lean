import MiniJam.Lib.Balance
import MiniJam.Proofs.IngressSteps
import MiniJam.Proofs.SystemBatch

/-!
# `MiniJam.Proofs.QueueAccounts`: where queued operations and preimages go

A system operation enters by a successful `submit_system_op` and leaves when a committed block
consumes it or root takes it out of the quarantine. A preimage enters by `submit_preimage` and
leaves when a committed block consumes it. In between both are pending or quarantined. Each step
balances (`KeyedQueue.Moves.balance`), and so does a run (`Trace.balance`).

The move into a quarantine is the one step that can lose something. The hook takes the pending
items out of their queue first and then pushes them one by one. What finds no room is dropped
(`quarantine_overflow_loses`). Where there is room, nothing disappears (`queued_items_accounted`).
-/

set_option autoImplicit false

namespace MiniJam.Jam

open KeyedQueue

variable {AccountId Ledger : Type} {T : Config AccountId Ledger} {s s' : State T}
  {block : BlockNumber}

/-! ### What is stored -/

/-- The stored operations, with their multiplicity. -/
def State.storedOps (s : State T) : Multiset SystemOpV2 := s.pendingOps + s.quarantinedOps

def State.pendingPreimageList (s : State T) : List PreimageKeyV1 :=
  s.pendingPreimages.toList.map PendingPreimage.key

def State.quarantinedPreimageList (s : State T) : List PreimageKeyV1 :=
  s.quarantinedPreimages.toList.map fun quarantined => .ofMetadata quarantined.metadata

/-- The stored preimages, with their multiplicity. -/
def State.storedPreimages (s : State T) : Multiset PreimageKeyV1 :=
  s.pendingPreimageList + s.quarantinedPreimageList

/-! ### Nonces and request ids -/

section
variable [DecidableEq AccountId]

/-- Every nonce that was given to an operation is below the largest one. -/
def NoncesBelowMax (h : Chain.History T) : Prop :=
  ∀ op ∈ h.flatMap queuedOps, op.nonce.toNat < 2 ^ 64 - 1

instance (h : Chain.History T) : Decidable (NoncesBelowMax h) :=
  List.decidableBAll _ _

/-- The messages that the submissions of a history hash into request ids. -/
def requestMessages (h : Chain.History T) : Set Bytes :=
  { message | ∃ op ∈ h.flatMap queuedOps,
    message = SystemOpV2.requestPayload op.submitter op.nonce op.command }

/-- The operations queued so far: their ids are computed from their fields, their nonces are
below the next one of their sender, and no two have the same sender and nonce. -/
structure OpsNumbered (h : Chain.History T) (s : State T) : Prop where
  eq_new : ∀ op ∈ h.flatMap queuedOps,
    op = SystemOpV2.new T.workers.crypto op.submitter op.nonce op.command
  below : ∀ op ∈ h.flatMap queuedOps, op.nonce.toNat < (s.systemOpNonce op.submitter).toNat
  distinct : (h.flatMap queuedOps).Pairwise fun op op' =>
    (op.submitter, op.nonce) ≠ (op'.submitter, op'.nonce)

omit [DecidableEq AccountId] in
theorem systemOpNonce_of_insert {sender sender' : FixedBytes 32} {nonce : UInt64}
    (h : s'.systemOpNonces = s.systemOpNonces.insert sender nonce) :
    s'.systemOpNonce sender' = if sender' = sender then nonce else s.systemOpNonce sender' := by
  unfold State.systemOpNonce
  rw [h, StorageMap.lookup_insert_eq]
  split_ifs
  · rfl
  · rfl

variable {h : Chain.History T}

omit [DecidableEq AccountId] in
theorem OpsNumbered.step (ho : OpsNumbered h s) {l : Chain.Label T} (hstep : IngressStep ⟨s, l, s'⟩)
    (hmax : NoncesBelowMax (⟨s, l, s'⟩ :: h)) : OpsNumbered (⟨s, l, s'⟩ :: h) s' := by
  have hcases := hstep.nonces
  dsimp only at hcases
  rcases hcases with ⟨hnonces, hqueued⟩ | ⟨who, command, -, hqueued, hnonces⟩
  · have hops : List.flatMap queuedOps (⟨s, l, s'⟩ :: h) = h.flatMap queuedOps := by
      rw [List.flatMap_cons, hqueued, List.nil_append]
    refine ⟨by rw [hops]; exact ho.eq_new, ?_, by rw [hops]; exact ho.distinct⟩
    rw [hops]
    unfold State.systemOpNonce
    rw [hnonces]
    exact ho.below
  · have hops : List.flatMap queuedOps (⟨s, l, s'⟩ :: h) =
        s.nextSystemOp who command :: h.flatMap queuedOps := by
      rw [List.flatMap_cons, hqueued, List.singleton_append]
    have hbelow := hmax (s.nextSystemOp who command) (by rw [hops]; exact List.mem_cons_self)
    have hnext : ((s.systemOpNonce (systemOpSender T who)).satAdd 1).toNat =
        (s.systemOpNonce (systemOpSender T who)).toNat + 1 := UInt64.toNat_satAdd_one hbelow
    refine ⟨?_, ?_, ?_⟩
    · rw [hops]
      intro op hop
      rcases List.mem_cons.mp hop with rfl | hop
      · rfl
      · exact ho.eq_new op hop
    · rw [hops]
      intro op hop
      rw [systemOpNonce_of_insert hnonces]
      rcases List.mem_cons.mp hop with rfl | hop
      · rw [if_pos (show (s.nextSystemOp who command).submitter = systemOpSender T who from rfl),
          hnext]
        exact Nat.lt_succ_self _
      · have := ho.below op hop
        split_ifs with hsender
        · rw [hsender] at this
          omega
        · exact this
    · rw [hops]
      refine List.pairwise_cons.mpr ⟨?_, ho.distinct⟩
      intro op hop heq
      -- The new operation has the nonce that all earlier ones of its sender are below.
      obtain ⟨hsubmitter, hnonce⟩ := Prod.mk.injEq .. ▸ heq
      have := ho.below op hop
      rw [← hsubmitter, ← hnonce] at this
      exact lt_irrefl _ this

theorem opsNumbered_of_run (hr : Chain.Run T h s) (hmax : NoncesBelowMax h) : OpsNumbered h s := by
  revert hmax
  refine hr.invariant (I := fun h s => NoncesBelowMax h → OpsNumbered h s) ?_ ?_
  · intro s _ _
    exact ⟨nofun, nofun, List.Pairwise.nil⟩
  · intro h s l s' ih hstep hmax
    have hbefore : NoncesBelowMax h := fun op hop =>
      hmax op (List.flatMap_cons ▸ List.mem_append_right _ hop)
    exact (ih hbefore).step (ingressStep_of_step hstep) hmax

omit [DecidableEq AccountId] in
/-- Without a collision among the hashed messages, queued operations have different ids. -/
theorem OpsNumbered.nodup_requestIds (ho : OpsNumbered h s)
    (hhash : Set.InjOn T.workers.crypto.blake2_256 (requestMessages h)) :
    ((h.flatMap queuedOps).map SystemOpV2.requestId).Nodup := by
  rw [List.Nodup, List.pairwise_map]
  refine ho.distinct.imp_of_mem ?_
  intro op op' hop hop' hne heq
  rw [ho.eq_new op hop, ho.eq_new op' hop'] at heq
  have hpayload := hhash ⟨op, hop, rfl⟩ ⟨op', hop', rfl⟩ heq
  obtain ⟨hsubmitter, hnonce⟩ := SystemOpV2.requestPayload_inj hpayload
  exact hne (by rw [hsubmitter, hnonce])

/-! ### Nothing disappears -/

/-- The account of the system operations over a run. -/
theorem systemOps_accounted (hr : Chain.Run T h s) : ∃ lost : Multiset SystemOpV2,
    s.storedOps + (h.flatMap consumedOps : List SystemOpV2) +
      (h.flatMap removedOps : List SystemOpV2) + lost = (h.flatMap queuedOps : List SystemOpV2) ∧
    ((∀ t ∈ h, QuarantineRoom t) → lost = 0) := by
  have hgenesis : ∀ s : State T, Chain.Genesis T s → s.storedOps = 0 := by
    intro s hs
    obtain ⟨_, hstored⟩ := genesis_initial hs State.storedOps fun _ _ => rfl
    exact hstored
  obtain ⟨lost, hlost, hspared⟩ := Trace.balance State.storedOps queuedOps
    (fun t => consumedOps t ++ removedOps t) QuarantineRoom hgenesis (fun s l s' hstep => by
      obtain ⟨lost, hmoves, hspared⟩ := (ingressStep_of_step hstep).systemOps
      exact ⟨lost, hmoves.balance, fun hroom => congrArg _ (hspared hroom)⟩) hr
  rw [Multiset.coe_flatMap_append, ← add_assoc] at hlost
  exact ⟨lost, hlost, hspared⟩

/-- The account of the preimages over a run. -/
theorem preimages_accounted (hr : Chain.Run T h s) : ∃ lost : Multiset PreimageKeyV1,
    s.storedPreimages + (h.flatMap consumedPreimages : List PreimageKeyV1) + lost =
      (h.flatMap queuedPreimages : List PreimageKeyV1) ∧
    ((∀ t ∈ h, QuarantineRoom t) → lost = 0) := by
  refine Trace.balance State.storedPreimages queuedPreimages consumedPreimages QuarantineRoom
    ?_ ?_ hr
  · intro s hs
    obtain ⟨_, hstored⟩ := genesis_initial hs State.storedPreimages fun _ _ => rfl
    exact hstored
  · intro s l s' hstep
    obtain ⟨lost, hmoves, hspared⟩ := (ingressStep_of_step hstep).preimages
    exact ⟨lost, hmoves.balance, fun hroom => congrArg _ (hspared hroom)⟩

/-- In every run in which each failed block finds room in the quarantine it moves a queue
into: the request ids announced so far are pairwise different, and each of the operations is
in exactly one place, pending, quarantined, consumed by a committed block or taken out by
root; and each announced preimage is pending, quarantined or consumed by a committed block,
counted as often as it was announced. -/
theorem queued_items_accounted (h : Chain.History T) (s : State T)
    (hr : Chain.Run T h s) (hnonces : NoncesBelowMax h)
    (hhash : Set.InjOn T.workers.crypto.blake2_256 (requestMessages h))
    (hroom : ∀ t ∈ h, QuarantineRoom t) :
    ((h.flatMap queuedOps).map SystemOpV2.requestId).Nodup ∧
    ((h.flatMap queuedOps : List SystemOpV2) : Multiset SystemOpV2) =
      s.pendingOps + s.quarantinedOps + (h.flatMap consumedOps : List SystemOpV2) +
        (h.flatMap removedOps : List SystemOpV2) ∧
    ((h.flatMap queuedPreimages : List PreimageKeyV1) : Multiset PreimageKeyV1) =
      s.pendingPreimageList + s.quarantinedPreimageList +
        (h.flatMap consumedPreimages : List PreimageKeyV1) := by
  refine ⟨(opsNumbered_of_run hr hnonces).nodup_requestIds hhash, ?_, ?_⟩
  · obtain ⟨lost, hlost, hspared⟩ := systemOps_accounted hr
    rw [← hlost, hspared hroom, add_zero]
    rfl
  · obtain ⟨lost, hlost, hspared⟩ := preimages_accounted hr
    rw [← hlost, hspared hroom, add_zero]
    rfl

/-! ### Runs with a failing block -/

/-- Different request ids leave no collision among the hashed messages. -/
theorem injOn_requestMessages (hr : Chain.Run T h s) (hnonces : NoncesBelowMax h)
    (hids : ((h.flatMap queuedOps).map SystemOpV2.requestId).Nodup) :
    Set.InjOn T.workers.crypto.blake2_256 (requestMessages h) := by
  have ho := opsNumbered_of_run hr hnonces
  rintro _ ⟨op, hop, rfl⟩ _ ⟨op', hop', rfl⟩ heq
  have hid : op.requestId = op'.requestId := by
    rw [ho.eq_new op hop, ho.eq_new op' hop']
    exact heq
  rw [List.inj_on_of_nodup_map hids hop hop' hid]

end

open Reference

/-- An executor that every block fails in. -/
abbrev failing : Config AccountId32 Reference.Ledger :=
  runtime (refuse (.execution .trap))

/-- An operation that fails twice, with a retry in between, and a preimage. -/
theorem queued_items_accounted_retried : ∃ h s, Chain.Run failing h s ∧ NoncesBelowMax h ∧
    Set.InjOn failing.workers.crypto.blake2_256 (requestMessages h) ∧
    (∀ t ∈ h, QuarantineRoom t) ∧ s.quarantinedOps.length = 1 ∧
    s.pendingPreimageList.length = 1 ∧
    ((h.flatMap queuedOps : List SystemOpV2) : Multiset SystemOpV2) =
      s.pendingOps + s.quarantinedOps + (h.flatMap consumedOps : List SystemOpV2) +
        (h.flatMap removedOps : List SystemOpV2) := by
  obtain ⟨h, s, hrun, hnonces, hids, hroom, hquarantined, hpreimage⟩ :=
    exists_history failing
    [.extrinsic (.signed alice) (.submitSystemOp createService),
      .extrinsic (.signed alice) (.submitPreimage (BoundedVec.takeFrom [7])),
      .onFinalize 1,
      .extrinsic .root (.retryQuarantinedSystemOp (SystemOpV2.computeRequestId crypto
        (systemOpSender failing alice) 0 createService)),
      .onFinalize 2]
    (fun h s => NoncesBelowMax h ∧ ((h.flatMap queuedOps).map SystemOpV2.requestId).Nodup ∧
      (∀ t ∈ h, QuarantineRoom t) ∧ s.quarantinedOps.length = 1 ∧
      s.pendingPreimageList.length = 1) (by decide +kernel)
  have hhash := injOn_requestMessages hrun hnonces hids
  exact ⟨h, s, hrun, hnonces, hhash, hroom, hquarantined, hpreimage,
    (queued_items_accounted h s hrun hnonces hhash hroom).2.1⟩

/-- Sixty-four operations that fail together and fill the quarantine, and one more that
fails after them. -/
def overflowingOps : List (Action failing) :=
  List.replicate 64 (.extrinsic (.signed alice) (.submitSystemOp createService)) ++
  [.onFinalize 1, .extrinsic (.signed alice) (.submitSystemOp createService),
    .onFinalize 2]

/-- The last of them was announced and is nowhere. -/
theorem quarantine_overflow_loses : ∃ h s op, Chain.Run failing h s ∧ NoncesBelowMax h ∧
    Set.InjOn failing.workers.crypto.blake2_256 (requestMessages h) ∧
    op ∈ h.flatMap queuedOps ∧ op ∉ s.pendingOps ∧ op ∉ s.quarantinedOps ∧
    op ∉ h.flatMap consumedOps ∧ op ∉ h.flatMap removedOps := by
  obtain ⟨h, s, hrun, hnonces, hids, op, hop, hnowhere⟩ :=
    exists_history failing overflowingOps
    (fun h s => NoncesBelowMax h ∧ ((h.flatMap queuedOps).map SystemOpV2.requestId).Nodup ∧
      ∃ op ∈ (h.flatMap queuedOps).head?, op ∉ s.pendingOps ∧ op ∉ s.quarantinedOps ∧
        op ∉ h.flatMap consumedOps ∧ op ∉ h.flatMap removedOps) (by decide +kernel)
  exact ⟨h, s, op, hrun, hnonces, injOn_requestMessages hrun hnonces hids,
    List.mem_of_mem_head? hop, hnowhere⟩

end MiniJam.Jam
