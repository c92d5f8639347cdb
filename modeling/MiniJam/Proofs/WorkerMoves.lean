import MiniJam.Proofs.Registry
import MiniJam.Proofs.Selection

/-!
# `MiniJam.Proofs.WorkerMoves`: what a step of the pallet does to its workers

`WorkerView` is what the pallet keeps about one worker: its record, a scheduled update, an
unbonding chunk, and the amounts the log says were released to it. `WorkersMove` lists what a step
does to the workers. It is proved once for every action, and the invariants of the following
modules are read off it.

An epoch boundary goes over all workers in the order of the storage back end. An iteration touches
its own worker only, so the boundary is stated worker by worker and the order does not occur: the
update that is due is applied (`WorkerView.applyDue`), and then the chunk that is due may be
released (`ReleasedAt`).
-/

set_option autoImplicit false

namespace MiniJam.Workers

variable {AccountId Ledger : Type} {T : Config AccountId Ledger} {s s' : State T}

/-! ### One worker -/

/-- What an event says was released to a worker. -/
def Event.releaseOf (id : WorkerId) : Event T → Option Balance
  | .stakeReleased id' amount => if id' = id then some amount else none
  | _ => none

/-- The amounts that were released to a worker according to some events. -/
def released (events : List (Event T)) (id : WorkerId) : List Balance :=
  events.filterMap (Event.releaseOf id)

theorem released_append (events events' : List (Event T)) (id : WorkerId) :
    released (events ++ events') id = released events id ++ released events' id :=
  List.filterMap_append

/-- What the pallet keeps about one worker. -/
@[ext] structure WorkerView (AccountId : Type) where
  record : Option (WorkerRecord AccountId)
  pending : Option PendingWorkerUpdate
  chunk : Option UnbondingChunk
  released : List Balance

def State.worker (s : State T) (id : WorkerId) : WorkerView AccountId where
  record := s.workers.lookup id
  pending := s.pendingUpdates.lookup id
  chunk := s.unbonding.lookup id
  released := Workers.released s.events id

/-- An event that releases nothing to the worker. -/
theorem released_quiet {e : Event T} {id : WorkerId} (he : e.releaseOf id = none)
    (events : List (Event T)) : released (events ++ [e]) id = released events id := by
  rw [released_append]
  simp [released, he]

/-- What is written about duties is not about workers. -/
theorem worker_of_duties (h : dutyItems.Within s s') (id : WorkerId) :
    s'.worker id = s.worker id :=
  h.unchanged (fun s => s.worker id) fun _ _ => rfl

/-! ### Stakes lost in a settlement -/

/-- The worker has lost stake at most. -/
def Docked (v v' : WorkerView AccountId) : Prop :=
  v' = v ∨ ∃ worker stake, v.record = some worker ∧
    v' = { v with record := some { worker with activeStake := stake } }

/-- A worker may be docked several times. -/
theorem Docked.trans {v₁ v₂ v₃ : WorkerView AccountId} (h₁ : Docked v₁ v₂) (h₂ : Docked v₂ v₃) :
    Docked v₁ v₃ := by
  rcases h₁ with rfl | ⟨worker, stake, hworker, rfl⟩
  · exact h₂
  · rcases h₂ with rfl | ⟨worker', stake', hworker', rfl⟩
    · exact Or.inr ⟨worker, stake, hworker, rfl⟩
    · cases hworker'
      exact Or.inr ⟨worker, stake', hworker, rfl⟩

/-- Votes and rounds were written, and workers have lost stake at most. -/
structure Docks (s s' : State T) : Prop where
  within : settleItems.Within s s'
  docked : ∀ id, Docked (s.worker id) (s'.worker id)

instance : Std.Refl (Docks (T := T)) := ⟨fun _ => ⟨rfl, fun _ => Or.inl rfl⟩⟩

instance : IsTrans (State T) Docks where
  trans _ _ _ h₁ h₂ :=
    ⟨IsTrans.trans _ _ _ h₁.within h₂.within, fun id => (h₁.docked id).trans (h₂.docked id)⟩

/-- Workers that are the same. -/
theorem Docks.of_same (hwithin : settleItems.Within s s') (h : ∀ id, s'.worker id = s.worker id) :
    Docks s s' := ⟨hwithin, fun id => Or.inl (h id)⟩

/-- An event that releases nothing is logged. -/
theorem Docks.of_event {e : Event T} (he : ∀ id, e.releaseOf id = none)
    (hwithin : settleItems.Within s s')
    (h : ∀ id, s'.worker id =
      { s.worker id with released := Workers.released (s.events ++ [e]) id }) : Docks s s' := by
  refine .of_same hwithin fun id => (h id).trans ?_
  rw [released_quiet (he id)]
  rfl

/-- A worker's stake is written. -/
theorem docks_of_stake {id : WorkerId} {worker : WorkerRecord AccountId}
    (hworker : s.workers.lookup id = some worker) (stake : Balance) :
    Docks s { s with workers := s.workers.insert id { worker with activeStake := stake } } := by
  refine ⟨rfl, fun id' => ?_⟩
  by_cases hid : id' = id
  · subst hid
    exact Or.inr ⟨worker, stake, hworker, WorkerView.ext (AList.lookup_insert _) rfl rfl rfl⟩
  · exact Or.inl (WorkerView.ext (AList.lookup_insert_ne hid) rfl rfl rfl)

theorem SettlementWrite.docks (h : SettlementWrite s s') : Docks s s' := by
  cases h with
  | close => exact .of_same rfl fun _ => rfl
  | @pay id =>
    exact .of_event (e := .voteRewardPaid id T.timelyVoteReward) (fun _ => rfl) rfl fun _ => rfl
  | @dock id worker ledger actual hworker =>
    refine IsTrans.trans _ _ _ (docks_of_stake hworker (worker.activeStake - actual)) ?_
    exact .of_event (e := .workerSlashed id actual) (fun _ => rfl) rfl fun _ => rfl
  | conclude k result =>
    exact .of_event (e := .votingFinalized k.1 k.2 result.decision) (fun _ => rfl) rfl fun _ => rfl

theorem finalizeVoting_docks (workId : WorkId) (round : AssignmentRound) :
    Tx.Rel Docks (finalizeVoting workId round : M T Unit) :=
  finalizeVoting_rel (fun _ _ h => h.docks) workId round

theorem finalizeDueVotes_docks (block : BlockNumber) :
    Tx.Rel Docks (finalizeDueVotes block : M T Unit) :=
  finalizeDueVotes_rel finalizeVoting_docks block

theorem submitVote_docks {origin : Origin AccountId} {workerId : WorkerId}
    {vote : WorkerVoteV1} {signature : Signature}
    (h : submitVote origin workerId vote signature s = .ok () s') : Docks s s' :=
  submitVote_rel (fun _ _ => .of_event (e := .voteSubmitted vote.workId vote.round workerId)
    (fun _ => rfl) rfl fun _ => rfl) (finalizeVoting_docks _ _) h

/-! ### Epoch boundaries -/

/-- The stake that a due update puts aside. -/
def PendingWorkerUpdate.reduction (update : PendingWorkerUpdate) (epoch : EpochIndex)
    (worker : WorkerRecord AccountId) : Option UnbondingChunk :=
  if update.stake.getD worker.activeStake < worker.activeStake then
    some ⟨worker.activeStake - update.stake.getD worker.activeStake, epoch.satAdd 2⟩
  else none

/-- The worker after an update, whether it is due or not. -/
def WorkerView.applyUpdate (epoch : EpochIndex) (update : PendingWorkerUpdate)
    (v : WorkerView AccountId) : WorkerView AccountId :=
  if update.effectiveEpoch > epoch then v
  else { v with
    record := v.record.map (update.applyTo epoch)
    pending := none
    chunk := (v.record.bind (update.reduction epoch)).or v.chunk }

/-- The worker after its scheduled update, when there is one and it is due. -/
def WorkerView.applyDue (epoch : EpochIndex) (v : WorkerView AccountId) : WorkerView AccountId :=
  (v.pending.map fun update => v.applyUpdate epoch update).getD v

theorem WorkerView.applyDue_cases (epoch : EpochIndex) (v : WorkerView AccountId) :
    v.applyDue epoch = v ∧ (∀ update ∈ v.pending, epoch < update.effectiveEpoch) ∨
      ∃ update, v.pending = some update ∧ update.effectiveEpoch ≤ epoch ∧
        v.applyDue epoch = { v with
          record := v.record.map (update.applyTo epoch)
          pending := none
          chunk := (v.record.bind (update.reduction epoch)).or v.chunk } := by
  unfold WorkerView.applyDue
  cases hpending : v.pending with
  | none => exact Or.inl ⟨rfl, fun update hupdate => nomatch hupdate⟩
  | some update =>
    simp only [Option.map_some, Option.getD_some, WorkerView.applyUpdate]
    split_ifs with hlater
    · exact Or.inl ⟨rfl, fun _ hupdate => Option.some.inj hupdate ▸ hlater⟩
    · exact Or.inr ⟨update, rfl, UInt32.not_lt.mp hlater, rfl⟩

/-- An update keeps what it does not write in the record. -/
theorem WorkerView.applyDue_record {α : Type} {f : WorkerRecord AccountId → α}
    (hf : ∀ (update : PendingWorkerUpdate) epoch worker, f (update.applyTo epoch worker) = f worker)
    (epoch : EpochIndex) (v : WorkerView AccountId) :
    (v.applyDue epoch).record.map f = v.record.map f := by
  rcases v.applyDue_cases epoch with ⟨hsame, -⟩ | ⟨update, -, -, happlied⟩
  · rw [hsame]
  · rw [happlied, Option.map_map]
    exact congrArg (v.record.map ·) (funext (hf update epoch))

theorem WorkerView.applyDue_released (epoch : EpochIndex) (v : WorkerView AccountId) :
    (v.applyDue epoch).released = v.released := by
  rcases v.applyDue_cases epoch with ⟨hsame, -⟩ | ⟨update, -, -, happlied⟩
  · rw [hsame]
  · rw [happlied]

/-- The worker's chunk was due and was released, or nothing happened. -/
def ReleasedAt (epoch : EpochIndex) (v v' : WorkerView AccountId) : Prop :=
  v' = v ∨ ∃ chunk, v.chunk = some chunk ∧ chunk.unlockEpoch ≤ epoch ∧
    v' = { v with chunk := none, released := v.released ++ [chunk.amount] }

/-- Take an amount off hold for the owner of a worker. -/
def payOwner (T : Config AccountId Ledger) (owners : WorkerId → Option AccountId)
    (ledger : Ledger) (payment : WorkerId × Balance) : Option Ledger :=
  (owners payment.1).bind fun owner =>
    T.currency.release .workerStake owner payment.2 ledger

/-- The amounts of the payments that are for one worker. -/
def paidTo (id : WorkerId) (payments : List (WorkerId × Balance)) : List Balance :=
  (payments.filter fun payment => payment.1 == id).map Prod.snd

/-- The payments were made to the owners one after the other, and the log says so. -/
structure PaysOwners (s s' : State T) (payments : List (WorkerId × Balance)) : Prop where
  ledger : payments.foldlM (payOwner T s.ownerOf) s.ledger = some s'.ledger
  released : ∀ id, (s'.worker id).released = (s.worker id).released ++ paidTo id payments

variable {epoch : EpochIndex}

theorem applyPendingUpdate_view {entry : WorkerId × PendingWorkerUpdate}
    (h : applyPendingUpdate epoch entry s = .ok () s') :
    s'.worker entry.1 = (s.worker entry.1).applyUpdate epoch entry.2 ∧
      ∀ id, id ≠ entry.1 → s'.worker id = s.worker id := by
  unfold WorkerView.applyUpdate
  rcases applyPendingUpdate_ok h with
    ⟨hlater, rfl⟩ | ⟨hdue, ⟨hworker, rfl⟩ | ⟨worker, hworker, rfl⟩⟩
  · rw [if_pos hlater]
    exact ⟨rfl, fun _ _ => rfl⟩
  · rw [if_neg (UInt32.not_lt.mpr hdue)]
    refine ⟨WorkerView.ext ?_ (AList.lookup_erase _ _) ?_ (released_quiet rfl s.events),
      fun id hid => WorkerView.ext rfl (AList.lookup_erase_ne hid) rfl
        (released_quiet rfl s.events)⟩
    · simp [State.worker, hworker]
    · simp [State.worker, hworker]
  · rw [if_neg (UInt32.not_lt.mpr hdue)]
    refine ⟨WorkerView.ext ?_ (AList.lookup_erase _ _) ?_ (released_quiet rfl s.events),
      fun id hid => WorkerView.ext (AList.lookup_insert_ne hid) (AList.lookup_erase_ne hid) ?_
        (released_quiet rfl s.events)⟩
    · simp [State.worker, hworker]
    · simp only [State.worker, hworker, Option.bind_some, PendingWorkerUpdate.reduction,
        PendingWorkerUpdate.putAside]
      split_ifs
      · rw [AList.lookup_insert, Option.some_or]
      · rw [Option.none_or]
    · simp only [State.worker, PendingWorkerUpdate.putAside]
      split_ifs
      · exact AList.lookup_insert_ne hid
      · rfl

/-- The updates are applied to each worker on its own. -/
theorem applyPendingUpdates_view (h : applyPendingUpdates epoch s = .ok () s') (id : WorkerId) :
    s'.worker id = (s.worker id).applyDue epoch := by
  unfold applyPendingUpdates at h
  rw [Tx.read_bind_apply] at h
  obtain ⟨hlisted, hunlisted⟩ := Tx.forEach_ok_views State.worker
    (R := fun entry v v' => v' = v.applyUpdate epoch entry.2)
    (fun _ _ _ hentry => (applyPendingUpdate_view hentry).2)
    (fun _ _ _ hentry => (applyPendingUpdate_view hentry).1)
    (StorageMap.nodup_iter_keys T.iterOrder_perm _) h
  unfold WorkerView.applyDue
  cases hpending : s.pendingUpdates.lookup id with
  | none =>
    rw [show (s.worker id).pending = none from hpending]
    refine hunlisted id fun hmem => ?_
    obtain ⟨entry, hentry, rfl⟩ := List.mem_map.mp hmem
    rw [(StorageMap.mem_iter T.iterOrder_perm).mp hentry] at hpending
    cases hpending
  | some update =>
    rw [show (s.worker id).pending = some update from hpending]
    exact hlisted (id, update) ((StorageMap.mem_iter T.iterOrder_perm).mpr hpending)

theorem applyPendingUpdates_ledger (h : applyPendingUpdates epoch s = .ok () s') :
    s'.ledger = s.ledger := by
  unfold applyPendingUpdates at h
  rw [Tx.read_bind_apply] at h
  refine Tx.forEach_invariant (I := fun s' => s'.ledger = s.ledger)
    (fun entry _ s₁ s₂ hs hone => ?_) rfl h
  rcases applyPendingUpdate_ok hone with ⟨-, rfl⟩ | ⟨-, ⟨-, rfl⟩ | ⟨worker, -, rfl⟩⟩
  · exact hs
  · exact hs
  · exact hs

theorem releaseUnbonding_view {entry : WorkerId × UnbondingChunk}
    (h : releaseUnbonding epoch entry s = .ok () s') :
    ((s.worker entry.1).chunk = some entry.2 →
      ReleasedAt epoch (s.worker entry.1) (s'.worker entry.1)) ∧
      ∀ id, id ≠ entry.1 → s'.worker id = s.worker id := by
  rcases releaseUnbonding_ok h with rfl | ⟨worker, ledger, hworker, hdue, hrelease, rfl⟩
  · exact ⟨fun _ => Or.inl rfl, fun _ _ => rfl⟩
  refine ⟨fun hchunk => Or.inr ⟨entry.2, hchunk, hdue,
    WorkerView.ext rfl rfl (AList.lookup_erase _ _) ?_⟩, fun id hid =>
    WorkerView.ext rfl rfl (AList.lookup_erase_ne hid) (released_quiet ?_ s.events)⟩
  · show released (s.events ++ [.stakeReleased entry.1 entry.2.amount]) entry.1 = _
    rw [released_append]
    simp [released, Event.releaseOf, State.worker]
  · exact if_neg (Ne.symm hid)

/-- The chunks that are due are released to each worker on its own. -/
theorem releaseMatureUnbonding_view (h : releaseMatureUnbonding epoch s = .ok () s')
    (id : WorkerId) :
    ReleasedAt epoch (s.worker id) (s'.worker id) := by
  unfold releaseMatureUnbonding at h
  rw [Tx.read_bind_apply] at h
  obtain ⟨hlisted, hunlisted⟩ := Tx.forEach_ok_views State.worker
    (R := fun entry v v' => v.chunk = some entry.2 → ReleasedAt epoch v v')
    (fun _ _ _ hentry => (releaseUnbonding_view hentry).2)
    (fun _ _ _ hentry => (releaseUnbonding_view hentry).1)
    (StorageMap.nodup_iter_keys T.iterOrder_perm _) h
  cases hchunk : s.unbonding.lookup id with
  | none =>
    refine Or.inl (hunlisted id fun hmem => ?_)
    obtain ⟨entry, hentry, rfl⟩ := List.mem_map.mp hmem
    rw [(StorageMap.mem_iter T.iterOrder_perm).mp hentry] at hchunk
    cases hchunk
  | some chunk =>
    exact hlisted (id, chunk) ((StorageMap.mem_iter T.iterOrder_perm).mpr hchunk) hchunk

/-- What is released is paid to the owners. -/
theorem releaseUnbondings_paid {entries : List (WorkerId × UnbondingChunk)}
    (h : Tx.forEach (releaseUnbonding epoch) entries s = .ok () s') :
    ∃ payments, PaysOwners s s' payments := by
  induction entries generalizing s with
  | nil =>
    cases h
    exact ⟨[], rfl, fun id => (List.append_nil _).symm⟩
  | cons entry entries ih =>
    rw [Tx.forEach_cons] at h
    obtain ⟨_, s₁, hfirst, hrest⟩ := Tx.bind_ok.mp h
    obtain ⟨payments, hledger, hreleased⟩ := ih hrest
    rcases releaseUnbonding_ok hfirst with rfl | ⟨worker, ledger, hworker, -, hrelease, rfl⟩
    · exact ⟨payments, hledger, hreleased⟩
    refine ⟨(entry.1, entry.2.amount) :: payments, ?_, fun id => ?_⟩
    · have hpay : payOwner T s.ownerOf s.ledger (entry.1, entry.2.amount) = some ledger := by
        unfold payOwner State.ownerOf
        rw [hworker]
        exact hrelease
      rw [List.foldlM_cons, hpay]
      exact hledger
    · rw [hreleased id]
      show released (s.events ++ [.stakeReleased entry.1 entry.2.amount]) id ++ _ = _
      by_cases hid : entry.1 = id
      · simp [released, Event.releaseOf, paidTo, State.worker, hid]
      · simp [released, Event.releaseOf, paidTo, State.worker, hid]

/-- What an epoch boundary does, from the storage in which the due votings are settled. -/
structure CrossesBoundary (s s' : State T) : Prop where
  within : boundaryItems.Within s s'
  epoch : s'.currentEpoch = s.currentEpoch.satAdd 1
  worker : ∀ id, ReleasedAt s'.currentEpoch ((s.worker id).applyDue s'.currentEpoch)
    (s'.worker id)
  paid : ∃ payments, PaysOwners s s' payments
  active : s'.activeWorkers.toList =
    ((rankWorkers (eligibleWorkers s' s'.currentEpoch).toList).map Prod.fst).take
      T.topWorkers.toNat

/-- The hook settles the votings that are due, and crosses an epoch boundary when there is
one. -/
theorem onInitialize_crosses {block : BlockNumber} (h : onInitialize block s = .ok () s') :
    ∃ s₁, finalizeDueVotes block s = .ok () s₁ ∧
      (¬ EpochBoundary T block ∧ s' = s₁ ∨ EpochBoundary T block ∧ CrossesBoundary s₁ s') := by
  obtain ⟨s₁, hdue, ⟨hnot, hs'⟩ | ⟨hboundary, s₂, s₃, happly, hrelease, rfl⟩⟩ :=
    onInitialize_parts h
  · exact ⟨s₁, hdue, Or.inl ⟨hnot, hs'⟩⟩
  -- The snapshot itself is not about one worker.
  have hsnapshot : ∀ id, State.worker { s₃ with
      currentEpoch := s₁.currentEpoch.satAdd 1
      activeWorkers := BoundedVec.takeFrom
        ((rankWorkers (eligibleWorkers s₃ (s₁.currentEpoch.satAdd 1)).toList).map Prod.fst)
      events := s₃.events ++ [.epochSnapshot (s₁.currentEpoch.satAdd 1)
        (BoundedVec.takeFrom ((rankWorkers
          (eligibleWorkers s₃ (s₁.currentEpoch.satAdd 1)).toList).map Prod.fst))] } id =
      s₃.worker id :=
    fun id => WorkerView.ext rfl rfl rfl (released_quiet rfl s₃.events)
  refine ⟨s₁, hdue, Or.inr ⟨hboundary, ?_, rfl, fun id => ?_, ?_, rfl⟩⟩
  · have hparts : boundaryItems.Within s₁ s₃ := IsTrans.trans _ _ _
      (applyPendingUpdates_rel (fun _ _ hw => hw.within) happly)
      (releaseMatureUnbonding_rel (fun _ _ hw => hw.within) hrelease)
    exact IsTrans.trans _ _ _ hparts rfl
  · rw [hsnapshot]
    have hview := releaseMatureUnbonding_view hrelease id
    rwa [applyPendingUpdates_view happly] at hview
  · unfold releaseMatureUnbonding at hrelease
    rw [Tx.read_bind_apply] at hrelease
    obtain ⟨payments, hledger, hreleased⟩ := releaseUnbondings_paid hrelease
    -- The updates do not touch the ledger, the owners or what was released.
    have hviews := applyPendingUpdates_view happly
    have howners : s₂.ownerOf = s₁.ownerOf := by
      funext id
      show (s₂.worker id).record.map WorkerRecord.owner = _
      rw [hviews id, WorkerView.applyDue_record fun _ _ _ => rfl]
      rfl
    rw [howners, applyPendingUpdates_ledger happly] at hledger
    refine ⟨payments, hledger, fun id => ?_⟩
    rw [hsnapshot, hreleased id, hviews id, WorkerView.applyDue_released]

/-! ### The steps of the pallet -/

/-- Whether the action is one of the functions that the pallet offers to other pallets. -/
def Action.isOffered : Action AccountId Ledger → Bool
  | .openVoting .. => true
  | .assignWork .. => true
  | .clearAssignment .. => true
  | _ => false

section
variable [DecidableEq AccountId]

/-- What a step of the pallet does to its workers. -/
inductive WorkersMove (s s' : State T) : Action AccountId Ledger → Prop where
  | register {origin : Origin AccountId} {sessionKey : PublicKey} {stake : Balance}
      {owner : AccountId} {next : WorkerId} {ledger : Ledger}
      (hnew : s.workerByAccount.lookup owner = none)
      (hroom : s.workerCount < T.maxCandidates.toNat)
      (hnext : next.toNat = s.nextWorkerId.toNat + 1)
      (hs' : s' = { s with
        ledger := ledger
        workers := s.workers.insert s.nextWorkerId
          ⟨owner, sessionKey, stake, s.currentEpoch.satAdd 1, 0⟩
        workerByAccount := s.workerByAccount.insert owner s.nextWorkerId
        nextWorkerId := next
        workerCount := s.workerCount + 1
        events := s.events ++
          [.workerRegistered s.nextWorkerId owner (s.currentEpoch.satAdd 1) stake] }) :
      WorkersMove s s' (.register origin sessionKey stake)
  | schedule {origin : Origin AccountId} {sessionKey : Option PublicKey}
      {stake : Option Balance} {id : WorkerId} {worker : WorkerRecord AccountId} {ledger : Ledger}
      (hworker : s.workers.lookup id = some worker) (hpending : s.pendingUpdates.lookup id = none)
      (hchunk : s.unbonding.lookup id = none)
      (hs' : s' = { s with
        ledger := ledger
        pendingUpdates := s.pendingUpdates.insert id
          ⟨sessionKey, stake, s.currentEpoch.satAdd 1⟩
        events := s.events ++ [.workerUpdateScheduled id (s.currentEpoch.satAdd 1)] }) :
      WorkersMove s s' (.scheduleUpdate origin sessionKey stake)
  | vote {origin : Origin AccountId} {workerId : WorkerId} {vote : WorkerVoteV1}
      {signature : Signature} (hdocks : Docks s s') :
      WorkersMove s s' (.submitVote origin workerId vote signature)
  | suspend {origin : Origin AccountId} {workerId : WorkerId} {first second : WorkerVoteV1}
      {firstSignature secondSignature : Signature} {worker : WorkerRecord AccountId}
      {ledger : Ledger} {actual : Balance} (hworker : s.workers.lookup workerId = some worker)
      (hs' : s' = { s with
        ledger := ledger
        workers := s.workers.insert workerId { worker with
          activeStake := worker.activeStake - actual
          suspendedUntil := s.currentEpoch.satAdd T.equivocationSuspension }
        equivocations := s.equivocations.insert (first.workId, first.round, workerId) ()
        events := s.events ++ [.equivocationProven first.workId first.round workerId actual
          (s.currentEpoch.satAdd T.equivocationSuspension)] }) :
      WorkersMove s s'
        (.submitEquivocation origin workerId first firstSignature second secondSignature)
  | duties {a : Action AccountId Ledger} (hoffered : a.isOffered = true)
      (hwithin : dutyItems.Within s s') (hassigned : roundItems.Within s s' ∨
        ∃ workId round assignment, assignWork workId round s = .ok assignment s') :
      WorkersMove s s' a
  | settle {block : BlockNumber} (hdocks : Docks s s') (hnot : ¬ EpochBoundary T block) :
      WorkersMove s s' (.onInitialize block)
  | boundary {block : BlockNumber} {s₁ : State T} (hdue : finalizeDueVotes block s = .ok () s₁)
      (hboundary : EpochBoundary T block) (hcrosses : CrossesBoundary s₁ s') :
      WorkersMove s s' (.onInitialize block)
  | system {blockNumber : BlockNumber} {blockHash : BlockNumber → Hash} {ledger : Ledger}
      (hs' : s' = { s with blockNumber := blockNumber, blockHash := blockHash, ledger := ledger }) :
      WorkersMove s s' (.system blockNumber blockHash ledger)

theorem workersMove_of_action {a : Action AccountId Ledger} (h : a.run s = .ok () s') :
    WorkersMove s s' a := by
  cases a with
  | register origin sessionKey stake =>
    obtain ⟨owner, next, ledger, -, hnew, hroom, -, hnext, -, hs'⟩ :=
      register_ok (Tx.transaction_ok.mp h)
    exact .register hnew hroom hnext hs'
  | scheduleUpdate origin sessionKey stake =>
    obtain ⟨owner, id, worker, ledger, -, -, hpending, hchunk, hworker, -, -, hs'⟩ :=
      scheduleUpdate_ok (Tx.transaction_ok.mp h)
    exact .schedule hworker hpending hchunk hs'
  | submitVote origin workerId vote signature =>
    exact .vote (submitVote_docks (Tx.transaction_ok.mp h))
  | submitEquivocation origin workerId first firstSignature second secondSignature =>
    obtain ⟨worker, _, ledger, actual, hworker, -, -, hs'⟩ :=
      submitEquivocation_ok (Tx.transaction_ok.mp h)
    exact .suspend hworker hs'
  | openVoting workId round candidateHash deadline =>
    exact .duties rfl (duties_of_rounds (openVoting_rounds h)) (Or.inl (openVoting_rounds h))
  | assignWork workId round =>
    obtain ⟨assignment, s₁, hassign, h⟩ := Tx.bind_ok.mp h
    cases h
    exact .duties rfl ((assignWork_duties _ _).of_ok hassign)
      (Or.inr ⟨workId, round, assignment, hassign⟩)
  | clearAssignment workId round =>
    exact .duties rfl (duties_of_rounds (clearAssignment_rounds h))
      (Or.inl (clearAssignment_rounds h))
  | onInitialize block =>
    obtain ⟨s₁, hdue, ⟨hnot, rfl⟩ | ⟨hboundary, hcrosses⟩⟩ := onInitialize_crosses h
    · exact .settle ((finalizeDueVotes_docks block).of_ok hdue) hnot
    · exact .boundary hdue hboundary hcrosses
  | system blockNumber blockHash ledger =>
    cases h
    exact .system rfl

/-- Along a run an action that fails leaves the storage, and the others are moves. -/
theorem workersMove_of_step {l : Label AccountId Ledger} (hs : s.roundBook.Sound)
    (hstep : Tx.Step Action.run s l s') :
    l.2 = none ∧ WorkersMove s s' l.1 ∨ l.2 ≠ none ∧ s' = s := by
  obtain ⟨a, _ | e⟩ := l
  · exact Or.inl ⟨rfl, workersMove_of_action hstep⟩
  · exact Or.inr ⟨nofun, action_err hs hstep⟩

/-- What holds of the genesis and is kept by every move holds in every state of every run. -/
theorem workers_invariant {I : State T → Prop} (hgenesis : ∀ s, Genesis T s → I s)
    (hmove : ∀ (s s' : State T) (a : Action AccountId Ledger), I s → WorkersMove s s' a → I s')
    {h : History T} (hr : Run T h s) : I s := by
  induction hr with
  | start hs => exact hgenesis _ hs
  | @extend h s l s' hr hstep ih =>
    rcases workersMove_of_step (roundBook_sound hr) hstep with ⟨-, hmoved⟩ | ⟨-, rfl⟩
    · exact hmove s s' l.1 ih hmoved
    · exact ih

end

end MiniJam.Workers
