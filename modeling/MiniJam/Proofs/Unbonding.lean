import MiniJam.Proofs.Suspension

/-!
# `MiniJam.Proofs.Unbonding`: stake that is put aside

A scheduled update that lowers the stake is applied at an epoch boundary. The difference is put
aside in a chunk, which is released to the owner two epochs later. There is one place for a chunk,
and no second reduction overwrites it, because an update is only scheduled for a worker without a
chunk (`WorkerView.Exclusive`).

`reductions` and `releases` are read off the history of a run: what the updates took off the stake
of a worker, and what was released to it. Newest first, the reductions are the chunk that is still
there, and then one for each release (`Unbonded`). So nothing is released twice or too early
(`unbonding_single_delayed`).
-/

set_option autoImplicit false

namespace MiniJam.Workers

variable {AccountId Ledger : Type} {T : Config AccountId Ledger} {s s' : State T}

/-! ### Reductions and releases of a run -/

/-- The epoch and the amount of the reduction that the boundary to an epoch applies. -/
def WorkerView.reductionDue (epoch : EpochIndex) (v : WorkerView AccountId) :
    Option (EpochIndex × Balance) :=
  v.pending.bind fun update =>
    v.record.bind fun worker =>
      update.stake.bind fun stake =>
        if update.effectiveEpoch ≤ epoch ∧ stake < worker.activeStake then
          some (epoch, worker.activeStake - stake)
        else none

/-- The reduction that a step applies. The votings that are due are settled before, so the
stake is the one they leave. -/
def reductionAt (id : WorkerId) (t : Transition (State T) (Label AccountId Ledger)) :
    Option (EpochIndex × Balance) :=
  match t.label.1 with
  | .onInitialize block =>
    if EpochBoundary T block then
      (finalizeDueVotes block t.pre).returned.bind fun settled =>
        (settled.2.worker id).reductionDue t.post.currentEpoch
    else none
  | _ => none

/-- The epoch and the amount of what a step releases to a worker. -/
def releasesAt (id : WorkerId) (t : Transition (State T) (Label AccountId Ledger)) :
    List (EpochIndex × Balance) :=
  ((released t.post.events id).drop (released t.pre.events id).length).map fun amount =>
    (t.post.currentEpoch, amount)

/-- The reductions of a worker's stake, newest first. -/
def reductions (id : WorkerId) (h : History T) :
    List (EpochIndex × Balance) :=
  h.flatMap fun t => (reductionAt id t).toList

/-- What was released to a worker, newest first. -/
def releases (id : WorkerId) (h : History T) :
    List (EpochIndex × Balance) :=
  h.flatMap (releasesAt id)

/-- The chunk of a reduction. -/
def chunkOf (reduction : EpochIndex × Balance) : UnbondingChunk :=
  ⟨reduction.2, reduction.1.satAdd 2⟩

/-- The release of a reduction: its amount, two epochs later or more. -/
def ReleaseOf (reduction release : EpochIndex × Balance) : Prop :=
  release.2 = reduction.2 ∧ reduction.1.toNat + 2 ≤ release.1.toNat

/-- The reductions of a worker are the one whose chunk is still there, if any, and those that
were released. -/
def Unbonded (chunk : Option UnbondingChunk) (reductions releases : List (EpochIndex × Balance)) :
    Prop :=
  ∃ opened settled, reductions = opened ++ settled ∧ opened.map chunkOf = chunk.toList ∧
    List.Forall₂ ReleaseOf settled releases

/-! ### One worker at a boundary -/

/-- There is no scheduled update, or no chunk. -/
def WorkerView.Exclusive (v : WorkerView AccountId) : Prop := v.pending = none ∨ v.chunk = none

variable {epoch : EpochIndex} {v v' : WorkerView AccountId} {reduction : EpochIndex × Balance}

theorem WorkerView.reduction_eq {update : PendingWorkerUpdate} (hupdate : v.pending = some update)
    (hdue : update.effectiveEpoch ≤ epoch) :
    v.record.bind (update.reduction epoch) = (v.reductionDue epoch).map chunkOf := by
  unfold WorkerView.reductionDue
  rw [hupdate, Option.bind_some]
  cases v.record with
  | none => rfl
  | some worker =>
    simp only [Option.bind_some, PendingWorkerUpdate.reduction]
    cases update.stake with
    | none => simp
    | some stake =>
      simp only [Option.getD_some, Option.bind_some, hdue, true_and]
      split_ifs
      · rfl
      · rfl

/-- A boundary puts the reduction in the chunk's place. -/
theorem WorkerView.applyDue_chunk (epoch : EpochIndex) (v : WorkerView AccountId) :
    (v.applyDue epoch).chunk = ((v.reductionDue epoch).map chunkOf).or v.chunk := by
  rcases v.applyDue_cases epoch with ⟨hsame, hlater⟩ | ⟨update, hupdate, hdue, happlied⟩
  · rw [hsame]
    suffices hnone : v.reductionDue epoch = none by rw [hnone, Option.map_none, Option.none_or]
    unfold WorkerView.reductionDue
    cases hpending : v.pending with
    | none => rfl
    | some update =>
      have hnot : ¬ update.effectiveEpoch ≤ epoch := UInt32.not_le.mpr (hlater update hpending)
      simp [hnot]
  · rw [happlied, ← reduction_eq hupdate hdue]

theorem WorkerView.Exclusive.applyDue (hv : v.Exclusive) (epoch : EpochIndex) :
    (v.applyDue epoch).Exclusive := by
  rcases v.applyDue_cases epoch with ⟨hsame, -⟩ | ⟨update, -, -, happlied⟩
  · rw [hsame]
    exact hv
  · rw [happlied]
    exact Or.inl rfl

theorem WorkerView.Exclusive.releasedAt (hv : v.Exclusive) (h : ReleasedAt epoch v v') :
    v'.Exclusive := by
  rcases h with rfl | ⟨chunk, -, -, rfl⟩
  · exact hv
  · exact Or.inr rfl

/-- A reduction finds no chunk, since an update was scheduled. -/
theorem WorkerView.Exclusive.chunk_none (hv : v.Exclusive)
    (h : v.reductionDue epoch = some reduction) : v.chunk = none := by
  rcases hv with hpending | hchunk
  · unfold WorkerView.reductionDue at h
    rw [hpending] at h
    cases h
  · exact hchunk

/-- A chunk of this epoch is not due. -/
theorem ReleasedAt.of_reduced (h : ReleasedAt epoch v v') (hepoch : epoch.toNat + 2 ≤ u32Max)
    (hchunk : v.chunk = some (chunkOf reduction)) (hreduction : reduction.1 = epoch) : v' = v := by
  rcases h with hsame | ⟨chunk, hchunk', hdue, -⟩
  · exact hsame
  · exfalso
    cases hchunk.symm.trans hchunk'
    have htwo : (2 : UInt32).toNat = 2 := rfl
    simp only [chunkOf, hreduction, UInt32.le_iff_toNat_le, UInt32.toNat_satAdd] at hdue
    omega

theorem reductionDue_epoch (h : v.reductionDue epoch = some reduction) : reduction.1 = epoch := by
  unfold WorkerView.reductionDue at h
  obtain ⟨update, -, h⟩ := Option.bind_eq_some_iff.mp h
  obtain ⟨worker, -, h⟩ := Option.bind_eq_some_iff.mp h
  obtain ⟨stake, -, h⟩ := Option.bind_eq_some_iff.mp h
  split_ifs at h
  cases h
  rfl

/-- What a boundary does to the reductions and the releases of one worker. -/
theorem Unbonded.boundary {reductions releases : List (EpochIndex × Balance)}
    (hu : Unbonded v.chunk reductions releases) (hv : v.Exclusive)
    (hepoch : epoch.toNat + 2 ≤ u32Max) (h : ReleasedAt epoch (v.applyDue epoch) v') :
    Unbonded v'.chunk ((v.reductionDue epoch).toList ++ reductions)
      ((v'.released.drop v.released.length).map (fun amount => (epoch, amount)) ++ releases) := by
  obtain ⟨opened, settled, hreductions, hopened, hsettled⟩ := hu
  have hreleased := v.applyDue_released epoch
  have hchunk := v.applyDue_chunk epoch
  cases hreduction : v.reductionDue epoch with
  | some reduction =>
    -- There was no chunk, and the new one is not due yet.
    have hnone := hv.chunk_none hreduction
    rw [hreduction, Option.map_some, Option.some_or] at hchunk
    cases h.of_reduced hepoch hchunk (reductionDue_epoch hreduction)
    rw [hreleased, List.drop_length, hchunk]
    rw [hnone, Option.toList_none, List.map_eq_nil_iff] at hopened
    subst hopened
    exact ⟨[reduction], settled, by rw [hreductions]; rfl, rfl, hsettled⟩
  | none =>
    rw [hreduction, Option.map_none, Option.none_or] at hchunk
    rw [Option.toList_none, List.nil_append]
    rcases h with rfl | ⟨chunk, hchunk', hdue, rfl⟩
    · rw [hreleased, List.drop_length, hchunk]
      exact ⟨opened, settled, hreductions, hopened, hsettled⟩
    · -- The chunk that is there belongs to the newest reduction.
      rw [hchunk] at hchunk'
      rw [hchunk', Option.toList_some] at hopened
      obtain ⟨reduction, rfl, rfl⟩ := List.map_eq_singleton_iff.mp hopened
      have htwo : (2 : UInt32).toNat = 2 := rfl
      have hlate : ReleaseOf reduction (epoch, reduction.2) := by
        refine ⟨rfl, ?_⟩
        simp only [chunkOf, UInt32.le_iff_toNat_le, UInt32.toNat_satAdd] at hdue
        show reduction.1.toNat + 2 ≤ epoch.toNat
        omega
      refine ⟨[], reduction :: settled, hreductions, rfl, ?_⟩
      rw [hreleased, List.drop_left]
      exact .cons hlate hsettled

/-! ### Every run -/

theorem Docked.kept (h : Docked v v') :
    v'.pending = v.pending ∧ v'.chunk = v.chunk ∧ v'.released = v.released := by
  rcases h with rfl | ⟨worker, stake, -, rfl⟩
  · exact ⟨rfl, rfl, rfl⟩
  · exact ⟨rfl, rfl, rfl⟩

/-- What a step does to updates and chunks. -/
inductive UnbondingStep (t : Transition (State T) (Label AccountId Ledger)) : Prop where
  | quiet (hreduction : ∀ id, reductionAt id t = none)
      (hchunk : ∀ id, (t.post.worker id).chunk = (t.pre.worker id).chunk)
      (hreleased : ∀ id, (t.post.worker id).released = (t.pre.worker id).released)
      (hpending : ∀ id, (t.post.worker id).pending = (t.pre.worker id).pending ∨
        (t.pre.worker id).chunk = none)
  | boundary {block : BlockNumber} {settled : State T} (hlabel : t.label.1 = .onInitialize block)
      (hdue : finalizeDueVotes block t.pre = .ok () settled)
      (hcrosses : CrossesBoundary settled t.post)
      (hreduction : ∀ id,
        reductionAt id t = (settled.worker id).reductionDue t.post.currentEpoch)

/-- A step that writes no update and no chunk. -/
theorem UnbondingStep.of_kept {l : Label AccountId Ledger}
    (hreduction : ∀ id, reductionAt id ⟨s, l, s'⟩ = none)
    (h : ∀ id, (s'.worker id).pending = (s.worker id).pending ∧
      (s'.worker id).chunk = (s.worker id).chunk ∧
      (s'.worker id).released = (s.worker id).released) : UnbondingStep ⟨s, l, s'⟩ :=
  .quiet hreduction (fun id => (h id).2.1) (fun id => (h id).2.2) fun id => Or.inl (h id).1

/-- What a step releases is paid to the owners of the workers, after the votings that are due
are settled. -/
def PaysReleases (t : Transition (State T) (Label AccountId Ledger)) : Prop :=
  ∃ payments,
    (∀ id, releasesAt id t = (paidTo id payments).map fun amount => (t.post.currentEpoch, amount)) ∧
      (payments = [] ∨ ∃ block settled, t.label.1 = .onInitialize block ∧
        finalizeDueVotes block t.pre = .ok () settled ∧
        payments.foldlM (payOwner T t.pre.ownerOf) settled.ledger = some t.post.ledger)

variable {t : Transition (State T) (Label AccountId Ledger)}

theorem UnbondingStep.pays (h : UnbondingStep t) : PaysReleases t := by
  rcases h with ⟨-, -, hreleased, -⟩ | ⟨hlabel, hdue, hcrosses, -⟩
  · refine ⟨[], fun id => ?_, Or.inl rfl⟩
    show List.map _ ((t.post.worker id).released.drop (t.pre.worker id).released.length) = _
    rw [hreleased, List.drop_length]
    rfl
  · obtain ⟨payments, hledger, hreleased⟩ := hcrosses.paid
    have hdocks := (finalizeDueVotes_docks _).of_ok hdue
    have howners : State.ownerOf _ = t.pre.ownerOf := funext fun id => (hdocks.docked id).owner
    rw [howners] at hledger
    refine ⟨payments, fun id => ?_, Or.inr ⟨_, _, hlabel, hdue, hledger⟩⟩
    show List.map _ ((t.post.worker id).released.drop (t.pre.worker id).released.length) = _
    rw [hreleased, (hdocks.docked id).kept.2.2, List.drop_left]

/-- A reduction finds no chunk. While epochs do not saturate, it leaves one with its amount. -/
theorem UnbondingStep.reduces (h : UnbondingStep t) {id : WorkerId}
    (hpre : (t.pre.worker id).Exclusive) (hreduction : reductionAt id t = some reduction) :
    (t.pre.worker id).chunk = none ∧ (t.post.currentEpoch.toNat + 2 ≤ u32Max →
      reduction.1 = t.post.currentEpoch ∧ (t.post.worker id).chunk = some (chunkOf reduction)) := by
  rcases h with ⟨hnone, -⟩ | @⟨block, settled, -, hdue, hcrosses, hreduces⟩
  · rw [hnone] at hreduction
    cases hreduction
  · obtain ⟨hpending, hchunk, -⟩ := (((finalizeDueVotes_docks _).of_ok hdue).docked id).kept
    have hexclusive : WorkerView.Exclusive _ := hpre.imp hpending.trans hchunk.trans
    rw [hreduces] at hreduction
    refine ⟨hchunk.symm.trans (hexclusive.chunk_none hreduction), fun hepoch => ?_⟩
    have hnow := reductionDue_epoch hreduction
    have happlied := (settled.worker id).applyDue_chunk t.post.currentEpoch
    rw [hreduction, Option.map_some, Option.some_or] at happlied
    rw [(hcrosses.worker id).of_reduced hepoch happlied hnow]
    exact ⟨hnow, happlied⟩

section
variable [DecidableEq AccountId]

theorem WorkersMove.unbonding {a : Action AccountId Ledger} {e : Option DispatchError}
    (h : WorkersMove s s' a) : UnbondingStep ⟨s, (a, e), s'⟩ := by
  cases h with
  | register hnew hroom hnext hs' =>
    rw [hs']
    exact .of_kept (fun _ => rfl) fun _ => ⟨rfl, rfl, released_quiet rfl s.events⟩
  | @schedule origin sessionKey stake workerId worker ledger hworker hpending hchunk hs' =>
    rw [hs']
    refine .quiet (fun _ => rfl) (fun _ => rfl) (fun _ => released_quiet rfl s.events) fun id => ?_
    by_cases hid : id = workerId
    · -- An update is scheduled only where no chunk waits.
      rw [hid]
      exact Or.inr hchunk
    · exact Or.inl (AList.lookup_insert_ne hid)
  | vote hdocks => exact .of_kept (fun _ => rfl) fun id => (hdocks.docked id).kept
  | suspend hworker hs' =>
    rw [hs']
    exact .of_kept (fun _ => rfl) fun _ => ⟨rfl, rfl, released_quiet rfl s.events⟩
  | @duties a hoffered hwithin hassigned =>
    refine .of_kept (fun id => ?_) fun id => ?_
    · cases a with
      | onInitialize block => cases hoffered
      | _ => rfl
    · rw [worker_of_duties hwithin id]
      exact ⟨rfl, rfl, rfl⟩
  | settle hdocks hnot =>
    exact .of_kept (fun _ => if_neg hnot) fun id => (hdocks.docked id).kept
  | @boundary block settled hdue hboundary hcrosses =>
    refine .boundary rfl hdue hcrosses fun id => ?_
    simp only [reductionAt, if_pos hboundary, hdue, Outcome.returned, Option.bind_some]
  | system hs' =>
    rw [hs']
    exact .of_kept (fun _ => rfl) fun _ => ⟨rfl, rfl, rfl⟩

theorem unbondingStep_of_step {l : Label AccountId Ledger} (hs : s.roundBook.Sound)
    (hstep : Tx.Step Action.run s l s') : UnbondingStep ⟨s, l, s'⟩ := by
  rcases workersMove_of_step hs hstep with ⟨-, hmove⟩ | ⟨hl, rfl⟩
  · exact hmove.unbonding
  · obtain ⟨a, e⟩ := l
    cases a with
    | onInitialize block =>
      cases e with
      | none => exact absurd rfl hl
      | some e => exact absurd hstep (onInitialize_noErr block _ e _)
    | _ => exact .of_kept (fun _ => rfl) fun _ => ⟨rfl, rfl, rfl⟩

theorem genesis_unscheduled (h : Genesis T s) : s.pendingUpdates = ∅ ∧ s.unbonding = ∅ := by
  obtain ⟨workers, ledger, hbuild⟩ := h
  have hwithin := (genesisBuild_genesisItems workers).of_ok hbuild
  exact ⟨hwithin.unchanged State.pendingUpdates fun _ _ => rfl,
    hwithin.unchanged State.unbonding fun _ _ => rfl⟩

variable {h : History T}

/-- In every state no worker has both an update and a chunk. -/
theorem exclusive_of_run (hr : Run T h s) (id : WorkerId) : (s.worker id).Exclusive := by
  induction hr with
  | start hs =>
    left
    unfold State.worker
    rw [(genesis_unscheduled hs).1]
    rfl
  | @extend h s l s' hr hstep ih =>
    rcases unbondingStep_of_step (roundBook_sound hr) hstep with
      ⟨-, hchunk, -, hpending⟩ | ⟨-, hdue, hcrosses, -⟩
    · rcases hpending id with hpending | hnone
      · exact ih.imp hpending.trans (hchunk id).trans
      · exact Or.inr ((hchunk id).trans hnone)
    · have hkept := (((finalizeDueVotes_docks _).of_ok hdue).docked id).kept
      have hsettled : WorkerView.Exclusive _ := ih.imp hkept.1.trans hkept.2.1.trans
      exact (hsettled.applyDue _).releasedAt (hcrosses.worker id)

/-- While epochs do not saturate, every release is the release of its own reduction. -/
theorem unbonded_of_run (hr : Run T h s) (hepochs : ∀ t ∈ h, t.post.currentEpoch.toNat + 2 ≤ u32Max)
    (id : WorkerId) : Unbonded (s.worker id).chunk (reductions id h) (releases id h) := by
  induction hr with
  | start hs =>
    refine ⟨[], [], rfl, ?_, .nil⟩
    unfold State.worker
    rw [(genesis_unscheduled hs).2]
    rfl
  | @extend h s l s' hr hstep ih =>
    obtain ⟨hepoch, hepochs⟩ := List.forall_mem_cons.mp hepochs
    have hbefore := ih hepochs
    unfold reductions releases at hbefore ⊢
    rw [List.flatMap_cons, List.flatMap_cons]
    show Unbonded _ _ (List.map _ ((s'.worker id).released.drop (s.worker id).released.length) ++ _)
    rcases unbondingStep_of_step (roundBook_sound hr) hstep with
      ⟨hreduction, hchunk, hreleased, -⟩ | ⟨-, hdue, hcrosses, hreduction⟩
    · rw [hreduction, hreleased, List.drop_length, hchunk]
      exact hbefore
    · -- The votings are settled first, which leaves the update and the chunk.
      obtain ⟨hpending, hchunk, hreleased⟩ :=
        (((finalizeDueVotes_docks _).of_ok hdue).docked id).kept
      have hexclusive := (exclusive_of_run hr id).imp hpending.trans hchunk.trans
      rw [← hchunk] at hbefore
      rw [hreduction, ← hreleased]
      exact hbefore.boundary hexclusive hepoch (hcrosses.worker id)

/-- No worker has both a scheduled update and a chunk, so a reduction of a stake overwrites no
chunk. What is released is paid to the owner. While epochs do not saturate, a reduction leaves
a chunk with the difference of the stakes, and each release is the release of another
reduction, at least two epochs later. -/
theorem unbonding_single_delayed {h : History T}
    (hr : Run T h s) :
    (∀ id, s.pendingUpdates.lookup id = none ∨ s.unbonding.lookup id = none) ∧
      (∀ t ∈ h, PaysReleases t ∧ ∀ id, reductionAt id t ≠ none →
        t.pre.unbonding.lookup id = none) ∧
      ((∀ t ∈ h, t.post.currentEpoch.toNat + 2 ≤ u32Max) →
        (∀ t ∈ h, ∀ id reduction, reductionAt id t = some reduction →
          reduction.1 = t.post.currentEpoch ∧
            t.post.unbonding.lookup id = some (chunkOf reduction)) ∧
        ∀ id, Unbonded (s.unbonding.lookup id) (reductions id h) (releases id h)) := by
  have hsteps : ∀ t ∈ h, UnbondingStep t ∧ ∀ id, (t.pre.worker id).Exclusive := by
    intro t ht
    obtain ⟨later, earlier, rfl⟩ := List.append_of_mem ht
    obtain ⟨hpre, hstep⟩ := hr.before
    exact ⟨unbondingStep_of_step (roundBook_sound hpre) hstep, exclusive_of_run hpre⟩
  refine ⟨exclusive_of_run hr, fun t ht => ?_, fun hepochs => ⟨fun t ht => ?_, ?_⟩⟩
  · obtain ⟨hstep, hpre⟩ := hsteps t ht
    refine ⟨hstep.pays, fun id hreduces => ?_⟩
    obtain ⟨reduction, hreduction⟩ := Option.ne_none_iff_exists'.mp hreduces
    exact (hstep.reduces (hpre id) hreduction).1
  · obtain ⟨hstep, hpre⟩ := hsteps t ht
    intro id reduction hreduction
    exact (hstep.reduces (hpre id) hreduction).2 (hepochs t ht)
  · exact unbonded_of_run hr hepochs

end

/-- A worker takes 1000 units off its stake in the first epoch, and they are released two
epochs later. -/
theorem unbonding_single_delayed_once :
    ∃ h, ∃ s : State referenceWorkers, Run referenceWorkers h s ∧
      (∀ t ∈ h, t.post.currentEpoch.toNat + 2 ≤ u32Max) ∧
      reductions 0 h = [(2, 1000 * Runtime.unit)] ∧ releases 0 h = [(4, 1000 * Runtime.unit)] ∧
      Unbonded (s.unbonding.lookup 0) (reductions 0 h) (releases 0 h) := by
  obtain ⟨h, s, hrun, hepochs, hreductions, hreleases⟩ :=
    Reference.exists_workersHistory referenceWorkers
    [.scheduleUpdate (.signed Reference.alice) none (some (2000 * Runtime.unit)),
      .onInitialize 100,
      .scheduleUpdate (.signed Reference.alice) none (some (1000 * Runtime.unit)),
      .onInitialize 200, .onInitialize 300, .onInitialize 400]
    (fun h _ => (∀ t ∈ h, t.post.currentEpoch.toNat + 2 ≤ u32Max) ∧
      reductions 0 h = [(2, 1000 * Runtime.unit)] ∧ releases 0 h = [(4, 1000 * Runtime.unit)])
    (by decide +kernel)
  exact ⟨h, s, hrun, hepochs, hreductions, hreleases,
    ((unbonding_single_delayed hrun).2.2 hepochs).2 0⟩

end MiniJam.Workers
