import MiniJam.Proofs.RoundBook
import MiniJam.Proofs.StakeMoves
import MiniJam.Runtime.Reference

/-!
# `MiniJam.Proofs.Stake`: the stake of a worker is backed

Over runs of the workers pallet, from any genesis and with its calls in any order. A slash
between the scheduling of a new stake and the epoch boundary lowers the active stake and the
hold, and the boundary then sets the scheduled amount as if nothing had been taken.
`stake_backed_of_spared` is the result for the runs where no such slash happens, and
`slash_of_scheduled_unbacked` is a run where one does.
-/

set_option autoImplicit false

namespace MiniJam.Workers

variable {AccountId Ledger : Type} [DecidableEq AccountId] {T : Config AccountId Ledger}
  {s s' : State T}

/-! ### Genesis -/

/-- A genesis worker is registered with its hold. -/
theorem buildWorker_step {entry : AccountId × PublicKey × Balance} {n : Nat}
    (hc : LawfulCurrency T.currency) (hn : n < 2 ^ 64)
    (h : buildWorker (entry, n) s = .ok () s') :
    StakeBook.Step (s.bookUpTo n) (s'.bookUpTo (n + 1)) := by
  obtain ⟨ledger, -, hnew, hhold, rfl⟩ := buildWorker_ok h
  exact bookUpTo_register hc (UInt64.toNat_ofNat_of_lt' hn) hnew hhold rfl rfl rfl rfl rfl

theorem buildWorkers_sound {workers : List (AccountId × PublicKey × Balance)} {n : Nat}
    (hc : LawfulCurrency T.currency) (hn : n + workers.length ≤ 2 ^ 64)
    (hs : (s.bookUpTo n).Sound)
    (h : Tx.forEach buildWorker (workers.zipIdx n) s = .ok () s') :
    (s'.bookUpTo (n + workers.length)).Sound := by
  induction workers generalizing n s with
  | nil =>
    cases h
    exact hs
  | cons entry workers ih =>
    rw [List.length_cons] at hn
    rw [List.zipIdx_cons, Tx.forEach_cons] at h
    obtain ⟨_, s₁, hbuild, h⟩ := Tx.bind_ok.mp h
    have hstep := buildWorker_step hc (by omega) hbuild
    have hrest := ih (n := n + 1) (by omega) (hstep.sound hs) h
    rwa [List.length_cons, ← Nat.add_assoc, Nat.add_right_comm]

theorem genesis_sound (hc : LawfulCurrency T.currency) (h : Genesis T s) : s.book.Sound := by
  obtain ⟨workers, ledger, h⟩ := h
  unfold genesisBuild at h
  obtain ⟨hlength, h⟩ := Tx.check_bind_ok.mp h
  obtain ⟨_, s₁, hbuild, h⟩ := Tx.bind_ok.mp h
  have hfits : workers.length < 2 ^ 64 := by
    have := T.maxCandidates.toNat_lt
    omega
  have hinit : ((State.init T ledger).bookUpTo 0).Sound :=
    StakeBook.sound_empty (fun _ => rfl) (fun _ => rfl) (fun _ => rfl) fun _ => rfl
  have hbuilt := buildWorkers_sound hc (by omega) hinit hbuild
  rw [Nat.zero_add, ← UInt64.toNat_ofNat_of_lt' hfits] at hbuilt
  cases h
  exact hbuilt

/-! ### Runs -/

/-- The rest of the runtime leaves the worker stakes on hold as they are. -/
def KeepsStakeHolds (s : State T) : Action AccountId Ledger → Prop
  | .system _ _ ledger => stakeHolds T ledger = stakeHolds T s.ledger
  | _ => True

/-- No worker with a scheduled stake is slashed when the action succeeds. An equivocation slashes
its worker. A block hook slashes the absent workers of the rounds past their deadline, and a
vote those of its round, when it is the last one the round waits for. -/
def SparesScheduled (s : State T) : Action AccountId Ledger → Prop
  | .submitEquivocation _ workerId _ _ _ _ => s.Unscheduled workerId
  | .onInitialize block => s.DueSpares block s.openVoteRounds.toList
  | .submitVote _ workerId vote _ => s.LastVoteSpares workerId vote
  | _ => True

-- The lists of workers and rounds are walked through. The general instance for a finite type
-- would walk through all 64-bit ids instead.
instance (k : RoundKey) : Decidable (s.RoundSpares k) :=
  have (assignment : Assignment T) : Decidable (∀ id ∈ assignment.toList,
      s.votes.contains (k.1, k.2, id) = false → s.Unscheduled id) := List.decidableBAll _ _
  inferInstanceAs (Decidable (∀ assignment ∈ s.assignments.lookup k, _))

instance (block : BlockNumber) (rounds : List RoundKey) : Decidable (s.DueSpares block rounds) :=
  List.decidableBAll _ _

instance (workerId : WorkerId) (vote : WorkerVoteV1) :
    Decidable (s.LastVoteSpares workerId vote) :=
  have (assignment : Assignment T) : Decidable (∀ id ∈ assignment.toList, id ≠ workerId →
      s.votes.contains (vote.workId, vote.round, id) = false → s.Unscheduled id) :=
    List.decidableBAll _ _
  inferInstanceAs (Decidable (∀ voting ∈ s.votingRounds.lookup (vote.workId, vote.round), _))

instance (a : Action AccountId Ledger) : Decidable (SparesScheduled s a) := by
  cases a <;> unfold SparesScheduled <;> infer_instance

variable {a : Action AccountId Ledger}

theorem action_ok_moves (hc : LawfulCurrency T.currency) (hsound : s.book.Sound)
    (hholds : KeepsStakeHolds s a) (hspares : SparesScheduled s a) (h : a.run s = .ok () s') :
    BookMoves s s' := by
  cases a with
  | register origin sessionKey stake => exact register_moves hc (Tx.transaction_ok.mp h)
  | scheduleUpdate origin sessionKey stake =>
    exact scheduleUpdate_moves hc hsound (Tx.transaction_ok.mp h)
  | submitVote origin workerId vote signature =>
    exact submitVote_moves hc hspares (Tx.transaction_ok.mp h)
  | submitEquivocation origin workerId first firstSignature second secondSignature =>
    exact submitEquivocation_moves hc hspares (Tx.transaction_ok.mp h)
  | openVoting workId round candidateHash deadline =>
    exact .of_duties (duties_of_rounds (openVoting_rounds h))
  | assignWork workId round =>
    exact .of_duties ((Tx.Rel.bind (assignWork_duties _ _) fun _ => .pure ()).of_ok h)
  | clearAssignment workId round =>
    exact .of_duties (duties_of_rounds (clearAssignment_rounds h))
  | onInitialize block => exact onInitialize_moves hc hspares h
  | system blockNumber blockHash ledger =>
    cases h
    exact .of_eq (StakeBook.ext rfl rfl rfl rfl rfl hholds)

/-- In a run where no worker with a scheduled stake is slashed, the stakes stay sound. -/
theorem book_sound_of_run {h : History T}
    (hc : LawfulCurrency T.currency) (hr : Run T h s)
    (hsteps : ∀ t ∈ h, KeepsStakeHolds t.pre t.label.1 ∧
      (t.label.2 = none → SparesScheduled t.pre t.label.1)) :
    s.book.Sound := by
  induction hr with
  | start hs => exact genesis_sound hc hs
  | @extend h s l s' hr hstep ih =>
    have hsound := ih fun t ht => hsteps t (List.mem_cons_of_mem _ ht)
    obtain ⟨hholds, hspares⟩ := hsteps _ (List.mem_cons_self ..)
    obtain ⟨a, _ | e⟩ := l
    · exact (action_ok_moves hc hsound hholds (hspares rfl) hstep).sound hsound
    · rw [action_err (roundBook_sound hr) hstep]
      exact hsound

/-- In every run of the pallet in which no worker with a scheduled stake is slashed, which is a
condition on the actions that succeed, the stake of every worker together with its unbonding
chunk is on hold for its owner. -/
theorem stake_backed_of_spared (hc : LawfulCurrency T.currency)
    {h : History T} (hr : Run T h s)
    (hholds : ∀ t ∈ h, KeepsStakeHolds t.pre t.label.1)
    (hspares : ∀ t ∈ h, t.label.2 = none → SparesScheduled t.pre t.label.1) {id : WorkerId}
    {worker : WorkerRecord AccountId} (hworker : s.workers.lookup id = some worker) :
    worker.activeStake + ((s.unbonding.lookup id).map UnbondingChunk.amount).getD 0 ≤
      T.currency.balanceOnHold s.ledger .workerStake worker.owner := by
  have hsound := book_sound_of_run hc hr fun t ht => ⟨hholds t ht, hspares t ht⟩
  exact (hsound.members id _ _ (book_stake hworker)).backed

open Reference

/-- The runtime's configuration of the pallet over the reference ledger. -/
abbrev referenceWorkers : Config AccountId32 Reference.Ledger :=
  Runtime.workersConfig (environment consumeAll)

/-- Two votes of the reference worker that contradict each other. -/
def equivocation : Action AccountId32 Reference.Ledger :=
  let first := supportVote 0 2 1
  let second := { first with verdict := .oppose .contextMismatch }
  .submitEquivocation (.signed bob) 0
    first (sign aliceKey (first.signingHash crypto))
    second (sign aliceKey (second.signingHash crypto))

/-- Whether an action belongs to the pallet. -/
def Action.isOwn : Action AccountId Ledger → Bool
  | .system .. => false
  | _ => true

omit [DecidableEq AccountId] in
theorem keepsStakeHolds_of_isOwn (h : a.isOwn = true) : KeepsStakeHolds s a := by
  cases a with
  | system blockNumber blockHash ledger => cases h
  | _ => trivial

/-- A stake is raised, lowered again and slashed while a chunk is unbonding. -/
theorem stake_backed_of_spared_unbonding :
    ∃ h, ∃ s : State referenceWorkers, ∃ worker, Run referenceWorkers h s ∧
      s.workers.lookup 0 = some worker ∧ worker.activeStake = 800 * Runtime.unit ∧
      worker.activeStake + ((s.unbonding.lookup 0).map UnbondingChunk.amount).getD 0 ≤
        referenceWorkers.currency.balanceOnHold s.ledger .workerStake worker.owner := by
  obtain ⟨h, s, hrun, hown, hspares, worker, hworker, hstake⟩ :=
    exists_workersHistory referenceWorkers
    [.scheduleUpdate (.signed alice) none (some (2000 * Runtime.unit)),
      .onInitialize 100,
      .scheduleUpdate (.signed alice) none (some (1000 * Runtime.unit)),
      .assignWork 0 0, .onInitialize 200, equivocation]
    (fun h s => (∀ t ∈ h, t.label.1.isOwn = true) ∧
      (∀ t ∈ h, t.label.2 = none → SparesScheduled t.pre t.label.1) ∧
      ∃ worker, s.workers.lookup 0 = some worker ∧ worker.activeStake = 800 * Runtime.unit)
    (by decide +kernel)
  exact ⟨h, s, worker, hrun, hworker, hstake, stake_backed_of_spared Book.currency_lawful hrun
    (fun t ht => keepsStakeHolds_of_isOwn (hown t ht)) hspares hworker⟩

/-- A slash between the scheduling of a higher stake and the epoch boundary leaves a stake
that is not backed: 2000 units are active, and 1800 are on hold. -/
theorem slash_of_scheduled_unbacked :
    ∃ h, ∃ s : State referenceWorkers, ∃ worker, Run referenceWorkers h s ∧
      LawfulCurrency referenceWorkers.currency ∧
      (∀ t ∈ h, KeepsStakeHolds t.pre t.label.1) ∧ s.workers.lookup 0 = some worker ∧
      worker.activeStake = 2000 * Runtime.unit ∧
      referenceWorkers.currency.balanceOnHold s.ledger .workerStake worker.owner =
        1800 * Runtime.unit := by
  obtain ⟨h, s, hrun, hown, worker, hworker, hstake⟩ :=
    exists_workersHistory referenceWorkers
    [.scheduleUpdate (.signed alice) none (some (2000 * Runtime.unit)),
      .assignWork 0 0, equivocation, .onInitialize 100]
    (fun h s => (∀ t ∈ h, t.label.1.isOwn = true) ∧
      ∃ worker, s.workers.lookup 0 = some worker ∧ worker.activeStake = 2000 * Runtime.unit ∧
        referenceWorkers.currency.balanceOnHold s.ledger .workerStake worker.owner =
          1800 * Runtime.unit) (by decide +kernel)
  exact ⟨h, s, worker, hrun, Book.currency_lawful,
    fun t ht => keepsStakeHolds_of_isOwn (hown t ht), hworker, hstake⟩

end MiniJam.Workers
