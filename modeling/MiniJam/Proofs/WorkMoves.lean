import MiniJam.Proofs.Stake
import MiniJam.Proofs.WorkBook
import MiniJam.Proofs.WorkSteps

/-!
# `MiniJam.Proofs.WorkMoves`: the chain moves the books of the works

Each function of the two pallets is shown to make steps of the `WorkBook` or none. A step of
the chain is a sequence of them (`workMoves_of_step`), except where the rest of the runtime
replaces the ledger. The block hook comes to many works in one step of the chain, and each of
them is a few steps of the book. So the books are sound in every state of every run.
-/

set_option autoImplicit false

/-! ### Currency operations of the workers pallet -/

namespace MiniJam.Workers

variable {AccountId Ledger : Type} {T : Config AccountId Ledger} {s s' : State T}

/-- The ledger changes by currency operations of the pallet. -/
def LedgerMoves (s s' : State T) : Prop :=
  Relation.ReflTransGen (LedgerStep T) s.ledger s'.ledger

instance : Std.Refl (LedgerMoves (T := T)) := ⟨fun _ => .refl⟩

instance : IsTrans (State T) LedgerMoves := ⟨fun _ _ _ h₁ h₂ => h₁.trans h₂⟩

/-- A ledger that is the same. -/
theorem LedgerMoves.of_eq (h : s'.ledger = s.ledger) : LedgerMoves s s' := by
  unfold LedgerMoves
  rw [h]

variable {owner : AccountId} {workerId : WorkerId} {stake : Option Balance}

/-- A slash moves the hold into the pool. -/
theorem slashStake_ledger {requested actual : Balance}
    (h : slashStake owner requested s = .ok actual s') : LedgerMoves s s' := by
  unfold slashStake at h
  rw [Tx.read_bind_apply, Tx.modify_bind_apply, Tx.read_bind_apply] at h
  obtain ⟨ledger, hresolve, h⟩ := Tx.okOr_bind_ok.mp h
  cases h
  exact .single (.slash hresolve)

/-- A settlement pays or slashes. -/
theorem SettlementWrite.ledgerMoves (h : SettlementWrite s s') : LedgerMoves s s' := by
  cases h with
  | close => exact .of_eq rfl
  | pay htransfer => exact .single (.transfer htransfer)
  | dock hworker hslash =>
    have hmoves := slashStake_ledger hslash
    exact hmoves
  | conclude => exact .of_eq rfl

/-- An epoch boundary releases stake. -/
theorem BoundaryWrite.ledgerMoves (h : BoundaryWrite s s') : LedgerMoves s s' := by
  cases h with
  | drop => exact .of_eq rfl
  | apply => exact .of_eq rfl
  | release hchunk hworker hrelease => exact .single (.release hrelease)
  | snapshot => exact .of_eq rfl

/-- What finalizing a voting does to the ledger. -/
theorem finalizeVoting_ledger (workId : WorkId) (round : AssignmentRound) :
    Tx.Rel LedgerMoves (finalizeVoting workId round : M T Unit) :=
  finalizeVoting_rel (fun _ _ h => h.ledgerMoves) workId round

/-- What the hook does to the ledger. -/
theorem onInitialize_ledger (block : BlockNumber) :
    Tx.Rel LedgerMoves (onInitialize block : M T Unit) :=
  onInitialize_rel finalizeVoting_ledger (fun _ _ h => h.ledgerMoves) block

variable {origin : Origin AccountId}

/-- What a vote does to the ledger. -/
theorem submitVote_ledger {vote : WorkerVoteV1} {signature : Signature}
    (h : submitVote origin workerId vote signature s = .ok () s') : LedgerMoves s s' :=
  submitVote_rel (fun _ _ => .of_eq rfl) (finalizeVoting_ledger _ _) h

theorem submitEquivocation_ledger {first : WorkerVoteV1} {firstSignature : Signature}
    {second : WorkerVoteV1} {secondSignature : Signature}
    (h : submitEquivocation origin workerId first firstSignature
      second secondSignature s = .ok () s') : LedgerMoves s s' := by
  obtain ⟨worker, _, ledger, actual, -, -, hslash, rfl⟩ := submitEquivocation_ok h
  have hmoves : LedgerMoves s { s with ledger := ledger } := slashStake_ledger hslash
  exact hmoves

variable [DecidableEq AccountId]

theorem register_ledger {sessionKey : PublicKey} {stake : Balance}
    (h : register origin sessionKey stake s = .ok () s') : LedgerMoves s s' := by
  obtain ⟨owner, next, ledger, -, -, -, -, -, hhold, rfl⟩ := register_ok h
  exact .single (.hold hhold)

omit [DecidableEq AccountId] in
theorem holdIncrease_ledger {active : Balance} (h : holdIncrease owner active stake s = .ok () s') :
    LedgerMoves s s' := by
  cases stake with
  | none =>
    cases h
    exact .of_eq rfl
  | some newStake =>
    obtain ⟨-, h⟩ := Tx.ensure_bind_ok.mp h
    split_ifs at h
    · obtain ⟨ledger, hhold, rfl⟩ := currencyOp_ok h
      exact .single (.hold hhold)
    · cases h
      exact .of_eq rfl

theorem scheduleUpdate_ledger {sessionKey : Option PublicKey}
    (h : scheduleUpdate origin sessionKey stake s = .ok () s') : LedgerMoves s s' := by
  obtain ⟨owner, id, worker, ledger, -, -, -, -, -, -, hhold, rfl⟩ := scheduleUpdate_ok h
  have hmoves : LedgerMoves s { s with ledger := ledger } := holdIncrease_ledger hhold
  exact hmoves

end MiniJam.Workers

/-! ### The functions that move a work -/

namespace MiniJam.Jam

variable {AccountId Ledger : Type} {T : Config AccountId Ledger} {s s' : State T}

/-- The books change by steps of the pallet. -/
def WorkMoves (s s' : State T) : Prop :=
  Relation.ReflTransGen (WorkBook.Step T) s.workBook s'.workBook

instance : Std.Refl (WorkMoves (T := T)) := ⟨fun _ => .refl⟩

instance : IsTrans (State T) WorkMoves := ⟨fun _ _ _ h₁ h₂ => h₁.trans h₂⟩

theorem WorkMoves.of_eq (h : s'.workBook = s.workBook) : WorkMoves s s' := by
  unfold WorkMoves
  rw [h]

variable {b : WorkBook AccountId Ledger} {output : MiniJamExecutionOutput}
  {origin : Origin AccountId}

theorem WorkMoves.of_step (hb : s'.workBook = b) (h : WorkBook.Step T s.workBook b) :
    WorkMoves s s' := by
  unfold WorkMoves
  rw [hb]
  exact .single h

theorem WorkBook.steps_of_ledger (b : WorkBook AccountId Ledger) {l l' : Ledger}
    (h : Relation.ReflTransGen (Workers.LedgerStep T.workers) l l') :
    Relation.ReflTransGen (WorkBook.Step T) { b with ledger := l } { b with ledger := l' } := by
  induction h with
  | refl => exact .refl
  | @tail l₁ l₂ _ hstep ih =>
    have hone : WorkBook.Step T { b with ledger := l₁ } { b with ledger := l₂ } := .workers hstep
    exact ih.tail hone

/-- A computation of the workers pallet moves money at most. -/
theorem inWorkers_workMoves {α : Type} {m : Workers.M T.workers α} {a : α}
    (hm : ∀ base base', m base = .ok a base' → Workers.LedgerMoves base base')
    (h : inWorkers m s = .ok a s') : WorkMoves s s' := by
  obtain ⟨base, hbase, rfl⟩ := Tx.zoom_ok.mp h
  exact s.workBook.steps_of_ledger (hm _ _ hbase)

/-- A computation of the workers pallet that moves no money leaves the books. -/
theorem inWorkers_workBook {α : Type} {m : Workers.M T.workers α} {a : α}
    (hm : ∀ base, m s.base = .ok a base → Workers.dutyItems.Within s.base base)
    (h : inWorkers m s = .ok a s') : s'.workBook = s.workBook := by
  obtain ⟨base, hbase, rfl⟩ := Tx.zoom_ok.mp h
  have hledger : base.ledger = s.base.ledger :=
    (hm base hbase).unchanged Workers.State.ledger fun _ _ => rfl
  exact WorkBook.ext rfl rfl rfl rfl rfl rfl hledger

variable {id : WorkId} {work : WorkRecord AccountId} {r : AssignmentRound}
  {rejectedCandidate : Bool} {envelope : ReportEnvelopeV1} {workIds : List WorkId}
  {input : MiniJamExecutionInput} {delta : ValidatedDelta} {block : BlockNumber}

theorem clearAssignment_workBook (h : inWorkers (Workers.clearAssignment id r) s = .ok () s') :
    s'.workBook = s.workBook :=
  inWorkers_workBook (fun _ hbase =>
    Workers.duties_of_rounds (Workers.clearAssignment_rounds hbase)) h

theorem slashInFull_ok {reason : HoldReason} {who : AccountId} {amount : Balance}
    (h : slashInFull reason who amount s = .ok () s') :
    ∃ ledger, SlashedInFull T reason who amount s.base.ledger ledger ∧
      s' = { s with base := { s.base with ledger := ledger } } := by
  unfold slashInFull at h
  rw [Tx.read_bind_apply, Tx.modify_bind_apply] at h
  obtain ⟨hremainder, h⟩ := Tx.ensure_bind_ok.mp h
  rw [Tx.read_bind_apply] at h
  obtain ⟨ledger, hresolve, h⟩ := Tx.okOr_bind_ok.mp h
  cases h
  exact ⟨ledger, ⟨hremainder, hresolve⟩, rfl⟩

theorem rejectCandidate_ok (h : rejectCandidate id r s = .ok () s') :
    ∃ candidate ledger, s.candidates.lookup (id, r) = some candidate ∧
      BondSettled T candidate.submitter s.base.ledger ledger ∧
      s'.workBook = { s.workBook with ledger := ledger } := by
  unfold rejectCandidate settleRejectedCandidate at h
  obtain ⟨_, s₁, hsettle, h⟩ := Tx.bind_ok.mp h
  rw [Tx.read_bind_apply] at hsettle
  obtain ⟨candidate, hcandidate, hsettle⟩ := Tx.okOr_bind_ok.mp hsettle
  obtain ⟨_, s₂, hslash, hrelease⟩ := Tx.bind_ok.mp hsettle
  obtain ⟨l₁, hslashed, rfl⟩ := slashInFull_ok hslash
  obtain ⟨ledger, hreleased, rfl⟩ := currencyOp_ok hrelease
  cases h
  exact ⟨candidate, ledger, hcandidate, ⟨l₁, hslashed, hreleased⟩, rfl⟩

/-- Preparing a round of a work that waits for workers. -/
theorem prepareRound_workMoves (hwork : s.works.lookup id = some work)
    (hstatus : work.status = .insufficientWorkers) (h : prepareRound id s = .ok () s') :
    WorkMoves s s' := by
  unfold prepareRound at h
  rw [Tx.read_bind_apply] at h
  obtain ⟨work', hwork', h⟩ := Tx.okOr_bind_ok.mp h
  rw [hwork] at hwork'
  cases hwork'
  obtain ⟨assigned, s₁, hassigned, h⟩ := Tx.bind_ok.mp h
  rcases Tx.attempt_ok.mp hassigned with ⟨assignment, hassign, rfl⟩ | ⟨e, hassign, rfl⟩
  · have hbook := inWorkers_workBook (fun _ => (Workers.assignWork_duties _ _).of_ok) hassign
    have hprepared : s'.workBook = { s₁.workBook with
        works := s₁.workBook.works.insert id { work with
          status := .awaitingCandidate
          candidateDeadline := s.base.blockNumber.satAdd T.reportSubmissionDeadline } } := by
      cases h
      rfl
    rw [hbook] at hprepared
    exact .of_step hprepared (.prepare hwork hstatus (Or.inl rfl))
  · -- An assignment that fails has written nothing.
    obtain ⟨base, hbase, rfl⟩ := Tx.zoom_err.mp hassign
    rw [Workers.assignWork_err hbase] at h
    have hprepared : s'.workBook = { s.workBook with
        works := s.works.insert id { work with status := .insufficientWorkers } } := by
      cases h
      rfl
    exact .of_step hprepared (.prepare hwork hstatus (Or.inr rfl))

theorem nextRound_workMoves {ledger : Ledger} (hbook : s.workBook = { b with ledger := ledger })
    (hwork : b.works.lookup id = some work) (hover : WorkBook.RoundOver T b id work ledger)
    (hnext : work.round.satAdd 1 < T.maxCandidateRounds) (h : nextRound id work s = .ok () s') :
    Relation.ReflTransGen (WorkBook.Step T) b s'.workBook := by
  unfold nextRound at h
  rw [Tx.modify_bind_apply] at h
  have hadvanced : State.workBook { s with
      works := s.works.insert id
        { work with round := work.round.satAdd 1, status := .insufficientWorkers } } =
      { b with
        works := b.works.insert id
          { work with round := work.round.satAdd 1, status := .insufficientWorkers }
        ledger := ledger } := by
    have hworks : s.works = b.works := congrArg WorkBook.works hbook
    calc _ = { s.workBook with
          works := s.works.insert id
            { work with round := work.round.satAdd 1, status := .insufficientWorkers } } := rfl
      _ = _ := by rw [hbook, hworks]
  have hprepare := prepareRound_workMoves (AList.lookup_insert _) rfl h
  unfold WorkMoves at hprepare
  rw [hadvanced] at hprepare
  exact hprepare.head (.advance hwork hover hnext)

theorem failWork_workMoves {l : Ledger} (hbook : s.workBook = { b with ledger := l })
    (hwork : b.works.lookup id = some work) (hover : WorkBook.RoundOver T b id work l)
    (h : failWork id work s = .ok () s') :
    Relation.ReflTransGen (WorkBook.Step T) b s'.workBook := by
  unfold failWork at h
  obtain ⟨_, s₁, hslash, h⟩ := Tx.bind_ok.mp h
  obtain ⟨ledger, hslashed, rfl⟩ := slashInFull_ok hslash
  rw [Tx.modify_bind_apply] at h
  obtain ⟨_, s₂, hremove, h⟩ := Tx.bind_ok.mp h
  obtain ⟨_, s₃, hclear, h⟩ := Tx.bind_ok.mp h
  have hfailed : s₂.workBook = { s.workBook with
      works := s.workBook.works.insert id { work with status := .failed }
      pendingWorks := swapRemoveFirst (fun id' => decide (id' = id)) s.workBook.pendingWorks
      ledger := ledger } := by
    cases hremove
    rfl
  have hcleared : s'.workBook = s₃.workBook := by
    cases h
    rfl
  rw [hcleared, clearAssignment_workBook hclear, hfailed, hbook]
  have hledger : s.base.ledger = l := congrArg WorkBook.ledger hbook
  rw [hledger] at hslashed
  exact .single (.fail hwork hover hslashed)

/-- The candidate of a round that is over is settled, when there is one. -/
theorem roundOver_of_ok
    (hstatus : work.status = if rejectedCandidate then .voting else .awaitingCandidate)
    (h : (if rejectedCandidate then rejectCandidate id work.round else pure ()) s = .ok () s') :
    ∃ ledger, WorkBook.RoundOver T s.workBook id work ledger ∧
      s'.workBook = { s.workBook with ledger := ledger } := by
  cases rejectedCandidate with
  | false =>
    cases h
    exact ⟨s.base.ledger, .expired hstatus, rfl⟩
  | true =>
    obtain ⟨candidate, ledger, hcandidate, hsettled, hbook⟩ := rejectCandidate_ok h
    exact ⟨ledger, .rejected hstatus hcandidate hsettled, hbook⟩

/-- A round that is over, with its candidate rejected when there is one. -/
theorem advanceOrFail_workMoves (hwork : s.works.lookup id = some work)
    (hstatus : work.status = if rejectedCandidate then .voting else .awaitingCandidate)
    (h : advanceOrFailInner id rejectedCandidate s = .ok () s') : WorkMoves s s' := by
  unfold advanceOrFailInner at h
  rw [Tx.read_bind_apply] at h
  obtain ⟨work', hwork', h⟩ := Tx.okOr_bind_ok.mp h
  rw [hwork] at hwork'
  cases hwork'
  obtain ⟨_, s₁, hreject, h⟩ := Tx.bind_ok.mp h
  obtain ⟨_, s₂, hclear, h⟩ := Tx.bind_ok.mp h
  obtain ⟨ledger, hover, hbook⟩ := roundOver_of_ok hstatus hreject
  have hbook₂ := (clearAssignment_workBook hclear).trans hbook
  split_ifs at h with hlast
  · exact failWork_workMoves hbook₂ hwork hover h
  · exact nextRound_workMoves hbook₂ hwork hover (UInt8.not_le.mp hlast) h

theorem acceptCandidate_workMoves (hwork : s.works.lookup id = some work)
    (hstatus : work.status = .voting) (h : acceptCandidateInner id s = .ok () s') :
    WorkMoves s s' := by
  unfold acceptCandidateInner at h
  rw [Tx.read_bind_apply] at h
  obtain ⟨work', hwork', h⟩ := Tx.okOr_bind_ok.mp h
  rw [hwork] at hwork'
  cases hwork'
  obtain ⟨candidate, hcandidate, h⟩ := Tx.okOr_bind_ok.mp h
  obtain ⟨_, s₁, hvalid, h⟩ := Tx.bind_ok.mp h
  rw [validateCandidateReport_ok hvalid] at h
  -- The bond is released, the reward is paid, and the deposit is released.
  obtain ⟨_, s₂, hbond, h⟩ := Tx.bind_ok.mp h
  obtain ⟨l₁, hl₁, rfl⟩ := currencyOp_ok hbond
  obtain ⟨_, s₃, hreward, h⟩ := Tx.bind_ok.mp h
  obtain ⟨l₂, hl₂, rfl⟩ := currencyOp_ok hreward
  obtain ⟨_, s₄, hdeposit, h⟩ := Tx.bind_ok.mp h
  obtain ⟨l₃, hl₃, rfl⟩ := currencyOp_ok hdeposit
  rw [Tx.modify_bind_apply] at h
  obtain ⟨queue, hqueue, h⟩ := Tx.okOr_bind_ok.mp h
  rw [Tx.modify_bind_apply] at h
  obtain ⟨_, s₅, hremove, h⟩ := Tx.bind_ok.mp h
  obtain ⟨_, s₆, hclear, h⟩ := Tx.bind_ok.mp h
  have haccepted : s₅.workBook = { s.workBook with
      works := s.works.insert id { work with status := .accepted }
      pendingWorks := swapRemoveFirst (fun id' => decide (id' = id)) s.workBook.pendingWorks
      executionQueue := s.workBook.executionQueue ++ [⟨id, s.base.blockNumber.satAdd 1⟩]
      ledger := l₃ } := by
    cases hremove
    exact WorkBook.ext rfl rfl rfl rfl rfl (BoundedVec.tryPush_eq_some.mp hqueue) rfl
  have hcleared : s'.workBook = s₆.workBook := by
    cases h
    rfl
  refine .of_step (hcleared.trans ((clearAssignment_workBook hclear).trans haccepted)) ?_
  exact .accept hwork hstatus hcandidate ⟨l₁, l₂, hl₁, hl₂, hl₃⟩

/-- Progress of a pending work. -/
theorem progressWork_workMoves (block : BlockNumber) (id : WorkId) :
    Tx.Rel WorkMoves (progressWork block id : M T Unit) := by
  refine Tx.Rel.intro (fun s _ s' h => ?_) fun s e s' h =>
    absurd h (progressWork_noErr block id s e s')
  rcases progressWork_cases h with rfl | ⟨work, hwork, ⟨hstatus, h⟩ | ⟨_, hstatus, h⟩ |
    ⟨hstatus, -, h⟩⟩
  · exact Std.Refl.refl _
  · exact prepareRound_workMoves hwork hstatus h
  · exact advanceOrFail_workMoves hwork hstatus (Tx.transaction_ok.mp h)
  · exact acceptCandidate_workMoves hwork hstatus (Tx.transaction_ok.mp h)

theorem onInitialize_workMoves (block : BlockNumber) :
    Tx.Rel WorkMoves (onInitialize block : M T Unit) :=
  Tx.Rel.bind Tx.Rel.read fun _ => Tx.Rel.forEach fun id _ => progressWork_workMoves block id

/-! ### The virtual block -/

theorem importReports_works (h : Tx.forEach (importReport output) workIds s = .ok () s') :
    ∃ imported : List WorkId, (∀ id ∈ imported, id ∈ workIds) ∧
      s'.works = imported.foldl WorkBook.markImported s.works := by
  induction workIds generalizing s with
  | nil =>
    cases h
    exact ⟨[], by simp, rfl⟩
  | cons workId workIds ih =>
    rw [Tx.forEach_cons] at h
    obtain ⟨_, s₁, hfirst, hrest⟩ := Tx.bind_ok.mp h
    obtain ⟨imported, hsub, hworks⟩ := ih hrest
    rcases importReport_ok hfirst with ⟨-, work, hwork, rfl⟩ | ⟨-, rfl⟩
    · refine ⟨workId :: imported, ?_, ?_⟩
      · exact List.forall_mem_cons.mpr ⟨List.mem_cons_self ..,
          fun id hid => List.mem_cons_of_mem _ (hsub id hid)⟩
      · have hmark : WorkBook.markImported s.works workId =
            s.works.insert workId { work with status := .imported } := by
          unfold WorkBook.markImported
          rw [hwork]
        rw [hworks, List.foldl_cons, hmark]
    · exact ⟨imported, fun id hid => List.mem_cons_of_mem _ (hsub id hid), hworks⟩

/-- A commit marks works of its batch, and leaves the rest of the books. -/
theorem commitOutput_workBook {summary : BlockStfSummary}
    (h : commitOutput workIds input output delta s = .ok summary s') :
    ∃ imported : List WorkId, (∀ id ∈ imported, id ∈ workIds) ∧
      s'.workBook = { s.workBook with
        works := imported.foldl WorkBook.markImported s.works } := by
  obtain ⟨s₄, s₅, hwithin, h₅, rfl⟩ := commitOutput_imports h
  have hbefore : s₄.workBook = s.workBook := hwithin.unchanged State.workBook fun _ _ => rfl
  obtain ⟨imported, hsub, hworks⟩ := importReports_works h₅
  -- The import loop writes works only.
  have hrest : ({ s₅.workBook with works := s₄.works } : WorkBook AccountId Ledger) =
      s₄.workBook := ((importReports_within output workIds).of_ok h₅).unchanged
        (fun s => { s.workBook with works := s₄.works }) fun _ _ => rfl
  refine ⟨imported, hsub, ?_⟩
  calc s₅.workBook = { ({ s₅.workBook with works := s₄.works } : WorkBook AccountId Ledger) with
          works := s₅.works } := rfl
    _ = { s.workBook with works := imported.foldl WorkBook.markImported s.works } := by
      rw [hrest, hbefore, hworks, show s₄.works = s.works from congrArg WorkBook.works hbefore]

/-- What a committed block does to the books. -/
theorem onFinalize_workBook (ha : Answered s block input output delta)
    (h : onFinalize block s = .ok () s') :
    ∃ imported : List WorkId, (∀ id ∈ imported, id ∈ (dueItems s block).map ExecutionItem.workId) ∧
      s'.workBook = { s.workBook with
        works := imported.foldl WorkBook.markImported s.works
        executionQueue := retainedItems s block } := by
  obtain ⟨summary, s₁, queue, hcommit, hqueue, rfl⟩ := onFinalize_of_answered ha h
  obtain ⟨imported, hsub, hbook⟩ := commitOutput_workBook hcommit
  refine ⟨imported, hsub, ?_⟩
  calc _ = { s₁.workBook with executionQueue := queue.toList } := rfl
    _ = _ := by rw [hbook, hqueue]

/-- A block that was refused leaves the books. -/
theorem handleFailure_workBook {e : ExecutionFailure} (hne : e ≠ .fatal)
    (h : handleFailure e s = .ok () s') : s'.workBook = s.workBook := by
  refine (handleFailure_ok hne h).unchanged State.workBook fun _ _ => ?_
  cases e <;> rfl

theorem onFinalize_workMoves (h : onFinalize block s = .ok () s') : WorkMoves s s' := by
  rcases onFinalize_cases h with
    ⟨input, output, delta, summary, s₁, queue, ha, -, -, -⟩ | ⟨e, -, hne, hhandle⟩
  · obtain ⟨imported, hsub, hbook⟩ := onFinalize_workBook ha h
    exact .of_step hbook (.commit (due_append_retained_perm s block) hsub)
  · exact .of_eq (handleFailure_workBook hne hhandle)

/-! ### Every step -/

variable [DecidableEq AccountId]

/-- A submitted work is entered, and its first round is prepared. -/
theorem submitWork_workMoves {package : BoundedVec UInt8 T.maxWorkPackageBytes.toNat}
    {bundleRef : ContentRef} (h : submitWork origin package bundleRef s = .ok () s') :
    WorkMoves s s' := by
  obtain ⟨owner, -, -, h⟩ := ensureIngressRelayer_bind_ok.mp h
  obtain ⟨-, h⟩ := Tx.ensure_bind_ok.mp h
  obtain ⟨_, s₁, hcontent, h⟩ := Tx.bind_ok.mp h
  rw [validateContentRef_ok hcontent] at h
  obtain ⟨_, s₁', hpackage, h⟩ := Tx.bind_ok.mp h
  rw [(decodeWorkPackage_ok hpackage).2, Tx.read_bind_apply] at h
  obtain ⟨hnew, h⟩ := Tx.ensure_bind_ok.mp h
  rw [Bool.not_eq_true'] at hnew
  obtain ⟨next, hnext, h⟩ := Tx.okOr_bind_ok.mp h
  obtain ⟨pending, hpending, h⟩ := Tx.okOr_bind_ok.mp h
  rw [Tx.modify_bind_apply] at h
  obtain ⟨_, s₂, hhold, h⟩ := Tx.bind_ok.mp h
  obtain ⟨ledger, hdeposit, rfl⟩ := currencyOp_ok hhold
  obtain ⟨_, s₃, hcreate, h⟩ := Tx.bind_ok.mp h
  obtain ⟨_, s₄, hprepare, h⟩ := Tx.bind_ok.mp h
  rw [Tx.read_bind_apply] at h
  obtain ⟨_, -, hevent⟩ := Tx.okOr_bind_ok.mp h
  -- The work is created, then its round is prepared, then the event is logged.
  have hcreated : s₃.workBook = { s.workBook with
      works := s.works.insert s.nextWorkId
        ⟨owner, T.workers.crypto.blake2_256 package.toList, package.toList, bundleRef, 0,
          .insufficientWorkers, 0⟩
      workByPackageHash := s.workByPackageHash.insert
        (T.workers.crypto.blake2_256 package.toList) s.nextWorkId
      nextWorkId := next
      pendingWorks := s.workBook.pendingWorks ++ [s.nextWorkId]
      ledger := ledger } := by
    cases hcreate
    exact WorkBook.ext rfl rfl rfl rfl (BoundedVec.tryPush_eq_some.mp hpending) rfl rfl
  have hentered : WorkMoves s s₃ := .of_step hcreated
    (.create (StorageMap.lookup_of_not_contains hnew) hnext hdeposit)
  have hprepared : WorkMoves s₃ s₄ := by
    rcases Tx.ignore_undone (fun _ _ h => (prepareRound_err h).2) hprepare with rfl | h
    · exact Std.Refl.refl _
    · cases hcreate
      exact prepareRound_workMoves (AList.lookup_insert _) rfl h
  have hlast : WorkMoves s₄ s' := by
    cases hevent
    exact .of_eq rfl
  exact hentered.trans (hprepared.trans hlast)

/-- A submitted candidate is entered, and its bond is held. -/
theorem submitCandidate_workMoves (h : submitCandidate origin envelope s = .ok () s') :
    WorkMoves s s' := by
  obtain ⟨submitter, work, ledger, base, hwork, hstatus, hnew, -, -, hbond, hbase, rfl⟩ :=
    submitCandidate_ok h
  have hledger : base.ledger = ledger :=
    (Workers.duties_of_rounds (Workers.openVoting_rounds hbase)).unchanged
      Workers.State.ledger fun _ _ => rfl
  subst hledger
  exact .of_step rfl (@WorkBook.Step.candidate _ _ _ _ _ work ⟨submitter, envelope, _⟩ _ hwork
    hstatus hnew hbond)

theorem workMoves_of_call {call : Call T} (h : call.body origin s = .ok () s') :
    WorkMoves s s' := by
  cases call with
  | register sessionKey stake => exact inWorkers_workMoves (fun _ _ => Workers.register_ledger) h
  | scheduleUpdate sessionKey stake =>
    exact inWorkers_workMoves (fun _ _ => Workers.scheduleUpdate_ledger) h
  | submitVote workerId vote signature =>
    exact inWorkers_workMoves (fun _ _ => Workers.submitVote_ledger) h
  | submitEquivocation workerId first firstSignature second secondSignature =>
    exact inWorkers_workMoves (fun _ _ => Workers.submitEquivocation_ledger) h
  | submitWork package bundleRef => exact submitWork_workMoves h
  | submitCandidate envelope => exact submitCandidate_workMoves h
  | quarantinePending =>
    obtain ⟨-, hs⟩ := quarantinePending_ok h
    -- To the books this is a commit that imports and retains nothing.
    have hcleared : s'.workBook = { s.workBook with
        works := [].foldl WorkBook.markImported s.works
        executionQueue := [] } := hs ▸ rfl
    have hperm : (s.workBook.executionQueue ++ []).Perm s.workBook.executionQueue := by
      rw [List.append_nil]
    exact .of_step hcleared (.commit hperm (by simp))
  | fundService serviceId amount =>
    obtain ⟨_, _, _, _, _, -, htransfer, rfl⟩ := fundService_ok h
    exact .of_step rfl (.transfer htransfer)
  | _ => exact .of_eq ((outer_of_call rfl h).unchanged State.workBook fun _ _ => rfl)

/-- A step of the chain moves the books of the works, or it replaces the ledger. -/
theorem workMoves_of_step {l : Chain.Label T} (h : Chain.Step T s l s') :
    WorkMoves s s' ∨ ∃ blockNumber blockHash ledger,
      l.1 = .system blockNumber blockHash ledger ∧
      s'.workBook = { s.workBook with ledger := ledger } := by
  obtain ⟨action, _ | e⟩ := l
  · cases action with
    | extrinsic origin call => exact Or.inl (workMoves_of_call (Tx.transaction_ok.mp h))
    | workersOnInitialize block =>
      exact Or.inl (inWorkers_workMoves (fun _ _ => (Workers.onInitialize_ledger block).of_ok) h)
    | jamOnInitialize block => exact Or.inl ((onInitialize_workMoves block).of_ok h)
    | onFinalize block => exact Or.inl (onFinalize_workMoves h)
    | consumeAllocation allocationId =>
      obtain ⟨pending, -, hs⟩ := consumeAllocation_ok (Tx.transaction_ok.mp h)
      exact Or.inl (.of_eq (hs ▸ rfl))
    | system blockNumber blockHash ledger =>
      cases h
      exact Or.inr ⟨blockNumber, blockHash, ledger, rfl, rfl⟩
  · rw [step_err h]
    exact Or.inl (.of_eq rfl)

theorem genesis_workBook (h : Chain.Genesis T s) : s.workBook.Sound := by
  let items : State T → _ := fun s => (s.works, s.workByPackageHash, s.pendingWorks,
    s.executionQueue)
  obtain ⟨ledger, hitems⟩ := genesis_initial h items fun _ _ => rfl
  simp only [items, Prod.mk.injEq] at hitems
  obtain ⟨hworks, hindex, hpending, hqueue⟩ := hitems
  have hnone : ∀ id work, s.works.lookup id ≠ some work := by
    intro id work
    rw [hworks]
    exact nofun
  refine ⟨fun id work hwork => absurd hwork (hnone id work), fun hash id => ?_, ?_, fun id => ?_,
    fun id work hwork => absurd hwork (hnone id work), ?_, fun item hitem => ?_⟩
  · refine iff_of_false (fun hid => ?_) fun ⟨work, hwork, _⟩ => hnone id work hwork
    have hid : s.workByPackageHash.lookup hash = some id := hid
    rw [hindex] at hid
    cases hid
  · show s.pendingWorks.toList.Nodup
    rw [hpending]
    exact List.nodup_nil
  · refine iff_of_false (fun hid => ?_) fun ⟨work, hwork, _⟩ => hnone id work hwork
    have hid : id ∈ s.pendingWorks.toList := hid
    rw [hpending] at hid
    cases hid
  · show (s.executionQueue.toList.map ExecutionItem.workId).Nodup
    rw [hqueue]
    exact List.nodup_nil
  · have hitem : item ∈ s.executionQueue.toList := hitem
    rw [hqueue] at hitem
    cases hitem

/-- The books agree in every state of every run. -/
theorem workBook_sound {h : Chain.History T} (hr : Chain.Run T h s) :
    s.workBook.Sound := by
  refine hr.invariant_state (I := fun s => s.workBook.Sound) (fun s hs => genesis_workBook hs)
    fun s l s' hs hstep => ?_
  rcases workMoves_of_step hstep with hmoves | ⟨_, _, ledger, -, hbook⟩
  · exact WorkBook.Sound.of_steps hs hmoves
  · rw [hbook]
    exact hs.withLedger ledger

end MiniJam.Jam
