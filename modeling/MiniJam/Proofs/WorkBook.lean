import MiniJam.Proofs.WorkLife

/-!
# `MiniJam.Proofs.WorkBook`: the books the minijam pallet keeps of its works

`WorkBook` is the part of the storage that says which works there are and where each stands: the
records, the index by package hash, the candidates, the list of pending works, the queue of
accepted works, and the ledger with the deposits and bonds.

`WorkBook.Step` lists what the pallet can do to its books. A step names the currency operations it
makes, so nothing is assumed about the currency. `WorkBook.Sound` is what the steps keep: the
record of a work, the pending works and the queue always agree.
-/

set_option autoImplicit false

/-- A currency operation of the workers pallet. -/
inductive MiniJam.Workers.LedgerStep {AccountId Ledger : Type} (T : Config AccountId Ledger)
    (l : Ledger) : Ledger → Prop where
  | hold {who : AccountId} {amount : Balance} {l' : Ledger}
      (hhold : T.currency.hold .workerStake who amount l = some l') : LedgerStep T l l'
  | release {who : AccountId} {amount : Balance} {l' : Ledger}
      (hrelease : T.currency.release .workerStake who amount l = some l') : LedgerStep T l l'
  /-- What a slash takes goes to the reward pool. -/
  | slash {who : AccountId} {amount : Balance} {l' : Ledger}
      (hresolve : T.currency.resolve T.rewardPool (T.currency.slash .workerStake who amount l).1
        (T.currency.slash .workerStake who amount l).2.2 = some l') : LedgerStep T l l'
  | transfer {payer payee : AccountId} {amount : Balance} {l' : Ledger}
      (htransfer : T.currency.transfer payer payee amount l = some l') : LedgerStep T l l'

namespace MiniJam.Jam

variable {AccountId Ledger : Type} {T : Config AccountId Ledger}

/-! ### The books -/

/-- The work waits for workers, for a candidate or for votes. -/
def WorkStatus.isPending : WorkStatus → Bool
  | .insufficientWorkers => true
  | .awaitingCandidate => true
  | .voting => true
  | _ => false

/-- The work has a candidate in its current round. -/
def WorkStatus.hasCandidate : WorkStatus → Bool
  | .voting => true
  | .accepted => true
  | .imported => true
  | _ => false

/-- The books of the works. -/
@[ext] structure WorkBook (AccountId Ledger : Type) where
  works : StorageMap WorkId (WorkRecord AccountId)
  workByPackageHash : StorageMap Hash WorkId
  nextWorkId : WorkId
  candidates : StorageMap Workers.RoundKey (CandidateRecord AccountId)
  pendingWorks : List WorkId
  executionQueue : List ExecutionItem
  ledger : Ledger

def State.workBook (s : State T) : WorkBook AccountId Ledger where
  works := s.works
  workByPackageHash := s.workByPackageHash
  nextWorkId := s.nextWorkId
  candidates := s.candidates
  pendingWorks := s.pendingWorks.toList
  executionQueue := s.executionQueue.toList
  ledger := s.base.ledger

/-- A hold is slashed in full, and the credit goes to the reward pool. -/
def SlashedInFull (T : Config AccountId Ledger) (reason : HoldReason) (who : AccountId)
    (amount : Balance) (l l' : Ledger) : Prop :=
  (T.currency.slash reason who amount l).2.1 = 0 ∧
    T.currency.resolve T.rewardPool (T.currency.slash reason who amount l).1
      (T.currency.slash reason who amount l).2.2 = some l'

/-- The part of the bond that a rejection takes. -/
def rejectionSlash (T : Config AccountId Ledger) : Balance :=
  min T.candidateRejectionSlash T.candidateBond

/-- The bond of a rejected candidate is slashed in part, and the rest is released. -/
def BondSettled (T : Config AccountId Ledger) (submitter : AccountId) (l l' : Ledger) : Prop :=
  ∃ l₁, SlashedInFull T .candidateBond submitter (rejectionSlash T) l l₁ ∧
    T.currency.release .candidateBond submitter (T.candidateBond - rejectionSlash T) l₁ = some l'

/-- The bond and the deposit of an accepted candidate are released, and its submitter is
rewarded. -/
def CandidatePaid (T : Config AccountId Ledger) (submitter owner : AccountId) (l l' : Ledger) :
    Prop :=
  ∃ l₁ l₂, T.currency.release .candidateBond submitter T.candidateBond l = some l₁ ∧
    T.currency.transfer T.rewardPool submitter T.acceptedSubmitterReward l₁ = some l₂ ∧
    T.currency.release .workDeposit owner T.workDeposit l₂ = some l'

namespace WorkBook

/-- Mark a work as imported. -/
def markImported (works : StorageMap WorkId (WorkRecord AccountId)) (id : WorkId) :
    StorageMap WorkId (WorkRecord AccountId) :=
  match works.lookup id with
  | some work => works.insert id { work with status := .imported }
  | none => works

/-- A round is over. A round without a candidate has no bond to settle. -/
inductive RoundOver (T : Config AccountId Ledger) (b : WorkBook AccountId Ledger) (id : WorkId)
    (work : WorkRecord AccountId) : Ledger → Prop where
  | expired (hstatus : work.status = .awaitingCandidate) : RoundOver T b id work b.ledger
  | rejected {candidate : CandidateRecord AccountId} {ledger : Ledger}
      (hstatus : work.status = .voting)
      (hcandidate : b.candidates.lookup (id, work.round) = some candidate)
      (hbond : BondSettled T candidate.submitter b.ledger ledger) :
      RoundOver T b id work ledger

/-- What the pallet can do to its books. -/
inductive Step (T : Config AccountId Ledger) (b : WorkBook AccountId Ledger) :
    WorkBook AccountId Ledger → Prop where
  | create {owner : AccountId} {package : Bytes} {bundleRef : ContentRef} {next : WorkId}
      {ledger : Ledger}
      (hnew : b.workByPackageHash.lookup (T.workers.crypto.blake2_256 package) = none)
      (hnext : b.nextWorkId.checkedAdd 1 = some next)
      (hdeposit : T.currency.hold .workDeposit owner T.workDeposit b.ledger = some ledger) :
      Step T b { b with
        works := b.works.insert b.nextWorkId
          { owner := owner
            packageHash := T.workers.crypto.blake2_256 package
            canonicalWorkPackage := package
            bundleRef := bundleRef
            round := 0
            status := .insufficientWorkers
            candidateDeadline := 0 }
        workByPackageHash :=
          b.workByPackageHash.insert (T.workers.crypto.blake2_256 package) b.nextWorkId
        nextWorkId := next
        pendingWorks := b.pendingWorks ++ [b.nextWorkId]
        ledger := ledger }
  /-- Workers are found for the round, or they are not. -/
  | prepare {id : WorkId} {work : WorkRecord AccountId} {status : WorkStatus}
      {deadline : BlockNumber} (hwork : b.works.lookup id = some work)
      (hstatus : work.status = .insufficientWorkers)
      (hnew : status = .awaitingCandidate ∨ status = .insufficientWorkers) :
      Step T b { b with
        works := b.works.insert id { work with status := status, candidateDeadline := deadline } }
  | candidate {id : WorkId} {work : WorkRecord AccountId} {candidate : CandidateRecord AccountId}
      {ledger : Ledger} (hwork : b.works.lookup id = some work)
      (hstatus : work.status = .awaitingCandidate)
      (hnew : b.candidates.lookup (id, work.round) = none)
      (hbond : T.currency.hold .candidateBond candidate.submitter T.candidateBond b.ledger =
        some ledger) :
      Step T b { b with
        works := b.works.insert id { work with status := .voting }
        candidates := b.candidates.insert (id, work.round) candidate
        ledger := ledger }
  | advance {id : WorkId} {work : WorkRecord AccountId} {ledger : Ledger}
      (hwork : b.works.lookup id = some work) (hover : RoundOver T b id work ledger)
      (hnext : work.round.satAdd 1 < T.maxCandidateRounds) :
      Step T b { b with
        works := b.works.insert id
          { work with round := work.round.satAdd 1, status := .insufficientWorkers }
        ledger := ledger }
  | fail {id : WorkId} {work : WorkRecord AccountId} {l ledger : Ledger}
      (hwork : b.works.lookup id = some work) (hover : RoundOver T b id work l)
      (hdeposit : SlashedInFull T .workDeposit work.owner T.workDeposit l ledger) :
      Step T b { b with
        works := b.works.insert id { work with status := .failed }
        pendingWorks := swapRemoveFirst (fun id' => decide (id' = id)) b.pendingWorks
        ledger := ledger }
  | accept {id : WorkId} {work : WorkRecord AccountId} {candidate : CandidateRecord AccountId}
      {executeAt : BlockNumber} {ledger : Ledger} (hwork : b.works.lookup id = some work)
      (hstatus : work.status = .voting)
      (hcandidate : b.candidates.lookup (id, work.round) = some candidate)
      (hpaid : CandidatePaid T candidate.submitter work.owner b.ledger ledger) :
      Step T b { b with
        works := b.works.insert id { work with status := .accepted }
        pendingWorks := swapRemoveFirst (fun id' => decide (id' = id)) b.pendingWorks
        executionQueue := b.executionQueue ++ [⟨id, executeAt⟩]
        ledger := ledger }
  /-- Items leave the queue, and the works of some of them are imported. -/
  | commit {imported : List WorkId} {due retained : List ExecutionItem}
      (hqueue : (due ++ retained).Perm b.executionQueue)
      (himported : ∀ id ∈ imported, id ∈ due.map ExecutionItem.workId) :
      Step T b { b with
        works := imported.foldl markImported b.works
        executionQueue := retained }
  /-- A payment that has nothing to do with works. -/
  | transfer {payer payee : AccountId} {amount : Balance} {ledger : Ledger}
      (htransfer : T.currency.transfer payer payee amount b.ledger = some ledger) :
      Step T b { b with ledger := ledger }
  /-- The workers pallet moves stakes and rewards. -/
  | workers {ledger : Ledger} (hledger : Workers.LedgerStep T.workers b.ledger ledger) :
      Step T b { b with ledger := ledger }

/-! ### What the steps keep -/

/-- The books agree. -/
structure Sound (b : WorkBook AccountId Ledger) : Prop where
  works_lt : ∀ id work, b.works.lookup id = some work → id < b.nextWorkId
  /-- The index has the works under their package hashes. -/
  indexed : ∀ hash id, b.workByPackageHash.lookup hash = some id ↔
    ∃ work, b.works.lookup id = some work ∧ work.packageHash = hash
  pending_nodup : b.pendingWorks.Nodup
  pending_iff : ∀ id, id ∈ b.pendingWorks ↔
    ∃ work, b.works.lookup id = some work ∧ work.status.isPending = true
  candidate : ∀ id work, b.works.lookup id = some work → work.status.hasCandidate = true →
    ∃ candidate, b.candidates.lookup (id, work.round) = some candidate
  queue_nodup : (b.executionQueue.map ExecutionItem.workId).Nodup
  queue_accepted : ∀ item ∈ b.executionQueue,
    ∃ work, b.works.lookup item.workId = some work ∧ work.status = .accepted

variable {b b' : WorkBook AccountId Ledger}

/-- The books agree whatever the ledger says. -/
theorem Sound.withLedger (hb : b.Sound) (ledger : Ledger) : Sound { b with ledger := ledger } :=
  ⟨hb.works_lt, hb.indexed, hb.pending_nodup, hb.pending_iff, hb.candidate, hb.queue_nodup,
    hb.queue_accepted⟩

variable {work : WorkRecord AccountId} {id : WorkId}

/-- A work that is not accepted is not in the queue. -/
theorem Sound.not_queued (hb : b.Sound) (hwork : b.works.lookup id = some work)
    (hstatus : work.status ≠ .accepted) : ∀ item ∈ b.executionQueue, item.workId ≠ id := by
  rintro item hitem rfl
  obtain ⟨work', hwork', haccepted⟩ := hb.queue_accepted item hitem
  rw [hwork] at hwork'
  cases hwork'
  exact hstatus haccepted

/-- The record of a work that is not accepted is replaced. The list of the pending works and
the queue are right again for that work, and as they were for the others. -/
theorem Sound.replace {work' : WorkRecord AccountId} (hb : b.Sound)
    (hwork : b.works.lookup id = some work) (hstatus : work.status ≠ .accepted)
    (hworks : b'.works = b.works.insert id work') (hhash : work'.packageHash = work.packageHash)
    (hindex : b'.workByPackageHash = b.workByPackageHash) (hnext : b'.nextWorkId = b.nextWorkId)
    (hnodup : b'.pendingWorks.Nodup)
    (hpending : ∀ id', id' ∈ b'.pendingWorks ↔
      if id' = id then work'.status.isPending = true else id' ∈ b.pendingWorks)
    (hcandidates : ∀ id' r, id' ≠ id → b'.candidates.lookup (id', r) = b.candidates.lookup (id', r))
    (hcandidate : work'.status.hasCandidate = true →
      ∃ candidate, b'.candidates.lookup (id, work'.round) = some candidate)
    (hqueue : b'.executionQueue = b.executionQueue ∨ work'.status = .accepted ∧
      ∃ executeAt, b'.executionQueue = b.executionQueue ++ [⟨id, executeAt⟩]) : b'.Sound := by
  have hlookup : ∀ id', b'.works.lookup id' = if id' = id then some work' else
      b.works.lookup id' := by
    intro id'
    rw [hworks, StorageMap.lookup_insert_eq]
  have hunqueued := hb.not_queued hwork hstatus
  refine ⟨fun id' record hrecord => ?_, fun hash id' => ?_, hnodup, fun id' => ?_,
    fun id' record hrecord => ?_, ?_, ?_⟩
  · rw [hnext]
    rw [hlookup] at hrecord
    split_ifs at hrecord with hid
    · exact hid ▸ hb.works_lt id work hwork
    · exact hb.works_lt id' record hrecord
  · rw [hindex, hb.indexed, hlookup]
    split_ifs with hid
    · rw [hid, hwork]
      simp [hhash]
    · rfl
  · rw [hpending, hlookup]
    split_ifs with hid
    · simp
    · exact hb.pending_iff id'
  · rw [hlookup] at hrecord
    split_ifs at hrecord with hid
    · cases hrecord
      rw [hid]
      exact hcandidate
    · rw [hcandidates id' _ hid]
      exact hb.candidate id' record hrecord
  · rcases hqueue with hqueue | ⟨-, executeAt, hqueue⟩
    · rw [hqueue]
      exact hb.queue_nodup
    · rw [hqueue, List.map_append, List.map_cons, List.map_nil]
      refine List.nodup_append.mpr ⟨hb.queue_nodup, List.nodup_singleton id, ?_⟩
      intro id' hid' id'' hid''
      obtain ⟨item, hitem, rfl⟩ := List.mem_map.mp hid'
      rw [List.mem_singleton.mp hid'']
      exact hunqueued item hitem
  · -- An item that was there is of another work.
    have hold : ∀ item ∈ b.executionQueue, ∃ record, b'.works.lookup item.workId = some record ∧
        record.status = .accepted := by
      intro item hitem
      rw [hlookup, if_neg (hunqueued item hitem)]
      exact hb.queue_accepted item hitem
    rcases hqueue with hqueue | ⟨haccepted, executeAt, hqueue⟩
    · rw [hqueue]
      exact hold
    · intro item hitem
      rw [hqueue] at hitem
      rcases List.mem_append.mp hitem with hitem | hitem
      · exact hold item hitem
      · rw [List.mem_singleton.mp hitem, hlookup, if_pos rfl]
        exact ⟨work', rfl, haccepted⟩

/-- A work that leaves the pending works for good. -/
theorem Sound.mem_remove (hb : b.Sound) {status : WorkStatus} (hstatus : status.isPending = false)
    (id' : WorkId) :
    id' ∈ swapRemoveFirst (fun id' => decide (id' = id)) b.pendingWorks ↔
      if id' = id then status.isPending = true else id' ∈ b.pendingWorks := by
  rw [mem_swapRemoveFirst id hb.pending_nodup, hstatus]
  split_ifs with hid
  · simp [hid]
  · simp [hid]

/-- A pending work stays where it is in the list. -/
theorem Sound.mem_keep (hb : b.Sound) {status : WorkStatus} (hwork : b.works.lookup id = some work)
    (hold : work.status.isPending = true) (hstatus : status.isPending = true) (id' : WorkId) :
    id' ∈ b.pendingWorks ↔
      if id' = id then status.isPending = true else id' ∈ b.pendingWorks := by
  split_ifs with hid
  · simp only [hstatus, iff_true]
    exact (hb.pending_iff id').mpr ⟨work, hid ▸ hwork, hold⟩
  · rfl

/-- The round that is over was one of a pending work. -/
theorem RoundOver.status {ledger : Ledger} (h : RoundOver T b id work ledger) :
    work.status.isPending = true ∧ work.status ≠ .accepted := by
  cases h with
  | expired hstatus => simp [hstatus, WorkStatus.isPending]
  | rejected hstatus => simp [hstatus, WorkStatus.isPending]

theorem lookup_markImported (works : StorageMap WorkId (WorkRecord AccountId))
    (id id' : WorkId) :
    (markImported works id).lookup id' = if id' = id then
      (works.lookup id').map fun work => { work with status := .imported }
      else works.lookup id' := by
  unfold markImported
  cases hwork : works.lookup id with
  | none =>
    split_ifs with hid
    · rw [hid, hwork, Option.map_none]
    · rfl
  | some work =>
    dsimp only
    rw [StorageMap.lookup_insert_eq]
    split_ifs with hid
    · rw [hid, hwork, Option.map_some]
    · rfl

/-- What marking leaves at a work. Marking twice is marking once. -/
theorem lookup_foldl_markImported (works : StorageMap WorkId (WorkRecord AccountId))
    (ids : List WorkId) (id : WorkId) :
    (ids.foldl markImported works).lookup id = if id ∈ ids then
      (works.lookup id).map fun work => { work with status := .imported }
      else works.lookup id := by
  induction ids generalizing works with
  | nil => simp
  | cons id' ids ih =>
    rw [List.foldl_cons, ih, lookup_markImported]
    by_cases hid : id = id'
    · subst hid
      by_cases hmem : id ∈ ids
      · simp [hmem, Function.comp_def]
      · simp [hmem]
    · simp [hid]

variable {imported : List WorkId} {due retained : List ExecutionItem}

/-- The record of a marked work was accepted before. -/
theorem Sound.lookup_commit (hb : b.Sound) (hqueue : (due ++ retained).Perm b.executionQueue)
    (himported : ∀ id ∈ imported, id ∈ due.map ExecutionItem.workId) (id : WorkId) :
    (imported.foldl markImported b.works).lookup id = b.works.lookup id ∨
      ∃ work, b.works.lookup id = some work ∧ work.status = .accepted ∧
        (imported.foldl markImported b.works).lookup id =
          some { work with status := .imported } := by
  rw [lookup_foldl_markImported]
  split_ifs with hid
  · obtain ⟨item, hitem, rfl⟩ := List.mem_map.mp (himported id hid)
    obtain ⟨work, hwork, hstatus⟩ :=
      hb.queue_accepted item (hqueue.mem_iff.mp (List.mem_append_left _ hitem))
    exact Or.inr ⟨work, hwork, hstatus, by rw [hwork, Option.map_some]⟩
  · exact Or.inl rfl

/-- Imported works were accepted, and an item of the queue that stays is of another work. -/
theorem Sound.commit (hb : b.Sound) (hqueue : (due ++ retained).Perm b.executionQueue)
    (himported : ∀ id ∈ imported, id ∈ due.map ExecutionItem.workId) :
    Sound { b with
      works := imported.foldl markImported b.works
      executionQueue := retained } := by
  have hnodup : ((due ++ retained).map ExecutionItem.workId).Nodup :=
    (hqueue.map ExecutionItem.workId).nodup_iff.mpr hb.queue_nodup
  rw [List.map_append] at hnodup
  obtain ⟨-, hretained, hdisjoint⟩ := List.nodup_append.mp hnodup
  have hlookup := hb.lookup_commit hqueue himported
  refine ⟨fun id record hrecord => ?_, fun hash id => ?_, hb.pending_nodup, fun id => ?_,
    fun id record hrecord hstatus => ?_, hretained, fun item hitem => ?_⟩
  · rcases hlookup id with heq | ⟨work, hwork, -, -⟩
    · exact hb.works_lt id record (heq ▸ hrecord)
    · exact hb.works_lt id work hwork
  · rw [hb.indexed]
    rcases hlookup id with heq | ⟨work, hwork, -, heq⟩
    · rw [heq]
    · rw [heq, hwork]
      simp
  · rw [hb.pending_iff]
    rcases hlookup id with heq | ⟨work, hwork, hstatus, heq⟩
    · rw [heq]
    · rw [heq, hwork]
      simp [hstatus, WorkStatus.isPending]
  · rcases hlookup id with heq | ⟨work, hwork, haccepted, heq⟩
    · exact hb.candidate id record (heq ▸ hrecord) hstatus
    · have hsame : record = { work with status := .imported } :=
        Option.some.inj (hrecord.symm.trans heq)
      rw [hsame]
      exact hb.candidate id work hwork (by rw [haccepted]; rfl)
  · -- What is imported was due, and the retained items are of other works.
    have hother : item.workId ∉ imported := fun hmem =>
      hdisjoint _ (himported _ hmem) _ (List.mem_map_of_mem hitem) rfl
    rw [lookup_foldl_markImported, if_neg hother]
    exact hb.queue_accepted item (hqueue.mem_iff.mp (List.mem_append_right _ hitem))

theorem Sound.create {owner : AccountId} {package : Bytes} {bundleRef : ContentRef}
    {next : WorkId} {hash : Hash} {ledger : Ledger} (hb : b.Sound)
    (hnew : b.workByPackageHash.lookup hash = none)
    (hnext : b.nextWorkId.checkedAdd 1 = some next) :
    Sound { b with
      works := b.works.insert b.nextWorkId
        { owner := owner
          packageHash := hash
          canonicalWorkPackage := package
          bundleRef := bundleRef
          round := 0
          status := .insufficientWorkers
          candidateDeadline := 0 }
      workByPackageHash := b.workByPackageHash.insert hash b.nextWorkId
      nextWorkId := next
      pendingWorks := b.pendingWorks ++ [b.nextWorkId]
      ledger := ledger } := by
  have hlt := UInt64.lt_of_checkedAdd hnext
  -- The next id is free.
  have hfree : ∀ work, b.works.lookup b.nextWorkId ≠ some work :=
    fun work hwork => absurd (hb.works_lt _ work hwork) (UInt64.lt_irrefl _)
  have hunlisted : b.nextWorkId ∉ b.pendingWorks := by
    intro hmem
    obtain ⟨work, hwork, -⟩ := (hb.pending_iff _).mp hmem
    exact hfree work hwork
  have hunqueued : ∀ item ∈ b.executionQueue, item.workId ≠ b.nextWorkId := by
    intro item hitem heq
    obtain ⟨work, hwork, -⟩ := hb.queue_accepted item hitem
    exact hfree work (heq ▸ hwork)
  refine ⟨fun id record hrecord => ?_, fun hash' id => ?_, ?_, fun id => ?_,
    fun id record hrecord hstatus => ?_, hb.queue_nodup, fun item hitem => ?_⟩
  · rw [StorageMap.lookup_insert_eq] at hrecord
    split_ifs at hrecord with hid
    · rw [hid]
      exact hlt
    · exact UInt64.lt_trans (hb.works_lt id record hrecord) hlt
  · simp only [StorageMap.lookup_insert_eq]
    by_cases hhash : hash' = hash
    · subst hhash
      -- No other work has the new hash.
      have hnone : ∀ id, ¬ ∃ work, b.works.lookup id = some work ∧ work.packageHash = hash' := by
        intro id hid
        rw [(hb.indexed hash' id).mpr hid] at hnew
        cases hnew
      by_cases hid : id = b.nextWorkId
      · simp [hid]
      · simpa [hid, Ne.symm hid] using hnone id
    · rw [if_neg hhash, hb.indexed]
      by_cases hid : id = b.nextWorkId
      · subst hid
        simp [Ne.symm hhash, hfree]
      · simp [hid]
  · refine List.nodup_append.mpr ⟨hb.pending_nodup, List.nodup_singleton _, ?_⟩
    rintro id hid id' hid' rfl
    rw [List.mem_singleton.mp hid'] at hid
    exact hunlisted hid
  · simp only [StorageMap.lookup_insert_eq, List.mem_append, List.mem_singleton]
    by_cases hid : id = b.nextWorkId
    · simp [hid, WorkStatus.isPending]
    · simpa [hid] using hb.pending_iff id
  · rw [StorageMap.lookup_insert_eq] at hrecord
    split_ifs at hrecord with hid
    · cases hrecord
      cases hstatus
    · exact hb.candidate id record hrecord hstatus
  · simp only [StorageMap.lookup_insert_eq]
    rw [if_neg (hunqueued item hitem)]
    exact hb.queue_accepted item hitem

/-- Every step keeps the books in agreement. -/
theorem Step.sound (h : Step T b b') (hb : b.Sound) : b'.Sound := by
  cases h with
  | create hnew hnext hdeposit => exact hb.create hnew hnext
  | prepare hwork hstatus hnew =>
    rename_i id work status deadline
    have hpending : status.isPending = true ∧ status.hasCandidate = false := by
      rcases hnew with rfl | rfl <;> exact ⟨rfl, rfl⟩
    refine hb.replace hwork (by simp [hstatus]) rfl rfl rfl rfl hb.pending_nodup
      (hb.mem_keep hwork (by rw [hstatus]; rfl) hpending.1) (fun _ _ _ => rfl) ?_ (Or.inl rfl)
    simp [hpending.2]
  | candidate hwork hstatus hnew hbond =>
    rename_i id work candidate ledger
    refine hb.replace hwork (by simp [hstatus]) rfl rfl rfl rfl hb.pending_nodup
      (hb.mem_keep hwork (by rw [hstatus]; rfl) rfl) (fun id' r hid => ?_) (fun _ => ?_)
      (Or.inl rfl)
    · exact AList.lookup_insert_ne fun hk => hid (congrArg Prod.fst hk)
    · exact ⟨candidate, AList.lookup_insert _⟩
  | advance hwork hover hnext =>
    exact hb.replace hwork hover.status.2 rfl rfl rfl rfl hb.pending_nodup
      (hb.mem_keep hwork hover.status.1 rfl) (fun _ _ _ => rfl) (fun h => by cases h) (Or.inl rfl)
  | fail hwork hover hdeposit =>
    exact hb.replace hwork hover.status.2 rfl rfl rfl rfl (nodup_swapRemoveFirst _ hb.pending_nodup)
      (hb.mem_remove rfl) (fun _ _ _ => rfl) (fun h => by cases h) (Or.inl rfl)
  | accept hwork hstatus hcandidate hpaid =>
    exact hb.replace hwork (by simp [hstatus]) rfl rfl rfl rfl
      (nodup_swapRemoveFirst _ hb.pending_nodup)
      (hb.mem_remove rfl) (fun _ _ _ => rfl) (fun _ => ⟨_, hcandidate⟩) (Or.inr ⟨rfl, _, rfl⟩)
  | commit hqueue himported => exact hb.commit hqueue himported
  | transfer htransfer => exact hb.withLedger _
  | workers hledger => exact hb.withLedger _

theorem Sound.of_steps (hb : b.Sound) (h : Relation.ReflTransGen (Step T) b b') : b'.Sound := by
  induction h with
  | refl => exact hb
  | tail _ hstep ih => exact hstep.sound ih

end WorkBook

end MiniJam.Jam
