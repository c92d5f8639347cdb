import MiniJam.Proofs.Stake

/-!
# `MiniJam.Proofs.VoteKeys`: whose key a vote was checked with

A vote names its work and round, but not its worker. It is bound to a worker only through the
session key its signature is checked with: the worker's key when the round was assigned. That key
came from the genesis, from `register` or from an applied `schedule_update`, and none of the three
compares it with the keys of other workers.

`GivenKey` collects the keys ever given to a worker. `KeysGiven` is the invariant: every key in
the storage was given to the worker it stands for. So a counted vote verifies under a key of its
worker (`vote_key_given`).

As long as no key is given to two workers, a signed vote is counted for one worker at most
(`signed_vote_counted_once`). `shared_key_vote_counted_twice` is a run where two workers have one
key, and one signed vote reaches the support threshold of two.
-/

set_option autoImplicit false

namespace MiniJam.Workers

variable {AccountId Ledger : Type} {T : Config AccountId Ledger} {s s' : State T}
  {G : WorkerId → PublicKey → Prop}

/-! ### The keys of the storage -/

/-- Every key of the storage belongs to the worker it is stored for, where `G` says which
keys belong to which worker. -/
structure KeysGiven (G : WorkerId → PublicKey → Prop) (s : State T) : Prop where
  workers : ∀ id worker, s.workers.lookup id = some worker → G id worker.sessionKey
  updates : ∀ id update, s.pendingUpdates.lookup id = some update →
    ∀ key ∈ update.sessionKey, G id key
  duties : ∀ duty key, s.assignmentKeys.lookup duty = some key → G duty.2.2 key

namespace KeysGiven

/-- The keys are all that counts. -/
theorem of_eq (h : KeysGiven G s) (hworkers : s'.workers = s.workers)
    (hupdates : s'.pendingUpdates = s.pendingUpdates)
    (hduties : s'.assignmentKeys = s.assignmentKeys) : KeysGiven G s' := by
  refine ⟨?_, ?_, ?_⟩
  · rw [hworkers]
    exact h.workers
  · rw [hupdates]
    exact h.updates
  · rw [hduties]
    exact h.duties

/-- A record is written with a key of the worker. -/
theorem insert_worker (h : KeysGiven G s) {id : WorkerId} {worker : WorkerRecord AccountId}
    (hworkers : s'.workers = s.workers.insert id worker)
    (hupdates : s'.pendingUpdates = s.pendingUpdates)
    (hduties : s'.assignmentKeys = s.assignmentKeys) (hkey : G id worker.sessionKey) :
    KeysGiven G s' := by
  have hinsert : KeysGiven G { s with workers := s.workers.insert id worker } := by
    refine ⟨fun id' worker' hlookup => ?_, h.updates, h.duties⟩
    rw [StorageMap.lookup_insert_eq] at hlookup
    split_ifs at hlookup with hid
    · cases hlookup
      rw [hid]
      exact hkey
    · exact h.workers id' worker' hlookup
  exact hinsert.of_eq hworkers hupdates hduties

theorem mono {G' : WorkerId → PublicKey → Prop} (h : KeysGiven G s)
    (hle : ∀ id key, G id key → G' id key) : KeysGiven G' s where
  workers id worker hworker := hle id _ (h.workers id worker hworker)
  updates id update hupdate key hkey := hle id key (h.updates id update hupdate key hkey)
  duties duty key hkey := hle duty.2.2 key (h.duties duty key hkey)

theorem insert_update (h : KeysGiven G s) {id : WorkerId} {update : PendingWorkerUpdate}
    (hkey : ∀ key ∈ update.sessionKey, G id key) :
    KeysGiven G { s with pendingUpdates := s.pendingUpdates.insert id update } := by
  refine ⟨h.workers, fun id' update' hlookup => ?_, h.duties⟩
  rw [StorageMap.lookup_insert_eq] at hlookup
  split_ifs at hlookup with hid
  · cases hlookup
    rw [hid]
    exact hkey
  · exact h.updates id' update' hlookup

theorem erase_update (h : KeysGiven G s) (id : WorkerId) :
    KeysGiven G { s with pendingUpdates := s.pendingUpdates.erase id } := by
  refine ⟨h.workers, fun id' update' hlookup => ?_, h.duties⟩
  rw [StorageMap.lookup_erase_eq] at hlookup
  split_ifs at hlookup
  exact h.updates id' update' hlookup

end KeysGiven

/-- The storage after has belonging keys when the storage before has. -/
def KeepsKeys (G : WorkerId → PublicKey → Prop) (s s' : State T) : Prop :=
  KeysGiven G s → KeysGiven G s'

instance : Std.Refl (KeepsKeys (T := T) G) := ⟨fun _ h => h⟩

instance : IsTrans (State T) (KeepsKeys G) where
  trans _ _ _ h₁ h₂ h := h₂ (h₁ h)

/-! ### The hook and the duties -/

/-- A slashed worker keeps its key. -/
theorem SettlementWrite.keepsKeys (hwrite : SettlementWrite s s') : KeepsKeys G s s' := by
  intro h
  cases hwrite with
  | close k => exact h.of_eq rfl rfl rfl
  | pay htransfer => exact h.of_eq rfl rfl rfl
  | dock hworker hslash =>
    have hkey := h.workers _ _ hworker
    exact h.insert_worker rfl rfl rfl hkey
  | conclude k result => exact h.of_eq rfl rfl rfl

theorem finalizeVoting_keepsKeys (workId : WorkId) (round : AssignmentRound) :
    Tx.Rel (KeepsKeys G) (finalizeVoting workId round : M T Unit) :=
  finalizeVoting_rel (fun _ _ => SettlementWrite.keepsKeys) workId round

/-- A due update gives the worker the key that was scheduled for it. -/
theorem BoundaryWrite.keepsKeys (hwrite : BoundaryWrite s s') : KeepsKeys G s s' := by
  intro h
  cases hwrite with
  | @drop id update epoch hpending hworker => exact (h.erase_update id).of_eq rfl rfl rfl
  | @apply id update epoch worker hpending hworker =>
    refine (h.erase_update id).insert_worker rfl rfl rfl ?_
    show G id (update.sessionKey.getD worker.sessionKey)
    cases hscheduled : update.sessionKey with
    | none => exact h.workers id worker hworker
    | some key => exact h.updates id update hpending key hscheduled
  | release hchunk hworker hrelease => exact h.of_eq rfl rfl rfl
  | snapshot epoch workers => exact h.of_eq rfl rfl rfl

variable {round : AssignmentRound} {origin : Origin AccountId} {a : Action AccountId Ledger}

/-- An assigned worker's key is fixed as the key of the duty. -/
theorem assignWork_keepsKeys {workId : WorkId} {assignment : Assignment T}
    (hrun : assignWork workId round s = .ok assignment s') : KeepsKeys G s s' := by
  intro h
  rcases assignWork_cases hrun with ⟨-, rfl⟩ | ⟨-, -, -, -, s₁, hduties, rfl⟩
  · exact h
  · obtain ⟨counts, keys, rfl, hkeys, hothers⟩ := assignDuties_writes hduties
    refine ⟨h.workers, h.updates, fun duty key hkey => ?_⟩
    rcases hothers duty with hkept | ⟨id, hid, rfl⟩
    · exact h.duties duty key (hkept.symm.trans hkey)
    · obtain ⟨worker, hworker, hfixed⟩ := hkeys id hid
      cases hfixed.symm.trans hkey
      exact h.workers id worker hworker

theorem clearAssignment_keepsKeys {workId : WorkId}
    (hrun : clearAssignment workId round s = .ok () s') : KeepsKeys G s s' := by
  intro h
  obtain ⟨keys, votes, rfl, hkeys, -⟩ := clearAssignment_writes hrun
  exact ⟨h.workers, h.updates, fun duty key hkey => h.duties duty key (hkeys.subset duty key hkey)⟩

/-! ### The calls -/

/-- A suspended worker keeps its key. -/
theorem submitEquivocation_keepsKeys {workerId : WorkerId} {first : WorkerVoteV1}
    {firstSignature : Signature} {second : WorkerVoteV1} {secondSignature : Signature}
    (hrun : submitEquivocation origin workerId first firstSignature
      second secondSignature s = .ok () s') : KeepsKeys G s s' := by
  intro h
  obtain ⟨worker, _, ledger, actual, hworker, -, -, rfl⟩ := submitEquivocation_ok hrun
  have hkey : G workerId worker.sessionKey := h.workers workerId worker hworker
  exact h.insert_worker rfl rfl rfl hkey

variable [DecidableEq AccountId]

/-- A registration stores the caller's key for the next worker id. -/
theorem register_keepsKeys {sessionKey : PublicKey} {stake : Balance}
    (hgiven : G s.nextWorkerId sessionKey) (hrun : register origin sessionKey stake s = .ok () s') :
    KeepsKeys G s s' := by
  intro h
  obtain ⟨owner, next, ledger, -, -, -, -, -, -, rfl⟩ := register_ok hrun
  exact h.insert_worker rfl rfl rfl hgiven

/-- A scheduled update keeps the caller's key for the worker of the caller. -/
theorem scheduleUpdate_keepsKeys {owner : AccountId} {sessionKey : Option PublicKey}
    {stake : Option Balance}
    (hgiven : ∀ id ∈ s.workerByAccount.lookup owner, ∀ key ∈ sessionKey, G id key)
    (hrun : scheduleUpdate (.signed owner) sessionKey stake s = .ok () s') :
    KeepsKeys G s s' := by
  intro h
  obtain ⟨_, id, worker, ledger, howner, hid, -, -, -, -, -, rfl⟩ := scheduleUpdate_ok hrun
  cases howner
  exact (h.insert_update (hgiven id hid)).of_eq rfl rfl rfl

/-! ### The keys given in a run -/

/-- The worker ids and keys an action brings together when it succeeds. -/
def Action.givenKeys (s : State T) :
    Action AccountId Ledger → List (WorkerId × PublicKey)
  | .register _ sessionKey _ => [(s.nextWorkerId, sessionKey)]
  | .scheduleUpdate (.signed owner) (some sessionKey) _ =>
    (s.workerByAccount.lookup owner).toList.map fun id => (id, sessionKey)
  | _ => []

theorem action_ok_keepsKeys (hgiven : ∀ given ∈ a.givenKeys s, G given.1 given.2)
    (hrun : a.run s = .ok () s') : KeepsKeys G s s' := by
  cases a with
  | register origin sessionKey stake =>
    exact register_keepsKeys (hgiven _ (List.mem_singleton_self _)) (Tx.transaction_ok.mp hrun)
  | scheduleUpdate origin sessionKey stake =>
    have hrun := Tx.transaction_ok.mp hrun
    cases origin with
    | signed owner =>
      refine scheduleUpdate_keepsKeys (fun id hid key hkey => ?_) hrun
      rw [Option.mem_def] at hid hkey
      refine hgiven (id, key) ?_
      simp [Action.givenKeys, hid, hkey]
    | root => cases hrun
    | unsigned => cases hrun
  | submitVote origin workerId vote signature =>
    exact submitVote_rel (fun _ _ h => h.of_eq rfl rfl rfl) (finalizeVoting_keepsKeys _ _)
      (Tx.transaction_ok.mp hrun)
  | submitEquivocation origin workerId first firstSignature second secondSignature =>
    exact submitEquivocation_keepsKeys (Tx.transaction_ok.mp hrun)
  | openVoting workId round candidateHash deadline =>
    obtain ⟨rounds, epoch, -, -, -, rfl⟩ := openVoting_writes hrun
    exact fun h => h.of_eq rfl rfl rfl
  | assignWork workId round =>
    obtain ⟨assignment, s₁, hassign, hrun⟩ := Tx.bind_ok.mp hrun
    cases hrun
    exact assignWork_keepsKeys hassign
  | clearAssignment workId round => exact clearAssignment_keepsKeys hrun
  | onInitialize block =>
    exact (onInitialize_rel finalizeVoting_keepsKeys (fun _ _ => BoundaryWrite.keepsKeys)
      block).of_ok hrun
  | system blockNumber blockHash ledger =>
    cases hrun
    exact fun h => h.of_eq rfl rfl rfl

/-- The genesis stores keys for its workers only. -/
theorem genesis_keysGiven (h : Genesis T s) :
    KeysGiven (fun id key => ∃ worker, s.workers.lookup id = some worker ∧
      worker.sessionKey = key) s := by
  obtain ⟨workers, ledger, hbuild⟩ := h
  -- The genesis writes neither updates nor duties.
  have hwithin := (genesisBuild_genesisItems workers).of_ok hbuild
  have hupdates : s.pendingUpdates = ∅ :=
    hwithin.unchanged (fun s => s.pendingUpdates) fun _ _ => rfl
  have hduties : s.assignmentKeys = ∅ :=
    hwithin.unchanged (fun s => s.assignmentKeys) fun _ _ => rfl
  refine ⟨fun id worker hworker => ⟨worker, hworker, rfl⟩, fun id update hupdate => ?_,
    fun duty key hkey => ?_⟩
  · rw [hupdates] at hupdate
    cases hupdate
  · rw [hduties] at hkey
    cases hkey

variable {h : History T}

/-- The worker ids and keys brought together in a run: by the genesis it started from, and by
its successful actions. -/
def givenKeys (h : History T) (s : State T) :
    List (WorkerId × PublicKey) :=
  (StorageMap.iter id (Trace.first h s).workers).map (fun entry => (entry.1, entry.2.sessionKey))
    ++ (h.filter fun t => t.label.2.isNone).flatMap fun t => t.label.1.givenKeys t.pre

/-- The key was given to the worker at some time in the run. -/
def GivenKey (h : History T) (s : State T)
    (id : WorkerId) (key : PublicKey) : Prop := (id, key) ∈ givenKeys h s

theorem givenKey_start {id : WorkerId} {key : PublicKey} :
    GivenKey [] s id key ↔ ∃ worker, s.workers.lookup id = some worker ∧
      worker.sessionKey = key := by
  simp only [GivenKey, givenKeys, Trace.first, List.getLast?_nil, Option.map_none,
    Option.getD_none, List.filter_nil, List.flatMap_nil, List.append_nil, List.mem_map,
    Prod.exists, Prod.mk.injEq]
  constructor
  · rintro ⟨id', worker, hentry, rfl, rfl⟩
    exact ⟨worker, (StorageMap.mem_iter fun _ => .refl _).mp hentry, rfl⟩
  · rintro ⟨worker, hworker, rfl⟩
    exact ⟨id, worker, (StorageMap.mem_iter fun _ => .refl _).mpr hworker, rfl, rfl⟩

theorem givenKey_extend {l : Label AccountId Ledger} {id : WorkerId} {key : PublicKey} :
    GivenKey (⟨s, l, s'⟩ :: h) s' id key ↔
      GivenKey h s id key ∨ l.2 = none ∧ (id, key) ∈ l.1.givenKeys s := by
  unfold GivenKey givenKeys
  rw [Trace.first_cons, List.filter_cons]
  cases hl : l.2 with
  | none => simp [or_assoc, or_comm]
  | some e => simp

/-- The worker, the vote and the signature of a `submit_vote`. -/
def Action.signedVote : Action AccountId Ledger → Option (WorkerId × WorkerVoteV1 × Signature)
  | .submitVote _ workerId vote signature => some (workerId, vote, signature)
  | _ => none

/-- The signed vote was counted for the worker at some time in the run. -/
def CountedFor (h : History T) (id : WorkerId)
    (vote : WorkerVoteV1) (signature : Signature) : Prop :=
  ∃ t ∈ h, t.label.1.signedVote = some (id, vote, signature) ∧ t.label.2 = none

omit [DecidableEq AccountId] in
theorem Action.eq_submitVote {id : WorkerId} {vote : WorkerVoteV1} {signature : Signature}
    (h : a.signedVote = some (id, vote, signature)) :
    ∃ origin, a = .submitVote origin id vote signature := by
  cases a with
  | submitVote origin workerId vote' signature' =>
    cases h
    exact ⟨origin, rfl⟩
  | _ => cases h

/-- In a run every key of the storage was given to the worker it is stored for, and every
vote that was counted verifies under a key that was given to its worker. -/
theorem keysGiven_of_run (hr : Run T h s) :
    KeysGiven (GivenKey h s) s ∧ ∀ id vote signature, CountedFor h id vote signature →
      ∃ key, GivenKey h s id key ∧
        T.crypto.sr25519Verify signature (vote.signingHash T.crypto) key = true := by
  induction hr with
  | start hs =>
    refine ⟨(genesis_keysGiven hs).mono fun id key => givenKey_start.mpr, ?_⟩
    rintro id vote signature ⟨t, ht, -⟩
    cases ht
  | @extend h s l s' hr hstep ih =>
    obtain ⟨a, e⟩ := l
    obtain ⟨hkeys, hvotes⟩ := ih
    have hearlier : ∀ id key, GivenKey h s id key → GivenKey (⟨s, (a, e), s'⟩ :: h) s' id key :=
      fun id key hgiven => givenKey_extend.mpr (Or.inl hgiven)
    have hkeys := hkeys.mono hearlier
    constructor
    · cases e with
      | none =>
        refine action_ok_keepsKeys (fun given hgiven => ?_) hstep hkeys
        exact givenKey_extend.mpr (Or.inr ⟨rfl, hgiven⟩)
      | some e => exact action_err (roundBook_sound hr) hstep ▸ hkeys
    · rintro id vote signature ⟨t, ht, hvote, hok⟩
      rcases List.mem_cons.mp ht with rfl | ht
      · -- The vote of this step was checked with the key of the duty.
        obtain ⟨origin, rfl⟩ := Action.eq_submitVote hvote
        cases hok
        obtain ⟨_, _, key, hchecked, -⟩ := submitVote_recorded (Tx.transaction_ok.mp hstep)
        have hgiven := hkeys.duties (vote.workId, vote.round, id) key hchecked.key_eq
        exact ⟨key, hgiven, hchecked.verified⟩
      · obtain ⟨key, hgiven, hverified⟩ := hvotes id vote signature ⟨t, ht, hvote, hok⟩
        exact ⟨key, hearlier id key hgiven, hverified⟩

/-- No key is given to two workers in the run. -/
def KeysDistinct (h : History T) (s : State T) :
    Prop :=
  ∀ a ∈ givenKeys h s, ∀ b ∈ givenKeys h s, a.2 = b.2 → a.1 = b.1

/-- Of the keys given in the run, a signature on a vote verifies under one at most. -/
def SignatureBindsKey (h : History T) (s : State T)
    (vote : WorkerVoteV1) (signature : Signature) : Prop :=
  ∀ a ∈ givenKeys h s, ∀ b ∈ givenKeys h s,
    T.crypto.sr25519Verify signature (vote.signingHash T.crypto) a.2 = true →
    T.crypto.sr25519Verify signature (vote.signingHash T.crypto) b.2 = true → a.2 = b.2

/-- In every run in which no key is given to two workers, a signed vote that is counted for a
worker is counted for no other worker, and it does not verify under a key of another worker. -/
theorem signed_vote_counted_once (hr : Run T h s) (hdistinct : KeysDistinct h s)
    {vote : WorkerVoteV1} {signature : Signature} (hbinds : SignatureBindsKey h s vote signature)
    {id : WorkerId} (hcounted : CountedFor h id vote signature) :
    (∀ id', CountedFor h id' vote signature → id' = id) ∧
      ∀ id' key, GivenKey h s id' key →
        T.crypto.sr25519Verify signature (vote.signingHash T.crypto) key = true → id' = id := by
  obtain ⟨-, hvotes⟩ := keysGiven_of_run hr
  obtain ⟨key, hgiven, hverified⟩ := hvotes id vote signature hcounted
  have hother : ∀ id' key', GivenKey h s id' key' →
      T.crypto.sr25519Verify signature (vote.signingHash T.crypto) key' = true → id' = id := by
    intro id' key' hgiven' hverified'
    have hkey : key' = key := hbinds _ hgiven' _ hgiven hverified' hverified
    exact hdistinct _ hgiven' _ hgiven hkey
  refine ⟨fun id' hcounted' => ?_, hother⟩
  obtain ⟨key', hgiven', hverified'⟩ := hvotes id' vote signature hcounted'
  exact hother id' key' hgiven' hverified'

/-! ### Two workers -/

/-- The runtime's configuration with two workers for each work, who have to agree. -/
abbrev pairedWorkers : Config AccountId32 Reference.Ledger :=
  { referenceWorkers with workersPerWork := 2, supportThreshold := 2 }

/-- A session key for the second worker. -/
def bobKey : PublicKey := FixedBytes.fill 32 4

open Reference

/-- A vote for the candidate of the runs below. -/
def pairedVote : WorkerVoteV1 := { supportVote 0 2 1 with assignmentEpoch := 1 }

/-- The vote signed with a key. -/
def pairedSignature (key : PublicKey) : Signature :=
  sign key (pairedVote.signingHash crypto)

/-- A second worker registers with `key`. Both workers are assigned to a work, and the first
sends its vote. -/
def pairedActions (key : PublicKey) : List (Action AccountId32 Reference.Ledger) :=
  [.register (.signed bob) key (1000 * Runtime.unit), .onInitialize 100,
    .assignWork 0 0, .openVoting 0 0 pairedVote.candidateReportHash pairedVote.deadline,
    .submitVote .unsigned 0 pairedVote (pairedSignature aliceKey)]

-- The keys of the run are listed, so that no test goes through all keys there are.
instance : Decidable (KeysDistinct h s) :=
  decidable_of_iff ((givenKeys h s).all fun a => (givenKeys h s).all fun b =>
    decide (a.2 = b.2 → a.1 = b.1)) (by simp only [List.all_eq_true, decide_eq_true_iff]; rfl)

instance (vote : WorkerVoteV1) (signature : Signature) :
    Decidable (SignatureBindsKey h s vote signature) :=
  decidable_of_iff ((givenKeys h s).all fun a => (givenKeys h s).all fun b =>
    decide (T.crypto.sr25519Verify signature (vote.signingHash T.crypto) a.2 = true →
      T.crypto.sr25519Verify signature (vote.signingHash T.crypto) b.2 = true → a.2 = b.2))
    (by simp only [List.all_eq_true, decide_eq_true_iff]; rfl)

instance (id : WorkerId) (vote : WorkerVoteV1) (signature : Signature) :
    Decidable (CountedFor h id vote signature) :=
  inferInstanceAs (Decidable (∃ t ∈ h, _))

/-- Two workers with keys of their own vote for one candidate. -/
theorem signed_vote_counted_once_paired :
    ∃ h, ∃ s : State pairedWorkers, Run pairedWorkers h s ∧
      CountedFor h 1 pairedVote (pairedSignature bobKey) ∧
      CountedFor h 0 pairedVote (pairedSignature aliceKey) ∧
      (∀ id, CountedFor h id pairedVote (pairedSignature aliceKey) → id = 0) ∧
      ∀ id key, GivenKey h s id key → crypto.sr25519Verify
        (pairedSignature aliceKey) (pairedVote.signingHash crypto) key = true →
        id = 0 := by
  obtain ⟨h, s, hrun, hdistinct, hbinds, hbob, halice⟩ := exists_workersHistory
    pairedWorkers
    (pairedActions bobKey ++ [.submitVote .unsigned 1 pairedVote (pairedSignature bobKey)])
    (fun h s => KeysDistinct h s ∧
      SignatureBindsKey h s pairedVote (pairedSignature aliceKey) ∧
      CountedFor h 1 pairedVote (pairedSignature bobKey) ∧
      CountedFor h 0 pairedVote (pairedSignature aliceKey)) (by decide +kernel)
  exact ⟨h, s, hrun, hbob, halice, signed_vote_counted_once hrun hdistinct hbinds halice⟩

/-- The second worker registers with the key of the first. Then one signed vote is counted
for both, and the candidate is accepted with one signature. -/
theorem shared_key_vote_counted_twice :
    ∃ h, ∃ s : State pairedWorkers, Run pairedWorkers h s ∧
      SignatureBindsKey h s pairedVote (pairedSignature aliceKey) ∧
      CountedFor h 0 pairedVote (pairedSignature aliceKey) ∧
      CountedFor h 1 pairedVote (pairedSignature aliceKey) ∧
      (s.roundResults.lookup (0, 0)).map RoundResult.decision = some (some .accepted) :=
  exists_workersHistory pairedWorkers
    (pairedActions aliceKey ++
      [.submitVote .unsigned 1 pairedVote (pairedSignature aliceKey)])
    _ (by decide +kernel)

end MiniJam.Workers
