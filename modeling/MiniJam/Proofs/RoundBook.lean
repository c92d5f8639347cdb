import MiniJam.Proofs.Rounds
import MiniJam.Workers.Run

/-!
# `MiniJam.Proofs.RoundBook`: the books the workers pallet keeps of its rounds

`RoundBook` is the part of the storage that says where every round stands: the assignment with its
epoch and keys, the open voting with the list the block hook goes through, and the result.
`RoundBook.Step` lists what the pallet can do to it, and each function of the pallet is shown to
make such steps.

`RoundBook.Sound` is what the steps keep. `roundBook_sound` has it for every run of the pallet,
also when other pallets call its functions in any order and keep what a failed call wrote. In a
sound state there is nothing to keep: `open_voting` alone could fail after a write, and it would
have to find an assignment without an epoch.
-/

set_option autoImplicit false

namespace MiniJam.Workers

variable {AccountId Ledger : Type} {T : Config AccountId Ledger} {s s' : State T}

/-! ### The books -/

/-- What the pallet keeps about all rounds. -/
@[ext] structure RoundBook (T : Config AccountId Ledger) where
  assignments : RoundKey → Option (Assignment T)
  epochs : RoundKey → Option EpochIndex
  keys : DutyKey → Option PublicKey
  votings : RoundKey → Option VotingRound
  openVotings : List RoundKey
  results : RoundKey → Option (RoundResult T)

def State.roundBook (s : State T) : RoundBook T where
  assignments k := s.assignments.lookup k
  epochs k := s.assignmentEpochs.lookup k
  keys duty := s.assignmentKeys.lookup duty
  votings k := s.votingRounds.lookup k
  openVotings := s.openVoteRounds.toList
  results k := s.roundResults.lookup k

namespace RoundBook

/-- The keys of other rounds are as they were. -/
def KeepsOthers (k : RoundKey) (keys keys' : DutyKey → Option PublicKey) : Prop :=
  ∀ duty : DutyKey, (duty.1, duty.2.1) ≠ k → keys' duty = keys duty

/-- What the pallet can do to its rounds. -/
inductive Step (b : RoundBook T) : RoundBook T → Prop where
  | assign {k : RoundKey} {assignment : Assignment T} {epoch : EpochIndex}
      {keys : DutyKey → Option PublicKey} (hfree : b.assignments k = none)
      (hkeys : ∀ w ∈ assignment.toList, keys (k.1, k.2, w) ≠ none)
      (hothers : KeepsOthers k b.keys keys) :
      Step b { b with
        assignments := Function.update b.assignments k (some assignment)
        epochs := Function.update b.epochs k (some epoch)
        keys := keys }
  | clear {k : RoundKey} {keys : DutyKey → Option PublicKey}
      (hothers : KeepsOthers k b.keys keys) :
      Step b { b with
        assignments := Function.update b.assignments k none
        epochs := Function.update b.epochs k none
        keys := keys }
  | openVoting {k : RoundKey} {voting : VotingRound} (hclosed : b.votings k = none)
      (hnew : b.results k = none) :
      Step b { b with
        votings := Function.update b.votings k (some voting)
        openVotings := b.openVotings ++ [k] }
  | vote {k : RoundKey} {voting voting' : VotingRound} (hvoting : b.votings k = some voting) :
      Step b { b with votings := Function.update b.votings k (some voting') }
  | settle {k : RoundKey} {voting : VotingRound} {result : RoundResult T}
      (hvoting : b.votings k = some voting) :
      Step b { b with
        votings := Function.update b.votings k none
        openVotings := swapRemoveFirst (fun k' => decide (k' = k)) b.openVotings
        results := Function.update b.results k (some result) }

/-- The books agree. -/
structure Sound (b : RoundBook T) : Prop where
  epoch : ∀ k, b.epochs k = none ↔ b.assignments k = none
  keys : ∀ k assignment, b.assignments k = some assignment →
    ∀ w ∈ assignment.toList, b.keys (k.1, k.2, w) ≠ none
  open_nodup : b.openVotings.Nodup
  open_iff : ∀ k, k ∈ b.openVotings ↔ b.votings k ≠ none
  /-- A round whose voting is open has no result. -/
  unsettled : ∀ k, b.votings k ≠ none → b.results k = none

variable {b b' : RoundBook T}

/-- Every step keeps the books in agreement. -/
theorem Step.sound (h : Step b b') (hb : b.Sound) : b'.Sound := by
  cases h with
  | @assign k assignment epoch keys hfree hkeys hothers =>
    refine ⟨fun k' => ?_, fun k' assignment' h => ?_, hb.open_nodup, hb.open_iff, hb.unsettled⟩
    · by_cases hk : k' = k
      · simp [hk]
      · simpa [hk] using hb.epoch k'
    · by_cases hk : k' = k
      · subst hk
        simp only [Function.update_self, Option.some.injEq] at h
        exact h ▸ hkeys
      · simp only [Function.update_of_ne hk] at h
        intro w hw
        show keys (k'.1, k'.2, w) ≠ none
        rw [hothers _ hk]
        exact hb.keys k' assignment' h w hw
  | @clear k keys hothers =>
    refine ⟨fun k' => ?_, fun k' assignment h => ?_, hb.open_nodup, hb.open_iff, hb.unsettled⟩
    · by_cases hk : k' = k
      · simp [hk]
      · simpa [hk] using hb.epoch k'
    · by_cases hk : k' = k
      · simp [hk] at h
      · simp only [Function.update_of_ne hk] at h
        intro w hw
        show keys (k'.1, k'.2, w) ≠ none
        rw [hothers _ hk]
        exact hb.keys k' assignment h w hw
  | @openVoting k voting hclosed hnew =>
    -- The round is not in the list yet, because its voting is not open.
    have hunlisted : k ∉ b.openVotings := by
      rw [hb.open_iff]
      simp [hclosed]
    refine ⟨hb.epoch, hb.keys, ?_, fun k' => ?_, fun k' h => ?_⟩
    · refine List.nodup_append.mpr ⟨hb.open_nodup, List.nodup_singleton k, ?_⟩
      rintro k' hmem k'' hk'' rfl
      rw [List.mem_singleton.mp hk''] at hmem
      exact hunlisted hmem
    · by_cases hk : k' = k
      · simp [hk]
      · simpa [hk] using hb.open_iff k'
    · by_cases hk : k' = k
      · exact hk ▸ hnew
      · simp only [Function.update_of_ne hk] at h
        exact hb.unsettled k' h
  | @vote k voting voting' hvoting =>
    have hopen : ∀ k', Function.update b.votings k (some voting') k' ≠ none ↔
        b.votings k' ≠ none := by
      intro k'
      by_cases hk : k' = k
      · simp [hk, hvoting]
      · simp [hk]
    exact ⟨hb.epoch, hb.keys, hb.open_nodup, fun k' => (hb.open_iff k').trans (hopen k').symm,
      fun k' h => hb.unsettled k' ((hopen k').mp h)⟩
  | @settle k voting result hvoting =>
    refine ⟨hb.epoch, hb.keys, nodup_swapRemoveFirst k hb.open_nodup, fun k' => ?_,
      fun k' h => ?_⟩
    · show k' ∈ swapRemoveFirst (fun k' => decide (k' = k)) b.openVotings ↔ _
      rw [mem_swapRemoveFirst k hb.open_nodup, hb.open_iff]
      by_cases hk : k' = k
      · simp [hk]
      · simp [hk]
    · by_cases hk : k' = k
      · simp [hk] at h
      · simp only [Function.update_of_ne hk] at h ⊢
        exact hb.unsettled k' h

variable {result : RoundResult T}

/-- A result is never replaced, because a round has no open voting once it has one. -/
theorem Step.results_eq (h : Step b b') (hb : b.Sound) {k : RoundKey}
    (hresult : b.results k = some result) : b'.results k = some result := by
  cases h with
  | assign => exact hresult
  | clear => exact hresult
  | openVoting => exact hresult
  | vote => exact hresult
  | @settle k' voting result' hvoting =>
    have hk : k ≠ k' := by
      rintro rfl
      have hnone := hb.unsettled k (by simp [hvoting])
      rw [hresult] at hnone
      cases hnone
    simpa [hk] using hresult

/-- The books change by steps of the pallet. -/
abbrev Steps (b b' : RoundBook T) : Prop := Relation.ReflTransGen Step b b'

/-- A sequence of steps keeps the books sound. -/
theorem Steps.sound (h : Steps b b') (hb : b.Sound) : b'.Sound := by
  induction h with
  | refl => exact hb
  | tail _ hstep ih => exact hstep.sound ih

/-- A result stays. -/
theorem Steps.results_eq (h : Steps b b') (hb : b.Sound) {k : RoundKey}
    (hresult : b.results k = some result) : b'.results k = some result := by
  induction h with
  | refl => exact hresult
  | tail hsteps hstep ih => exact hstep.results_eq (Steps.sound hsteps hb) ih

end RoundBook

/-! ### The functions of the pallet -/

variable {workId : WorkId} {round : AssignmentRound}

/-- The books of the rounds change by steps. -/
def RoundMoves (s s' : State T) : Prop := RoundBook.Steps s.roundBook s'.roundBook

instance : Std.Refl (RoundMoves (T := T)) := ⟨fun _ => .refl⟩

instance : IsTrans (State T) RoundMoves := ⟨fun _ _ _ h₁ h₂ => h₁.trans h₂⟩

/-- Books that are the same. -/
theorem RoundMoves.of_eq (h : s'.roundBook = s.roundBook) : RoundMoves s s' := by
  unfold RoundMoves
  rw [h]

/-- A single step of the books. -/
theorem RoundMoves.of_step {b : RoundBook T} (h : RoundBook.Step s.roundBook b)
    (hb : s'.roundBook = b) : RoundMoves s s' := by
  unfold RoundMoves
  rw [hb]
  exact .single h

/-- Stakes are not in the books. -/
theorem roundBook_of_stake (h : stakeItems.Within s s') : s'.roundBook = s.roundBook :=
  h.unchanged State.roundBook fun _ _ => rfl

theorem RoundMoves.of_stake (h : stakeItems.Within s s') : RoundMoves s s' :=
  .of_eq (roundBook_of_stake h)

theorem lookup_insert_update {K V : Type} [DecidableEq K] (m : StorageMap K V) (k : K) (v : V) :
    (fun k' => (m.insert k v).lookup k') = Function.update (fun k' => m.lookup k') k (some v) := by
  funext k'
  rw [StorageMap.lookup_insert_eq, Function.update_apply]

theorem lookup_erase_update {K V : Type} [DecidableEq K] (m : StorageMap K V) (k : K) :
    (fun k' => (m.erase k).lookup k') = Function.update (fun k' => m.lookup k') k none := by
  funext k'
  by_cases hk : k' = k
  · rw [hk, Function.update_self]
    exact AList.lookup_erase k m
  · rw [Function.update_of_ne hk]
    exact AList.lookup_erase_ne hk

theorem finalizeVoting_roundMoves (workId : WorkId) (round : AssignmentRound) :
    Tx.Rel RoundMoves (finalizeVoting workId round : M T Unit) := by
  refine Tx.Rel.transaction_of_ok fun s _ s' h => ?_
  obtain ⟨voting, assignment, s₁, hvoting, -, hsettle, hs'⟩ :=
    finalizeVoting_ok (Tx.transaction_ok.mpr h)
  -- The loop over the assigned workers moves stakes only.
  have hloop := roundBook_of_stake (settleDuties_within hsettle)
  have hclosed : s'.roundBook = { s₁.roundBook with
      openVotings := swapRemoveFirst (fun k => decide (k = (workId, round)))
        s₁.roundBook.openVotings
      results := Function.update s₁.roundBook.results (workId, round) (some
        ⟨voting.locked, BoundedVec.takeFrom (assignment.toList.filter fun workerId =>
          !s₁.votes.contains (workId, round, workerId))⟩) } := by
    rw [hs']
    exact RoundBook.ext rfl rfl rfl rfl rfl (lookup_insert_update _ _ _)
  have herased : State.roundBook { s with votingRounds := s.votingRounds.erase (workId, round) } =
      { s.roundBook with votings := Function.update s.roundBook.votings (workId, round) none } :=
    RoundBook.ext rfl rfl rfl (lookup_erase_update _ _) rfl rfl
  rw [hloop, herased] at hclosed
  exact .of_step (.settle hvoting) hclosed

theorem onInitialize_roundMoves (block : BlockNumber) :
    Tx.Rel RoundMoves (onInitialize block : M T Unit) :=
  onInitialize_rel finalizeVoting_roundMoves (fun _ _ h => .of_stake h.stake) block

theorem recordVote_roundMoves {vote : WorkerVoteV1} {voting : VotingRound}
    (hvoting : (s.round (vote.workId, vote.round)).voting = some voting) (workerId : WorkerId) :
    RoundMoves s (s.recordVote workerId vote voting) := by
  have hbook : (s.recordVote workerId vote voting).roundBook = { s.roundBook with
      votings := Function.update s.roundBook.votings (vote.workId, vote.round)
        (some (countVote T voting vote.verdict)) } :=
    RoundBook.ext rfl rfl rfl (lookup_insert_update _ _ _) rfl rfl
  exact .of_step (.vote hvoting) hbook

variable {candidateHash : Hash} {deadline : BlockNumber} {e : DispatchError}
  {a : Action AccountId Ledger}

theorem openVoting_roundMoves (h : openVoting workId round candidateHash deadline s = .ok () s') :
    RoundMoves s s' := by
  obtain ⟨rounds, epoch, hclosed, hnew, hrounds, rfl⟩ := openVoting_writes h
  exact .of_step (.openVoting hclosed hnew) (RoundBook.ext rfl rfl rfl
    (lookup_insert_update _ _ _) (BoundedVec.tryPush_eq_some.mp hrounds) rfl)

/-- An assignment without an epoch is the only way to fail after a write. -/
theorem openVoting_err (hs : s.roundBook.Sound)
    (h : openVoting workId round candidateHash deadline s = .err e s') : s' = s := by
  unfold openVoting at h
  rw [Tx.read_bind_apply, Tx.ensure_bind_apply] at h
  split_ifs at h with hassigned
  · rw [Tx.ensure_bind_apply] at h
    split_ifs at h
    · rw [Tx.ensure_bind_apply] at h
      split_ifs at h
      · rcases Tx.bind_err.mp h with h | ⟨rounds, s₁, hpush, h⟩
        · cases hpush : s.openVoteRounds.tryPush (workId, round) with
          | none => rw [hpush] at h; cases h; rfl
          | some rounds => rw [hpush] at h; cases h
        · -- The epoch is there, and nothing fails after that.
          have hepoch : s.assignmentEpochs.lookup (workId, round) ≠ none := by
            intro hnone
            have hfree : s.assignments.lookup (workId, round) = none :=
              (hs.epoch (workId, round)).mp hnone
            rw [StorageMap.contains, hfree] at hassigned
            cases hassigned
          obtain ⟨epoch, hepoch⟩ := Option.ne_none_iff_exists'.mp hepoch
          rw [Tx.modify_bind_apply, hepoch] at h
          cases h
      · cases h; rfl
    · cases h; rfl
  · cases h; rfl

theorem assignWork_roundMoves {assignment : Assignment T}
    (h : assignWork workId round s = .ok assignment s') : RoundMoves s s' := by
  rcases assignWork_cases h with ⟨-, rfl⟩ | ⟨hfree, -, -, -, s₁, hduties, rfl⟩
  · exact .of_eq rfl
  · obtain ⟨counts, keys, rfl, hkeys, hothers⟩ := assignDuties_writes hduties
    refine .of_step (.assign hfree (fun w hw => ?_) fun duty hduty => ?_)
      (RoundBook.ext (lookup_insert_update _ _ _) (lookup_insert_update _ _ _) rfl rfl rfl rfl)
    · obtain ⟨worker, -, hkey⟩ := hkeys w hw
      exact ne_of_eq_of_ne hkey (Option.some_ne_none _)
    · refine (hothers duty).resolve_right ?_
      rintro ⟨id, -, rfl⟩
      exact hduty rfl

theorem clearAssignment_roundMoves (h : clearAssignment workId round s = .ok () s') :
    RoundMoves s s' := by
  obtain ⟨keys, votes, rfl, hkeys, -⟩ := clearAssignment_writes h
  exact .of_step (.clear hkeys.others) (RoundBook.ext (lookup_erase_update _ _)
    (lookup_erase_update _ _) rfl rfl rfl rfl)

/-! ### Every run -/

variable [DecidableEq AccountId]

/-- A successful action of the pallet makes steps of the books. -/
theorem roundMoves_of_action (h : a.run s = .ok () s') : RoundMoves s s' := by
  cases a with
  | register origin sessionKey stake =>
    exact .of_stake (register_within (Tx.transaction_ok.mp h))
  | scheduleUpdate origin sessionKey stake =>
    exact .of_stake (scheduleUpdate_within (Tx.transaction_ok.mp h))
  | submitVote origin workerId vote signature =>
    exact submitVote_rel (fun _ hvoting => recordVote_roundMoves hvoting workerId)
      (finalizeVoting_roundMoves _ _) (Tx.transaction_ok.mp h)
  | submitEquivocation origin workerId first firstSignature second secondSignature =>
    exact .of_stake (submitEquivocation_within (Tx.transaction_ok.mp h))
  | openVoting workId round candidateHash deadline => exact openVoting_roundMoves h
  | assignWork workId round =>
    obtain ⟨assignment, s₁, hassign, h⟩ := Tx.bind_ok.mp h
    cases h
    exact assignWork_roundMoves hassign
  | clearAssignment workId round => exact clearAssignment_roundMoves h
  | onInitialize block => exact (onInitialize_roundMoves block).of_ok h
  | system blockNumber blockHash ledger =>
    cases h
    exact .of_eq rfl

/-- From a sound state an action that fails leaves the storage. -/
theorem action_err (hs : s.roundBook.Sound) (h : a.run s = .err e s') : s' = s := by
  cases a with
  | register origin sessionKey stake => exact Tx.transaction_err h
  | scheduleUpdate origin sessionKey stake => exact Tx.transaction_err h
  | submitVote origin workerId vote signature => exact Tx.transaction_err h
  | submitEquivocation origin workerId first firstSignature second secondSignature =>
    exact Tx.transaction_err h
  | openVoting workId round candidateHash deadline => exact openVoting_err hs h
  | assignWork workId round =>
    rcases Tx.bind_err.mp h with h | ⟨assignment, s₁, -, h⟩
    · exact assignWork_err h
    · cases h
  | clearAssignment workId round => cases h
  | onInitialize block => exact absurd h (onInitialize_noErr block s e s')
  | system blockNumber blockHash ledger => cases h

theorem genesis_roundBook (h : Genesis T s) : s.roundBook.Sound := by
  obtain ⟨workers, ledger, h⟩ := h
  rw [roundBook_of_stake ((genesisBuild_within workers).of_ok h)]
  refine ⟨fun _ => iff_of_true rfl rfl, fun _ _ h => ?_, List.nodup_nil, fun _ => ?_,
    fun _ h => absurd rfl h⟩
  · cases h
  · exact iff_of_false List.not_mem_nil fun h => h rfl

variable {h : History T}

/-- The books of the rounds agree in every state of every run of the pallet. -/
theorem roundBook_sound (hr : Run T h s) : s.roundBook.Sound := by
  refine hr.invariant_state (I := fun s => s.roundBook.Sound) (fun s hs => genesis_roundBook hs) ?_
  intro s l s' hs hstep
  obtain ⟨a, _ | e⟩ := l
  · exact (roundMoves_of_action hstep).sound hs
  · rw [action_err hs hstep]
    exact hs

/-- What a successful action keeps holds in every state of every run, because an action that
fails writes nothing. -/
theorem Run.ok_invariant {I : State T → Prop} (hinit : ∀ s, Genesis T s → I s)
    (hstep : ∀ {h s s'} (a : Action AccountId Ledger), Run T h s → I s → a.run s = .ok () s' → I s')
    (hr : Run T h s) : I s := by
  induction hr with
  | start hs => exact hinit _ hs
  | @extend h s l s' hr hl ih =>
    obtain ⟨a, _ | e⟩ := l
    · exact hstep a hr ih hl
    · rw [action_err (roundBook_sound hr) hl]
      exact ih

end MiniJam.Workers
