import MiniJam.Proofs.Commitments
import MiniJam.Proofs.VoteRewards

/-!
# `MiniJam.Proofs.VotePool`: votes in the transaction pool

A vote comes without a signed extrinsic, so the pool tells two votes apart by their tags alone. The
tag determines the work, the round and the worker. While a voting is open the chain knows every
vote it has taken in the round, so the pool takes no vote with the tag of a vote that was taken
before (`pool_votes_fresh`).
-/

set_option autoImplicit false

namespace MiniJam.Jam

open Scale

/-- The tag of a vote determines its work, its round and its worker. -/
theorem voteTag_inj {workerId workerId' : WorkerId} {vote vote' : WorkerVoteV1}
    (h : Workers.voteTag workerId vote = Workers.voteTag workerId' vote') :
    vote.workId = vote'.workId ∧ vote.round = vote'.round ∧ workerId = workerId' := by
  unfold Workers.voteTag encodeBytes at h
  simp only [List.append_assoc, List.length_append, length_encodeU64, encodeU8,
    List.length_singleton, List.append_cancel_left_eq] at h
  obtain ⟨hwork, h⟩ := encodeU64_selfDelimiting _ _ _ _ h
  obtain ⟨hround, h⟩ := List.cons.inj h
  exact ⟨hwork, hround, encodeU64_injective h⟩

variable {AccountId Ledger : Type} [DecidableEq AccountId] {T : Config AccountId Ledger}
  {h : Chain.History T} {s : State T}

/-- A vote that the pool takes in a state of a run has not the tag of a vote that was taken before,
nor that of another work, round or worker, and it leaves the pool when its deadline has passed. -/
theorem pool_votes_fresh (hr : Chain.Run T h s) {workerId : WorkerId} {vote : WorkerVoteV1}
    {signature : Signature} {valid : Workers.ValidTransaction}
    (hvalid : Workers.validateUnsignedVote workerId vote signature s.base = some valid) :
    (∀ workerId' vote', Workers.voteTag workerId' vote' ∈ valid.provides ↔
        vote'.workId = vote.workId ∧ vote'.round = vote.round ∧ workerId' = workerId) ∧
      (∀ t ∈ h, ∀ c, castVote t.label = some c →
        Workers.voteTag c.workerId c.vote ∉ valid.provides) ∧
      s.base.blockNumber.toNat + valid.longevity.toNat
        ≤ max vote.deadline.toNat (s.base.blockNumber.toNat + 1) := by
  obtain ⟨⟨_, s'⟩, hreturned, hsome⟩ := Option.bind_eq_some_iff.mp hvalid
  cases hsome
  obtain ⟨-, voting, assignment, key, hchecked⟩ :=
    Workers.validateWorkerVote_ok (Outcome.eq_ok_of_returned hreturned)
  have htag : ∀ workerId' vote', Workers.voteTag workerId' vote' ∈ [Workers.voteTag workerId vote] ↔
      vote'.workId = vote.workId ∧ vote'.round = vote.round ∧ workerId' = workerId := by
    intro workerId' vote'
    refine List.mem_singleton.trans ⟨voteTag_inj, ?_⟩
    rintro ⟨hid, hsame, rfl⟩
    unfold Workers.voteTag
    rw [hid, hsame]
  refine ⟨htag, fun t ht c hc hmem => ?_, ?_⟩
  · obtain ⟨hid, hsame, hworker⟩ := (htag c.workerId c.vote).mp hmem
    -- The earlier vote is still stored, but the worker has none.
    obtain ⟨_, htallied⟩ := tallied_of_run hr hchecked.voting_eq
    have haccepted : c ∈ acceptedVotes (vote.workId, vote.round) h := by
      refine List.mem_filterMap.mpr ⟨t, ht, ?_⟩
      simp [hc, hid, hsame]
    have hstored := (htallied.stored workerId _).mpr ⟨c, haccepted, hworker, rfl⟩
    cases hstored.symm.trans hchecked.first
  · have hdeadline := vote.deadline.toNat_lt
    rw [UInt64.toNat_ofNat_of_lt' (by simp only [UInt64.size]; omega)]
    omega

open Reference

/-- The vote of the genesis worker for the second work, as it is signed. -/
def secondVote : Signature :=
  sign aliceKey
    ((supportVote 1 2 2).signingHash crypto)

/-- The second vote of the genesis worker, after its vote on another work was taken. -/
theorem pool_votes_fresh_second : ∃ h s valid,
    Chain.Run (runtime consumeAll) h s ∧
    Workers.validateUnsignedVote 0 (supportVote 1 2 2) secondVote s.base = some valid ∧
    (∃ t ∈ h, ∃ c, castVote t.label = some c ∧ c.workerId = 0 ∧
      c.vote = supportVote 0 2 1) ∧
    (∀ t ∈ h, ∀ c, castVote t.label = some c →
      Workers.voteTag c.workerId c.vote ∉ valid.provides) ∧
    Workers.voteTag 0 (supportVote 1 2 2) ∈ valid.provides := by
  obtain ⟨h, s, hrun, hearlier, hvalid⟩ := exists_history
    (runtime consumeAll)
    (voteThrough 0 2 1 ++ (voteThrough 1 2 2).take 2)
    (fun h s => (∃ t ∈ h, ∃ c, castVote t.label = some c ∧ c.workerId = 0 ∧
        c.vote = supportVote 0 2 1) ∧
      (Workers.validateUnsignedVote 0 (supportVote 1 2 2) secondVote s.base).isSome = true)
    (by decide +kernel)
  obtain ⟨valid, hvalid⟩ := Option.isSome_iff_exists.mp hvalid
  obtain ⟨htag, hfresh, -⟩ := pool_votes_fresh hrun hvalid
  exact ⟨h, s, valid, hrun, hvalid, hearlier, hfresh, (htag _ _).mpr ⟨rfl, rfl, rfl⟩⟩

end MiniJam.Jam
