import MiniJam.Proofs.Commitments
import MiniJam.Proofs.Suspension
import MiniJam.Proofs.VoteKeys

/-!
# `MiniJam.Proofs.Equivocations`: who can be slashed for an equivocation

An equivocation report shows two votes for one round with different signing hashes. Both
signatures are checked with the key that was fixed for the duty when the round was assigned, and
that key was given to the reported worker (`keysGiven_of_run`), whatever happened since.

`HonestSigner` collects what is assumed of a worker and of the two primitives. The primitives come
from the host, and no scheme is unforgeable or free of collisions for all inputs there are. The
assumptions are therefore about the signatures and votes that occur in the run.

A worker that signs one vote for each round at most is never slashed for an equivocation, and any
worker is slashed once for each round at most (`honest_worker_not_slashed`): `equivocations` is
only ever added to.
-/

set_option autoImplicit false

namespace MiniJam

open Scale Framing

/-! ### The signed bytes -/

theorem encode_reason_selfDelimiting : SelfDelimiting OpposeReason.encode := by
  intro a b r s heq
  cases a with
  | other hash =>
    cases b with
    | other hash' =>
      simp only [OpposeReason.encode, List.append_assoc] at heq
      obtain ⟨rfl, hrest⟩ := fixedBytes_selfDelimiting 32 _ _ _ _ (List.append_cancel_left heq)
      exact ⟨rfl, hrest⟩
    | _ => cases heq
  | _ =>
    -- The other reasons are told apart by their one byte.
    cases b with
    | other hash' => cases heq
    | _ => simp_all [OpposeReason.encode, encodeU8]

/-- A verdict is read back from its bytes. -/
theorem encode_verdict_selfDelimiting : SelfDelimiting Verdict.encode := by
  intro a b r s heq
  cases a with
  | support =>
    cases b with
    | support =>
      cases heq
      exact ⟨rfl, rfl⟩
    | oppose reason' => cases heq
  | oppose reason =>
    cases b with
    | support => cases heq
    | oppose reason' =>
      simp only [Verdict.encode, List.append_assoc] at heq
      obtain ⟨rfl, hrest⟩ := encode_reason_selfDelimiting _ _ _ _ (List.append_cancel_left heq)
      exact ⟨rfl, hrest⟩

/-- A vote is read back from its bytes. -/
theorem encode_vote_selfDelimiting : SelfDelimiting WorkerVoteV1.encode := by
  rintro ⟨work, round, epoch, report, verdict, deadline, chain, version⟩
    ⟨work', round', epoch', report', verdict', deadline', chain', version'⟩ r s heq
  simp only [WorkerVoteV1.encode, List.append_assoc] at heq
  obtain ⟨rfl, heq₁⟩ := encodeU64_selfDelimiting _ _ _ _ heq
  obtain ⟨rfl, heq₂⟩ := List.cons_eq_cons.mp heq₁
  obtain ⟨rfl, heq₃⟩ := encodeU32_selfDelimiting _ _ _ _ heq₂
  obtain ⟨rfl, heq₄⟩ := fixedBytes_selfDelimiting 32 _ _ _ _ heq₃
  obtain ⟨rfl, heq₅⟩ := encode_verdict_selfDelimiting _ _ _ _ heq₄
  obtain ⟨rfl, heq₆⟩ := encodeU32_selfDelimiting _ _ _ _ heq₅
  obtain ⟨rfl, heq₇⟩ := fixedBytes_selfDelimiting 32 _ _ _ _ heq₆
  obtain ⟨rfl, hrest⟩ := encodeU16_selfDelimiting _ _ _ _ heq₇
  exact ⟨rfl, hrest⟩

theorem WorkerVoteV1.signingPayload_injective : Function.Injective signingPayload := by
  intro a b heq
  exact encode_vote_selfDelimiting.injective (List.append_cancel_left heq)

end MiniJam

namespace MiniJam.Workers

variable {AccountId Ledger : Type} {T : Config AccountId Ledger} {s s' : State T}

/-! ### What a report proves -/

/-- What is checked before a worker is slashed for two votes. -/
structure ProvenEquivocation (s : State T) (id : WorkerId) (first : WorkerVoteV1)
    (firstSignature : Signature) (second : WorkerVoteV1) (secondSignature : Signature)
    (key : PublicKey) : Prop where
  round : first.workId = second.workId ∧ first.round = second.round
  chain : first.chainId = T.chainId ∧ second.chainId = T.chainId
  version : first.protocolVersion = T.protocolVersion ∧ second.protocolVersion = T.protocolVersion
  differ : first.signingHash T.crypto ≠ second.signingHash T.crypto
  unreported : s.equivocations.contains (first.workId, first.round, id) = false
  key_eq : s.assignmentKeys.lookup (first.workId, first.round, id) = some key
  firstVerified :
    T.crypto.sr25519Verify firstSignature (first.signingHash T.crypto) key = true
  secondVerified :
    T.crypto.sr25519Verify secondSignature (second.signingHash T.crypto) key = true

variable {id : WorkerId} {a : Action AccountId Ledger} {signs : WorkerVoteV1 → Prop}

theorem submitEquivocation_proven {origin : Origin AccountId} {first second : WorkerVoteV1}
    {firstSignature secondSignature : Signature}
    (h : submitEquivocation origin id first firstSignature second secondSignature s = .ok () s') :
    ∃ key, ProvenEquivocation s id first firstSignature second secondSignature key := by
  unfold submitEquivocation at h
  obtain ⟨_, -, h⟩ := ensureSigned_bind_ok.mp h
  obtain ⟨⟨hwork, hround, -, -, hchain, hchain', hversion, hversion', hdiffer⟩, h⟩ :=
    Tx.ensure_bind_ok.mp h
  rw [Tx.read_bind_apply] at h
  obtain ⟨hnew, h⟩ := Tx.ensure_bind_ok.mp h
  obtain ⟨key, hkey, h⟩ := Tx.okOr_bind_ok.mp h
  obtain ⟨hverified, -⟩ := Tx.ensure_bind_ok.mp h
  obtain ⟨hfirst, hsecond⟩ := Bool.and_eq_true_iff.mp hverified
  exact ⟨key, ⟨hwork, hround⟩, ⟨hchain, hchain'⟩, ⟨hversion, hversion'⟩, hdiffer,
    by simpa using hnew, hkey, hfirst, hsecond⟩

/-- The duty that an action reports. -/
def Action.reportedDuty : Action AccountId Ledger → Option DutyKey
  | .submitEquivocation _ id first _ _ _ => some (first.workId, first.round, id)
  | _ => none

/-- The votes with their signatures that an action shows as a proof. -/
def Action.shownVotes : Action AccountId Ledger → List (WorkerVoteV1 × Signature)
  | .submitEquivocation _ _ first firstSignature second secondSignature =>
    [(first, firstSignature), (second, secondSignature)]
  | _ => []

variable {h : History T}

/-- The signed vote was shown in a report of the run, successful or not. -/
def Shown (h : History T) (vote : WorkerVoteV1)
    (signature : Signature) : Prop := ∃ t ∈ h, (vote, signature) ∈ t.label.1.shownVotes

/-- The step slashed the worker of the duty for an equivocation. -/
def Slashes (duty : DutyKey) (t : Transition (State T) (Label AccountId Ledger)) : Prop :=
  t.label.2 = none ∧ t.label.1.reportedDuty = some duty

variable {duty : DutyKey}

theorem Action.eq_submitEquivocation (h : a.reportedDuty = some duty) :
    ∃ origin first firstSignature second secondSignature,
      a = .submitEquivocation origin duty.2.2 first firstSignature second secondSignature ∧
        (first.workId, first.round, duty.2.2) = duty := by
  cases a with
  | submitEquivocation origin id first firstSignature second secondSignature =>
    cases h
    exact ⟨origin, first, firstSignature, second, secondSignature, rfl, rfl⟩
  | _ => cases h

/-! ### The assumptions on an honest worker -/

variable [DecidableEq AccountId]

/-- The assumptions on a worker that signs the votes `signs` in a run:

- `once`: it signs one vote for each round of this chain and protocol version at most;
- `unforged`: its session keys are its own, and signatures are not forged: a signature in a
  report that verifies under a key of the worker is on the hash of a vote that it signed;
- `distinct`: no two of the votes that it signed or that were shown collide in their hash. -/
structure HonestSigner (h : History T) (s : State T)
    (id : WorkerId) (signs : WorkerVoteV1 → Prop) : Prop where
  once : ∀ vote vote', signs vote → signs vote' → vote.workId = vote'.workId →
    vote.round = vote'.round → vote.chainId = T.chainId → vote'.chainId = T.chainId →
    vote.protocolVersion = T.protocolVersion → vote'.protocolVersion = T.protocolVersion →
    vote = vote'
  unforged : ∀ vote signature key, Shown h vote signature → GivenKey h s id key →
    T.crypto.sr25519Verify signature (vote.signingHash T.crypto) key = true →
    ∃ signed, signs signed ∧ signed.signingHash T.crypto = vote.signingHash T.crypto
  distinct : ∀ vote signature signed, Shown h vote signature → signs signed →
    T.crypto.blake2_256 signed.signingPayload = T.crypto.blake2_256 vote.signingPayload →
    signed.signingPayload = vote.signingPayload

/-- A shown vote that verifies under a key of an honest worker is one that the worker signed. -/
theorem HonestSigner.signs_of_verified (hs : HonestSigner h s id signs) {vote : WorkerVoteV1}
    {signature : Signature} {key : PublicKey} (hshown : Shown h vote signature)
    (hgiven : GivenKey h s id key)
    (hverified : T.crypto.sr25519Verify signature (vote.signingHash T.crypto) key = true) :
    signs vote := by
  obtain ⟨signed, hsigned, hhash⟩ := hs.unforged vote signature key hshown hgiven hverified
  have hpayload := hs.distinct vote signature signed hshown hsigned hhash
  rwa [← WorkerVoteV1.signingPayload_injective hpayload]

variable {t : Transition (State T) (Label AccountId Ledger)}

/-- A key of the storage before a step of the run was given to its worker in the run. -/
theorem dutyKey_given (hr : Run T h s) (ht : t ∈ h) {key : PublicKey}
    (hkey : t.pre.assignmentKeys.lookup duty = some key) : GivenKey h s duty.2.2 key := by
  induction hr with
  | start _ => cases ht
  | @extend h s l s' hr _ ih =>
    refine givenKey_extend.mpr (Or.inl ?_)
    rcases List.mem_cons.mp ht with rfl | ht
    · exact (keysGiven_of_run hr).1.duties duty key hkey
    · exact ih ht

theorem not_slashes_of_honest (hr : Run T h s) (hs : HonestSigner h s id signs) (ht : t ∈ h)
    (hid : duty.2.2 = id) : ¬ Slashes duty t := by
  rintro ⟨hok, hreport⟩
  subst hid
  obtain ⟨origin, first, firstSignature, second, secondSignature, haction, hduty⟩ :=
    Action.eq_submitEquivocation hreport
  have hstep : Tx.Step Action.run t.pre t.label t.post := hr.steps t ht
  obtain ⟨pre, ⟨a, e⟩, post⟩ := t
  cases haction
  cases hok
  obtain ⟨key, hproven⟩ := submitEquivocation_proven (Tx.transaction_ok.mp hstep)
  have hkey : pre.assignmentKeys.lookup duty = some key := by
    rw [← hduty]
    exact hproven.key_eq
  have hgiven : GivenKey h s duty.2.2 key := dutyKey_given hr ht hkey
  -- Both votes of the report are votes that the worker signed.
  have hfirst : signs first := hs.signs_of_verified
    ⟨_, ht, List.mem_cons_self⟩ hgiven hproven.firstVerified
  have hsecond : signs second := hs.signs_of_verified
    ⟨_, ht, List.mem_cons_of_mem _ (List.mem_singleton_self _)⟩ hgiven hproven.secondVerified
  have hsame : first = second := hs.once first second hfirst hsecond hproven.round.1
    hproven.round.2 hproven.chain.1 hproven.chain.2 hproven.version.1 hproven.version.2
  exact hproven.differ (by rw [hsame])

/-! ### One slash for each round -/

/-- No move takes a report back. -/
theorem WorkersMove.keeps_reports (hmove : WorkersMove s s' a)
    (hreported : s.equivocations.lookup duty = some ()) :
    s'.equivocations.lookup duty = some () := by
  have hkeep : ∀ {s₁ s₂ : State T}, s₂.equivocations = s₁.equivocations →
      s₁.equivocations.lookup duty = some () → s₂.equivocations.lookup duty = some () := by
    intro s₁ s₂ hsame hlookup
    rw [hsame]
    exact hlookup
  have hdocks : ∀ {s₁ s₂ : State T}, Docks s₁ s₂ → s₂.equivocations = s₁.equivocations :=
    fun hdocks => hdocks.within.unchanged (fun s => s.equivocations) fun _ _ => rfl
  cases hmove with
  | register _ _ _ hs' => exact hkeep (by rw [hs']) hreported
  | schedule _ _ _ hs' => exact hkeep (by rw [hs']) hreported
  | vote hdock => exact hkeep (hdocks hdock) hreported
  | @suspend origin id first second firstSignature secondSignature worker ledger actual _ hs' =>
    rw [hs']
    show (s.equivocations.insert (first.workId, first.round, id) ()).lookup duty = some ()
    rw [StorageMap.lookup_insert_eq]
    split_ifs
    · rfl
    · exact hreported
  | duties _ hwithin _ =>
    exact hkeep (hwithin.unchanged (fun s => s.equivocations) fun _ _ => rfl) hreported
  | settle hdock _ => exact hkeep (hdocks hdock) hreported
  | boundary hdue _ hcrosses =>
    have hcrossed := hcrosses.within.unchanged (fun s => s.equivocations) fun _ _ => rfl
    have hsettled := hdocks ((finalizeDueVotes_docks _).of_ok hdue)
    exact hkeep (hcrossed.trans hsettled) hreported
  | system hs' => exact hkeep (by rw [hs']) hreported

/-- A slash enters the report, which was not there before. -/
theorem gives_of_slashes (hstep : Tx.Step Action.run t.pre t.label t.post)
    (hslash : Slashes duty t) :
    Trace.Gives (fun s => s.equivocations.lookup duty) t := by
  obtain ⟨hok, hreport⟩ := hslash
  obtain ⟨origin, first, firstSignature, second, secondSignature, haction, hduty⟩ :=
    Action.eq_submitEquivocation hreport
  obtain ⟨pre, ⟨a, e⟩, post⟩ := t
  cases haction
  cases hok
  have hrun := Tx.transaction_ok.mp hstep
  obtain ⟨key, hproven⟩ := submitEquivocation_proven hrun
  obtain ⟨worker, _, ledger, actual, -, -, -, hpost⟩ := submitEquivocation_ok hrun
  -- The report was new, and it is entered now.
  have hbefore : pre.equivocations.lookup duty = none := by
    have hnew := hproven.unreported
    rw [hduty] at hnew
    exact StorageMap.lookup_of_not_contains hnew
  have hafter : post.equivocations.lookup duty = some () := by
    have hpost : post.equivocations =
        pre.equivocations.insert (first.workId, first.round, duty.2.2) () :=
      congrArg State.equivocations hpost
    rw [hpost, hduty]
    exact AList.lookup_insert _
  refine ⟨?_, ?_⟩
  · show post.equivocations.lookup duty ≠ none
    simp [hafter]
  · show post.equivocations.lookup duty ≠ pre.equivocations.lookup duty
    simp [hafter, hbefore]

theorem slashes_once (hr : Run T h s) (duty : DutyKey) :
    h.Pairwise fun t t' => ¬ (Slashes duty t ∧ Slashes duty t') := by
  have honce : Trace.GivenOnce (fun s => s.equivocations.lookup duty) h := by
    refine Trace.givenOnce_of_stable hr fun t ht _ hlookup => ?_
    obtain ⟨later, earlier, rfl⟩ := List.append_of_mem ht
    obtain ⟨hpre, hstep⟩ := hr.before
    rcases workersMove_of_step (roundBook_sound hpre) hstep with ⟨-, hmove⟩ | ⟨-, hsame⟩
    · exact hmove.keeps_reports hlookup
    · rw [hsame]
      exact hlookup
  refine honce.imp_of_mem fun {t t'} ht ht' hgives hslashes => ?_
  exact hgives ⟨gives_of_slashes (hr.steps t ht) hslashes.1,
    gives_of_slashes (hr.steps t' ht') hslashes.2⟩

/-- In every run, no report against a worker that signs one vote for each round at most
succeeds, whatever the other accounts do. Every worker is slashed for an equivocation once for
each round at most. -/
theorem honest_worker_not_slashed (hr : Run T h s) :
    (∀ id signs, HonestSigner h s id signs →
      ∀ t ∈ h, ∀ duty : DutyKey, duty.2.2 = id → ¬ Slashes duty t) ∧
    ∀ duty, h.Pairwise fun t t' => ¬ (Slashes duty t ∧ Slashes duty t') :=
  ⟨fun _ _ hs _ ht _ hid => not_slashes_of_honest hr hs ht hid, slashes_once hr⟩

open Reference

/-- The vote that the reference worker signed, and one that contradicts it. -/
def signedVote : WorkerVoteV1 := supportVote 0 2 1
@[inherit_doc signedVote] def contraryVote : WorkerVoteV1 :=
  { signedVote with verdict := .oppose .contextMismatch }

/-- The reporter shows both votes, and signs the second one itself. -/
def forgedReport : Action AccountId32 Reference.Ledger :=
  .submitEquivocation (.signed bob) 0
    signedVote (sign aliceKey (signedVote.signingHash crypto))
    contraryVote (sign bobKey (contraryVote.signingHash crypto))

/-- The report is refused, and the worker that signed one of the votes is not slashed. -/
theorem honest_worker_not_slashed_forged :
    ∃ h, ∃ s : State referenceWorkers, Run referenceWorkers h s ∧
      (∃ t ∈ h, t.label = (forgedReport, some (.workers .invalidSignature))) ∧
      HonestSigner h s 0 (· = signedVote) ∧
      (∀ t ∈ h, ∀ duty : DutyKey, duty.2.2 = 0 → ¬ Slashes duty t) ∧
      ∀ duty, h.Pairwise fun t t' => ¬ (Slashes duty t ∧ Slashes duty t') := by
  obtain ⟨h, s, hrun, herror, hquiet, hkeys⟩ := exists_workersHistory referenceWorkers
    [.assignWork 0 0]
    (fun h s => (forgedReport.run s).error = some (.workers .invalidSignature) ∧
      (∀ t ∈ h, t.label.1.shownVotes = []) ∧
      (givenKeys h s).all fun given => given.2 = aliceKey) (by decide +kernel)
  obtain ⟨s', herr⟩ := Outcome.eq_err_of_error herror
  have hrun' : Run referenceWorkers
      (⟨s, (forgedReport, some (.workers .invalidSignature)), s'⟩ :: h) s' := hrun.extend herr
  -- Only the report shows votes: one that the worker signed, and one it did not.
  have hshown : ∀ vote signature,
      Shown (⟨s, (forgedReport, some (.workers .invalidSignature)), s'⟩ :: h) vote signature →
      vote = signedVote ∨ vote = contraryVote ∧
        signature = sign bobKey (contraryVote.signingHash crypto) := by
    rintro vote signature ⟨t, ht, hvote⟩
    rcases List.mem_cons.mp ht with rfl | ht
    · rcases List.mem_cons.mp hvote with hfirst | hsecond
      · exact Or.inl (congrArg Prod.fst hfirst)
      · have hpair := List.mem_singleton.mp hsecond
        exact Or.inr ⟨congrArg Prod.fst hpair, congrArg Prod.snd hpair⟩
    · rw [hquiet t ht] at hvote
      cases hvote
  have hsigner : HonestSigner
      (⟨s, (forgedReport, some (.workers .invalidSignature)), s'⟩ :: h) s' 0 (· = signedVote) := by
    refine ⟨?_, ?_, ?_⟩
    · rintro vote vote' rfl rfl - - - - - -
      rfl
    · intro vote signature key hvote hgiven hverified
      rcases hshown vote signature hvote with rfl | ⟨rfl, rfl⟩
      · exact ⟨signedVote, rfl, rfl⟩
      · rcases givenKey_extend.mp hgiven with hgiven | ⟨hfailed, -⟩
        · have hkey : key = aliceKey := of_decide_eq_true (List.all_eq_true.mp hkeys _ hgiven)
          rw [hkey] at hverified
          refine absurd hverified ?_
          decide +kernel
        · cases hfailed
    · rintro vote signature signed hvote rfl hhash
      rcases hshown vote signature hvote with rfl | ⟨rfl, -⟩
      · rfl
      · revert hhash
        decide +kernel
  obtain ⟨hnever, honce⟩ := honest_worker_not_slashed hrun'
  exact ⟨_, s', hrun', ⟨_, List.mem_cons_self, rfl⟩, hsigner, hnever 0 _ hsigner, honce⟩

end MiniJam.Workers
