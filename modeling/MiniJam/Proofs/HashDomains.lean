import MiniJam.Proofs.Equivocations

/-!
# `MiniJam.Proofs.HashDomains`: the hashed byte strings of the protocol

Five functions of the protocol hash a byte string that starts with a domain: the request ids of
the two versions of a system operation, the message a worker signs, and the two hashes of an
execution. All five domains start with `minijam/` and have different lengths, which nothing
states. They are still told apart, since no domain is the start of another one
(`domain_of_prefix`).

Behind the domain of a request id come two fields of one length and the command, so the bytes
determine all three (`request_inj`).
-/

set_option autoImplicit false

namespace MiniJam

open Scale Framing

/-! ### Request ids -/

theorem encode_commandV1_injective : Function.Injective SystemCommandV1.encode := by
  intro a b heq
  cases a with
  | createService controller codeHash codeLen minItemGas minMemoGas =>
    cases b with
    | createService controller' codeHash' codeLen' minItemGas' minMemoGas' =>
      simp only [SystemCommandV1.encode, List.append_assoc] at heq
      obtain ⟨rfl, heq₁⟩ := fixedBytes_selfDelimiting 32 _ _ _ _ (List.append_cancel_left heq)
      obtain ⟨rfl, heq₂⟩ := fixedBytes_selfDelimiting 32 _ _ _ _ heq₁
      obtain ⟨rfl, heq₃⟩ := encodeU32_selfDelimiting _ _ _ _ heq₂
      obtain ⟨rfl, hlast⟩ := encodeU64_selfDelimiting _ _ _ _ heq₃
      rw [encodeU64_injective hlast]
    | upgradeService _ _ _ _ _ _ =>
      have htag := congrArg List.head? heq
      cases htag
  | upgradeService controller serviceId codeHash codeLen minItemGas minMemoGas =>
    cases b with
    | createService _ _ _ _ _ =>
      have htag := congrArg List.head? heq
      cases htag
    | upgradeService controller' serviceId' codeHash' codeLen' minItemGas' minMemoGas' =>
      simp only [SystemCommandV1.encode, List.append_assoc] at heq
      obtain ⟨rfl, heq₁⟩ := fixedBytes_selfDelimiting 32 _ _ _ _ (List.append_cancel_left heq)
      obtain ⟨rfl, heq₂⟩ := encodeU32_selfDelimiting _ _ _ _ heq₁
      obtain ⟨rfl, heq₃⟩ := fixedBytes_selfDelimiting 32 _ _ _ _ heq₂
      obtain ⟨rfl, heq₄⟩ := encodeU32_selfDelimiting _ _ _ _ heq₃
      obtain ⟨rfl, hlast⟩ := encodeU64_selfDelimiting _ _ _ _ heq₄
      rw [encodeU64_injective hlast]

/-- An account, a nonce and a command behind a domain. -/
theorem request_inj {κ : Type} {encode : κ → Bytes} (hinj : Function.Injective encode)
    {domain : Bytes} {account account' : FixedBytes 32} {nonce nonce' : UInt64}
    {command command' : κ}
    (h : domain ++ account.toList ++ encodeU64 nonce ++ encode command =
      domain ++ account'.toList ++ encodeU64 nonce' ++ encode command') :
    account = account' ∧ nonce = nonce' ∧ command = command' := by
  simp only [List.append_assoc] at h
  obtain ⟨haccount, h⟩ := fixedBytes_selfDelimiting 32 _ _ _ _ (List.append_cancel_left h)
  obtain ⟨hnonce, h⟩ := encodeU64_selfDelimiting _ _ _ _ h
  exact ⟨haccount, hnonce, hinj h⟩

/-! ### Domains -/

/-- A value that one of the five functions hashes. -/
inductive Hashed where
  | requestV1 (sender : FixedBytes 32) (nonce : UInt64) (command : SystemCommandV1)
  | requestV2 (submitter : FixedBytes 32) (nonce : UInt64) (command : SystemCommandV2)
  | vote (message : WorkerVoteV1)
  | input (block : MiniJamExecutionInput)
  | receipt (output : MiniJamExecutionOutput)

/-- The function that hashes the value. -/
inductive Hasher where
  | requestV1
  | requestV2
  | vote
  | input
  | receipt
  deriving DecidableEq

namespace Hashed

def hasher : Hashed → Hasher
  | .requestV1 _ _ _ => .requestV1
  | .requestV2 _ _ _ => .requestV2
  | .vote _ => .vote
  | .input _ => .input
  | .receipt _ => .receipt

/-- The bytes that are hashed. -/
def payload : Hashed → Bytes
  | .requestV1 sender nonce command => SystemOpV1.requestPayload sender nonce command
  | .requestV2 submitter nonce command => SystemOpV2.requestPayload submitter nonce command
  | .vote message => message.signingPayload
  | .input block => block.inputPayload
  | .receipt output => output.receiptPayload

end Hashed

/-- The domain of a function. -/
def Hasher.domain : Hasher → Bytes
  | .requestV1 => ascii "minijam/system-op/v1"
  | .requestV2 => ascii "minijam/system-op/v2"
  | .vote => ascii "minijam/worker-vote-v1"
  | .input => ascii "minijam/block-input/v1"
  | .receipt => ascii "minijam/execution-receipt/v1"

theorem Hashed.domain_prefix (v : Hashed) : v.hasher.domain <+: v.payload := by
  cases v with
  | requestV1 sender nonce command =>
    simp only [hasher, Hasher.domain, payload, SystemOpV1.requestPayload, List.append_assoc]
    exact List.prefix_append _ _
  | requestV2 submitter nonce command =>
    simp only [hasher, Hasher.domain, payload, SystemOpV2.requestPayload, List.append_assoc]
    exact List.prefix_append _ _
  | vote message => exact List.prefix_append _ _
  | input block =>
    -- The loops only append to what is there.
    simp only [hasher, Hasher.domain, payload, MiniJamExecutionInput.inputPayload,
      foldl_appendLenPrefixedBytes, List.append_assoc]
    exact List.prefix_append _ _
  | receipt output =>
    simp only [hasher, Hasher.domain, payload, MiniJamExecutionOutput.receiptPayload,
      appendHashes_eq, appendStateChanges_eq, List.append_assoc]
    exact List.prefix_append _ _

/-- No domain starts another one. -/
theorem Hasher.domain_of_prefix {f g : Hasher} (h : f.domain <+: g.domain) : f = g := by
  revert h
  cases f <;> cases g <;> decide

/-- Request ids and vote messages are bound and separated. The bytes under a request id of
either version determine the account, the nonce and the command, the bytes under a signing hash
determine the vote, and no two of the five functions ever hash the same bytes. -/
theorem hashed_payloads_bound_and_separated :
    (∀ submitter submitter' nonce nonce' command command',
      SystemOpV2.requestPayload submitter nonce command =
        SystemOpV2.requestPayload submitter' nonce' command' →
      submitter = submitter' ∧ nonce = nonce' ∧ command = command') ∧
    (∀ sender sender' nonce nonce' command command',
      SystemOpV1.requestPayload sender nonce command =
        SystemOpV1.requestPayload sender' nonce' command' →
      sender = sender' ∧ nonce = nonce' ∧ command = command') ∧
    (∀ vote vote' : WorkerVoteV1, vote.signingPayload = vote'.signingPayload → vote = vote') ∧
    ∀ v w : Hashed, v.hasher ≠ w.hasher → v.payload ≠ w.payload := by
  refine ⟨?_, ?_, fun _ _ h => WorkerVoteV1.signingPayload_injective h, ?_⟩
  · intro submitter submitter' nonce nonce' command command' h
    exact request_inj encode_command_selfDelimiting.injective h
  · intro sender sender' nonce nonce' command command' h
    exact request_inj encode_commandV1_injective h
  · intro v w hne heq
    have hw : w.hasher.domain <+: v.payload := heq ▸ w.domain_prefix
    -- Two prefixes of the same bytes are comparable.
    rcases List.prefix_or_prefix_of_prefix v.domain_prefix hw with h | h
    · exact hne (Hasher.domain_of_prefix h)
    · exact hne (Hasher.domain_of_prefix h).symm

end MiniJam
