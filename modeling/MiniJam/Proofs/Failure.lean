import MiniJam.Proofs.Atomicity
import MiniJam.Proofs.BlockInput

/-!
# `MiniJam.Proofs.Failure`: how the hook ends when the executor refuses a block

An executor can fail while executing or reject its input. `refused_block_ends` gives the end
of the hook for both errors and every combination of batches: an execution failure is
absorbed when the block has a report or a system operation, a rejected input only when the
block is made of preimages alone. Every other combination is fatal and panics.
-/

set_option autoImplicit false

namespace MiniJam.Jam

variable {AccountId Ledger : Type} {T : Config AccountId Ledger} {s : State T} {block : BlockNumber}
  {input : MiniJamExecutionInput}

/-- The hook handles the failure that the executor's error is mapped to. -/
theorem onFinalize_of_refused {e : MiniJamError}
    (hinput : executionInput s block (dueItems s block) = .ok input)
    (hexecute : T.executor.execute input s.protocolReader = .error e) :
    onFinalize block s =
      handleFailure (executionFailure ((dueItems s block).map ExecutionItem.workId) input e) s := by
  have hinner : executeBlockStfInner block (dueItems s block) s =
      .err (executionFailure ((dueItems s block).map ExecutionItem.workId) input e) s := by
    unfold executeBlockStfInner
    rw [Tx.read_bind_apply, Tx.bind_apply, hinput]
    simp only [Tx.lift, hexecute, Tx.throw_apply]
  exact onFinalize_of_run_err (runBlockStf_of_err hinner)

/-- A block has a due item exactly when its input has a report. -/
theorem BuiltInput.due_eq_nil_iff {due : List ExecutionItem}
    (h : BuiltInput s block due input) : due = [] ↔ input.reports.toList = [] := by
  rw [← List.length_eq_zero_iff, h.reports.length_eq, List.length_eq_zero_iff]

/-- An execution failure yields the first due work when the block has a report. Without one
it quarantines the pending system operations when the input has one, and panics when it has
none. -/
theorem execution_failure_ends {outcome : ExecutionOutcome}
    (hinput : executionInput s block (dueItems s block) = .ok input)
    (hexecute : T.executor.execute input s.protocolReader = .error (.execution outcome)) :
    (input.reports.toList ≠ [] → ∃ workId, onFinalize block s =
      .ok () { s with events := s.events ++ [.executionYielded workId outcome] }) ∧
    (input.reports.toList = [] → input.systemOps.toList ≠ [] → ∃ s',
      quarantinePendingSystemOps outcome s = .ok () s' ∧ onFinalize block s = .ok () s') ∧
    (input.reports.toList = [] → input.systemOps.toList = [] →
      onFinalize block s = .panicked) := by
  have hbuilt := executionInput_ok hinput
  rw [onFinalize_of_refused hinput hexecute]
  refine ⟨fun hreports => ?_, fun hreports hops => ?_, fun hreports hops => ?_⟩
  · have hdue : dueItems s block ≠ [] := fun hnil => hreports (hbuilt.due_eq_nil_iff.mp hnil)
    obtain ⟨item, rest, hitems⟩ := List.exists_cons_of_ne_nil hdue
    rw [hitems]
    exact ⟨item.workId, rfl⟩
  · have hfailure : executionFailure ((dueItems s block).map ExecutionItem.workId) input
        (.execution outcome) = .systemOpsYielded outcome := by
      simp [executionFailure, hbuilt.due_eq_nil_iff.mpr hreports, hops]
    obtain ⟨s', hs'⟩ := quarantinePendingSystemOps_returns outcome s
    rw [hfailure]
    exact ⟨s', hs', hs'⟩
  · have hfailure : executionFailure ((dueItems s block).map ExecutionItem.workId) input
        (.execution outcome) = .fatal := by
      simp [executionFailure, hbuilt.due_eq_nil_iff.mpr hreports, hops]
    rw [hfailure]
    rfl

/-- A rejected input quarantines the pending preimages when the input has preimages and
nothing else, and panics otherwise. -/
theorem rejected_input_ends {error : InputError}
    (hinput : executionInput s block (dueItems s block) = .ok input)
    (hexecute : T.executor.execute input s.protocolReader = .error (.input error)) :
    (input.reports.toList = [] ∧ input.preimages.toList ≠ [] ∧ input.systemOps.toList = [] →
      ∃ s', quarantinePendingPreimages .invalidInput s = .ok () s' ∧
        onFinalize block s = .ok () s') ∧
    (¬ (input.reports.toList = [] ∧ input.preimages.toList ≠ [] ∧
      input.systemOps.toList = []) → onFinalize block s = .panicked) := by
  rw [onFinalize_of_refused hinput hexecute]
  refine ⟨fun hkind => ?_, fun hkind => ?_⟩
  · obtain ⟨s', hs'⟩ := quarantinePendingPreimages_returns .invalidInput s
    simp only [executionFailure, if_pos hkind]
    exact ⟨s', hs', hs'⟩
  · simp only [executionFailure, if_neg hkind]
    rfl

/-- How the hook ends on a block whose input was built and then refused, for both errors of
the executor and every combination of batches. -/
theorem refused_block_ends (s : State T) (block : BlockNumber) (input : MiniJamExecutionInput)
    (hinput : executionInput s block (dueItems s block) = .ok input) :
    (∀ outcome, T.executor.execute input s.protocolReader = .error (.execution outcome) →
      (input.reports.toList ≠ [] → ∃ workId, onFinalize block s =
        .ok () { s with events := s.events ++ [.executionYielded workId outcome] }) ∧
      (input.reports.toList = [] → input.systemOps.toList ≠ [] → ∃ s',
        quarantinePendingSystemOps outcome s = .ok () s' ∧ onFinalize block s = .ok () s') ∧
      (input.reports.toList = [] → input.systemOps.toList = [] →
        onFinalize block s = .panicked)) ∧
    ∀ error, T.executor.execute input s.protocolReader = .error (.input error) →
      (input.reports.toList = [] ∧ input.preimages.toList ≠ [] ∧ input.systemOps.toList = [] →
        ∃ s', quarantinePendingPreimages .invalidInput s = .ok () s' ∧
          onFinalize block s = .ok () s') ∧
      (¬ (input.reports.toList = [] ∧ input.preimages.toList ≠ [] ∧
        input.systemOps.toList = []) → onFinalize block s = .panicked) :=
  ⟨fun _ hexecute => execution_failure_ends hinput hexecute,
    fun _ hexecute => rejected_input_ends hinput hexecute⟩

open Reference

/-- A reachable block with a report: its execution failure is absorbed. -/
theorem refused_block_ends_yielded : ∃ h s input,
    Chain.Run (runtime (refuse (.execution .trap))) h s ∧
    executionInput s 1 (dueItems s 1) = .ok input ∧ input.reports.toList ≠ [] ∧
    ∃ workId, onFinalize 1 s =
      .ok () { s with events := s.events ++ [.executionYielded workId .trap] } := by
  obtain ⟨h, s, hrun, input, hinput, hreports⟩ := exists_run
    (runtime (refuse (.execution .trap)))
    (voteThrough 0 2 1 ++ [.jamOnInitialize 1])
    (fun s => ∃ input, executionInput s 1 (dueItems s 1) = .ok input ∧ input.reports.toList ≠ [])
    (by decide +kernel)
  exact ⟨h, s, input, hrun, hinput, hreports,
    ((refused_block_ends s 1 input hinput).1 .trap rfl).1 hreports⟩

/-- An executor that fails on the empty block of a fresh chain panics the hook. So does one
that rejects its input when a preimage is pending next to an accepted report. -/
theorem refused_block_panics :
    (∃ h s input, Chain.Run (runtime (refuse (.execution .trap))) h s ∧
      executionInput s 1 (dueItems s 1) = .ok input ∧
      (runtime (refuse (.execution .trap))).executor.execute input
        s.protocolReader = .error (.execution .trap) ∧
      onFinalize 1 s = .panicked) ∧
    ∃ h s input,
      Chain.Run (runtime (refuse (.input .invalidPreimageEncoding))) h s ∧
      executionInput s 1 (dueItems s 1) = .ok input ∧ input.preimages.toList ≠ [] ∧
      (runtime (refuse (.input .invalidPreimageEncoding))).executor.execute
        input s.protocolReader = .error (.input .invalidPreimageEncoding) ∧
      onFinalize 1 s = .panicked := by
  constructor
  · -- A trap, in a block with neither reports nor operations.
    obtain ⟨h, s, hrun, input, hinput, hreports, hops⟩ := exists_run
      (runtime (refuse (.execution .trap))) []
      (fun s => ∃ input, executionInput s 1 (dueItems s 1) = .ok input ∧
        input.reports.toList = [] ∧ input.systemOps.toList = []) (by decide +kernel)
    have hexecute : (runtime (refuse (.execution .trap))).executor.execute
        input s.protocolReader = .error (.execution .trap) := rfl
    exact ⟨h, s, input, hrun, hinput, hexecute,
      (execution_failure_ends hinput hexecute).2.2 hreports hops⟩
  · -- A refused preimage, in a block with a report.
    obtain ⟨h, s, hrun, input, hinput, hreports, hpreimages⟩ := exists_run
      (runtime (refuse (.input .invalidPreimageEncoding)))
      (voteThrough 0 2 1 ++ [.jamOnInitialize 1,
        .extrinsic (.signed alice) (.submitPreimage (BoundedVec.takeFrom [7]))])
      (fun s => ∃ input, executionInput s 1 (dueItems s 1) = .ok input ∧
        input.reports.toList ≠ [] ∧ input.preimages.toList ≠ []) (by decide +kernel)
    have hexecute : (runtime
        (refuse (.input .invalidPreimageEncoding))).executor.execute
        input s.protocolReader = .error (.input .invalidPreimageEncoding) := rfl
    exact ⟨h, s, input, hrun, hinput, hpreimages, hexecute,
      (rejected_input_ends hinput hexecute).2 fun hkind => hreports hkind.1⟩

end MiniJam.Jam
