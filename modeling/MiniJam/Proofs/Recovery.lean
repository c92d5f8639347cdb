import MiniJam.Worker.Recovery

/-!
# `MiniJam.Proofs.Recovery`: statuses across restarts

A restart keeps the keys, which tasks were ready, and the lengths of their bundles. It does not
keep a rejection. `from_status` writes the debug text of the error, and `into_status` wraps
whatever text it finds in `WorkerError::Chain`. So the next restart writes the debug text of that
wrapper: the old text within `Chain("…")`, with its quotes and backslashes escaped once more. The
text is longer after each restart (`length_lt_length_debug_chain`).
-/

set_option autoImplicit false

namespace MiniJam

variable (escaped : Char → Bool)

theorem debugChar_ne_nil (c : Char) : debugChar escaped c ≠ [] := by
  unfold debugChar
  split_ifs <;> simp

/-- The debug text of a wrapped message is longer than the message. -/
theorem length_lt_length_debug_chain (message : String) :
    message.length < ((WorkerError.chain message).debug escaped).length := by
  have hescape : ∀ cs : List Char, cs.length ≤ (cs.flatMap (debugChar escaped)).length := by
    intro cs
    induction cs with
    | nil => simp
    | cons c cs ih =>
      have hc := List.length_pos_of_ne_nil (debugChar_ne_nil escaped c)
      rw [List.flatMap_cons, List.length_append, List.length_cons]
      omega
  have hmessage := hescape message.toList
  rw [String.length_toList] at hmessage
  simp only [WorkerError.debug, debugTuple, debugStr, String.length_append, String.length_ofList]
  have hname : "Chain".length = 5 := rfl
  omega

namespace Worker

/-! ### One restart -/

/-- What a restart makes of one status. -/
def restored : WorkerTaskStatus → WorkerTaskStatus
  | .bundleReady bundleLen => .bundleReady bundleLen
  | .bundleRejected reason => .bundleRejected (.chain (reason.debug escaped))

theorem intoStatus_fromStatus (workId : WorkId) (round : UInt8) (status : WorkerTaskStatus) :
    (PersistedWorkerTaskStatus.fromStatus escaped workId round status).intoStatus =
      restored escaped status := by
  cases status with
  | bundleReady bundleLen => rfl
  | bundleRejected reason => rfl

/-- Entries with different keys are all found in the map they are collected in. -/
theorem lookup_foldl_insert {κ ν ν' : Type} [DecidableEq κ] (f : ν → ν') {l : List (κ × ν)}
    (hnodup : (l.map Prod.fst).Nodup) (m : StorageMap κ ν') {k : κ} {v' : ν'} :
    (l.foldl (fun m entry => m.insert entry.1 (f entry.2)) m).lookup k = some v' ↔
      (∃ v, (k, v) ∈ l ∧ f v = v') ∨ k ∉ l.map Prod.fst ∧ m.lookup k = some v' := by
  induction l generalizing m with
  | nil => simp
  | cons entry l ih =>
    obtain ⟨hfresh, hnodup⟩ := List.nodup_cons.mp hnodup
    rw [List.foldl_cons, ih hnodup, StorageMap.lookup_insert_eq]
    by_cases hk : k = entry.1
    · subst hk
      have hlater : ∀ v, (entry.1, v) ∉ l := fun v hv =>
        hfresh (List.mem_map.mpr ⟨(entry.1, v), hv, rfl⟩)
      simp [hfresh, hlater, Prod.ext_iff]
    · simp [hk, Prod.ext_iff]

/-- A restart restores the status of every task on its own. -/
theorem lookup_restart (statuses : Statuses) (k : WorkId × UInt8) :
    (restart escaped statuses).lookup k = (statuses.lookup k).map (restored escaped) := by
  have horder : ∀ ks, (keyOrder ks).Perm ks := fun ks => List.mergeSort_perm ks _
  have hcollect : restart escaped statuses = (statuses.iter keyOrder).foldl
      (fun m entry => m.insert entry.1 (restored escaped entry.2)) ∅ := by
    unfold restart WorkerRecoveryFile.intoStatuses WorkerRecoveryFile.fromStatuses
    rw [List.foldl_map]
    congr 1
    funext m entry
    rw [intoStatus_fromStatus]
    cases entry.2 <;> rfl
  refine Option.ext fun status => ?_
  rw [hcollect, lookup_foldl_insert _ (StorageMap.nodup_iter_keys horder statuses),
    Option.map_eq_some_iff]
  simp [StorageMap.mem_iter horder]

/-! ### Any number of restarts -/

/-- The length of the bundle of a task that is ready. -/
def WorkerTaskStatus.readyLen : WorkerTaskStatus → Option UInt64
  | .bundleReady bundleLen => some bundleLen
  | .bundleRejected _ => none

/-- The text of a rejection after one restart more than the number. -/
def rejectionText (reason : WorkerError) : Nat → String
  | 0 => reason.debug escaped
  | n + 1 => (WorkerError.chain (rejectionText reason n)).debug escaped

theorem lookup_restarts_rejected {statuses : Statuses} {k : WorkId × UInt8} {reason : WorkerError}
    (h : statuses.lookup k = some (.bundleRejected reason)) (n : Nat) :
    ((restart escaped)^[n + 1] statuses).lookup k =
      some (.bundleRejected (.chain (rejectionText escaped reason n))) := by
  induction n with
  | zero =>
    rw [Function.iterate_one, lookup_restart, h]
    rfl
  | succ n ih =>
    rw [Function.iterate_succ_apply', lookup_restart, ih]
    rfl

/-- A restart keeps the keys, the kinds and the lengths. A second restart changes nothing exactly
when no task was rejected, and the text of a rejection is longer after every restart. -/
theorem restart_stable_iff (statuses : Statuses) :
    (∀ k, ((restart escaped statuses).lookup k).map WorkerTaskStatus.readyLen =
      (statuses.lookup k).map WorkerTaskStatus.readyLen) ∧
    ((∀ k, (restart escaped (restart escaped statuses)).lookup k =
        (restart escaped statuses).lookup k) ↔
      ∀ k reason, statuses.lookup k ≠ some (.bundleRejected reason)) ∧
    ∀ k reason, statuses.lookup k = some (.bundleRejected reason) →
      ∃ text : Nat → String, StrictMono (fun n => (text n).length) ∧
        ∀ n, ((restart escaped)^[n + 1] statuses).lookup k =
          some (.bundleRejected (.chain (text n))) := by
  refine ⟨?_, ⟨?_, ?_⟩, ?_⟩
  · intro k
    rw [lookup_restart, Option.map_map]
    congr 1
    funext status
    cases status <;> rfl
  · intro hstable k reason hk
    have hsame := hstable k
    have honce := lookup_restarts_rejected escaped hk 0
    have htwice := lookup_restarts_rejected escaped hk 1
    -- The two texts would be equal, but the second one is longer.
    simp only [Function.iterate_succ_apply, Function.iterate_zero_apply] at honce htwice
    rw [honce, htwice] at hsame
    have htext : rejectionText escaped reason 1 = rejectionText escaped reason 0 := by
      injection hsame with h
      injection h with h
      injection h
    have hlonger := length_lt_length_debug_chain escaped (rejectionText escaped reason 0)
    exact absurd (congrArg String.length htext) (Nat.ne_of_gt hlonger)
  · intro hready k
    rw [lookup_restart, lookup_restart]
    cases hk : statuses.lookup k with
    | none => rfl
    | some status =>
      cases status with
      | bundleReady bundleLen => rfl
      | bundleRejected reason => exact absurd hk (hready k reason)
  · intro k reason hk
    refine ⟨rejectionText escaped reason, strictMono_nat_of_lt_succ fun n => ?_,
      lookup_restarts_rejected escaped hk⟩
    exact length_lt_length_debug_chain escaped (rejectionText escaped reason n)

/-- A rejection for a missing bundle changes at the second restart. -/
theorem restart_rewraps_rejection :
    let statuses : Statuses := (∅ : Statuses).insert (1, 0) (.bundleRejected (.fetch .notFound))
    (restart (fun _ => false) statuses).lookup (1, 0) =
        some (.bundleRejected (.chain "Fetch(NotFound)")) ∧
      (restart (fun _ => false) (restart (fun _ => false) statuses)).lookup (1, 0) =
        some (.bundleRejected (.chain "Chain(\"Fetch(NotFound)\")")) := by
  decide +kernel

end Worker

end MiniJam
