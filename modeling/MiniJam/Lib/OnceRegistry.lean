import MiniJam.Lib.Collections
import Mathlib.Logic.Relation

/-!
# `MiniJam.Lib.OnceRegistry`: entries that are processed at most once

A registry admits an entry under an id, keeps it pending, and processes it once. It keeps the
pending entries, the ids that were processed, a receipt for every id it has seen, and a
separate counter of the pending entries.

`Sound` is the invariant. Its argument `admitted` tells which entry was admitted under an id,
over the whole life of the registry, and fixes the receipts. `Sound.enter` and
`Sound.process` keep it.
-/

set_option autoImplicit false

/-- The storage of a registry with pending entries in `π` and receipts in `ρ`. -/
structure OnceRegistry (κ π ρ : Type) [DecidableEq κ] where
  pending : StorageMap κ π
  processed : StorageMap κ Unit
  receipts : StorageMap κ ρ
  count : Nat

namespace OnceRegistry

variable {κ π ρ : Type} [DecidableEq κ]

/-- Admit an entry, with its receipt. -/
def enter (r : OnceRegistry κ π ρ) (id : κ) (entry : π) (receipt : ρ) : OnceRegistry κ π ρ where
  pending := r.pending.insert id entry
  processed := r.processed
  receipts := r.receipts.insert id receipt
  count := r.count + 1

/-- Process an entry, with its new receipt. -/
def process (r : OnceRegistry κ π ρ) (id : κ) (receipt : ρ) : OnceRegistry κ π ρ where
  pending := r.pending.erase id
  processed := r.processed.insert id ()
  receipts := r.receipts.insert id receipt
  count := r.count - 1

variable (pendingReceipt processedReceipt : π → ρ)

/-- The registry is in order: `admitted` tells the entry that was admitted under an id. -/
structure Sound (limit : Nat) (admitted : κ → Option π) (r : OnceRegistry κ π ρ) : Prop where
  count_eq : r.count = r.pending.keys.length
  count_le : r.count ≤ limit
  disjoint : ∀ id, r.processed.contains id = true → r.pending.lookup id = none
  pending : ∀ id entry, r.pending.lookup id = some entry → admitted id = some entry
  kept : ∀ id entry, admitted id = some entry →
    r.pending.lookup id = some entry ∨ r.processed.contains id = true
  processed : ∀ id, r.processed.contains id = true → ∃ entry, admitted id = some entry
  receipts : ∀ id, r.receipts.lookup id = (admitted id).map fun entry =>
    if r.processed.contains id then processedReceipt entry else pendingReceipt entry

variable {pendingReceipt processedReceipt} {limit : Nat} {admitted : κ → Option π}
  {r r' : OnceRegistry κ π ρ}

/-- The empty registry. -/
theorem Sound.empty : Sound pendingReceipt processedReceipt limit (fun _ => none)
    (⟨∅, ∅, ∅, 0⟩ : OnceRegistry κ π ρ) where
  count_eq := rfl
  count_le := Nat.zero_le _
  disjoint _ _ := rfl
  pending _ _ h := by cases h
  kept _ _ h := by cases h
  processed _ h := by cases h
  receipts _ := rfl

/-- Nothing was admitted under an id that is neither pending nor processed. -/
theorem Sound.admitted_eq_none (h : Sound pendingReceipt processedReceipt limit admitted r)
    {id : κ} (hpending : r.pending.lookup id = none)
    (hprocessed : r.processed.contains id = false) :
    admitted id = none := by
  cases hadmitted : admitted id with
  | none => rfl
  | some entry =>
    rcases h.kept id entry hadmitted with hlookup | hcontains
    · rw [hpending] at hlookup
      cases hlookup
    · rw [hprocessed] at hcontains
      cases hcontains

/-- Admission under a new id, with room. -/
theorem Sound.enter (h : Sound pendingReceipt processedReceipt limit admitted r) {id : κ}
    {entry : π} (hpending : r.pending.lookup id = none)
    (hprocessed : r.processed.contains id = false) (hroom : r.count < limit) :
    Sound pendingReceipt processedReceipt limit (Function.update admitted id (some entry))
      (r.enter id entry (pendingReceipt entry)) where
  count_eq := by
    have hnot : id ∉ r.pending.keys := by
      intro hmem
      obtain ⟨entry', hlookup⟩ := StorageMap.mem_keys_iff.mp hmem
      rw [hpending] at hlookup
      cases hlookup
    show r.count + 1 = (r.pending.insert id entry).keys.length
    rw [AList.keys_insert, List.length_cons, List.erase_of_not_mem hnot, h.count_eq]
  count_le := hroom
  disjoint id' hid' := by
    -- The new id is not processed.
    have hne : id' ≠ id := by
      rintro rfl
      rw [show r.processed.contains id' = true from hid'] at hprocessed
      cases hprocessed
    show (r.pending.insert id entry).lookup id' = none
    rw [StorageMap.lookup_insert_eq, if_neg hne]
    exact h.disjoint id' hid'
  pending id' entry' hlookup := by
    have hlookup : (r.pending.insert id entry).lookup id' = some entry' := hlookup
    rw [StorageMap.lookup_insert_eq] at hlookup
    split_ifs at hlookup with heq
    · rw [heq, Function.update_self]
      exact hlookup
    · rw [Function.update_of_ne heq]
      exact h.pending id' entry' hlookup
  kept id' entry' hadmitted := by
    show (r.pending.insert id entry).lookup id' = some entry' ∨ _
    rw [StorageMap.lookup_insert_eq]
    by_cases heq : id' = id
    · rw [heq, Function.update_self] at hadmitted
      rw [if_pos heq]
      exact Or.inl hadmitted
    · rw [Function.update_of_ne heq] at hadmitted
      rw [if_neg heq]
      exact h.kept id' entry' hadmitted
  processed id' hid' := by
    obtain ⟨entry', hadmitted⟩ := h.processed id' hid'
    by_cases heq : id' = id
    · exact ⟨entry, by rw [heq, Function.update_self]⟩
    · exact ⟨entry', by rw [Function.update_of_ne heq, hadmitted]⟩
  receipts id' := by
    show (r.receipts.insert id (pendingReceipt entry)).lookup id' = _
    rw [StorageMap.lookup_insert_eq]
    by_cases heq : id' = id
    · have hnot : r.processed.contains id = false := hprocessed
      rw [if_pos heq, heq, Function.update_self, Option.map_some]
      simp [OnceRegistry.enter, hnot]
    · rw [if_neg heq, Function.update_of_ne heq]
      exact h.receipts id'

/-- Processing of a pending entry. -/
theorem Sound.process (h : Sound pendingReceipt processedReceipt limit admitted r) {id : κ}
    {entry : π} (hpending : r.pending.lookup id = some entry) :
    Sound pendingReceipt processedReceipt limit admitted
      (r.process id (processedReceipt entry)) := by
  have hcontains : ∀ id', (r.process id (processedReceipt entry)).processed.contains id' = true ↔
      id' = id ∨ r.processed.contains id' = true := by
    intro id'
    show ((r.processed.insert id ()).lookup id').isSome = true ↔ _
    rw [StorageMap.lookup_insert_eq]
    unfold StorageMap.contains
    by_cases heq : id' = id
    · simp [heq]
    · simp [heq]
  have hlookup : ∀ id', (r.process id (processedReceipt entry)).pending.lookup id' =
      if id' = id then none else r.pending.lookup id' := fun id' =>
    StorageMap.lookup_erase_eq _ _ _
  have hmem : id ∈ r.pending.keys := StorageMap.mem_keys_iff.mpr ⟨entry, hpending⟩
  refine ⟨?_, ?_, ?_, ?_, ?_, ?_, ?_⟩
  · show r.count - 1 = (r.pending.erase id).keys.length
    rw [AList.keys_erase, List.length_erase_of_mem hmem, h.count_eq]
  · exact (Nat.sub_le _ _).trans h.count_le
  · intro id' hid'
    rw [hlookup]
    rcases (hcontains id').mp hid' with heq | hold
    · rw [if_pos heq]
    · split_ifs
      · rfl
      · exact h.disjoint id' hold
  · intro id' entry' hentry
    rw [hlookup] at hentry
    split_ifs at hentry
    exact h.pending id' entry' hentry
  · intro id' entry' hadmitted
    rw [hlookup, hcontains]
    by_cases heq : id' = id
    · exact Or.inr (Or.inl heq)
    · rw [if_neg heq]
      exact (h.kept id' entry' hadmitted).imp_right Or.inr
  · intro id' hid'
    rcases (hcontains id').mp hid' with rfl | hold
    · exact ⟨entry, h.pending id' entry hpending⟩
    · exact h.processed id' hold
  · intro id'
    -- Only the processed entry has a new receipt.
    show (r.receipts.insert id (processedReceipt entry)).lookup id' = _
    rw [StorageMap.lookup_insert_eq]
    by_cases heq : id' = id
    · have hdone := (hcontains id').mpr (Or.inl heq)
      have hadmitted : admitted id' = some entry := by
        rw [heq]
        exact h.pending id entry hpending
      rw [if_pos heq, hadmitted]
      simp [hdone]
    · rw [if_neg heq, h.receipts id']
      have hsame : (r.process id (processedReceipt entry)).processed.contains id' =
          r.processed.contains id' := by
        rw [Bool.eq_iff_iff, hcontains]
        simp [heq]
      rw [hsame]

/-! ### Processing several entries -/

/-- Process one pending entry whose id satisfies `P`. -/
inductive ProcessStep (processedReceipt : π → ρ) (P : κ → Prop) (r : OnceRegistry κ π ρ) :
    OnceRegistry κ π ρ → Prop where
  | mk {id : κ} {entry : π} (hpending : r.pending.lookup id = some entry) (hid : P id) :
      ProcessStep processedReceipt P r (r.process id (processedReceipt entry))

/-- Process pending entries, one after the other. -/
abbrev Processes (processedReceipt : π → ρ) (P : κ → Prop) :
    OnceRegistry κ π ρ → OnceRegistry κ π ρ → Prop :=
  Relation.ReflTransGen (ProcessStep processedReceipt P)

variable {P : κ → Prop}

theorem Processes.mono {P' : κ → Prop} (hrun : Processes processedReceipt P r r')
    (hP : ∀ id, P id → P' id) : Processes processedReceipt P' r r' := by
  induction hrun with
  | refl => exact .refl
  | tail _ hstep ih =>
    cases hstep with
    | mk hpending hid => exact ih.tail (.mk hpending (hP _ hid))

theorem Processes.sound (hrun : Processes processedReceipt P r r')
    (h : Sound pendingReceipt processedReceipt limit admitted r) :
    Sound pendingReceipt processedReceipt limit admitted r' := by
  induction hrun with
  | refl => exact h
  | tail _ hstep ih =>
    cases hstep with
    | mk hpending _ => exact ih.process hpending

theorem Processes.length_le (hrun : Processes processedReceipt P r r') :
    r'.pending.keys.length ≤ r.pending.keys.length := by
  induction hrun with
  | refl => exact le_rfl
  | @tail r₁ r₂ _ hstep ih =>
    obtain @⟨id, entry, hpending, hid⟩ := hstep
    show (r₁.pending.erase id).keys.length ≤ _
    rw [AList.keys_erase]
    exact List.length_erase_le.trans ih

/-- What was pending still is, or it satisfies `P`. What is pending was so before, and what
was processed still is. -/
theorem Processes.cases (hrun : Processes processedReceipt P r r') (id : κ) :
    (r'.pending.lookup id = r.pending.lookup id ∨ P id ∧ r'.pending.lookup id = none) ∧
      (r.processed.contains id = true → r'.processed.contains id = true) := by
  induction hrun with
  | refl => exact ⟨Or.inl rfl, fun h => h⟩
  | @tail r₁ r₂ _ hstep ih =>
    obtain @⟨id', entry, hpending, hid'⟩ := hstep
    have hlookup : (r₁.process id' (processedReceipt entry)).pending.lookup id =
        if id = id' then none else r₁.pending.lookup id := StorageMap.lookup_erase_eq _ _ _
    constructor
    · rw [hlookup]
      by_cases heq : id = id'
      · exact Or.inr ⟨heq ▸ hid', if_pos heq⟩
      · rw [if_neg heq]
        exact ih.1
    · intro hold
      show ((r₁.processed.insert id' ()).lookup id).isSome = true
      rw [StorageMap.lookup_insert_eq]
      split_ifs
      · rfl
      · exact ih.2 hold

end OnceRegistry
