import MiniJam.Lib.Collections
import Mathlib.Algebra.Order.Group.Multiset
import Mathlib.Tactic.Abel

/-!
# `MiniJam.Lib.KeyedQueue`: a queue with an index of its keys

A queue is kept as a vector, and a map beside it holds the keys that are in the queue, so
that a duplicate is found without a scan. `Indexed` says that the two agree and that no key
is queued twice.

`Drained` is what a removal loop leaves: the entries that satisfy the test are out of the
queue, all others are in it, and the keys of the removed entries are out of the index. It
says nothing about the order, since removing by swapping changes it.

`Moves` is what can happen to a queue that has a quarantine. It says which items enter, leave
or are lost, and `Moves.balance` that this adds up.
-/

set_option autoImplicit false

namespace KeyedQueue

variable {α κ : Type} [DecidableEq κ]

/-- Take the keys of some entries out of the index. -/
def eraseKeys (key : α → κ) (entries : List α) (index : StorageMap κ Unit) : StorageMap κ Unit :=
  entries.foldl (fun keys entry => keys.erase (key entry)) index

theorem contains_eraseKeys (key : α → κ) (entries : List α) (index : StorageMap κ Unit) (k : κ) :
    (eraseKeys key entries index).contains k = true ↔
      index.contains k = true ∧ k ∉ entries.map key := by
  unfold eraseKeys
  induction entries generalizing index with
  | nil => simp
  | cons entry entries ih =>
    rw [List.foldl_cons, ih, List.map_cons, List.mem_cons, not_or]
    unfold StorageMap.contains
    rw [StorageMap.lookup_erase_eq]
    by_cases hk : k = key entry
    · simp [hk]
    · simp [hk]

/-- The index holds the keys of the queue, and no key is queued twice. -/
structure Indexed (key : α → κ) (queue : List α) (index : StorageMap κ Unit) : Prop where
  nodup : (queue.map key).Nodup
  contains_iff : ∀ k, index.contains k = true ↔ k ∈ queue.map key

variable {key : α → κ} {queue queue' : List α} {index index' : StorageMap κ Unit}

theorem Indexed.nil : Indexed key [] ∅ where
  nodup := List.nodup_nil
  contains_iff k := by simp [StorageMap.contains]

/-- Queue an entry whose key the index does not hold. -/
theorem Indexed.push (h : Indexed key queue index) (entry : α)
    (hnew : index.contains (key entry) = false) :
    Indexed key (queue ++ [entry]) (index.insert (key entry) ()) where
  nodup := by
    have hnot : key entry ∉ queue.map key := by
      intro hmem
      rw [(h.contains_iff _).mpr hmem] at hnew
      cases hnew
    rw [List.map_append, List.map_singleton]
    exact List.nodup_append.mpr ⟨h.nodup, List.nodup_singleton _, by
      intro k hk k' hk' heq
      rw [List.mem_singleton.mp hk'] at heq
      exact hnot (heq ▸ hk)⟩
  contains_iff k := by
    have hold := h.contains_iff k
    unfold StorageMap.contains at hold ⊢
    rw [StorageMap.lookup_insert_eq, List.map_append, List.mem_append, List.map_singleton,
      List.mem_singleton, ← hold]
    by_cases hk : k = key entry
    · simp [hk]
    · simp [hk]

/-- Take entries out of the queue and their keys out of the index. -/
theorem Indexed.remove (h : Indexed key queue index) {removed : List α}
    (hperm : (queue' ++ removed).Perm queue) :
    Indexed key queue' (eraseKeys key removed index) := by
  have hkeys : (queue'.map key ++ removed.map key).Perm (queue.map key) := by
    rw [← List.map_append]
    exact hperm.map key
  have hnodup := List.nodup_append.mp (hkeys.nodup_iff.mpr h.nodup)
  refine ⟨hnodup.1, fun k => ?_⟩
  rw [contains_eraseKeys, h.contains_iff, ← hkeys.mem_iff, List.mem_append]
  constructor
  · rintro ⟨hk | hk, hnot⟩
    · exact hk
    · exact absurd hk hnot
  · intro hk
    exact ⟨Or.inl hk, fun hk' => hnodup.2.2 k hk k hk' rfl⟩

/-- What a removal loop has done: `removed` are the entries that satisfy the test. -/
structure Drained (test : α → Bool) (key : α → κ) (queue : List α) (index : StorageMap κ Unit)
    (queue' removed : List α) (index' : StorageMap κ Unit) : Prop where
  perm : (queue' ++ removed).Perm queue
  kept : ∀ entry ∈ queue', test entry = false
  named : ∀ entry ∈ removed, test entry = true
  index_eq : index' = eraseKeys key removed index

variable {test : α → Bool} {removed : List α}

/-- A loop whose test nothing satisfies has removed nothing. -/
theorem Drained.none (htest : ∀ entry ∈ queue, test entry = false) :
    Drained test key queue index queue [] index where
  perm := by simp
  kept := htest
  named := by simp
  index_eq := rfl

/-- The loop that removes by swapping. -/
theorem drained_swapRetain (test : α → Bool) (key : α → κ) (queue : List α)
    (index : StorageMap κ Unit) :
    Drained test key queue index (swapRetain test queue).1 (swapRetain test queue).2
      (eraseKeys key (swapRetain test queue).2 index) where
  perm := swapRetain_perm test queue
  kept entry hmem := ((mem_swapRetain_kept test queue entry).mp hmem).2
  named := swapRemoveLoop_removed test queue.length 0 queue
  index_eq := rfl

section
variable (h : Drained test key queue index queue' removed index')
include h

theorem Drained.indexed (hi : Indexed key queue index) : Indexed key queue' index' := by
  rw [h.index_eq]
  exact hi.remove h.perm

/-- An entry is still there exactly when it was not named. -/
theorem Drained.mem_iff {entry : α} (hmem : entry ∈ queue) :
    entry ∈ queue' ↔ test entry = false := by
  constructor
  · exact h.kept entry
  · intro htest
    rcases List.mem_append.mp (h.perm.mem_iff.mpr hmem) with hkept | hremoved
    · exact hkept
    · rw [h.named entry hremoved] at htest
      cases htest

/-- The entries of the queue that satisfy the test are gone, the others are there, as often
as they were. -/
theorem Drained.perm_filter : queue'.Perm (queue.filter fun entry => !test entry) ∧
    removed.Perm (queue.filter test) := by
  have hkept : queue'.filter (fun entry => !test entry) = queue' ∧ queue'.filter test = [] := by
    constructor
    · exact List.filter_eq_self.mpr fun entry hmem => by rw [h.kept entry hmem]; rfl
    · exact List.filter_eq_nil_iff.mpr fun entry hmem => by rw [h.kept entry hmem]; simp
  have hremoved : removed.filter (fun entry => !test entry) = [] ∧
      removed.filter test = removed := by
    constructor
    · exact List.filter_eq_nil_iff.mpr fun entry hmem => by rw [h.named entry hmem]; simp
    · exact List.filter_eq_self.mpr fun entry hmem => h.named entry hmem
  have hnot := h.perm.filter fun entry => !test entry
  have htest := h.perm.filter test
  rw [List.filter_append, hkept.1, hremoved.1, List.append_nil] at hnot
  rw [List.filter_append, hkept.2, hremoved.2, List.nil_append] at htest
  exact ⟨hnot, htest⟩

/-- What is left and what was named are what was there. -/
theorem Drained.coe_map {β : Type} (f : α → β) :
    (queue'.map f : Multiset β) + ((queue.filter test).map f : List β) =
      (queue.map f : List β) := by
  rw [Multiset.coe_add, Multiset.coe_eq_coe, ← List.map_append]
  exact ((h.perm_filter.2.symm.append_left queue').trans h.perm).map f

end

/-! ### A queue with a quarantine -/

/-- A queue with the index of its keys, and a quarantine for what was thrown out of it. -/
structure Store (α β κ : Type) [DecidableEq κ] where
  queue : List α
  index : StorageMap κ Unit
  quarantine : List β

section
variable {β ι : Type} (key : ι → κ) (item : α → ι) (held : β → ι)

/-- The items of the queue and of the quarantine, with their multiplicity. -/
def Store.items (q : Store α β κ) : Multiset ι := q.queue.map item + q.quarantine.map held

/-- What can happen to the queue, with the items that enter, that come back from the
quarantine, that leave and that are lost. -/
inductive Moves (q : Store α β κ) : List ι → List ι → List ι → List ι → Store α β κ → Prop where
  | keep : Moves q [] [] [] [] q
  | push (entry : α) (hnew : q.index.contains (key (item entry)) = false) :
      Moves q [item entry] [] [] [] { q with
        queue := q.queue ++ [entry]
        index := q.index.insert (key (item entry)) () }
  | retry (entry : α) {record : β} {rest : List β}
      (hnew : q.index.contains (key (item entry)) = false)
      (hrecord : held record = item entry) (hperm : ([record] ++ rest).Perm q.quarantine) :
      Moves q [] [item entry] [] []
        ⟨q.queue ++ [entry], q.index.insert (key (item entry)) (), rest⟩
  | release {removed rest : List β} (hperm : (removed ++ rest).Perm q.quarantine) :
      Moves q [] [] (removed.map held) [] { q with quarantine := rest }
  | drain {test : α → Bool} {queue' removed : List α} {index' : StorageMap κ Unit}
      (h : Drained test (fun entry => key (item entry)) q.queue q.index queue' removed index') :
      Moves q [] [] ((q.queue.filter test).map item) [] ⟨queue', index', q.quarantine⟩
  /-- The whole queue goes into the quarantine, as far as there is room. -/
  | quarantine {records : List β} (room : Nat)
      (hrecords : records.map held = q.queue.map item) :
      Moves q [] [] [] ((q.queue.map item).drop room)
        ⟨[], eraseKeys (fun entry => key (item entry)) q.queue q.index,
          q.quarantine ++ records.take room⟩

variable {key item held} {q q' : Store α β κ} {entered retried left lost : List ι}

/-- Every item stays, leaves or is lost. -/
theorem Moves.balance (h : Moves key item held q entered retried left lost q') :
    q'.items item held + left + lost = q.items item held + entered := by
  unfold Store.items
  cases h with
  | keep => rw [Multiset.coe_nil, add_zero, add_zero]
  | push entry hnew =>
    rw [List.map_append, List.map_singleton, ← Multiset.coe_add, Multiset.coe_nil]
    abel
  | retry entry hnew hrecord hperm =>
    have hheld := Multiset.coe_eq_coe.mpr (hperm.map held)
    rw [List.map_append, ← Multiset.coe_add, List.map_singleton, hrecord] at hheld
    rw [List.map_append, List.map_singleton, ← Multiset.coe_add, Multiset.coe_nil, ← hheld]
    abel
  | release hperm =>
    have hheld := Multiset.coe_eq_coe.mpr (hperm.map held)
    rw [List.map_append, ← Multiset.coe_add] at hheld
    rw [← hheld, Multiset.coe_nil]
    abel
  | drain h =>
    rw [← h.coe_map item, Multiset.coe_nil]
    abel
  | @quarantine records room hrecords =>
    -- What finds room is held, and the rest is lost.
    rw [List.map_append, List.map_take, hrecords, List.map_nil, Multiset.coe_nil, zero_add,
      add_zero, add_zero, Multiset.coe_add, List.append_assoc, List.take_append_drop,
      ← Multiset.coe_add, add_comm]

/-- What is stored after a move was stored before, or it has entered. -/
theorem Moves.mem_items (h : Moves key item held q entered retried left lost q') {i : ι}
    (hi : i ∈ q'.items item held) : i ∈ q.items item held ∨ i ∈ entered := by
  have hmem : i ∈ q'.items item held + left + lost :=
    Multiset.mem_add.mpr (Or.inl (Multiset.mem_add.mpr (Or.inl hi)))
  rw [h.balance] at hmem
  exact Multiset.mem_add.mp hmem

/-- A move keeps the queue and the index in step. -/
theorem Moves.indexed (h : Moves key item held q entered retried left lost q')
    (hi : Indexed (fun entry => key (item entry)) q.queue q.index) :
    Indexed (fun entry => key (item entry)) q'.queue q'.index := by
  cases h with
  | keep => exact hi
  | push entry hnew => exact hi.push _ hnew
  | retry entry hnew hrecord hperm => exact hi.push _ hnew
  | release hperm => exact hi
  | drain h => exact h.indexed hi
  | quarantine room hrecords => exact hi.remove (by simp)

/-- What is queued after a move was queued before, or it has entered or come back. -/
theorem Moves.queued (h : Moves key item held q entered retried left lost q') :
    (q'.queue.map item).Subperm (q.queue.map item ++ entered ++ retried) := by
  cases h with
  | keep => simp [List.Subperm.refl]
  | push entry hnew => simp [List.Subperm.refl]
  | retry entry hnew hrecord hperm => simp [List.Subperm.refl]
  | release hperm => simp [List.Subperm.refl]
  | drain h =>
    have hperm := h.perm.map item
    rw [List.map_append] at hperm
    rw [List.append_nil, List.append_nil]
    exact (List.sublist_append_left _ _).subperm.trans hperm.subperm
  | quarantine room hrecords => exact List.nil_subperm

end

end KeyedQueue
