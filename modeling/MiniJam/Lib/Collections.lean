import Mathlib.Algebra.Ring.Nat
import Mathlib.Data.List.AList
import Mathlib.Data.List.Lex
import Mathlib.Data.List.Perm.Basic
import Mathlib.Data.List.Sort
import Mathlib.Data.Prod.Lex
import Mathlib.Tactic.Common

/-!
# `MiniJam.Lib.Collections`: storage maps, bounded vectors, sorting

`StorageMap` is Mathlib's association list without repeated keys, under the two lookup
equations a proof about a store needs. Iteration is separate from the map: `iter` walks the
keys in an order the caller supplies, so that nothing proved here depends on one order.

`BoundedVec α n` is a list with its length bound as a field of the value. A push that would
exceed the bound has no value to return.

`swapRemoveLoop` is the removal loop over a vector that replaces a removed element by the
last one and looks at the same index again. `swapRemoveLoop_perm` says that it only
separates the elements, and `swapRemoveLoop_kept` that no removable element is left.
-/

set_option autoImplicit false

/-! ### Storage maps -/

/-- A finite map without repeated keys. -/
abbrev StorageMap (κ ν : Type) : Type := AList (fun _ : κ => ν)

namespace StorageMap

variable {κ ν : Type} [DecidableEq κ]

/-- What an insertion leaves under a key. -/
theorem lookup_insert_eq (m : StorageMap κ ν) (k k' : κ) (v : ν) :
    (m.insert k v).lookup k' = if k' = k then some v else m.lookup k' := by
  by_cases h : k' = k
  · subst h
    rw [if_pos rfl]
    exact AList.lookup_insert m
  · rw [if_neg h, AList.lookup_insert_ne h]

/-- What a removal leaves under a key. -/
theorem lookup_erase_eq (m : StorageMap κ ν) (k k' : κ) :
    (m.erase k).lookup k' = if k' = k then none else m.lookup k' := by
  by_cases h : k' = k
  · subst h
    simp
  · rw [if_neg h, AList.lookup_erase_ne h]

variable {m : StorageMap κ ν} {k : κ}

theorem erase_of_lookup_eq_none (h : m.lookup k = none) : m.erase k = m :=
  AList.ext (List.kerase_of_notMem_keys (AList.lookup_eq_none.mp h))

theorem erase_insert_of_none (h : m.lookup k = none) (v : ν) : (m.insert k v).erase k = m := by
  have hsame := List.kerase_of_notMem_keys (AList.lookup_eq_none.mp h)
  refine AList.ext ?_
  show List.kerase k (List.kinsert k v m.entries) = m.entries
  simp [List.kinsert, hsame]

/-- What is read from the values, after one of them was written. -/
theorem map_lookup_insert {β : Type} (m : StorageMap κ ν) (k : κ) (v : ν) (f : ν → β) :
    (fun k' => ((m.insert k v).lookup k').map f) =
      Function.update (fun k' => (m.lookup k').map f) k (some (f v)) := by
  refine Function.eq_update_iff.mpr ⟨?_, fun k' hk => ?_⟩
  · rw [AList.lookup_insert, Option.map_some]
  · rw [AList.lookup_insert_ne hk]

theorem map_lookup_erase {β : Type} (m : StorageMap κ ν) (k : κ) (f : ν → β) :
    (fun k' => ((m.erase k).lookup k').map f) =
      Function.update (fun k' => (m.lookup k').map f) k none := by
  refine Function.eq_update_iff.mpr ⟨?_, fun k' hk => ?_⟩
  · rw [AList.lookup_erase, Option.map_none]
  · rw [AList.lookup_erase_ne hk]

/-- The keys are those with a value. -/
theorem mem_keys_iff : k ∈ m.keys ↔ ∃ v, m.lookup k = some v := by
  rw [← AList.mem_keys, ← AList.lookup_isSome, Option.isSome_iff_exists]

/-- Replacing a value adds no key. -/
theorem length_keys_insert_of_lookup {v : ν} (h : m.lookup k = some v) (v' : ν) :
    (m.insert k v').keys.length = m.keys.length := by
  have hmem : k ∈ m.keys := mem_keys_iff.mpr ⟨v, h⟩
  have hpos := List.length_pos_of_mem hmem
  rw [AList.keys_insert, List.length_cons, List.length_erase_of_mem hmem]
  omega

theorem length_keys_insert_le (m : StorageMap κ ν) (k : κ) (v : ν) :
    (m.insert k v).keys.length ≤ m.keys.length + 1 := by
  rw [AList.keys_insert, List.length_cons]
  exact Nat.succ_le_succ List.length_erase_le

/-- A new key is one more key. -/
theorem length_keys_insert_of_none (h : m.lookup k = none) (v : ν) :
    (m.insert k v).keys.length = m.keys.length + 1 := by
  have hnew : k ∉ m.keys := by
    rw [mem_keys_iff]
    rintro ⟨v', hv'⟩
    rw [h] at hv'
    cases hv'
  rw [AList.keys_insert, List.length_cons, List.erase_of_not_mem hnew]

/-- Maps with values at the same keys have equally many keys. -/
theorem length_keys_congr {ν' : Type} {m' : StorageMap κ ν'}
    (h : ∀ k, m'.lookup k = none ↔ m.lookup k = none) : m'.keys.length = m.keys.length := by
  have hkeys : m'.keys.Perm m.keys := by
    rw [List.perm_ext_iff_of_nodup m'.keys_nodup m.keys_nodup]
    intro k
    have hk := not_congr (h k)
    rw [← ne_eq, ← ne_eq, Option.ne_none_iff_exists', Option.ne_none_iff_exists'] at hk
    rw [mem_keys_iff, mem_keys_iff]
    exact hk
  exact hkeys.length_eq

/-- Whether the map has a value at the key. -/
def contains (m : StorageMap κ ν) (k : κ) : Bool := (m.lookup k).isSome

theorem lookup_of_not_contains (h : m.contains k = false) :
    m.lookup k = none := Option.not_isSome_iff_eq_none.mp (Bool.eq_false_iff.mp h)

/-- The map with one value at every key of a list. -/
def fill (keys : List κ) (v : ν) : StorageMap κ ν := keys.foldl (fun m k => m.insert k v) ∅

theorem lookup_fill {keys : List κ} (hk : k ∈ keys) (v : ν) : (fill keys v).lookup k = some v := by
  -- Along the fold a key that is still to come or already has the value ends with it.
  suffices h : ∀ m : StorageMap κ ν, k ∈ keys ∨ m.lookup k = some v →
      (keys.foldl (fun m k => m.insert k v) m).lookup k = some v from h ∅ (Or.inl hk)
  clear hk
  induction keys with
  | nil =>
    intro m h
    exact h.resolve_left List.not_mem_nil
  | cons k' keys ih =>
    intro m h
    refine ih (m.insert k' v) ?_
    rw [lookup_insert_eq]
    rcases h with h | h
    · rcases List.mem_cons.mp h with rfl | h
      · exact Or.inr (if_pos rfl)
      · exact Or.inl h
    · right
      split_ifs
      · rfl
      · exact h

/-- The entries of `m`, with the keys taken in the order `order` puts them. -/
def iter (order : List κ → List κ) (m : StorageMap κ ν) : List (κ × ν) :=
  (order m.keys).filterMap fun k => (m.lookup k).map fun v => (k, v)

section Iter
variable {order : List κ → List κ} (horder : ∀ ks, (order ks).Perm ks)
include horder

/-- An iteration visits exactly the entries of the map. -/
theorem mem_iter {v : ν} : (k, v) ∈ iter order m ↔ m.lookup k = some v := by
  simp only [iter, List.mem_filterMap, (horder m.keys).mem_iff, Option.map_eq_some_iff,
    Prod.mk.injEq]
  constructor
  · rintro ⟨k', -, v', hv, rfl, rfl⟩
    exact hv
  · intro hv
    exact ⟨k, mem_keys_iff.mpr ⟨v, hv⟩, v, hv, rfl, rfl⟩

/-- An iteration visits each key once. -/
theorem iter_keys (m : StorageMap κ ν) : (iter order m).map Prod.fst = order m.keys := by
  have hall : ∀ k ∈ order m.keys, ∃ v, m.lookup k = some v := fun k hk =>
    mem_keys_iff.mp ((horder m.keys).mem_iff.mp hk)
  unfold iter
  generalize order m.keys = ks at hall
  induction ks with
  | nil => rfl
  | cons k ks ih =>
    obtain ⟨v, hv⟩ := hall k (by simp)
    have := ih fun k' hk' => hall k' (by simp [hk'])
    simp only [List.filterMap_cons, hv, Option.map_some, List.map_cons, this]

theorem nodup_iter_keys (m : StorageMap κ ν) : ((iter order m).map Prod.fst).Nodup := by
  rw [iter_keys horder]
  exact (horder m.keys).nodup_iff.mpr m.keys_nodup

theorem length_iter (m : StorageMap κ ν) : (iter order m).length = m.keys.length := by
  rw [← List.length_map (f := Prod.fst), iter_keys horder, (horder m.keys).length_eq]

/-- Maps with the same entries are iterated over the same entries, in whatever orders. -/
theorem iter_perm {order' : List κ → List κ} (horder' : ∀ ks, (order' ks).Perm ks)
    {m' : StorageMap κ ν} (h : ∀ k, m.lookup k = m'.lookup k) :
    (iter order m).Perm (iter order' m') := by
  refine (List.perm_ext_iff_of_nodup (List.Nodup.of_map _ (nodup_iter_keys horder m))
    (List.Nodup.of_map _ (nodup_iter_keys horder' m'))).mpr ?_
  rintro ⟨k, v⟩
  rw [mem_iter horder, mem_iter horder', h k]

end Iter

/-- Whether every entry of a map satisfies `P` is a question about its keys. -/
instance (m : StorageMap κ ν) (P : κ → ν → Prop) [∀ k v, Decidable (P k v)] :
    Decidable (∀ k v, m.lookup k = some v → P k v) :=
  decidable_of_iff (∀ k ∈ m.keys, ∀ v ∈ m.lookup k, P k v)
    ⟨fun h k v hv => h k (mem_keys_iff.mpr ⟨v, hv⟩) v hv, fun h k _ v hv => h k v hv⟩

/-- Whether two maps have the same entries is a question about the keys of both. -/
instance [DecidableEq ν] (m m' : StorageMap κ ν) : Decidable (∀ k, m.lookup k = m'.lookup k) :=
  decidable_of_iff (∀ k ∈ m.keys ++ m'.keys, m.lookup k = m'.lookup k) <| by
    refine ⟨fun h k => ?_, fun h k _ => h k⟩
    by_cases hk : k ∈ m.keys ++ m'.keys
    · exact h k hk
    · rw [List.mem_append, not_or] at hk
      rw [AList.lookup_eq_none.mpr hk.1, AList.lookup_eq_none.mpr hk.2]

end StorageMap

/-! ### Bounded vectors -/

/-- A list of at most `n` elements. -/
def BoundedVec (α : Type) (n : Nat) : Type := { l : List α // l.length ≤ n }

namespace BoundedVec

variable {α : Type} {n : Nat}

instance [DecidableEq α] : DecidableEq (BoundedVec α n) :=
  inferInstanceAs (DecidableEq { l : List α // l.length ≤ n })

/-- The elements, in order. -/
def toList (v : BoundedVec α n) : List α := v.val

theorem length_le (v : BoundedVec α n) : v.toList.length ≤ n := v.property

variable {v w : BoundedVec α n} {l : List α}

/-- The vector with no elements. -/
def empty : BoundedVec α n := ⟨[], Nat.zero_le n⟩

@[simp] theorem toList_empty : (empty : BoundedVec α n).toList = [] := rfl

/-- A list that fits, as a vector. -/
def tryFrom (l : List α) : Option (BoundedVec α n) :=
  if h : l.length ≤ n then some ⟨l, h⟩ else none

/-- The first elements of a list, as many as fit. -/
def takeFrom (l : List α) : BoundedVec α n := ⟨l.take n, List.length_take_le n l⟩

theorem toList_takeFrom (h : l.length ≤ n) :
    (takeFrom l : BoundedVec α n).toList = l := List.take_of_length_le h

theorem tryFrom_eq_some : tryFrom l = some v ↔ v.toList = l := by
  unfold tryFrom
  constructor
  · intro h
    split_ifs at h
    cases h
    rfl
  · rintro rfl
    rw [dif_pos v.length_le]
    rfl

theorem tryFrom_eq_none : (tryFrom l : Option (BoundedVec α n)) = none ↔
    n < l.length := by
  unfold tryFrom
  split_ifs with h
  · simp; omega
  · simp; omega

/-- The vector with `a` at its end, when there is room for it. -/
def tryPush (v : BoundedVec α n) (a : α) : Option (BoundedVec α n) := tryFrom (v.toList ++ [a])

theorem tryPush_eq_some {a : α} :
    v.tryPush a = some w ↔ w.toList = v.toList ++ [a] := tryFrom_eq_some

theorem tryPush_eq_none {a : α} : v.tryPush a = none ↔
    v.toList.length = n := by
  rw [tryPush, tryFrom_eq_none]
  have := v.length_le
  simp
  omega

/-- Push the elements one by one and drop those that find no room. The flag says whether one
was dropped. -/
def pushAll (v : BoundedVec α n) (as : List α) : BoundedVec α n × Bool :=
  as.foldl (fun acc a => match acc.1.tryPush a with
    | some w => (w, acc.2)
    | none => (acc.1, true)) (v, false)

/-- The flag says whether an element found no room. -/
theorem pushAll_overflows (v : BoundedVec α n) (as : List α) :
    (v.pushAll as).2 = decide (n < v.toList.length + as.length) := by
  suffices hflag : ∀ flag, (as.foldl (fun (acc : BoundedVec α n × Bool) a =>
      match acc.1.tryPush a with
      | some w => (w, acc.2)
      | none => (acc.1, true)) (v, flag)).2 = (flag || decide (n < v.toList.length + as.length)) by
    exact hflag false
  induction as generalizing v with
  | nil =>
    have hle := v.length_le
    simp [hle]
  | cons a as ih =>
    intro flag
    rw [List.foldl_cons]
    dsimp only
    split
    · rename_i w hw
      rw [ih, tryPush_eq_some.mp hw]
      simp [add_assoc, add_comm 1]
    · rename_i hnone
      rw [ih, tryPush_eq_none.mp hnone]
      simp

/-- Pushing fills the room there is, in order. -/
theorem toList_pushAll (v : BoundedVec α n) (as : List α) :
    (v.pushAll as).1.toList = v.toList ++ as.take (n - v.toList.length) := by
  unfold pushAll
  generalize false = flag
  -- The accumulator holds the pushes so far, so the induction is over any start.
  induction as generalizing v flag with
  | nil => simp
  | cons a as ih =>
    have hle := v.length_le
    rw [List.foldl_cons]
    dsimp only
    split
    · rename_i w hw
      have hlist := tryPush_eq_some.mp hw
      have hlength : w.toList.length = v.toList.length + 1 := by
        rw [hlist, List.length_append, List.length_singleton]
      have hroom : n - v.toList.length = n - w.toList.length + 1 := by
        have := w.length_le
        omega
      rw [ih w flag, hroom, List.take_succ_cons, hlist, List.append_assoc, List.singleton_append]
    · rename_i hnone
      have hfull := tryPush_eq_none.mp hnone
      rw [ih v true, hfull, Nat.sub_self, List.take_zero, List.take_zero]

end BoundedVec

/-! ### Removal by swapping -/

section SwapRemove
variable {α : Type}

/-- Remove the element at `i` by putting the last element in its place. -/
def swapRemove (l : List α) (i : Nat) : List α :=
  match l.getLast? with
  | none => l
  | some last => if i < l.length then (l.set i last).dropLast else l

theorem swapRemove_append_singleton (l : List α) (last : α) (i : Nat) (hi : i ≤ l.length) :
    swapRemove (l ++ [last]) i = l.set i last := by
  unfold swapRemove
  simp only [List.getLast?_append, List.getLast?_singleton, Option.some_or]
  rw [if_pos (by simp; omega)]
  by_cases h : i < l.length
  · rw [List.set_append_left _ _ h, List.dropLast_concat]
  · have : i = l.length := by omega
    subst this
    rw [List.set_append_right _ _ (Nat.le_refl _)]
    simp [List.set_eq_of_length_le]

/-- Removing by swapping takes out the element at the index and nothing else. -/
theorem perm_cons_swapRemove (l : List α) (i : Nat) (hi : i < l.length) :
    (l[i] :: swapRemove l i).Perm l := by
  obtain rfl | ⟨init, last, rfl⟩ := List.eq_nil_or_concat' l
  · simp at hi
  · have hi' : i ≤ init.length := by simp at hi; omega
    rw [swapRemove_append_singleton init last i hi']
    by_cases h : i < init.length
    · rw [List.getElem_append_left h]
      have hset := List.set_perm_cons_eraseIdx h last
      have herase := List.getElem_cons_eraseIdx_perm h
      -- Both sides are `last`, the removed element and what is left without its index.
      have hlast : (last :: init[i] :: init.eraseIdx i).Perm (init ++ [last]) :=
        (herase.cons last).trans (List.perm_append_singleton last init).symm
      exact ((hset.cons _).trans (List.Perm.swap _ _ _)).trans hlast
    · have : i = init.length := by omega
      subst this
      rw [List.set_eq_of_length_le (Nat.le_refl _)]
      simp only [List.getElem_concat_length]
      exact (List.perm_append_singleton last init).symm

theorem length_swapRemove (l : List α) (i : Nat) (hi : i < l.length) :
    (swapRemove l i).length + 1 = l.length := (perm_cons_swapRemove l i hi).length_eq

/-- The elements before the index stay where they are. -/
theorem getElem?_swapRemove_of_lt (l : List α) (i j : Nat) (hi : i < l.length) (hj : j < i) :
    (swapRemove l i)[j]? = l[j]? := by
  obtain rfl | ⟨init, last, rfl⟩ := List.eq_nil_or_concat' l
  · simp at hi
  · have hi' : i ≤ init.length := by simp at hi; omega
    rw [swapRemove_append_singleton init last i hi', List.getElem?_set_ne (by omega),
      List.getElem?_append_left (by omega)]

/-- Remove the first element that satisfies `p` by swapping, when there is one. -/
def swapRemoveFirst (p : α → Bool) (l : List α) : List α :=
  match l.findIdx? p with
  | none => l
  | some i => swapRemove l i

/-- Removing the first match either finds none or takes out one matching element. -/
theorem swapRemoveFirst_cases (p : α → Bool) (l : List α) :
    ((∀ a ∈ l, p a = false) ∧ swapRemoveFirst p l = l) ∨
    ∃ a ∈ l, p a = true ∧ (a :: swapRemoveFirst p l).Perm l := by
  unfold swapRemoveFirst
  cases h : l.findIdx? p with
  | none =>
    refine Or.inl ⟨?_, rfl⟩
    simpa using List.findIdx?_eq_none_iff.mp h
  | some i =>
    obtain ⟨hi, hp, -⟩ := List.findIdx?_eq_some_iff_getElem.mp h
    exact Or.inr ⟨l[i], List.getElem_mem hi, hp, perm_cons_swapRemove l i hi⟩

/-- Removing an element by swapping is erasing it, up to the order. -/
theorem swapRemoveFirst_erase [DecidableEq α] (a : α) (l : List α) :
    (swapRemoveFirst (fun x => decide (x = a)) l).Perm (l.erase a) := by
  rcases swapRemoveFirst_cases (fun x => decide (x = a)) l with
    ⟨hnone, heq⟩ | ⟨b, hb, hmatch, hperm⟩
  · have hnot : a ∉ l := fun ha => by simpa using hnone a ha
    rw [heq, List.erase_of_not_mem hnot]
  · obtain rfl : b = a := of_decide_eq_true hmatch
    exact (hperm.trans (List.perm_cons_erase hb)).cons_inv

theorem nodup_swapRemoveFirst [DecidableEq α] (a : α) {l : List α} (hl : l.Nodup) :
    (swapRemoveFirst (fun x => decide (x = a)) l).Nodup :=
  (swapRemoveFirst_erase a l).nodup_iff.mpr (hl.erase a)

/-- What is left of a list without duplicates are the other elements. -/
theorem mem_swapRemoveFirst [DecidableEq α] (a : α) {l : List α} (hl : l.Nodup) (b : α) :
    b ∈ swapRemoveFirst (fun x => decide (x = a)) l ↔ b ≠ a ∧ b ∈ l := by
  rw [(swapRemoveFirst_erase a l).mem_iff, hl.mem_erase_iff]

/-- What the removal takes out is the first match. -/
theorem swapRemoveFirst_perm (p : α → Bool) (l : List α) :
    ((l.find? p).toList ++ swapRemoveFirst p l).Perm l := by
  unfold swapRemoveFirst
  cases h : l.findIdx? p with
  | none =>
    have hnone : l.find? p = none := by
      rw [List.find?_eq_none]
      simpa using List.findIdx?_eq_none_iff.mp h
    simp [hnone]
  | some i =>
    obtain ⟨hi, hp, hbefore⟩ := List.findIdx?_eq_some_iff_getElem.mp h
    have hfind : l.find? p = some l[i] :=
      List.find?_eq_some_iff_getElem.mpr ⟨hp, i, hi, rfl, by simpa using hbefore⟩
    rw [hfind]
    exact perm_cons_swapRemove l i hi

/-- The removal loop: from index `i` on, an element that satisfies `p` is removed by
swapping and the same index is looked at again. Returns what is kept and what was removed,
in the order of the removals. -/
def swapRemoveLoop (p : α → Bool) : Nat → Nat → List α → List α × List α
  | 0, _, l => (l, [])
  | fuel + 1, i, l =>
    match l[i]? with
    | none => (l, [])
    | some a =>
      if p a then
        let rest := swapRemoveLoop p fuel i (swapRemove l i)
        (rest.1, a :: rest.2)
      else swapRemoveLoop p fuel (i + 1) l

/-- The removal loop over a whole vector: as many rounds as it has elements. -/
def swapRetain (p : α → Bool) (l : List α) : List α × List α := swapRemoveLoop p l.length 0 l

theorem swapRemoveLoop_perm (p : α → Bool) (fuel i : Nat) (l : List α) :
    ((swapRemoveLoop p fuel i l).1 ++ (swapRemoveLoop p fuel i l).2).Perm l := by
  induction fuel generalizing i l with
  | zero => simp [swapRemoveLoop]
  | succ fuel ih =>
    unfold swapRemoveLoop
    split
    · simp
    · rename_i a ha
      obtain ⟨hi, rfl⟩ := List.getElem?_eq_some_iff.mp ha
      split_ifs
      · refine (List.perm_middle).trans ?_
        exact ((ih i (swapRemove l i)).cons _).trans (perm_cons_swapRemove l i hi)
      · exact ih (i + 1) l

theorem swapRemoveLoop_removed (p : α → Bool) (fuel i : Nat) (l : List α) :
    ∀ a ∈ (swapRemoveLoop p fuel i l).2, p a = true := by
  induction fuel generalizing i l with
  | zero => simp [swapRemoveLoop]
  | succ fuel ih =>
    unfold swapRemoveLoop
    split
    · simp
    · split_ifs with hp
      · intro b hb
        rcases List.mem_cons.mp hb with rfl | hb
        · exact hp
        · exact ih i _ b hb
      · exact ih (i + 1) l

/-- With as many rounds as elements left, no kept element satisfies `p`. The elements
before the index have been looked at already. -/
theorem swapRemoveLoop_kept (p : α → Bool) (fuel i : Nat) (l : List α)
    (hfuel : l.length ≤ i + fuel) (hbefore : ∀ j < i, ∀ a, l[j]? = some a → p a = false) :
    ∀ a ∈ (swapRemoveLoop p fuel i l).1, p a = false := by
  induction fuel generalizing i l with
  | zero =>
    intro a ha
    obtain ⟨j, hj, rfl⟩ := List.mem_iff_getElem.mp ha
    exact hbefore j (by simp [swapRemoveLoop] at hj; omega) _ (List.getElem?_eq_getElem hj)
  | succ fuel ih =>
    unfold swapRemoveLoop
    split
    · rename_i hnone
      intro a ha
      obtain ⟨j, hj, rfl⟩ := List.mem_iff_getElem.mp ha
      have hlen := List.getElem?_eq_none_iff.mp hnone
      have hj' : j < l.length := hj
      exact hbefore j (by omega) _ (List.getElem?_eq_getElem hj)
    · rename_i a ha
      obtain ⟨hi, rfl⟩ := List.getElem?_eq_some_iff.mp ha
      split_ifs with hp
      · -- A removal shortens the vector and leaves the part already looked at.
        refine ih i (swapRemove l i) ?_ ?_
        · have := length_swapRemove l i hi
          omega
        · intro j hj b hb
          rw [getElem?_swapRemove_of_lt l i j hi hj] at hb
          exact hbefore j hj b hb
      · refine ih (i + 1) l (by omega) ?_
        intro j hj b hb
        rcases Nat.lt_succ_iff_lt_or_eq.mp hj with hj | rfl
        · exact hbefore j hj b hb
        · rw [List.getElem?_eq_getElem hi] at hb
          cases hb
          simpa using hp

/-- The loop over a whole vector keeps the elements that do not satisfy `p`. -/
theorem mem_swapRetain_kept (p : α → Bool) (l : List α) (a : α) :
    a ∈ (swapRetain p l).1 ↔ a ∈ l ∧ p a = false := by
  have hkept := swapRemoveLoop_kept p l.length 0 l (by omega) (by simp)
  have hperm := swapRemoveLoop_perm p l.length 0 l
  have hremoved := swapRemoveLoop_removed p l.length 0 l
  constructor
  · intro ha
    exact ⟨hperm.mem_iff.mp (List.mem_append_left _ ha), hkept a ha⟩
  · rintro ⟨ha, hp⟩
    rcases List.mem_append.mp (hperm.mem_iff.mpr ha) with h | h
    · exact h
    · simp [hremoved a h] at hp

theorem swapRetain_perm (p : α → Bool) (l : List α) :
    ((swapRetain p l).1 ++ (swapRetain p l).2).Perm l := swapRemoveLoop_perm p l.length 0 l

theorem length_swapRetain_le (p : α → Bool) (l : List α) :
    (swapRetain p l).1.length ≤ l.length := by
  have := (swapRetain_perm p l).length_eq
  simp at this
  omega

end SwapRemove

/-- Remove an element of a bounded vector by swapping. -/
def BoundedVec.removeFirst {α : Type} {n : Nat} (p : α → Bool) (v : BoundedVec α n) :
    BoundedVec α n :=
  ⟨swapRemoveFirst p v.toList, by
    have := v.length_le
    rcases swapRemoveFirst_cases p v.toList with ⟨-, h⟩ | ⟨a, -, -, h⟩
    · rw [h]; exact this
    · have := h.length_eq
      simp at this
      omega⟩

variable {α κ : Type}

theorem List.Subperm.nodup {l₁ l₂ : List α} (h : l₁.Subperm l₂) (hnodup : l₂.Nodup) : l₁.Nodup := by
  obtain ⟨l, hperm, hsub⟩ := h
  exact hperm.nodup_iff.mp (hsub.nodup hnodup)

/-- What is left after a removal is part of the vector. -/
theorem BoundedVec.removeFirst_subperm {n : Nat} (p : α → Bool) (v : BoundedVec α n) :
    (v.removeFirst p).toList.Subperm v.toList := by
  show (swapRemoveFirst p v.toList).Subperm v.toList
  rcases swapRemoveFirst_cases p v.toList with ⟨-, heq⟩ | ⟨b, -, -, hperm⟩
  · rw [heq]
  · exact (List.sublist_cons_self b _).subperm.trans hperm.subperm

/-- The removal loop over a bounded vector: what is kept, and what was removed. -/
def BoundedVec.removeAll {α : Type} {n : Nat} (p : α → Bool) (v : BoundedVec α n) :
    BoundedVec α n × List α :=
  (⟨(swapRetain p v.toList).1, (length_swapRetain_le p v.toList).trans v.length_le⟩,
    (swapRetain p v.toList).2)

/-! ### Sums -/

/-- At most `n` numbers, each of which fits `n` times, fit together. -/
theorem List.sum_le_of_mul_le {l : List Nat} {n b : Nat} (hlength : l.length ≤ n)
    (h : ∀ x ∈ l, n * x ≤ b) : l.sum ≤ b := by
  have hmul : n * l.sum ≤ l.length * b := by
    clear hlength
    induction l with
    | nil => simp
    | cons x l ih =>
      have hx := h x (List.mem_cons_self ..)
      have hl := ih fun y hy => h y (List.mem_cons_of_mem x hy)
      rw [List.sum_cons, List.length_cons, Nat.mul_add, Nat.succ_mul]
      omega
  rcases Nat.eq_zero_or_pos n with rfl | hn
  · rw [List.length_eq_zero_iff.mp (Nat.le_zero.mp hlength)]
    exact Nat.zero_le b
  · exact Nat.le_of_mul_le_mul_left (hmul.trans (Nat.mul_le_mul_right b hlength)) hn

/-! ### Stable sorting by a key -/

/-- Sort by a key, keeping the order of elements with equal keys. -/
def sortByKey {α κ : Type} [LinearOrder κ] (key : α → κ) (l : List α) : List α :=
  l.insertionSort fun a b => key a ≤ key b

theorem sortByKey_perm [LinearOrder κ] (key : α → κ) (l : List α) :
    (sortByKey key l).Perm l := List.perm_insertionSort _ l

theorem pairwise_sortByKey [LinearOrder κ] (key : α → κ) (l : List α) :
    (sortByKey key l).Pairwise fun a b => key a ≤ key b := by
  have htotal : Std.Total fun a b : α => key a ≤ key b := ⟨fun a b => le_total (key a) (key b)⟩
  have htrans : IsTrans α fun a b => key a ≤ key b := ⟨fun _ _ _ => le_trans⟩
  exact List.pairwise_insertionSort _ l

/-- Elements that their keys tell apart are sorted into one list, whatever order they come
in. -/
theorem sortByKey_eq_of_perm [LinearOrder κ] {key : α → κ} {l l' : List α} (hperm : l.Perm l')
    (hkeys : ∀ a ∈ l, ∀ b ∈ l, key a = key b → a = b) : sortByKey key l = sortByKey key l' := by
  refine List.Perm.eq_of_pairwise ?_ (pairwise_sortByKey key l) (pairwise_sortByKey key l') ?_
  · intro a b ha hb hab hba
    have ha' := (sortByKey_perm key l).mem_iff.mp ha
    have hb' := hperm.mem_iff.mpr ((sortByKey_perm key l').mem_iff.mp hb)
    exact hkeys a ha' b hb' (le_antisymm hab hba)
  · exact (sortByKey_perm key l).trans (hperm.trans (sortByKey_perm key l').symm)

/-- Sorted by keys without a repetition, the keys increase. -/
theorem pairwise_lt_sortByKey [LinearOrder κ] {key : α → κ} {l : List α}
    (hkeys : (l.map key).Nodup) :
    (sortByKey key l).Pairwise fun a b => key a < key b := by
  have hne : (sortByKey key l).Pairwise fun a b => key a ≠ key b := by
    rw [← List.pairwise_map]
    exact ((sortByKey_perm key l).map key).nodup_iff.mpr hkeys
  refine (pairwise_sortByKey key l).imp₂ ?_ hne
  intro a b hle hne
  exact lt_of_le_of_ne hle hne

/-- Sorting and then forgetting what the key does not read, or the other way round. -/
theorem map_sortByKey {β : Type} [LinearOrder κ] (key : α → κ) {key' : β → κ} (f : α → β)
    (hkey : ∀ a, key' (f a) = key a) (l : List α) :
    (sortByKey key l).map f = sortByKey key' (l.map f) := by
  refine List.map_insertionSort _ _ f l fun a _ b _ => ?_
  rw [hkey, hkey]
