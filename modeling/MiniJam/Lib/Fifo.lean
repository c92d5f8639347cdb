import MiniJam.Lib.Trace
import Mathlib.Data.List.Nodup

/-!
# `MiniJam.Lib.Fifo`: a queue in which nobody is overtaken

A system holds a queue in its state. The items that a step brings into the queue, and those
that it takes out, are read off the queue before and after it. If every step puts its items
at the end or takes them off the front, the items that ever entered are those that left,
followed by those that wait (`InOrder.account`). So the items leave in the order in which they
entered (`InOrder.not_overtaken`).

Items are told apart by a key. A key may enter once.
-/

set_option autoImplicit false

namespace MiniJam.Fifo

variable {σ Λ α κ : Type} [DecidableEq α] (queue : σ → List α)

/-- The items that a step brings into the queue. -/
def entering (t : Transition σ Λ) : List α :=
  (queue t.post).filter fun item => item ∉ queue t.pre

/-- The items that a step takes out of the queue. -/
def leaving (t : Transition σ Λ) : List α :=
  (queue t.pre).filter fun item => item ∉ queue t.post

/-- All items that entered the queue, the first one first. -/
def entered : List (Transition σ Λ) → List α
  | [] => []
  | t :: h => entered h ++ entering queue t

/-- All items that left the queue, the first one first. -/
def left : List (Transition σ Λ) → List α
  | [] => []
  | t :: h => left h ++ leaving queue t

variable {queue} {key : α → κ} {h later earlier : List (Transition σ Λ)} {t : Transition σ Λ}
  {s s' : σ} {l : Λ} {new front : List α}

theorem left_append : left queue (later ++ earlier) = left queue earlier ++ left queue later := by
  induction later with
  | nil => simp [left]
  | cons t later ih => simp [left, ih]

theorem leaving_subset_left (ht : t ∈ h) {item : α} (hitem : item ∈ leaving queue t) :
    item ∈ left queue h := by
  induction h with
  | nil => cases ht
  | cons t' h ih =>
    rw [left, List.mem_append]
    rcases List.mem_cons.mp ht with rfl | ht
    · exact Or.inr hitem
    · exact Or.inl (ih ht)

theorem exists_of_mem_left {item : α} (hitem : item ∈ left queue h) :
    ∃ t ∈ h, item ∈ leaving queue t := by
  induction h with
  | nil => cases hitem
  | cons t' h ih =>
    rw [left, List.mem_append] at hitem
    rcases hitem with hitem | hitem
    · obtain ⟨t, ht, hitem⟩ := ih hitem
      exact ⟨t, List.mem_cons_of_mem _ ht, hitem⟩
    · exact ⟨t', List.mem_cons_self, hitem⟩

/-! ### The two kinds of steps -/

/-- Items put at the end. -/
theorem entering_of_append (hqueue : queue s' = queue s ++ new)
    (hnew : ∀ item ∈ new, item ∉ queue s) :
    entering queue (⟨s, l, s'⟩ : Transition σ Λ) = new ∧
      leaving queue (⟨s, l, s'⟩ : Transition σ Λ) = [] := by
  simp only [entering, leaving, hqueue]
  constructor
  · have hold : (queue s).filter (fun item => decide (item ∉ queue s)) = [] := by simp
    have hkept : new.filter (fun item => decide (item ∉ queue s)) = new :=
      List.filter_eq_self.mpr fun item hitem => decide_eq_true (hnew item hitem)
    rw [List.filter_append, hold, hkept, List.nil_append]
  · simp +contextual

/-- Items taken off the front. -/
theorem leaving_of_front (hqueue : queue s = front ++ queue s')
    (hfront : ∀ item ∈ front, item ∉ queue s') :
    entering queue (⟨s, l, s'⟩ : Transition σ Λ) = [] ∧
      leaving queue (⟨s, l, s'⟩ : Transition σ Λ) = front := by
  simp only [entering, leaving, hqueue]
  constructor
  · simp +contextual
  · have hold : (queue s').filter (fun item => decide (item ∉ queue s')) = [] := by simp
    have htaken : front.filter (fun item => decide (item ∉ queue s')) = front :=
      List.filter_eq_self.mpr fun item hitem => decide_eq_true (hfront item hitem)
    rw [List.filter_append, hold, htaken, List.append_nil]

/-! ### Whole runs -/

/-- What entered is what left, followed by what waits, and no key entered twice. -/
structure InOrder (queue : σ → List α) (key : α → κ) (h : List (Transition σ Λ)) (s : σ) :
    Prop where
  account : entered queue h = left queue h ++ queue s
  once : ((entered queue h).map key).Nodup

namespace InOrder

theorem start (hempty : queue s = []) : InOrder queue key ([] : List (Transition σ Λ)) s where
  account := by rw [hempty]; rfl
  once := List.nodup_nil

/-- What waits has entered. -/
theorem mem_entered (hi : InOrder queue key h s) {item : α} (hitem : item ∈ queue s) :
    item ∈ entered queue h := by
  rw [hi.account]
  exact List.mem_append_right _ hitem

/-- No key waits twice. -/
theorem queue_nodup (hi : InOrder queue key h s) : ((queue s).map key).Nodup := by
  have hall := hi.once
  rw [hi.account, List.map_append] at hall
  exact (List.nodup_append.mp hall).2.1

/-- A step that puts items with new keys at the end. -/
theorem append (hi : InOrder queue key h s) (hqueue : queue s' = queue s ++ new)
    (hnew : ∀ item ∈ new, key item ∉ (entered queue h).map key) (hnodup : (new.map key).Nodup) :
    InOrder queue key (⟨s, l, s'⟩ :: h) s' := by
  have hfresh : ∀ item ∈ new, item ∉ queue s := fun item hitem hold =>
    hnew item hitem (List.mem_map_of_mem (hi.mem_entered hold))
  obtain ⟨hentering, hleaving⟩ := entering_of_append (l := l) hqueue hfresh
  constructor
  · rw [entered, left, hentering, hleaving, hqueue, hi.account, List.append_nil,
      List.append_assoc]
  · rw [entered, hentering, List.map_append]
    refine List.Nodup.append hi.once hnodup fun k hold hk => ?_
    obtain ⟨item, hitem, rfl⟩ := List.mem_map.mp hk
    exact hnew item hitem hold

/-- A step that takes items off the front. -/
theorem take (hi : InOrder queue key h s) (hqueue : queue s = front ++ queue s') :
    InOrder queue key (⟨s, l, s'⟩ :: h) s' := by
  have hfront : ∀ item ∈ front, item ∉ queue s' := by
    intro item hitem hwaits
    have hnodup := hi.queue_nodup
    rw [hqueue, List.map_append] at hnodup
    exact (List.nodup_append.mp hnodup).2.2 _ (List.mem_map_of_mem hitem) _
      (List.mem_map_of_mem hwaits) rfl
  obtain ⟨hentering, hleaving⟩ := leaving_of_front (l := l) hqueue hfront
  have hentered : entered queue ((⟨s, l, s'⟩ : Transition σ Λ) :: h) = entered queue h := by
    rw [entered, hentering, List.append_nil]
  constructor
  · rw [hentered, left, hleaving, hi.account, hqueue, List.append_assoc]
  · rw [hentered]
    exact hi.once

/-- A step that leaves the queue. -/
theorem keep (hi : InOrder queue key h s) (hqueue : queue s' = queue s) :
    InOrder queue key (⟨s, l, s'⟩ :: h) s' :=
  hi.take (show queue s = [] ++ queue s' by rw [hqueue, List.nil_append])

end InOrder

/-- Of two entries of a list, the first stands in every front part that the second does not
stand behind. -/
theorem mem_front_of_sublist {a b : κ} {front back : List κ}
    (hsub : [a, b].Sublist (front ++ back)) (hb : b ∉ back) : a ∈ front := by
  obtain ⟨first, second, heq, hfirst, hsecond⟩ := List.sublist_append_iff.mp hsub
  cases first with
  | nil =>
    rw [List.nil_append] at heq
    exact absurd (hsecond.subset (by rw [← heq]; simp)) hb
  | cons x first =>
    rw [List.cons_append, List.cons.injEq] at heq
    rw [heq.1]
    exact hfirst.subset List.mem_cons_self

/-- Nobody is overtaken. If `a` entered before `b` and a step takes out `b`, then this step or
an earlier one takes out `a`, and no later one does. -/
theorem InOrder.not_overtaken (hi : InOrder queue key (later ++ t :: earlier) s) {a b : κ}
    (hbefore : [a, b].Sublist ((entered queue (later ++ t :: earlier)).map key))
    (hb : b ∈ (leaving queue t).map key) :
    (∃ t' ∈ t :: earlier, a ∈ (leaving queue t').map key) ∧
      ∀ t' ∈ later, a ∉ (leaving queue t').map key := by
  -- All that entered, cut right after this step.
  have hcut : (entered queue (later ++ t :: earlier)).map key =
      (left queue (t :: earlier)).map key ++ (left queue later ++ queue s).map key := by
    rw [hi.account, left_append, List.append_assoc, List.map_append]
  have honce := hi.once
  rw [hcut] at hbefore honce
  have hdisjoint := (List.nodup_append.mp honce).2.2
  obtain ⟨item, hitem, rfl⟩ := List.mem_map.mp hb
  have hout := leaving_subset_left (List.mem_cons_self (l := earlier)) hitem
  have hfront : a ∈ (left queue (t :: earlier)).map key :=
    mem_front_of_sublist hbefore fun hback =>
      hdisjoint _ (List.mem_map_of_mem hout) _ hback rfl
  constructor
  · obtain ⟨item', hitem', rfl⟩ := List.mem_map.mp hfront
    obtain ⟨t', ht', hleaves⟩ := exists_of_mem_left hitem'
    exact ⟨t', ht', List.mem_map_of_mem hleaves⟩
  · intro t' ht' hlater
    obtain ⟨item', hitem', rfl⟩ := List.mem_map.mp hlater
    refine hdisjoint _ hfront _ (List.mem_map_of_mem ?_) rfl
    exact List.mem_append_left _ (leaving_subset_left ht' hitem')

end MiniJam.Fifo
