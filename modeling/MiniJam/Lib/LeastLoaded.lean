import Mathlib.Algebra.GroupWithZero.Nat
import Mathlib.Data.List.Count
import Mathlib.Data.List.Nodup
import Mathlib.Tactic.Common

/-!
# `MiniJam.Lib.LeastLoaded`: giving work to the least loaded

Some workers carry loads up to a limit. Each round chooses `k` of those below the limit, the
least loaded first, and adds one to the load of each. Whatever decides between equal loads, the
loads stay within one of each other (`Spread.choose`).

A spread of loads has no gaps: a round with `k` workers finds enough of them below the limit
exactly when there are `k` workers and room for `k` more in total (`Spread.room`).

Loads that were given out in another way can have gaps. Then the sum of the loads still bounds
how many workers are at the limit (`le_length_below_of_sum`).
-/

set_option autoImplicit false

namespace LeastLoaded

variable {α : Type} {workers chosen : List α} {load load' : α → Nat} {limit total k : Nat}

/-- The loads are within one of each other and at most the limit, and `total` is their sum. -/
structure Spread (workers : List α) (load : α → Nat) (limit total : Nat) : Prop where
  even : ∀ a ∈ workers, ∀ b ∈ workers, load a ≤ load b + 1
  limited : ∀ a ∈ workers, load a ≤ limit
  total : (workers.map load).sum = total

theorem Spread.of_zero (h : ∀ a ∈ workers, load a = 0) : Spread workers load limit 0 := by
  refine ⟨fun a ha b _ => ?_, fun a ha => ?_, ?_⟩
  · rw [h a ha]
    exact Nat.zero_le _
  · rw [h a ha]
    exact Nat.zero_le _
  · rw [List.sum_eq_zero_iff_forall_eq_nat]
    intro n hn
    obtain ⟨a, ha, rfl⟩ := List.mem_map.mp hn
    exact h a ha

/-- Workers below the limit, each at most once, that are least loaded: a worker that was not
chosen has no smaller load than one that was. -/
structure Chooses (workers : List α) (load : α → Nat) (limit : Nat) (chosen : List α) : Prop where
  mem : ∀ a ∈ chosen, a ∈ workers
  nodup : chosen.Nodup
  below : ∀ a ∈ chosen, load a < limit
  least : ∀ a ∈ chosen, ∀ b ∈ workers, b ∉ chosen → load a ≤ load b

/-- The first ones of the workers below the limit, when these are sorted by their loads. -/
theorem Chooses.take {sorted : List α} (hworkers : workers.Nodup)
    (hperm : sorted.Perm (workers.filter (load · < limit)))
    (hsorted : sorted.Pairwise fun a b => load a ≤ load b) (k : Nat) :
    Chooses workers load limit (sorted.take k) := by
  have hmem : ∀ a, a ∈ sorted ↔ a ∈ workers ∧ load a < limit := fun a => by
    rw [hperm.mem_iff, List.mem_filter, decide_eq_true_eq]
  have htake : ∀ a ∈ sorted.take k, a ∈ workers ∧ load a < limit := fun a ha =>
    (hmem a).mp (List.mem_of_mem_take ha)
  refine ⟨fun a ha => (htake a ha).1, ?_, fun a ha => (htake a ha).2, fun a ha b hb hnot => ?_⟩
  · exact (hperm.nodup_iff.mpr (hworkers.filter _)).sublist (List.take_sublist _ _)
  · by_cases hbelow : load b < limit
    · -- The other worker comes later in the sorted list.
      have hin : b ∈ sorted.take k ++ sorted.drop k := by
        rw [List.take_append_drop]
        exact (hmem b).mpr ⟨hb, hbelow⟩
      have hlater := (List.mem_append.mp hin).resolve_left hnot
      rw [← List.take_append_drop k sorted] at hsorted
      exact (List.pairwise_append.mp hsorted).2.2 a ha b hlater
    · have hload := (htake a ha).2
      omega

/-- Each chosen worker adds one to the sum. -/
theorem sum_choose [DecidableEq α] (hworkers : workers.Nodup) (hmem : ∀ a ∈ chosen, a ∈ workers)
    (hnodup : chosen.Nodup)
    (hload : ∀ a ∈ workers, load' a = if a ∈ chosen then load a + 1 else load a) :
    (workers.map load').sum = (workers.map load).sum + chosen.length := by
  have hcount : ∀ l : List α, (∀ a ∈ l, a ∈ workers) →
      (l.map load').sum = (l.map load).sum + l.countP (· ∈ chosen) := by
    intro l hl
    induction l with
    | nil => rfl
    | cons a l ih =>
      have hrest := ih fun b hb => hl b (List.mem_cons_of_mem _ hb)
      have hfirst := hload a (hl a List.mem_cons_self)
      simp only [List.map_cons, List.sum_cons, List.countP_cons, hrest, hfirst, decide_eq_true_eq]
      split_ifs <;> omega
  -- The workers that are chosen and the chosen ones are the same, in some order.
  have hperm : (workers.filter (· ∈ chosen)).Perm chosen := by
    refine (List.perm_ext_iff_of_nodup (hworkers.filter _) hnodup).mpr fun a => ?_
    simp only [List.mem_filter, decide_eq_true_eq]
    exact ⟨fun h => h.2, fun h => ⟨hmem a h, h⟩⟩
  rw [hcount workers fun _ h => h, List.countP_eq_length_filter, hperm.length_eq]

/-- Choosing the least loaded keeps the loads within one of each other. -/
theorem Spread.choose [DecidableEq α] (h : Spread workers load limit total)
    (hworkers : workers.Nodup) (hchosen : Chooses workers load limit chosen)
    (hload : ∀ a ∈ workers, load' a = if a ∈ chosen then load a + 1 else load a) :
    Spread workers load' limit (total + chosen.length) := by
  refine ⟨fun a ha b hb => ?_, fun a ha => ?_, ?_⟩
  · have heven := h.even a ha b hb
    rw [hload a ha, hload b hb]
    split_ifs with hchosenA hchosenB
    · omega
    · -- The worker that was not chosen had no smaller load.
      have hleast := hchosen.least a hchosenA b hb hchosenB
      omega
    · omega
    · exact heven
  · rw [hload a ha]
    split_ifs with hchosenA
    · exact hchosen.below a hchosenA
    · exact h.limited a ha
  · rw [sum_choose hworkers hchosen.mem hchosen.nodup hload, h.total]

/-! ### Room for more -/

/-- Workers below the limit can take one more each. -/
theorem length_below_le (h : ∀ a ∈ workers, load a ≤ limit) :
    (workers.filter (load · < limit)).length + (workers.map load).sum ≤ workers.length * limit := by
  induction workers with
  | nil => simp
  | cons a workers ih =>
    have hrest := ih fun b hb => h b (List.mem_cons_of_mem _ hb)
    have hfirst := h a List.mem_cons_self
    rw [List.filter_cons, List.map_cons, List.sum_cons, List.length_cons, Nat.succ_mul]
    simp only [decide_eq_true_eq]
    split_ifs
    · rw [List.length_cons]
      omega
    · omega

/-- When no worker is short of the limit by more than one, the workers below it are all the room
there is. -/
theorem le_length_below (h : ∀ a ∈ workers, limit ≤ load a + 1) :
    workers.length * limit ≤ (workers.filter (load · < limit)).length + (workers.map load).sum := by
  induction workers with
  | nil => simp
  | cons a workers ih =>
    have hrest := ih fun b hb => h b (List.mem_cons_of_mem _ hb)
    have hfirst := h a List.mem_cons_self
    rw [List.filter_cons, List.map_cons, List.sum_cons, List.length_cons, Nat.succ_mul]
    simp only [decide_eq_true_eq]
    split_ifs
    · rw [List.length_cons]
      omega
    · omega

/-- There are `k` workers below the limit exactly when there are `k` workers and room for `k`
more. -/
theorem Spread.room (h : Spread workers load limit total) :
    k ≤ (workers.filter (load · < limit)).length ↔
      k ≤ workers.length ∧ total + k ≤ workers.length * limit := by
  constructor
  · intro hk
    have hsum := length_below_le h.limited
    rw [h.total] at hsum
    exact ⟨Nat.le_trans hk (List.length_filter_le _ _), by omega⟩
  · rintro ⟨hk, hroom⟩
    by_cases hfull : ∃ a ∈ workers, load a = limit
    · -- One worker is at the limit, so nobody is short of it by more than one.
      obtain ⟨a, ha, hlimit⟩ := hfull
      have hshort : ∀ b ∈ workers, limit ≤ load b + 1 := by
        intro b hb
        rw [← hlimit]
        exact h.even a ha b hb
      have hsum := le_length_below hshort
      rw [h.total] at hsum
      omega
    · have hall : workers.filter (load · < limit) = workers := by
        refine List.filter_eq_self.mpr fun a ha => decide_eq_true ?_
        exact Nat.lt_of_le_of_ne (h.limited a ha) fun hlimit => hfull ⟨a, ha, hlimit⟩
      rw [hall]
      exact hk

/-! ### Loads with gaps -/

/-- Each worker at the limit has a share of the sum. -/
theorem length_full_mul_le :
    (workers.filter fun a => !decide (load a < limit)).length * limit ≤
      (workers.map load).sum := by
  induction workers with
  | nil => simp
  | cons a workers ih =>
    rw [List.filter_cons, List.map_cons, List.sum_cons]
    by_cases hbelow : load a < limit
    · simp only [hbelow, decide_true, Bool.not_true, Bool.false_eq_true, if_false]
      omega
    · simp only [hbelow, decide_false, Bool.not_false, if_true, List.length_cons, Nat.succ_mul]
      omega

/-- There are `k` workers below the limit when there are `k` workers besides the most that the
sum can have brought to the limit. -/
theorem le_length_below_of_sum (hlimit : 0 < limit)
    (hk : k + (workers.map load).sum / limit ≤ workers.length) :
    k ≤ (workers.filter (load · < limit)).length := by
  have hfull : (workers.filter fun a => !decide (load a < limit)).length ≤
      (workers.map load).sum / limit := (Nat.le_div_iff_mul_le hlimit).mpr length_full_mul_le
  have hsplit := List.length_eq_length_filter_add (l := workers) fun a => decide (load a < limit)
  omega

end LeastLoaded
