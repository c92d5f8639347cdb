import Mathlib.Data.List.Nodup
import Mathlib.Order.Basic

/-!
# `MiniJam.Lib.Watermark`: marks that only rise

A system keeps a mark, or a family of marks, and takes an item only while the item is above
its mark; taking it raises the mark to it. When the marks never go back, no item is taken
twice.

`Watermark` says what the order of the states and the freshness of an item have to do with
each other. `Passes` is a stretch of a run with the states it visits and the items it takes:
an item of the stretch is fresh at its start and no longer fresh at its end, which is why two
stretches one after the other take different items (`Passes.append`).
-/

set_option autoImplicit false

/-- States ordered by their marks. An item that is fresh later was fresh before. -/
structure Watermark (σ ι : Type) where
  le : σ → σ → Prop
  refl : ∀ s, le s s
  trans : ∀ a b c, le a b → le b c → le a c
  Fresh : σ → ι → Prop
  fresh_of_le : ∀ a b i, le a b → Fresh b i → Fresh a i

namespace Watermark

variable {σ ι : Type} (w : Watermark σ ι)

/-- A stretch from `start` to `stop` that visits states and takes items, both in order. -/
structure Passes (start stop : σ) (visited : List σ) (taken : List ι) : Prop where
  le : w.le start stop
  after_start : ∀ s ∈ visited, w.le start s
  before_stop : ∀ s ∈ visited, w.le s stop
  ordered : visited.Pairwise w.le
  fresh_at_start : ∀ i ∈ taken, w.Fresh start i
  stale_at_stop : ∀ i ∈ taken, ¬ w.Fresh stop i
  nodup : taken.Nodup

namespace Passes

variable {w} {a b c : σ} {visited visited' : List σ} {taken taken' : List ι}

/-- Nothing happens. -/
theorem nil (a : σ) : w.Passes a a [] [] where
  le := w.refl a
  after_start := by simp
  before_stop := by simp
  ordered := List.Pairwise.nil
  fresh_at_start := by simp
  stale_at_stop := by simp
  nodup := List.nodup_nil

/-- One step, which takes at most one item. -/
theorem single {item : Option ι} (hle : w.le a b)
    (hitem : ∀ i, item = some i → w.Fresh a i ∧ ¬ w.Fresh b i) :
    w.Passes a b [a] item.toList where
  le := hle
  after_start s hs := by
    rw [List.mem_singleton.mp hs]
    exact w.refl a
  before_stop s hs := by
    rw [List.mem_singleton.mp hs]
    exact hle
  ordered := List.pairwise_singleton _ _
  fresh_at_start i hi := (hitem i (Option.mem_toList.mp hi)).1
  stale_at_stop i hi := (hitem i (Option.mem_toList.mp hi)).2
  nodup := by
    cases item with
    | none => exact List.nodup_nil
    | some i => exact List.nodup_singleton i

/-- Two stretches in a row. What the first takes is stale where the second starts. -/
theorem append (h : w.Passes a b visited taken) (h' : w.Passes b c visited' taken') :
    w.Passes a c (visited ++ visited') (taken ++ taken') where
  le := w.trans _ _ _ h.le h'.le
  after_start s hs := by
    rcases List.mem_append.mp hs with hs | hs
    · exact h.after_start s hs
    · exact w.trans _ _ _ h.le (h'.after_start s hs)
  before_stop s hs := by
    rcases List.mem_append.mp hs with hs | hs
    · exact w.trans _ _ _ (h.before_stop s hs) h'.le
    · exact h'.before_stop s hs
  ordered := by
    refine List.pairwise_append.mpr ⟨h.ordered, h'.ordered, ?_⟩
    intro s hs s' hs'
    exact w.trans _ _ _ (h.before_stop s hs) (h'.after_start s' hs')
  fresh_at_start i hi := by
    rcases List.mem_append.mp hi with hi | hi
    · exact h.fresh_at_start i hi
    · exact w.fresh_of_le _ _ _ h.le (h'.fresh_at_start i hi)
  stale_at_stop i hi := by
    rcases List.mem_append.mp hi with hi | hi
    · -- What is fresh later was fresh before.
      intro hfresh
      exact h.stale_at_stop i hi (w.fresh_of_le _ _ _ h'.le hfresh)
    · exact h'.stale_at_stop i hi
  nodup := by
    refine List.nodup_append'.mpr ⟨h.nodup, h'.nodup, ?_⟩
    intro i hi hi'
    exact h.stale_at_stop i hi (h'.fresh_at_start i hi')

/-- The states of a stretch with its end are in order. -/
theorem ordered_with_stop (h : w.Passes a b visited taken) :
    (visited ++ [b]).Pairwise w.le := by
  refine List.pairwise_append.mpr ⟨h.ordered, List.pairwise_singleton _ _, ?_⟩
  intro s hs s' hs'
  rw [List.mem_singleton.mp hs']
  exact h.before_stop s hs

end Passes

end Watermark
