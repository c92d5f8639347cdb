import MiniJam.Lib.Trace
import Mathlib.Algebra.Order.Group.Multiset
import Mathlib.Tactic.Abel

/-!
# `MiniJam.Lib.Balance`: what enters a store stays in it or leaves it

Every step of a system brings items into a store, lets items leave it, and may lose some.
When each step balances, so does a run: what has entered is what is stored, what has left
and what was lost. Items are counted with their multiplicity, so an item that entered once
is in exactly one place.
-/

set_option autoImplicit false

namespace Trace

variable {σ Λ α : Type} {init : σ → Prop} {step : σ → Λ → σ → Prop}

/-- Steps that balance give a run that balances. Where every step is spared a loss, nothing
was lost. -/
theorem balance (stored : σ → Multiset α) (inflow outflow : Transition σ Λ → List α)
    (spared : Transition σ Λ → Prop) (hinit : ∀ s, init s → stored s = 0)
    (hstep : ∀ s l s', step s l s' → ∃ lost : Multiset α,
      stored s' + outflow ⟨s, l, s'⟩ + lost = stored s + inflow ⟨s, l, s'⟩ ∧
        (spared ⟨s, l, s'⟩ → lost = 0))
    {h : List (Transition σ Λ)} {s : σ} (hr : Trace init step h s) :
    ∃ lost : Multiset α, stored s + (h.flatMap outflow : List α) + lost =
        (h.flatMap inflow : List α) ∧ ((∀ t ∈ h, spared t) → lost = 0) := by
  refine hr.invariant (I := fun h s => ∃ lost : Multiset α,
    stored s + (h.flatMap outflow : List α) + lost = (h.flatMap inflow : List α) ∧
      ((∀ t ∈ h, spared t) → lost = 0)) ?_ ?_
  · intro s hs
    exact ⟨0, by simp [hinit s hs], fun _ => rfl⟩
  · intro h s l s' ⟨before, hbefore, hspared⟩ hs
    obtain ⟨now, hnow, hspared'⟩ := hstep s l s' hs
    refine ⟨before + now, ?_, ?_⟩
    · rw [List.flatMap_cons, List.flatMap_cons, ← Multiset.coe_add, ← Multiset.coe_add, ← hbefore]
      -- Both sides are what the step balances and what was balanced before.
      calc stored s' + (outflow ⟨s, l, s'⟩ + (h.flatMap outflow : List α)) + (before + now)
          = stored s' + outflow ⟨s, l, s'⟩ + now + (h.flatMap outflow : List α) + before := by
            abel
        _ = stored s + inflow ⟨s, l, s'⟩ + (h.flatMap outflow : List α) + before := by rw [hnow]
        _ = inflow ⟨s, l, s'⟩ + (stored s + (h.flatMap outflow : List α) + before) := by abel
    · intro hall
      rw [hspared fun t ht => hall t (List.mem_cons_of_mem _ ht),
        hspared' (hall _ List.mem_cons_self),
        add_zero]

end Trace

/-- Two ways out, counted together or one after the other. -/
theorem Multiset.coe_flatMap_append {τ α : Type} (f g : τ → List α) (ts : List τ) :
    ((ts.flatMap fun t => f t ++ g t : List α) : Multiset α) =
      (ts.flatMap f : List α) + (ts.flatMap g : List α) := by
  rw [Multiset.coe_add, Multiset.coe_eq_coe]
  exact (List.flatMap_append_perm ts f g).symm
