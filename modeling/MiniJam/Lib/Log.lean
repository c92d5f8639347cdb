import Mathlib.Data.List.Forall2
import MiniJam.Lib.Tx

/-!
# `MiniJam.Lib.Log`: computations that append to a list

A loop goes through items and hands one thing in for each of them. What it has handed in stays,
also when it fails: then there is one thing for each of the first items. `Logs` says this of a
computation whose storage is the list of what was handed in, and its rules follow the program.
-/

set_option autoImplicit false

namespace Tx

variable {α β γ ε ξ : Type} {V : α → ξ → Prop} {as as' : List α}

/-- Every run that returns has appended an entry for each item, in the order of the items. A run
that fails has done so for the first of them. -/
def Logs (V : α → ξ → Prop) (as : List α) (m : Tx (List ξ) ε β) : Prop :=
  ∀ s, (∀ b s', m s = .ok b s' → ∃ new, s' = s ++ new ∧ List.Forall₂ V as new) ∧
    ∀ e s', m s = .err e s' → ∃ done new, done <+: as ∧ s' = s ++ new ∧ List.Forall₂ V done new

theorem Logs.pure (b : β) : Logs V [] (pure b : Tx (List ξ) ε β) := by
  refine fun s => ⟨fun _ _ h => ?_, nofun⟩
  cases h
  exact ⟨[], (List.append_nil s).symm, .nil⟩

variable {f : β → Tx (List ξ) ε γ}

/-- Two parts one after the other. -/
theorem Logs.bind {m : Tx (List ξ) ε β} (hm : Logs V as m) (hf : ∀ b, Logs V as' (f b)) :
    Logs V (as ++ as') (m >>= f) := by
  refine fun s => ⟨fun c s' h => ?_, fun e s' h => ?_⟩
  · obtain ⟨b, s₁, h₁, h₂⟩ := bind_ok.mp h
    obtain ⟨new, rfl, hnew⟩ := (hm s).1 b s₁ h₁
    obtain ⟨new', rfl, hnew'⟩ := (hf b _).1 c s' h₂
    exact ⟨new ++ new', List.append_assoc .., List.rel_append hnew hnew'⟩
  · rcases bind_err.mp h with h | ⟨b, s₁, h₁, h₂⟩
    · obtain ⟨done, new, hdone, hs, hnew⟩ := (hm s).2 e s' h
      exact ⟨done, new, hdone.trans (List.prefix_append _ _), hs, hnew⟩
    · obtain ⟨new, rfl, hnew⟩ := (hm s).1 b s₁ h₁
      obtain ⟨done, new', hdone, rfl, hnew'⟩ := (hf b _).2 e s' h₂
      exact ⟨as ++ done, new ++ new', (List.prefix_append_right_inj as).mpr hdone,
        List.append_assoc .., List.rel_append hnew hnew'⟩

/-- A failure appends nothing. -/
theorem Logs.error (e : ε) : Logs V as (lift (.error e) : Tx (List ξ) ε β) := by
  refine fun s => ⟨nofun, fun _ _ hs => ?_⟩
  cases hs
  exact ⟨[], [], List.nil_prefix, (List.append_nil s).symm, .nil⟩

/-- What comes after a value that may be an error. -/
theorem Logs.lift_bind {r : Except ε β} (h : ∀ b, r = .ok b → Logs V as (f b)) :
    Logs V as (lift r >>= f) := by
  cases r with
  | ok b => exact h b rfl
  | error e => exact Logs.error e

theorem Logs.ensure_bind {p : Prop} [Decidable p] {e : ε} {f : Unit → Tx (List ξ) ε γ}
    (h : p → Logs V as (f ())) : Logs V as (ensure p e >>= f) := by
  intro s
  rw [ensure_bind_apply]
  split
  · next hp => exact h hp s
  · exact Logs.error e s

/-- An entry that is appended, whether or not what follows is an error. -/
theorem Logs.entry {a : α} {x : ξ} (hx : V a x) (r : Except ε β) :
    Logs V [a] (modify (fun s => s ++ [x]) >>= fun _ => lift r) := by
  have hentry : Logs V [a] (modify fun s => s ++ [x] : Tx (List ξ) ε Unit) := by
    refine fun s => ⟨fun _ _ h => ?_, nofun⟩
    cases h
    exact ⟨[x], rfl, .cons hx .nil⟩
  have hrest : Logs V [] (lift r : Tx (List ξ) ε β) := by
    cases r with
    | ok b => exact Logs.pure b
    | error e => exact Logs.error e
  exact hentry.bind fun _ => hrest

/-- A loop. -/
theorem Logs.mapEach {f : α → Tx (List ξ) ε β} (hf : ∀ a ∈ as, Logs V [a] (f a)) :
    Logs V as (mapEach f as) := by
  induction as with
  | nil => exact Logs.pure []
  | cons a as ih =>
    rw [mapEach_cons]
    have hrest := ih fun a' ha' => hf a' (List.mem_cons_of_mem _ ha')
    have hboth := (hf a List.mem_cons_self).bind fun b => hrest.bind fun bs =>
      Logs.pure (b :: bs)
    rwa [List.append_nil] at hboth

end Tx
