import MiniJam.Lib.Trace
import Mathlib.Algebra.BigOperators.Group.List.Basic
import Mathlib.Algebra.GroupWithZero.Nat
import Mathlib.Data.List.Nodup

/-!
# `MiniJam.Lib.Escrow`: amounts that come in and are paid out once

A book has an amount for each key, the number of amounts that came in, and the nonces of the
payouts. Amounts come in under the next nonce, and a payout has a nonce that was not used yet.

`Moves ins outs b b'` says that between two books the entries `ins` came in and the entries `outs`
were paid out, in this order. Moves compose, so a run moves the entries of its steps
(`Moves.of_trace`), and what is said of one step holds of a run: the amounts balance, the nonces
that came in have no gap, and no nonce is paid out twice.
-/

set_option autoImplicit false

namespace Escrow

variable {κ : Type}

/-- An amount under a nonce. -/
structure Entry (κ : Type) where
  nonce : Nat
  key : κ
  amount : Nat

structure Book (κ : Type) where
  held : κ → Nat
  next : Nat
  spent : Nat → Prop

variable [DecidableEq κ]

/-- What the entries for a key add up to. -/
def total (k : κ) (entries : List (Entry κ)) : Nat :=
  (entries.map fun entry => if entry.key = k then entry.amount else 0).sum

@[simp] theorem total_nil (k : κ) : total k [] = 0 := rfl

/-- The totals of two lists of entries add up. -/
theorem total_append (k : κ) (entries entries' : List (Entry κ)) :
    total k (entries ++ entries') = total k entries + total k entries' := by
  unfold total
  rw [List.map_append, List.sum_append]

theorem total_singleton (k : κ) (entry : Entry κ) :
    total k [entry] = if entry.key = k then entry.amount else 0 := by
  simp [total]

/-- The entries `ins` came in and the entries `outs` were paid out. -/
structure Moves (ins outs : List (Entry κ)) (b b' : Book κ) : Prop where
  balance : ∀ k, b'.held k + total k outs = b.held k + total k ins
  next : b'.next = b.next + ins.length
  nonces : ins.map Entry.nonce = List.range' b.next ins.length
  spent : ∀ n, b'.spent n ↔ b.spent n ∨ n ∈ outs.map Entry.nonce
  fresh : ∀ n ∈ outs.map Entry.nonce, ¬ b.spent n
  nodup : (outs.map Entry.nonce).Nodup

namespace Moves

variable {ins ins' outs outs' : List (Entry κ)} {b b' b'' : Book κ}

theorem refl (b : Book κ) : Moves [] [] b b where
  balance _ := rfl
  next := rfl
  nonces := rfl
  spent n := by simp
  fresh n hn := by simp at hn
  nodup := List.nodup_nil

theorem trans (h : Moves ins outs b b') (h' : Moves ins' outs' b' b'') :
    Moves (ins ++ ins') (outs ++ outs') b b'' where
  balance k := by
    have hfirst := h.balance k
    have hsecond := h'.balance k
    rw [total_append, total_append]
    omega
  next := by
    rw [h'.next, h.next, List.length_append]
    omega
  nonces := by
    rw [List.map_append, h.nonces, h'.nonces, h.next, List.length_append]
    simp
  spent n := by
    rw [h'.spent, h.spent, List.map_append, List.mem_append, or_assoc]
  fresh n hn := by
    rw [List.map_append, List.mem_append] at hn
    rcases hn with hn | hn
    · exact h.fresh n hn
    · exact fun hspent => h'.fresh n hn ((h.spent n).mpr (Or.inl hspent))
  nodup := by
    rw [List.map_append]
    refine h.nodup.append h'.nodup fun n hn hn' => ?_
    exact h'.fresh n hn' ((h.spent n).mpr (Or.inr hn))

/-- An amount comes in under the next nonce. -/
theorem deposit (k : κ) (amount : Nat)
    (hheld : b'.held = Function.update b.held k (b.held k + amount))
    (hnext : b'.next = b.next + 1) (hspent : b'.spent = b.spent) :
    Moves [⟨b.next, k, amount⟩] [] b b' where
  balance k' := by
    rw [hheld, total_singleton, total_nil, Function.update_apply]
    by_cases hk : k' = k
    · simp [hk]
    · simp [hk, Ne.symm hk]
  next := hnext
  nonces := rfl
  spent n := by simp [hspent]
  fresh n hn := by simp at hn
  nodup := List.nodup_nil

/-- An amount is paid out under a nonce that was not used. -/
theorem payout (k : κ) {amount nonce : Nat} (hle : amount ≤ b.held k)
    (hheld : b'.held = Function.update b.held k (b.held k - amount)) (hnext : b'.next = b.next)
    (hfresh : ¬ b.spent nonce) (hspent : ∀ n, b'.spent n ↔ n = nonce ∨ b.spent n) :
    Moves [] [⟨nonce, k, amount⟩] b b' where
  balance k' := by
    rw [hheld, total_singleton, total_nil, Function.update_apply]
    by_cases hk : k' = k
    · simp [hk, hle]
    · simp [hk, Ne.symm hk]
  next := hnext
  nonces := rfl
  spent n := by simp [hspent, or_comm]
  fresh n hn := by
    rw [List.map_singleton, List.mem_singleton] at hn
    rwa [hn]
  nodup := List.nodup_singleton _

/-- From the start on the nonces count up from 0. -/
theorem nonces_eq_range (h : Moves ins outs b b') (hb : b.next = 0) :
    ins.map Entry.nonce = List.range b'.next := by
  rw [h.nonces, h.next, hb, Nat.zero_add, List.range_eq_range']

/-- A run moves what its steps move. -/
theorem of_trace {σ Λ : Type} {init : σ → Prop} {step : σ → Λ → σ → Prop} (book : σ → Book κ)
    (ins outs : Transition σ Λ → List (Entry κ)) {b : Book κ} (hinit : ∀ s, init s → book s = b)
    (hstep : ∀ s l s', step s l s' → Moves (ins ⟨s, l, s'⟩) (outs ⟨s, l, s'⟩) (book s) (book s'))
    {h : List (Transition σ Λ)} {s : σ} (hr : Trace init step h s) :
    Moves (h.reverse.flatMap ins) (h.reverse.flatMap outs) b (book s) := by
  induction hr with
  | start hs =>
    rw [hinit _ hs]
    exact .refl b
  | extend _ hs ih =>
    simp only [List.reverse_cons, List.flatMap_append, List.flatMap_singleton]
    exact ih.trans (hstep _ _ _ hs)

end Moves

end Escrow
