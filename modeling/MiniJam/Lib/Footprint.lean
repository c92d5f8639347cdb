import MiniJam.Lib.Tx

/-!
# `MiniJam.Lib.Footprint`: which parts of a storage a computation may write

A footprint names a part of the storage by an operation `put s s'`, which takes that part
from `s'` and the rest from `s`. A computation stays within a footprint when putting its
result's part into its start gives its result back: everything outside the part is as it
was. Staying within a footprint is reflexive and transitive, so `Tx.Rel` proves it for a
whole computation from its parts.
-/

set_option autoImplicit false

/-- A part of a storage, given by how it is replaced. -/
structure Footprint (σ : Type) where
  put : σ → σ → σ
  put_self : ∀ s, put s s = s := by
    intros
    rfl
  put_put : ∀ s s' s'', put (put s s') s'' = put s s'' := by
    intros
    rfl

namespace Footprint

variable {σ : Type}

/-- Between the two storages only the part of the footprint differs. -/
def Within (fp : Footprint σ) (s s' : σ) : Prop := fp.put s s' = s'

instance (fp : Footprint σ) : Std.Refl fp.Within where
  refl s := fp.put_self s

instance (fp : Footprint σ) : IsTrans σ fp.Within where
  trans s s' s'' h h' := by
    unfold Within at *
    rw [← fp.put_put s s' s'', h, h']

variable {fp : Footprint σ}

/-- The storage after is the storage before with a new part. Then everything outside of the
part is the same by definition. -/
theorem Within.exists_put {s s' : σ} (h : fp.Within s s') : ∃ t, s' = fp.put s t := ⟨s', h.symm⟩

/-- What reads nothing of the footprint is as it was. -/
theorem Within.unchanged {s s' : σ} (h : fp.Within s s') {α : Type} (f : σ → α)
    (hf : ∀ s s', f (fp.put s s') = f s) : f s' = f s := by
  rw [← h, hf]

/-- A smaller footprint is within a larger one. -/
theorem Within.mono {fp' : Footprint σ} (hle : ∀ s s', fp'.put s (fp.put s s') = fp.put s s')
    {s s' : σ} (h : fp.Within s s') : fp'.Within s s' := by
  unfold Within at *
  rw [← h, hle]

end Footprint
