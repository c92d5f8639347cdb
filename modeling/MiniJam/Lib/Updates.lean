import Mathlib.Data.List.Nodup
import Mathlib.Logic.Function.Basic

/-!
# `MiniJam.Lib.Updates`: a list of writes to a map

A map is a function of its keys, and a list of writes is applied from the front. With
distinct keys the result has at each key what was written there, or what was there before,
and the order of the writes does not matter.
-/

set_option autoImplicit false

namespace Updates

variable {κ ν : Type} [DecidableEq κ]

/-- Apply writes one after the other. -/
def applyAll (writes : List (κ × ν)) (f : κ → ν) : κ → ν :=
  writes.foldl (fun f write => Function.update f write.1 write.2) f

@[simp] theorem applyAll_nil (f : κ → ν) : applyAll [] f = f := rfl

@[simp] theorem applyAll_cons (write : κ × ν) (writes : List (κ × ν)) (f : κ → ν) :
    applyAll (write :: writes) f = applyAll writes (Function.update f write.1 write.2) := rfl

variable {writes writes' : List (κ × ν)} {f : κ → ν} {k : κ}

/-- A key that is not written keeps its value. -/
theorem applyAll_of_notMem (hk : k ∉ writes.map Prod.fst) : applyAll writes f k = f k := by
  induction writes generalizing f with
  | nil => rfl
  | cons write writes ih =>
    rw [List.map_cons, List.mem_cons, not_or] at hk
    rw [applyAll_cons, ih hk.2, Function.update_of_ne hk.1]

theorem applyAll_of_mem (hkeys : (writes.map Prod.fst).Nodup) {v : ν} (hmem : (k, v) ∈ writes) :
    applyAll writes f k = v := by
  induction writes generalizing f with
  | nil => cases hmem
  | cons write writes ih =>
    rw [List.map_cons, List.nodup_cons] at hkeys
    rw [applyAll_cons]
    rcases List.mem_cons.mp hmem with rfl | hmem
    · rw [applyAll_of_notMem hkeys.1, Function.update_self]
    · exact ih hkeys.2 hmem

/-- Writes of images give the image of the map. -/
theorem applyAll_map {ν' : Type} (g : ν → ν') (writes : List (κ × ν)) (f : κ → ν) :
    applyAll (writes.map fun write => (write.1, g write.2)) (fun k => g (f k)) =
      fun k => g (applyAll writes f k) := by
  induction writes generalizing f with
  | nil => rfl
  | cons write writes ih =>
    have hstep : Function.update (fun k => g (f k)) write.1 (g write.2) =
        fun k => g (Function.update f write.1 write.2 k) :=
      (Function.comp_update g f write.1 write.2).symm
    rw [List.map_cons, applyAll_cons, applyAll_cons, hstep]
    exact ih _

/-- The order of writes to distinct keys does not matter. -/
theorem applyAll_perm (hkeys : (writes.map Prod.fst).Nodup) (hperm : writes'.Perm writes) :
    applyAll writes' f = applyAll writes f := by
  have hkeys' : (writes'.map Prod.fst).Nodup := (hperm.map Prod.fst).nodup_iff.mpr hkeys
  funext k
  by_cases hk : k ∈ writes.map Prod.fst
  · obtain ⟨⟨k', v⟩, hmem, rfl⟩ := List.mem_map.mp hk
    rw [applyAll_of_mem hkeys hmem, applyAll_of_mem hkeys' (hperm.mem_iff.mpr hmem)]
  · have hk' : k ∉ writes'.map Prod.fst := fun h => hk ((hperm.map Prod.fst).mem_iff.mp h)
    rw [applyAll_of_notMem hk, applyAll_of_notMem hk']

end Updates
