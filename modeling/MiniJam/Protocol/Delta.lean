import MiniJam.Protocol.Executor

/-!
# `MiniJam.Protocol.Delta`: the other two ends of a delta

An executor brings its changes into key order with `normalize_changes`
(`minijam-jamcore-api`). `MemoryProtocolState` is the state of the adapter crate
(`minijam-state-adapter`), which applies a checked delta to a map in memory; the pallet
applies it to its storage.
-/

set_option autoImplicit false

namespace MiniJam

/-- Sort changes by their keys. The second part says whether no two keys are equal. -/
def normalizeChanges (changes : List ProtocolStateChange) :
    List ProtocolStateChange × Except InvariantError Unit :=
  let sorted := sortByKey (fun change => change.key.key) changes
  (sorted,
    if (windows2 sorted).any fun p => decide (p.1.key = p.2.key) then .error .duplicateKey
    else .ok ())

structure MemoryProtocolState where
  entries : StorageMap StateKey Bytes

namespace MemoryProtocolState

def value (m : MemoryProtocolState) (key : StateKey) : Option Bytes := m.entries.lookup key

/-- One change of the staged entries. A write without a value panics. -/
def stage (staged : StorageMap StateKey Bytes) (change : ProtocolStateChange) :
    Option (StorageMap StateKey Bytes) :=
  match change.operation with
  | .remove => some (staged.erase change.key)
  | _ => change.value.map fun value => staged.insert change.key value.toList

/-- Apply a checked delta. `none` is the panic of the `expect`. -/
def applyValidated (m : MemoryProtocolState) (delta : ValidatedDelta) :
    Option MemoryProtocolState :=
  (delta.changes.foldlM stage m.entries).map fun staged => ⟨staged⟩

end MemoryProtocolState

end MiniJam
