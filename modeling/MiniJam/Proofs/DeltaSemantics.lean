import MiniJam.Lib.Updates
import MiniJam.Proofs.BlockQueues
import MiniJam.Protocol.Delta
import MiniJam.Runtime.Reference
import MiniJam.Lib.Result

/-!
# `MiniJam.Proofs.DeltaSemantics`: one meaning of a delta

A checked delta is a list of writes to distinct keys, each of which fits the state it was
checked against (`Fits`). The pallet and the adapter both apply it as such a list
(`applyChanges_eq`, `applyValidated_eq`), so they agree, and the order of the changes does
not matter.
-/

set_option autoImplicit false

namespace MiniJam

open Updates

/-! ### What the check lets pass -/

/-- A change that fits what it finds at its key. -/
def Fits (found : Option Bytes) (change : ProtocolStateChange) : Prop :=
  match change.operation with
  | .upsert => change.value.isSome = true ∧ found = none
  | .update => change.value.isSome = true ∧ found.isSome = true
  | .remove => change.value = none ∧ found.isSome = true

variable {changes : List ProtocolStateChange} {state : ProtocolStateReader}

theorem checkOperations_ok (h : checkOperations state changes = .ok ()) :
    ∀ change ∈ changes, ∃ found, state change.key = .ok found ∧ Fits found change := by
  induction changes with
  | nil => simp
  | cons change changes ih =>
    unfold checkOperations at h
    cases hfound : state change.key with
    | error e =>
      rw [hfound] at h
      cases h
    | ok found =>
      rw [hfound] at h
      -- Three of the combinations go on with the rest.
      have hboth : Fits found change ∧ checkOperations state changes = .ok () := by
        unfold Fits
        cases hop : change.operation <;> cases hvalue : change.value <;> cases found <;>
          simp_all
      intro other hother
      rcases List.mem_cons.mp hother with rfl | hother
      · exact ⟨found, hfound, hboth.1⟩
      · exact ih hboth.2 other hother

theorem validateExecutionOutput_fits {c : Crypto} {input : MiniJamExecutionInput}
    {output : MiniJamExecutionOutput} {delta : ValidatedDelta}
    (h : validateExecutionOutput c input output state = .ok delta) :
    ∀ change ∈ delta.changes, ∃ found, state change.key = .ok found ∧ Fits found change := by
  unfold validateExecutionOutput validateCommon at h
  split_ifs at h
  cases hcheck : checkOperations state output.orderedChanges.toList with
  | error e =>
    rw [hcheck] at h
    cases h
  | ok u =>
    rw [hcheck] at h
    cases h
    exact checkOperations_ok hcheck

/-- In key order no key is written twice. -/
theorem nodup_keys (hsorted : changes.Pairwise fun a b => a.key.key < b.key.key) :
    (changes.map ProtocolStateChange.key).Nodup := by
  refine List.pairwise_map.mpr (hsorted.imp ?_)
  intro a b hlt heq
  rw [heq] at hlt
  exact lt_irrefl _ hlt

/-! ### The two appliers -/

/-- A write has a value, and a removal has none to give. -/
def Writable (change : ProtocolStateChange) : Prop :=
  change.operation = .remove ∨ change.value.isSome = true

theorem Fits.writable {found : Option Bytes} {change : ProtocolStateChange}
    (h : Fits found change) : Writable change := by
  unfold Fits at h
  unfold Writable
  cases hop : change.operation with
  | upsert =>
    rw [hop] at h
    exact Or.inr h.1
  | update =>
    rw [hop] at h
    exact Or.inr h.1
  | remove => exact Or.inl rfl

section
variable {AccountId Ledger : Type} {T : Jam.Config AccountId Ledger}

/-- The writes of a list of changes to the storage of the pallet. -/
def palletWrites (changes : List ProtocolStateChange) : List (StateKey × Option StateValue) :=
  changes.map fun change => (change.key, Jam.writtenValue change)

/-- The same writes to a map of bytes. -/
def memoryWrites (changes : List ProtocolStateChange) : List (StateKey × Option Bytes) :=
  changes.map fun change => (change.key, (Jam.writtenValue change).map BoundedVec.toList)

theorem palletWrites_keys (changes : List ProtocolStateChange) :
    (palletWrites changes).map Prod.fst = changes.map ProtocolStateChange.key := by
  unfold palletWrites
  rw [List.map_map]
  rfl

theorem memoryWrites_keys (changes : List ProtocolStateChange) :
    (memoryWrites changes).map Prod.fst = changes.map ProtocolStateChange.key := by
  unfold memoryWrites
  rw [List.map_map]
  rfl

/-- The pallet applies changes as a list of writes, without a failure. -/
theorem applyChanges_eq (changes : List ProtocolStateChange)
    (hwritable : ∀ change ∈ changes, Writable change) (s : Jam.State T) :
    ∃ s', Tx.forEach Jam.applyChange changes s = .ok () s' ∧
      s' = { s with protocolState := s'.protocolState } ∧
      (fun key => s'.protocolState.lookup key) =
        applyAll (palletWrites changes) fun key => s.protocolState.lookup key := by
  induction changes generalizing s with
  | nil => exact ⟨s, rfl, rfl, rfl⟩
  | cons change changes ih =>
    obtain ⟨s₁, hfirst, hframe⟩ : ∃ s₁, Jam.applyChange change s = .ok () s₁ ∧
        s₁ = { s with protocolState := s₁.protocolState } := by
      unfold Jam.applyChange
      rcases hwritable change List.mem_cons_self with hremove | hvalue
      · rw [hremove]
        exact ⟨_, rfl, rfl⟩
      · obtain ⟨value, hvalue⟩ := Option.isSome_iff_exists.mp hvalue
        rw [hvalue]
        cases change.operation <;> exact ⟨_, rfl, rfl⟩
    obtain ⟨s', hrest, hframe', hlookup⟩ :=
      ih (fun other hother => hwritable other (List.mem_cons_of_mem _ hother)) s₁
    refine ⟨s', ?_, ?_, ?_⟩
    · rw [Tx.forEach_cons]
      exact Tx.bind_ok.mpr ⟨(), s₁, hfirst, hrest⟩
    · rw [hframe', hframe]
    · rw [hlookup]
      show _ = applyAll (palletWrites changes)
        (Function.update (fun key => s.protocolState.lookup key) change.key _)
      congr 1
      funext key
      rw [Jam.applyChange_lookup hfirst, Function.update_apply]

/-- One change of the staged entries is one write. -/
theorem stage_eq {change : ProtocolStateChange} (hwritable : Writable change)
    (staged : StorageMap StateKey Bytes) :
    ∃ staged', MemoryProtocolState.stage staged change = some staged' ∧
      (fun key => staged'.lookup key) = Function.update (fun key => staged.lookup key) change.key
        ((Jam.writtenValue change).map BoundedVec.toList) := by
  have hinsert : ∀ value : Bytes, (fun key => (staged.insert change.key value).lookup key) =
      Function.update (fun key => staged.lookup key) change.key (some value) := by
    intro value
    funext key
    rw [StorageMap.lookup_insert_eq, Function.update_apply]
  have herase : (fun key => (staged.erase change.key).lookup key) =
      Function.update (fun key => staged.lookup key) change.key none := by
    funext key
    rw [StorageMap.lookup_erase_eq, Function.update_apply]
  unfold MemoryProtocolState.stage Jam.writtenValue
  rcases hwritable with hremove | hvalue
  · rw [hremove]
    exact ⟨_, rfl, herase⟩
  · obtain ⟨value, hvalue⟩ := Option.isSome_iff_exists.mp hvalue
    rw [hvalue]
    cases change.operation with
    | remove => exact ⟨_, rfl, herase⟩
    | upsert => exact ⟨_, rfl, hinsert value.toList⟩
    | update => exact ⟨_, rfl, hinsert value.toList⟩

/-- The adapter applies changes as a list of writes, without a panic. -/
theorem applyValidated_eq (changes : List ProtocolStateChange)
    (hwritable : ∀ change ∈ changes, Writable change) (m : MemoryProtocolState) :
    ∃ m', m.applyValidated ⟨changes⟩ = some m' ∧
      m'.value = applyAll (memoryWrites changes) m.value := by
  suffices h : ∀ staged : StorageMap StateKey Bytes, ∃ staged',
      changes.foldlM MemoryProtocolState.stage staged = some staged' ∧
      (fun key => staged'.lookup key) =
        applyAll (memoryWrites changes) fun key => staged.lookup key by
    obtain ⟨staged, hstaged, hlookup⟩ := h m.entries
    refine ⟨⟨staged⟩, ?_, hlookup⟩
    unfold MemoryProtocolState.applyValidated
    rw [hstaged]
    rfl
  induction changes with
  | nil => exact fun staged => ⟨staged, rfl, rfl⟩
  | cons change changes ih =>
    intro staged
    obtain ⟨staged₁, hfirst, hlookup₁⟩ := stage_eq (hwritable change List.mem_cons_self) staged
    obtain ⟨staged', hrest, hlookup⟩ :=
      ih (fun other hother => hwritable other (List.mem_cons_of_mem _ hother)) staged₁
    refine ⟨staged', ?_, ?_⟩
    · rw [List.foldlM_cons, hfirst]
      exact hrest
    · rw [hlookup, hlookup₁]
      rfl

/-! ### The meaning of a checked delta -/

/-- What a delta means for a map of keys to values. -/
structure Meaning (changes : List ProtocolStateChange)
    (before after : StateKey → Option StateValue) :
    Prop where
  /-- Other keys keep what they have. -/
  outside : ∀ key, (∀ change ∈ changes, change.key ≠ key) → after key = before key
  /-- An upsert finds no value, an update finds one. -/
  upserted : ∀ change ∈ changes, change.operation = .upsert → before change.key = none
  updated : ∀ change ∈ changes, change.operation = .update → (before change.key).isSome = true
  /-- Both write the value they give. -/
  written : ∀ change ∈ changes, change.operation ≠ .remove → ∃ value,
    change.value = some value ∧ after change.key = some value
  /-- A removal finds a value and leaves none. -/
  removed : ∀ change ∈ changes, change.operation = .remove →
    (before change.key).isSome = true ∧ after change.key = none

theorem meaning_of_fits (hkeys : (changes.map ProtocolStateChange.key).Nodup)
    {before : StateKey → Option StateValue}
    (hfits : ∀ change ∈ changes, Fits ((before change.key).map BoundedVec.toList) change) :
    Meaning changes before (applyAll (palletWrites changes) before) := by
  have hnodup : ((palletWrites changes).map Prod.fst).Nodup := by
    rwa [palletWrites_keys]
  -- Every key is written once, so what is written last is its only value.
  have hat : ∀ change ∈ changes,
      applyAll (palletWrites changes) before change.key = Jam.writtenValue change :=
    fun change hmem => applyAll_of_mem hnodup (List.mem_map.mpr ⟨change, hmem, rfl⟩)
  have hfit : ∀ change ∈ changes, ∀ operation, change.operation = operation →
      Fits ((before change.key).map BoundedVec.toList) { change with operation := operation } := by
    intro change hmem operation hop
    subst hop
    exact hfits change hmem
  refine ⟨?_, ?_, ?_, ?_, ?_⟩
  · intro key hother
    refine applyAll_of_notMem fun hmem => ?_
    obtain ⟨write, hwrite, rfl⟩ := List.mem_map.mp hmem
    obtain ⟨change, hchange, rfl⟩ := List.mem_map.mp hwrite
    exact hother change hchange rfl
  · intro change hmem hop
    exact Option.map_eq_none_iff.mp (hfit change hmem _ hop).2
  · intro change hmem hop
    have hfound := (hfit change hmem _ hop).2
    rwa [Option.isSome_map] at hfound
  · intro change hmem hop
    rcases (hfits change hmem).writable with hremove | hvalue
    · exact absurd hremove hop
    · obtain ⟨value, hvalue⟩ := Option.isSome_iff_exists.mp hvalue
      refine ⟨value, hvalue, ?_⟩
      rw [hat change hmem]
      unfold Jam.writtenValue
      cases hcase : change.operation with
      | remove => exact absurd hcase hop
      | upsert => exact hvalue
      | update => exact hvalue
  · intro change hmem hop
    have hfound := (hfit change hmem _ hop).2
    rw [Option.isSome_map] at hfound
    refine ⟨hfound, ?_⟩
    rw [hat change hmem]
    unfold Jam.writtenValue
    rw [hop]

end

/-! ### Normalised changes -/

/-- A list in key order has no two equal keys, and none out of order, side by side. -/
theorem windows2_of_sorted (hsorted : changes.Pairwise fun a b => a.key.key < b.key.key) :
    ((windows2 changes).any fun p => decide (p.1.key = p.2.key)) = false ∧
      ((windows2 changes).any fun p => decide (p.2.key.key ≤ p.1.key.key)) = false := by
  refine ⟨windows2_any_eq_false.mpr (hsorted.imp ?_).isChain,
    windows2_any_eq_false.mpr (hsorted.imp ?_).isChain⟩
  · intro a b hlt
    rw [decide_eq_false_iff_not]
    intro heq
    rw [heq] at hlt
    exact lt_irrefl _ hlt
  · intro a b hlt
    rw [decide_eq_false_iff_not]
    exact not_le.mpr hlt

/-- Changes with distinct keys are normalised to one list, which is in key order. -/
theorem normalizeChanges_eq {changes' : List ProtocolStateChange}
    (hkeys : (changes.map ProtocolStateChange.key).Nodup) (hperm : changes'.Perm changes) :
    normalizeChanges changes' = normalizeChanges changes ∧
      (normalizeChanges changes).2 = .ok () ∧
      (normalizeChanges changes).1.Pairwise fun a b => a.key.key < b.key.key := by
  have hinj : ∀ a ∈ changes, ∀ b ∈ changes, a.key.key = b.key.key → a = b := by
    intro a ha b hb heq
    exact List.inj_on_of_nodup_map hkeys ha hb (FixedBytes.key_injective heq)
  have hsorted : (sortByKey (fun change : ProtocolStateChange => change.key.key)
      changes).Pairwise fun a b => a.key.key < b.key.key := by
    refine pairwise_lt_sortByKey ?_
    have hmap := hkeys.map FixedBytes.key_injective
    rwa [List.map_map] at hmap
  refine ⟨?_, ?_, hsorted⟩
  · unfold normalizeChanges
    rw [sortByKey_eq_of_perm hperm.symm hinj]
  · unfold normalizeChanges
    dsimp only
    rw [(windows2_of_sorted hsorted).1]
    rfl

/-- The check finds nothing wrong with the keys of a list in key order. -/
theorem validateCommon_sorted (hsorted : changes.Pairwise fun a b => a.key.key < b.key.key)
    (maxGas gasUsed : UInt64) (inputHashMatches receiptMatches : Bool)
    (state : ProtocolStateReader) :
    validateCommon maxGas gasUsed inputHashMatches receiptMatches changes state ≠
        .error (.invariant .duplicateKey) ∧
      validateCommon maxGas gasUsed inputHashMatches receiptMatches changes state ≠
        .error (.invariant .unsortedChanges) := by
  -- The operations are refused with errors of another kind.
  have hchecked : ∀ e, checkOperations state changes ≠ .error (.invariant e) := by
    intro e
    clear hsorted
    induction changes with
    | nil => exact fun h => by cases h
    | cons change changes ih =>
      unfold checkOperations
      cases state change.key with
      | error e => exact fun h => by cases h
      | ok found =>
        dsimp only
        split
        · exact ih
        · exact ih
        · exact ih
        · exact fun h => by cases h
  unfold validateCommon
  rw [(windows2_of_sorted hsorted).2]
  simp only [Bool.false_eq_true, if_false]
  cases hcheck : checkOperations state changes with
  | ok u => split_ifs <;> simp
  | error e =>
    have hother : ∀ e', e ≠ .invariant e' := fun e' heq => hchecked e' (by rw [hcheck, heq])
    split_ifs <;> simp [hother]

/-! ### Both appliers and the normaliser -/

/-- The parts of the code that handle a delta agree on what it means. A delta that was checked
against the state is applied by the pallet and by the adapter without a failure, with the
same result, which is the meaning of the delta; the order of the changes does not matter.
Changes with distinct keys are normalised to one list whatever their order, and the check
accepts its keys. -/
theorem delta_semantics_agree :
    (∀ {AccountId Ledger : Type} (T : Jam.Config AccountId Ledger) (s : Jam.State T)
      (m : MemoryProtocolState) (input : MiniJamExecutionInput) (output : MiniJamExecutionOutput)
      (delta : ValidatedDelta),
      (∀ key, m.value key = (s.protocolState.lookup key).map BoundedVec.toList) →
      validateExecutionOutput T.workers.crypto input output s.protocolReader = .ok delta →
      ∃ s' m', Jam.applyDelta delta s = .ok () s' ∧ m.applyValidated delta = some m' ∧
        s' = { s with protocolState := s'.protocolState } ∧
        (∀ key, m'.value key = (s'.protocolState.lookup key).map BoundedVec.toList) ∧
        Meaning delta.changes (fun key => s.protocolState.lookup key)
          (fun key => s'.protocolState.lookup key) ∧
        ∀ changes, changes.Perm delta.changes → ∃ s'' m'',
          Jam.applyDelta ⟨changes⟩ s = .ok () s'' ∧ m.applyValidated ⟨changes⟩ = some m'' ∧
          (∀ key, s''.protocolState.lookup key = s'.protocolState.lookup key) ∧
          ∀ key, m''.value key = m'.value key) ∧
    ∀ changes : List ProtocolStateChange, (changes.map ProtocolStateChange.key).Nodup →
      ∃ sorted, (∀ changes', changes'.Perm changes → normalizeChanges changes' = (sorted, .ok ())) ∧
        ∀ maxGas gasUsed inputHashMatches receiptMatches state,
          validateCommon maxGas gasUsed inputHashMatches receiptMatches sorted state ≠
              .error (.invariant .duplicateKey) ∧
            validateCommon maxGas gasUsed inputHashMatches receiptMatches sorted state ≠
              .error (.invariant .unsortedChanges) := by
  refine ⟨?_, ?_⟩
  · intro AccountId Ledger T s m input output delta hsame hvalid
    -- A valid delta has every key once, so the order of its changes does not matter.
    have hkeys := nodup_keys (validateExecutionOutput_ok hvalid).2
    have hfits : ∀ change ∈ delta.changes,
        Fits ((s.protocolState.lookup change.key).map BoundedVec.toList) change := by
      intro change hmem
      obtain ⟨found, hfound, hfit⟩ := validateExecutionOutput_fits hvalid change hmem
      cases hfound
      exact hfit
    have hwritable : ∀ change ∈ delta.changes, Writable change :=
      fun change hmem => (hfits change hmem).writable
    obtain ⟨s', hs', hframe, hlookup⟩ := applyChanges_eq delta.changes hwritable s
    obtain ⟨m', hm', hvalue⟩ := applyValidated_eq delta.changes hwritable m
    refine ⟨s', m', hs', hm', hframe, ?_, ?_, ?_⟩
    · intro key
      have hmap : memoryWrites delta.changes =
          (palletWrites delta.changes).map fun write =>
            (write.1, write.2.map BoundedVec.toList) := by
        unfold memoryWrites palletWrites
        rw [List.map_map]
        rfl
      rw [hvalue, show m.value = _ from funext hsame, hmap, applyAll_map, ← hlookup]
    · rw [hlookup]
      exact meaning_of_fits hkeys hfits
    · intro changes hperm
      have hwritable' : ∀ change ∈ changes, Writable change :=
        fun change hmem => hwritable change (hperm.mem_iff.mp hmem)
      obtain ⟨s'', hs'', -, hlookup''⟩ := applyChanges_eq changes hwritable' s
      obtain ⟨m'', hm'', hvalue''⟩ := applyValidated_eq changes hwritable' m
      refine ⟨s'', m'', hs'', hm'', ?_, ?_⟩
      · intro key
        have hpallet : applyAll (palletWrites changes) (fun key => s.protocolState.lookup key) =
            applyAll (palletWrites delta.changes) fun key => s.protocolState.lookup key :=
          applyAll_perm (by rwa [palletWrites_keys]) (hperm.map _)
        exact congrFun (hlookup''.trans (hpallet.trans hlookup.symm)) key
      · intro key
        have hmemory : applyAll (memoryWrites changes) m.value =
            applyAll (memoryWrites delta.changes) m.value :=
          applyAll_perm (by rwa [memoryWrites_keys]) (hperm.map _)
        rw [hvalue'', hvalue, hmemory]
  · -- Sorting distinct keys gives one list, whatever the order was.
    intro changes hkeys
    obtain ⟨-, hok, hsorted⟩ := normalizeChanges_eq hkeys (List.Perm.refl changes)
    refine ⟨(normalizeChanges changes).1, ?_, ?_⟩
    · intro changes' hperm
      rw [(normalizeChanges_eq hkeys hperm).1, ← hok]
    · intro maxGas gasUsed inputHashMatches receiptMatches state
      exact validateCommon_sorted hsorted maxGas gasUsed inputHashMatches receiptMatches state

/-! ### A concrete delta -/

/-- A state key that differs from others in its last byte. -/
def sampleKey (b : UInt8) : StateKey := ⟨List.replicate 30 0 ++ [b], by simp⟩

def sampleValue (b : UInt8) : StateValue := ⟨[b], by simp⟩

/-- One change of each kind. -/
def sampleChanges : List ProtocolStateChange :=
  [⟨sampleKey 1, .upsert, some (sampleValue 7)⟩, ⟨sampleKey 2, .update, some (sampleValue 8)⟩,
    ⟨sampleKey 3, .remove, none⟩]

def sampleInput : MiniJamExecutionInput where
  protocolVersion := 1
  slot := 1
  parentHash := FixedBytes.fill 32 0
  parentStateRoot := FixedBytes.fill 32 0
  entropy := FixedBytes.fill 32 0
  reports := BoundedVec.empty
  preimages := BoundedVec.empty
  systemOps := BoundedVec.empty
  maxGas := 10

open Reference

/-- An output with these changes and the right commitments. -/
def sampleOutput : MiniJamExecutionOutput :=
  let output := { outputFor (fun _ => true) sampleInput (fun _ => .ok none) with
    orderedChanges := BoundedVec.takeFrom sampleChanges }
  { output with receiptHash := output.computeReceiptHash crypto }

/-- A state with values at the keys that are updated and removed. -/
def sampleState : Jam.State (runtime consumeAll) :=
  { Jam.State.init _ ledger with
    protocolState := ((∅ : StorageMap StateKey StateValue).insert (sampleKey 2)
      (sampleValue 5)).insert (sampleKey 3) (sampleValue 6) }

def sampleMemory : MemoryProtocolState where
  entries := ((∅ : StorageMap StateKey Bytes).insert (sampleKey 2) [5]).insert (sampleKey 3) [6]

/-- Both appliers take the three changes, also in the opposite order. -/
theorem delta_semantics_agree_sample :
    ∃ delta s' m', validateExecutionOutput crypto sampleInput sampleOutput
        sampleState.protocolReader = .ok delta ∧ delta.changes = sampleChanges ∧
      Jam.applyDelta delta sampleState = .ok () s' ∧
      sampleMemory.applyValidated delta = some m' ∧
      s'.protocolState.lookup (sampleKey 2) = some (sampleValue 8) ∧
      m'.value (sampleKey 2) = some [8] ∧
      ∃ s'', Jam.applyDelta ⟨sampleChanges.reverse⟩ sampleState = .ok () s'' ∧
        s''.protocolState.lookup (sampleKey 2) = some (sampleValue 8) := by
  have hvalid : (validateExecutionOutput crypto sampleInput sampleOutput
      sampleState.protocolReader).toOption.map ValidatedDelta.changes = some sampleChanges := by
    decide +kernel
  obtain ⟨delta, hdelta, hchanges⟩ := Option.map_eq_some_iff.mp hvalid
  have hsame : ∀ key, sampleMemory.value key =
      (sampleState.protocolState.lookup key).map BoundedVec.toList := by
    intro key
    simp only [sampleMemory, MemoryProtocolState.value, sampleState, StorageMap.lookup_insert_eq]
    split_ifs <;> rfl
  obtain ⟨s', m', hs', hm', -, hagree, hmeaning, horder⟩ := delta_semantics_agree.1 _ sampleState
    sampleMemory sampleInput sampleOutput delta hsame (Except.eq_ok_of_toOption hdelta)
  obtain ⟨s'', m'', hs'', -, hlookup, -⟩ := horder sampleChanges.reverse
    (by rw [hchanges]; exact List.reverse_perm _)
  obtain ⟨value, hvalue, hwritten⟩ := hmeaning.written
    ⟨sampleKey 2, .update, some (sampleValue 8)⟩ (by rw [hchanges]; simp [sampleChanges])
      (by decide)
  cases hvalue
  refine ⟨delta, s', m', Except.eq_ok_of_toOption hdelta, hchanges, hs', hm', hwritten, ?_, s'',
    hs'', (hlookup _).trans hwritten⟩
  rw [hagree, hwritten]
  rfl

end MiniJam
