import MiniJam.Lib.Framing
import MiniJam.Protocol.Executor

/-!
# `MiniJam.Proofs.Commitments`: what the two execution hashes commit to

The bytes under the input hash and under the receipt hash are read back, field by field.
Each field is self-delimiting: the integers and the hashes have one length, the byte strings
carry theirs, and the lists carry the number of their entries. The field bounds of the
protocol types keep every length below `2 ^ 32`, so that its four bytes are exact.
-/

set_option autoImplicit false

namespace MiniJam

open Scale Framing

/-! ### Fields -/

variable {n : Nat} {α : Type} {enc : α → Bytes}

/-- Little-endian numbers that fit their width can be read again. -/
theorem leBytes_append_inj {width m : Nat} {r s : Bytes} (hm : m < 256 ^ width)
    (hn : n < 256 ^ width) (heq : leBytes width m ++ r = leBytes width n ++ s) : m = n ∧ r = s := by
  obtain ⟨hfield, hrest⟩ := List.append_inj heq (by simp)
  have hvalue := congrArg leVal hfield
  rw [leVal_leBytes, leVal_leBytes, Nat.mod_eq_of_lt hm, Nat.mod_eq_of_lt hn] at hvalue
  exact ⟨hvalue, hrest⟩

/-- A count below 2 ^ 32 is read back from its encoding. -/
theorem lenPrefix_readable : ReadableUpTo lenPrefix (2 ^ 32 - 1) := by
  intro m n r s hm hn heq
  exact leBytes_append_inj (by omega) (by omega) heq

/-- Bytes of a fixed number end where they end. -/
theorem fixedBytes_selfDelimiting (n : Nat) :
    SelfDelimiting fun v : FixedBytes n => v.toList :=
  .of_length n (fun v => v.toList_length) List.Vector.toList_injective

theorem encodeU16_selfDelimiting : SelfDelimiting encodeU16 := by
  intro a b r s heq
  obtain ⟨hvalue, hrest⟩ := leBytes_append_inj a.toNat_lt b.toNat_lt heq
  exact ⟨UInt16.toNat_inj.mp hvalue, hrest⟩

theorem encodeU32_selfDelimiting : SelfDelimiting encodeU32 := by
  intro a b r s heq
  obtain ⟨hvalue, hrest⟩ := leBytes_append_inj a.toNat_lt b.toNat_lt heq
  exact ⟨UInt32.toNat_inj.mp hvalue, hrest⟩

theorem encodeU64_selfDelimiting : SelfDelimiting encodeU64 :=
  .of_length 8 length_encodeU64 encodeU64_injective

/-- A byte string of a protocol type behind its length. -/
theorem lenPrefixed_selfDelimiting (hn : n < 2 ^ 32) :
    SelfDelimiting fun v : BoundedVec UInt8 n => lenPrefix v.toList.length ++ v.toList :=
  framed (lenPrefix_readable.mono (by omega)) (fun v => v.length_le) Subtype.val_injective

/-- A list of a protocol type behind the number of its entries. -/
theorem counted_selfDelimiting (hn : n < 2 ^ 32) (henc : SelfDelimiting enc) :
    SelfDelimiting fun v : BoundedVec α n => lenPrefix v.toList.length ++ v.toList.flatMap enc :=
  counted (lenPrefix_readable.mono (by omega)) henc

/-! ### System operations -/

/-- The variant of a command is told by its first byte. -/
theorem encode_command_selfDelimiting : SelfDelimiting SystemCommandV2.encode := by
  intro a b r s heq
  cases a with
  | createService codeHash codeLen minItemGas minMemoGas =>
    cases b with
    | createService codeHash' codeLen' minItemGas' minMemoGas' =>
      simp only [SystemCommandV2.encode, List.append_assoc] at heq
      obtain ⟨hcode, heq⟩ := fixedBytes_selfDelimiting 32 _ _ _ _ (List.append_cancel_left heq)
      obtain ⟨hlen, heq⟩ := encodeU32_selfDelimiting _ _ _ _ heq
      obtain ⟨hitem, heq⟩ := encodeU64_selfDelimiting _ _ _ _ heq
      obtain ⟨hmemo, hrest⟩ := encodeU64_selfDelimiting _ _ _ _ heq
      exact ⟨by rw [hcode, hlen, hitem, hmemo], hrest⟩
    | applyAllocation _ _ _ =>
      -- The tags differ.
      have htag := congrArg List.head? heq
      cases htag
  | applyAllocation allocationId targetService amount =>
    cases b with
    | createService _ _ _ _ =>
      have htag := congrArg List.head? heq
      cases htag
    | applyAllocation allocationId' targetService' amount' =>
      simp only [SystemCommandV2.encode, List.append_assoc] at heq
      obtain ⟨hid, heq⟩ := encodeU64_selfDelimiting _ _ _ _ (List.append_cancel_left heq)
      obtain ⟨htarget, heq⟩ := encodeU32_selfDelimiting _ _ _ _ heq
      obtain ⟨hamount, hrest⟩ := encodeU64_selfDelimiting _ _ _ _ heq
      exact ⟨by rw [hid, htarget, hamount], hrest⟩

/-- An operation is read back without its length. -/
theorem encode_op_selfDelimiting : SelfDelimiting SystemOpV2.encode := by
  rintro ⟨id, submitter, nonce, command⟩ ⟨id', submitter', nonce', command'⟩ r s heq
  simp only [SystemOpV2.encode, List.append_assoc] at heq
  obtain ⟨rfl, heq₁⟩ := fixedBytes_selfDelimiting 32 _ _ _ _ heq
  obtain ⟨rfl, heq₂⟩ := fixedBytes_selfDelimiting 32 _ _ _ _ heq₁
  obtain ⟨rfl, heq₃⟩ := encodeU64_selfDelimiting _ _ _ _ heq₂
  obtain ⟨rfl, hrest⟩ := encode_command_selfDelimiting _ _ _ _ heq₃
  exact ⟨rfl, hrest⟩

theorem length_encode_op_le (op : SystemOpV2) : op.encode.length ≤ 125 := by
  have hcommand : op.command.encode.length ≤ 53 := by
    cases op.command with
    | createService => simp [SystemCommandV2.encode, encodeU8]
    | applyAllocation => simp [SystemCommandV2.encode, encodeU8]
  simp only [SystemOpV2.encode, List.length_append, List.Vector.toList_length, length_encodeU64]
  omega

theorem framed_op_selfDelimiting :
    SelfDelimiting fun op : SystemOpV2 => lenPrefix op.encode.length ++ op.encode :=
  framed (lenPrefix_readable.mono (by omega)) length_encode_op_le encode_op_selfDelimiting.injective

/-! ### State changes -/

/-- One entry of the list of changes, as it is appended. -/
def changeBytes (change : ProtocolStateChange) : Bytes := appendStateChange [] change

theorem appendStateChange_eq (out : Bytes) (change : ProtocolStateChange) :
    appendStateChange out change = out ++ changeBytes change := by
  unfold changeBytes appendStateChange appendLenPrefixedBytes
  cases change.value with
  | none => simp
  | some value => simp

/-- The operation and the value of a change, as they follow its key. -/
theorem changeBytes_eq (change : ProtocolStateChange) :
    ∃ operation : UInt8, (operation = 0 ↔ change.operation = .upsert) ∧
      (operation = 1 ↔ change.operation = .update) ∧
      changeBytes change = change.key.toList ++ operation ::
        (change.value.elim [0] fun value =>
          1 :: (lenPrefix value.toList.length ++ value.toList)) := by
  unfold changeBytes appendStateChange appendLenPrefixedBytes
  cases change.operation <;> cases change.value <;> simp

theorem changeBytes_selfDelimiting : SelfDelimiting changeBytes := by
  intro a b r s heq
  obtain ⟨operation, hupsert, hupdate, ha⟩ := changeBytes_eq a
  obtain ⟨operation', hupsert', hupdate', hb⟩ := changeBytes_eq b
  rw [ha, hb, List.append_assoc, List.append_assoc] at heq
  obtain ⟨hkey, hbody⟩ := fixedBytes_selfDelimiting 31 _ _ _ _ heq
  obtain ⟨rfl, hvalues⟩ := List.cons.inj hbody
  have hoperation : a.operation = b.operation := by
    cases hopa : a.operation <;> cases hopb : b.operation <;> simp_all
  -- The byte in front of the value tells whether there is one.
  obtain ⟨hvalue, hrest⟩ : a.value = b.value ∧ r = s := by
    cases hva : a.value with
    | none =>
      cases hvb : b.value with
      | none =>
        rw [hva, hvb] at hvalues
        exact ⟨rfl, List.append_cancel_left hvalues⟩
      | some value =>
        rw [hva, hvb] at hvalues
        cases (List.cons.inj hvalues).1
    | some value =>
      cases hvb : b.value with
      | none =>
        rw [hva, hvb] at hvalues
        cases (List.cons.inj hvalues).1
      | some value' =>
        rw [hva, hvb] at hvalues
        obtain ⟨hsame, hrest⟩ := lenPrefixed_selfDelimiting (by decide) value value' r s
          (List.cons.inj hvalues).2
        exact ⟨by rw [hsame], hrest⟩
  refine ⟨?_, hrest⟩
  cases a
  cases b
  simp only at hkey hoperation hvalue
  rw [hkey, hoperation, hvalue]

/-! ### The two payloads -/

theorem appendHashes_eq (out : Bytes) (hashes : List Hash) :
    appendHashes out hashes =
      out ++ (lenPrefix hashes.length ++ hashes.flatMap fun hash => hash.toList) := by
  unfold appendHashes
  rw [List.foldl_append_eq_append, List.flatMap_def, List.append_assoc]

theorem appendStateChanges_eq (out : Bytes) (changes : List ProtocolStateChange) :
    appendStateChanges out changes =
      out ++ (lenPrefix changes.length ++ changes.flatMap changeBytes) := by
  have hstep : appendStateChange = fun out change => out ++ changeBytes change := by
    funext out change
    exact appendStateChange_eq out change
  unfold appendStateChanges
  rw [hstep, List.foldl_append_eq_append, List.flatMap_def, List.append_assoc]

/-- A list of length-prefixed byte strings, as the loop appends it. -/
theorem foldl_appendLenPrefixedBytes (bytes : α → Bytes) (out : Bytes) (l : List α) :
    l.foldl (fun out a => appendLenPrefixedBytes out (bytes a)) out =
      out ++ l.flatMap fun a => lenPrefix (bytes a).length ++ bytes a := by
  have hstep : (fun out a => appendLenPrefixedBytes out (bytes a)) =
      fun out a => out ++ (lenPrefix (bytes a).length ++ bytes a) := by
    funext out a
    exact List.append_assoc ..
  rw [hstep, List.foldl_append_eq_append, List.flatMap_def]

/-- A counted list, read off the front of the rest. -/
theorem counted_append_inj (hn : n < 2 ^ 32) (henc : SelfDelimiting enc) {a b : BoundedVec α n}
    {r s : Bytes}
    (heq : lenPrefix a.toList.length ++ (a.toList.flatMap enc ++ r) =
      lenPrefix b.toList.length ++ (b.toList.flatMap enc ++ s)) : a = b ∧ r = s := by
  rw [← List.append_assoc, ← List.append_assoc] at heq
  exact counted_selfDelimiting hn henc a b r s heq

theorem inputPayload_injective : Function.Injective MiniJamExecutionInput.inputPayload := by
  intro a b h
  unfold MiniJamExecutionInput.inputPayload at h
  simp only [foldl_appendLenPrefixedBytes, List.append_assoc] at h
  obtain ⟨hversion, h⟩ := encodeU16_selfDelimiting _ _ _ _ (List.append_cancel_left h)
  obtain ⟨hslot, h⟩ := encodeU32_selfDelimiting _ _ _ _ h
  obtain ⟨hparent, h⟩ := fixedBytes_selfDelimiting 32 _ _ _ _ h
  obtain ⟨hroot, h⟩ := fixedBytes_selfDelimiting 32 _ _ _ _ h
  obtain ⟨hentropy, h⟩ := fixedBytes_selfDelimiting 32 _ _ _ _ h
  obtain ⟨hreports, h⟩ := counted_append_inj (by decide)
    (lenPrefixed_selfDelimiting (by decide)) h
  obtain ⟨hpreimages, h⟩ := counted_append_inj (by decide)
    (lenPrefixed_selfDelimiting (by decide)) h
  obtain ⟨hops, h⟩ := counted_append_inj (by decide) framed_op_selfDelimiting h
  have hgas := encodeU64_injective h
  cases a
  cases b
  simp only at *
  rw [hversion, hslot, hparent, hroot, hentropy, hreports, hpreimages, hops, hgas]

/-- The bytes under a receipt hash are those of the other fields. -/
theorem receiptPayload_inj {a b : MiniJamExecutionOutput}
    (h : a.receiptPayload = b.receiptPayload) :
    { a with receiptHash := b.receiptHash } = b := by
  unfold MiniJamExecutionOutput.receiptPayload at h
  simp only [appendHashes_eq, appendStateChanges_eq, List.append_assoc] at h
  obtain ⟨hinput, h⟩ := fixedBytes_selfDelimiting 32 _ _ _ _ (List.append_cancel_left h)
  obtain ⟨hchanges, h⟩ := counted_append_inj (by decide) changeBytes_selfDelimiting h
  obtain ⟨hreports, h⟩ := counted_append_inj (by decide) (fixedBytes_selfDelimiting 32) h
  obtain ⟨hpreimages, h⟩ := counted_append_inj (by decide) (fixedBytes_selfDelimiting 32) h
  obtain ⟨hops, h⟩ := counted_append_inj (by decide) (fixedBytes_selfDelimiting 32) h
  obtain ⟨hheader, h⟩ := fixedBytes_selfDelimiting 32 _ _ _ _ h
  obtain ⟨hroot, h⟩ := fixedBytes_selfDelimiting 32 _ _ _ _ h
  have hgas := encodeU64_injective h
  cases a
  cases b
  simp only at *
  rw [hinput, hchanges, hreports, hpreimages, hops, hheader, hroot, hgas]

/-- The two execution hashes commit to everything. The bytes under the input hash determine
the input, and the bytes under the receipt hash determine the output up to the field that
holds the hash. -/
theorem execution_commitments_bind :
    (∀ a b : MiniJamExecutionInput, a.inputPayload = b.inputPayload → a = b) ∧
    ∀ a b : MiniJamExecutionOutput, a.receiptPayload = b.receiptPayload →
      a.orderedChanges = b.orderedChanges ∧ a.consumedReports = b.consumedReports ∧
      a.consumedPreimages = b.consumedPreimages ∧ a.consumedSystemOps = b.consumedSystemOps ∧
      a.inputHash = b.inputHash ∧ a.headerHash = b.headerHash ∧
      a.accumulateRoot = b.accumulateRoot ∧ a.gasUsed = b.gasUsed := by
  refine ⟨fun a b h => inputPayload_injective h, fun a b h => ?_⟩
  rw [← receiptPayload_inj h]
  exact ⟨rfl, rfl, rfl, rfl, rfl, rfl, rfl, rfl⟩

end MiniJam
