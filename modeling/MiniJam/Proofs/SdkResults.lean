import MiniJam.Proofs.SdkHostCalls
import MiniJam.Proofs.SdkNaturals

/-!
# `MiniJam.Proofs.SdkResults`: the SDK reads the result of a work

`minijam_result` fetches the start of an operand into an array of 160 bytes on its stack, reads
the header there, which is 131 to 146 bytes long, and then fetches the payload into the buffer of
its caller.

For an operand of the right form the caller gets the payload, or its size if the buffer is too
small. For any other item the function stays inside of its array, where the host has written, and
inside of the buffer (`minijam_result_exact`). The array starts without content in the model, so a
read that the host did not write for would end the run.
-/

set_option autoImplicit false

namespace MiniJam.Sdk

open Scale JamNatural

variable {load : Nat → Option UInt8} {size offset available : Nat}

/-! ### Reads inside of the array -/

theorem readLow_exists {rounds i : Nat} {low : UInt64}
    (hload : ∀ j < rounds, (load (offset + i + j)).isSome = true) :
    ∃ result, readLow load offset rounds i low = some result := by
  induction rounds generalizing i low with
  | zero => exact ⟨low, rfl⟩
  | succ rounds ih =>
    obtain ⟨b, hb⟩ := Option.isSome_iff_exists.mp (hload 0 (Nat.succ_pos rounds))
    rw [Nat.add_zero] at hb
    rw [readLow, hb]
    refine ih fun j hj => ?_
    have hnext := hload (j + 1) (by omega)
    rwa [show offset + i + (j + 1) = offset + (i + 1) + j by omega] at hnext

/-- The number is read inside of the array. -/
theorem decodeFnencode_exists (hload : ∀ i < size, (load i).isSome = true) (offset : Nat) :
    ∃ result, decodeFnencode load size offset = some result := by
  by_cases hoffset : offset < size
  · obtain ⟨first, hfirst⟩ := Option.isSome_iff_exists.mp (hload offset hoffset)
    rw [decodeFnencode_first hoffset hfirst]
    split_ifs with hsmall hlength
    · exact ⟨_, rfl⟩
    · exact ⟨_, rfl⟩
    · have hrest : ∀ j < leadingOnes first 8 0, (load (offset + 1 + 0 + j)).isSome = true :=
        fun j hj => hload _ (by omega)
      obtain ⟨low, hlow⟩ : ∃ low, readLow load (offset + 1) (leadingOnes first 8 0) 0 0 =
        some low := readLow_exists hrest
      rw [hlow]
      exact ⟨_, rfl⟩
  · exact ⟨_, if_pos (Nat.not_lt.mp hoffset)⟩

/-- So is the whole header, whatever the item is. -/
theorem parseHeader_exists (hload : ∀ i < available, (load i).isSome = true) :
    ∃ header, parseHeader load available = some header := by
  unfold parseHeader
  dsimp only
  split_ifs with hshort
  · exact ⟨_, rfl⟩
  · obtain ⟨⟨offset, gas⟩, hgas⟩ := decodeFnencode_exists hload (1 + 4 * 32)
    rw [hgas]
    simp only [Option.bind_eq_bind, Option.bind_some]
    split_ifs with hnone hend
    · exact ⟨_, rfl⟩
    · exact ⟨_, rfl⟩
    · obtain ⟨kind, hkind⟩ := Option.isSome_iff_exists.mp (hload offset (Nat.not_le.mp hend))
      rw [hkind, Option.bind_some]
      split_ifs with hother
      · exact ⟨_, rfl⟩
      · obtain ⟨payload, hpayload⟩ := decodeFnencode_exists hload (offset + 1)
        rw [hpayload]
        exact ⟨_, rfl⟩

/-! ### Operands -/

/-- An operand of an accumulation with the output of a work. -/
structure Operand where
  tag : UInt8
  hashes : FixedBytes 128
  gas : Nat
  payload : Bytes
  gas_lt : gas < 2 ^ 56
  payload_lt : payload.length < 2 ^ 56

namespace Operand

variable (o : Operand)

/-- The operand up to its payload. -/
def header : Bytes :=
  o.tag :: o.hashes.toList ++ (JamNatural.encode o.gas ++ (0 :: JamNatural.encode o.payload.length))

def encode : Bytes := o.header ++ o.payload

theorem length_header : o.header.length =
    130 + (JamNatural.encode o.gas).length + (JamNatural.encode o.payload.length).length := by
  simp [header]
  omega

/-- The array on the stack has room for the header. -/
theorem length_header_le : o.header.length ≤ headerCapacity := by
  have hgas := (width_lt_iff o.gas).mpr o.gas_lt
  have hpayload := (width_lt_iff o.payload.length).mpr o.payload_lt
  rw [length_header, length_encode, length_encode, headerCapacity]
  omega

theorem length_encode_lt : o.encode.length < 2 ^ 64 - 1 := by
  have hheader := o.length_header_le
  have hpayload := o.payload_lt
  rw [encode, List.length_append]
  unfold headerCapacity at hheader
  omega

end Operand

/-- The header of an operand is read in full. -/
theorem parseHeader_operand (o : Operand)
    (hload : ∀ i < o.header.length, load i = o.header[i]?)
    (havailable : o.header.length ≤ available) :
    parseHeader load available =
      some (some (UInt64.ofNat o.payload.length, o.header.length)) := by
  have hlength := o.length_header
  have hfront : (o.tag :: o.hashes.toList).length = 129 := by simp
  -- The two numbers and the byte between them, at their places.
  have hgas : ∀ i < (encode o.gas).length, load (129 + i) = (encode o.gas)[i]? := by
    intro i hi
    rw [hload (129 + i) (by omega), Operand.header, List.getElem?_append_right (by omega), hfront,
      Nat.add_sub_cancel_left, List.getElem?_append_left hi]
  have hafter : ∀ i, (encode o.gas).length ≤ i → 129 + i < o.header.length →
      load (129 + i) = (0 :: encode o.payload.length)[i - (encode o.gas).length]? := by
    intro i hi hlt
    rw [hload (129 + i) hlt, Operand.header, List.getElem?_append_right (by omega), hfront,
      Nat.add_sub_cancel_left, List.getElem?_append_right hi]
  have hkind : load (129 + (encode o.gas).length) = some 0 := by
    rw [hafter _ (Nat.le_refl _) (by omega), Nat.sub_self]
    rfl
  have hpayload : ∀ i < (encode o.payload.length).length,
      load (129 + (encode o.gas).length + 1 + i) = (encode o.payload.length)[i]? := by
    intro i hi
    have hbyte := hafter ((encode o.gas).length + 1 + i) (by omega) (by omega)
    rw [show (encode o.gas).length + 1 + i - (encode o.gas).length = i + 1 by omega,
      List.getElem?_cons_succ] at hbyte
    rw [← hbyte]
    congr 1
    omega
  unfold parseHeader
  dsimp only
  rw [if_neg (by omega), decodeFnencode_encode o.gas_lt hgas (by omega)]
  simp only [Option.bind_eq_bind, Option.bind_some]
  rw [if_neg (by simp), if_neg (by omega), hkind, Option.bind_some, if_neg (by simp),
    decodeFnencode_encode o.payload_lt hpayload (by omega), hlength]
  simp only [Option.bind_some, Option.map_some]
  congr 3
  omega

/-! ### The function -/

section
variable {η : Type} {host : Host η} {vm vm₁ : Vm η} {stack index output capacity : UInt64}

/-- The machine with the array on the stack, before anything is in it. -/
def entered (vm : Vm η) (stack : UInt64) : Vm η :=
  { vm with memory := vm.memory.forget stack.toNat headerCapacity }

variable {itemSize : UInt64}

theorem minijamResult_of_none
    (hfetch : hostCall6 host MiniJamHostCall.fetch.id stack 0 (UInt64.ofNat headerCapacity)
      fetchOperand index 0 (entered vm stack) = .ok itemSize vm₁) (hsize : itemSize = hostNone) :
    minijamResult host stack index output capacity vm = .ok (.notFound, none) vm₁ := by
  unfold minijamResult
  rw [Tx.modify_bind_apply]
  unfold entered at hfetch
  rw [Tx.bind_apply_of_ok hfetch, if_pos hsize]
  rfl

theorem minijamResult_of_header {header : Option (UInt64 × Nat)}
    (hfetch : hostCall6 host MiniJamHostCall.fetch.id stack 0 (UInt64.ofNat headerCapacity)
      fetchOperand index 0 (entered vm stack) = .ok itemSize vm₁) (hsize : itemSize ≠ hostNone)
    (hheader : parseHeader (fun i => vm₁.memory.load (stack.toNat + i))
      (min itemSize.toNat headerCapacity) = some header) :
    minijamResult host stack index output capacity vm =
      resultPayload host index output capacity itemSize header vm₁ := by
  unfold minijamResult
  rw [Tx.modify_bind_apply]
  unfold entered at hfetch
  rw [Tx.bind_apply_of_ok hfetch, if_neg hsize, Tx.read_bind_apply, hheader,
    Tx.expect_some_bind_apply]

/-- The first fetch: the start of the item is in the array, and nothing else has changed. -/
theorem fetch_header {item : Bytes}
    (hitem : host.fetch vm.host fetchOperand index.toNat = some item)
    (hstack : vm.memory.Writable stack.toNat headerCapacity) :
    ∃ vm₁, hostCall6 host MiniJamHostCall.fetch.id stack 0 (UInt64.ofNat headerCapacity)
        fetchOperand index 0 (entered vm stack) = .ok (UInt64.ofNat item.length) vm₁ ∧
      vm₁.host = vm.host ∧ vm₁.memory.writable = vm.memory.writable ∧
      (∀ i < min item.length headerCapacity, vm₁.memory.load (stack.toNat + i) = item[i]?) ∧
      ∀ x, x < stack.toNat ∨ stack.toNat + headerCapacity ≤ x →
        vm₁.memory.load x = vm.memory.load x := by
  have hcapacity : (UInt64.ofNat headerCapacity).toNat = headerCapacity := by decide
  have hitem : host.fetch (entered vm stack).host fetchOperand index.toNat = some item := hitem
  have hroom : (entered vm stack).memory.Writable stack.toNat
      (UInt64.ofNat headerCapacity).toNat := by
    rw [hcapacity]
    exact hstack
  obtain ⟨vm₁, hcall, hhost, hwritable, hread, houtside⟩ :=
    hostCall6_fetch_some 0 0 hitem hroom
  have hcopy : fetched item 0 (UInt64.ofNat headerCapacity) = item.take headerCapacity := by
    unfold fetched
    rw [hcapacity]
    rfl
  rw [hcopy] at hread
  refine ⟨vm₁, hcall, hhost, hwritable, fun i hi => ?_, fun x hx => ?_⟩
  · have hload := ByteMemory.load_of_read hread (show i < (item.take headerCapacity).length by
      rw [List.length_take]
      omega)
    rw [hload, List.getElem?_take_of_lt (by omega)]
  · rw [houtside x (by rw [hcapacity]; exact hx)]
    exact ByteMemory.load_forget_outside hx

/-- The rest of the function writes inside of the buffer, whatever the header says. -/
theorem resultPayload_returns {item : Bytes} (itemSize : UInt64)
    (hitem : host.fetch vm.host fetchOperand index.toNat = some item)
    (houtput : vm.memory.Writable output.toNat capacity.toNat) (header : Option (UInt64 × Nat)) :
    ∃ reply vm', resultPayload host index output capacity itemSize header vm = .ok reply vm' ∧
      ∀ x, x < output.toNat ∨ output.toNat + capacity.toNat ≤ x →
        vm'.memory.load x = vm.memory.load x := by
  cases header with
  | none => exact ⟨_, _, rfl, fun _ _ => rfl⟩
  | some found =>
    obtain ⟨payloadSize, offset⟩ := found
    unfold resultPayload
    dsimp only
    split_ifs with hlarge
    · exact ⟨_, _, rfl, fun _ _ => rfl⟩
    · have hfits : payloadSize.toNat ≤ capacity.toNat :=
        UInt64.le_iff_toNat_le.mp (UInt64.not_lt.mp hlarge)
      obtain ⟨vm', hcall, -, -, -, houtside⟩ := hostCall6_fetch_some
        (UInt64.ofNat offset) 0 hitem (houtput.mono hfits)
      rw [Tx.bind_apply_of_ok hcall]
      exact ⟨_, vm', rfl, fun x hx => houtside x (by omega)⟩

/-- The payload of an operand is copied into a buffer that has room for it. -/
theorem resultPayload_operand (o : Operand)
    (hitem : host.fetch vm.host fetchOperand index.toNat = some o.encode)
    (houtput : vm.memory.Writable output.toNat capacity.toNat) :
    ∃ vm', resultPayload host index output capacity (UInt64.ofNat o.encode.length)
        (some (UInt64.ofNat o.payload.length, o.header.length)) vm =
        .ok (if o.payload.length ≤ capacity.toNat then .ok else .bufferTooSmall,
          some (UInt64.ofNat o.payload.length)) vm' ∧
      (o.payload.length ≤ capacity.toNat →
        vm'.memory.read output.toNat o.payload.length = some o.payload) := by
  have hsize : (UInt64.ofNat o.payload.length).toNat = o.payload.length :=
    UInt64.toNat_ofNat_of_lt' (Nat.lt_trans o.payload_lt (by decide))
  have hlarge : UInt64.ofNat o.payload.length > capacity ↔ ¬ o.payload.length ≤ capacity.toNat := by
    rw [gt_iff_lt, UInt64.lt_iff_toNat_lt, hsize, Nat.not_le]
  unfold resultPayload
  dsimp only
  by_cases hfits : o.payload.length ≤ capacity.toNat
  · rw [if_neg (mt hlarge.mp (not_not.mpr hfits)), if_pos hfits]
    have hroom : vm.memory.Writable output.toNat (UInt64.ofNat o.payload.length).toNat := by
      rw [hsize]
      exact houtput.mono hfits
    obtain ⟨vm', hcall, -, -, hread, -⟩ := hostCall6_fetch_some
      (UInt64.ofNat o.header.length) 0 hitem hroom
    have hoffset : (UInt64.ofNat o.header.length).toNat = o.header.length :=
      UInt64.toNat_ofNat_of_lt' (Nat.lt_of_le_of_lt o.length_header_le (by decide))
    have hcopy : fetched o.encode (UInt64.ofNat o.header.length)
        (UInt64.ofNat o.payload.length) = o.payload := by
      unfold fetched
      rw [hoffset, hsize, Operand.encode, List.drop_left, List.take_length]
    rw [hcopy] at hread
    rw [Tx.bind_apply_of_ok hcall, if_pos rfl]
    exact ⟨vm', rfl, fun _ => hread⟩
  · rw [if_pos (hlarge.mpr hfits), if_neg hfits]
    exact ⟨vm, rfl, fun h => absurd h hfits⟩

/-- The SDK gives the payload of every operand, or its size when the buffer is too small. And
for every item it ends: all its reads are of bytes that the host wrote, and outside of its array
and of the buffer it leaves the memory as it was. -/
theorem minijam_result_exact (host : Host η) (vm : Vm η) (stack index output capacity : UInt64)
    (hstack : vm.memory.Writable stack.toNat headerCapacity)
    (houtput : vm.memory.Writable output.toNat capacity.toNat) :
    (∀ o : Operand, host.fetch vm.host fetchOperand index.toNat = some o.encode →
      ∃ vm', minijamResult host stack index output capacity vm =
          .ok (if o.payload.length ≤ capacity.toNat then .ok else .bufferTooSmall,
            some (UInt64.ofNat o.payload.length)) vm' ∧
        (o.payload.length ≤ capacity.toNat →
          vm'.memory.read output.toNat o.payload.length = some o.payload)) ∧
    ∃ reply vm', minijamResult host stack index output capacity vm = .ok reply vm' ∧
      ∀ x, x < stack.toNat ∨ stack.toNat + headerCapacity ≤ x →
        x < output.toNat ∨ output.toNat + capacity.toNat ≤ x →
          vm'.memory.load x = vm.memory.load x := by
  constructor
  · intro o hitem
    obtain ⟨vm₁, hfetch, hhost, hwritable, hload, -⟩ := fetch_header hitem hstack
    have hlength := o.length_encode_lt
    have hsize : (UInt64.ofNat o.encode.length).toNat = o.encode.length :=
      UInt64.toNat_ofNat_of_lt' (Nat.lt_trans hlength (by decide))
    have hsome : UInt64.ofNat o.encode.length ≠ hostNone := ofNat_ne_hostNone (by omega)
    have hcovers : o.header.length ≤ o.encode.length := by
      rw [Operand.encode, List.length_append]
      omega
    -- The array has room for the header, so the parser sees all of it.
    have hroom := o.length_header_le
    have hbytes : ∀ i < o.header.length, vm₁.memory.load (stack.toNat + i) = o.header[i]? := by
      intro i hi
      rw [hload i (by omega), Operand.encode, List.getElem?_append_left hi]
    have hheader : parseHeader (fun i => vm₁.memory.load (stack.toNat + i))
        (min (UInt64.ofNat o.encode.length).toNat headerCapacity) =
          some (some (UInt64.ofNat o.payload.length, o.header.length)) :=
      parseHeader_operand o hbytes (by omega)
    rw [minijamResult_of_header hfetch hsome hheader]
    exact resultPayload_operand o (hhost ▸ hitem) (houtput.of_eq hwritable)
  · cases hitem : host.fetch vm.host fetchOperand index.toNat with
    | none =>
      have hnone : host.fetch (entered vm stack).host fetchOperand index.toNat = none := hitem
      obtain ⟨vm₁, hfetch, hmemory⟩ :=
        hostCall6_fetch_none stack 0 (UInt64.ofNat headerCapacity) 0 hnone
      refine ⟨_, vm₁, minijamResult_of_none hfetch rfl, fun x hx _ => ?_⟩
      rw [hmemory]
      exact ByteMemory.load_forget_outside hx
    | some item =>
      obtain ⟨vm₁, hfetch, hhost, hwritable, hload, houtside⟩ := fetch_header hitem hstack
      by_cases hsize : UInt64.ofNat item.length = hostNone
      · exact ⟨_, vm₁, minijamResult_of_none hfetch hsize, fun x hx _ => houtside x hx⟩
      · -- The host has written as much of the array as the code takes to be there.
        have hle : (UInt64.ofNat item.length).toNat ≤ item.length := by
          rw [UInt64.toNat_ofNat']
          exact Nat.mod_le _ _
        have hthere : ∀ i < min (UInt64.ofNat item.length).toNat headerCapacity,
            (vm₁.memory.load (stack.toNat + i)).isSome = true := by
          intro i hi
          rw [hload i (by omega), List.getElem?_eq_getElem (by omega)]
          rfl
        obtain ⟨header, hheader⟩ := parseHeader_exists hthere
        rw [minijamResult_of_header hfetch hsize hheader]
        obtain ⟨reply, vm', hreturns, hframe⟩ := resultPayload_returns
          (UInt64.ofNat item.length) (hhost ▸ hitem) (houtput.of_eq hwritable) header
        exact ⟨reply, vm', hreturns, fun x hx hx' => (hframe x hx').trans (houtside x hx)⟩

end

/-! ### An operand -/

/-- A machine whose memory is writable, with nothing in it. -/
def blankVm : Vm Unit where
  registers _ := 0
  memory :=
    { load := fun _ => none
      writable := fun a => decide (a < 2 ^ 32)
      load_lt := fun _ h => absurd rfl h
      writable_lt := fun _ h => of_decide_eq_true h }
  gas := 0
  host := ()

/-- A host with one operand and no storage. -/
def operandHost (item : Bytes) : Host Unit where
  fetch _ mode index := if mode = fetchOperand ∧ index = 0 then some item else none
  storageRead _ _ := none
  storageWrite _ _ _ := ()
  storageDelete _ _ := ()
  yieldValue _ _ := ()
  networkDomain _ := FixedBytes.fill 32 0
  log _ _ := ()

/-- An operand with three bytes of payload. -/
def smallOperand : Operand where
  tag := 0
  hashes := FixedBytes.fill 128 7
  gas := 300
  payload := [1, 2, 3]
  gas_lt := by decide
  payload_lt := by decide

/-- Three bytes, read with a buffer that has room for them and with one that has not. -/
theorem minijam_result_exact_small :
    blankVm.memory.Writable 4096 headerCapacity ∧ blankVm.memory.Writable 8192 8 ∧
    (∃ vm', minijamResult (operandHost smallOperand.encode) 4096 0 8192 8 blankVm =
        .ok (.ok, some 3) vm' ∧ vm'.memory.read 8192 3 = some [1, 2, 3]) ∧
    ∃ vm', minijamResult (operandHost smallOperand.encode) 4096 0 8192 2 blankVm =
        .ok (.bufferTooSmall, some 3) vm' := by
  have hwritable : ∀ a n, a + n ≤ 2 ^ 32 → blankVm.memory.Writable a n := fun a n h i hi =>
    decide_eq_true (by omega)
  have hstack := hwritable 4096 headerCapacity (by decide)
  have hbuffer := hwritable 8192 8 (by decide)
  refine ⟨hstack, hbuffer, ?_, ?_⟩
  · obtain ⟨vm', hrun, hread⟩ := (minijam_result_exact (operandHost smallOperand.encode) blankVm
      4096 0 8192 8 hstack hbuffer).1 smallOperand rfl
    exact ⟨vm', hrun, hread (by decide)⟩
  · obtain ⟨vm', hrun, -⟩ := (minijam_result_exact (operandHost smallOperand.encode) blankVm
      4096 0 8192 2 hstack (hwritable 8192 2 (by decide))).1 smallOperand rfl
    exact ⟨vm', hrun⟩

end MiniJam.Sdk
