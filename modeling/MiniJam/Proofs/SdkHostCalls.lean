import MiniJam.Sdk.HostBridge

/-!
# `MiniJam.Proofs.SdkHostCalls`: what a host call does

One lemma for each call that the SDK makes: the two ends agree on where the arguments are. The
registers a call leaves are of no interest, so the lemmas speak of the answer, the memory and
the host.
-/

set_option autoImplicit false

namespace MiniJam.Sdk

variable {η : Type} {host : Host η} {vm : Vm η} {ptr : UInt64} {bytes : Bytes}
  {memory : ByteMemory (2 ^ 32)}

/-- A pointer to a range that is there is not cut. -/
theorem address_of_add_le {n : Nat} (h : ptr.toNat + n ≤ 2 ^ 32) (hn : 0 < n) :
    address ptr = ptr.toNat := Nat.mod_eq_of_lt (by omega)

variable {m : ByteMemory (2 ^ 32)} {key : Bytes}

/-- A range that can be read by its pointer can be read by its address. -/
theorem read_address {n : Nat} (h : m.read ptr.toNat n = some bytes) :
    m.read (address ptr) n = some bytes := by
  cases n with
  | zero => exact h
  | succ n =>
    have hreadable := ByteMemory.Readable.of_read h
    rwa [address_of_add_le (hreadable.add_le (Nat.succ_pos n)) (Nat.succ_pos n)]

/-- A range that can be written by its pointer can be written by its address. -/
theorem write_address (h : m.Writable ptr.toNat bytes.length) :
    ∃ m', m.write (address ptr) bytes = some m' ∧ m'.writable = m.writable ∧
      m'.read ptr.toNat bytes.length = some bytes ∧
      ∀ x, x < ptr.toNat ∨ ptr.toNat + bytes.length ≤ x → m'.load x = m.load x := by
  by_cases hnone : bytes = []
  · subst hnone
    obtain ⟨m', hwrite, hload⟩ := m.write_nil (a := address ptr)
    exact ⟨m', hwrite, ByteMemory.writable_of_write hwrite, rfl, fun x _ => hload x⟩
  · have hlength := List.length_pos_iff.mpr hnone
    rw [address_of_add_le (h.add_le hlength) hlength]
    have hwrite := ByteMemory.write_of_writable h
    exact ⟨_, hwrite, rfl, ByteMemory.read_of_write hwrite, fun x hx =>
      ByteMemory.load_of_write_outside hwrite hx⟩

/-! ### The bridge -/

/-- Memory that can be read is read. -/
theorem readBytes_of_read {n : Nat} (h : vm.memory.read (address ptr) n = some bytes) :
    readBytes ptr n vm = .ok bytes vm := by
  unfold readBytes
  rw [Tx.read_bind_apply, h]
  rfl

theorem writeBytes_of_write (h : vm.memory.write (address ptr) bytes = some memory) :
    writeBytes ptr bytes vm = .ok () { vm with memory := memory } := by
  unfold writeBytes
  rw [Tx.read_bind_apply, h, Tx.expect_some_bind_apply]
  rfl

/-- A call goes through the bridge, and its answer is in `a0`. -/
theorem hostCall6_of_ecalli {call : MiniJamHostCall} {a0 a1 a2 a3 a4 a5 : UInt64} {vm' : Vm η}
    (h : ecalli host call.id (vm.withArgs a0 a1 a2 a3 a4 a5) = .ok () vm') :
    hostCall6 host call.id a0 a1 a2 a3 a4 a5 vm = .ok (vm'.registers 7) vm' := by
  unfold hostCall6
  rw [MiniJamHostCall.tryFrom_id]
  dsimp only
  rw [Tx.modify_bind_apply, Tx.bind_apply_of_ok h]
  rfl

theorem ecalli_id (call : MiniJamHostCall) : ecalli host call.id vm = serve host vm call vm := by
  unfold ecalli
  rw [Tx.read_bind_apply, MiniJamHostCall.tryFrom_id, Tx.expect_some_bind_apply]

/-- The length of what the host has is not the answer for nothing. -/
theorem ofNat_ne_hostNone {n : Nat} (h : n < 2 ^ 64 - 1) : UInt64.ofNat n ≠ hostNone := by
  intro hnone
  have hvalue := congrArg UInt64.toNat hnone
  rw [UInt64.toNat_ofNat_of_lt' (by simp only [UInt64.size]; omega),
    show hostNone.toNat = 2 ^ 64 - 1 by decide] at hvalue
  omega

/-- `FETCH` of an item that is not there. -/
theorem ecalli_fetch_none
    (h : host.fetch vm.host (vm.registers 10) (vm.registers 11).toNat = none) :
    ecalli host MiniJamHostCall.fetch.id vm = .ok () (vm.setA0 hostNone) := by
  rw [ecalli_id]
  unfold serve
  dsimp only
  rw [h]
  rfl

/-- `FETCH` of an item: a part of it is copied, and its whole length is the answer. -/
theorem ecalli_fetch_some {item : Bytes}
    (h : host.fetch vm.host (vm.registers 10) (vm.registers 11).toNat = some item)
    (hwrite : vm.memory.write (address (vm.registers 7))
      ((item.drop (vm.registers 8).toNat).take (vm.registers 9).toNat) = some memory) :
    ecalli host MiniJamHostCall.fetch.id vm =
      .ok () ({ vm with memory := memory }.setA0 (UInt64.ofNat item.length)) := by
  rw [ecalli_id]
  unfold serve
  dsimp only
  rw [h]
  dsimp only
  rw [Tx.bind_apply_of_ok (writeBytes_of_write hwrite)]
  rfl

/-- `READ` of a key that has no value. -/
theorem ecalli_read_none
    (hkey : vm.memory.read (address (vm.registers 8)) (vm.registers 9).toNat = some key)
    (h : host.storageRead vm.host key = none) :
    ecalli host MiniJamHostCall.read.id vm = .ok () (vm.setA0 hostNone) := by
  rw [ecalli_id]
  unfold serve
  dsimp only
  rw [Tx.bind_apply_of_ok (readBytes_of_read hkey), h]
  rfl

/-- `READ` of a value: its start is copied, and its whole length is the answer. -/
theorem ecalli_read_some {value : Bytes}
    (hkey : vm.memory.read (address (vm.registers 8)) (vm.registers 9).toNat = some key)
    (h : host.storageRead vm.host key = some value)
    (hwrite : vm.memory.write (address (vm.registers 10)) (value.take (vm.registers 12).toNat) =
      some memory) :
    ecalli host MiniJamHostCall.read.id vm =
      .ok () ({ vm with memory := memory }.setA0 (UInt64.ofNat value.length)) := by
  rw [ecalli_id]
  unfold serve
  dsimp only
  rw [Tx.bind_apply_of_ok (readBytes_of_read hkey), h]
  dsimp only
  rw [Tx.bind_apply_of_ok (writeBytes_of_write hwrite)]
  rfl

/-- What `WRITE` does to the host: no value deletes the key. -/
def Host.store (host : Host η) (key value : Bytes) (state : η) : η :=
  if value = [] then host.storageDelete key state else host.storageWrite key value state

theorem ecalli_write {value : Bytes}
    (hkey : vm.memory.read (address (vm.registers 7)) (vm.registers 8).toNat = some key)
    (hvalue : vm.memory.read (address (vm.registers 9)) (vm.registers 10).toNat = some value) :
    ecalli host MiniJamHostCall.write.id vm =
      .ok () ({ vm with host := host.store key value vm.host }.setA0 0) := by
  rw [ecalli_id]
  unfold serve Host.store
  dsimp only
  rw [Tx.bind_apply_of_ok (readBytes_of_read hkey),
    Tx.bind_apply_of_ok (readBytes_of_read hvalue)]
  split_ifs <;> rfl

/-! ### The calls of the SDK -/

theorem hostCall6_fetch_none (ptr offset capacity a5 : UInt64) {mode index : UInt64}
    (h : host.fetch vm.host mode index.toNat = none) :
    ∃ vm', hostCall6 host MiniJamHostCall.fetch.id ptr offset capacity mode index a5 vm =
        .ok hostNone vm' ∧ vm'.memory = vm.memory :=
  ⟨_, hostCall6_of_ecalli (ecalli_fetch_none h), rfl⟩

/-- What `FETCH` copies. -/
def fetched (item : Bytes) (offset capacity : UInt64) : Bytes :=
  (item.drop offset.toNat).take capacity.toNat

theorem hostCall6_fetch_some (offset a5 : UInt64) {capacity mode index : UInt64} {item : Bytes}
    (h : host.fetch vm.host mode index.toNat = some item)
    (hroom : vm.memory.Writable ptr.toNat capacity.toNat) :
    ∃ vm', hostCall6 host MiniJamHostCall.fetch.id ptr offset capacity mode index a5 vm =
        .ok (UInt64.ofNat item.length) vm' ∧ vm'.host = vm.host ∧
      vm'.memory.writable = vm.memory.writable ∧
      vm'.memory.read ptr.toNat (fetched item offset capacity).length =
        some (fetched item offset capacity) ∧
      ∀ x, x < ptr.toNat ∨ ptr.toNat + capacity.toNat ≤ x →
        vm'.memory.load x = vm.memory.load x := by
  have hlength : (fetched item offset capacity).length ≤ capacity.toNat :=
    List.length_take_le _ _
  obtain ⟨memory, hwrite, hwritable, hread, houtside⟩ := write_address (hroom.mono hlength)
  refine ⟨_, hostCall6_of_ecalli (ecalli_fetch_some h hwrite), rfl, hwritable, hread, ?_⟩
  exact fun x hx => houtside x (by omega)

section
variable {key keySize : UInt64} {k v : Bytes}

theorem hostCall6_read_none (output capacity : UInt64)
    (hkey : vm.memory.read key.toNat keySize.toNat = some k)
    (h : host.storageRead vm.host k = none) :
    ∃ vm', hostCall6 host MiniJamHostCall.read.id hostNone key keySize output 0 capacity vm =
        .ok hostNone vm' ∧ vm'.host = vm.host :=
  ⟨_, hostCall6_of_ecalli (ecalli_read_none (read_address hkey) h), rfl⟩

theorem hostCall6_read_some {output capacity : UInt64}
    (hkey : vm.memory.read key.toNat keySize.toNat = some k)
    (h : host.storageRead vm.host k = some v)
    (hroom : vm.memory.Writable output.toNat capacity.toNat) :
    ∃ vm', hostCall6 host MiniJamHostCall.read.id hostNone key keySize output 0 capacity vm =
        .ok (UInt64.ofNat v.length) vm' ∧ vm'.host = vm.host ∧
      vm'.memory.read output.toNat (v.take capacity.toNat).length =
        some (v.take capacity.toNat) := by
  have hlength : (v.take capacity.toNat).length ≤ capacity.toNat := List.length_take_le _ _
  obtain ⟨memory, hwrite, -, hread, -⟩ := write_address (hroom.mono hlength)
  exact ⟨_, hostCall6_of_ecalli (ecalli_read_some (read_address hkey) h hwrite), rfl, hread⟩

theorem hostCall6_write (host : Host η) {value valueSize : UInt64} (a4 a5 : UInt64)
    (hkey : vm.memory.read key.toNat keySize.toNat = some k)
    (hvalue : vm.memory.read value.toNat valueSize.toNat = some v) :
    ∃ vm', hostCall6 host MiniJamHostCall.write.id key keySize value valueSize a4 a5 vm =
        .ok 0 vm' ∧ vm'.host = host.store k v vm.host :=
  ⟨_, hostCall6_of_ecalli (ecalli_write (read_address hkey) (read_address hvalue)), rfl⟩

end

end MiniJam.Sdk
