import MiniJam.Proofs.SdkResults

/-!
# `MiniJam.Proofs.SdkStorage`: the storage of a service is a map

A service writes, deletes and reads its storage through the SDK, the host call and the bridge.
Between two calls it runs code of its own, which may do anything to the memory of the machine
but not to the host. If the host keeps a map, the service sees a map: a read gives what was
last written (`storage_is_map`). A value without bytes is not kept.
-/

set_option autoImplicit false

namespace MiniJam.Sdk

variable {η : Type}

/-! ### Requests -/

inductive StorageCall where
  | write (key keySize value valueSize : UInt64)
  | delete (key keySize : UInt64)
  | read (key keySize output capacity : UInt64)

/-- The status, and the out-parameter of a read. -/
abbrev Reply : Type := Status × Option UInt64

def StorageCall.run (host : Host η) : StorageCall → M η Reply
  | write key keySize value valueSize => do
    let status ← minijamStorageWrite host key keySize value valueSize
    pure (status, none)
  | delete key keySize => do
    let status ← minijamStorageDelete host key keySize
    pure (status, none)
  | read key keySize output capacity => minijamStorageRead host key keySize output capacity

/-- A call, with the machine as the service has left it. -/
structure Request where
  registers : Nat → UInt64
  memory : ByteMemory (2 ^ 32)
  gas : Int
  call : StorageCall

namespace Request

/-- The machine at the call. -/
def vm (r : Request) (state : η) : Vm η where
  registers := r.registers
  memory := r.memory
  gas := r.gas
  host := state

/-- The bytes a pointer and a size stand for. -/
def bytes (r : Request) (ptr size : UInt64) : Bytes := (r.memory.read ptr.toNat size.toNat).getD []

/-- The ranges that the call names are there. -/
def Accessible (r : Request) : Prop :=
  match r.call with
  | .write key keySize value valueSize =>
    r.memory.Readable key.toNat keySize.toNat ∧ r.memory.Readable value.toNat valueSize.toNat
  | .delete key keySize => r.memory.Readable key.toNat keySize.toNat
  | .read key keySize output capacity =>
    r.memory.Readable key.toNat keySize.toNat ∧ r.memory.Writable output.toNat capacity.toNat

/-- The key that the call sets, with its value. A deletion sets no bytes. -/
def sets (r : Request) : Option (Bytes × Bytes) :=
  match r.call with
  | .write key keySize value valueSize => some (r.bytes key keySize, r.bytes value valueSize)
  | .delete key keySize => some (r.bytes key keySize, [])
  | .read _ _ _ _ => none

end Request

/-- The host after all requests, the newest first. `none` if the machine panics. -/
def serveAll (host : Host η) (start : η) : List Request → Option η
  | [] => some start
  | r :: earlier => do
    let state ← serveAll host start earlier
    let (_, vm) ← (r.call.run host (r.vm state)).returned
    some vm.host

/-- The value that a key was last set to, among requests with the newest first. -/
def lastValue (k : Bytes) : List Request → Option Bytes
  | [] => none
  | r :: earlier =>
    match r.sets with
    | none => lastValue k earlier
    | some (key, value) =>
      if key = k then (if value = [] then none else some value) else lastValue k earlier

/-- The three functions of the host are those of a map. -/
structure Host.IsMap (host : Host η) : Prop where
  read_write : ∀ state key value k, host.storageRead (host.storageWrite key value state) k =
    if key = k then some value else host.storageRead state k
  read_delete : ∀ state key k, host.storageRead (host.storageDelete key state) k =
    if key = k then none else host.storageRead state k

/-- What a read of a key returns and leaves in the buffer, given the value of the key. -/
def ReadAnswered (output capacity : UInt64) (reply : Reply) (vm : Vm η) : Option Bytes → Prop
  | none => reply = (.notFound, none)
  | some v =>
    reply.1 = (if v.length ≤ capacity.toNat then .ok else .bufferTooSmall) ∧
    reply.2.map UInt64.toNat = some v.length ∧
    vm.memory.read output.toNat (min v.length capacity.toNat) = some (v.take capacity.toNat)

/-- What a write or a deletion returns and leaves. -/
def SetAnswered (host : Host η) (state : η) (key : Bytes) (reply : Reply) (vm : Vm η) : Prop :=
  reply = (.ok, none) ∧ ∀ k, k ≠ key → host.storageRead vm.host k = host.storageRead state k

/-- What a call after some requests returns and does. -/
def Answered (host : Host η) (requests : List Request) (state : η) (r : Request) (reply : Reply)
    (vm : Vm η) : Prop :=
  match r.call with
  | .write key keySize _ _ => SetAnswered host state (r.bytes key keySize) reply vm
  | .delete key keySize => SetAnswered host state (r.bytes key keySize) reply vm
  | .read key keySize output capacity =>
    ReadAnswered output capacity reply vm (lastValue (r.bytes key keySize) requests)

/-! ### One request -/

section
variable {host : Host η} {state : η} {requests : List Request} {r : Request}

theorem Request.read_bytes {ptr size : UInt64} (h : r.memory.Readable ptr.toNat size.toNat) :
    r.memory.read ptr.toNat size.toNat = some (r.bytes ptr size) := by
  obtain ⟨bytes, hbytes⟩ := h.exists_read
  rw [Request.bytes, hbytes, Option.getD_some]

/-- What is read from the memory is not longer than the memory. -/
theorem Request.length_bytes_le {ptr size : UInt64}
    (h : r.memory.Readable ptr.toNat size.toNat) : (r.bytes ptr size).length ≤ 2 ^ 32 := by
  rw [ByteMemory.length_of_read (Request.read_bytes h)]
  by_cases hsize : size.toNat = 0
  · omega
  · have := h.add_le (Nat.pos_of_ne_zero hsize)
    omega

/-- What the host has after a key was set. -/
theorem Host.IsMap.read_store (hmap : host.IsMap) (state : η) (key value k : Bytes) :
    host.storageRead (host.store key value state) k =
      if key = k then (if value = [] then none else some value) else host.storageRead state k := by
  unfold Host.store
  split_ifs with hnone hkey hkey
  · rw [hmap.read_delete, if_pos hkey]
  · rw [hmap.read_delete, if_neg hkey]
  · rw [hmap.read_write, if_pos hkey]
  · rw [hmap.read_write, if_neg hkey]

variable {key keySize : UInt64}

/-- A write and a deletion set a key. -/
theorem minijamStorageWrite_ok (host : Host η) (state : η) {value valueSize : UInt64}
    (hkey : r.memory.Readable key.toNat keySize.toNat)
    (hvalue : r.memory.Readable value.toNat valueSize.toNat) :
    ∃ vm, minijamStorageWrite host key keySize value valueSize (r.vm state) = .ok .ok vm ∧
      vm.host = host.store (r.bytes key keySize) (r.bytes value valueSize) state := by
  have hkey : (r.vm state).memory.read key.toNat keySize.toNat = _ := Request.read_bytes hkey
  have hvalue : (r.vm state).memory.read value.toNat valueSize.toNat = _ :=
    Request.read_bytes hvalue
  obtain ⟨vm, hcall, hhost⟩ := hostCall6_write host 0 0 hkey hvalue
  refine ⟨vm, ?_, hhost⟩
  unfold minijamStorageWrite
  rw [Tx.bind_apply_of_ok hcall, if_neg (by decide)]
  rfl

/-- The state of the host is the map that the requests so far lead to. -/
structure Holds (host : Host η) (requests : List Request) (state : η) : Prop where
  read_eq : ∀ k, host.storageRead state k = lastValue k requests
  length_le : ∀ k v, lastValue k requests = some v → v.length ≤ 2 ^ 32

/-- One more key is set. -/
theorem Holds.set (hholds : Holds host requests state) (hmap : host.IsMap) {key value : Bytes}
    {state' : η} (hsets : r.sets = some (key, value)) (hlength : value.length ≤ 2 ^ 32)
    (hstate : state' = host.store key value state) : Holds host (r :: requests) state' := by
  have hlast : ∀ k, lastValue k (r :: requests) =
      if key = k then (if value = [] then none else some value) else lastValue k requests := by
    intro k
    rw [lastValue, hsets]
  constructor
  · intro k
    rw [hstate, hmap.read_store, hlast, hholds.read_eq]
  · intro k v hv
    rw [hlast] at hv
    split_ifs at hv
    · cases hv
      exact hlength
    · exact hholds.length_le k v hv

theorem minijamStorageRead_none (output capacity : UInt64)
    (hkey : r.memory.Readable key.toNat keySize.toNat)
    (h : host.storageRead state (r.bytes key keySize) = none) :
    ∃ vm, minijamStorageRead host key keySize output capacity (r.vm state) =
      .ok (.notFound, none) vm ∧ vm.host = state := by
  have hbytes : (r.vm state).memory.read key.toNat keySize.toNat = _ := Request.read_bytes hkey
  have hnone : host.storageRead (r.vm state).host (r.bytes key keySize) = none := h
  obtain ⟨vm, hcall, hhost⟩ := hostCall6_read_none output capacity hbytes hnone
  refine ⟨vm, ?_, hhost⟩
  unfold minijamStorageRead
  rw [Tx.bind_apply_of_ok hcall, if_pos rfl]
  rfl

theorem minijamStorageRead_some {output capacity : UInt64} {v : Bytes}
    (hkey : r.memory.Readable key.toNat keySize.toNat)
    (hroom : r.memory.Writable output.toNat capacity.toNat) (hlength : v.length ≤ 2 ^ 32)
    (h : host.storageRead state (r.bytes key keySize) = some v) :
    ∃ vm, minijamStorageRead host key keySize output capacity (r.vm state) =
        .ok (if v.length ≤ capacity.toNat then .ok else .bufferTooSmall,
          some (UInt64.ofNat v.length)) vm ∧ vm.host = state ∧
      vm.memory.read output.toNat (min v.length capacity.toNat) = some (v.take capacity.toNat) := by
  have hbytes : (r.vm state).memory.read key.toNat keySize.toNat = _ := Request.read_bytes hkey
  have hsome : host.storageRead (r.vm state).host (r.bytes key keySize) = some v := h
  have hroom' : (r.vm state).memory.Writable output.toNat capacity.toNat := hroom
  obtain ⟨vm, hcall, hhost, hread⟩ := hostCall6_read_some hbytes hsome hroom'
  have hsize : (UInt64.ofNat v.length).toNat = v.length :=
    UInt64.toNat_ofNat_of_lt' (Nat.lt_of_le_of_lt hlength (by decide))
  have hne : UInt64.ofNat v.length ≠ hostNone := ofNat_ne_hostNone (by omega)
  have hlarge : UInt64.ofNat v.length > capacity ↔ ¬ v.length ≤ capacity.toNat := by
    rw [gt_iff_lt, UInt64.lt_iff_toNat_lt, hsize, Nat.not_le]
  refine ⟨vm, ?_, hhost, ?_⟩
  · unfold minijamStorageRead
    rw [Tx.bind_apply_of_ok hcall, if_neg hne]
    simp only [hlarge, ite_not]
    rfl
  · rwa [List.length_take, Nat.min_comm] at hread

/-- One more request. -/
theorem Holds.step (hholds : Holds host requests state) (hmap : host.IsMap)
    (hr : r.Accessible) :
    ∃ reply vm, r.call.run host (r.vm state) = .ok reply vm ∧
      Answered host requests state r reply vm ∧ Holds host (r :: requests) vm.host := by
  unfold Request.Accessible at hr
  unfold Answered
  cases hcall : r.call with
  | write key keySize value valueSize =>
    rw [hcall] at hr
    obtain ⟨vm, hrun, hhost⟩ := minijamStorageWrite_ok host state hr.1 hr.2
    have hsets : r.sets = some (r.bytes key keySize, r.bytes value valueSize) := by
      rw [Request.sets, hcall]
    refine ⟨(.ok, none), vm, ?_, ⟨rfl, fun k hk => ?_⟩,
      hholds.set hmap hsets (Request.length_bytes_le hr.2) hhost⟩
    · exact Tx.bind_apply_of_ok hrun _
    · rw [hhost, hmap.read_store, if_neg (Ne.symm hk)]
  | delete key keySize =>
    rw [hcall] at hr
    -- A delete is a write of no bytes, which are readable at any address.
    have hzero : r.memory.Readable (0 : UInt64).toNat (0 : UInt64).toNat := fun i hi =>
      absurd hi (Nat.not_lt_zero i)
    obtain ⟨vm, hrun, hhost⟩ := minijamStorageWrite_ok host state hr hzero
    have hsets : r.sets = some (r.bytes key keySize, r.bytes 0 0) := by
      rw [Request.sets, hcall]
      rfl
    refine ⟨(.ok, none), vm, ?_, ⟨rfl, fun k hk => ?_⟩,
      hholds.set hmap hsets (Request.length_bytes_le hzero) hhost⟩
    · exact Tx.bind_apply_of_ok hrun _
    · rw [hhost, hmap.read_store, if_neg (Ne.symm hk)]
  | read key keySize output capacity =>
    rw [hcall] at hr
    have hsets : r.sets = none := by rw [Request.sets, hcall]
    have hkept : Holds host (r :: requests) state := by
      have hlast : ∀ k, lastValue k (r :: requests) = lastValue k requests := fun k => by
        rw [lastValue, hsets]
      exact ⟨fun k => (hholds.read_eq k).trans (hlast k).symm,
        fun k v hv => hholds.length_le k v ((hlast k).symm.trans hv)⟩
    have hread := hholds.read_eq (r.bytes key keySize)
    dsimp only
    cases hvalue : lastValue (r.bytes key keySize) requests with
    | none =>
      obtain ⟨vm, hrun, hhost⟩ := minijamStorageRead_none output capacity hr.1
        (hread.trans hvalue)
      rw [← hhost] at hkept
      exact ⟨_, vm, hrun, rfl, hkept⟩
    | some v =>
      have hlength := hholds.length_le _ v hvalue
      obtain ⟨vm, hrun, hhost, hbytes⟩ :=
        minijamStorageRead_some hr.1 hr.2 hlength (hread.trans hvalue)
      rw [← hhost] at hkept
      refine ⟨_, vm, hrun, ⟨rfl, ?_, hbytes⟩, hkept⟩
      rw [Option.map_some, UInt64.toNat_ofNat_of_lt' (Nat.lt_of_le_of_lt hlength (by decide))]

/-! ### Every sequence of requests -/

theorem holds_of_serveAll (hmap : host.IsMap) {start : η}
    (hempty : ∀ k, host.storageRead start k = none) (hall : ∀ r ∈ requests, r.Accessible) :
    ∃ state, serveAll host start requests = some state ∧ Holds host requests state := by
  induction requests with
  | nil => exact ⟨start, rfl, hempty, fun k v hv => by cases hv⟩
  | cons r earlier ih =>
    obtain ⟨hr, hearlier⟩ := List.forall_mem_cons.mp hall
    obtain ⟨state, hserve, hholds⟩ := ih hearlier
    obtain ⟨reply, vm, hrun, -, hnext⟩ := hholds.step hmap hr
    refine ⟨vm.host, ?_, hnext⟩
    rw [serveAll, hserve, Option.bind_eq_bind, Option.bind_some, hrun]
    rfl

/-- For a host that keeps a map and starts with an empty one: after any requests, with the
newest first, every further request returns. A write and a deletion return `OK` and leave all
other keys. A read gives `NOT_FOUND` if the key was never set, or last deleted or set to no
bytes, and otherwise the last value, as far as the buffer has room for it, and its size. -/
theorem storage_is_map (host : Host η) (hmap : host.IsMap) (start : η)
    (hempty : ∀ k, host.storageRead start k = none) (requests : List Request)
    (hall : ∀ r ∈ requests, r.Accessible) :
    ∃ state, serveAll host start requests = some state ∧ ∀ r : Request, r.Accessible →
      ∃ reply vm, r.call.run host (r.vm state) = .ok reply vm ∧
        Answered host requests state r reply vm := by
  obtain ⟨state, hserve, hholds⟩ := holds_of_serveAll hmap hempty hall
  refine ⟨state, hserve, fun r hr => ?_⟩
  obtain ⟨reply, vm, hrun, hanswered, -⟩ := hholds.step hmap hr
  exact ⟨reply, vm, hrun, hanswered⟩

end

/-! ### A map -/

/-- A host that keeps a function. -/
def mapHost : Host (Bytes → Option Bytes) where
  fetch _ _ _ := none
  storageRead state key := state key
  storageWrite key value state := Function.update state key (some value)
  storageDelete key state := Function.update state key none
  yieldValue _ state := state
  networkDomain _ := FixedBytes.fill 32 0
  log _ state := state

theorem mapHost_isMap : mapHost.IsMap := by
  constructor
  · intro state key value k
    by_cases hk : key = k
    · subst hk
      simp [mapHost]
    · simp [mapHost, hk, Function.update_of_ne (Ne.symm hk)]
  · intro state key k
    by_cases hk : key = k
    · subst hk
      simp [mapHost]
    · simp [mapHost, hk, Function.update_of_ne (Ne.symm hk)]

/-- A request on a memory with its addresses as bytes. -/
def plainRequest (call : StorageCall) : Request where
  registers _ := 0
  memory :=
    { blankVm.memory with
      load := fun a => if a < 2 ^ 32 then some (UInt8.ofNat a) else none
      load_lt := fun a h => by
        by_contra hlarge
        exact h (if_neg hlarge) }
  gas := 0
  call := call

/-- The bytes 5, 6 and 7 are written under the key 1, and read with a buffer of two bytes. -/
theorem storage_is_map_short_buffer :
    (plainRequest (.write 1 1 5 3)).Accessible ∧ (plainRequest (.read 1 1 64 2)).Accessible ∧
    ∃ state, serveAll mapHost (fun _ => none) [plainRequest (.write 1 1 5 3)] = some state ∧
      ∃ reply vm, (StorageCall.read 1 1 64 2).run mapHost
          ((plainRequest (.read 1 1 64 2)).vm state) = .ok reply vm ∧
        reply.1 = .bufferTooSmall ∧ reply.2.map UInt64.toNat = some 3 ∧
        vm.memory.read 64 2 = some [5, 6] := by
  have hwrite : (plainRequest (.write 1 1 5 3)).Accessible := by
    refine ⟨?_, ?_⟩ <;> decide
  have hread : (plainRequest (.read 1 1 64 2)).Accessible := by
    refine ⟨?_, ?_⟩ <;> decide
  obtain ⟨state, hserve, hnext⟩ := storage_is_map mapHost mapHost_isMap (fun _ => none)
    (fun _ => rfl) [plainRequest (.write 1 1 5 3)] (by simpa using hwrite)
  obtain ⟨reply, vm, hrun, hanswered⟩ := hnext (plainRequest (.read 1 1 64 2)) hread
  exact ⟨hwrite, hread, state, hserve, reply, vm, hrun, hanswered⟩

end MiniJam.Sdk
