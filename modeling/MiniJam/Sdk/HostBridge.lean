import MiniJam.Lib.ByteMemory
import MiniJam.Lib.Tx

/-!
# `MiniJam.Sdk.HostBridge`: host calls of a service

A service is a C program that runs in a virtual machine. It reaches its host by numbered calls
with six arguments in the registers `a0` to `a5`, which are the registers 7 to 12 of the
machine, and an answer in `a0`. The bridge of `crates/minijam-pvm-executor` reads the registers,
copies bytes from and to the memory of the machine and asks the host. `host.c` of the SDK is
the other end: it loads the registers and makes the call.

The host is a parameter over a state of its own, with the functions of the trait `Host`. A
computation panics where the machine does: on a number that is no call, on a call that the
bridge refuses, and on a range of the memory that is not accessible.
-/

set_option autoImplicit false

namespace MiniJam.Sdk

/-! ### The machine -/

/-- The state of the machine, with the state of the host behind it. -/
structure Vm (η : Type) where
  registers : Nat → UInt64
  memory : ByteMemory (2 ^ 32)
  gas : Int
  host : η

/-- A computation of the machine. -/
abbrev M (η α : Type) : Type := Tx (Vm η) Empty α

/-- The part of a host call's interface that a workload implements. -/
structure Host (η : Type) where
  fetch : η → (mode : UInt64) → (index : Nat) → Option Bytes
  storageRead : η → (key : Bytes) → Option Bytes
  storageWrite : (key value : Bytes) → η → η
  storageDelete : (key : Bytes) → η → η
  yieldValue : (value : Bytes) → η → η
  networkDomain : η → FixedBytes 32
  log : (message : Bytes) → η → η

/-- `HOST_NONE`, which the SDK calls `MINIJAM_HOST_NONE`. -/
def hostNone : UInt64 := 0xffffffffffffffff

inductive MiniJamHostCall where
  | gas
  | fetch
  | read
  | write
  | new
  | transfer
  | yield
  | networkDomain
  | log
  deriving DecidableEq

/-- The number of a call, the same in `host_abi.rs` and in `host.h`. -/
def MiniJamHostCall.id : MiniJamHostCall → UInt32
  | gas => 0
  | fetch => 1
  | read => 3
  | write => 4
  | new => 18
  | transfer => 20
  | yield => 25
  | networkDomain => 27
  | log => 100

def MiniJamHostCall.tryFrom (value : UInt32) : Option MiniJamHostCall :=
  match value.toNat with
  | 0 => some gas
  | 1 => some fetch
  | 3 => some read
  | 4 => some write
  | 18 => some new
  | 20 => some transfer
  | 25 => some yield
  | 27 => some networkDomain
  | 100 => some log
  | _ => none

/-- The number of a call names it. -/
theorem MiniJamHostCall.tryFrom_id (call : MiniJamHostCall) : tryFrom call.id = some call := by
  cases call <;> rfl

/-! ### The bridge -/

section
variable {η : Type}

/-- A pointer is cut to 32 bits (`as u32`). -/
def address (ptr : UInt64) : Nat := ptr.toNat % 2 ^ 32

/-- `read_bytes_into` for a buffer of `n` bytes. -/
def readBytes (ptr : UInt64) (n : Nat) : M η Bytes := do
  let vm ← Tx.read
  Tx.expect (vm.memory.read (address ptr) n)

def writeBytes (ptr : UInt64) (bytes : Bytes) : M η Unit := do
  let vm ← Tx.read
  let memory ← Tx.expect (vm.memory.write (address ptr) bytes)
  Tx.modify fun vm => { vm with memory := memory }

def Vm.setA0 (vm : Vm η) (value : UInt64) : Vm η :=
  { vm with registers := Function.update vm.registers 7 value }

def setResult (value : UInt64) : M η Unit := Tx.modify fun vm => vm.setA0 value

def onHost (f : η → η) : M η Unit := Tx.modify fun vm => { vm with host := f vm.host }

variable (host : Host η)

/-- The arms of `ecalli`, on the state at the call. -/
def serve (vm : Vm η) (call : MiniJamHostCall) : M η Unit :=
  let arg := vm.registers
  match call with
  | .gas => setResult (UInt64.ofNat vm.gas.toNat)
  | .fetch => do
    let ptr := arg 7
    let offset := (arg 8).toNat
    let capacity := (arg 9).toNat
    let mode := arg 10
    let index := (arg 11).toNat
    match host.fetch vm.host mode index with
    | none => setResult hostNone
    | some item =>
      -- An offset behind the item leaves nothing.
      let remaining := item.drop offset
      writeBytes ptr (remaining.take capacity)
      setResult (UInt64.ofNat item.length)
  | .read => do
    let keyPtr := arg 8
    let keyLen := (arg 9).toNat
    let outPtr := arg 10
    let capacity := (arg 12).toNat
    let key ← readBytes keyPtr keyLen
    match host.storageRead vm.host key with
    | none => setResult hostNone
    | some value =>
      writeBytes outPtr (value.take capacity)
      setResult (UInt64.ofNat value.length)
  | .write => do
    let keyPtr := arg 7
    let keyLen := (arg 8).toNat
    let valuePtr := arg 9
    let valueLen := (arg 10).toNat
    let key ← readBytes keyPtr keyLen
    let value ← readBytes valuePtr valueLen
    if value = [] then onHost (host.storageDelete key)
    else onHost (host.storageWrite key value)
    setResult 0
  | .yield => do
    let value ← readBytes (arg 7) 32
    onHost (host.yieldValue value)
    setResult 0
  | .networkDomain => do
    let output := arg 7
    let capacity := (arg 8).toNat
    let outputSize := arg 9
    if capacity < 32 then setResult 1
    else do
      writeBytes output (host.networkDomain vm.host).toList
      writeBytes outputSize (Scale.encodeU64 32)
      setResult 0
  | .log => do
    let message ← readBytes (arg 7) (arg 8).toNat
    onHost (host.log message)
    setResult 0
  | .new => Tx.abort
  | .transfer => Tx.abort

def ecalli (id : UInt32) : M η Unit := do
  let vm ← Tx.read
  let call ← Tx.expect (MiniJamHostCall.tryFrom id)
  serve host vm call

/-! ### The calling side -/

/-- The registers `a0` to `a5` with the arguments of a call. -/
def Vm.withArgs (vm : Vm η) (a0 a1 a2 a3 a4 a5 : UInt64) : Vm η :=
  { vm with registers := fun index =>
      match index with
      | 7 => a0
      | 8 => a1
      | 9 => a2
      | 10 => a3
      | 11 => a4
      | 12 => a5
      | index => vm.registers index }

/-- `minijam_host_call6`: a number that is no call is answered without one. -/
def hostCall6 (call : UInt32) (a0 a1 a2 a3 a4 a5 : UInt64) : M η UInt64 :=
  match MiniJamHostCall.tryFrom call with
  | none => pure 0xffffffffffffffff
  | some _ => do
    Tx.modify fun vm => vm.withArgs a0 a1 a2 a3 a4 a5
    ecalli host call
    Tx.gets fun vm => vm.registers 7

end

end MiniJam.Sdk
