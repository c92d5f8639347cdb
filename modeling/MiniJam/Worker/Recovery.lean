import MiniJam.Worker.Bundle

/-!
# `MiniJam.Worker.Recovery`: the statuses a worker keeps across restarts

`WorkerRecoveryDb` of `crates/minijam-worker/src/lib.rs` writes the status of every task to a
file and reads the file again after a restart. A rejection is written as the debug text of its
error. The file is a list of entries here: writing and reading the text of the file itself is
taken to be faithful.

Debug texts are those of the derived `Debug` instances. Which characters the standard library
escapes by their number is decided by its Unicode tables, the parameter `escaped`.
-/

set_option autoImplicit false

namespace MiniJam

/-! ### Debug texts -/

section
variable (escaped : Char → Bool)

/-- `char::escape_debug`, as it is used within a string: a single quote stays. -/
def debugChar (c : Char) : List Char :=
  if c = Char.ofNat 0 then ['\\', '0']
  else if c = '\t' then ['\\', 't']
  else if c = '\r' then ['\\', 'r']
  else if c = '\n' then ['\\', 'n']
  else if c = '"' ∨ c = '\\' then ['\\', c]
  else if escaped c = true then ['\\', 'u', '\x7b'] ++ Nat.toDigits 16 c.toNat ++ ['\x7d']
  else [c]

def debugStr (s : String) : String :=
  "\"" ++ String.ofList (s.toList.flatMap (debugChar escaped)) ++ "\""

/-- A variant with one field. -/
def debugTuple (name field : String) : String := name ++ "(" ++ field ++ ")"

namespace WorkerEngine

def ContentVerificationError.debug : ContentVerificationError → String
  | .emptyCid => "EmptyCid"
  | .sizeLimitExceeded => "SizeLimitExceeded"
  | .sizeMismatch => "SizeMismatch"
  | .hashMismatch => "HashMismatch"

def WorkBundleDecodeError.debug : WorkBundleDecodeError → String
  | .invalidEncoding => "InvalidEncoding"
  | .trailingBytes => "TrailingBytes"
  | .unsupportedVersion => "UnsupportedVersion"
  | .packageHashMismatch => "PackageHashMismatch"

def WorkBundleVerificationError.debug : WorkBundleVerificationError → String
  | .content error => debugTuple "Content" error.debug
  | .decode error => debugTuple "Decode" error.debug
  | .packageHashMismatch => "PackageHashMismatch"

def FetchError.debug : FetchError → String
  | .invalidReference => "InvalidReference"
  | .notFound => "NotFound"
  | .transport message => debugTuple "Transport" (debugStr escaped message)
  | .verification error => debugTuple "Verification" error.debug

end WorkerEngine

def WorkerError.debug : WorkerError → String
  | .chain message => debugTuple "Chain" (debugStr escaped message)
  | .fetch error => debugTuple "Fetch" (error.debug escaped)
  | .bundle error => debugTuple "Bundle" error.debug
  | .refine message => debugTuple "Refine" (debugStr escaped message)
  | .signing message => debugTuple "Signing" (debugStr escaped message)

end

namespace Worker

/-! ### The file -/

inductive WorkerTaskStatus where
  | bundleReady (bundleLen : UInt64)
  | bundleRejected (reason : WorkerError)
  deriving DecidableEq

/-- The statuses by work and round. -/
abbrev Statuses : Type := StorageMap (WorkId × UInt8) WorkerTaskStatus

structure PersistedWorkerTaskStatus where
  workId : WorkId
  round : UInt8
  status : String
  bundleLen : Option UInt64
  reason : Option String

namespace PersistedWorkerTaskStatus

def fromStatus (escaped : Char → Bool) (workId : WorkId) (round : UInt8) :
    WorkerTaskStatus → PersistedWorkerTaskStatus
  | .bundleReady bundleLen => ⟨workId, round, "bundle_ready", some bundleLen, none⟩
  | .bundleRejected reason =>
    ⟨workId, round, "bundle_rejected", none, some (reason.debug escaped)⟩

def intoStatus (persisted : PersistedWorkerTaskStatus) : WorkerTaskStatus :=
  if persisted.status = "bundle_ready" then .bundleReady (persisted.bundleLen.getD 0)
  else .bundleRejected (.chain (persisted.reason.getD "persisted bundle rejection"))

end PersistedWorkerTaskStatus

structure WorkerRecoveryFile where
  tasks : List PersistedWorkerTaskStatus

/-- The keys of the map in their order. -/
def keyOrder (keys : List (WorkId × UInt8)) : List (WorkId × UInt8) :=
  keys.mergeSort fun k k' => decide (k.1 < k'.1 ∨ k.1 = k'.1 ∧ k.2 ≤ k'.2)

namespace WorkerRecoveryFile

def fromStatuses (escaped : Char → Bool) (statuses : Statuses) : WorkerRecoveryFile where
  tasks := (statuses.iter keyOrder).map fun entry =>
    .fromStatus escaped entry.1.1 entry.1.2 entry.2

def intoStatuses (file : WorkerRecoveryFile) : Statuses :=
  file.tasks.foldl (fun m status => m.insert (status.workId, status.round) status.intoStatus) ∅

end WorkerRecoveryFile

/-- What a worker reads after a restart when it had saved these statuses. -/
def restart (escaped : Char → Bool) (statuses : Statuses) : Statuses :=
  (WorkerRecoveryFile.fromStatuses escaped statuses).intoStatuses

end Worker

end MiniJam
