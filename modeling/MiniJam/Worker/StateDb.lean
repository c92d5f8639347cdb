import MiniJam.Lib.Tx
import MiniJam.Worker.Prepare
import MiniJam.Worker.Recovery

/-!
# `MiniJam.Worker.StateDb`: a database over the state of a finalized block

The refine function reads and writes a database. `ProtocolStateDb` of
`crates/minijam-worker/src/lib.rs` gives it one that reads the protocol state at a fixed block and
keeps what is written in two maps beside it: the written values and the deleted keys. Each
definition follows the method of the same name. Columns are those of the Jambda crates.

A method that fails keeps what it has written so far.
-/

set_option autoImplicit false

namespace MiniJam.Worker

inductive DataBaseError where
  | notFound
  | other (message : String)
  deriving DecidableEq

inductive StoreOp where
  | upsert
  | update
  | remove
  deriving DecidableEq

section
variable (Column : Type)

/-- A change of a batch. The key is the one that `to_db_key` returns. -/
structure StoreChange where
  col : Column
  key : Bytes
  op : StoreOp
  value : Option Bytes

structure ProtocolStateDb where
  source : ProtocolStateSource
  blockHash : Hash
  writes : StorageMap (Column × Bytes) Bytes
  deletes : StorageMap (Column × Bytes) Unit

end

namespace ProtocolStateDb

variable {Column : Type}

def new (source : ProtocolStateSource) (blockHash : Hash) : ProtocolStateDb Column where
  source := source
  blockHash := blockHash
  writes := ∅
  deletes := ∅

/-- A method that writes. -/
abbrev Method (Column : Type) : Type := Tx (ProtocolStateDb Column) DataBaseError Unit

variable [DecidableEq Column]

section
variable (escaped : Char → Bool) (colState : Column) (db : ProtocolStateDb Column)

/-- The value of the source, for a key of the state column that has the length of a state key. -/
def sourceValue (col : Column) (key : Bytes) : Except DataBaseError (Option Bytes) :=
  if h : col = colState ∧ key.length = 31 then
    (db.source.protocolStateValueAt db.blockHash ⟨key, h.2⟩).mapError fun error =>
      .other (error.debug escaped)
  else .ok none

def get (col : Column) (key : Bytes) : Except DataBaseError (Option Bytes) :=
  if db.deletes.contains (col, key) = true then .ok none
  else
    match db.writes.lookup (col, key) with
    | some value => .ok (some value)
    | none => db.sourceValue escaped colState col key

def keyMayExist (col : Column) (key : Bytes) : Bool :=
  match db.get escaped colState col key with
  | .ok value => value.isSome
  | .error _ => false

def multiGet (keys : List Bytes) (col : Column) : Except DataBaseError (List (Option Bytes)) :=
  keys.mapM fun key => db.get escaped colState col key

end

def del (col : Column) (key : Bytes) : Method Column := Tx.modify fun db =>
  { db with writes := db.writes.erase (col, key), deletes := db.deletes.insert (col, key) () }

def put (col : Column) (key value : Bytes) : Method Column := Tx.modify fun db =>
  { db with deletes := db.deletes.erase (col, key), writes := db.writes.insert (col, key) value }

def batchWrite : List (StoreChange Column) → Method Column :=
  Tx.forEach fun change =>
    match change.op with
    | .remove => del change.col change.key
    | .upsert | .update => do
      let value ← Tx.okOr change.value .notFound
      put change.col change.key value

def batchWriteCf (col : Column) : List (Bytes × Bytes) → Method Column :=
  Tx.forEach fun entry => put col entry.1 entry.2

end ProtocolStateDb

/-- A call of one of the methods that write. -/
inductive DbCall (Column : Type) where
  | put (col : Column) (key value : Bytes)
  | del (col : Column) (key : Bytes)
  | batchWrite (changes : List (StoreChange Column))
  | batchWriteCf (col : Column) (entries : List (Bytes × Bytes))

def DbCall.run {Column : Type} [DecidableEq Column] :
    DbCall Column → ProtocolStateDb.Method Column
  | .put col key value => ProtocolStateDb.put col key value
  | .del col key => ProtocolStateDb.del col key
  | .batchWrite changes => ProtocolStateDb.batchWrite changes
  | .batchWriteCf col entries => ProtocolStateDb.batchWriteCf col entries

end MiniJam.Worker
