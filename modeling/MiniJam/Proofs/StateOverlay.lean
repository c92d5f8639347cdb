import MiniJam.Worker.Reference
import MiniJam.Worker.StateDb

/-!
# `MiniJam.Proofs.StateOverlay`: the last write wins over the finalized state

The two maps of a `ProtocolStateDb` stand for one overlay: at a key there is a value, a deletion,
or nothing. `staged` reads it off the maps. The overlay a list of writes leads to is the abstract
side: `lastEdit` is the last write at a key. `Stages` says that a method has written a list of
edits. Every method is a loop over `put` and `del`, so `stages_forEach` carries the two base cases
to the batches and to any list of calls.
-/

set_option autoImplicit false

namespace MiniJam.Worker

open ProtocolStateDb

variable {Column : Type} [DecidableEq Column]

/-- A write at a key: the value, or none for a deletion. -/
abbrev Edit (Column : Type) : Type := (Column × Bytes) × Option Bytes

/-- The last write at a key. -/
def lastEdit (edits : List (Edit Column)) (k : Column × Bytes) : Option (Option Bytes) :=
  (edits.reverse.find? fun edit => edit.1 = k).map Prod.snd

/-- Of two lists of edits the later one counts. -/
theorem lastEdit_append (edits later : List (Edit Column)) (k : Column × Bytes) :
    lastEdit (edits ++ later) k = (lastEdit later k).or (lastEdit edits k) := by
  unfold lastEdit
  rw [List.reverse_append, List.find?_append, Option.map_or]

theorem lastEdit_singleton (k k' : Column × Bytes) (edit : Option Bytes) :
    lastEdit [(k, edit)] k' = if k' = k then some edit else none := by
  unfold lastEdit
  by_cases h : k' = k
  · simp [h]
  · simp [h, Ne.symm h]

/-- A key that is not edited. -/
theorem lastEdit_of_notMem {edits : List (Edit Column)} {k : Column × Bytes}
    (h : k ∉ edits.map Prod.fst) : lastEdit edits k = none := by
  unfold lastEdit
  rw [Option.map_eq_none_iff, List.find?_eq_none]
  intro edit hedit hk
  exact h (List.mem_map.mpr ⟨edit, List.mem_reverse.mp hedit, of_decide_eq_true hk⟩)

/-- What a change of a batch writes. -/
def StoreChange.edit (change : StoreChange Column) : Edit Column :=
  ((change.col, change.key), if change.op = .remove then none else change.value)

/-- What a call that returns writes, in order. -/
def DbCall.edits : DbCall Column → List (Edit Column)
  | .put col key value => [((col, key), some value)]
  | .del col key => [((col, key), none)]
  | .batchWrite changes => changes.map StoreChange.edit
  | .batchWriteCf col entries => entries.map fun entry => ((col, entry.1), some entry.2)

namespace ProtocolStateDb

/-- What the two maps hold at a key. -/
def staged (db : ProtocolStateDb Column) (k : Column × Bytes) : Option (Option Bytes) :=
  if db.deletes.contains k = true then some none else (db.writes.lookup k).map some

/-- No key is both written and deleted. -/
def Disjoint (db : ProtocolStateDb Column) : Prop :=
  ∀ k, ¬ (db.writes.contains k = true ∧ db.deletes.contains k = true)

/-- A read sees what is staged and then the source. -/
theorem get_eq (escaped : Char → Bool) (colState : Column) (db : ProtocolStateDb Column)
    (col : Column) (key : Bytes) :
    db.get escaped colState col key =
      (db.staged (col, key)).elim (db.sourceValue escaped colState col key) .ok := by
  unfold get staged
  split_ifs with hdeleted
  · rfl
  · cases db.writes.lookup (col, key) <;> rfl

/-- The edits were written. -/
structure Stages (edits : List (Edit Column)) (db db' : ProtocolStateDb Column) : Prop where
  source : db'.source = db.source ∧ db'.blockHash = db.blockHash
  staged : ∀ k, db'.staged k = (lastEdit edits k).or (db.staged k)
  disjoint : db.Disjoint → db'.Disjoint

theorem Stages.refl (db : ProtocolStateDb Column) : Stages [] db db :=
  ⟨⟨rfl, rfl⟩, fun _ => rfl, id⟩

variable {db db' : ProtocolStateDb Column}

theorem Stages.append {edits later : List (Edit Column)} {db₁ : ProtocolStateDb Column}
    (h : Stages edits db db₁) (hlater : Stages later db₁ db') : Stages (edits ++ later) db db' where
  source := ⟨hlater.source.1.trans h.source.1, hlater.source.2.trans h.source.2⟩
  staged k := by rw [hlater.staged, h.staged, lastEdit_append, Option.or_assoc]
  disjoint hdb := hlater.disjoint (h.disjoint hdb)

theorem stages_put {col : Column} {key value : Bytes} (h : put col key value db = .ok () db') :
    Stages [((col, key), some value)] db db' := by
  obtain rfl : { db with deletes := db.deletes.erase (col, key),
                         writes := db.writes.insert (col, key) value } = db' := by
    cases h
    rfl
  refine ⟨⟨rfl, rfl⟩, fun k => ?_, fun hdb k => ?_⟩
  · rw [lastEdit_singleton]
    simp only [staged, StorageMap.contains, StorageMap.lookup_erase_eq, StorageMap.lookup_insert_eq]
    split_ifs with hk <;> simp_all
  · have hk := hdb k
    simp only [StorageMap.contains, StorageMap.lookup_erase_eq, StorageMap.lookup_insert_eq] at hk ⊢
    split_ifs with hsame <;> simp_all

theorem stages_del {col : Column} {key : Bytes} (h : del col key db = .ok () db') :
    Stages [((col, key), none)] db db' := by
  obtain rfl : { db with writes := db.writes.erase (col, key),
                         deletes := db.deletes.insert (col, key) () } = db' := by
    cases h
    rfl
  refine ⟨⟨rfl, rfl⟩, fun k => ?_, fun hdb k => ?_⟩
  · rw [lastEdit_singleton]
    simp only [staged, StorageMap.contains, StorageMap.lookup_erase_eq, StorageMap.lookup_insert_eq]
    split_ifs with hk <;> simp_all
  · have hk := hdb k
    simp only [StorageMap.contains, StorageMap.lookup_erase_eq, StorageMap.lookup_insert_eq] at hk ⊢
    split_ifs with hsame <;> simp_all

/-- A loop writes what its rounds write. -/
theorem stages_forEach {α : Type} {f : α → Method Column} {edits : α → List (Edit Column)}
    (hf : ∀ a db db', f a db = .ok () db' → Stages (edits a) db db') {as : List α}
    (h : Tx.forEach f as db = .ok () db') : Stages (as.flatMap edits) db db' := by
  induction as generalizing db with
  | nil =>
    cases h
    exact .refl _
  | cons a as ih =>
    rw [Tx.forEach_cons] at h
    obtain ⟨u, db₁, ha, has⟩ := Tx.bind_ok.mp h
    rw [List.flatMap_cons]
    exact (hf a db db₁ ha).append (ih has)

theorem stages_call {call : DbCall Column} (h : call.run db = .ok () db') :
    Stages call.edits db db' := by
  cases call with
  | put col key value => exact stages_put h
  | del col key => exact stages_del h
  | batchWrite changes =>
    rw [DbCall.edits, List.map_eq_flatMap]
    refine stages_forEach (fun change db db' hchange => ?_) h
    rcases hop : change.op with _ | _ | _
    all_goals
      simp only [hop] at hchange
      simp only [StoreChange.edit, hop, reduceCtorEq, if_false, if_true]
    · obtain ⟨value, hvalue, hput⟩ := Tx.okOr_bind_ok.mp hchange
      rw [hvalue]
      exact stages_put hput
    · obtain ⟨value, hvalue, hput⟩ := Tx.okOr_bind_ok.mp hchange
      rw [hvalue]
      exact stages_put hput
    · exact stages_del hchange
  | batchWriteCf col entries =>
    rw [DbCall.edits, List.map_eq_flatMap]
    exact stages_forEach (fun entry db db' hput => stages_put hput) h

/-- A source that answers gives every key a value, and the three ways to read agree on it. -/
theorem reads_agree (escaped : Char → Bool) (colState : Column) (db : ProtocolStateDb Column)
    (hsource : ∀ key, ∃ value, db.source.protocolStateValueAt db.blockHash key = .ok value) :
    ∃ value : Column → Bytes → Option Bytes,
      (∀ col key, db.get escaped colState col key = .ok (value col key)) ∧
      (∀ col keys, db.multiGet escaped colState keys col = .ok (keys.map (value col))) ∧
      ∀ col key, db.keyMayExist escaped colState col key = (value col key).isSome := by
  have hget : ∀ col key, ∃ value, db.get escaped colState col key = .ok value := by
    intro col key
    rw [get_eq]
    cases db.staged (col, key) with
    | some edit => exact ⟨edit, rfl⟩
    | none =>
      rw [Option.elim_none, sourceValue]
      split_ifs with hkey
      · obtain ⟨value, hvalue⟩ := hsource ⟨key, hkey.2⟩
        exact ⟨value, Except.mapError_ok_iff.mpr hvalue⟩
      · exact ⟨none, rfl⟩
  choose value hvalue using hget
  refine ⟨value, hvalue, fun col keys => ?_, fun col key => ?_⟩
  · refine Except.mapM_ok_iff.mpr (List.forall₂_map_right_iff.mpr ?_)
    exact List.forall₂_same.mpr fun key _ => hvalue col key
  · rw [keyMayExist, hvalue]

end ProtocolStateDb

/-- The overlay is last-write-wins over the finalized state. After calls that all returned, a key
has the value that was last put there, none when it was last deleted, and what the source has at
the fixed block when nothing was written: for keys of the state column with 31 bytes, and none for
the others. A call leaves every key it does not write as it was, no key is both written and
deleted, and the other two ways to read agree with `get` when the source does not fail. -/
theorem overlay_last_write_wins (escaped : Char → Bool) (colState : Column)
    (source : ProtocolStateSource) (blockHash : Hash) (calls : List (DbCall Column))
    {db : ProtocolStateDb Column}
    (h : Tx.forEach DbCall.run calls (ProtocolStateDb.new source blockHash) = .ok () db) :
    (∀ col key edit, lastEdit (calls.flatMap DbCall.edits) (col, key) = some edit →
      db.get escaped colState col key = .ok edit) ∧
    (∀ col key, lastEdit (calls.flatMap DbCall.edits) (col, key) = none →
      db.get escaped colState col key =
        if hkey : col = colState ∧ key.length = 31 then
          (source.protocolStateValueAt blockHash ⟨key, hkey.2⟩).mapError fun error =>
            .other (error.debug escaped)
        else .ok none) ∧
    (∀ call db', DbCall.run call db = .ok () db' → ∀ col key, (col, key) ∉ call.edits.map Prod.fst →
      db'.get escaped colState col key = db.get escaped colState col key) ∧
    (∀ k, ¬ (db.writes.contains k = true ∧ db.deletes.contains k = true)) ∧
    ((∀ key, ∃ value, source.protocolStateValueAt blockHash key = .ok value) →
      ∃ value : Column → Bytes → Option Bytes,
        (∀ col key, db.get escaped colState col key = .ok (value col key)) ∧
        (∀ col keys, db.multiGet escaped colState keys col = .ok (keys.map (value col))) ∧
        ∀ col key, db.keyMayExist escaped colState col key = (value col key).isSome) := by
  have hstages := stages_forEach (fun _ _ _ => stages_call) h
  obtain ⟨hsource, hblock⟩ := hstages.source
  refine ⟨fun col key edit hedit => ?_, fun col key hnone => ?_,
    fun call db' hcall col key hkey => ?_,
    ?_, fun hanswers => ?_⟩
  · rw [get_eq, hstages.staged, hedit]
    rfl
  · rw [get_eq, hstages.staged, hnone]
    -- Nothing is staged at first, so the source is asked.
    show sourceValue escaped colState db col key = _
    unfold sourceValue
    rw [hsource, hblock]
    rfl
  · have hcall := stages_call hcall
    have hsame : db'.sourceValue escaped colState col key =
        db.sourceValue escaped colState col key := by
      unfold sourceValue
      rw [hcall.source.1, hcall.source.2]
    rw [get_eq, get_eq, hcall.staged, lastEdit_of_notMem hkey, Option.none_or, hsame]
  · exact hstages.disjoint fun k hk => by simp [ProtocolStateDb.new, StorageMap.contains] at hk
  · refine reads_agree escaped colState db fun key => ?_
    rw [hsource, hblock]
    exact hanswers key

/-- A value put over a deletion, beside a deleted key. -/
theorem overlay_last_write_wins_put_over_delete :
    ∃ db : ProtocolStateDb Bool, Tx.forEach DbCall.run
        [.del true [1], .batchWrite [⟨true, [1], .upsert, some [7]⟩, ⟨true, [2], .remove, none⟩]]
        (ProtocolStateDb.new Reference.stateSource (List.Vector.replicate 32 0)) = .ok () db ∧
      db.get (fun _ => false) true true [1] = .ok (some [7]) ∧
      db.get (fun _ => false) true true [2] = .ok none := by
  have h := overlay_last_write_wins (fun _ => false) true Reference.stateSource
    (List.Vector.replicate 32 0)
    [.del true [1], .batchWrite [⟨true, [1], .upsert, some [7]⟩, ⟨true, [2], .remove, none⟩]] rfl
  exact ⟨_, rfl, h.1 true [1] _ rfl, h.1 true [2] _ rfl⟩

end MiniJam.Worker
