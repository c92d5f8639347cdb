import MiniJam.Lib.LeastLoaded
import MiniJam.Runtime.Reference
import MiniJam.Workers.Engine

/-!
# `MiniJam.Proofs.BatchAssignment`: what a batch of assignments guarantees

`assign_batch` goes through the works in order. For each it takes the three best-scored workers of
those with duties left. The scores come from a hash, so nothing is known about which workers these
are, and the duties can be spread unevenly.

For every choice the three are distinct and have a duty left, so no worker gets more duties than
the limit. And after `k` works there are `3 * k` duties in total, so at most `3 * k / max_duties`
workers have none left. `assign_batch_capacity` puts both together.
-/

set_option autoImplicit false

namespace MiniJam.WorkerEngine

variable {c : Crypto} {seed : Hash} {pool : List WorkerRecord} {maxDuties : UInt32}
  {b b' : BatchState} {work : WorkId × AssignmentRound}
  {works done : List (WorkId × AssignmentRound)}

/-! ### The workers of one work -/

/-- The candidates are the workers of the pool with duties left, in some order. -/
theorem batchCandidates_perm (c : Crypto) (seed : Hash) (pool : List WorkerRecord)
    (maxDuties : UInt32) (duties : StorageMap WorkerId Nat) (work : WorkId × AssignmentRound) :
    ((batchCandidates c seed pool maxDuties duties work).map Prod.snd).Perm
      ((pool.map WorkerRecord.id).filter (dutiesOf duties · < maxDuties.toNat)) := by
  have hids := (sortByKey_perm (fun candidate : Hash × WorkerId =>
    toLex (candidate.1.key, candidate.2.toNat)) ((pool.filter fun worker =>
      decide (dutiesOf duties worker.id < maxDuties.toNat)).map fun worker =>
        (c.blake2_256 (scoreBytes seed work.1 work.2 worker.id), worker.id))).map Prod.snd
  rw [List.map_map] at hids
  rw [List.filter_map]
  exact hids

/-- The workers that are selected for a work. -/
def selectedWorkers (c : Crypto) (seed : Hash) (pool : List WorkerRecord) (maxDuties : UInt32)
    (duties : StorageMap WorkerId Nat) (work : WorkId × AssignmentRound) : List WorkerId :=
  ((batchCandidates c seed pool maxDuties duties work).take workersPerWork).map Prod.snd

/-- Three distinct workers of the pool with duties left. -/
structure Selects (pool : List WorkerRecord) (maxDuties : UInt32)
    (duties : StorageMap WorkerId Nat) (selected : List WorkerId) : Prop where
  length : selected.length = 3
  nodup : selected.Nodup
  mem : ∀ id ∈ selected, id ∈ pool.map WorkerRecord.id
  below : ∀ id ∈ selected, dutiesOf duties id < maxDuties.toNat

variable {duties : StorageMap WorkerId Nat}

theorem selectedWorkers_selects (hpool : (pool.map WorkerRecord.id).Nodup)
    (henough : workersPerWork ≤ (batchCandidates c seed pool maxDuties duties work).length) :
    Selects pool maxDuties duties (selectedWorkers c seed pool maxDuties duties work) := by
  have hperm := batchCandidates_perm c seed pool maxDuties duties work
  have htake : selectedWorkers c seed pool maxDuties duties work =
      ((batchCandidates c seed pool maxDuties duties work).map Prod.snd).take workersPerWork :=
    List.map_take
  have hmem : ∀ id ∈ selectedWorkers c seed pool maxDuties duties work,
      id ∈ pool.map WorkerRecord.id ∧ dutiesOf duties id < maxDuties.toNat := by
    intro id hid
    rw [htake] at hid
    have hin := hperm.mem_iff.mp (List.mem_of_mem_take hid)
    rwa [List.mem_filter, decide_eq_true_eq] at hin
  refine ⟨?_, ?_, fun id hid => (hmem id hid).1, fun id hid => (hmem id hid).2⟩
  · rw [htake, List.length_take_of_le (by rw [List.length_map]; exact henough)]
    rfl
  · rw [htake]
    exact (hperm.nodup_iff.mpr (hpool.filter _)).sublist (List.take_sublist _ _)

/-! ### One work of the loop -/

theorem assignOne_ok (h : assignOne c seed pool maxDuties b work = .ok b') :
    workersPerWork ≤ (batchCandidates c seed pool maxDuties b.duties work).length ∧
    ∃ workers : AssignedWorkers,
      workers.toList = selectedWorkers c seed pool maxDuties b.duties work ∧
      b' = ⟨workers.toList.foldl addDuty b.duties, b.assignments.insert work.1 workers⟩ := by
  unfold assignOne at h
  obtain ⟨henough, h⟩ := Except.ensure_bind_ok_iff.mp h
  obtain ⟨workers, hworkers, h⟩ := Except.bind_ok_iff.mp h
  have hlist := BoundedVec.tryFrom_eq_some.mp (Except.okOr_ok_iff.mp hworkers)
  cases h
  refine ⟨henough, workers, hlist, ?_⟩
  rw [hlist]

/-- A work is assigned when three workers have duties left. -/
theorem assignOne_of_enough (c : Crypto) (seed : Hash) (work : WorkId × AssignmentRound)
    (henough : 3 ≤ ((pool.map WorkerRecord.id).filter
      (dutiesOf b.duties · < maxDuties.toNat)).length) :
    ∃ b', assignOne c seed pool maxDuties b work = .ok b' := by
  have hlength : (batchCandidates c seed pool maxDuties b.duties work).length =
      ((pool.map WorkerRecord.id).filter (dutiesOf b.duties · < maxDuties.toNat)).length := by
    rw [← (batchCandidates_perm c seed pool maxDuties b.duties work).length_eq, List.length_map]
  have hfits : (selectedWorkers c seed pool maxDuties b.duties work).length ≤ 3 := by
    unfold selectedWorkers
    rw [List.length_map]
    exact List.length_take_le _ _
  refine ⟨⟨(selectedWorkers c seed pool maxDuties b.duties work).foldl addDuty b.duties,
    b.assignments.insert work.1 ⟨_, hfits⟩⟩, ?_⟩
  unfold assignOne
  refine Except.ensure_bind_ok_iff.mpr ⟨by rw [hlength]; exact henough, ?_⟩
  exact Except.bind_ok_iff.mpr ⟨⟨_, hfits⟩,
    Except.okOr_ok_iff.mpr (BoundedVec.tryFrom_eq_some.mpr rfl), rfl⟩

theorem dutiesOf_addDuty (duties : StorageMap WorkerId Nat) (workerId id : WorkerId) :
    dutiesOf (addDuty duties workerId) id =
      if id = workerId then dutiesOf duties id + 1 else dutiesOf duties id := by
  unfold addDuty dutiesOf
  rw [StorageMap.lookup_insert_eq]
  split_ifs with hid
  · rw [hid]
    rfl
  · rfl

/-- Each selected worker gets one duty. -/
theorem dutiesOf_addDuties {selected : List WorkerId} (hnodup : selected.Nodup) (id : WorkerId) :
    dutiesOf (selected.foldl addDuty duties) id =
      if id ∈ selected then dutiesOf duties id + 1 else dutiesOf duties id := by
  induction selected generalizing duties with
  | nil => simp
  | cons workerId selected ih =>
    obtain ⟨hnot, hnodup⟩ := List.nodup_cons.mp hnodup
    rw [List.foldl_cons, ih hnodup, dutiesOf_addDuty]
    by_cases hid : id = workerId
    · -- The first worker does not come again.
      subst hid
      simp [hnot]
    · simp [hid]

/-! ### The loop -/

/-- What holds after the works of `done`. -/
structure AssignedSoFar (pool : List WorkerRecord) (maxDuties : UInt32)
    (done : List (WorkId × AssignmentRound)) (b : BatchState) : Prop where
  keys : b.assignments.keys.Perm (done.map Prod.fst)
  workers : ∀ workId workers, b.assignments.lookup workId = some workers →
    workers.toList.length = 3 ∧ workers.toList.Nodup ∧
      ∀ id ∈ workers.toList, id ∈ pool.map WorkerRecord.id
  counted : ∀ id, dutiesOf b.duties id =
    b.assignments.entries.countP fun entry => decide (id ∈ entry.2.toList)
  limited : ∀ id, dutiesOf b.duties id ≤ maxDuties.toNat
  total : ((pool.map WorkerRecord.id).map (dutiesOf b.duties)).sum = 3 * done.length

theorem AssignedSoFar.start : AssignedSoFar pool maxDuties [] ⟨∅, ∅⟩ where
  keys := .nil
  workers _ _ h := by cases h
  counted _ := rfl
  limited _ := Nat.zero_le _
  total := by
    refine List.sum_eq_zero_iff_forall_eq_nat.mpr fun n hn => ?_
    obtain ⟨id, -, rfl⟩ := List.mem_map.mp hn
    rfl

theorem AssignedSoFar.step (h : AssignedSoFar pool maxDuties done b)
    (hpool : (pool.map WorkerRecord.id).Nodup) (hnew : work.1 ∉ done.map Prod.fst)
    (hstep : assignOne c seed pool maxDuties b work = .ok b') :
    AssignedSoFar pool maxDuties (work :: done) b' := by
  obtain ⟨henough, workers, hlist, rfl⟩ := assignOne_ok hstep
  have hselects := selectedWorkers_selects hpool henough
  rw [← hlist] at hselects
  have hfresh : work.1 ∉ b.assignments := fun hmem => hnew (h.keys.mem_iff.mp hmem)
  -- The selected workers are distinct, so each gets one duty.
  have hduties : ∀ id, dutiesOf (workers.toList.foldl addDuty b.duties) id =
      if id ∈ workers.toList then dutiesOf b.duties id + 1 else dutiesOf b.duties id :=
    dutiesOf_addDuties hselects.nodup
  refine ⟨?_, fun workId workers' hlookup => ?_, fun id => ?_, fun id => ?_, ?_⟩
  · rw [AList.keys_insert, List.erase_of_not_mem hfresh]
    exact h.keys.cons _
  · rw [StorageMap.lookup_insert_eq] at hlookup
    split_ifs at hlookup
    · cases hlookup
      exact ⟨hselects.length, hselects.nodup, hselects.mem⟩
    · exact h.workers workId workers' hlookup
  · rw [hduties, AList.entries_insert_of_notMem hfresh, List.countP_cons, h.counted]
    simp only [decide_eq_true_eq]
    split_ifs <;> rfl
  · rw [hduties]
    split_ifs with hid
    · exact hselects.below id hid
    · exact h.limited id
  · rw [LeastLoaded.sum_choose hpool hselects.mem hselects.nodup fun id _ => hduties id, h.total,
      hselects.length, List.length_cons]
    omega

/-- The next work was not assigned before. -/
theorem fresh_of_nodup (h : (((work :: works).reverse ++ done).map Prod.fst).Nodup) :
    work.1 ∉ done.map Prod.fst ∧ ((works.reverse ++ work :: done).map Prod.fst).Nodup := by
  rw [List.reverse_cons, List.append_assoc, List.singleton_append] at h
  refine ⟨?_, h⟩
  rw [List.map_append, List.map_cons] at h
  exact (List.nodup_cons.mp (List.nodup_append.mp h).2.1).1

/-- The loop keeps what holds after each work. -/
theorem AssignedSoFar.loop (h : AssignedSoFar pool maxDuties done b)
    (hpool : (pool.map WorkerRecord.id).Nodup)
    (hworks : ((works.reverse ++ done).map Prod.fst).Nodup)
    (hloop : works.foldlM (assignOne c seed pool maxDuties) b = .ok b') :
    AssignedSoFar pool maxDuties (works.reverse ++ done) b' := by
  induction works generalizing done b with
  | nil =>
    cases hloop
    exact h
  | cons work works ih =>
    rw [List.foldlM_cons] at hloop
    obtain ⟨b₁, hstep, hloop⟩ := Except.bind_ok_iff.mp hloop
    obtain ⟨hnew, hworks⟩ := fresh_of_nodup hworks
    rw [List.reverse_cons, List.append_assoc, List.singleton_append]
    exact ih (h.step hpool hnew hstep) hworks hloop

/-- While there are three workers besides those that the duties can have used up, the loop goes
on. -/
theorem AssignedSoFar.progress (h : AssignedSoFar pool maxDuties done b)
    (hpool : (pool.map WorkerRecord.id).Nodup)
    (hworks : ((works.reverse ++ done).map Prod.fst).Nodup) (hmax : 0 < maxDuties.toNat)
    (hroom : works ≠ [] →
      3 + 3 * (done.length + works.length - 1) / maxDuties.toNat ≤ pool.length) :
    ∃ b', works.foldlM (assignOne c seed pool maxDuties) b = .ok b' := by
  induction works generalizing done b with
  | nil => exact ⟨b, rfl⟩
  | cons work works ih =>
    have hroom := hroom (List.cons_ne_nil _ _)
    rw [List.length_cons] at hroom
    have henough : 3 ≤ ((pool.map WorkerRecord.id).filter
        (dutiesOf b.duties · < maxDuties.toNat)).length := by
      refine LeastLoaded.le_length_below_of_sum hmax ?_
      -- The works before this one are among all but the last.
      have hless : 3 * done.length / maxDuties.toNat ≤
          3 * (done.length + (works.length + 1) - 1) / maxDuties.toNat :=
        Nat.div_le_div_right (by omega)
      rw [h.total, List.length_map]
      omega
    obtain ⟨b₁, hstep⟩ := assignOne_of_enough c seed work henough
    obtain ⟨hnew, hworks⟩ := fresh_of_nodup hworks
    have hrest : works ≠ [] →
        3 + 3 * ((work :: done).length + works.length - 1) / maxDuties.toNat ≤ pool.length := by
      intro _
      rwa [List.length_cons, show done.length + 1 + works.length = done.length + (works.length + 1)
        by omega]
    obtain ⟨b', hloop⟩ := ih (h.step hpool hnew hstep) hworks hrest
    refine ⟨b', ?_⟩
    rw [List.foldlM_cons]
    exact Except.bind_ok_iff.mpr ⟨b₁, hstep, hloop⟩

/-- For every seed and every pool and works with distinct ids: an assignment has one entry for
each work, with three distinct workers of the pool, and no worker is in more entries than the
limit. With three workers besides those that all works but the last can have used up, the
works are assigned. -/
theorem assign_batch_capacity (c : Crypto) (seed : Hash)
    (works : List (WorkId × AssignmentRound)) (pool : List WorkerRecord) (maxDuties : UInt32)
    (hpool : (pool.map WorkerRecord.id).Nodup) (hworks : (works.map Prod.fst).Nodup)
    (hmax : 1 ≤ maxDuties.toNat) :
    (∀ result, assignBatch c seed works pool maxDuties = .ok result →
      result.keys.Perm (works.map Prod.fst) ∧
      (∀ workId workers, result.lookup workId = some workers →
        workers.toList.length = 3 ∧ workers.toList.Nodup ∧
          ∀ id ∈ workers.toList, ∃ worker ∈ pool, worker.id = id) ∧
      ∀ id, (result.entries.countP fun entry => decide (id ∈ entry.2.toList)) ≤
        maxDuties.toNat) ∧
    (3 ≤ pool.length →
      works = [] ∨ 3 ≤ pool.length - 3 * (works.length - 1) / maxDuties.toNat →
      ∃ result, assignBatch c seed works pool maxDuties = .ok result) := by
  -- What is assigned is listed with the last work first.
  have hreverse : ((works.reverse ++ []).map Prod.fst).Nodup := by
    rw [List.append_nil, List.map_reverse]
    exact List.nodup_reverse.mpr hworks
  constructor
  · intro result h
    unfold assignBatch at h
    obtain ⟨-, h⟩ := Except.ensure_bind_ok_iff.mp h
    obtain ⟨b, hloop, h⟩ := Except.bind_ok_iff.mp h
    cases h
    have hassigned := AssignedSoFar.start.loop hpool hreverse hloop
    refine ⟨?_, fun workId workers hlookup => ?_, fun id => ?_⟩
    · refine hassigned.keys.trans ?_
      rw [List.append_nil]
      exact (List.reverse_perm works).map Prod.fst
    · obtain ⟨hlength, hnodup, hmem⟩ := hassigned.workers workId workers hlookup
      exact ⟨hlength, hnodup, fun id hid => List.mem_map.mp (hmem id hid)⟩
    · rw [← hassigned.counted]
      exact hassigned.limited id
  · intro henough hroom
    have hroom' : works ≠ [] →
        3 + 3 * (([] : List (WorkId × AssignmentRound)).length + works.length - 1) /
          maxDuties.toNat ≤ pool.length := by
      intro hne
      have hroom := hroom.resolve_left hne
      rw [List.length_nil, Nat.zero_add]
      omega
    obtain ⟨b, hloop⟩ := AssignedSoFar.start.progress hpool hreverse hmax hroom'
    refine ⟨b.assignments, ?_⟩
    unfold assignBatch
    exact Except.ensure_bind_ok_iff.mpr ⟨henough, Except.bind_ok_iff.mpr ⟨b, hloop, rfl⟩⟩

/-! ### A pool of four -/

/-- A worker of the pool. -/
def poolWorker (id : WorkerId) : WorkerRecord where
  id := id
  activeStake := 0
  sessionKey := FixedBytes.fill 32 0
  status := .active

/-- Two works for four workers with two duties each are assigned. -/
theorem assign_batch_capacity_four :
    ∃ result, assignBatch Reference.crypto (FixedBytes.fill 32 7) [(1, 0), (2, 0)]
      ([0, 1, 2, 3].map poolWorker) 2 = .ok result ∧ result.keys.Perm [1, 2] ∧
      ∀ id, (result.entries.countP fun entry => decide (id ∈ entry.2.toList)) ≤ 2 := by
  obtain ⟨hsound, hcapacity⟩ := assign_batch_capacity Reference.crypto (FixedBytes.fill 32 7)
    [(1, 0), (2, 0)] ([0, 1, 2, 3].map poolWorker) 2 (by decide) (by decide) (by decide)
  obtain ⟨result, hresult⟩ := hcapacity (by decide) (Or.inr (by decide))
  obtain ⟨hkeys, -, hlimit⟩ := hsound result hresult
  exact ⟨result, hresult, hkeys, hlimit⟩

end MiniJam.WorkerEngine
