import MiniJam.Proofs.Stake
import MiniJam.Proofs.WorkSteps
import MiniJam.Workers.Run

/-!
# `MiniJam.Proofs.WorkersRuns`: the chain runs the workers pallet

`Workers.Run` is the workers pallet on its own, used by anyone in any order. The chain is one such
use: the workers pallet's part of a state of the chain is a state that the pallet reaches on its
own (`workersRun_of_run`). So what holds of every run of the pallet holds of the chain.

The storage of the pallet changes by its successful actions only: a failed extrinsic is undone,
and `assign_work`, which the minijam pallet calls outside of a transaction, writes nothing when it
fails. What the minijam pallet does to the ledger is, to the workers pallet, the rest of the
runtime.
-/

set_option autoImplicit false

namespace MiniJam.Workers

variable {AccountId Ledger : Type} [DecidableEq AccountId] {T : Config AccountId Ledger}
  {s s' : State T}

/-- A successful action of the pallet. -/
def BaseStep (s s' : State T) : Prop := ∃ a : Action AccountId Ledger, a.run s = .ok () s'

/-- A ledger that others have changed. -/
theorem BaseStep.ledger (s : State T) (ledger : Ledger) :
    BaseStep s { s with ledger := ledger } := ⟨.system s.blockNumber s.blockHash ledger, rfl⟩

/-- A run is continued by successful actions. -/
theorem Run.steps {h : History T} (hr : Run T h s)
    (hs : Relation.ReflTransGen BaseStep s s') : ∃ h', Run T h' s' := by
  induction hs with
  | refl => exact ⟨h, hr⟩
  | tail _ hstep ih =>
    obtain ⟨h', hr'⟩ := ih
    obtain ⟨a, ha⟩ := hstep
    exact ⟨_, Trace.extend (l := (a, none)) hr' ha⟩

end MiniJam.Workers

namespace MiniJam.Jam

variable {AccountId Ledger : Type} [DecidableEq AccountId] {T : Config AccountId Ledger}
  {s s' : State T}

/-- The workers pallet's part of the storage changes by actions of that pallet. -/
def BaseMoves (s s' : State T) : Prop :=
  Relation.ReflTransGen Workers.BaseStep s.base s'.base

instance : Std.Refl (BaseMoves (T := T)) := ⟨fun _ => .refl⟩

instance : IsTrans (State T) BaseMoves := ⟨fun _ _ _ h₁ h₂ => h₁.trans h₂⟩

theorem BaseMoves.of_eq (h : s'.base = s.base) : BaseMoves s s' := by
  unfold BaseMoves
  rw [h]

theorem BaseMoves.of_ledger {ledger : Ledger} (h : s'.base = { s.base with ledger := ledger }) :
    BaseMoves s s' := by
  unfold BaseMoves
  rw [h]
  exact .single (.ledger s.base ledger)

/-- A function of the workers pallet that writes nothing when it fails. -/
theorem inWorkers_baseMoves {α : Type} {m : Workers.M T.workers α}
    (hok : ∀ base a base', m base = .ok a base' → Workers.BaseStep base base')
    (herr : ∀ base e base', m base = .err e base' → base' = base) :
    Tx.Rel BaseMoves (inWorkers m : M T α) := by
  refine Tx.Rel.intro (fun s a s' h => ?_) (fun s e s' h => ?_)
  · obtain ⟨base, hbase, rfl⟩ := Tx.zoom_ok.mp h
    exact .single (hok _ _ _ hbase)
  · obtain ⟨base, hbase, rfl⟩ := Tx.zoom_err.mp h
    exact .of_eq (herr _ _ _ hbase)

theorem baseMoves_frame (id : WorkId) : WorkFrame (T := T) BaseMoves id where
  money _ _ h := .of_ledger (congrArg State.base h).symm
  record _ _ := .of_eq rfl
  pending := Tx.Rel.modify fun _ => .of_eq rfl
  assign r := by
    refine inWorkers_baseMoves (fun base a base' h => ⟨.assignWork id r, ?_⟩) fun _ _ _ =>
      Workers.assignWork_err
    show (Workers.assignWork id r >>= fun _ => pure ()) base = .ok () base'
    exact Tx.bind_ok.mpr ⟨a, base', h, rfl⟩
  clear r := inWorkers_baseMoves (fun _ _ _ h => ⟨.clearAssignment id r, h⟩) fun _ _ _ h => by
    cases h

omit [DecidableEq AccountId] in
/-- Duties are not among the items that `f` reads. -/
theorem inWorkers_dutyless {β : Type} {f : Workers.State T.workers → β}
    (hf : ∀ base base', f (Workers.dutyItems.put base base') = f base) {α : Type}
    {m : Workers.M T.workers α} (h : Tx.Rel Workers.dutyItems.Within m) :
    Tx.Rel (fun s s' : State T => f s'.base = f s.base) (inWorkers m : M T α) := by
  refine Tx.Rel.intro (fun s a s' hm => ?_) (fun s e s' hm => ?_)
  · obtain ⟨base, hbase, rfl⟩ := Tx.zoom_ok.mp hm
    exact (h.of_ok hbase).unchanged f hf
  · obtain ⟨base, hbase, rfl⟩ := Tx.zoom_err.mp hm
    exact (h.of_err hbase).unchanged f hf

omit [DecidableEq AccountId] in
/-- The life of a work keeps what is neither a duty nor money. -/
theorem dutyless_frame {β : Type} {f : Workers.State T.workers → β}
    (hf : ∀ base base', f (Workers.dutyItems.put base base') = f base)
    (hmoney : ∀ base ledger, f { base with ledger := ledger } = f base) (id : WorkId) :
    WorkFrame (fun s s' : State T => f s'.base = f s.base) id where
  money _ _ h := h.unchanged (fun s => f s.base) fun _ _ => hmoney _ _
  record _ _ := rfl
  pending := Tx.Rel.modify fun _ => rfl
  assign r := inWorkers_dutyless hf (Workers.assignWork_duties id r)
  clear r := inWorkers_dutyless hf (.intro
    (fun _ _ _ h => Workers.duties_of_rounds (Workers.clearAssignment_rounds h))
    fun _ _ _ h => by cases h)

variable {origin : Origin AccountId} {l : Chain.Label T}

/-- Opening a voting may fail after a write, but then the whole call is undone. -/
theorem submitCandidate_baseMoves {envelope : ReportEnvelopeV1}
    (h : submitCandidate origin envelope s = .ok () s') : BaseMoves s s' := by
  obtain ⟨submitter, work, ledger, base, -, -, -, -, -, -, hbase, rfl⟩ := submitCandidate_ok h
  have hpaid : BaseMoves s { s with base := { s.base with ledger := ledger } } := .of_ledger rfl
  exact hpaid.trans (.single ⟨.openVoting _ _ _ _, hbase⟩)

/-! ### The steps of the chain -/

/-- What a step of the chain does to the works and to the workers pallet: an action of that
pallet, one of the two calls and the two hooks that move works, or nothing. -/
inductive ChainMove (s s' : State T) : Prop where
  | workers {a : Workers.Action AccountId Ledger} {base : Workers.State T.workers}
      (hrun : a.run s.base = .ok () base) (hs' : s' = { s with base := base })
  | submitWork {origin : Origin AccountId}
      {package : BoundedVec UInt8 T.maxWorkPackageBytes.toNat} {bundleRef : ContentRef}
      (h : submitWork origin package bundleRef s = .ok () s')
  | submitCandidate {origin : Origin AccountId} {envelope : ReportEnvelopeV1}
      (h : submitCandidate origin envelope s = .ok () s')
  | hook {block : BlockNumber}
      (h : Tx.forEach (progressWork block) s.pendingWorks.toList s = .ok () s')
  | finalize {block : BlockNumber} (h : onFinalize block s = .ok () s')
  | workless (h : worklessItems.Within s s')

theorem ChainMove.refl (s : State T) : ChainMove s s := .workless (Std.Refl.refl s)

/-- A successful call of the workers pallet is one of its actions. -/
theorem ChainMove.of_dispatch {m : Workers.M T.workers Unit}
    {a : Workers.Action AccountId Ledger} (ha : a.run = dispatch m)
    (h : inWorkers m s = .ok () s') : ChainMove s s' := by
  obtain ⟨base, hbase, hs'⟩ := Tx.zoom_ok.mp h
  refine .workers (a := a) ?_ hs'.symm
  rw [ha]
  exact Tx.transaction_ok.mpr hbase

theorem chainMove_of_call {call : Call T} (h : call.body origin s = .ok () s') :
    ChainMove s s' := by
  cases call with
  | register sessionKey stake => exact .of_dispatch (a := .register origin sessionKey stake) rfl h
  | scheduleUpdate sessionKey stake =>
    exact .of_dispatch (a := .scheduleUpdate origin sessionKey stake) rfl h
  | submitVote workerId vote signature =>
    exact .of_dispatch (a := .submitVote origin workerId vote signature) rfl h
  | submitEquivocation workerId first firstSignature second secondSignature =>
    exact .of_dispatch (a := .submitEquivocation origin workerId first firstSignature second
      secondSignature) rfl h
  | submitWork package bundleRef => exact .submitWork h
  | submitCandidate envelope => exact .submitCandidate h
  | quarantinePending =>
    obtain ⟨-, rfl⟩ := quarantinePending_ok h
    exact .workless rfl
  | fundService serviceId amount =>
    obtain ⟨_, _, _, _, _, -, -, rfl⟩ := fundService_ok h
    exact .workless rfl
  | _ => exact .workless ((outer_of_call rfl h).mono fun _ _ => rfl)

theorem chainMove_of_step (h : Chain.Step T s l s') : ChainMove s s' := by
  obtain ⟨action, _ | e⟩ := l
  · cases action with
    | extrinsic origin call => exact chainMove_of_call (Tx.transaction_ok.mp h)
    | workersOnInitialize block =>
      have hhook : (inWorkers (Workers.onInitialize block) : M T Unit) s = .ok () s' := h
      obtain ⟨base, hbase, hs'⟩ := Tx.zoom_ok.mp hhook
      exact .workers (a := .onInitialize block) hbase hs'.symm
    | jamOnInitialize block => exact .hook h
    | onFinalize block => exact .finalize h
    | consumeAllocation allocationId =>
      obtain ⟨_, -, rfl⟩ := consumeAllocation_ok (Tx.transaction_ok.mp h)
      exact .workless rfl
    | system blockNumber blockHash ledger =>
      cases h
      exact .workers (a := .system blockNumber blockHash ledger) rfl rfl
  · rw [step_err h]
    exact .refl s

/-- A step of the chain is made of successful actions of the workers pallet. -/
theorem baseMoves_of_step (h : Chain.Step T s l s') : BaseMoves s s' := by
  cases chainMove_of_step h with
  | @workers a base hrun hs' =>
    rw [hs']
    exact .single ⟨a, hrun⟩
  | submitWork h =>
    exact (WorkFrame.submitWork baseMoves_frame (fun _ _ _ _ _ => .of_eq rfl) _ _ _).of_ok h
  | submitCandidate h => exact submitCandidate_baseMoves h
  | hook h =>
    exact (Tx.Rel.forEach fun id _ =>
      (baseMoves_frame id).progressWork (fun _ _ => .of_eq rfl) _).of_ok h
  | finalize h => exact .of_eq (onFinalize_works h).1
  | workless h => exact .of_ledger (congrArg State.base h).symm

theorem genesis_base (h : Chain.Genesis T s) : Workers.Genesis T.workers s.base := by
  obtain ⟨config, ledger, hbuild⟩ := h
  obtain ⟨base, hbase, hwithin⟩ := genesisBuild_ok hbuild
  refine ⟨config.workers, ledger, ?_⟩
  rw [hwithin.unchanged State.base fun _ _ => rfl]
  exact hbase

/-- The workers pallet's part of the chain is a run of the workers pallet. -/
theorem workersRun_of_run {h : Chain.History T}
    (hr : Chain.Run T h s) : ∃ h', Workers.Run T.workers h' s.base := by
  refine hr.invariant_state (I := fun s => ∃ h', Workers.Run T.workers h' s.base)
    (fun s hs => ⟨[], .start (genesis_base hs)⟩) fun s l s' hrun hstep => ?_
  obtain ⟨h', hrun⟩ := hrun
  exact hrun.steps (baseMoves_of_step hstep)

end MiniJam.Jam
