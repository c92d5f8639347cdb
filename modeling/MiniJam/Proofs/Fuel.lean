import MiniJam.Proofs.Admission
import MiniJam.Proofs.Atomicity
import MiniJam.Runtime.Reference

/-!
# `MiniJam.Proofs.Fuel`: what the fuel of a service is made of

Fuel comes from the genesis and from `fund_service`, which moves the amount to the escrow account.
No other call and no hook writes the fuel accounts. So at every moment of a run the account of a
service holds the amounts that were given to it, nothing of it is reserved, and the total is the
sum over all services, as far as a balance can hold them (`fuel_accounted`). The escrow account is
compared with the total only when a service is funded.
-/

set_option autoImplicit false

namespace MiniJam.Jam

variable {AccountId Ledger : Type} {T : Config AccountId Ledger} {s s' : State T}
  {entries : List (UInt32 × Balance)}

/-! ### Accounts -/

/-- What a list of amounts has for a service. -/
def fuelOf (serviceId : UInt32) (entries : List (UInt32 × Balance)) : Balance :=
  ((entries.filter fun entry => entry.1 = serviceId).map Prod.snd).sum

/-- One more entry adds to its service. -/
theorem fuelOf_append (serviceId : UInt32) (entries : List (UInt32 × Balance))
    (entry : UInt32 × Balance) : fuelOf serviceId (entries ++ [entry])
      = fuelOf serviceId entries + if serviceId = entry.1 then entry.2 else 0 := by
  unfold fuelOf
  by_cases hid : entry.1 = serviceId
  · simp [hid]
  · simp [hid, Ne.symm hid]

/-- The accounts hold these amounts, and so does the total. Sums saturate at the largest balance. -/
structure Fueled (s : State T) (entries : List (UInt32 × Balance)) : Prop where
  account : ∀ serviceId, s.serviceFuel serviceId = ⟨min (fuelOf serviceId entries) balanceMax, 0⟩
  total : s.totalServiceFuel = min (entries.map Prod.snd).sum balanceMax

/-- A credit keeps the accounts and the total in step with the entries. -/
theorem Fueled.add (hf : Fueled s entries) {entry : UInt32 × Balance}
    (haccounts : s'.serviceFuelAccounts = s.serviceFuelAccounts.insert entry.1
      { s.serviceFuel entry.1 with
        available := Balance.satAdd (s.serviceFuel entry.1).available entry.2 })
    (htotal : s'.totalServiceFuel = Balance.satAdd s.totalServiceFuel entry.2) :
    Fueled s' (entries ++ [entry]) := by
  refine ⟨fun serviceId => ?_, ?_⟩
  · have hnew : s'.serviceFuel serviceId = if serviceId = entry.1 then
        ⟨min (fuelOf entry.1 entries + entry.2) balanceMax, 0⟩ else s.serviceFuel serviceId := by
      unfold State.serviceFuel
      rw [haccounts, StorageMap.lookup_insert_eq, hf.account, Balance.satAdd_min]
      split_ifs <;> rfl
    rw [hnew, hf.account, fuelOf_append]
    split_ifs with hid
    · rw [hid]
    · rfl
  · rw [htotal, hf.total, Balance.satAdd_min, List.map_append, List.sum_append]
    rfl

/-- The items that hold the fuel. -/
def State.fuel (s : State T) : StorageMap UInt32 ServiceFuelAccount × Balance :=
  (s.serviceFuelAccounts, s.totalServiceFuel)

/-- What leaves the accounts leaves the invariant. -/
theorem Fueled.kept (hf : Fueled s entries) (h : s'.fuel = s.fuel) : Fueled s' entries := by
  obtain ⟨haccounts, htotal⟩ := Prod.mk.inj h
  refine ⟨fun serviceId => ?_, htotal.trans hf.total⟩
  rw [← hf.account, State.serviceFuel, haccounts]
  rfl

/-- So does what writes elsewhere. -/
theorem Fueled.within {fp : Footprint (State T)} (hf : Fueled s entries) (h : fp.Within s s')
    (hfp : ∀ s s', (fp.put s s').fuel = s.fuel) : Fueled s' entries :=
  hf.kept (h.unchanged State.fuel hfp)

/-! ### Steps -/

theorem Fueled.finalize {block : BlockNumber} (hf : Fueled s entries)
    (h : onFinalize block s = .ok () s') : Fueled s' entries := by
  rcases onFinalize_cases h with
    ⟨input, output, delta, summary, _, queue, -, hcommit, -, rfl⟩ | ⟨e, -, hfatal, hhandled⟩
  · obtain ⟨s₁, s₂, s₃, s₄, s₅, h₁, h₂, h₃, h₄, h₅, rfl⟩ := commitOutput_ok hcommit
    have hf₁ := hf.within ((applyDelta_within _).of_ok h₁) fun _ _ => rfl
    have hf₂ := hf₁.within ((consumeSuccessfulAllocations_within _).of_ok h₂) fun _ _ => rfl
    have hf₃ := hf₂.within ((consumePreimages_within _).of_ok h₃) fun _ _ => rfl
    have hf₄ := hf₃.within ((consumeSystemOps_within _).of_ok h₄) fun _ _ => rfl
    exact (hf₄.within ((importReports_within _ _).of_ok h₅) fun _ _ => rfl).kept rfl
  · refine hf.within (handleFailure_ok hfatal hhandled) fun _ _ => ?_
    cases e <;> rfl

variable [DecidableEq AccountId] {l : Chain.Label T}

theorem Fueled.call {origin : Origin AccountId} {call : Call T} (hf : Fueled s entries)
    (hcall : ∀ serviceId amount, call ≠ .fundService serviceId amount)
    (h : call.body origin s = .ok () s') : Fueled s' entries := by
  cases call with
  | register | scheduleUpdate | submitVote | submitEquivocation =>
    exact hf.within ((inWorkers_within _).of_ok h) fun _ _ => rfl
  | submitWork => exact hf.within ((submitWork_within _ _ _).of_ok h) fun _ _ => rfl
  | submitCandidate => exact hf.within ((submitCandidate_within _ _).of_ok h) fun _ _ => rfl
  | quarantinePending =>
    obtain ⟨-, rfl⟩ := quarantinePending_ok h
    exact hf.kept rfl
  | fundService serviceId amount => exact absurd rfl (hcall serviceId amount)
  | _ => exact hf.within (settings_of_call rfl h) fun _ _ => rfl

/-- The service and the amount of a successful funding. -/
def fundings (t : Chain.TakenStep T) : List (UInt32 × Balance) :=
  match t.label.2, t.label.1 with
  | none, .extrinsic _ (.fundService serviceId amount) => [(serviceId, amount)]
  | _, _ => []

theorem Fueled.step (hf : Fueled s entries) (h : Chain.Step T s l s') :
    Fueled s' (entries ++ fundings ⟨s, l, s'⟩) := by
  have hkept (hf' : Fueled s' entries) : Fueled s' (entries ++ []) := by rwa [List.append_nil]
  obtain ⟨action, _ | e⟩ := l
  · cases action with
    | extrinsic origin call =>
      have hbody := Tx.transaction_ok.mp h
      cases call with
      | fundService serviceId amount =>
        obtain ⟨_, _, _, -, -, -, -, -, rfl⟩ := fundService_paid hbody
        exact hf.add rfl rfl
      | _ => exact hkept (hf.call (fun _ _ h => by cases h) hbody)
    | workersOnInitialize => exact hkept (hf.within ((inWorkers_within _).of_ok h) fun _ _ => rfl)
    | jamOnInitialize => exact hkept (hf.within ((onInitialize_within _).of_ok h) fun _ _ => rfl)
    | onFinalize => exact hkept (hf.finalize h)
    | consumeAllocation =>
      obtain ⟨_, -, rfl⟩ := consumeAllocation_ok (Tx.transaction_ok.mp h)
      exact hkept (hf.kept rfl)
    | system =>
      cases h
      exact hkept (hf.kept rfl)
  · exact hkept (by rwa [step_err h])

/-! ### Runs -/

variable {config : GenesisConfig AccountId} {ledger : Ledger}
  {h : Chain.History T}

theorem fueled_of_genesis (h : genesisBuild config (State.init T ledger) = .ok () s) :
    Fueled s config.serviceFuel := by
  obtain ⟨_, s₁, hworkers, h⟩ := Tx.bind_ok.mp h
  rw [Tx.modify_bind_apply] at h
  obtain ⟨_, s₂, hprotocol, h⟩ := Tx.bind_ok.mp h
  have hentries : Tx.Rel protocolStateItems.Within
      (Tx.forEach buildProtocolEntry config.protocolState : M T Unit) :=
    Tx.Rel.forEach fun _ _ => Tx.Rel.bind (Tx.Rel.expect _) fun _ =>
      Tx.Rel.bind (Tx.Rel.expect _) fun _ => Tx.Rel.modify fun _ => rfl
  have hempty : Fueled (State.init T ledger) [] := ⟨fun _ => rfl, rfl⟩
  have hbase : Fueled s₁ [] := hempty.within ((inWorkers_within _).of_ok hworkers) fun _ _ => rfl
  have hstart : Fueled s₂ [] :=
    hbase.kept ((hentries.of_ok hprotocol).unchanged State.fuel fun _ _ => rfl)
  -- Induction on the entries that are left, over what the accounts hold by then.
  suffices hloop : ∀ (left done : List (UInt32 × Balance)) (s₂ : State T), Fueled s₂ done →
      Tx.forEach buildServiceFuel left s₂ = .ok () s → Fueled s (done ++ left) from
    hloop _ [] s₂ hstart h
  intro left
  induction left with
  | nil =>
    intro done s₂ hdone h
    cases h
    rwa [List.append_nil]
  | cons entry left ih =>
    intro done s₂ hdone h
    rw [Tx.forEach_cons] at h
    obtain ⟨_, s₃, hentry, h⟩ := Tx.bind_ok.mp h
    rw [List.append_cons]
    refine ih _ s₃ ?_ h
    unfold buildServiceFuel at hentry
    split_ifs at hentry with hzero
    · cases hentry
      refine ⟨fun serviceId => ?_, ?_⟩
      · rw [hdone.account, fuelOf_append, hzero, ite_self, Nat.add_zero]
      · rw [hdone.total, List.map_append, List.sum_append, List.map_singleton, hzero]
        rfl
    · cases hentry
      exact hdone.add rfl rfl

/-- At every moment of a run from a genesis the accounts hold what the genesis and the fundings so
far have given. A funding is of an existing service, it is paid to the escrow account, and the
escrow account then covers the total. -/
theorem fuel_accounted (hr : Trace (fun s => genesisBuild config (State.init T ledger) = .ok () s)
      (Chain.Step T) h s) :
    Fueled s (config.serviceFuel ++ h.reverse.flatMap fundings) ∧
    ∀ t ∈ h, ∀ entry ∈ fundings t, entry.2 ≠ 0 ∧ t.pre.serviceExists entry.1 = true ∧
      (∃ funder, T.currency.transfer funder T.fuelEscrowAccount entry.2 t.pre.base.ledger
        = some t.post.base.ledger) ∧
      t.post.totalServiceFuel ≤ T.currency.balance t.post.base.ledger T.fuelEscrowAccount := by
  refine ⟨?_, fun t ht entry hentry => ?_⟩
  · refine hr.invariant (I := fun h s =>
      Fueled s (config.serviceFuel ++ h.reverse.flatMap fundings))
      (fun s hs => by simpa using fueled_of_genesis hs) fun h s l s' hf hs => ?_
    -- The history has its last step first, the entries have it last.
    rw [List.reverse_cons, List.flatMap_append, List.flatMap_singleton, ← List.append_assoc]
    exact hf.step hs
  · have hstep := hr.steps t ht
    obtain ⟨pre, ⟨action, _ | e⟩, post⟩ := t
    · dsimp only at hstep ⊢
      cases action with
      | extrinsic origin call =>
        cases call with
        | fundService serviceId amount =>
          obtain rfl := List.mem_singleton.mp hentry
          obtain ⟨funder, _, _, -, hamount, hexists, htransfer, hcovered, rfl⟩ :=
            fundService_paid (Tx.transaction_ok.mp hstep)
          exact ⟨hamount, hexists, ⟨funder, htransfer⟩, hcovered⟩
        | _ => cases hentry
      | _ => cases hentry
    · cases hentry

open Reference

/-- Two services are funded. -/
theorem fuel_accounted_two_services : ∃ h s,
    Chain.Run (runtime consumeAll) h s ∧
    h.reverse.flatMap fundings = [(1, 5), (2, 7)] ∧
    Fueled s (genesis.serviceFuel ++ h.reverse.flatMap fundings) := by
  obtain ⟨h, s, hr, hfunded⟩ := exists_historyFrom (runtime consumeAll)
    [.extrinsic (.signed alice) (.fundService 1 5),
      .extrinsic (.signed alice) (.fundService 2 7)]
    (fun h _ => h.reverse.flatMap fundings = [(1, 5), (2, 7)]) (by decide +kernel)
  exact ⟨h, s, hr.mono (fun _ hs => ⟨_, _, hs⟩) fun _ _ _ hs => hs, hfunded,
    (fuel_accounted hr).1⟩

end MiniJam.Jam
