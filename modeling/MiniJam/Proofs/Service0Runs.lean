import MiniJam.Lib.Watermark
import MiniJam.Proofs.Service0
import MiniJam.Runtime.Reference

/-!
# `MiniJam.Proofs.Service0Runs`: the last nonces over calls of Service 0

A sequence of calls on arbitrary inputs, seen as the turns of the program's loop. A turn returns,
rejects an operation, creates a service or applies an allocation (`Turn.after_cases`). Creating a
service stores its nonce, which has to be above the stored one. Applying an allocation stores its
nonce without a look at the stored one.

So the stored nonces rise, and no submitter creates two services with one nonce, as long as no
allocation is applied whose nonce is below the stored one (`service0_nonces_rise`);
`allocation_turns_nonce_back` is a sequence with such an allocation. When the nonces in the inputs
rise, no operation is answered as stale, whatever the host does (`service0_answers_fresh`).
-/

set_option autoImplicit false

namespace MiniJam.SystemService

open Scale

/-! ### Turns -/

/-- One turn of the loop: the position of the cursor and what the program works on. -/
structure Turn (η : Type) where
  cursor : Bytes
  env : Env η

namespace Turn

variable {η : Type} (host : Host η) (hash : Bytes → Hash) (t : Turn η)

/-- The fields in front of the command. -/
def requestId : Bytes := t.cursor.take 32

@[inherit_doc requestId]
def submitter : Bytes := (t.cursor.drop 32).take 32

@[inherit_doc requestId]
def nonce : UInt64 := loadU64 (t.cursor.drop 64)

/-- What the turn leaves. -/
def after : Env η := (operation host hash t.cursor t.env).2

/-- The submitter and the nonce of an operation that is answered with a `ServiceCreated`
receipt. -/
def created : Option (Bytes × UInt64) :=
  if ((t.after host hash).writes.drop t.env.writes.length).any fun write =>
      decide (write.1 = receiptKey t.requestId) && decide (write.2.head? = some 0) then
    some (t.submitter, t.nonce)
  else none

/-- The command is to create a service. -/
def creates : Bool := decide ((t.cursor.drop 72).head? = some 0)

/-- An allocation that is applied. -/
def applies : Bool :=
  decide (93 ≤ t.cursor.length) && decide ((t.cursor.drop 72).head? = some 1) &&
    requestIdMatches hash t.requestId t.submitter ((t.cursor.drop 64).take 8)
      ((t.cursor.drop 72).take 21)

/-- An allocation that is applied does not come below the nonce stored for its submitter. -/
def notBelow : Bool :=
  !t.applies hash ||
    match t.env.storage (lastNonceKey t.submitter) with
    | none => true
    | some old => decide (old.length = 8) && decide (loadU64 old ≤ t.nonce)

end Turn

section
variable {η : Type} (host : Host η) (hash : Bytes → Hash)

/-- The turns of the loop. -/
def turns : Nat → Bytes → Env η → List (Turn η)
  | 0, _, _ => []
  | count + 1, cursor, env =>
    ⟨cursor, env⟩ ::
      match operation host hash cursor env with
      | (none, _) => []
      | (some cursor, env) => turns count cursor env

/-- The turns of a call. -/
def accumulateTurns (payload : Option Bytes) (env : Env η) : List (Turn η) :=
  match payload with
  | none => []
  | some input =>
    if input.length > systemInputMax then []
    else
      match compactU32 input with
      | none => []
      | some (count, cursor) =>
        if count > 64 then [] else turns host hash count.toNat cursor env

/-- Calls one after the other. -/
def calls (payloads : List (Option Bytes)) (env : Env η) : Env η :=
  payloads.foldl (fun env payload => accumulate host hash payload env) env

/-- The turns of these calls. -/
def callsTurns : List (Option Bytes) → Env η → List (Turn η)
  | [], _ => []
  | payload :: payloads, env =>
    accumulateTurns host hash payload env ++
      callsTurns payloads (accumulate host hash payload env)

end

/-! ### What one turn does -/

section
variable {η : Type} {host : Host η} {hash : Bytes → Hash} {t : Turn η}

/-- What a turn leaves: nothing new, a rejection, a service with its nonce, or an allocation
with its nonce. -/
theorem Turn.after_cases (host : Host η) (hash : Bytes → Hash) (t : Turn η) :
    t.after host hash = t.env ∨
    (∃ state code, (rejectedReceipt code = rejectedReceipt rejectNonce → t.creates = true ∧
        nonceIsFresh t.env.storage t.submitter t.nonce = false) ∧
      t.after host hash = writeRejected host t.requestId code { t.env with host := state }) ∨
    (nonceIsFresh t.env.storage t.submitter t.nonce = true ∧ ∃ state sid,
      t.after host hash = writeNonce host t.submitter t.nonce
        (storageWrite host (receiptKey t.requestId) (0 :: encodeU32 sid)
          { t.env with host := state })) ∨
    (t.applies hash = true ∧ ∃ allocationId,
      t.after host hash = writeNonce host t.submitter t.nonce
        (writeAllocationReceipt host allocationId 0 0 t.env)) := by
  unfold Turn.after operation
  dsimp only
  split_ifs with hlength hcreate hshort hmatch hallocation hshort hmatch
  · exact Or.inl rfl
  · exact Or.inl rfl
  · -- A service: rejected at one of three checks, or created.
    unfold createService createServiceWith
    dsimp only
    split_ifs with hfresh hnew htransfer
    · rw [Bool.not_eq_true'] at hfresh
      exact Or.inr (Or.inl ⟨t.env.host, _, fun _ => ⟨decide_eq_true hcreate, hfresh⟩, rfl⟩)
    · exact Or.inr (Or.inl ⟨_, _, fun h => absurd h (by decide), rfl⟩)
    · exact Or.inr (Or.inl ⟨_, _, fun h => absurd h (by decide), rfl⟩)
    · rw [Bool.not_eq_true', Bool.not_eq_false] at hfresh
      exact Or.inr (Or.inr (Or.inl ⟨hfresh, _, _, rfl⟩))
  · exact Or.inr (Or.inl ⟨t.env.host, _, fun h => absurd h (by decide), rfl⟩)
  · exact Or.inl rfl
  · refine Or.inr (Or.inr (Or.inr ⟨?_, loadU64 (t.cursor.drop 73), rfl⟩))
    have hlong : 93 ≤ t.cursor.length := by
      rw [List.length_drop] at hshort
      omega
    unfold Turn.applies
    rw [Bool.and_eq_true, Bool.and_eq_true, decide_eq_true_iff, decide_eq_true_iff]
    exact ⟨⟨hlong, hallocation⟩, hmatch⟩
  · exact Or.inr (Or.inl ⟨t.env.host, _, fun h => absurd h (by decide), rfl⟩)
  · exact Or.inr (Or.inl ⟨t.env.host, _, fun h => absurd h (by decide), rfl⟩)

@[simp] theorem storageWrite_writes (key value : Bytes) (env : Env η) :
    (storageWrite host key value env).writes = env.writes ++ [(key, value)] := rfl

theorem allocationKey_ne_receiptKey (allocationId requestId : Bytes) :
    allocationKey allocationId ≠ receiptKey requestId := by
  intro h
  have htake : ascii "system/a" = ascii "system/r" := congrArg (List.take 8) h
  exact absurd htake (by decide)

/-- A turn answers with a `ServiceCreated` receipt only where its nonce is fresh, and then
stores the nonce. -/
theorem Turn.created_cases (host : Host η) (hash : Bytes → Hash) (t : Turn η) :
    t.created host hash = none ∨
    t.created host hash = some (t.submitter, t.nonce) ∧
      nonceIsFresh t.env.storage t.submitter t.nonce = true ∧ ∃ env : Env η,
        t.after host hash = writeNonce host t.submitter t.nonce env := by
  unfold Turn.created
  rcases t.after_cases host hash with h | ⟨state, code, -, h⟩ | ⟨hfresh, state, sid, h⟩ |
    ⟨-, allocationId, h⟩
  · left
    simp [h]
  · left
    simp [h, writeRejected, rejectedReceipt]
  · right
    refine ⟨?_, hfresh, _, h⟩
    simp [h, writeNonce]
  · left
    simp [h, writeNonce, writeAllocationReceipt, allocationKey_ne_receiptKey,
      lastNonceKey_ne_receiptKey]

end

/-! ### The marks -/

/-- The nonce cell of a submitter was left as it was, written for the first time, or its
eight bytes were replaced by those of a nonce that is not smaller. -/
def NonceLe (old new : Option Bytes) : Prop :=
  old = none ∨ new = old ∨ ∃ a b : Bytes, old = some a ∧ new = some b ∧
    a.length = 8 ∧ b.length = 8 ∧ loadU64 a ≤ loadU64 b

namespace NonceLe

variable {old new newer : Option Bytes}

theorem trans (h : NonceLe old new) (h' : NonceLe new newer) : NonceLe old newer := by
  rcases h with h | rfl | ⟨a, b, ha, hb, hlena, hlenb, hle⟩
  · exact Or.inl h
  · exact h'
  · rcases h' with h' | rfl | ⟨b', c, hb', hc, -, hlenc, hle'⟩
    · rw [hb] at h'
      cases h'
    · exact Or.inr (Or.inr ⟨a, b, ha, hb, hlena, hlenb, hle⟩)
    · rw [hb] at hb'
      cases hb'
      exact Or.inr (Or.inr ⟨a, c, ha, hc, hlena, hlenc, UInt64.le_trans hle hle'⟩)

end NonceLe

theorem loadU64_encodeU64 (x : UInt64) : loadU64 (encodeU64 x) = x := by
  have h := loadU64_encode x []
  rwa [List.append_nil] at h

/-- The nonces stored in two environments, submitter by submitter. -/
def NoncesLe {η : Type} (before after : Env η) : Prop :=
  ∀ submitter, NonceLe (before.storage (lastNonceKey submitter))
    (after.storage (lastNonceKey submitter))

/-- A nonce that is fresh later was fresh before. -/
theorem nonceIsFresh_of_le {η : Type} {before after : Env η} (h : NoncesLe before after)
    {submitter : Bytes} {nonce : UInt64}
    (hfresh : nonceIsFresh after.storage submitter nonce = true) :
    nonceIsFresh before.storage submitter nonce = true := by
  unfold nonceIsFresh at hfresh ⊢
  rcases h submitter with hnone | hsame | ⟨a, b, ha, hb, hlena, -, hle⟩
  · simp [hnone]
  · rwa [← hsame]
  · rw [hb] at hfresh
    rw [ha]
    simp only [Bool.and_eq_true, decide_eq_true_iff, gt_iff_lt] at hfresh ⊢
    exact ⟨hlena, UInt64.lt_of_le_of_lt hle hfresh.2⟩

/-- The stored nonces as marks, and the pairs of a submitter and a nonce they let pass. -/
def nonceMarks (η : Type) : Watermark (Env η) (Bytes × UInt64) where
  le := NoncesLe
  refl _ _ := Or.inr (Or.inl rfl)
  trans _ _ _ h h' submitter := (h submitter).trans (h' submitter)
  Fresh env item := nonceIsFresh env.storage item.1 item.2 = true
  fresh_of_le _ _ _ h hfresh := nonceIsFresh_of_le h hfresh

section
variable {η : Type} {host : Host η} {hash : Bytes → Hash} {env : Env η} {t : Turn η}

/-- Storage is a map of bytes: the host takes every write. -/
def Host.TakesWrites (host : Host η) : Prop :=
  ∀ key value state, (host.write key value state).1 = true

theorem storage_storageWrite (htakes : host.TakesWrites) (key value : Bytes) (env : Env η) :
    (storageWrite host key value env).storage =
      Function.update env.storage key (some value) := by
  unfold storageWrite
  simp only [htakes key value env.host, if_true]

/-- Writing a nonce that is not below the stored one raises the mark. -/
theorem noncesLe_writeNonce (htakes : host.TakesWrites) {submitter : Bytes} {nonce : UInt64}
    {before : Env η}
    (hsame : ∀ s, env.storage (lastNonceKey s) = before.storage (lastNonceKey s))
    (hle : ∀ old, before.storage (lastNonceKey submitter) = some old →
      old.length = 8 ∧ loadU64 old ≤ nonce) :
    NoncesLe before (writeNonce host submitter nonce env) := by
  intro s
  unfold writeNonce
  rw [storage_storageWrite htakes]
  by_cases hs : s = submitter
  · subst hs
    rw [Function.update_self]
    cases hold : before.storage (lastNonceKey s) with
    | none => exact Or.inl rfl
    | some old =>
      obtain ⟨hlen, hnonce⟩ := hle old hold
      refine Or.inr (Or.inr ⟨old, _, rfl, rfl, hlen, length_encodeU64 _, ?_⟩)
      rwa [loadU64_encodeU64]
  · have hkey : lastNonceKey s ≠ lastNonceKey submitter :=
      fun heq => hs (List.append_cancel_left heq)
    rw [Function.update_of_ne hkey, hsame]
    exact Or.inr (Or.inl rfl)

/-- After writing a nonce the nonce is stale. -/
theorem not_fresh_writeNonce (htakes : host.TakesWrites) (submitter : Bytes) (nonce : UInt64)
    (env : Env η) :
    nonceIsFresh (writeNonce host submitter nonce env).storage submitter nonce = false := by
  unfold writeNonce nonceIsFresh
  rw [storage_storageWrite htakes, Function.update_self]
  simp only [loadU64_encodeU64, gt_iff_lt, UInt64.lt_irrefl, decide_false, Bool.and_false]

/-- A write changes the storage at its key, if the host takes it. -/
theorem storageWrite_storage (key value key' : Bytes) :
    (storageWrite host key value env).storage key' = env.storage key' ∨
      key' = key ∧ (storageWrite host key value env).storage key' = some value := by
  unfold storageWrite
  dsimp only
  split_ifs
  · by_cases hkey : key' = key
    · subst hkey
      exact Or.inr ⟨rfl, Function.update_self ..⟩
    · exact Or.inl (Function.update_of_ne hkey ..)
  · exact Or.inl rfl

/-- A write elsewhere moves no nonce. -/
theorem storageWrite_lastNonce {key : Bytes} (hkey : ∀ s, lastNonceKey s ≠ key) (value s : Bytes) :
    (storageWrite host key value env).storage (lastNonceKey s) = env.storage (lastNonceKey s) :=
  (storageWrite_storage key value (lastNonceKey s)).resolve_right fun h => hkey s h.1

/-- A turn raises the marks when it does not apply an allocation below its mark. -/
theorem Turn.noncesLe_after (htakes : host.TakesWrites) (hbelow : t.notBelow hash = true) :
    NoncesLe t.env (t.after host hash) := by
  rcases t.after_cases host hash with h | ⟨state, code, -, h⟩ | ⟨hfresh, state, sid, h⟩ |
    ⟨happlies, allocationId, h⟩
  · rw [h]
    intro submitter
    exact Or.inr (Or.inl rfl)
  · rw [h]
    intro submitter
    right; left
    exact storageWrite_lastNonce (fun s => lastNonceKey_ne_receiptKey s _) _ submitter
  · rw [h]
    refine noncesLe_writeNonce htakes (fun s => ?_) (fun old hold => ?_)
    · exact storageWrite_lastNonce (fun s => lastNonceKey_ne_receiptKey s _) _ s
    · -- A fresh nonce is above eight stored bytes.
      unfold nonceIsFresh at hfresh
      rw [hold] at hfresh
      simp only [Bool.and_eq_true, decide_eq_true_iff, gt_iff_lt] at hfresh
      exact ⟨hfresh.1, UInt64.le_of_lt hfresh.2⟩
  · rw [h]
    refine noncesLe_writeNonce htakes (fun s => ?_) (fun old hold => ?_)
    · exact storageWrite_lastNonce (fun s => lastNonceKey_ne_allocationKey s _) _ s
    · unfold Turn.notBelow at hbelow
      rw [happlies, hold] at hbelow
      simpa using hbelow

/-- One turn as a stretch: it takes the service it creates, if it creates one. -/
theorem Turn.passes (htakes : host.TakesWrites) (hbelow : t.notBelow hash = true) :
    (nonceMarks η).Passes t.env (t.after host hash) [t.env] (t.created host hash).toList := by
  refine .single (t.noncesLe_after htakes hbelow) ?_
  intro item hitem
  rcases t.created_cases host hash with hnone | ⟨hsome, hfresh, env, hafter⟩
  · rw [hnone] at hitem
    cases hitem
  · rw [hsome] at hitem
    cases hitem
    refine ⟨hfresh, ?_⟩
    show ¬ nonceIsFresh (t.after host hash).storage t.submitter t.nonce = true
    rw [hafter, not_fresh_writeNonce htakes, Bool.not_eq_true]

/-! ### What a sequence of calls does -/

/-- What holds of every turn, and of stretches put together, holds of a sequence of calls. -/
theorem calls_induction {P : Env η → List (Turn η) → Env η → Prop} (hnil : ∀ env, P env [] env)
    (hyield : ∀ {env stop turns}, P env turns stop → P env turns { stop with yielded := true })
    (hturn : ∀ t : Turn η, P t.env [t] (t.after host hash))
    (happend : ∀ {env mid stop turns turns'}, P env turns mid → P mid turns' stop →
      P env (turns ++ turns') stop) (payloads : List (Option Bytes)) (env : Env η) :
    P env (callsTurns host hash payloads env) (calls host hash payloads env) := by
  -- First the loop of a call, then the call, then the sequence of calls.
  have hloop : ∀ (count : Nat) (cursor : Bytes) (env : Env η),
      P env (turns host hash count cursor env) (operations host hash count cursor env) := by
    intro count
    induction count with
    | zero =>
      intro cursor env
      show P env [] (if cursor = [] then { env with yielded := true } else env)
      split_ifs
      · exact hyield (hnil env)
      · exact hnil env
    | succ count ih =>
      intro cursor env
      have hfirst := hturn ⟨cursor, env⟩
      unfold Turn.after at hfirst
      unfold turns operations
      cases hoperation : operation host hash cursor env with
      | mk next env' =>
        rw [hoperation] at hfirst
        cases next with
        | none => exact hfirst
        | some next => exact happend hfirst (ih next env')
  have hcall : ∀ (payload : Option Bytes) (env : Env η),
      P env (accumulateTurns host hash payload env) (accumulate host hash payload env) := by
    intro payload env
    cases payload with
    | none => exact hnil env
    | some input =>
      unfold accumulateTurns accumulate
      dsimp only
      split_ifs
      · exact hnil env
      · cases compactU32 input with
        | none => exact hnil env
        | some read =>
          dsimp only
          split_ifs
          · exact hnil env
          · exact hloop _ _ env
  induction payloads generalizing env with
  | nil => exact hnil env
  | cons payload payloads ih => exact happend (hcall payload env) (ih _)

/-- Whether the program yields changes no mark. -/
theorem passes_yield {start stop : Env η} {visited : List (Env η)} {taken : List (Bytes × UInt64)}
    (h : (nonceMarks η).Passes start stop visited taken) :
    (nonceMarks η).Passes start { stop with yielded := true } visited taken :=
  ⟨h.le, h.after_start, h.before_stop, h.ordered, h.fresh_at_start, h.stale_at_stop, h.nodup⟩

theorem calls_passes (htakes : host.TakesWrites) (payloads : List (Option Bytes)) (env : Env η)
    (hbelow : ∀ t ∈ callsTurns host hash payloads env, t.notBelow hash = true) :
    (nonceMarks η).Passes env (calls host hash payloads env)
      ((callsTurns host hash payloads env).map Turn.env)
      ((callsTurns host hash payloads env).filterMap (Turn.created host hash)) := by
  refine calls_induction (P := fun env turns stop => (∀ t ∈ turns, t.notBelow hash = true) →
    (nonceMarks η).Passes env stop (turns.map Turn.env)
      (turns.filterMap (Turn.created host hash))) ?_ ?_ ?_ ?_ payloads env hbelow
  · exact fun env _ => .nil env
  · exact fun h hbelow => passes_yield (h hbelow)
  · intro t hbelow
    rw [List.filterMap_eq_flatMap_toList, List.flatMap_singleton]
    exact Turn.passes htakes (hbelow t List.mem_cons_self)
  · intro env mid stop turns turns' h h' hbelow
    rw [List.map_append, List.filterMap_append]
    exact (h fun t ht => hbelow t (List.mem_append_left _ ht)).append
      (h' fun t ht => hbelow t (List.mem_append_right _ ht))

end

/-- The nonces Service 0 stores never go back, over every sequence of calls on arbitrary
inputs that applies no allocation below the nonce stored for its submitter: of two moments
of the sequence the later one has the larger nonces, and no submitter creates two services
with one nonce. -/
theorem service0_nonces_rise {η : Type} (host : Host η) (hash : Bytes → Hash)
    (htakes : host.TakesWrites) (payloads : List (Option Bytes)) (env : Env η)
    (hbelow : ∀ t ∈ callsTurns host hash payloads env, t.notBelow hash = true) :
    (((callsTurns host hash payloads env).map Turn.env) ++
      [calls host hash payloads env]).Pairwise NoncesLe ∧
    ((callsTurns host hash payloads env).filterMap (Turn.created host hash)).Nodup := by
  have hpasses := calls_passes htakes payloads env hbelow
  exact ⟨hpasses.ordered_with_stop, hpasses.nodup⟩

/-! ### Stale answers -/

section
variable {η : Type} {host : Host η} {hash : Bytes → Hash} {env : Env η} {t : Turn η}

/-- An environment with a stale answer among its writes. -/
def Env.AnsweredStale (env : Env η) : Prop :=
  ∃ key, (key, rejectedReceipt rejectNonce) ∈ env.writes

theorem storageWrite_answeredStale {key value : Bytes}
    (h : (storageWrite host key value env).AnsweredStale) :
    env.AnsweredStale ∨ value = rejectedReceipt rejectNonce := by
  obtain ⟨key', hmem⟩ := h
  rcases List.mem_append.mp hmem with hold | hnew
  · exact Or.inl ⟨key', hold⟩
  · exact Or.inr (Prod.mk.inj (List.mem_singleton.mp hnew)).2.symm

/-- Writing a nonce after a receipt of success is no stale answer. -/
theorem writeNonce_answeredStale {submitter key value : Bytes} {nonce : UInt64}
    (h : (writeNonce host submitter nonce
      (storageWrite host key (0 :: value) env)).AnsweredStale) : env.AnsweredStale := by
  rcases storageWrite_answeredStale h with h | h
  · rcases storageWrite_answeredStale h with h | h
    · exact h
    · exact absurd (List.cons.inj h).1 (by decide)
  · have hlength := congrArg List.length h
    rw [length_encodeU64] at hlength
    cases hlength

/-- A turn answers as stale only when it creates a service and its nonce is not fresh. -/
theorem Turn.after_answeredStale (h : (t.after host hash).AnsweredStale) :
    t.env.AnsweredStale ∨
      t.creates = true ∧ nonceIsFresh t.env.storage t.submitter t.nonce = false := by
  rcases t.after_cases host hash with hafter | ⟨state, code, hcode, hafter⟩ |
    ⟨-, state, sid, hafter⟩ | ⟨-, allocationId, hafter⟩ <;> rw [hafter] at h
  · exact Or.inl h
  · exact (storageWrite_answeredStale h).imp_right hcode
  · have hbefore := writeNonce_answeredStale h
    exact Or.inl hbefore
  · exact Or.inl (writeNonce_answeredStale h)

/-- A turn moves at most the nonce of its submitter. -/
theorem Turn.after_lastNonce (host : Host η) (hash : Bytes → Hash) (t : Turn η) (s : Bytes) :
    (t.after host hash).storage (lastNonceKey s) = t.env.storage (lastNonceKey s) ∨
      t.submitter = s ∧
        (t.after host hash).storage (lastNonceKey s) = some (encodeU64 t.nonce) := by
  have hwrite : ∀ env : Env η, env.storage (lastNonceKey s) = t.env.storage (lastNonceKey s) →
      (writeNonce host t.submitter t.nonce env).storage (lastNonceKey s)
          = t.env.storage (lastNonceKey s) ∨
        t.submitter = s ∧ (writeNonce host t.submitter t.nonce env).storage (lastNonceKey s)
          = some (encodeU64 t.nonce) := by
    intro env hsame
    rcases storageWrite_storage (lastNonceKey t.submitter) (encodeU64 t.nonce) (lastNonceKey s)
      with h | ⟨hkey, h⟩
    · exact Or.inl (h.trans hsame)
    · exact Or.inr ⟨(List.append_cancel_left hkey).symm, h⟩
  rcases t.after_cases host hash with hafter | ⟨state, code, -, hafter⟩ |
    ⟨-, state, sid, hafter⟩ | ⟨-, allocationId, hafter⟩ <;> rw [hafter]
  · exact Or.inl rfl
  · exact Or.inl (storageWrite_lastNonce (fun s => lastNonceKey_ne_receiptKey s _) _ s)
  · exact hwrite _ (storageWrite_lastNonce (fun s => lastNonceKey_ne_receiptKey s _) _ s)
  · exact hwrite _ (storageWrite_lastNonce (fun s => lastNonceKey_ne_allocationKey s _) _ s)

/-- The nonce is fresh where the last one is smaller. -/
theorem nonceIsFresh_of_lastNonce {storage : Bytes → Option Bytes} {sender : Bytes}
    {last nonce : UInt64} (hlast : storage (lastNonceKey sender) = some (encodeU64 last))
    (hlt : last < nonce) : nonceIsFresh storage sender nonce = true := by
  simp only [nonceIsFresh, hlast, length_encodeU64, loadU64_encodeU64, decide_true,
    Bool.true_and, decide_eq_true_iff]
  exact hlt

end

/-- Calls on arbitrary inputs, whatever the host answers to `NEW`, `TRANSFER` and `WRITE`: when a
creation has a larger nonce than what its submitter sent before it, and all creations are fresh at
the start, no operation is answered with `REJECT_NONCE`. Afterwards the stored nonce of a submitter
is the old one, or that of one of its operations. -/
theorem service0_answers_fresh {η : Type} (host : Host η) (hash : Bytes → Hash)
    (payloads : List (Option Bytes)) (env : Env η)
    (hincrease : (callsTurns host hash payloads env).Pairwise fun t t' =>
      t'.creates = true → t.submitter = t'.submitter → t.nonce < t'.nonce)
    (hfresh : ∀ t ∈ callsTurns host hash payloads env, t.creates = true →
      nonceIsFresh env.storage t.submitter t.nonce = true) :
    ((calls host hash payloads env).AnsweredStale → env.AnsweredStale) ∧
    ∀ s, (calls host hash payloads env).storage (lastNonceKey s) = env.storage (lastNonceKey s) ∨
      ∃ t ∈ callsTurns host hash payloads env, t.submitter = s ∧
        (calls host hash payloads env).storage (lastNonceKey s) = some (encodeU64 t.nonce) := by
  refine calls_induction (P := fun env turns stop => (turns.Pairwise fun t t' : Turn η =>
      t'.creates = true → t.submitter = t'.submitter → t.nonce < t'.nonce) →
    (∀ t ∈ turns, t.creates = true → nonceIsFresh env.storage t.submitter t.nonce = true) →
    (stop.AnsweredStale → env.AnsweredStale) ∧
    ∀ s, stop.storage (lastNonceKey s) = env.storage (lastNonceKey s) ∨ ∃ t ∈ turns,
      t.submitter = s ∧ stop.storage (lastNonceKey s) = some (encodeU64 t.nonce))
    ?_ (fun h => h) ?_ ?_ payloads env hincrease hfresh
  · exact fun env _ _ => ⟨fun h => h, fun _ => Or.inl rfl⟩
  · intro t _ hfresh
    refine ⟨fun h => ?_, fun s => ?_⟩
    · rcases t.after_answeredStale h with h | ⟨hcreates, hstale⟩
      · exact h
      · rw [hfresh t List.mem_cons_self hcreates] at hstale
        cases hstale
    · exact (t.after_lastNonce host hash s).imp_right fun h => ⟨t, List.mem_cons_self, h⟩
  · intro env mid stop turns turns' h h' hincrease hfresh
    obtain ⟨hfirst, hrest, hbefore⟩ := List.pairwise_append.mp hincrease
    obtain ⟨hstale, hmoved⟩ := h hfirst fun t ht => hfresh t (List.mem_append_left _ ht)
    -- What is fresh at the start is fresh after the first stretch.
    obtain ⟨hstale', hmoved'⟩ := h' hrest (by
      intro t ht hcreates
      rcases hmoved t.submitter with hsame | ⟨earlier, hearlier, hsubmitter, hnew⟩
      · unfold nonceIsFresh
        rw [hsame]
        exact hfresh t (List.mem_append_right _ ht) hcreates
      · exact nonceIsFresh_of_lastNonce hnew (hbefore earlier hearlier t ht hcreates hsubmitter))
    refine ⟨fun h => hstale (hstale' h), fun s => ?_⟩
    rcases hmoved' s with hsame | ⟨t, ht, hsubmitter, hnew⟩
    · rcases hmoved s with hsame' | ⟨t, ht, hsubmitter, hnew⟩
      · exact Or.inl (hsame.trans hsame')
      · exact Or.inr ⟨t, List.mem_append_left _ ht, hsubmitter, hsame.trans hnew⟩
    · exact Or.inr ⟨t, List.mem_append_right _ ht, hsubmitter, hnew⟩

/-! ### Concrete calls -/

/-- A host that creates services `1, 2, 3, …` and takes every transfer and every write. -/
def countingHost : Host UInt64 where
  new _ _ _ _ services := (services + 1, services + 1)
  transfer _ _ _ _ services := (0, services)
  write _ _ services := (true, services)

def emptyEnv : Env UInt64 where
  storage _ := none
  host := 0

open Reference

/-- A call with one operation of one submitter. -/
def oneOperation (nonce : UInt64) (command : SystemCommandV2) : Option Bytes :=
  let op := SystemOpV2.new crypto alice nonce command
  some (SystemOpBatch.encode ⟨[op], by simp⟩)

def creating (nonce : UInt64) : Option Bytes :=
  oneOperation nonce (.createService (FixedBytes.fill 32 5) 1 0 0)

def allocating (nonce : UInt64) : Option Bytes := oneOperation nonce (.applyAllocation 1 1 10)

/-- Creations and an allocation in order of their nonces, then a creation that comes too
late: two services. -/
theorem service0_nonces_rise_four_calls :
    let payloads := [creating 5, allocating 7, creating 8, creating 8]
    let turns := callsTurns countingHost crypto.blake2_256 payloads emptyEnv
    (∀ t ∈ turns, t.notBelow crypto.blake2_256 = true) ∧
    turns.filterMap (Turn.created countingHost crypto.blake2_256) =
      [(alice.toList, 5), (alice.toList, 8)] ∧
    (turns.map Turn.env ++
      [calls countingHost crypto.blake2_256 payloads emptyEnv]).Pairwise NoncesLe ∧
    (turns.filterMap (Turn.created countingHost crypto.blake2_256)).Nodup := by
  have hbelow : ∀ t ∈ callsTurns countingHost crypto.blake2_256
      [creating 5, allocating 7, creating 8, creating 8] emptyEnv,
      t.notBelow crypto.blake2_256 = true :=
    List.all_eq_true.mp (by decide +kernel)
  exact ⟨hbelow, by decide +kernel, service0_nonces_rise countingHost _ (fun _ _ _ => rfl) _ _
    hbelow⟩

/-- Two creations with an allocation between them. -/
theorem service0_answers_fresh_three_calls :
    ¬ (calls countingHost crypto.blake2_256 [creating 5, allocating 6, creating 7]
      emptyEnv).AnsweredStale := by
  have hfresh := service0_answers_fresh countingHost crypto.blake2_256
    [creating 5, allocating 6, creating 7] emptyEnv (by decide +kernel) fun _ _ _ => rfl
  intro h
  obtain ⟨_, hwritten⟩ := hfresh.1 h
  cases hwritten

/-- An allocation with a smaller nonce turns the stored nonce back, and the submitter then
creates a second service with a nonce it has used. -/
theorem allocation_turns_nonce_back :
    let hash := crypto.blake2_256
    let cell := lastNonceKey alice.toList
    (calls countingHost hash [creating 5] emptyEnv).storage cell = some (encodeU64 5) ∧
    (calls countingHost hash [creating 5, allocating 0] emptyEnv).storage cell =
      some (encodeU64 0) ∧
    (callsTurns countingHost hash [creating 5, allocating 0, creating 5] emptyEnv).filterMap
        (Turn.created countingHost hash) =
      [(alice.toList, 5), (alice.toList, 5)] ∧
    (calls countingHost hash [creating 5, allocating 0, creating 5] emptyEnv).host = 2 := by
  decide +kernel

end MiniJam.SystemService
