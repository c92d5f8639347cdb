import MiniJam.Proofs.ClientRules
import MiniJam.Runtime.Reference

/-!
# `MiniJam.Proofs.ClientNonces`: the account nonces of the chain client

`next_nonce` is the next account nonce to sign with, or unknown. A call takes a nonce first and
then uses it. `NonceUse` reads off the log the value that the node last gave, and the nonces of
the extrinsics handed to the node since then.

While nobody holds `submit_lock`, the nonces from that value up to the cursor were handed to the
node exactly once, and those from the cursor on were not. While a call has taken a nonce and not
yet used it, that nonce is missing.

The nonce is lost when the genesis hash cannot be read after the nonce was taken: the call fails,
but the cursor stays behind that nonce (`genesis_failure_leaves_gap`). In every other run there
are no gaps and no reuse (`account_nonces_gapless`).
-/

set_option autoImplicit false

namespace MiniJam.ChainClient

variable {AccountId Ledger : Type} {T : Jam.Config AccountId Ledger}

/-! ### The use of nonces -/

/-- The account nonce the node last gave, and the nonces handed to it since, the latest first. -/
structure NonceUse where
  synced : Option UInt32 := none
  handed : List UInt32 := []

/-- A request and its answer. -/
abbrev Exchange (T : Jam.Config AccountId Ledger) : Type := Sigma (Query.Answer (T := T))

/-- The nonce of the extrinsic that a request hands to the node. -/
def Query.handed : Query T → Option UInt32
  | .submitExtrinsic encoded => some encoded.nonce
  | .submitAndWatch encoded => some encoded.nonce
  | _ => none

def NonceUse.after (use : NonceUse) : Exchange T → NonceUse
  | ⟨.accountNonce, .ok nonce⟩ => { synced := some nonce }
  | ⟨q, _⟩ => { use with handed := q.handed.toList ++ use.handed }

/-- The use of nonces in a log. -/
def nonceUse (log : List (Exchange T)) : NonceUse := log.foldr (fun e use => use.after e) {}

/-- The nonces from `n` up to `k` were handed to the node exactly once. -/
def NonceUse.Complete (use : NonceUse) (n k : UInt32) : Prop :=
  ∀ j, n ≤ j → j < k → use.handed.count j = 1

/-- Whenever an extrinsic was handed to the node, every nonce below it had been. -/
def Gapless (log : List (Exchange T)) : Prop :=
  ∀ e earlier, e :: earlier <:+ log → ∀ nonce, e.1.handed = some nonce →
    ∀ n, (nonceUse earlier).synced = some n → (nonceUse earlier).Complete n nonce

/-- The node gave `n`, and since then the nonces up to `k` were used and those from `k` on were
not. The largest nonce is used again and again, because the cursor saturates there. -/
structure NonceUse.Numbered (use : NonceUse) (n k : UInt32) : Prop where
  synced : use.synced = some n
  used : use.Complete n k
  unused : ∀ j, k ≤ j → j.toNat ≠ u32Max → use.handed.count j = 0

namespace NonceUse

variable {use : NonceUse} {n k : UInt32}

/-- After a sync no nonce was handed over. -/
theorem Numbered.sync (n : UInt32) : NonceUse.Numbered { synced := some n } n n where
  synced := rfl
  used j hle hlt := by
    rw [UInt32.le_iff_toNat_le] at hle
    rw [UInt32.lt_iff_toNat_lt] at hlt
    omega
  unused _ _ _ := rfl

theorem le_satAdd_one (k : UInt32) : k ≤ k.satAdd 1 := by
  have hmax := k.toNat_lt
  rw [UInt32.le_iff_toNat_le, UInt32.toNat_satAdd]
  simp only [u32Max, UInt32.toNat_one]
  omega

/-- Handing over the next nonce. -/
theorem Numbered.hand (h : use.Numbered n k) :
    NonceUse.Numbered { use with handed := k :: use.handed } n (k.satAdd 1) where
  synced := h.synced
  used j hle hlt := by
    show (k :: use.handed).count j = 1
    rw [UInt32.lt_iff_toNat_lt, UInt32.toNat_satAdd] at hlt
    -- The nonce is used once, and those before it as they were.
    by_cases hj : j = k
    · subst hj
      rw [List.count_cons_self, h.unused j (UInt32.le_refl j) (by omega)]
    · have hne : j.toNat ≠ k.toNat := fun heq => hj (UInt32.toNat_inj.mp heq)
      rw [List.count_cons_of_ne (Ne.symm hj)]
      refine h.used j hle ?_
      rw [UInt32.lt_iff_toNat_lt]
      simp only [UInt32.toNat_one] at hlt
      omega
  unused j hle hmax := by
    show (k :: use.handed).count j = 0
    rw [UInt32.le_iff_toNat_le, UInt32.toNat_satAdd] at hle
    have hbound := j.toNat_lt
    simp only [u32Max, UInt32.toNat_one] at hle hmax
    -- Below the maximum the cursor does not saturate.
    have hne : k ≠ j := by
      rintro rfl
      omega
    rw [List.count_cons_of_ne hne]
    refine h.unused j ?_ hmax
    rw [UInt32.le_iff_toNat_le]
    omega

/-! ### The cursor

What the value of the cursor says about the nonces, at the moments of a call. -/

/-- Between calls: all nonces below the cursor were used. -/
def Known (use : NonceUse) (next : Option UInt32) : Prop :=
  ∀ k, next = some k → ∃ n, use.Numbered n k

/-- A nonce was taken from the cursor and is not used yet. -/
def Taken (nonce : UInt32) (use : NonceUse) (next : Option UInt32) : Prop :=
  next = some (nonce.satAdd 1) ∧ ∃ n, use.Numbered n nonce

/-- The next nonce was read and left where it was. -/
def Peeked (nonce : UInt32) (use : NonceUse) (next : Option UInt32) : Prop :=
  (next = none ∨ next = some nonce) ∧ ∃ n, use.Numbered n nonce

/-- The nonce that was taken was used. -/
def Used (nonce : UInt32) (use : NonceUse) (next : Option UInt32) : Prop :=
  next = some (nonce.satAdd 1) ∧ ∃ n, use.Numbered n (nonce.satAdd 1)

/-- The nonce that was read was used, and the cursor has not passed it yet. -/
def Sent (nonce : UInt32) (use : NonceUse) (next : Option UInt32) : Prop :=
  (next = none ∨ next = some nonce) ∧ ∃ n, use.Numbered n (nonce.satAdd 1)

/-- At any moment: of the nonces below the cursor only the last may not be used yet. -/
def Bounded (use : NonceUse) (next : Option UInt32) : Prop :=
  ∀ k, next = some k → ∃ n, use.synced = some n ∧ ∀ j, n ≤ j → j < k →
    use.handed.count j = 1 ∨ j.toNat + 1 = k.toNat ∧ use.handed.count j = 0

variable {next : Option UInt32} {nonce : UInt32}

/-- An unknown cursor promises nothing. -/
theorem known_none : Known use none := nofun

/-- A known cursor bounds the nonces that were handed over. -/
theorem Known.bounded (h : Known use next) : Bounded use next := by
  intro k hk
  obtain ⟨n, hn⟩ := h k hk
  exact ⟨n, hn.synced, fun j hle hlt => .inl (hn.used j hle hlt)⟩

theorem Taken.bounded (h : Taken nonce use next) : Bounded use next := by
  obtain ⟨rfl, n, hn⟩ := h
  rintro _ ⟨⟩
  refine ⟨n, hn.synced, fun j hle hlt => ?_⟩
  rw [UInt32.lt_iff_toNat_lt, UInt32.toNat_satAdd] at hlt
  rw [UInt32.toNat_satAdd]
  simp only [UInt32.toNat_one] at hlt ⊢
  by_cases hj : j.toNat < nonce.toNat
  · exact .inl (hn.used j hle (UInt32.lt_iff_toNat_lt.mpr hj))
  · refine .inr ⟨by omega, hn.unused j ?_ (by omega)⟩
    rw [UInt32.le_iff_toNat_le]
    omega

/-- Looking at the cursor leaves it known. -/
theorem Peeked.known (h : Peeked nonce use next) : Known use next := by
  obtain ⟨rfl | rfl, n, hn⟩ := h
  · exact known_none
  · rintro _ ⟨⟩
    exact ⟨n, hn⟩

/-- A nonce that was handed over closes the gap. -/
theorem Used.known (h : Used nonce use next) : Known use next := by
  obtain ⟨rfl, n, hn⟩ := h
  rintro _ ⟨⟩
  exact ⟨n, hn⟩

theorem Sent.bounded (h : Sent nonce use next) : Bounded use next := by
  obtain ⟨rfl | rfl, n, hn⟩ := h
  · nofun
  · rintro _ ⟨⟩
    refine ⟨n, hn.synced, fun j hle hlt => .inl (hn.used j hle ?_)⟩
    exact UInt32.lt_of_lt_of_le hlt (le_satAdd_one nonce)

/-- The nonce is handed to the node. -/
def hand (use : NonceUse) (nonce : UInt32) : NonceUse :=
  { use with handed := nonce :: use.handed }

theorem Taken.used (h : Taken nonce use next) : Used nonce (use.hand nonce) next :=
  ⟨h.1, h.2.imp fun _ hn => hn.hand⟩

theorem Peeked.sent (h : Peeked nonce use next) : Sent nonce (use.hand nonce) next :=
  ⟨h.1, h.2.imp fun _ hn => hn.hand⟩

end NonceUse

/-- After a look for a nonce at the cursor: it is empty, or a nonce was taken. -/
def NonceUse.Drawn : Option UInt32 → NonceUse → Option UInt32 → Prop
  | none, _, next => next = none
  | some nonce, use, next => Taken nonce use next

theorem NonceUse.Known.take {use : NonceUse} {cursor : NonceCursor} (h : Known use cursor.next) :
    Drawn cursor.take.1 use cursor.take.2.next := by
  unfold NonceCursor.take
  cases hnext : cursor.next with
  | none => exact hnext
  | some nonce => exact ⟨rfl, h nonce hnext⟩

theorem NonceUse.Drawn.bounded {drawn : Option UInt32} {use : NonceUse} {next : Option UInt32}
    (h : Drawn drawn use next) : Bounded use next := by
  cases drawn with
  | none =>
    obtain rfl : next = none := h
    nofun
  | some nonce => exact Taken.bounded h

/-! ### The log -/

theorem gapless_nil : Gapless ([] : List (Exchange T)) := by
  intro e earlier hsuffix
  exact absurd (List.suffix_nil.mp hsuffix) nofun

theorem Gapless.cons {log : List (Exchange T)} {e : Exchange T} (h : Gapless log)
    (he : ∀ nonce, e.1.handed = some nonce → ∀ n, (nonceUse log).synced = some n →
      (nonceUse log).Complete n nonce) : Gapless (e :: log) := by
  intro e' earlier hsuffix
  rcases List.suffix_cons_iff.mp hsuffix with heq | hsuffix
  · cases heq
    exact he
  · exact h e' earlier hsuffix

/-- The log has no gaps, and `P` holds of the use of the nonces and the cursor. -/
def Counts (P : NonceUse → Option UInt32 → Prop) (log : List (Exchange T)) (s : Shared) : Prop :=
  Gapless log ∧ P (nonceUse log) s.nextNonce.next

/-- `submit_lock` protects the cursor. -/
def cursorMonitor (T : Jam.Config AccountId Ledger) : Monitor Mutex Shared (List (Exchange T)) where
  gate := .submitLock
  inv := Counts NonceUse.Known
  always := Counts NonceUse.Bounded

/-- A routine under `submit_lock`, with the answers that `ok` allows. -/
abbrev Numbers (ok : (q : Query T) → q.Answer → Prop) {α : Type}
    (pre : NonceUse → Option UInt32 → Prop) (x : ClientM T α)
    (post : α → NonceUse → Option UInt32 → Prop) (fail : NonceUse → Option UInt32 → Prop) : Prop :=
  Works (cursorMonitor T) (World.log _ _) (fun _ => ok) (Counts pre) x (fun a => Counts (post a))
    (Counts fail)

section
variable {ok : (q : Query T) → q.Answer → Prop} {pre fail : NonceUse → Option UInt32 → Prop}
  {nonce : UInt32}

open NonceUse

variable {q : Query T}

/-- A request. What it hands to the node has no gap below it. -/
theorem numbers_request {post : q.Reply → NonceUse → Option UInt32 → Prop}
    (hhanded : ∀ use next, pre use next → ∀ nonce, q.handed = some nonce →
      ∀ n, use.synced = some n → use.Complete n nonce)
    (hok : ∀ r, ok q (.ok r) → ∀ use next, pre use next →
      Bounded (use.after ⟨q, .ok r⟩) next ∧ post r (use.after ⟨q, .ok r⟩) next)
    (herror : ∀ e, ok q (.error e) → ∀ use next, pre use next →
      Bounded (use.after ⟨q, .error e⟩) next ∧ fail (use.after ⟨q, .error e⟩) next) :
    Numbers ok pre (ClientM.request q) post fail := by
  refine .request ?_
  rintro log s ⟨hgapless, hpre⟩ log₁ a log₂ hdrifts hallowed rfl
  obtain rfl := World.drifts_log hdrifts
  have hgapless' : Gapless (⟨q, a⟩ :: log₁) := hgapless.cons (hhanded _ _ hpre)
  cases a with
  | ok r =>
    obtain ⟨hbounded, hpost⟩ := hok r hallowed _ _ hpre
    exact ⟨⟨hgapless', hbounded⟩, hgapless', hpost⟩
  | error e =>
    obtain ⟨hbounded, hfail⟩ := herror e hallowed _ _ hpre
    exact ⟨⟨hgapless', hbounded⟩, hgapless', hfail⟩

/-- The node is asked for no nonce and is handed nothing. -/
def Query.isQuiet : Query T → Bool
  | .accountNonce => false
  | .submitExtrinsic _ => false
  | .submitAndWatch _ => false
  | _ => true

theorem Query.handed_of_isQuiet (hq : q.isQuiet = true) : q.handed = none := by
  cases q <;> first | rfl | cases hq

theorem Query.after_of_isQuiet (hq : q.isQuiet = true) (use : NonceUse) (a : q.Answer) :
    use.after ⟨q, a⟩ = use := by
  cases q <;> first | rfl | cases hq

theorem numbers_quiet (hq : q.isQuiet = true)
    (hbounded : ∀ use next, pre use next → Bounded use next)
    (herror : ∀ e, ok q (.error e) → ∀ use next, pre use next → fail use next) :
    Numbers ok pre (ClientM.request q) (fun _ => pre) fail := by
  refine numbers_request (fun _ _ _ nonce hnonce => ?_) (fun r _ use next h => ?_)
    fun e he use next h => ?_
  · rw [Query.handed_of_isQuiet hq] at hnonce
    cases hnonce
  · rw [Query.after_of_isQuiet hq]
    exact ⟨hbounded use next h, h⟩
  · rw [Query.after_of_isQuiet hq]
    exact ⟨hbounded use next h, herror e he use next h⟩

variable {α : Type}

/-- A request through the connection. -/
theorem numbers_guarded {m : Mutex} {x : ClientM T α} {post : α → NonceUse → Option UInt32 → Prop}
    (hm : m ≠ .submitLock) (hx : Numbers ok pre x post fail) :
    Numbers ok pre (ClientM.guarded m x) post fail :=
  .guarded hm hx

theorem numbers_recover (error : ChainClientError) :
    Numbers ok Known (recover error : ClientM T Unit) (fun _ => Known) fail := by
  refine works_recover error nofun ?_
  rintro log s ⟨hgapless, hknown⟩ log₁ a log₂ hdrifts - rfl
  obtain rfl := World.drifts_log hdrifts
  exact ⟨⟨hgapless.cons nofun, hknown.bounded⟩, hgapless.cons nofun, hknown⟩

theorem numbers_invalidate :
    Numbers ok pre (ClientM.updateNonce NonceCursor.invalidate : ClientM T Unit) (fun _ => Known)
      fail :=
  works_updateNonce nofun fun _ _ h => ⟨⟨h.1, nofun⟩, h.1, nofun⟩

/-- The cursor passes a nonce that was used. -/
theorem numbers_commit
    (hused : ∀ use next, pre use next → ∃ n, use.Numbered n (nonce.satAdd 1)) :
    Numbers ok pre (ClientM.updateNonce (NonceCursor.commit nonce) : ClientM T Unit)
      (fun _ => Known) fail := by
  have hknown : ∀ use next, pre use next → Known use (some (nonce.satAdd 1)) :=
    fun use next h => Used.known ⟨rfl, hused use next h⟩
  exact works_updateNonce nofun fun _ _ h =>
    ⟨⟨h.1, (hknown _ _ h.2).bounded⟩, h.1, hknown _ _ h.2⟩

theorem numbers_setSystemOpNonce (value : Option UInt64) :
    Numbers ok Known (ClientM.setSystemOpNonce value : ClientM T Unit) (fun _ => Known) fail :=
  works_setSystemOpNonce nofun fun _ _ h => ⟨⟨h.1, h.2.bounded⟩, h⟩

/-- The node is asked for the account nonce. -/
theorem numbers_accountNonce :
    Numbers ok (fun _ next => next = none) (ClientM.request .accountNonce)
      (fun nonce use next => next = none ∧ ∃ n, use.Numbered n nonce) Known := by
  refine numbers_request nofun (fun nonce _ use next h => ?_) fun e _ use next h => ?_
  · subst h
    exact ⟨nofun, rfl, nonce, .sync nonce⟩
  · subst h
    exact ⟨nofun, nofun⟩

/-- The nonce is taken from the cursor before anything else is done with it. -/
theorem numbers_allocateNonce :
    Numbers ok Known (allocateNonce : ClientM T UInt32) Taken Known := by
  refine numbers_guarded nofun (.bind (I := fun shared => Counts (Drawn shared.nextNonce.take.1))
    (.access (fun _ _ h => ⟨h.1, h.2.take.bounded⟩) fun _ _ h => ⟨h.1, h.2.take⟩) fun shared => ?_)
  cases shared.nextNonce.take.1 with
  | some nonce => exact .pure fun _ _ h => h
  | none =>
    refine .bind (numbers_guarded nofun numbers_accountNonce) fun nonce => ?_
    have htaken : ∀ use, (∃ n, use.Numbered n nonce) → Taken nonce use (some (nonce.satAdd 1)) :=
      fun _ h => ⟨rfl, h⟩
    exact .bind (I := fun _ => Counts (Taken nonce)) (.access
      (fun _ _ h => ⟨h.1, (htaken _ h.2.2).bounded⟩) fun _ _ h => ⟨h.1, htaken _ h.2.2⟩)
      fun _ => .pure fun _ _ h => h

/-- The genesis hash is read while the nonce waits to be used. -/
theorem numbers_genesisHash (hgenesis : ∀ e, ¬ ok .genesisHash (.error e)) :
    Numbers ok (Taken nonce) (ClientM.guarded .rpc (ClientM.request .genesisHash))
      (fun _ => Taken nonce) Known :=
  numbers_guarded nofun (numbers_quiet rfl (fun _ _ => Taken.bounded)
    fun e he => absurd he (hgenesis e))

/-- What is handed over next leaves no gap. -/
theorem complete_of_numbered {use : NonceUse} {n k : UInt32} (hn : ∃ n, use.Numbered n k)
    (hsynced : use.synced = some n) : use.Complete n k := by
  obtain ⟨n', hn'⟩ := hn
  cases hn'.synced.symm.trans hsynced
  exact hn'.used

/-- An extrinsic is handed to the node, whether it takes it or not. -/
theorem numbers_hand {post : NonceUse → Option UInt32 → Prop} (hq : q.handed = some nonce)
    (hafter : ∀ use a, NonceUse.after use ⟨q, a⟩ = use.hand nonce)
    (hpre : ∀ use next, pre use next → ∃ n, use.Numbered n nonce)
    (hpost : ∀ use next, pre use next → post (use.hand nonce) next)
    (hbounded : ∀ use next, post use next → Bounded use next) :
    Numbers ok pre (ClientM.request q) (fun _ => post) post := by
  refine numbers_request (fun use next h nonce' hnonce' n hn => ?_) (fun r _ use next h => ?_)
    fun e _ use next h => ?_
  · cases hq.symm.trans hnonce'
    exact complete_of_numbered (hpre use next h) hn
  all_goals
    rw [hafter]
    exact ⟨hbounded _ _ (hpost use next h), hpost use next h⟩

/-- A routine leaves the nonces as it should when it gives back `submit_lock`. -/
theorem owed_of_numbers {x : ClientM T α} {P : NonceUse → Option UInt32 → Prop}
    (hx : Numbers ok P x (fun _ => Known) Known) :
    Monitor.Triple (cursorMonitor T) (World.log _ _) (fun _ => ok) (Counts P) x.run
      (owed (cursorMonitor T) fun _ _ => True) := by
  refine Monitor.Triple.conseq hx (fun _ _ h => h) fun result log s h => ?_
  cases result <;> exact ⟨h, trivial⟩

/-- What follows a submission that failed. -/
theorem numbers_failed (error : ChainClientError) :
    Numbers ok pre (do
      ClientM.updateNonce NonceCursor.invalidate
      recover error
      throw error : ClientM T α) (fun _ => Known) Known :=
  .bind numbers_invalidate fun _ => .bind (numbers_recover error) fun _ => .throw fun _ _ h => h

/-- The routine ends with the nonces in order. -/
abbrev EndsInOrder (ok : (q : Query T) → q.Answer → Prop) {α : Type} (x : ClientM T α) : Prop :=
  Ends (cursorMonitor T) (World.log _ _) (fun _ => ok) (fun _ _ => True) x

theorem ends_submitCall (hgenesis : ∀ e, ¬ ok .genesisHash (.error e)) (call : Call T)
    (correlation : Hash) : EndsInOrder ok (submitCall call correlation) := by
  refine Ends.gateTail (M := cursorMonitor T) (I := fun encoded => Counts (Taken encoded.nonce))
    nofun ?_ fun encoded => owed_of_numbers ?_
  · refine Works.conseq (.bind numbers_allocateNonce fun nonce =>
      .bind (numbers_genesisHash hgenesis) fun genesis => .pure fun _ _ h => h)
      (fun _ _ h => h) (fun _ _ _ h => h) fun _ _ h => ⟨h, fun _ => trivial⟩
  · refine .bind (.attempt (numbers_hand rfl (fun _ _ => rfl) (fun _ _ h => h.2)
      (fun _ _ => Taken.used) fun _ _ h => h.known.bounded)) fun submitted => ?_
    cases submitted with
    | ok extrinsicHash => exact .pure fun _ _ h => ⟨h.1, h.2.known⟩
    | error error => exact numbers_failed error

theorem ends_submitCallAndWatch (hgenesis : ∀ e, ¬ ok .genesisHash (.error e)) (call : Call T)
    (correlation : Hash) : EndsInOrder ok (submitCallAndWatch call correlation) := by
  refine Ends.gate (M := cursorMonitor T) (owed_of_numbers (P := Known) ?_)
  refine .bind numbers_allocateNonce fun nonce => ?_
  refine .bind (numbers_genesisHash hgenesis) fun genesis => ?_
  refine .bind (.attempt (numbers_guarded nofun (numbers_hand rfl (fun _ _ => rfl)
    (fun _ _ h => h.2) (fun _ _ => Taken.used) fun _ _ h => h.known.bounded))) fun watched => ?_
  cases watched with
  | error error => exact numbers_failed error
  | ok result =>
    dsimp only
    split
    · exact .throw fun _ _ h => ⟨h.1, h.2.known⟩
    · refine .bind (numbers_commit fun _ _ h => h.2) fun _ => ?_
      refine .bind (numbers_guarded nofun (numbers_quiet rfl (fun _ _ => Known.bounded)
        fun _ _ _ _ h => h)) fun (index, outcome) => ?_
      cases outcome with
      | failed error => exact .throw fun _ _ h => h
      | success => exact .pure fun _ _ h => h

/-- The next nonce is read and not taken. -/
theorem numbers_peekNonce : Numbers ok Known (peekNonce : ClientM T UInt32) Peeked Known := by
  refine numbers_guarded nofun (.bind (I := fun shared => Counts fun use next =>
      next = shared.nextNonce.peek ∧ Known use next)
    (.access (fun _ _ h => ⟨h.1, h.2.bounded⟩) fun _ _ h => ⟨h.1, rfl, h.2⟩) fun shared => ?_)
  cases shared.nextNonce.peek with
  | some nonce =>
    refine .pure fun log s h => ⟨h.1, ?_⟩
    obtain ⟨hnext, hknown⟩ := h.2
    exact ⟨.inr hnext, hknown nonce hnext⟩
  | none =>
    exact (numbers_guarded (m := .rpc) nofun numbers_accountNonce).conseq
      (fun _ _ h => ⟨h.1, h.2.1⟩) (fun _ _ _ h => ⟨h.1, .inl h.2.1, h.2.2⟩) fun _ _ h => h

theorem numbers_prepareSystemCommandInner (account : AccountId) (command : SystemCommandV2) :
    Numbers ok Known (prepareSystemCommandInner account command : ClientM T _)
      (fun prepared use next => prepared.encodedExtrinsic.nonce = prepared.submittedNonce ∧
        Peeked prepared.submittedNonce use next) Known := by
  have hsystem : ∀ sender, Numbers ok Known (nextSystemNonce sender : ClientM T _)
      (fun _ => Known) Known := by
    intro sender
    refine .bind (I := fun _ => Counts Known) (.access (fun _ _ h => ⟨h.1, h.2.bounded⟩)
      fun _ _ h => h) fun shared => ?_
    cases shared.nextSystemOpNonce with
    | some nonce => exact .pure fun _ _ h => h
    | none =>
      exact numbers_guarded nofun (numbers_quiet rfl (fun _ _ => Known.bounded) fun _ _ _ _ h => h)
  refine numbers_guarded nofun (.bind (hsystem _) fun systemNonce => ?_)
  refine .bind numbers_peekNonce fun submittedNonce => ?_
  refine .bind (numbers_guarded nofun (numbers_quiet rfl (fun _ _ h => h.known.bounded)
    fun _ _ _ _ h => h.known)) fun genesis => ?_
  exact .pure fun _ _ h => ⟨h.1, rfl, h.2⟩

/-- The account nonce is settled before the outcome is known. -/
theorem numbers_completePreparedSubmission (prepared : PreparedSystemOperation T)
    (extrinsicHash : Hash) (statuses : List Json) :
    Numbers ok (Sent prepared.submittedNonce)
      (completePreparedSubmission prepared extrinsicHash statuses) (fun _ => Known) Known := by
  refine .bind (numbers_commit fun _ _ h => h.2) fun _ => .bind (I := fun _ => Counts Known) ?_
    fun (index, outcome) => .bind (I := fun _ => Counts Known) ?_ fun _ => .pure fun _ _ h => h
  · cases includedBlockFromStatuses statuses with
    | none =>
      exact .bind (numbers_setSystemOpNonce none) fun _ => .throw fun _ _ h => h
    | some block =>
      have hask : Numbers ok Known (ClientM.request (.dispatchOutcomeAt block extrinsicHash))
          (fun _ => Known) Known :=
        numbers_quiet rfl (fun _ _ => Known.bounded) fun _ _ _ _ h => h
      refine numbers_guarded nofun (.bind (.attempt hask) fun attributed => ?_)
      cases attributed with
      | ok value => exact .pure fun _ _ h => h
      | error error =>
        exact .bind (numbers_setSystemOpNonce none) fun _ => .throw fun _ _ h => h
  · cases outcome with
    | success => exact numbers_setSystemOpNonce _
    | failed error => exact numbers_setSystemOpNonce _

theorem ends_submitSystemCommand (account : AccountId) (command : SystemCommandV2) :
    EndsInOrder ok (submitSystemCommand account command : ClientM T _) := by
  refine Ends.guarded nofun (Ends.gate (M := cursorMonitor T) (owed_of_numbers (P := Known) ?_))
  refine .bind (numbers_prepareSystemCommandInner account command) fun prepared => ?_
  have hwatch : Numbers ok (fun use next =>
        prepared.encodedExtrinsic.nonce = prepared.submittedNonce ∧
          Peeked prepared.submittedNonce use next)
      (ClientM.request (.submitAndWatch prepared.encodedExtrinsic))
      (fun _ => Sent prepared.submittedNonce) (Sent prepared.submittedNonce) := by
    by_cases heq : prepared.encodedExtrinsic.nonce = prepared.submittedNonce
    · exact numbers_hand (congrArg some heq) (fun use a => congrArg use.hand heq)
        (fun _ _ h => h.2.2) (fun _ _ h => h.2.sent) fun _ _ => Sent.bounded
    · intro log s h
      exact absurd h.2.1 heq
  refine .bind (.attempt (numbers_guarded nofun hwatch)) fun watched => ?_
  cases watched with
  | ok result => exact numbers_completePreparedSubmission prepared result.1 result.2
  | error error =>
    refine .bind numbers_invalidate fun _ => .bind (numbers_setSystemOpNonce none) fun _ => ?_
    exact .bind (numbers_recover error) fun _ => .throw fun _ _ h => h

end

/-! ### The calls -/

/-- The calls that work on the nonces under `submit_lock` alone. -/
def ClientCall.isSubmission : ClientCall T → Bool
  | .prepareCreateService _ _ _ _ => false
  | .submitPreparedExtrinsic _ => false
  | _ => true

/-- The answers with which a call does not lose the nonce that it took: the genesis hash is
read. A system command takes its nonce after that. -/
def genesisRead : ClientCall T → (q : Query T) → q.Answer → Bool
  | .submitCreateService _ _ _ _, _, _ => true
  | _, .genesisHash, answer => answer.isOk
  | _, _, _ => true

theorem ends_routine (account : AccountId) (call : ClientCall T)
    (hcall : call.isSubmission = true) :
    EndsInOrder (fun q a => genesisRead call q a = true) (call.routine account) := by
  have hinto : ∀ {n : Nat} (bytes : Bytes) {next : BoundedVec UInt8 n → ClientM T Submission}
      {ok : (q : Query T) → q.Answer → Prop}, (∀ bytes, EndsInOrder ok (next bytes)) →
      EndsInOrder ok (tryInto bytes next) := by
    intro n bytes next ok hnext
    unfold tryInto
    split
    · exact Ends.throw fun _ => trivial
    · exact hnext _
  cases call with
  | submitPreimage bytes => exact .map (hinto bytes fun _ => ends_submitCall nofun _ _)
  | submitPreimageFinalized bytes =>
    exact .map (hinto bytes fun _ => ends_submitCallAndWatch nofun _ _)
  | submitWork canonical bundleRef packageHash =>
    exact .map (hinto canonical fun _ => ends_submitCallAndWatch nofun _ _)
  | submitAllocation allocationId targetService amount => exact .map (ends_submitCall nofun _ _)
  | submitCreateService codeHash codeLen minItemGas minMemoGas =>
    exact .map (ends_submitSystemCommand _ _)
  | prepareCreateService _ _ _ _ => cases hcall
  | submitPreparedExtrinsic _ => cases hcall

/-! ### Every run -/

section
variable {ι : Type} [DecidableEq ι] {account : AccountId} {calls : ι → ClientCall T}
  {h : List (Transition (Calls ι T (List (Exchange T))) (Event ι T))}
  {s : Calls ι T (List (Exchange T))}

/-- In every run in which no call fails to read the genesis hash after it took a nonce, the
nonces from the one the node last gave up to the cursor were handed to the node exactly once.
While a call holds `submit_lock`, the last of them may be the one it is about to use. No
extrinsic was ever handed to the node before those with the nonces below it. -/
theorem account_nonces_gapless (hcalls : ∀ i, (calls i).isSubmission = true)
    (hr : Run account calls h s)
    (hgenesis : Pool.Answered (fun i _ q a => genesisRead (calls i) q a = true) h) :
    (∀ k, s.shared.nextNonce.next = some k → ∃ n, (nonceUse s.world).synced = some n ∧
      ∀ j, n ≤ j → j < k → (nonceUse s.world).handed.count j = 1 ∨
        s.owner .submitLock ≠ none ∧ j.toNat + 1 = k.toNat ∧
          (nonceUse s.world).handed.count j = 0) ∧
    Gapless s.world := by
  have hguarded : (cursorMonitor T).Guarded (World.log _ _)
      (fun i _ q a => genesisRead (calls i) q a = true) (fun _ _ _ => True) s := by
    refine .of_trace ⟨nofun, nofun⟩ ⟨gapless_nil, NonceUse.known_none⟩
      ⟨gapless_nil, NonceUse.known_none.bounded⟩ (fun i => ?_) hr hgenesis
    exact Async.wp_mono Monitor.logic_monotone (fun _ _ _ => trivial)
      (ends_routine account (calls i) (hcalls i) [])
  refine ⟨fun k hk => ?_, hguarded.always.1⟩
  obtain ⟨n, hn, hnonces⟩ := hguarded.always.2 k hk
  refine ⟨n, hn, fun j hle hlt => (hnonces j hle hlt).imp_right fun ⟨hlast, hunused⟩ => ?_⟩
  refine ⟨fun hfree => ?_, hlast, hunused⟩
  -- Without a call at work the nonce would have been used.
  obtain ⟨n', hn'⟩ := (hguarded.inv hfree).2 k hk
  cases hn.symm.trans hn'.synced
  rw [hn'.used j hle hlt] at hunused
  cases hunused

end

/-! ### Runs -/

open Reference

/-- An allocation is submitted, and a service is created. -/
def submitAndCreate : Bool → ClientCall (runtime consumeAll)
  | false => .submitAllocation 1 1 1
  | true => .submitCreateService (FixedBytes.fill 32 2) 1 1 1

/-- Both ways to number an extrinsic, one after the other. -/
theorem account_nonces_gapless_two_calls : ∃ h s,
    Run alice submitAndCreate h s ∧ s.shared.nextNonce.next = some 2 ∧
      (nonceUse s.world).handed = [1, 0] ∧ Gapless s.world := by
  obtain ⟨h, s, hr, hanswered, hnext, hhanded⟩ := Pool.exists_trace_log
    (connected alice submitAndCreate [])
    (List.replicate 15 (false, healthyNode) ++ List.replicate 25 (true, healthyNode))
    (fun h s => Pool.answered (fun i _ => genesisRead (submitAndCreate i)) h = true ∧
      s.shared.nextNonce.next = some 2 ∧ (nonceUse s.world).handed = [1, 0]) (by decide +kernel)
  exact ⟨h, s, hr, hnext, hhanded, (account_nonces_gapless (fun i => by cases i <;> rfl) hr
    (Pool.answered_sound hanswered)).2⟩

/-- The answers of a node whose connection breaks when the genesis hash is read. -/
def genesisFails : (q : Query T) → q.Answer
  | .genesisHash => .error (.rpc "connection reset")
  | q => healthyNode q

/-- The first of two submissions fails to read the genesis hash. The nonce it took is never
used, and the second submission is handed to the node with the one above. -/
theorem genesis_failure_leaves_gap : ∃ h s,
    Run alice (fun _ : Bool => submitAndCreate false) h s ∧
      s.owner .submitLock = none ∧ s.shared.nextNonce.next = some 2 ∧
      (nonceUse s.world).synced = some 0 ∧ (nonceUse s.world).handed = [1] := by
  exact Pool.exists_trace_log
    (connected alice (fun _ : Bool => submitAndCreate false) [])
    (List.replicate 12 (false, genesisFails) ++ List.replicate 11 (true, healthyNode))
    (fun _ s => s.owner .submitLock = none ∧ s.shared.nextNonce.next = some 2 ∧
      (nonceUse s.world).synced = some 0 ∧ (nonceUse s.world).handed = [1]) (by decide +kernel)

end MiniJam.ChainClient
