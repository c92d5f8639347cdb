import MiniJam.ChainClient.Client
import MiniJam.Lib.Monitor

/-!
# `MiniJam.Proofs.ClientRules`: rules for the routines of the chain client

The routines of the client work on the nonces while they hold one of its mutexes. `Works` is a
pre- and postcondition of a routine inside a `Monitor` of such a mutex. A routine that fails has
a postcondition of its own. The other mutexes play no part in it.
-/

set_option autoImplicit false

namespace MiniJam.ChainClient

variable {AccountId Ledger : Type} {T : Jam.Config AccountId Ledger} {W α β : Type}

/-- What holds after a routine that failed or did not. -/
def settled (post : α → W → Shared → Prop) (fail : W → Shared → Prop) :
    Except ChainClientError α → W → Shared → Prop
  | .ok a => post a
  | .error _ => fail

/-- Inside the monitor the routine takes `pre` to `post`, and to `fail` when it fails. -/
def Works (M : Monitor Mutex Shared W) (E : World (Query T) Query.Answer W)
    (ok : W → (q : Query T) → q.Answer → Prop) (pre : W → Shared → Prop) (x : ClientM T α)
    (post : α → W → Shared → Prop) (fail : W → Shared → Prop) : Prop :=
  Monitor.Triple M E ok pre x.run (settled post fail)

section
variable {M : Monitor Mutex Shared W} {E : World (Query T) Query.Answer W}
  {ok : W → (q : Query T) → q.Answer → Prop} {pre pre' fail fail' : W → Shared → Prop}
  {x : ClientM T α} {post post' : α → W → Shared → Prop}

/-! ### Composition -/

theorem Works.pure {a : α} (h : ∀ w s, pre w s → post a w s) :
    Works M E ok pre (pure a) post fail := Monitor.Triple.done h

variable {e : ChainClientError} {I : α → W → Shared → Prop}

theorem Works.throw (h : ∀ w s, pre w s → fail w s) :
    Works M E ok pre (throw e) post fail := Monitor.Triple.done h

/-- The rule of consequence. -/
theorem Works.conseq (hx : Works M E ok pre x post fail) (hpre : ∀ w s, pre' w s → pre w s)
    (hpost : ∀ a w s, post a w s → post' a w s) (hfail : ∀ w s, fail w s → fail' w s) :
    Works M E ok pre' x post' fail' := by
  refine Monitor.Triple.conseq hx hpre fun result w s h => ?_
  cases result with
  | ok a => exact hpost a w s h
  | error e => exact hfail w s h

/-- The rule for a sequence. -/
theorem Works.bind {f : α → ClientM T β} {post : β → W → Shared → Prop}
    (hx : Works M E ok pre x I fail) (hf : ∀ a, Works M E ok (I a) (f a) post fail) :
    Works M E ok pre (x >>= f) post fail := by
  refine Monitor.Triple.bind hx fun result => ?_
  cases result with
  | ok a => exact hf a
  | error e => exact .done fun _ _ h => h

/-- A routine whose failure is looked at. -/
theorem Works.attempt (hx : Works M E ok pre x post fail) :
    Works M E ok pre (ClientM.attempt x) (settled post fail) fail' :=
  Monitor.Triple.bind hx fun _ => .done fun _ _ h => h

/-- A guard of another mutex changes nothing. -/
theorem Works.guarded {m : Mutex} (hm : m ≠ M.gate) (hx : Works M E ok pre x post fail) :
    Works M E ok pre (ClientM.guarded m x) post fail := Monitor.Triple.guarded hm hx

/-- The rule for the shared data. -/
theorem Works.access {f : Shared → Shared} {post : Shared → W → Shared → Prop}
    (halways : ∀ w s, pre w s → M.always w (f s)) (hpost : ∀ w s, pre w s → post s w (f s)) :
    Works M E ok pre (ClientM.access f) post fail :=
  Monitor.Triple.access halways hpost fun _ => .done fun _ _ h => h

/-- The rule for a request, with what may happen before its answer. -/
theorem Works.request {q : Query T} {post : q.Reply → W → Shared → Prop}
    (h : ∀ w s, pre w s → ∀ w₁ a w₂, E.Drifts w w₁ → ok w₁ q a → E.answers w₁ q a w₂ →
      M.always w₂ s ∧ settled post fail a w₂ s) :
    Works M E ok pre (ClientM.request q) post fail :=
  Monitor.Triple.await h fun _ => .done fun _ _ h => h

/-! ### The mutex of the monitor -/

/-- A routine that ends without the mutex with a result that `R` holds of. -/
def Ends (M : Monitor Mutex Shared W) (E : World (Query T) Query.Answer W)
    (ok : W → (q : Query T) → q.Answer → Prop) (R : Except ChainClientError α → W → Prop)
    (x : ClientM T α) : Prop :=
  ∀ w₀, x.run.wp (M.logic E ok) (fun result y => ∃ w, y = .outside w ∧ R result w) (.outside w₀)

variable {R : Except ChainClientError α → W → Prop}

theorem Ends.throw (h : ∀ w, R (.error e) w) :
    Ends M E ok R (throw e : ClientM T α) := fun w₀ => ⟨w₀, rfl, h w₀⟩

theorem Ends.map {R : Except ChainClientError β → W → Prop} {f : α → β}
    (hx : Ends M E ok (fun result => R (result.map f)) x) : Ends M E ok R (f <$> x) := by
  intro w₀
  show (x.run >>= _).wp _ _ _
  rw [Async.wp_bind]
  refine Async.wp_mono Monitor.logic_monotone (fun result y hy => ?_) (hx w₀)
  cases result <;> exact hy

theorem Ends.guarded {m : Mutex} (hm : m ≠ M.gate) (hx : Ends M E ok R x) :
    Ends M E ok R (ClientM.guarded m x) :=
  fun w₀ => Monitor.wp_guarded_of_ne hm (hx w₀)

/-- What a routine owes when it gives back the mutex. -/
def owed (M : Monitor Mutex Shared W) (R : Except ChainClientError α → W → Prop)
    (result : Except ChainClientError α) (w : W) (s : Shared) : Prop := M.inv w s ∧ R result w

/-- A routine that holds the mutex for the length of its work. -/
theorem Ends.gate (hx : Monitor.Triple M E ok M.inv x.run (owed M R)) :
    Ends M E ok R (ClientM.guarded M.gate x) := hx.gate

/-- A routine that holds the mutex in a variable, and another one to the end of its last
expression. -/
theorem Ends.gateTail {R : Except ChainClientError β → W → Prop} {temporary : Mutex}
    {last : α → ClientM T β} (htemporary : temporary ≠ M.gate)
    (hx : Works M E ok M.inv x I fun w s => M.inv w s ∧ ∀ e, R (.error e) w)
    (hlast : ∀ a, Monitor.Triple M E ok (I a) (last a).run (owed M R)) :
    Ends M E ok R (ClientM.guardedTail [M.gate] temporary x last) := by
  intro w₀
  refine (Monitor.logic_lock_gate _).mpr fun w s _ hinv => ?_
  rw [List.foldr_nil, Async.wp_bind]
  refine Async.wp_mono Monitor.logic_monotone (fun result y hy => ?_) (hx w s hinv)
  cases y with
  | outside w => exact hy.elim
  | inside w s =>
    cases result with
    | error e => exact (Monitor.logic_unlock_gate _).mpr ⟨hy.1, w, rfl, hy.2 e⟩
    | ok a =>
      refine (Monitor.logic_lock_of_ne htemporary _).mpr ?_
      rw [Async.wp_bind]
      refine Async.wp_mono Monitor.logic_monotone (fun result y hy => ?_) (hlast a w s hy)
      cases y with
      | outside w => exact hy.elim
      | inside w s =>
        refine (Monitor.logic_unlock_gate _).mpr ⟨hy.1, ?_⟩
        exact (Monitor.logic_unlock_of_ne htemporary _).mpr ⟨w, rfl, hy.2⟩

/-! ### Routines -/

/-- A failed request is followed by an attempt to reconnect. -/
theorem works_recover (error : ChainClientError) (hgate : .rpc ≠ M.gate)
    (hconnect : ∀ w s, pre w s → ∀ w₁ a w₂, E.Drifts w w₁ → ok w₁ .connect a →
      E.answers w₁ .connect a w₂ → M.always w₂ s ∧ pre w₂ s) :
    Works M E ok pre (recover error : ClientM T Unit) (fun _ => pre) fail := by
  have hsettled : ∀ result w s,
      settled (fun _ : Unit => pre) pre result w s → pre w s := by
    intro result w s h
    cases result <;> exact h
  have hreconnect : Works M E ok pre (reconnect : ClientM T Unit) (fun _ => pre) pre := by
    refine .bind (I := fun _ => pre) (.request fun w s h w₁ a w₂ hdrifts hok hanswer => ?_)
      fun _ => .guarded hgate (.pure fun _ _ h => h)
    obtain ⟨halways, hpre⟩ := hconnect w s h w₁ a w₂ hdrifts hok hanswer
    cases a <;> exact ⟨halways, hpre⟩
  unfold recover
  split
  · exact .bind (.attempt hreconnect) fun result => .pure fun w s => hsettled result w s
  · exact .pure fun _ _ h => h

theorem works_updateNonce {f : NonceCursor → NonceCursor} {post : W → Shared → Prop}
    (hgate : .nextNonce ≠ M.gate)
    (h : ∀ w s, pre w s → M.always w { s with nextNonce := f s.nextNonce } ∧
      post w { s with nextNonce := f s.nextNonce }) :
    Works M E ok pre (ClientM.updateNonce f : ClientM T Unit) (fun _ => post) fail :=
  .guarded hgate (.bind (I := fun _ => post)
    (.access (fun w s hpre => (h w s hpre).1) fun w s hpre => (h w s hpre).2)
    fun _ => .pure fun _ _ h => h)

theorem works_setSystemOpNonce {next : Option UInt64} {post : W → Shared → Prop}
    (hgate : .nextSystemOpNonce ≠ M.gate)
    (h : ∀ w s, pre w s → M.always w { s with nextSystemOpNonce := next } ∧
      post w { s with nextSystemOpNonce := next }) :
    Works M E ok pre (ClientM.setSystemOpNonce next : ClientM T Unit) (fun _ => post) fail :=
  .guarded hgate (.bind (I := fun _ => post)
    (.access (fun w s hpre => (h w s hpre).1) fun w s hpre => (h w s hpre).2)
    fun _ => .pure fun _ _ h => h)

end

end MiniJam.ChainClient
