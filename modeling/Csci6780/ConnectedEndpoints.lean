import Csci6780.ServerTask

/-!
# Endpoints that are Connected

`send_queues_` of `Server` gets an entry for each new client. `CloseDisconnected` takes the tasks
of a client that has disconnected out of `tasks_`, and nobody takes its entry out of `send_queues_`.
So an endpoint that was connected once stays in `GetConnected`, and a message to it is queued.

`Server` tracks who is connected in those runs in which `CloseDisconnected` never closes the last
connection of an endpoint.

## Main results

* `gone_still_connected`: what `Server` says of an endpoint that is gone.
* `connected_tracked_iff`: exactly when `Server` tracks who is connected.
-/

namespace Csci6780

namespace MessagePassing

namespace Connections

/-- `CloseDisconnected` has closed what the endpoint had connected, and it has not connected
again. -/
def Gone (s : Connections) (e : Endpoint) : Prop :=
  (∃ c < s.count, (s.connection c).endpoint = e) ∧
    ∀ c < s.count, (s.connection c).endpoint = e → (s.connection c).closed = true

instance (s : Connections) (e : Endpoint) : Decidable (s.Gone e) :=
  inferInstanceAs (Decidable ((∃ c, c < s.count ∧ (s.connection c).endpoint = e) ∧ _))

/-- An endpoint that is gone is not in `GetConnected`, and a message to it is refused without a
change. -/
def Tracks (s : Connections) : Prop :=
  ∀ e, s.Gone e → s.getConnected e = false ∧ ∀ running, s.dispatchSend e running = (false, s)

/-- If the step closes a connection, another one of the same endpoint is open. -/
def LeavesAnother (s : Connections) : Action → Prop
  | .look t =>
      s.running t = false →
        ∃ c < s.count, c ≠ t.connection ∧
          (s.connection c).endpoint = (s.connection t.connection).endpoint ∧
          (s.connection c).closed = false
  | _ => True

instance (s : Connections) : ∀ a, Decidable (s.LeavesAnother a)
  | .look t =>
      inferInstanceAs (Decidable (_ → ∃ c, c < s.count ∧ c ≠ t.connection ∧
        (s.connection c).endpoint = (s.connection t.connection).endpoint ∧
        (s.connection c).closed = false))
  | .runAtomic | .looked | .timeout | .accept _ _ | .newClient | .fail | .cleanUp _ | .done
  | .recv _ _ | .pop _ | .send _ _ | .requeue _ | .dispatch _ _ =>
      inferInstanceAs (Decidable True)

/-- The callback has run for every connection but the one that is being announced. -/
structure Announced (s : Connections) : Prop extends WellFormed s where
  queued : ∀ c < s.count, s.pc ≠ .announcing c →
    (s.sendQueues (s.connection c).endpoint).isSome = true

variable {base : ℕ} {s s' : Connections} {a : Action}

theorem Announced.init : Announced {} where
  toWellFormed := .init
  queued c h _ := absurd h (Nat.not_lt_zero c)

/-- **`Server` keeps an endpoint that is gone.** -/
theorem gone_still_connected (h : Announced s) {e : Endpoint} (hgone : s.Gone e) :
    s.getConnected e = true ∧ (s.dispatchSend e true).1 = true := by
  obtain ⟨⟨c, hlt, rfl⟩, hclosed⟩ := hgone
  have hpc : s.pc ≠ .announcing c := by
    intro hpc
    have hopen := (h.announcing c hpc).2
    rw [hclosed c hlt rfl] at hopen
    cases hopen
  have hqueue := h.queued c hlt hpc
  refine ⟨hqueue, ?_⟩
  obtain ⟨k, hk⟩ := Option.isSome_iff_exists.mp hqueue
  rw [dispatchSend, hk]
  rfl

/-- `Server` tracks who is connected as long as nobody is gone. -/
theorem tracks_iff (h : Announced s) : s.Tracks ↔ ∀ e, ¬s.Gone e := by
  constructor
  · intro htracks e hgone
    have hconnected := (gone_still_connected h hgone).1
    rw [(htracks e hgone).1] at hconnected
    cases hconnected
  · intro hnobody e hgone
    exact absurd hgone (hnobody e)

/-! ### What the steps do -/

/-- **Every step keeps what has been announced.** -/
theorem Announced.step (h : Announced s) (hst : Stepped base s a s') : Announced s' := by
  refine ⟨h.toWellFormed.step hst, fun k hk hne => ?_⟩
  cases hst with
  | runAtomic hpc | looked hpc | timeout hpc | done hpc | keeps _ _ hpc | cleanUp _ _ hpc =>
      exact h.queued k hk (by simp [hpc])
  | fail hpc =>
      refine h.queued k hk ?_
      rcases hpc with hpc | hpc <;> simp [hpc]
  | closes t left hpc ht hrunning =>
      have hqueue := h.queued k hk (by simp [hpc])
      rw [← disconnected_endpoint s t] at hqueue
      exact hqueue
  | accept endpoint fd hpc hfd =>
      have hkc : k ≠ s.count := fun hkc => hne (hkc ▸ rfl)
      have hlt : k < s.count + 1 := hk
      rw [accepted_connection_ne s endpoint fd hkc]
      exact h.queued k (by omega) (by simp [hpc])
  | newClient c hpc =>
      change (Function.update s.sendQueues (s.connection c).endpoint (some c)
        (s.connection k).endpoint).isSome = true
      by_cases hkc : (s.connection k).endpoint = (s.connection c).endpoint
      · rw [hkc, Function.update_self]
        rfl
      · have hother : s.pc ≠ .announcing k := by
          rw [hpc]
          intro heq
          obtain rfl := ServerTaskPc.announcing.inj heq
          exact hkc rfl
        rw [Function.update_of_ne hkc]
        exact h.queued k hk hother
  | recv | pop | send | requeue | queued =>
      rw [modify_same Connection.endpoint rfl]
      exact h.queued k hk hne
  | refused => exact h.queued k hk hne

/-- A connection's task goes on, or a message is queued for it: nobody leaves, nobody comes. -/
theorem gone_modify {c : ℕ} {f : Connection → Connection} {e : Endpoint}
    (hendpoint : (f (s.connection c)).endpoint = (s.connection c).endpoint)
    (hclosed : (f (s.connection c)).closed = (s.connection c).closed) :
    (s.modify c f).Gone e ↔ s.Gone e := by
  simp only [Gone, modify_count, modify_same Connection.endpoint hendpoint,
    modify_same Connection.closed hclosed]

/-- A new connection is of an endpoint that is not gone. -/
theorem not_gone_accepted {endpoint : Endpoint} {fd : ℕ} (hnobody : ∀ e, ¬s.Gone e)
    (e : Endpoint) : ¬(s.accepted endpoint fd).Gone e := by
  rintro ⟨⟨c, hlt, hc⟩, hclosed⟩
  have hnew : (s.accepted endpoint fd).connection s.count = { endpoint, fd } :=
    accepted_connection_self s endpoint fd
  by_cases he : endpoint = e
  · have hopen := hclosed s.count (Nat.lt_succ_self _) (by rw [hnew, he])
    rw [hnew] at hopen
    cases hopen
  · have hold : ∀ k < s.count,
        (s.accepted endpoint fd).connection k = s.connection k :=
      fun k hk => accepted_connection_ne s endpoint fd (Nat.ne_of_lt hk)
    have hcne : c ≠ s.count := by
      rintro rfl
      rw [hnew] at hc
      exact he hc
    have hlt' : c < s.count + 1 := hlt
    refine hnobody e ⟨⟨c, by omega, ?_⟩, fun k hk hke => ?_⟩
    · rw [← hold c (by omega)]
      exact hc
    · rw [← hold k hk]
      exact hclosed k (Nat.lt_succ_of_lt hk) (by rw [hold k hk, hke])

/-- When a connection is closed, its endpoint is gone unless another one of it is open. -/
theorem nobody_gone_disconnected (hnobody : ∀ e, ¬s.Gone e) {t : SocketTask}
    (ht : t.connection < s.count) :
    (∀ e, ¬(s.disconnected t).Gone e) ↔
      ∃ c < s.count, c ≠ t.connection ∧
        (s.connection c).endpoint = (s.connection t.connection).endpoint ∧
        (s.connection c).closed = false := by
  constructor
  · intro hnot
    by_contra hnone
    refine hnot (s.connection t.connection).endpoint
      ⟨⟨t.connection, ht, disconnected_endpoint s t _⟩, fun k hk hke => ?_⟩
    rw [disconnected_endpoint] at hke
    by_cases hkt : k = t.connection
    · rw [hkt, disconnected_connection_self]
    · rw [disconnected_connection_ne s hkt]
      by_contra hopen
      exact hnone ⟨k, hk, hkt, hke, Bool.eq_false_iff.mpr hopen⟩
  · rintro ⟨c, hc, hne, hce, hopen⟩ e ⟨⟨k, hk, hke⟩, hclosed⟩
    rw [disconnected_endpoint] at hke
    by_cases he : (s.connection t.connection).endpoint = e
    · have hc_closed := hclosed c hc ((disconnected_endpoint s t c).trans (hce.trans he))
      rw [disconnected_connection_ne s hne, hopen] at hc_closed
      cases hc_closed
    · -- the endpoint of the connection that is closed is another one
      refine hnobody e ⟨⟨k, hk, hke⟩, fun j hj hje => ?_⟩
      have hjt : j ≠ t.connection := by
        rintro rfl
        exact he hje
      rw [← disconnected_connection_ne s hjt]
      exact hclosed j hj ((disconnected_endpoint s t j).trans hje)

/-- **When a step leaves nobody gone.** -/
theorem nobody_gone_step (h : Announced s) (hnobody : ∀ e, ¬s.Gone e) (hst : Stepped base s a s') :
    (∀ e, ¬s'.Gone e) ↔ s.LeavesAnother a := by
  cases hst with
  | keeps t left hpc ht hrunning =>
      refine iff_of_true hnobody fun hnot => ?_
      rw [hrunning] at hnot
      cases hnot
  | closes t left hpc ht hrunning =>
      refine (nobody_gone_disconnected hnobody (h.lt_count t ((h.closing left hpc).2 ht))).trans ?_
      exact ⟨fun hother _ => hother, fun hother => hother hrunning⟩
  | accept endpoint fd hpc hfd => exact iff_of_true (not_gone_accepted hnobody) trivial
  | recv | pop | send | requeue | queued =>
      refine iff_of_true (fun e hgone => hnobody e ?_) trivial
      refine (gone_modify ?_ ?_).mp hgone <;> rfl
  | runAtomic | looked | timeout | newClient | fail | cleanUp | done | refused =>
      exact iff_of_true hnobody trivial

/-- **Exactly when `Server` tracks who is connected.** In every state of a run, `GetConnected` has
no endpoint that is gone and messages to it are refused, if and only if `CloseDisconnected` never
closes a connection without another one of the same endpoint being open. -/
theorem connected_tracked_iff {acts : List Action} (hrun : runFrom (step base) {} acts = some s') :
    EachState (step base) Tracks {} acts ↔ EachStep (step base) LeavesAnother {} acts := by
  have hany : EachStep (step base) (fun _ _ => True) {} acts := fun _ _ _ _ _ => trivial
  refine eachState_iff_eachStep Announced
    (fun m a m' hm _ hstep => hm.step (stepped_of_step hstep))
    (fun m a m' hm htracks _ hstep => ?_) .init ?_ hany hrun
  · have hst := stepped_of_step hstep
    rw [tracks_iff (hm.step hst)]
    exact nobody_gone_step hm ((tracks_iff hm).mp htracks) hst
  · rintro e ⟨⟨c, hc, -⟩, -⟩
    exact absurd hc (Nat.not_lt_zero c)

/-- A client connects again before its old connection is closed. -/
theorem connected_tracked_iff_again :
    EachState (step 5) Tracks {}
      [.runAtomic, .looked, .accept ⟨"a", 1⟩ 5, .newClient, .runAtomic, .look ⟨0, .sender⟩,
        .look ⟨0, .receiver⟩, .recv 0 false, .looked, .accept ⟨"a", 1⟩ 6, .newClient,
        .runAtomic, .look ⟨0, .receiver⟩] :=
  (connected_tracked_iff (Option.some_get (by decide)).symm).mpr (by decide)

/-- A client connects and disconnects, and stays in `GetConnected`. -/
theorem disconnected_still_connected :
    ¬∀ (base : ℕ) (acts : List Action) (s' : Connections),
      runFrom (step base) {} acts = some s' → EachState (step base) Tracks {} acts := by
  intro h
  have hend := (h 5
    [.runAtomic, .looked, .accept ⟨"a", 1⟩ 5, .newClient, .recv 0 false, .runAtomic,
      .look ⟨0, .sender⟩, .look ⟨0, .receiver⟩]
    _ (Option.some_get (by decide)).symm).last (Option.some_get (by decide)).symm
  exact absurd (hend ⟨"a", 1⟩ (by decide)).1 (by decide)

end Connections

end MessagePassing

end Csci6780
