import Csci6780.MessengersMatch

/-!
# Well-Formed Runs of the Coordinator

The results about runs assume well-behaved participants and surroundings. What the participants
have to see to is a condition on every request in the state it meets (`WellFormed`); what the
surroundings do is read off the history: connections and sends succeed, the clock runs, and
there are fewer registrations than ids.

## Main results

* `Coordinator.WellFormed.keepsMatch`: a well-formed run keeps messengers and connected
  participants in step.
-/

namespace Csci6780.PubSub

/-- A connection or a send that fails is a failure. -/
def Event.succeeded : Event → Bool
  | .connecting succeeded => succeeded
  | .sent _ _ _ succeeded => succeeded
  | _ => true

/-- The event is a registration. -/
def Event.isRegistration : Event → Bool
  | .registered _ => true
  | _ => false

namespace Coordinator

/-- The request comes from a participant that keeps to the protocol: it names a registered
participant, who is connected when it disconnects and disconnected when it reconnects. -/
def WellFormed (c : Coordinator) (x : Exchange) : Prop :=
  match x.request with
  | .register _ | .notSet => True
  | .deregister id | .sendMulticast _ id => c.registered id = true
  | .disconnect id => c.registered id = true ∧ c.connected id = true
  | .reconnect _ id => c.registered id = true ∧ c.connected id = false

instance (c : Coordinator) (x : Exchange) : Decidable (c.WellFormed x) :=
  match hrequest : x.request with
  | .register _ => .isTrue (by rw [WellFormed, hrequest]; trivial)
  | .notSet => .isTrue (by rw [WellFormed, hrequest]; trivial)
  | .deregister id => decidable_of_iff (c.registered id = true) (by rw [WellFormed, hrequest])
  | .sendMulticast _ id => decidable_of_iff (c.registered id = true) (by rw [WellFormed, hrequest])
  | .disconnect id =>
      decidable_of_iff (c.registered id = true ∧ c.connected id = true)
        (by rw [WellFormed, hrequest])
  | .reconnect _ id =>
      decidable_of_iff (c.registered id = true ∧ c.connected id = false)
        (by rw [WellFormed, hrequest])

/-- Connections and sends succeeded. -/
def AllSucceeded (c : Coordinator) : Prop := ∀ e ∈ c.trace, e.succeeded = true

/-- Connections succeeded. -/
def AllConnected (c : Coordinator) : Prop := Event.connecting false ∉ c.trace

/-- Every reading of the clock is later than the one before. -/
def ClockRuns (c : Coordinator) : Prop := (readings c.trace).Pairwise (· < ·)

/-- There are fewer registrations than ids. -/
def FewRegistrations (c : Coordinator) : Prop := c.trace.countP Event.isRegistration < 2 ^ 32

variable {c c' : Coordinator} {x : Exchange}

/-! ### Histories only grow -/

/-- What the request added to the history. -/
theorem Served.grows (h : c.Served x c') : c.trace <+: c'.trace := by
  cases h with
  | notSet => exact List.prefix_refl _
  | _ => exact List.prefix_append _ _

theorem Sound.grows (h : c.Sound) (hs : c.serve x = some c') : c.trace <+: c'.trace :=
  (served_of_serve h.queue hs).2.grows

theorem AllSucceeded.back (h : c'.AllSucceeded) (hpre : c.trace <+: c'.trace) :
    c.AllSucceeded :=
  fun e he => h e (hpre.subset he)

theorem AllSucceeded.allConnected (h : c.AllSucceeded) : c.AllConnected :=
  fun hmem => nomatch h _ hmem

theorem AllConnected.back (h : c'.AllConnected) (hpre : c.trace <+: c'.trace) :
    c.AllConnected :=
  fun hmem => h (hpre.subset hmem)

theorem AllConnected.eq_true {connected : Bool} (h : c.AllConnected)
    (hmem : Event.connecting connected ∈ c.trace) : connected = true := by
  cases connected with
  | true => rfl
  | false => exact absurd hmem h

theorem ClockRuns.back (h : c'.ClockRuns) (hpre : c.trace <+: c'.trace) : c.ClockRuns :=
  h.sublist (hpre.sublist.filterMap Event.time)

theorem FewRegistrations.back (h : c'.FewRegistrations) (hpre : c.trace <+: c'.trace) :
    c.FewRegistrations :=
  Nat.lt_of_le_of_lt hpre.sublist.countP_le h

/-- A new reading is later than the old ones. -/
theorem ClockRuns.lt {trace : List Event} {now time : ℤ}
    (h : (readings trace ++ [now]).Pairwise (· < ·)) (htime : time ∈ readings trace) :
    time < now :=
  (List.pairwise_append.mp h).2.2 time htime now (List.mem_singleton_self now)

/-- **A property of histories that holds at the end of a run held all along.** -/
theorem eachState_of_history {Q : Coordinator → Prop}
    (hback : ∀ {c c'}, Q c' → c.trace <+: c'.trace → Q c) {s : Coordinator} (hs : s.Sound)
    {xs : List Exchange} (hrun : runFrom Coordinator.serve s xs = some c) (h : Q c) :
    EachState Coordinator.serve Q s xs := by
  have hstates : EachState Coordinator.serve (fun m => m.Sound → Q m) s xs := by
    refine EachState.of_back hrun ?_ fun _ => h
    intro m x m' hstep hq hm
    exact hback (hq (hm.serve hstep)) (hm.grows hstep)
  have hsound : EachState Coordinator.serve Sound s xs :=
    EachState.of_inv_always Sound (fun _ _ _ hm => hm.serve) hs xs
  exact (hstates.and hsound).mono fun m hm => hm.1 hm.2

/-! ### Messengers and ids in well-formed runs -/

/-- A well-formed request in good surroundings keeps the match. -/
theorem WellFormed.keepsMatch (hw : c.WellFormed x) (h : c.Sound)
    (hs : c.serve x = some c') (hok : c'.AllConnected) : c.KeepsMatch x := by
  cases (served_of_serve h.queue hs).2 with
  | register portNumber id connected p ds hrequest hid hconnect =>
      obtain rfl := hok.eq_true (by simp : Event.connecting connected ∈ _)
      have hreach := reaches_of_connect hconnect
      rw [KeepsMatch, hrequest]
      exact hreach
  | deregister participantId p hrequest =>
      rw [WellFormed, hrequest] at hw
      rw [KeepsMatch, hrequest]
      exact .inl hw
  | disconnect participantId p hrequest =>
      rw [WellFormed, hrequest] at hw
      rw [KeepsMatch, hrequest]
      exact .inl hw.1
  | reconnect portNumber participantId connected p p' ds hrequest hp hconnect =>
      obtain rfl := hok.eq_true (by simp : Event.connecting connected ∈ _)
      rw [WellFormed, hrequest] at hw
      have hreach := reaches_of_connect hconnect
      rw [KeepsMatch, hrequest]
      refine ⟨hw.1, hw.2, ?_⟩
      rw [hp]
      exact hreach
  | multicast message participantId hrequest => rw [KeepsMatch, hrequest]; trivial
  | notSet hrequest => rw [KeepsMatch, hrequest]; trivial

end Coordinator

end Csci6780.PubSub
