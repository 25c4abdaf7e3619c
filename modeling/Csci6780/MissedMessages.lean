import Csci6780.AtMostOnce

/-!
# Missed Multicasts

A participant that comes back is sent what it has missed, if the log has it. A multicast gets
into the log with the first message that is sent to somebody. So a multicast that is handled
while nobody is connected is lost, also for those who come back in time.

The ids of a run are only assumed to be registered here. After 2^32 registrations the id of a
participant that is away can be handed out again, and the record of the new participant then
hides what the other one has missed; this shows in the participant being connected when it comes
back.

## Main results

* `missed_multicast_replayed_iff`: a participant that comes back in time is sent a multicast it
  has missed exactly when somebody was connected to receive it, and nobody has been given the
  id meanwhile.
-/

namespace Csci6780.PubSub

namespace Coordinator

/-- The request names a registered participant, if it names one. -/
def NamesRegistered (c : Coordinator) (x : Exchange) : Prop :=
  ∀ id, x.request.participantId = some id → c.registered id = true

instance (c : Coordinator) (x : Exchange) : Decidable (c.NamesRegistered x) :=
  match hrequest : x.request.participantId with
  | none => .isTrue (fun id h => by rw [hrequest] at h; cases h)
  | some id =>
      decidable_of_iff (c.registered id = true)
        ⟨fun h other hother => by
          rw [hrequest] at hother
          exact Option.some.inj hother ▸ h, fun h => h id hrequest⟩

/-- Messengers reach everyone who is connected, and times are readings of the clock. -/
structure Timed (c : Coordinator) : Prop where
  sound : c.Sound
  covered : ∀ id, c.connected id = true → 0 < c.messengersOf id
  records : ∀ id p, c.participants.idToParticipant id = some p →
    p.disconnectTime ∈ readings c.trace
  entries : ∀ msg ∈ c.msgLog.entries, msg.timestamp ∈ readings c.trace ∧
    msg.number < c.broadcasts

variable {c c' : Coordinator} {x : Exchange} {id : UInt32}

theorem timed_start (td : ℤ) (ds : Descriptors) : (start td ds).Timed where
  sound := sound_start td ds
  covered _ h := nomatch h
  records _ _ h := nomatch h
  entries _ h := absurd h List.not_mem_nil

/-! ### What a request does to one participant -/

/-- What a request can make of the participant with an id: it leaves it alone, removes it,
registers it now, disconnects it now, or connects it. -/
inductive Becomes (c : Coordinator) (x : Exchange) (c' : Coordinator) (id : UInt32) : Prop
  | same (hmap : c'.participants.idToParticipant id = c.participants.idToParticipant id)
      (hconnected : c'.connected id = c.connected id)
      (hcount : c.connected id = true → c.messengersOf id ≤ c'.messengersOf id)
  | removed (hname : x.request.participantId = some id)
      (hmap : c'.participants.idToParticipant id = none)
  | registered (p : Participant)
      (hmap : c'.participants.idToParticipant id = some p) (htime : p.disconnectTime = x.now)
      (hread : readings c'.trace = readings c.trace ++ [x.now])
      (hconnected : c'.connected id = true) (hcount : 0 < c'.messengersOf id)
  | disconnected (p : Participant) (hname : x.request.participantId = some id)
      (hmap : c'.participants.idToParticipant id = some p) (htime : p.disconnectTime = x.now)
      (hread : readings c'.trace = readings c.trace ++ [x.now])
      (hconnected : c'.connected id = false)
  | reconnected (p p' : Participant) (hname : x.request.participantId = some id)
      (hold : c.participants.idToParticipant id = some p)
      (hmap : c'.participants.idToParticipant id = some p')
      (htime : p'.disconnectTime = p.disconnectTime)
      (hcount : 0 < c'.messengersOf id)

/-- **What a request does to one participant.** -/
theorem Sound.becomes (h : c.Sound) (hname : c.NamesRegistered x) (hs : c.serve x = some c')
    (hok : c'.AllConnected) (id : UInt32) : c.Becomes x c' id := by
  cases (served_of_serve h.queue hs).2 with
  | register portNumber new connected p ds hrequest hid hconnect =>
      obtain rfl := hok.eq_true (by simp : Event.connecting connected ∈ _)
      have hp := record_connectToParticipant hconnect
      have hpid : p.id = new := id_connectToParticipant hconnect
      have hcount := count_append c p id
      rw [hpid] at hcount
      by_cases heq : id = new
      · rw [if_pos heq] at hcount
        refine .registered p ?_ ?_ (by simp [Event.time]) ?_ ?_
        · rw [if_pos rfl, ParticipantManager.idToParticipant_registerParticipant, hpid, heq,
            Function.update_self]
        · rw [hp]
          rfl
        · simp [Coordinator.connected, hpid, heq]
        · exact Nat.lt_of_lt_of_eq (Nat.succ_pos _) hcount.symm
      · rw [if_neg heq] at hcount
        refine .same ?_ ?_ fun _ => Nat.le_of_eq hcount.symm
        · rw [if_pos rfl, ParticipantManager.idToParticipant_registerParticipant, hpid,
            Function.update_of_ne heq]
        · simp [Coordinator.connected, hpid, heq]
  | deregister participantId p hrequest hp =>
      have hreg := hname participantId (by rw [hrequest]; rfl)
      have hpid : p.id = participantId := hp ▸ h.id_determineParticipant hreg
      have hcount := count_delete c x participantId id
      by_cases heq : id = participantId
      · refine .removed (by rw [hrequest, heq]; rfl) ?_
        rw [ParticipantManager.idToParticipant_deregisterParticipant, hpid, heq,
          Function.update_self]
      · rw [if_neg heq] at hcount
        refine .same ?_ ?_ fun _ => Nat.le_of_eq hcount.symm
        · rw [ParticipantManager.idToParticipant_deregisterParticipant, hpid,
            Function.update_of_ne heq]
        · simp [connected, hpid, heq]
  | disconnect participantId p hrequest hp =>
      have hreg := hname participantId (by rw [hrequest]; rfl)
      have hpid : p.id = participantId := hp ▸ h.id_determineParticipant hreg
      have hcount := count_delete c x participantId id
      cases hc : c.participants.isConnectedId p.id with
      | false =>
          have hsame := ParticipantManager.disconnectParticipant_of_not_connected
            c.participants p x.now hc
          refine .same ?_ ?_ fun hid => ?_
          · rw [hsame]
          · simp only [connected, hsame]
          · have hne : id ≠ participantId := by
              rintro rfl
              rw [connected, ← hpid, hc] at hid
              cases hid
            rw [if_neg hne] at hcount
            exact Nat.le_of_eq hcount.symm
      | true =>
          obtain ⟨record, hrecord⟩ := registered_iff.mp hreg
          have hmap : (c.participants.disconnectParticipant p x.now).2.idToParticipant = _ :=
            ParticipantManager.disconnectParticipant_of_connected hc (hpid ▸ hrecord)
          rw [hpid] at hmap
          by_cases heq : id = participantId
          · refine .disconnected { record with connected := false, disconnectTime := x.now }
              (by rw [hrequest, heq]; rfl) ?_ rfl ?_ ?_
            · rw [hmap, heq, Function.update_self]
            · simp [ParticipantManager.isConnected, hc, Event.time]
            · simp [connected, hpid, heq]
          · rw [if_neg heq] at hcount
            refine .same ?_ ?_ fun _ => Nat.le_of_eq hcount.symm
            · rw [hmap, Function.update_of_ne heq]
            · simp [connected, hpid, heq]
  | reconnect portNumber participantId connected p p' ds hrequest hp hconnect =>
      obtain rfl := hok.eq_true (by simp : Event.connecting connected ∈ _)
      have hreg := hname participantId (by rw [hrequest]; rfl)
      have hpid : p'.id = participantId :=
        (id_connectToParticipant hconnect).trans (hp ▸ h.id_determineParticipant hreg)
      obtain ⟨record, hrecord⟩ := registered_iff.mp hreg
      have hknown : c.participants.idToParticipant p'.id = some record := by rw [hpid, hrecord]
      have hmap := ParticipantManager.reconnectParticipant_of_known hknown
      have hconnected := h.consistent.isConnectedId_reconnectParticipant hknown
      rw [hpid] at hmap hconnected
      have hcount := count_append c p' id
      rw [hpid] at hcount
      by_cases heq : id = participantId
      · rw [if_pos heq] at hcount
        refine .reconnected record { record with connected := true } (by rw [hrequest, heq]; rfl)
          (heq ▸ hrecord) ?_ rfl ?_
        · rw [if_pos rfl, hmap, heq, Function.update_self]
        · exact Nat.lt_of_lt_of_eq (Nat.succ_pos _) hcount.symm
      · rw [if_neg heq] at hcount
        refine .same ?_ ?_ fun _ => Nat.le_of_eq hcount.symm
        · rw [if_pos rfl, hmap, Function.update_of_ne heq]
        · simp [Coordinator.connected, hconnected, heq]
  | multicast message participantId => exact .same rfl rfl fun _ => Nat.le_refl _
  | notSet => exact .same rfl rfl fun _ => Nat.le_refl _

/-! ### The log -/

/-- A request logs a new multicast at the time it reads, or nothing. -/
theorem Served.entries (h : c.Served x c') {msg : Message} (hmsg : msg ∈ c'.msgLog.entries) :
    msg ∈ c.msgLog.entries ∨ msg.number = c.broadcasts ∧ msg.timestamp = x.now ∧
      readings c'.trace = readings c.trace ++ [x.now] ∧ c.reached x ≠ [] ∧
        c'.broadcasts = c.broadcasts + 1 := by
  cases h with
  | multicast message participantId hrequest =>
      cases hr : c.reached x with
      | nil =>
          rw [hr] at hmsg
          exact .inl hmsg
      | cons m ms =>
          rw [hr] at hmsg
          refine (MessageLog.mem_of_mem_insert hmsg).imp_right ?_
          rintro rfl
          refine ⟨rfl, rfl, ?_, List.cons_ne_nil m ms, rfl⟩
          simp [Event.time, readings_broadcastEvents]
  | _ => exact .inl hmsg

theorem Served.entries_mono (h : c.Served x c') {msg : Message} (hmsg : msg ∈ c.msgLog.entries) :
    msg ∈ c'.msgLog.entries := by
  cases h with
  | multicast message participantId hrequest =>
      cases hr : c.reached x with
      | nil => exact hmsg
      | cons m ms => exact MessageLog.mem_insert_of_mem hmsg
  | _ => exact hmsg

theorem Served.td_eq (h : c.Served x c') : c'.msgLog.td = c.msgLog.td := by
  cases h with
  | multicast message participantId hrequest => cases hr : c.reached x <;> rfl
  | _ => rfl

theorem Served.broadcasts_le (h : c.Served x c') : c.broadcasts ≤ c'.broadcasts := by
  cases h with
  | multicast => exact Nat.le_succ _
  | _ => exact Nat.le_refl _

theorem Timed.serve (h : c.Timed) (hname : c.NamesRegistered x) (hs : c.serve x = some c')
    (hok : c'.AllSucceeded) : c'.Timed := by
  have hserved := (served_of_serve h.sound.queue hs).2
  have hmono : ∀ t, t ∈ readings c.trace → t ∈ readings c'.trace :=
    fun t ht => (hserved.grows.sublist.filterMap Event.time).subset ht
  have hbecomes := h.sound.becomes hname hs hok.allConnected
  constructor
  · exact h.sound.serve hs
  · intro id hconn
    cases hbecomes id with
    | same hmap hconnected hcount =>
        rw [hconnected] at hconn
        exact Nat.lt_of_lt_of_le (h.covered id hconn) (hcount hconn)
    | removed hname hmap =>
        rw [(h.sound.serve hs).not_connected (not_registered_iff.mpr hmap)] at hconn
        cases hconn
    | registered p hmap htime hread hconnected hcount => exact hcount
    | disconnected p hname hmap htime hread hconnected =>
        rw [hconnected] at hconn
        cases hconn
    | reconnected p p' hname hold hmap htime hcount => exact hcount
  · intro id q hq
    cases hbecomes id with
    | same hmap hconnected hcount => exact hmono _ (h.records id q (hmap ▸ hq))
    | removed hname hmap =>
        rw [hmap] at hq
        cases hq
    | registered p hmap htime hread hconnected hcount =>
        obtain rfl := Option.some.inj (hmap.symm.trans hq)
        rw [hread, htime]
        exact List.mem_append_right _ (List.mem_singleton_self _)
    | disconnected p hname hmap htime hread hconnected =>
        obtain rfl := Option.some.inj (hmap.symm.trans hq)
        rw [hread, htime]
        exact List.mem_append_right _ (List.mem_singleton_self _)
    | reconnected p p' hname hold hmap htime hcount =>
        obtain rfl := Option.some.inj (hmap.symm.trans hq)
        rw [htime]
        exact hmono _ (h.records id p hold)
  · intro msg hmsg
    rcases hserved.entries hmsg with hold | ⟨hnumber, htime, hread, -, hcount⟩
    · obtain ⟨ht, hlt⟩ := h.entries msg hold
      exact ⟨hmono _ ht, Nat.lt_of_lt_of_le hlt hserved.broadcasts_le⟩
    · rw [hread, htime, hnumber, hcount]
      exact ⟨List.mem_append_right _ (List.mem_singleton_self _), Nat.lt_succ_self _⟩

/-! ### While a participant is away -/

/-- What there is for participant `id` of multicast `number`, which was handled at `time` while
its record was `record`: as long as it is not connected it has that record, and a new participant
of its id has a later one; the log has the multicast with its time, if it was `logged`. -/
structure Awaits (c : Coordinator) (id : UInt32) (number : ℕ) (time : ℤ) (record : Participant)
    (logged : Prop) : Prop where
  away : c.connected id = false → c.participants.idToParticipant id = some record
  back : logged → c.connected id = true →
    ∃ p, c.participants.idToParticipant id = some p ∧ time < p.disconnectTime
  read : logged → time ∈ readings c.trace
  earlier : logged → record.disconnectTime < time
  entry : logged → ∃ msg ∈ c.msgLog.entries, msg.number = number ∧ msg.timestamp = time
  entries : ∀ msg ∈ c.msgLog.entries, msg.number = number → logged ∧ msg.timestamp = time
  number_lt : number < c.broadcasts

variable {number : ℕ} {time : ℤ} {record : Participant} {logged : Prop}

/-- A request of somebody else leaves what awaits a participant. -/
theorem Awaits.serve (h : c.Awaits id number time record logged) (ht : c.Timed)
    (hname : c.NamesRegistered x) (hother : x.request.participantId ≠ some id)
    (hs : c.serve x = some c') (hok : c'.AllSucceeded) (hclock : c'.ClockRuns) :
    c'.Awaits id number time record logged := by
  have hserved := (served_of_serve ht.sound.queue hs).2
  have hbecomes := ht.sound.becomes hname hs hok.allConnected id
  refine ⟨?_, ?_, ?_, h.earlier, ?_, ?_, Nat.lt_of_lt_of_le h.number_lt hserved.broadcasts_le⟩
  · intro haway
    cases hbecomes with
    | same hmap hconnected hcount => rw [hmap, h.away (hconnected ▸ haway)]
    | registered p hmap htime hread hconnected hcount =>
        rw [hconnected] at haway
        cases haway
    | removed hname' => exact absurd hname' hother
    | disconnected p hname' => exact absurd hname' hother
    | reconnected p p' hname' => exact absurd hname' hother
  · intro hlogged hconn
    cases hbecomes with
    | same hmap hconnected hcount =>
        rw [hmap]
        exact h.back hlogged (hconnected ▸ hconn)
    | registered p hmap htime hread hconnected hcount =>
        refine ⟨p, hmap, ?_⟩
        rw [ClockRuns, hread] at hclock
        rw [htime]
        exact ClockRuns.lt hclock (h.read hlogged)
    | removed hname' => exact absurd hname' hother
    | disconnected p hname' => exact absurd hname' hother
    | reconnected p p' hname' => exact absurd hname' hother
  · intro hlogged
    exact (hserved.grows.sublist.filterMap Event.time).subset (h.read hlogged)
  · intro hlogged
    obtain ⟨msg, hmsg, hrest⟩ := h.entry hlogged
    exact ⟨msg, hserved.entries_mono hmsg, hrest⟩
  · intro msg hmsg hnumber
    rcases hserved.entries hmsg with hold | ⟨hnew, -⟩
    · exact h.entries msg hold hnumber
    · have hlt := h.number_lt
      omega

/-- What awaits a disconnected participant after a multicast: it was logged if somebody was
connected. -/
theorem Timed.awaits (h : c.Timed) {message : String} {sender : UInt32}
    (hrequest : x.request = .sendMulticast message sender) (hs : c.serve x = some c')
    (hclock : c'.ClockRuns) (haway : c.connected id = false)
    (hrecord : c.participants.idToParticipant id = some record) :
    c'.Awaits id c.broadcasts x.now record (∃ other, c.connected other = true) := by
  have hreached : (∃ other, c.connected other = true) ↔ c.reached x ≠ [] := by
    have hnil : c.reachedIds x = [] ↔ c.reached x = [] := List.map_eq_nil_iff
    rw [← not_iff_not, not_not, ← hnil, List.eq_nil_iff_forall_not_mem, not_exists]
    refine forall_congr' fun other => ?_
    rw [← List.count_eq_zero, count_reachedIds]
    cases hc : c.connected other with
    | false => simp
    | true => simpa using Nat.ne_of_gt (h.covered other hc)
  cases (served_of_serve h.sound.queue hs).2 with
  | multicast message' sender' hrequest' =>
      have hread : c.reached x ≠ [] → readings (c.trace ++ (.multicast c.broadcasts ::
          (broadcastEvents x (c.multicastOf message' sender') (c.reached x) ++
            [.closed x.clientFd]))) = readings c.trace ++ [x.now] := by
        intro hne
        simp [readings_broadcastEvents, hne, Event.time]
      have hlater : c.reached x ≠ [] → ∀ msg ∈ c.msgLog.entries, msg.timestamp ≠ x.now := by
        intro hne msg hmsg
        rw [ClockRuns, hread hne] at hclock
        exact Int.ne_of_lt (ClockRuns.lt hclock (h.entries msg hmsg).1)
      refine ⟨fun _ => hrecord, ?_, ?_, ?_, ?_, ?_, Nat.lt_succ_self _⟩
      · intro _ hconn
        exact absurd (haway.symm.trans hconn) Bool.false_ne_true
      · intro hsome
        rw [hread (hreached.mp hsome)]
        exact List.mem_append_right _ (List.mem_singleton_self _)
      · intro hsome
        rw [ClockRuns, hread (hreached.mp hsome)] at hclock
        exact ClockRuns.lt hclock (h.records id record hrecord)
      · intro hsome
        obtain ⟨m, ms, hr⟩ := List.exists_cons_of_ne_nil (hreached.mp hsome)
        refine ⟨{ c.multicastOf message' sender' with timestamp := x.now }, ?_, rfl, rfl⟩
        rw [hr]
        exact MessageLog.mem_insert_of_new (hlater (hreached.mp hsome))
      · intro msg hmsg hnumber
        cases hr : c.reached x with
        | nil =>
            rw [hr] at hmsg
            exact absurd hnumber (Nat.ne_of_lt (h.entries msg hmsg).2)
        | cons m ms =>
            rw [hr] at hmsg
            refine ⟨hreached.mpr (hr ▸ List.cons_ne_nil m ms), ?_⟩
            rcases MessageLog.mem_of_mem_insert hmsg with hold | rfl
            · exact absurd hnumber (Nat.ne_of_lt (h.entries msg hold).2)
            · rfl
  | _ =>
      have hne := hrequest.symm.trans ‹_›
      cases hne

/-- A reconnection sends a multicast exactly when it is one of the messages it replays. -/
theorem Sound.mem_receivers_reconnect (h : c.Sound) {portNumber participantId : UInt32}
    (hrequest : x.request = .reconnect portNumber participantId)
    (hrecord : c.participants.idToParticipant participantId = some record)
    (hs : c.serve x = some c') (hok : c'.AllSucceeded) (number : ℕ) :
    participantId ∈ receivers number (c'.trace.drop c.trace.length) ↔
      ∃ msg ∈ c.missedBy x record, msg.number = number := by
  cases (served_of_serve h.queue hs).2 with
  | reconnect portNumber' participantId' connected p p' ds hrequest' hp hconnect =>
      obtain ⟨-, rfl⟩ := CoordinatorMessage.reconnect.inj (hrequest.symm.trans hrequest')
      rw [determineParticipant_of_registered hrecord] at hp
      obtain rfl := hp
      have hid : p'.id = participantId :=
        (id_connectToParticipant hconnect).trans (h.consistent.key _ _ hrecord)
      have htime : p'.disconnectTime = record.disconnectTime := by
        rw [record_connectToParticipant hconnect]
      have hmissed : c.missedBy x p' = c.missedBy x record := by
        rw [missedBy, missedBy, htime]
      have hreplays : ∀ e ∈ replays x ⟨p'⟩ 0 (c.missedBy x p'), e.succeeded = true :=
        fun e he => hok e (by simpa [missedBy] using .inr (.inr (.inr (.inr (.inl he)))))
      rw [List.drop_left]
      have hsent := receivers_replays hreplays number
      rw [missedBy] at hsent
      simp only [receivers_cons, receivers_append, hsent]
      rw [← missedBy, hmissed]
      simp [Event.receiver, hid]
  | _ =>
      have hne := hrequest.symm.trans ‹_›
      cases hne

end Coordinator

/-- **Who comes back is sent what it has missed**, exactly when somebody was connected to receive
it. In a run whose ids are registered, in which connections and sends succeed and the clock
runs, let a multicast be handled while participant `id` is registered but disconnected, and let
the next request of `id` be a reconnection, at most the threshold later. It is sent the multicast
exactly when somebody was connected, and its id has not been handed to a participant that is
connected when it comes back. -/
theorem missed_multicast_replayed_iff (td : ℤ) (ds : Descriptors) (pre mid : List Exchange)
    (x y : Exchange) {w w₁ w₂ c : Coordinator} {message : String} {sender id port : UInt32}
    (hpre : runFrom Coordinator.serve (.start td ds) pre = some w)
    (hx : w.serve x = some w₁) (hmid : runFrom Coordinator.serve w₁ mid = some w₂)
    (hy : w₂.serve y = some c)
    (hids : EachStep Coordinator.serve Coordinator.NamesRegistered (.start td ds)
      (pre ++ x :: (mid ++ [y])))
    (hok : c.AllSucceeded) (hclock : c.ClockRuns)
    (hmulticast : x.request = .sendMulticast message sender)
    (hregistered : w.registered id = true) (haway : w.connected id = false)
    (hnext : ∀ z ∈ mid, z.request.participantId ≠ some id)
    (hback : y.request = .reconnect port id) (hrecent : y.now - x.now ≤ td) :
    id ∈ receivers w.broadcasts (c.trace.drop w₂.trace.length) ↔
      (∃ other, w.connected other = true) ∧ w₂.connected id = false := by
  have hsound := Coordinator.sound_start td ds
  have hrun : runFrom Coordinator.serve (.start td ds) (pre ++ x :: (mid ++ [y])) = some c := by
    rw [runFrom_append, hpre, Option.bind_some, runFrom_cons hx, runFrom_append, hmid,
      Option.bind_some, runFrom_singleton, hy]
  have hall := hids.and
    ((Coordinator.eachState_of_history (fun h => h.back) hsound hrun hok).and
      (Coordinator.eachState_of_history (fun h => h.back) hsound hrun hclock)).next
  have hrest := hall.right hpre
  have htail := hrest.tail hx
  have hlast := (htail.right hmid).first
  -- the state in which the multicast is handled
  have hw : w.Timed ∧ w.msgLog.td = td := by
    refine (EachState.of_inv (fun m => m.Timed ∧ m.msgLog.td = td) ?_
      ⟨Coordinator.timed_start td ds, rfl⟩ hall.left).last hpre
    rintro m a m' ⟨hm, htd⟩ ⟨hname, hgood⟩ hs
    exact ⟨hm.serve hname hs (hgood m' hs).1,
      ((Coordinator.served_of_serve hm.sound.queue hs).2.td_eq).trans htd⟩
  obtain ⟨record, hrecord⟩ := Coordinator.registered_iff.mp hregistered
  obtain ⟨hgoodx, hclockx⟩ := hrest.first.2 w₁ hx
  have hw₁ : w₁.Timed ∧ w₁.msgLog.td = td :=
    ⟨hw.1.serve hrest.first.1 hx hgoodx,
      ((Coordinator.served_of_serve hw.1.sound.queue hx).2.td_eq).trans hw.2⟩
  have hawaits := hw.1.awaits hmulticast hx hclockx haway hrecord
  -- the requests of the others
  have hw₂ : (w₂.Timed ∧ w₂.msgLog.td = td) ∧ w₂.Awaits id w.broadcasts x.now record
      (∃ other, w.connected other = true) := by
    refine (EachState.of_inv (fun m => (m.Timed ∧ m.msgLog.td = td) ∧ m.Awaits id w.broadcasts
      x.now record (∃ other, w.connected other = true)) ?_ ⟨hw₁, hawaits⟩
      (htail.left.and (EachStep.of_forall w₁ hnext))).last hmid
    rintro m a m' ⟨⟨hm, htd⟩, hm'⟩ ⟨⟨hname, hgood⟩, hother⟩ hs
    obtain ⟨hok', hclock'⟩ := hgood m' hs
    exact ⟨⟨hm.serve hname hs hok',
      ((Coordinator.served_of_serve hm.sound.queue hs).2.td_eq).trans htd⟩,
      hm'.serve hm hname hother hs hok' hclock'⟩
  obtain ⟨⟨htimed, htd⟩, haw⟩ := hw₂
  have hknown : w₂.registered id = true := hlast.1 id (by rw [hback]; rfl)
  obtain ⟨now, hnow⟩ := Coordinator.registered_iff.mp hknown
  rw [htimed.sound.mem_receivers_reconnect hback hnow hy hok]
  constructor
  · rintro ⟨msg, hmsg, hnumber⟩
    obtain ⟨hentry, hlt, -⟩ := Coordinator.mem_missedBy.mp hmsg
    obtain ⟨hlogged, htime⟩ := haw.entries msg hentry hnumber
    refine ⟨hlogged, Bool.eq_false_iff.mpr fun hconn => ?_⟩
    obtain ⟨p, hp, hlater⟩ := haw.back hlogged hconn
    obtain rfl := Option.some.inj (hnow.symm.trans hp)
    omega
  · rintro ⟨hlogged, hstill⟩
    obtain ⟨msg, hentry, hnumber, htime⟩ := haw.entry hlogged
    obtain rfl := Option.some.inj (hnow.symm.trans (haw.away hstill))
    have hearlier := haw.earlier hlogged
    refine ⟨msg, Coordinator.mem_missedBy.mpr ⟨hentry, ?_, ?_⟩, hnumber⟩
    · rw [htime]
      exact hearlier
    · rw [htime, htd]
      exact hrecent

/-- A participant is away for two multicasts and comes back. -/
theorem missed_multicast_replayed_iff_two :
    ∃ w w₁ w₂ c, runFrom Coordinator.serve (.start 10 .ofServer)
        [.smooth (.register 5000) 4 5 1, .smooth (.register 5001) 4 6 2,
          .smooth (.disconnect 2) 4 7 3] = some w ∧
      w.serve (.smooth (.sendMulticast "a" 1) 4 7 4) = some w₁ ∧
      runFrom Coordinator.serve w₁ [.smooth (.sendMulticast "b" 1) 4 7 5] = some w₂ ∧
      w₂.serve (.smooth (.reconnect 5001 2) 4 7 6) = some c ∧
      (2 ∈ receivers w.broadcasts (c.trace.drop w₂.trace.length) ↔
        (∃ other, w.connected other = true) ∧ w₂.connected 2 = false) :=
  ⟨_, _, _, _, rfl, rfl, rfl, rfl, missed_multicast_replayed_iff 10 .ofServer
    [.smooth (.register 5000) 4 5 1, .smooth (.register 5001) 4 6 2,
      .smooth (.disconnect 2) 4 7 3] [.smooth (.sendMulticast "b" 1) 4 7 5]
    (.smooth (.sendMulticast "a" 1) 4 7 4) (.smooth (.reconnect 5001 2) 4 7 6)
    rfl rfl rfl rfl (by decide) (by unfold Coordinator.AllSucceeded; decide)
    (by unfold Coordinator.ClockRuns; decide) rfl (by decide) (by decide) (by decide) rfl
    (by decide)⟩

/-- A multicast that is handled while its only participant is away is never sent. -/
theorem missed_multicast_lost :
    ∃ w w₁ c, runFrom Coordinator.serve (.start 10 .ofServer)
        [.smooth (.register 5000) 4 5 1, .smooth (.disconnect 1) 4 6 2] = some w ∧
      w.registered 1 = true ∧ w.connected 1 = false ∧
      w.serve (.smooth (.sendMulticast "a" 1) 4 6 3) = some w₁ ∧
      w₁.serve (.smooth (.reconnect 5000 1) 4 6 4) = some c ∧
      1 ∉ receivers w.broadcasts (c.trace.drop w₁.trace.length) :=
  ⟨_, _, _, rfl, by decide, by decide, rfl, rfl, by decide⟩

end Csci6780.PubSub
