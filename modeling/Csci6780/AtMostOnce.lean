import Csci6780.CoordinatorRuns
import Csci6780.Lib.Replay

/-!
# Multicasts Are Delivered at Most Once

In a well-formed run, handled request by request, the coordinator is a broadcaster with a replay
(`Feed`): who is connected is present, who is disconnected is away since the disconnect time of
its record, and the message log is the log. `Follows` says so, with the feed as a ghost of the
history, and every request is an operation of the feed.

The disconnect time of a participant is later than every entry of the log then, since both are
readings of one clock that runs; what a replay delivers is later than that.

## Main results

* `Coordinator.Follows.serve`: every well-formed request is an operation of the feed.
* `multicasts_sent_once`: no participant is sent a multicast twice, none one from before its
  registration, and what a reconnection replays is not older than the threshold.
-/

namespace Csci6780.PubSub

open scoped List

/-- A pair that is in order in a list, and whose second part was not appended, was there. -/
theorem pair_sublist_of_append {α : Type} {a b : α} {l r : List α} (h : [a, b] <+ l ++ r)
    (hb : b ∉ r) : [a, b] <+ l := by
  obtain ⟨l₁, l₂, heq, h₁, h₂⟩ := List.sublist_append_iff.mp h
  cases l₂ with
  | nil =>
      rw [List.append_nil] at heq
      exact heq ▸ h₁
  | cons e l₂ =>
      have hlast : b ∈ e :: l₂ := by
        have hget : ([a, b] : List α).getLast? = some b := rfl
        rw [heq, List.getLast?_append_cons] at hget
        exact List.mem_of_getLast? hget
      exact absurd (h₂.subset hlast) hb

/-- The first part of a pair that is in order, when the second was not there before. -/
theorem fst_mem_of_pair_sublist {α : Type} {a b : α} {l r : List α} (h : [a, b] <+ l ++ r)
    (ha : a ∉ r) : a ∈ l := by
  have hmem := h.subset (List.mem_cons_self (a := a) (l := [b]))
  exact (List.mem_append.mp hmem).resolve_right ha

namespace Coordinator

/-- The registrations of the history are the members that have joined, their ids are those the
counter has passed, and what was handled before a registration is counted. -/
structure Enrolled (c : Coordinator) (f : Feed UInt32 ℤ) : Prop where
  joined : ∀ id, f.joined id ≠ none ↔ Event.registered id ∈ c.trace
  before : ∀ id k, f.joined id = some k → ∀ n,
    [Event.multicast n, Event.registered id] <+ c.trace → n < k
  counter : ∀ id, f.joined id ≠ none → id.toNat ≤ c.id.toNat
  registrations : c.trace.countP Event.isRegistration = c.id.toNat

/-- **The coordinator is the broadcaster `f`.** -/
structure Follows (c : Coordinator) (f : Feed UInt32 ℤ) : Prop where
  enrolled : c.Enrolled f
  known : ∀ id, c.registered id = true → f.joined id ≠ none
  away : ∀ id, f.away id = if c.connected id then none
    else (c.participants.idToParticipant id).map Participant.disconnectTime
  log : f.log = c.msgLog.entries.map fun m => (m.number, m.timestamp)
  count : f.count = c.broadcasts
  multicast_lt : ∀ n, Event.multicast n ∈ c.trace → n < c.broadcasts
  sent : ∀ n, receivers n c.trace = f.receivers n
  logged : ∀ n t, Event.logged n t ∈ c.trace ↔ (n, t) ∈ f.log
  times : ∀ entry ∈ f.log, entry.2 ∈ readings c.trace

variable {c c' : Coordinator} {x : Exchange} {f f' : Feed UInt32 ℤ}

theorem follows_start (td : ℤ) (ds : Descriptors) : (start td ds).Follows Feed.empty where
  enrolled :=
    { joined := fun _ => iff_of_false (fun h => h rfl) List.not_mem_nil
      before := fun _ _ h => nomatch h
      counter := fun _ h => absurd rfl h
      registrations := rfl }
  known _ h := nomatch h
  away _ := rfl
  log := rfl
  count := rfl
  multicast_lt _ h := absurd h List.not_mem_nil
  sent _ := rfl
  logged _ _ := iff_of_false List.not_mem_nil List.not_mem_nil
  times _ h := absurd h List.not_mem_nil

/-! ### Registrations -/

/-- A request that registers nobody. -/
theorem Enrolled.frame {new : List Event} (h : c.Enrolled f) (htrace : c'.trace = c.trace ++ new)
    (hnew : ∀ e ∈ new, e.isRegistration = false) (hid : c'.id = c.id)
    (hjoined : f'.joined = f.joined) : c'.Enrolled f' := by
  have hno : ∀ id, Event.registered id ∉ new := fun id hmem => nomatch hnew _ hmem
  constructor
  · intro id
    rw [hjoined, h.joined, htrace, List.mem_append]
    exact ⟨.inl, fun hmem => hmem.resolve_right (hno id)⟩
  · intro id k hk n hsub
    rw [hjoined] at hk
    rw [htrace] at hsub
    exact h.before id k hk n (pair_sublist_of_append hsub (hno id))
  · intro id hid'
    rw [hjoined] at hid'
    rw [hid]
    exact h.counter id hid'
  · have hzero : new.countP Event.isRegistration = 0 := by
      rw [List.countP_eq_zero]
      intro e he
      rw [hnew e he]
      exact Bool.false_ne_true
    rw [htrace, List.countP_append, hzero, hid, Nat.add_zero]
    exact h.registrations

/-- With fewer registrations than ids, a registration is given the next id, which nobody had. -/
theorem Follows.next_id (h : c.Follows f) (hsound : c.Sound)
    (hfew : c.trace.countP Event.isRegistration + 1 < 2 ^ 32) :
    (c.id + 1).toNat = c.id.toNat + 1 ∧ f.joined (c.id + 1) = none ∧
      generateID (fun _ => c.participants.getAllConnected) c.id = some (c.id + 1) := by
  rw [h.enrolled.registrations] at hfew
  have hnat : (c.id + 1).toNat = c.id.toNat + 1 := by
    rw [UInt32.toNat_add]
    exact Nat.mod_eq_of_lt hfew
  have hnew : f.joined (c.id + 1) = none := by
    by_contra hjoined
    have hle := h.enrolled.counter _ hjoined
    omega
  refine ⟨hnat, hnew, generateID_next ?_⟩
  refine ParticipantManager.isConnectedId_eq_false_iff.mp (Bool.eq_false_iff.mpr fun hc => ?_)
  exact h.known _ (hsound.registered_of_connected hc) hnew

/-- A registration with the next id. -/
theorem Enrolled.join {new : List Event} (h : c.Enrolled f)
    (hlt : ∀ n, Event.multicast n ∈ c.trace → n < f.count)
    (hnat : (c.id + 1).toNat = c.id.toNat + 1) (htrace : c'.trace = c.trace ++ new)
    (hid : c'.id = c.id + 1)
    (hmem : Event.registered (c.id + 1) ∈ new)
    (honly : ∀ id, Event.registered id ∈ new → id = c.id + 1)
    (hone : new.countP Event.isRegistration = 1) (hno : ∀ n, Event.multicast n ∉ new) :
    c'.Enrolled (f.join (c.id + 1)) := by
  constructor
  · intro id
    rw [Feed.joined_join, htrace, List.mem_append]
    by_cases heq : id = c.id + 1
    · rw [heq, Function.update_self]
      exact iff_of_true (Option.some_ne_none _) (.inr hmem)
    · rw [Function.update_of_ne heq, h.joined]
      exact ⟨.inl, fun hor => hor.resolve_right fun hin => heq (honly id hin)⟩
  · intro id k hk n hsub
    rw [Feed.joined_join] at hk
    rw [htrace] at hsub
    by_cases heq : id = c.id + 1
    · rw [heq, Function.update_self] at hk
      obtain rfl := Option.some.inj hk
      exact hlt n (fst_mem_of_pair_sublist hsub (hno n))
    · rw [Function.update_of_ne heq] at hk
      exact h.before id k hk n (pair_sublist_of_append hsub fun hin => heq (honly id hin))
  · intro id hjoined
    rw [Feed.joined_join] at hjoined
    rw [hid, hnat]
    by_cases heq : id = c.id + 1
    · rw [heq, hnat]
    · rw [Function.update_of_ne heq] at hjoined
      exact Nat.le_succ_of_le (h.counter id hjoined)
  · rw [htrace, List.countP_append, hone, hid, hnat, h.registrations]

/-! ### The requests -/

/-- What a request does to who is away, when it changes one id. -/
theorem away_update {c c' : Coordinator} {f : Feed UInt32 ℤ} {id : UInt32} {value : Option ℤ}
    (h : c.Follows f)
    (hvalue : value = if c'.connected id then none
      else (c'.participants.idToParticipant id).map Participant.disconnectTime)
    (hconnected : ∀ other, other ≠ id → c'.connected other = c.connected other)
    (hrecord : ∀ other, other ≠ id →
      c'.participants.idToParticipant other = c.participants.idToParticipant other)
    (other : UInt32) : Function.update f.away id value other =
      if c'.connected other then none
      else (c'.participants.idToParticipant other).map Participant.disconnectTime := by
  by_cases heq : other = id
  · rw [heq, Function.update_self, hvalue]
  · rw [Function.update_of_ne heq, h.away, hconnected other heq, hrecord other heq]

/-- Who is registered after a change to the record of somebody registered was so before. -/
theorem registered_of_update {c c' : Coordinator} {id other : UInt32}
    {record : Option Participant} (hreg : c.registered id = true)
    (hmap : c'.participants.idToParticipant =
      Function.update c.participants.idToParticipant id record)
    (h : c'.registered other = true) : c.registered other = true := by
  obtain ⟨q, hq⟩ := registered_iff.mp h
  rw [hmap, Function.update_apply] at hq
  split at hq
  · next heq => rw [heq, hreg]
  · exact registered_iff.mpr ⟨q, hq⟩

/-- A registration is a new member. -/
theorem Follows.register (h : c.Follows f) (hf : f.AtMostOnce) (hsound : c.Sound)
    {portNumber id : UInt32} {p : Participant} {ds : Descriptors}
    (hid : generateID (fun _ => c.participants.getAllConnected) c.id = some id)
    (hconnect : connectToParticipant c.descriptors x.attempts (registrant x portNumber id) =
      (true, p, ds))
    (hc' : c' = { c with
      id
      participants := c.participants.registerParticipant p
      messengers := c.messengers ++ [⟨p⟩]
      descriptors := ds
      trace := c.trace ++ [.reading x.now, .registered id, .asked id portNumber,
        .closed x.clientFd, .connecting true] })
    (hfew : c'.FewRegistrations) : ∃ f', c'.Follows f' ∧ f'.AtMostOnce := by
  subst hc'
  have hcount : c.trace.countP Event.isRegistration + 1 < 2 ^ 32 := by
    rw [FewRegistrations, List.countP_append] at hfew
    exact hfew
  obtain ⟨hnat, hnew, hnext⟩ := h.next_id hsound hcount
  obtain rfl : c.id + 1 = id := Option.some.inj (hnext.symm.trans hid)
  have hp : p.id = c.id + 1 := id_connectToParticipant hconnect
  have haway : f.away (c.id + 1) = none := by
    by_contra hsome
    obtain ⟨since, hsince⟩ := Option.ne_none_iff_exists'.mp hsome
    exact hf.away_joined _ since hsince hnew
  refine ⟨f.join (c.id + 1), ⟨?_, ?_, ?_, h.log, h.count, ?_, ?_, ?_, ?_⟩, hf.join hnew⟩
  · refine h.enrolled.join (fun n hn => h.count ▸ h.multicast_lt n hn) hnat rfl rfl
      (by simp) (fun id hin => ?_) (by rfl) (fun n => by simp)
    simpa using hin
  · intro id hreg
    rw [Feed.joined_join]
    by_cases heq : id = c.id + 1
    · rw [heq, Function.update_self]
      exact Option.some_ne_none _
    · rw [Function.update_of_ne heq]
      refine h.known id ?_
      obtain ⟨q, hq⟩ := registered_iff.mp hreg
      rw [ParticipantManager.idToParticipant_registerParticipant, hp,
        Function.update_of_ne heq] at hq
      exact registered_iff.mpr ⟨q, hq⟩
  · intro id
    have hconn : ∀ other, (c.participants.registerParticipant p).isConnectedId other =
        (decide (other = c.id + 1) || c.connected other) := by
      intro other
      rw [ParticipantManager.isConnectedId_registerParticipant, hp]
      rfl
    show f.away id = if (c.participants.registerParticipant p).isConnectedId id then none else _
    rw [hconn, ParticipantManager.idToParticipant_registerParticipant, hp]
    by_cases heq : id = c.id + 1
    · rw [heq, haway]
      simp
    · rw [h.away, Function.update_of_ne heq, decide_eq_false heq, Bool.false_or]
  · intro n hn
    exact h.multicast_lt n (by simpa using hn)
  · intro n
    rw [receivers_append, h.sent n]
    simp [Event.receiver]
    rfl
  · intro n t
    rw [List.mem_append, h.logged]
    simp
    rfl
  · intro entry hentry
    rw [readings_append]
    exact List.mem_append_left _ (h.times entry hentry)

/-- A request that registers nobody, takes up no multicast and logs nothing. -/
theorem Follows.frame {new : List Event} (h : c.Follows f) (htrace : c'.trace = c.trace ++ new)
    (hnew : ∀ e ∈ new, e.isRegistration = false) (hmulticast : ∀ n, Event.multicast n ∉ new)
    (hlogged : ∀ n t, Event.logged n t ∉ new) (hid : c'.id = c.id)
    (hlog : c'.msgLog = c.msgLog) (hcount : c'.broadcasts = c.broadcasts)
    (hjoined : f'.joined = f.joined) (hflog : f'.log = f.log) (hfcount : f'.count = f.count)
    (hknown : ∀ id, c'.registered id = true → c.registered id = true)
    (haway : ∀ id, f'.away id = if c'.connected id then none
      else (c'.participants.idToParticipant id).map Participant.disconnectTime)
    (hsent : ∀ n, f'.receivers n = f.receivers n ++ receivers n new) : c'.Follows f' where
  enrolled := h.enrolled.frame htrace hnew hid hjoined
  known id hreg := by
    rw [hjoined]
    exact h.known id (hknown id hreg)
  away := haway
  log := by rw [hflog, hlog, h.log]
  count := by rw [hfcount, hcount, h.count]
  multicast_lt n hn := by
    rw [htrace, List.mem_append] at hn
    rw [hcount]
    exact h.multicast_lt n (hn.resolve_right (hmulticast n))
  sent n := by rw [htrace, receivers_append, h.sent n, hsent n]
  logged n t := by
    rw [htrace, List.mem_append, hflog, ← h.logged]
    exact ⟨fun hor => hor.resolve_right (hlogged n t), .inl⟩
  times entry hentry := by
    rw [hflog] at hentry
    rw [htrace, readings_append]
    exact List.mem_append_left _ (h.times entry hentry)

/-- A deregistration is a member that leaves for good. -/
theorem Follows.deregister (h : c.Follows f) (hsound : c.Sound) {participantId : UInt32}
    {p : Participant} (hreg : c.registered participantId = true)
    (hp : c.determineParticipant participantId = p)
    (hc' : c' = { c with
      participants := c.participants.deregisterParticipant p
      messengers := (c.determineMessenger x participantId).elim c.messengers c.messengers.erase
      descriptors := c.descriptors.close p.sockFd
      trace := c.trace ++ [.closed p.sockFd, .closed x.clientFd] }) :
    c'.Follows (f.leave participantId) := by
  have hid : p.id = participantId := hp ▸ hsound.id_determineParticipant hreg
  subst hc'
  refine h.frame rfl (by simp [Event.isRegistration]) (by simp) (by simp) rfl rfl rfl rfl rfl rfl
    ?_ (away_update h ?_ ?_ ?_) (by simp [Event.receiver, Feed.receivers, Feed.leave])
  · intro other hother
    have hmap := ParticipantManager.idToParticipant_deregisterParticipant c.participants p
    rw [hid] at hmap
    exact registered_of_update hreg hmap hother
  · simp [connected, hid]
  · intro other hother
    simp [connected, hid, hother]
  · intro other hother
    rw [ParticipantManager.idToParticipant_deregisterParticipant, hid,
      Function.update_of_ne hother]

/-- A disconnection is a member that goes away now. -/
theorem Follows.disconnect (h : c.Follows f) (hf : f.AtMostOnce) (hsound : c.Sound)
    {participantId : UInt32} {p : Participant} (hreg : c.registered participantId = true)
    (hconn : c.connected participantId = true)
    (hp : c.determineParticipant participantId = p)
    (hc' : c' = { c with
      participants := (c.participants.disconnectParticipant p x.now).2
      messengers := (c.determineMessenger x participantId).elim c.messengers c.messengers.erase
      trace := c.trace ++ ((if c.participants.isConnected p then [.reading x.now] else []) ++
        [.closed x.clientFd]) })
    (hclock : c'.ClockRuns) :
    c'.Follows (f.depart participantId x.now) ∧ (f.depart participantId x.now).AtMostOnce := by
  have hid : p.id = participantId := hp ▸ hsound.id_determineParticipant hreg
  obtain ⟨record, hrecord⟩ := registered_iff.mp hreg
  have hcp : c.participants.isConnected p = true := by
    rw [ParticipantManager.isConnected, hid]
    exact hconn
  have hmap : (c.participants.disconnectParticipant p x.now).2.idToParticipant = _ :=
    ParticipantManager.disconnectParticipant_of_connected hcp (hid ▸ hrecord)
  rw [hid] at hmap
  subst hc'
  rw [hcp, if_pos rfl] at hclock ⊢
  have hlater : ∀ entry ∈ f.log, ¬x.now < entry.2 := by
    intro entry hentry
    rw [ClockRuns, readings_append] at hclock
    exact Int.not_lt.mpr (Int.le_of_lt (ClockRuns.lt hclock (h.times entry hentry)))
  refine ⟨?_, hf.depart (h.known participantId hreg) hlater⟩
  refine h.frame rfl (by simp [Event.isRegistration]) (by simp) (by simp) rfl rfl rfl rfl rfl rfl
    ?_ (away_update h ?_ ?_ ?_) (by simp [Event.receiver, Feed.receivers, Feed.depart])
  · exact fun other hother => registered_of_update hreg hmap hother
  · rw [hmap, Function.update_self]
    simp [connected, hid]
  · intro other hother
    simp [connected, hid, hother]
  · intro other hother
    rw [hmap, Function.update_of_ne hother]

/-- The messages that a reconnection replays, in the order of the replay. -/
def missedBy (c : Coordinator) (x : Exchange) (p : Participant) : List Message :=
  x.replayOrder.enumerate (c.msgLog.getMissedMessages p.disconnectTime x.now).elements

theorem mem_missedBy {p : Participant} {msg : Message} :
    msg ∈ c.missedBy x p ↔ msg ∈ c.msgLog.entries ∧ p.disconnectTime < msg.timestamp ∧
      x.now - msg.timestamp ≤ c.msgLog.td := by
  rw [missedBy, IterationOrder.mem_enumerate, MessageLog.mem_getMissedMessages]

/-- Every multicast is in the log once, and so in a replay. -/
theorem Follows.nodup_missedBy (h : c.Follows f) (hf : f.AtMostOnce) (p : Participant) :
    ((c.missedBy x p).map Message.number).Nodup := by
  have hlog : (c.msgLog.entries.map Message.number).Nodup := by
    have hnodup := hf.log_nodup
    rw [h.log, List.map_map] at hnodup
    exact hnodup
  have hperm := (x.replayOrder.perm
    (c.msgLog.getMissedMessages p.disconnectTime x.now).elements).map Message.number
  exact hperm.nodup_iff.mpr (hlog.sublist (List.filter_sublist.map _))

/-- When all sends succeed, a replay delivers all of its messages. -/
theorem receivers_replays {m : Messenger} {k : ℕ} {msgs : List Message}
    (hok : ∀ e ∈ replays x m k msgs, e.succeeded = true) (n : ℕ) :
    receivers n (replays x m k msgs) =
      (msgs.filter fun msg => msg.number = n).map fun _ => m.participant.id := by
  induction msgs generalizing k with
  | nil => rfl
  | cons msg msgs ih =>
      rw [replays] at hok ⊢
      have hsend : x.sends k = true := hok _ List.mem_cons_self
      rw [if_pos hsend] at hok ⊢
      rw [receivers_cons, ih fun e he => hok e (List.mem_cons_of_mem _ he)]
      by_cases hn : msg.number = n <;> simp [Event.receiver, hn]

/-- A reconnection is a member that comes back to a replay. -/
theorem Follows.reconnect (h : c.Follows f) (hf : f.AtMostOnce) (hsound : c.Sound)
    {portNumber participantId : UInt32} {p p' : Participant} {ds : Descriptors}
    (hreg : c.registered participantId = true) (hconn : c.connected participantId = false)
    (hp : c.determineParticipant participantId = p)
    (hconnect : connectToParticipant (c.descriptors.openAs x.clientFd .request) x.attempts p =
      (true, p', ds))
    (hc' : c' = { c with
      participants := (c.participants.reconnectParticipant p').2
      messengers := c.messengers ++ [⟨p'⟩]
      descriptors := ds.close x.clientFd
      trace := c.trace ++ (.asked participantId portNumber :: .connecting true ::
        .reading x.now :: (replays x ⟨p'⟩ 0 (c.missedBy x p') ++ [.closed x.clientFd])) })
    (hok : c'.AllSucceeded) : ∃ f', c'.Follows f' ∧ f'.AtMostOnce := by
  obtain ⟨record, hrecord⟩ := registered_iff.mp hreg
  have hid : p'.id = participantId :=
    (id_connectToParticipant hconnect).trans (hp ▸ hsound.id_determineParticipant hreg)
  have hp' := record_connectToParticipant hconnect
  rw [determineParticipant_of_registered hrecord] at hp
  obtain rfl := hp
  have htime : p'.disconnectTime = record.disconnectTime := by rw [hp']
  have hknown : c.participants.idToParticipant p'.id = some record := by rw [hid, hrecord]
  have hmap := ParticipantManager.reconnectParticipant_of_known hknown
  have hconnected := hsound.consistent.isConnectedId_reconnectParticipant hknown
  rw [hid] at hmap hconnected
  have haway : f.away participantId = some p'.disconnectTime := by
    rw [h.away, hconn, hrecord, htime]
    rfl
  subst hc'
  have hreplays : ∀ e ∈ replays x ⟨p'⟩ 0 (c.missedBy x p'), e.succeeded = true :=
    fun e he => hok e (by simp [he])
  refine ⟨f.comeBack participantId ((c.missedBy x p').map fun m => (m.number, m.timestamp)),
    ?_, hf.comeBack haway ?_ ?_⟩
  · refine h.frame rfl ?_ ?_ ?_ rfl rfl rfl rfl rfl rfl ?_ (away_update h ?_ ?_ ?_) ?_
    · intro e he
      by_contra hne
      obtain ⟨id, rfl⟩ : ∃ id, e = .registered id := by
        cases e <;> simp [Event.isRegistration] at hne ⊢
      simp [not_mem_replays] at he
    · simp [not_mem_replays]
    · simp [not_mem_replays]
    · exact fun other hother => registered_of_update hreg hmap hother
    · simp [connected, hconnected]
    · intro other hother
      simp [connected, hconnected, hother]
    · intro other hother
      rw [hmap, Function.update_of_ne hother]
    · intro n
      rw [Feed.receivers_comeBack]
      refine congrArg (f.receivers n ++ ·) ?_
      simp only [receivers_cons, receivers_append, receivers_replays hreplays n,
        List.filter_map, List.map_map]
      simp [Event.receiver, Function.comp_def, hid]
  · intro entry hentry
    obtain ⟨msg, hmsg, rfl⟩ := List.mem_map.mp hentry
    obtain ⟨hlog, hlt, -⟩ := mem_missedBy.mp hmsg
    rw [h.log]
    exact ⟨List.mem_map_of_mem hlog, hlt⟩
  · rw [List.map_map]
    exact h.nodup_missedBy hf p'

/-- A `SendMulticast` is an item for the connected participants; it is logged when there are
any. -/
theorem Follows.multicast (h : c.Follows f) (hf : f.AtMostOnce) (hsound : c.Sound)
    (hmatched : c.Matched) {message : String} {participantId : UInt32}
    (hc' : c' = { c with
      msgLog := loggedBy c.msgLog x (c.multicastOf message participantId) (c.reached x)
      broadcasts := c.broadcasts + 1
      trace := c.trace ++ (.multicast c.broadcasts ::
        (broadcastEvents x (c.multicastOf message participantId) (c.reached x) ++
          [.closed x.clientFd])) })
    (hclock : c'.ClockRuns) : ∃ f', c'.Follows f' ∧ f'.AtMostOnce := by
  have hcount := hmatched.count_reachedIds x
  have hreached : ∀ id ∈ c.reachedIds x, c.connected id = true := by
    intro id hid
    by_contra hc
    have hzero := hcount id
    rw [if_neg hc, List.count_eq_zero] at hzero
    exact hzero hid
  have hnodup : (c.reachedIds x).Nodup := by
    rw [List.nodup_iff_count_le_one]
    intro id
    rw [hcount id]
    split <;> omega
  refine ⟨f.broadcast (c.reachedIds x) (if c.reached x = [] then none else some x.now), ?_,
    hf.broadcast hnodup
      (fun id hid => h.known id (hsound.registered_of_connected (hreached id hid)))
      (fun id hid => by rw [h.away, if_pos (hreached id hid)])⟩
  subst hc'
  have hother : ∀ e, (∀ fd id msg ok, e ≠ Event.sent fd id msg ok) →
      (e ∈ (Event.multicast c.broadcasts ::
        (broadcastEvents x (c.multicastOf message participantId) (c.reached x) ++
          [.closed x.clientFd])) ↔ e = .multicast c.broadcasts ∨
        (c.reached x ≠ [] ∧ (e = .reading x.now ∨ e = .logged c.broadcasts x.now)) ∨
          e = .closed x.clientFd) := by
    intro e he
    rw [List.mem_cons, List.mem_append, mem_broadcastEvents he, List.mem_singleton]
    rfl
  have hlog : (loggedBy c.msgLog x (c.multicastOf message participantId) (c.reached x)).entries =
      c.msgLog.entries ++ if c.reached x = [] then []
        else [{ c.multicastOf message participantId with timestamp := x.now }] := by
    cases hr : c.reached x with
    | nil => exact (List.append_nil _).symm
    | cons m ms =>
        refine MessageLog.entries_insert_of_new fun msg hmsg => Int.ne_of_lt ?_
        have htime := h.times (msg.number, msg.timestamp)
          (h.log ▸ List.mem_map_of_mem (f := fun m => (m.number, m.timestamp)) hmsg)
        rw [ClockRuns, readings_append, readings_cons, readings_append,
          readings_broadcastEvents, hr] at hclock
        exact ClockRuns.lt hclock htime
  constructor
  · refine h.enrolled.frame rfl ?_ rfl rfl
    intro e he
    by_contra hne
    obtain ⟨id, rfl⟩ : ∃ id, e = .registered id := by
      cases e <;> simp [Event.isRegistration] at hne ⊢
    simp [hother] at he
  · exact h.known
  · exact h.away
  · show f.log ++ _ = (loggedBy _ _ _ _).entries.map _
    rw [hlog, List.map_append, ← h.log, h.count]
    by_cases hr : c.reached x = [] <;> simp [hr, multicastOf]
  · exact congrArg (· + 1) h.count
  · intro n hn
    rcases List.mem_append.mp hn with hold | hnew
    · exact Nat.lt_succ_of_lt (h.multicast_lt n hold)
    · simp [hother] at hnew
      rw [hnew]
      exact Nat.lt_succ_self _
  · intro n
    rw [receivers_append, h.sent n, Feed.receivers_broadcast, receivers_cons, receivers_append,
      receivers_broadcastEvents, h.count]
    by_cases hn : c.broadcasts = n <;> simp [Event.receiver, multicastOf, reachedIds, hn]
  · intro n t
    rw [List.mem_append, h.logged, hother _ (by simp)]
    show _ ↔ (n, t) ∈ f.log ++ _
    rw [List.mem_append, h.count]
    by_cases hr : c.reached x = [] <;> simp [hr]
  · intro entry hentry
    rw [readings_append]
    rcases List.mem_append.mp hentry with hold | hnew
    · exact List.mem_append_left _ (h.times entry hold)
    · refine List.mem_append_right _ ?_
      rw [readings_cons, readings_append, readings_broadcastEvents]
      by_cases hr : c.reached x = []
      · simp [hr] at hnew
      · simp [hr] at hnew
        simp [hr, hnew, Event.time]

/-! ### Runs -/

/-- The invariant of well-formed runs. -/
structure Regular (c : Coordinator) : Prop where
  sound : c.Sound
  matched : c.Matched
  follows : ∃ f, c.Follows f ∧ f.AtMostOnce

/-- **Every well-formed request is an operation of the feed.** -/
theorem Regular.serve (h : c.Regular) (hw : c.WellFormed x) (hs : c.serve x = some c')
    (hok : c'.AllSucceeded) (hclock : c'.ClockRuns) (hfew : c'.FewRegistrations) :
    c'.Regular := by
  have hmatched := (h.matched.serve_iff h.sound hs).mpr (hw.keepsMatch h.sound hs hok.allConnected)
  refine ⟨h.sound.serve hs, hmatched, ?_⟩
  obtain ⟨f, hfollows, hf⟩ := h.follows
  cases (served_of_serve h.sound.queue hs).2 with
  | register portNumber id connected p ds hrequest hid hconnect =>
      obtain rfl : connected = true := hok (.connecting connected) (by simp)
      exact hfollows.register hf h.sound hid hconnect rfl hfew
  | deregister participantId p hrequest hp =>
      rw [WellFormed, hrequest] at hw
      exact ⟨_, hfollows.deregister h.sound hw hp rfl, hf.leave⟩
  | disconnect participantId p hrequest hp =>
      rw [WellFormed, hrequest] at hw
      exact ⟨_, hfollows.disconnect hf h.sound hw.1 hw.2 hp rfl hclock⟩
  | reconnect portNumber participantId connected p p' ds hrequest hp hconnect =>
      obtain rfl : connected = true := hok (.connecting connected) (by simp)
      rw [WellFormed, hrequest] at hw
      exact hfollows.reconnect hf h.sound hw.1 hw.2 hp hconnect rfl hok
  | multicast message participantId hrequest =>
      exact hfollows.multicast hf h.sound h.matched rfl hclock
  | notSet hrequest =>
      exact ⟨f, ⟨⟨hfollows.enrolled.joined, hfollows.enrolled.before, hfollows.enrolled.counter,
        hfollows.enrolled.registrations⟩, hfollows.known, hfollows.away, hfollows.log,
        hfollows.count, hfollows.multicast_lt, hfollows.sent, hfollows.logged, hfollows.times⟩, hf⟩

theorem regular_start (td : ℤ) (ds : Descriptors) : (start td ds).Regular :=
  ⟨sound_start td ds, matched_start td ds, Feed.empty, follows_start td ds,
    Feed.atMostOnce_empty⟩

/-- What a reconnection sends was logged once, at a time that is not older than the
threshold. -/
def ReplaysRecent (c : Coordinator) (x : Exchange) : Prop :=
  ∀ portNumber participantId c', x.request = .reconnect portNumber participantId →
    c.serve x = some c' → ∀ number id,
      id ∈ receivers number (c'.trace.drop c.trace.length) →
        ∃ time, (∀ t, Event.logged number t ∈ c.trace ↔ t = time) ∧
          x.now - time ≤ c.msgLog.td

theorem Regular.replaysRecent (h : c.Regular) (x : Exchange) : c.ReplaysRecent x := by
  intro portNumber participantId c' hrequest hs number id hid
  obtain ⟨f, hfollows, hf⟩ := h.follows
  cases (served_of_serve h.sound.queue hs).2 with
  | reconnect portNumber' participantId' connected p p' ds hrequest' hp hconnect =>
      rw [List.drop_left] at hid
      obtain ⟨fd, msg, ok, hmem, hnumber⟩ := mem_receivers.mp hid
      have hreplay : Event.sent fd id msg ok ∈ replays x ⟨p'⟩ 0 (c.missedBy x p') := by
        simpa [missedBy] using hmem
      obtain ⟨msg', hmsg', ok', heq⟩ := mem_replays hreplay
      obtain ⟨-, -, rfl, -⟩ := Event.sent.inj heq
      obtain ⟨hlog, -, hrecent⟩ := mem_missedBy.mp hmsg'
      refine ⟨msg.timestamp, fun t => ?_, hrecent⟩
      have hentry : (number, msg.timestamp) ∈ f.log := by
        rw [hfollows.log, ← hnumber]
        exact List.mem_map_of_mem (f := fun m => (m.number, m.timestamp)) hlog
      rw [hfollows.logged]
      constructor
      · intro ht
        exact (Prod.mk.inj (List.inj_on_of_nodup_map hf.log_nodup ht hentry rfl)).2
      · rintro rfl
        exact hentry
  | _ =>
      have hne := hrequest.symm.trans ‹_›
      cases hne

end Coordinator

/-- **Multicasts are delivered at most once.** In a well-formed run in which connections and
sends succeed, the clock runs and ids do not run out: no participant is sent a multicast twice;
none is sent a multicast that was handled before its registration; and no reconnection replays a
multicast that is older than the threshold. -/
theorem multicasts_sent_once {td : ℤ} {ds : Descriptors} {xs : List Exchange} {c : Coordinator}
    (hrun : runFrom Coordinator.serve (.start td ds) xs = some c)
    (hwf : EachStep Coordinator.serve Coordinator.WellFormed (.start td ds) xs)
    (hok : c.AllSucceeded) (hclock : c.ClockRuns) (hfew : c.FewRegistrations) :
    (∀ number id, (receivers number c.trace).count id ≤ 1) ∧
      (∀ number id, [Event.multicast number, Event.registered id] <+ c.trace →
        id ∉ receivers number c.trace) ∧
      EachStep Coordinator.serve Coordinator.ReplaysRecent (.start td ds) xs := by
  have hsound := Coordinator.sound_start td ds
  have hsurroundings := ((Coordinator.eachState_of_history (fun h => h.back) hsound hrun hok).and
    ((Coordinator.eachState_of_history (fun h => h.back) hsound hrun hclock).and
      (Coordinator.eachState_of_history (fun h => h.back) hsound hrun hfew))).next
  have hregular : EachState Coordinator.serve Coordinator.Regular (.start td ds) xs := by
    refine EachState.of_inv Coordinator.Regular ?_ (Coordinator.regular_start td ds)
      (hwf.and hsurroundings)
    rintro m x m' hm ⟨hw, hgood⟩ hs
    obtain ⟨hok', hclock', hfew'⟩ := hgood m' hs
    exact hm.serve hw hs hok' hclock' hfew'
  obtain ⟨f, hfollows, hf⟩ := (hregular.last hrun).follows
  refine ⟨fun number id => ?_, fun number id hsub hmem => ?_, fun pre x m hpre hm => ?_⟩
  · rw [hfollows.sent]
    exact List.nodup_iff_count_le_one.mp (hf.nodup_receivers number) id
  · rw [hfollows.sent] at hmem
    obtain ⟨k, hk, hle⟩ := hf.after hmem
    have hlt := hfollows.enrolled.before id k hk number hsub
    omega
  · exact (hregular pre m ((List.prefix_append pre [x]).trans hpre) hm).replaysRecent x

/-- A run in which a participant is away for one of two multicasts. -/
theorem multicasts_sent_once_away :
    ∃ c, runFrom Coordinator.serve (.start 10 .ofServer)
        [.smooth (.register 5000) 4 5 1, .smooth (.register 5001) 4 6 2,
          .smooth (.sendMulticast "a" 1) 4 7 3, .smooth (.disconnect 2) 4 7 4,
          .smooth (.sendMulticast "b" 1) 4 7 5, .smooth (.reconnect 5001 2) 4 7 6] = some c ∧
      ((∀ number id, (receivers number c.trace).count id ≤ 1) ∧
        (∀ number id, [Event.multicast number, Event.registered id] <+ c.trace →
          id ∉ receivers number c.trace) ∧
        EachStep Coordinator.serve Coordinator.ReplaysRecent (.start 10 .ofServer)
          [.smooth (.register 5000) 4 5 1, .smooth (.register 5001) 4 6 2,
            .smooth (.sendMulticast "a" 1) 4 7 3, .smooth (.disconnect 2) 4 7 4,
            .smooth (.sendMulticast "b" 1) 4 7 5, .smooth (.reconnect 5001 2) 4 7 6]) :=
  ⟨_, rfl, multicasts_sent_once rfl (by decide) (by unfold Coordinator.AllSucceeded; decide)
    (by unfold Coordinator.ClockRuns; decide) (by unfold Coordinator.FewRegistrations; decide)⟩

end Csci6780.PubSub
