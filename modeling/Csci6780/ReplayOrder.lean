import Csci6780.CoordinatorSteps

/-!
# The Order of a Replay

`Messenger::SendMissedMessages` sends what `MessageLog::GetMissedMessages` returns. The log is a
hash set, and so is what is returned: the messages of the window are inserted into a second set in
the order in which the first one is iterated, and sent in the order in which the second one is.
Each iteration has an order of its own here.

No message of the window is left out, and none is sent twice, but their order is that of the
iterations: nothing in the log or the messenger looks at the timestamps again.

## Main results

* `MessageLog.replayed_perm`: two iterations see the messages of `getMissedMessages`, in some
  order.
* `Coordinator.exists_replay_eq`: so the replay is one that a reconnection may make.
* `missed_messages_replayed`: what is sent, and when it is sent in order.
-/

namespace Csci6780.PubSub

/-- A message may come before another one when timestamps do not go down. -/
def Message.NotLater (msg msg' : Message) : Prop := msg.timestamp ≤ msg'.timestamp

instance (msg msg' : Message) : Decidable (msg.NotLater msg') :=
  inferInstanceAs (Decidable (msg.timestamp ≤ msg'.timestamp))

namespace MessageLog

/-- `MessageLog::GetMissedMessages`, with the order in which the log is iterated. -/
def collectMissed (log : MessageLog) (logOrder : IterationOrder Message)
    (disconnectionTime reconnectionTime : ℤ) : UnorderedSet Message.key :=
  .insertIf (log.missed disconnectionTime reconnectionTime) (logOrder.enumerate log.entries) .empty

/-- What the loop of `Messenger::SendMissedMessages` goes over. -/
def replayed (log : MessageLog) (logOrder missedOrder : IterationOrder Message)
    (disconnectionTime reconnectionTime : ℤ) : List Message :=
  missedOrder.enumerate (log.collectMissed logOrder disconnectionTime reconnectionTime).elements

/-- The message was logged in the window of a reconnection. -/
def InWindow (log : MessageLog) (disconnectionTime reconnectionTime : ℤ) (msg : Message) : Prop :=
  msg ∈ log.entries ∧ disconnectionTime < msg.timestamp ∧
    reconnectionTime - msg.timestamp ≤ log.td

variable (log : MessageLog) (logOrder missedOrder : IterationOrder Message) (d r : ℤ)

theorem elements_collectMissed : (log.collectMissed logOrder d r).elements =
    (logOrder.enumerate log.entries).filter (log.missed d r) := by
  have hkeys : ((logOrder.enumerate log.entries).map Message.key).Nodup :=
    ((logOrder.perm log.entries).map Message.key).nodup_iff.mpr log.coordinatorMessages.nodup
  rw [collectMissed, UnorderedSet.elements_insertIf hkeys]
  rfl

/-- **Two iterations**, one of the log and one of the missed messages, see what one iteration of
the missed messages may see. -/
theorem replayed_perm :
    (log.replayed logOrder missedOrder d r).Perm (log.getMissedMessages d r).elements := by
  refine (missedOrder.perm _).trans ?_
  rw [elements_collectMissed]
  exact (logOrder.perm log.entries).filter _

/-- The messages of the window are replayed. -/
theorem mem_replayed {msg : Message} :
    msg ∈ log.replayed logOrder missedOrder d r ↔ log.InWindow d r msg := by
  rw [(log.replayed_perm logOrder missedOrder d r).mem_iff, mem_getMissedMessages, InWindow]

/-- No two of the replayed messages are equal. -/
theorem nodup_replayed : ((log.replayed logOrder missedOrder d r).map Message.key).Nodup :=
  ((log.replayed_perm logOrder missedOrder d r).map Message.key).nodup_iff.mpr
    (log.getMissedMessages d r).nodup

/-- **A replay is in order** for every order of the iterations only if the window holds no two
messages of different times. -/
theorem replayed_in_order_iff :
    (∀ logOrder missedOrder, (log.replayed logOrder missedOrder d r).Pairwise
      Message.NotLater) ↔
      ∀ msg msg', log.InWindow d r msg → log.InWindow d r msg' →
        msg.timestamp = msg'.timestamp := by
  constructor
  · intro h msg msg' hmsg hmsg'
    have hrefl : ∀ m ∈ (log.collectMissed (.ofInsertion Message) d r).elements, m.NotLater m :=
      fun m _ => Int.le_refl m.timestamp
    have hle := (IterationOrder.forall_pairwise_iff hrefl).mp (h (.ofInsertion Message))
    have hmem := (log.mem_replayed (.ofInsertion Message) (.ofInsertion Message) d r).mpr hmsg
    have hmem' := (log.mem_replayed (.ofInsertion Message) (.ofInsertion Message) d r).mpr hmsg'
    exact Int.le_antisymm (hle msg hmem msg' hmem') (hle msg' hmem' msg hmem)
  · intro h logOrder missedOrder
    refine List.pairwise_of_forall_mem_list fun msg hmsg msg' hmsg' => ?_
    rw [mem_replayed] at hmsg hmsg'
    exact Int.le_of_eq (h msg msg' hmsg hmsg')

end MessageLog

/-- When every send succeeds, all messages are sent. -/
theorem replays_of_succeeds {x : Exchange} (hsends : ∀ k, x.sends k = true) (m : Messenger)
    (k : ℕ) (msgs : List Message) :
    replays x m k msgs =
      msgs.map fun msg => .sent m.participant.sockFd m.participant.id msg true := by
  induction msgs generalizing k with
  | nil => rfl
  | cons msg msgs ih => rw [replays, hsends, if_pos rfl, ih, List.map_cons]

namespace Coordinator

/-- `Messenger::SendMissedMessages`, with the orders of the two iterations. -/
def replay (c : Coordinator) (x : Exchange) (m : Messenger)
    (logOrder missedOrder : IterationOrder Message) (reconnectionTime : ℤ) : Coordinator :=
  c.sendMissedMessages x m
    (c.msgLog.replayed logOrder missedOrder m.participant.disconnectTime reconnectionTime) 0

/-- The replay is that of a reconnection, for some order of its one iteration. -/
theorem exists_replay_eq (c : Coordinator) (x : Exchange) (m : Messenger)
    (logOrder missedOrder : IterationOrder Message) (reconnectionTime : ℤ) :
    ∃ order : IterationOrder Message, c.replay x m logOrder missedOrder reconnectionTime =
      c.sendMissedMessages x m (order.enumerate
        (c.msgLog.getMissedMessages m.participant.disconnectTime reconnectionTime).elements) 0 := by
  obtain ⟨order, horder⟩ := IterationOrder.exists_enumerate_eq
    (c.msgLog.replayed_perm logOrder missedOrder m.participant.disconnectTime reconnectionTime)
  exact ⟨order, by rw [horder, replay]⟩

/-- The coordinator has come from `c` to `c'` by sending the messages. -/
def HasSent (c c' : Coordinator) (m : Messenger) (msgs : List Message) : Prop :=
  c'.trace = c.trace ++
    msgs.map fun msg => .sent m.participant.sockFd m.participant.id msg true

/-- What has been sent is known from the history. -/
theorem HasSent.unique {c c' : Coordinator} {m : Messenger} {msgs msgs' : List Message}
    (h : c.HasSent c' m msgs) (h' : c.HasSent c' m msgs') : msgs = msgs' := by
  have hsame := List.append_cancel_left (h.symm.trans h')
  refine List.map_injective_iff.mpr (fun msg msg' heq => ?_) hsame
  exact (Event.sent.inj heq).2.2.1

/-- When every send succeeds, all messages are sent. -/
theorem hasSent_replay {x : Exchange} (hsends : ∀ k, x.sends k = true) (c : Coordinator)
    (m : Messenger) (logOrder missedOrder : IterationOrder Message) (reconnectionTime : ℤ) :
    c.HasSent (c.replay x m logOrder missedOrder reconnectionTime) m
      (c.msgLog.replayed logOrder missedOrder m.participant.disconnectTime reconnectionTime) := by
  rw [HasSent, replay, sendMissedMessages_eq, replays_of_succeeds hsends]

end Coordinator

/-- **A replay of missed messages.** When all sends succeed, the messages that are sent are those
that were logged in the window, each of them once, in the order of the iterations; and that is the
order of the timestamps for every order of the iterations if and only if no two messages of the
window have different timestamps. -/
theorem missed_messages_replayed (c : Coordinator) (x : Exchange) (m : Messenger)
    (reconnectionTime : ℤ) (hsends : ∀ k, x.sends k = true) :
    (∀ logOrder missedOrder, ∃ msgs,
      c.HasSent (c.replay x m logOrder missedOrder reconnectionTime) m msgs ∧
      (msgs.map Message.key).Nodup ∧ ∀ msg, msg ∈ msgs ↔
        c.msgLog.InWindow m.participant.disconnectTime reconnectionTime msg) ∧
    ((∀ logOrder missedOrder, ∃ msgs,
      c.HasSent (c.replay x m logOrder missedOrder reconnectionTime) m msgs ∧
      msgs.Pairwise Message.NotLater) ↔
      ∀ msg msg', c.msgLog.InWindow m.participant.disconnectTime reconnectionTime msg →
        c.msgLog.InWindow m.participant.disconnectTime reconnectionTime msg' →
        msg.timestamp = msg'.timestamp) := by
  refine ⟨fun logOrder missedOrder => ?_, ?_⟩
  · exact ⟨_, Coordinator.hasSent_replay hsends c m logOrder missedOrder reconnectionTime,
      c.msgLog.nodup_replayed logOrder missedOrder _ _,
      fun _ => c.msgLog.mem_replayed logOrder missedOrder _ _⟩
  · rw [← MessageLog.replayed_in_order_iff]
    refine forall_congr' fun logOrder => forall_congr' fun missedOrder => ?_
    have hsent := Coordinator.hasSent_replay hsends c m logOrder missedOrder reconnectionTime
    constructor
    · rintro ⟨msgs, hmsgs, horder⟩
      rwa [hsent.unique hmsgs]
    · intro horder
      exact ⟨_, hsent, horder⟩

/-- A participant is away for two multicasts; both are replayed. -/
theorem missed_messages_replayed_two :
    ∃ c, runFrom Coordinator.serve (.start 10 .ofServer)
        [.smooth (.register 5000) 4 5 1, .smooth (.register 5001) 4 6 2,
          .smooth (.disconnect 2) 4 7 3, .smooth (.sendMulticast "a" 1) 4 7 4,
          .smooth (.sendMulticast "b" 1) 4 7 5] = some c ∧
      ∀ logOrder missedOrder, ∃ msgs,
        c.HasSent (c.replay (.smooth (.reconnect 5001 2) 4 7 6) ⟨c.determineParticipant 2⟩
          logOrder missedOrder 6) ⟨c.determineParticipant 2⟩ msgs ∧
        (msgs.map Message.key).Nodup ∧
        ∀ msg, msg ∈ msgs ↔
          c.msgLog.InWindow (c.determineParticipant 2).disconnectTime 6 msg :=
  ⟨_, rfl, (missed_messages_replayed _ (.smooth (.reconnect 5001 2) 4 7 6) _ 6
    fun _ => rfl).1⟩

/-- The second iteration is the other way round: the later message is sent first. -/
theorem missed_messages_out_of_order :
    ∃ c, runFrom Coordinator.serve (.start 10 .ofServer)
        [.smooth (.register 5000) 4 5 1, .smooth (.register 5001) 4 6 2,
          .smooth (.disconnect 2) 4 7 3, .smooth (.sendMulticast "a" 1) 4 7 4,
          .smooth (.sendMulticast "b" 1) 4 7 5] = some c ∧
      ¬ ∃ msgs, c.HasSent (c.replay (.smooth (.reconnect 5001 2) 4 7 6)
          ⟨c.determineParticipant 2⟩ (.ofInsertion Message)
          (IterationOrder.ofInsertion Message).reverse 6) ⟨c.determineParticipant 2⟩ msgs ∧
        msgs.Pairwise Message.NotLater := by
  refine ⟨_, rfl, ?_⟩
  rintro ⟨msgs, hsent, horder⟩
  have hreversed : msgs = [⟨"b", 5, 1, 1⟩, ⟨"a", 4, 1, 0⟩] := hsent.unique rfl
  rw [hreversed] at horder
  exact absurd horder (by decide)

end Csci6780.PubSub
