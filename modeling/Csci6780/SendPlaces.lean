import Csci6780.Lib.Places
import Csci6780.MessageSender
import Mathlib.Data.List.Nodup

/-!
# Where a Message Is

From the time a message has an id until its result is read, the message or its result lies in
exactly one place: with the caller that is going to push it, on a queue, with a sender task, or in
the table of the results. Each step moves one of these things at most.

## Main results

* `MessageSender.Held.moved`, `MessageSender.Held.kept`: no two things that are held have the same
  id, whatever is moved.
* `MessageSender.moved_pushes` and the lemmas after it: what each kind of step moves.
-/

namespace Csci6780

/-- What is on its way: a message, or the result of one. -/
inductive SendItem
  | message (message : SendQueueMessage)
  | result (messageId : MessageId) (status : Int32)
  deriving DecidableEq, Repr

/-- The id of a message or of its result. -/
def SendItem.messageId : SendItem → MessageId
  | .message msg => msg.messageId
  | .result id _ => id

/-- What a sender task has in its hand. -/
def SenderPc.item : SenderPc → Option SendItem
  | .sending message | .requeueing message => some (.message message)
  | .reporting messageId status => some (.result messageId status)
  | .idle => none

/-- What a caller has in its hand. -/
def SendPc.item {Dest : Type} : SendPc Dest → Option SendItem
  | .dispatching _ message => some (.message message)
  | _ => none

@[simp] theorem SendPc.item_wake {Dest : Type} (pc : SendPc Dest) : pc.wake.item = pc.item := by
  cases pc <;> rfl

/-- Where it can be. -/
inductive SendPlace (QueueId Caller Task : Type)
  | caller (caller : Caller)
  | queue (queue : QueueId)
  | task (task : Task)
  | results

namespace MessageSender

variable {Dest QueueId Caller Task : Type}

/-- `x` is in the place. -/
def holds (s : MessageSender Dest QueueId Caller Task) :
    SendPlace QueueId Caller Task → SendItem → Prop
  | .caller c, x => (s.caller c).item = some x
  | .queue q, x => x ∈ (s.queues q).queue.map SendItem.message
  | .task t, x => ∃ q pc, s.task t = some (q, pc) ∧ pc.item = some x
  | .results, x => ∃ messageId status, x = .result messageId status ∧
      s.sendResults messageId = some status

variable {s s' : MessageSender Dest QueueId Caller Task} {p : SendPlace QueueId Caller Task}
  {x : SendItem} {c : Caller} {q : QueueId} {t : Task}

/-- The result of a message that is stored. -/
theorem holds_results {messageId : MessageId} {status : Int32}
    (h : s.sendResults messageId = some status) : s.holds .results (.result messageId status) :=
  ⟨messageId, status, rfl, h⟩

/-- What a caller has in its hand. -/
theorem holds_caller {destination : Dest} {message : SendQueueMessage}
    (h : s.caller c = .dispatching destination message) :
    s.holds (.caller c) (.message message) := by
  rw [holds, h]
  rfl

/-- What a sender task has in its hand. -/
theorem holds_task {pc : SenderPc} (h : s.task t = some (q, pc)) (hx : pc.item = some x) :
    s.holds (.task t) x :=
  ⟨q, pc, h, hx⟩

/-- What a result becomes when it is stored. -/
theorem holds_store {messageId : MessageId} {status : Int32}
    (h : (s.store messageId status).holds p x) :
    (p = .results ∧ x = .result messageId status) ∨ s.holds p x := by
  cases p with
  | caller c =>
      refine .inr ?_
      rw [holds, store, SendPc.item_wake] at h
      exact h
  | queue q => exact .inr h
  | task t => exact .inr h
  | results =>
      obtain ⟨id, st, rfl, hresult⟩ := h
      by_cases hid : id = messageId
      · subst hid
        simp only [store, Function.update_self] at hresult
        obtain rfl := Option.some.inj hresult
        exact .inl ⟨rfl, rfl⟩
      · simp only [store, Function.update_of_ne hid] at hresult
        exact .inr (holds_results hresult)

/-- A result is erased. -/
theorem holds_erase {messageId : MessageId}
    (h : ({ s with sendResults := Function.update s.sendResults messageId none } :
      MessageSender Dest QueueId Caller Task).holds p x) :
    s.holds p x ∧ (p = .results → x.messageId ≠ messageId) := by
  cases p with
  | caller c => exact ⟨h, by simp⟩
  | queue q => exact ⟨h, by simp⟩
  | task t => exact ⟨h, by simp⟩
  | results =>
      obtain ⟨id, st, rfl, hresult⟩ := h
      by_cases hid : id = messageId
      · subst hid
        simp only [Function.update_self] at hresult
        cases hresult
      · simp only [Function.update_of_ne hid] at hresult
        exact ⟨holds_results hresult, fun _ => hid⟩

/-- A caller goes on. -/
theorem holds_goTo [DecidableEq Caller] {pc : SendPc Dest} (h : (s.goTo c pc).holds p x) :
    (p = .caller c ∧ pc.item = some x) ∨ (p ≠ .caller c ∧ s.holds p x) := by
  cases p with
  | caller d =>
      by_cases hd : d = c
      · subst hd
        simp only [holds, goTo, Function.update_self] at h
        exact .inl ⟨rfl, h⟩
      · simp only [holds, goTo, Function.update_of_ne hd] at h
        exact .inr ⟨fun heq => hd (SendPlace.caller.inj heq), h⟩
  | queue q => exact .inr ⟨by simp, h⟩
  | task t => exact .inr ⟨by simp, h⟩
  | results => exact .inr ⟨by simp, h⟩

/-- A queue changes. -/
theorem holds_setQueue [DecidableEq QueueId] {queue : Queue SendQueueMessage}
    (h : (s.setQueue q queue).holds p x) :
    (p = .queue q ∧ x ∈ queue.queue.map SendItem.message) ∨ (p ≠ .queue q ∧ s.holds p x) := by
  cases p with
  | caller c => exact .inr ⟨by simp, h⟩
  | queue r =>
      by_cases hr : r = q
      · subst hr
        simp only [holds, setQueue, Function.update_self] at h
        exact .inl ⟨rfl, h⟩
      · simp only [holds, setQueue, Function.update_of_ne hr] at h
        exact .inr ⟨fun heq => hr (SendPlace.queue.inj heq), h⟩
  | task t => exact .inr ⟨by simp, h⟩
  | results => exact .inr ⟨by simp, h⟩

/-- A sender task goes on. -/
theorem holds_setTask [DecidableEq Task] {pc : SenderPc} (h : (s.setTask t q pc).holds p x) :
    (p = .task t ∧ pc.item = some x) ∨ (p ≠ .task t ∧ s.holds p x) := by
  cases p with
  | caller c => exact .inr ⟨by simp, h⟩
  | queue q => exact .inr ⟨by simp, h⟩
  | task u =>
      obtain ⟨r, pc', htask, hx⟩ := h
      by_cases hu : u = t
      · subst hu
        simp only [setTask, Function.update_self] at htask
        obtain ⟨rfl, rfl⟩ := Prod.mk.inj (Option.some.inj htask)
        exact .inl ⟨rfl, hx⟩
      · simp only [setTask, Function.update_of_ne hu] at htask
        exact .inr ⟨fun heq => hu (SendPlace.task.inj heq), holds_task htask hx⟩
  | results => exact .inr ⟨by simp, h⟩

/-- A message is pushed on a queue. -/
theorem holds_push [DecidableEq QueueId] {message : SendQueueMessage}
    (h : (s.setQueue q ((s.queues q).push message)).holds p x) :
    (p = .queue q ∧ x = .message message) ∨ s.holds p x := by
  rcases holds_setQueue h with ⟨rfl, hx⟩ | ⟨-, hx⟩
  · rw [Queue.push, List.map_append, List.mem_append] at hx
    rcases hx with hx | hx
    · exact .inr hx
    · exact .inl ⟨rfl, List.mem_singleton.mp hx⟩
  · exact .inr hx

/-! ### One step -/

/-- No two things that are held have the same id, and no id is ahead of `message_id_`. -/
structure Held (s : MessageSender Dest QueueId Caller Task) : Prop where
  exclusive : Exclusive SendItem.messageId s.holds
  nodup : ∀ q, ((s.queues q).queue.map SendQueueMessage.messageId).Nodup
  taken : ∀ p x, s.holds p x → x.messageId.toNat ≤ s.messageId.toNat

namespace Held

/-- A thing comes to a place. -/
theorem moved (h : s.Held) (hmoved : Moved SendItem.messageId s.holds s'.holds p x)
    (hnodup : ∀ q, ((s'.queues q).queue.map SendQueueMessage.messageId).Nodup)
    (hid : s.messageId.toNat ≤ s'.messageId.toNat)
    (hx : x.messageId.toNat ≤ s'.messageId.toNat) : s'.Held where
  exclusive := h.exclusive.of_moved hmoved
  nodup := hnodup
  taken q y hy := by
    rcases hmoved hy with ⟨-, rfl⟩ | ⟨hy, -⟩
    · exact hx
    · exact (h.taken q y hy).trans hid

/-- Nothing comes to a place. -/
theorem kept (h : s.Held) (hsub : ∀ ⦃p x⦄, s'.holds p x → s.holds p x)
    (hqueues : s'.queues = s.queues) (hid : s.messageId.toNat ≤ s'.messageId.toNat) : s'.Held where
  exclusive := h.exclusive.mono hsub
  nodup := hqueues ▸ h.nodup
  taken q y hy := (h.taken q y (hsub hy)).trans hid

end Held

/-- A queue changes; its ids must still be different. -/
theorem nodup_setQueue [DecidableEq QueueId] {queue : Queue SendQueueMessage}
    (h : ∀ r, ((s.queues r).queue.map SendQueueMessage.messageId).Nodup)
    (hqueue : (queue.queue.map SendQueueMessage.messageId).Nodup) (r : QueueId) :
    (((s.setQueue q queue).queues r).queue.map SendQueueMessage.messageId).Nodup := by
  by_cases hr : r = q
  · subst hr
    simp only [setQueue, Function.update_self]
    exact hqueue
  · simp only [setQueue, Function.update_of_ne hr]
    exact h r

/-- A message that is held somewhere else is pushed on a queue. -/
theorem Held.nodup_push [DecidableEq QueueId] (h : s.Held) {message : SendQueueMessage}
    (hx : s.holds p (.message message)) (hp : ∀ r, p ≠ .queue r) (r : QueueId) :
    (((s.setQueue q ((s.queues q).push message)).queues r).queue.map
      SendQueueMessage.messageId).Nodup := by
  refine nodup_setQueue h.nodup ?_ r
  rw [Queue.push, List.map_append, List.nodup_append]
  refine ⟨h.nodup q, List.nodup_singleton _, ?_⟩
  intro id hid id' hid' heq
  obtain rfl := List.mem_singleton.mp hid'
  obtain ⟨other, hmem, rfl⟩ := List.mem_map.mp hid
  have hother : s.holds (.queue q) (.message other) := List.mem_map_of_mem hmem
  exact hp q (h.exclusive hx hother heq.symm).1

/-! ### What each step moves -/

/-- A caller goes on with nothing in its hand. -/
theorem holds_goTo_none [DecidableEq Caller] {pc : SendPc Dest} (hpc : pc.item = none)
    (h : (s.goTo c pc).holds p x) : p ≠ .caller c ∧ s.holds p x := by
  rcases holds_goTo h with ⟨-, hx⟩ | h
  · rw [hpc] at hx
    cases hx
  · exact h

/-- A sender task goes on with nothing in its hand. -/
theorem holds_setTask_none [DecidableEq Task] {pc : SenderPc} (hpc : pc.item = none)
    (h : (s.setTask t q pc).holds p x) : p ≠ .task t ∧ s.holds p x := by
  rcases holds_setTask h with ⟨-, hx⟩ | h
  · rw [hpc] at hx
    cases hx
  · exact h

/-- Whatever is left of a message that has been sent has its id. -/
theorem messageId_afterSend {message : SendQueueMessage} {result : SendResult}
    (hx : (SenderPc.afterSend message result).item = some x) : x.messageId = message.messageId := by
  rw [SenderPc.afterSend] at hx
  split at hx
  · obtain rfl := Option.some.inj hx
    rfl
  · split at hx
    · cases hx
    · obtain rfl := Option.some.inj hx
      rfl

theorem item_afterPush (message : SendQueueMessage) :
    (afterPush message : SendPc Dest).item = none := by
  rw [afterPush]
  split <;> rfl

/-- An id is taken for a message. -/
theorem moved_prepares [DecidableEq Caller] (h : s.Held) {message : SendQueueMessage}
    {destination : Dest} {id : MessageId} (hmessage : s.messageId.toNat < message.messageId.toNat) :
    Moved SendItem.messageId s.holds
      ({ s with messageId := id }.goTo c (.dispatching destination message)).holds
      (.caller c) (.message message) := by
  intro q y hy
  rcases holds_goTo hy with ⟨rfl, hitem⟩ | ⟨-, hy⟩
  · exact .inl ⟨rfl, (Option.some.inj hitem).symm⟩
  · refine .inr ⟨hy, fun heq => ?_⟩
    have hle : y.messageId.toNat ≤ s.messageId.toNat := h.taken q y hy
    rw [heq] at hle
    exact absurd hle (Nat.not_le.mpr hmessage)

/-- A message is pushed. -/
theorem moved_pushes [DecidableEq QueueId] [DecidableEq Caller] (h : s.Held) {destination : Dest}
    {message : SendQueueMessage}
    (hpc : s.caller c = .dispatching destination message) :
    Moved SendItem.messageId s.holds
      ((s.setQueue q ((s.queues q).push message)).goTo c (afterPush message)).holds
      (.queue q) (.message message) := by
  refine h.exclusive.moved (holds_caller hpc) rfl fun r y hy => ?_
  obtain ⟨hne, hy⟩ := holds_goTo_none (item_afterPush message) hy
  exact (holds_push hy).imp id fun hy => ⟨hy, .inl hne⟩

/-- A message is taken off a queue. -/
theorem moved_pops [DecidableEq QueueId] [DecidableEq Task] (h : s.Held)
    {message : SendQueueMessage}
    {rest : List SendQueueMessage}
    (hqueue : (s.queues q).queue = message :: rest) :
    Moved SendItem.messageId s.holds
      ((s.setQueue q { s.queues q with queue := rest }).setTask t q (.sending message)).holds
      (.task t) (.message message) := by
  have hmem : ∀ {y}, y ∈ rest.map SendItem.message → s.holds (.queue q) y := by
    intro y hy
    rw [holds, hqueue]
    exact List.mem_cons_of_mem _ hy
  have hfirst : s.holds (.queue q) (.message message) := by
    rw [holds, hqueue]
    exact List.mem_cons_self
  have hnodup := h.nodup q
  rw [hqueue, List.map_cons, List.nodup_cons] at hnodup
  refine h.exclusive.moved hfirst rfl fun r y hy => ?_
  rcases holds_setTask hy with ⟨rfl, hitem⟩ | ⟨-, hy⟩
  · exact .inl ⟨rfl, (Option.some.inj hitem).symm⟩
  · rcases holds_setQueue hy with ⟨rfl, hrest⟩ | ⟨hne, hy⟩
    · refine .inr ⟨hmem hrest, .inr ?_⟩
      rintro rfl
      obtain ⟨other, hother, heq⟩ := List.mem_map.mp hrest
      obtain rfl := SendItem.message.inj heq
      exact hnodup.1 (List.mem_map_of_mem hother)
    · exact .inr ⟨hy, .inl hne⟩

/-- A message has been sent, and its result or the message itself stays with the task. -/
theorem moved_sends [DecidableEq Task] (h : s.Held) {message : SendQueueMessage}
    {result : SendResult}
    (htask : s.task t = some (q, .sending message))
    (hx : (SenderPc.afterSend message result).item = some x) :
    Moved SendItem.messageId s.holds (s.setTask t q (SenderPc.afterSend message result)).holds
      (.task t) x := by
  refine h.exclusive.moved (holds_task htask rfl) (messageId_afterSend hx) fun r y hy => ?_
  rcases holds_setTask hy with ⟨rfl, hitem⟩ | ⟨hne, hy⟩
  · exact .inl ⟨rfl, Option.some.inj (hitem.symm.trans hx)⟩
  · exact .inr ⟨hy, .inl hne⟩

/-- A message that timed out goes back to the queue. -/
theorem moved_requeues [DecidableEq QueueId] [DecidableEq Task] (h : s.Held)
    {message : SendQueueMessage}
    (htask : s.task t = some (q, .requeueing message)) :
    Moved SendItem.messageId s.holds
      ((s.setQueue q ((s.queues q).push message)).setTask t q .idle).holds
      (.queue q) (.message message) := by
  refine h.exclusive.moved (holds_task htask rfl) rfl fun r y hy => ?_
  obtain ⟨hne, hy⟩ := holds_setTask_none rfl hy
  exact (holds_push hy).imp id fun hy => ⟨hy, .inl hne⟩

/-- A result is stored. -/
theorem moved_reports [DecidableEq Task] (h : s.Held) {messageId : MessageId} {status : Int32}
    (htask : s.task t = some (q, .reporting messageId status)) :
    Moved SendItem.messageId s.holds ((s.store messageId status).setTask t q .idle).holds
      .results (.result messageId status) := by
  refine h.exclusive.moved (holds_task htask rfl) rfl fun r y hy => ?_
  obtain ⟨hne, hy⟩ := holds_setTask_none rfl hy
  exact (holds_store hy).imp id fun hy => ⟨hy, .inl hne⟩

/-- A result is erased, and nothing has its id any more. -/
theorem kept_returns [DecidableEq Caller] (h : s.Held) {messageId : MessageId} {result : Int32}
    (hresult : s.sendResults messageId = some result)
    (hy : ({ s with sendResults := Function.update s.sendResults messageId none }.goTo c
      .idle).holds p x) : s.holds p x ∧ x.messageId ≠ messageId := by
  obtain ⟨hx, hne⟩ := holds_erase (holds_goTo_none rfl hy).2
  refine ⟨hx, fun heq => ?_⟩
  obtain ⟨rfl, -⟩ := h.exclusive (holds_results hresult) hx heq.symm
  exact hne rfl heq

/-- An asynchronous message has been sent, and nothing has its id any more. -/
theorem kept_sends [DecidableEq Task] (h : s.Held) {message : SendQueueMessage}
    {result : SendResult}
    (htask : s.task t = some (q, .sending message))
    (hnone : (SenderPc.afterSend message result).item = none)
    (hy : (s.setTask t q (SenderPc.afterSend message result)).holds p x) :
    s.holds p x ∧ x.messageId ≠ message.messageId := by
  obtain ⟨hne, hx⟩ := holds_setTask_none hnone hy
  refine ⟨hx, h.exclusive.key_ne (holds_task htask rfl) hx (.inl hne)⟩

end MessageSender

end Csci6780
