import Csci6780.SendPlaces

/-!
# Every Caller Gets Its Own Result

`Send` waits for the result that is stored under the id of its message. No other message of the run
has this id as long as `message_id_` does not wrap around, and a result is stored once for an id, by
the sender task that is done with the message.

## Main results

* `MessageSender.Answers.stepped`: what a step keeps.
* `MessageSender.answers_of_run`: it holds in every run of fewer than `2 ^ 64` calls.
-/

namespace Csci6780

namespace SendingEvent

variable {Caller Task : Type}

/-- The id that the event is about. -/
def messageId : SendingEvent Caller Task → Option MessageId
  | .failed _ => none
  | .dispatched _ message | .attempted _ message _ => some message.messageId
  | .stored messageId _ | .returned _ messageId _ => some messageId

/-- The message that is put on a queue. -/
def dispatchedMessage : SendingEvent Caller Task → Option SendQueueMessage
  | .dispatched _ message => some message
  | _ => none

/-- The message that a caller puts on a queue. -/
def dispatchedBy [DecidableEq Caller] (c : Caller) :
    SendingEvent Caller Task → Option SendQueueMessage
  | .dispatched d message => if d = c then some message else none
  | _ => none

/-- The id for which a result is stored. -/
def storedId : SendingEvent Caller Task → Option MessageId
  | .stored messageId _ => some messageId
  | _ => none

/-- What a call of `send` for a message returns, as an `int`. -/
def statusOf (id : MessageId) : SendingEvent Caller Task → Option Int32
  | .attempted _ message result =>
      if message.messageId = id then some (Int32.ofInt (SenderPc.sendResult message result))
      else none
  | _ => none

end SendingEvent

namespace MessageSender

variable {Dest QueueId Caller Task : Type}

/-- The messages that have been put on a queue. -/
def dispatchedMessages (events : List (SendingEvent Caller Task)) : List SendQueueMessage :=
  events.filterMap SendingEvent.dispatchedMessage

/-- Their ids. -/
def dispatchedIds (events : List (SendingEvent Caller Task)) : List MessageId :=
  (dispatchedMessages events).map SendQueueMessage.messageId

/-- The ids for which a result has been stored. -/
def storedIds (events : List (SendingEvent Caller Task)) : List MessageId :=
  events.filterMap SendingEvent.storedId

/-- The result of the last `send` for a message. -/
def lastStatus (events : List (SendingEvent Caller Task)) (id : MessageId) : Option Int32 :=
  (events.filterMap (SendingEvent.statusOf id)).getLast?

/-- The message that a caller has put on a queue last. -/
def lastDispatched [DecidableEq Caller] (events : List (SendingEvent Caller Task)) (c : Caller) :
    Option SendQueueMessage :=
  (events.filterMap (SendingEvent.dispatchedBy c)).getLast?

section Histories

variable {hist es : List (SendingEvent Caller Task)} {id : MessageId} {c : Caller}
  {message : SendQueueMessage}

theorem dispatchedIds_append (as bs : List (SendingEvent Caller Task)) :
    dispatchedIds (as ++ bs) = dispatchedIds as ++ dispatchedIds bs := by
  rw [dispatchedIds, dispatchedMessages, List.filterMap_append, List.map_append]
  rfl

theorem storedIds_append (as bs : List (SendingEvent Caller Task)) :
    storedIds (as ++ bs) = storedIds as ++ storedIds bs :=
  List.filterMap_append

/-- What is put on a queue has been. -/
theorem mem_dispatchedMessages (h : .dispatched c message ∈ hist) :
    message ∈ dispatchedMessages hist :=
  List.mem_filterMap.mpr ⟨_, h, rfl⟩

/-- An id whose message is put on a queue is what the event is about. -/
theorem exists_of_mem_dispatchedIds (h : id ∈ dispatchedIds es) :
    ∃ e ∈ es, SendingEvent.messageId e = some id := by
  obtain ⟨message, hmessage, rfl⟩ := List.mem_map.mp h
  obtain ⟨e, he, hdispatched⟩ := List.mem_filterMap.mp hmessage
  refine ⟨e, he, ?_⟩
  cases e with
  | dispatched c m =>
      obtain rfl := Option.some.inj hdispatched
      rfl
  | _ => cases hdispatched

theorem exists_of_mem_storedIds (h : id ∈ storedIds es) :
    ∃ e ∈ es, SendingEvent.messageId e = some id := by
  obtain ⟨e, he, hstored⟩ := List.mem_filterMap.mp h
  refine ⟨e, he, ?_⟩
  cases e with
  | stored messageId status => exact hstored
  | _ => cases hstored

/-- Events about other ids leave the last result as it is. -/
theorem lastStatus_append (h : ∀ e ∈ es, SendingEvent.messageId e ≠ some id) :
    lastStatus (hist ++ es) id = lastStatus hist id := by
  have hnone : es.filterMap (SendingEvent.statusOf id) = [] := by
    refine List.filterMap_eq_nil_iff.mpr fun e he => ?_
    cases e with
    | attempted t message result =>
        exact if_neg fun heq => h _ he (congrArg some heq)
    | _ => rfl
  rw [lastStatus, List.filterMap_append, hnone, List.append_nil]
  rfl

/-- The message that was put on a queue last has been put on one. -/
theorem mem_of_lastDispatched [DecidableEq Caller] (h : lastDispatched hist c = some message) :
    .dispatched c message ∈ hist := by
  obtain ⟨e, he, hby⟩ := List.mem_filterMap.mp (List.mem_of_getLast? h)
  cases e with
  | dispatched d m =>
      rw [SendingEvent.dispatchedBy] at hby
      split at hby
      · next hd =>
          obtain rfl := Option.some.inj hby
          exact hd ▸ he
      · cases hby
  | _ => cases hby

/-- A message is put on a queue. -/
theorem lastDispatched_concat [DecidableEq Caller] (hist : List (SendingEvent Caller Task))
    (c : Caller) (message : SendQueueMessage) :
    lastDispatched (hist ++ [.dispatched c message]) c = some message := by
  have hone : ([.dispatched c message] : List (SendingEvent Caller Task)).filterMap
      (SendingEvent.dispatchedBy c) = [message] := by
    simp [SendingEvent.dispatchedBy]
  rw [lastDispatched, List.filterMap_append, hone, List.getLast?_concat]

/-- `send` is called for a message. -/
theorem lastStatus_concat (hist : List (SendingEvent Caller Task)) (t : Task)
    (message : SendQueueMessage) (result : SendResult) :
    lastStatus (hist ++ [.attempted t message result]) message.messageId =
      some (Int32.ofInt (SenderPc.sendResult message result)) := by
  have hone : ([.attempted t message result] : List (SendingEvent Caller Task)).filterMap
      (SendingEvent.statusOf message.messageId) =
        [Int32.ofInt (SenderPc.sendResult message result)] := by
    simp [SendingEvent.statusOf]
  rw [lastStatus, List.filterMap_append, hone, List.getLast?_concat]

/-- Events in which the caller puts nothing on a queue. -/
theorem lastDispatched_append [DecidableEq Caller]
    (h : ∀ e ∈ es, SendingEvent.dispatchedBy c e = none) :
    lastDispatched (hist ++ es) c = lastDispatched hist c := by
  rw [lastDispatched, List.filterMap_append, List.filterMap_eq_nil_iff.mpr h, List.append_nil]
  rfl

end Histories

/-! ### What holds of the things that are held -/

/-- What a caller gets that returns: the result of the last `send` for the message that it put on a
queue last, a synchronous one. -/
def OwnResult [DecidableEq Caller] (hist : List (SendingEvent Caller Task)) (c : Caller)
    (id : MessageId) (result : Int32) : Prop :=
  ∃ message, lastDispatched hist c = some message ∧ message.messageId = id ∧
    message.sendAsync = false ∧ lastStatus hist id = some result

/-- Somebody has put the message on a queue, and waits for the result of a synchronous one. -/
def Sent (hist : List (SendingEvent Caller Task)) (s : MessageSender Dest QueueId Caller Task)
    (message : SendQueueMessage) : Prop :=
  ∃ c, .dispatched c message ∈ hist ∧
    (message.sendAsync = false → (s.caller c).awaited = some message.messageId)

/-- Somebody waits for the result, which is that of the last `send`. -/
def Reported (hist : List (SendingEvent Caller Task)) (s : MessageSender Dest QueueId Caller Task)
    (id : MessageId) (status : Int32) : Prop :=
  lastStatus hist id = some status ∧ ∃ c, (s.caller c).awaited = some id

/-- What holds of a thing in its place. -/
def Fine (hist : List (SendingEvent Caller Task)) (s : MessageSender Dest QueueId Caller Task) :
    SendPlace QueueId Caller Task → SendItem → Prop
  | .caller _, .message message =>
      message.messageId ∉ dispatchedIds hist ∧ message.messageId ∉ storedIds hist
  | .queue _, .message message | .task _, .message message =>
      message.messageId ∉ storedIds hist ∧ Sent hist s message
  | .task _, .result id status => id ∉ storedIds hist ∧ Reported hist s id status
  | .results, .result id status => Reported hist s id status
  | _, _ => True

/-- A step has nothing to do with an id: nothing that happens is about it, and who waits for its
result goes on waiting. -/
structure Untouched (es : List (SendingEvent Caller Task))
    (s s' : MessageSender Dest QueueId Caller Task) (id : MessageId) : Prop where
  events : ∀ e ∈ es, SendingEvent.messageId e ≠ some id
  awaited : ∀ c, (s.caller c).awaited = some id → (s'.caller c).awaited = some id

variable {hist es : List (SendingEvent Caller Task)}
  {s s' : MessageSender Dest QueueId Caller Task} {p : SendPlace QueueId Caller Task} {x : SendItem}
  {c : Caller} {q : QueueId} {t : Task} {id : MessageId}

namespace Untouched

theorem not_mem_dispatchedIds (h : Untouched es s s' id) (hid : id ∉ dispatchedIds hist) :
    id ∉ dispatchedIds (hist ++ es) := by
  rw [dispatchedIds_append, List.mem_append]
  rintro (hmem | hmem)
  · exact hid hmem
  · obtain ⟨e, he, heq⟩ := exists_of_mem_dispatchedIds hmem
    exact h.events e he heq

theorem not_mem_storedIds (h : Untouched es s s' id) (hid : id ∉ storedIds hist) :
    id ∉ storedIds (hist ++ es) := by
  rw [storedIds_append, List.mem_append]
  rintro (hmem | hmem)
  · exact hid hmem
  · obtain ⟨e, he, heq⟩ := exists_of_mem_storedIds hmem
    exact h.events e he heq

theorem sent {message : SendQueueMessage} (h : Untouched es s s' message.messageId)
    (hsent : Sent hist s message) : Sent (hist ++ es) s' message := by
  obtain ⟨c, hmem, hawaited⟩ := hsent
  exact ⟨c, List.mem_append_left es hmem, fun hsync => h.awaited c (hawaited hsync)⟩

theorem reported {status : Int32} (h : Untouched es s s' id)
    (hreported : Reported hist s id status) :
    Reported (hist ++ es) s' id status := by
  obtain ⟨hstatus, c, hawaited⟩ := hreported
  exact ⟨(lastStatus_append h.events).trans hstatus, c, h.awaited c hawaited⟩

/-- **The frame lemma.** -/
theorem fine (h : Untouched es s s' x.messageId) (hfine : Fine hist s p x) :
    Fine (hist ++ es) s' p x := by
  cases p with
  | caller c =>
      cases x with
      | message message => exact ⟨h.not_mem_dispatchedIds hfine.1, h.not_mem_storedIds hfine.2⟩
      | result id status => exact trivial
  | queue q =>
      cases x with
      | message message => exact ⟨h.not_mem_storedIds hfine.1, h.sent hfine.2⟩
      | result id status => exact trivial
  | task t =>
      cases x with
      | message message => exact ⟨h.not_mem_storedIds hfine.1, h.sent hfine.2⟩
      | result id status => exact ⟨h.not_mem_storedIds hfine.1, h.reported hfine.2⟩
  | results =>
      cases x with
      | message message => exact trivial
      | result id status => exact h.reported hfine

/-- The callers wait for what they waited for before, and at most a call fails. -/
theorem quiet (hawaited : ∀ c, (s'.caller c).awaited = (s.caller c).awaited)
    (hes : ∀ e ∈ es, ∃ c, e = .failed c) (id : MessageId) : Untouched es s s' id where
  events e he := by
    obtain ⟨c, rfl⟩ := hes e he
    rintro ⟨⟩
  awaited c hc := (hawaited c).trans hc

end Untouched

/-- A thing comes to a place, and the step has to do with its id only. -/
theorem fine_of_moved (hfine : ∀ q y, s.holds q y → Fine hist s q y)
    (hmoved : Moved SendItem.messageId s.holds s'.holds p x) (hx : Fine (hist ++ es) s' p x)
    (huntouched : ∀ id, id ≠ x.messageId → Untouched es s s' id) (q : SendPlace QueueId Caller Task)
    (y : SendItem) (hy : s'.holds q y) : Fine (hist ++ es) s' q y := by
  rcases hmoved hy with ⟨rfl, rfl⟩ | ⟨hy, hne⟩
  · exact hx
  · exact (huntouched _ hne).fine (hfine q y hy)

/-- Nothing comes to a place, and the step has nothing to do with what stays. -/
theorem fine_of_kept (hfine : ∀ q y, s.holds q y → Fine hist s q y)
    (hkept : ∀ q y, s'.holds q y → s.holds q y ∧ Untouched es s s' y.messageId)
    (q : SendPlace QueueId Caller Task) (y : SendItem) (hy : s'.holds q y) :
    Fine (hist ++ es) s' q y := by
  obtain ⟨hy, huntouched⟩ := hkept q y hy
  exact huntouched.fine (hfine q y hy)

/-! ### What has happened -/

/-- What holds of what has happened, while `n` ids have been taken. -/
structure Records [DecidableEq Caller] (hist : List (SendingEvent Caller Task)) (n : ℕ) : Prop where
  dispatched : (dispatchedIds hist).Nodup
  stored : (storedIds hist).Nodup
  past : ∀ id, id ∈ dispatchedIds hist ∨ id ∈ storedIds hist → id.toNat ≤ n
  own : ∀ pre c id result, pre ++ [.returned c id result] <+: hist → OwnResult pre c id result

namespace Records

variable [DecidableEq Caller] {n n' : ℕ}

theorem start : Records ([] : List (SendingEvent Caller Task)) 0 where
  dispatched := List.nodup_nil
  stored := List.nodup_nil
  past _ h := absurd h (not_or.mpr ⟨List.not_mem_nil, List.not_mem_nil⟩)
  own pre c id result h :=
    absurd (List.prefix_nil.mp h) (List.append_ne_nil_of_right_ne_nil _ (by simp))

/-- More ids have been taken. -/
theorem mono (h : Records hist n) (hn : n ≤ n') : Records hist n' :=
  ⟨h.dispatched, h.stored, fun id hid => (h.past id hid).trans hn, h.own⟩

/-- **Something happens**: an id that is dispatched, or for which a result is stored, is a new one,
and a result that is returned is the caller's own. -/
theorem append (h : Records hist n) (e : SendingEvent Caller Task)
    (hdispatched : ∀ message, e.dispatchedMessage = some message →
      message.messageId ∉ dispatchedIds hist ∧ message.messageId.toNat ≤ n)
    (hstored : ∀ id, e.storedId = some id → id ∉ storedIds hist ∧ id.toNat ≤ n)
    (hown : ∀ c id result, e = .returned c id result → OwnResult hist c id result) :
    Records (hist ++ [e]) n := by
  have hids : dispatchedIds [e] = e.dispatchedMessage.toList.map SendQueueMessage.messageId := by
    cases e <;> rfl
  have hstores : storedIds [e] = e.storedId.toList := by
    cases e <;> rfl
  refine ⟨?_, ?_, ?_, ?_⟩
  · rw [dispatchedIds_append, hids]
    cases hmessage : e.dispatchedMessage with
    | none =>
        rw [Option.toList_none, List.map_nil, List.append_nil]
        exact h.dispatched
    | some message =>
        rw [Option.toList_some, List.map_singleton]
        exact List.nodup_append'.mpr ⟨h.dispatched, List.nodup_singleton _,
          List.disjoint_singleton.mpr (hdispatched message hmessage).1⟩
  · rw [storedIds_append, hstores]
    cases hid : e.storedId with
    | none =>
        rw [Option.toList_none, List.append_nil]
        exact h.stored
    | some id =>
        rw [Option.toList_some]
        exact List.nodup_append'.mpr ⟨h.stored, List.nodup_singleton _,
          List.disjoint_singleton.mpr (hstored id hid).1⟩
  · intro id hid
    rw [dispatchedIds_append, storedIds_append, List.mem_append, List.mem_append, hids, hstores]
      at hid
    rcases hid with (hid | hid) | (hid | hid)
    · exact h.past id (.inl hid)
    · obtain ⟨message, hmessage, rfl⟩ := List.mem_map.mp hid
      exact (hdispatched message (Option.mem_toList.mp hmessage)).2
    · exact h.past id (.inr hid)
    · exact (hstored id (Option.mem_toList.mp hid)).2
  · intro pre c id result hpre
    rcases List.prefix_concat_iff.mp hpre with heq | hpre
    · obtain ⟨rfl, hevent⟩ := List.append_inj' heq rfl
      exact hown c id result (List.singleton_inj.mp hevent).symm
    · exact h.own pre c id result hpre

/-- What is neither put on a queue, nor stored, nor returned. -/
theorem append_other (h : Records hist n) (e : SendingEvent Caller Task)
    (hdispatched : e.dispatchedMessage = none) (hstored : e.storedId = none)
    (hreturned : ∀ c id result, e ≠ .returned c id result) : Records (hist ++ [e]) n := by
  refine h.append e (fun message hmessage => ?_) (fun id hid => ?_) fun c id result heq => ?_
  · rw [hdispatched] at hmessage
    cases hmessage
  · rw [hstored] at hid
    cases hid
  · exact absurd heq (hreturned c id result)

end Records

/-! ### One step -/

/-- Who waits has put a synchronous message with this id on a queue last. -/
def Awaits [DecidableEq Caller] (hist : List (SendingEvent Caller Task))
    (s : MessageSender Dest QueueId Caller Task) : Prop :=
  ∀ c id, (s.caller c).awaited = some id → ∃ message, lastDispatched hist c = some message ∧
    message.messageId = id ∧ message.sendAsync = false

/-- What holds in every state of a run, after the history `hist`. -/
structure Answers [DecidableEq Caller] (hist : List (SendingEvent Caller Task))
    (s : MessageSender Dest QueueId Caller Task) : Prop where
  held : s.Held
  fine : ∀ p x, s.holds p x → Fine hist s p x
  awaits : Awaits hist s
  records : Records hist s.messageId.toNat

variable [DecidableEq Caller]

/-- Nobody puts a message on a queue, and nobody begins to wait. -/
theorem Awaits.keep (h : Awaits hist s) (hes : ∀ c, ∀ e ∈ es, SendingEvent.dispatchedBy c e = none)
    (hback : ∀ c id, (s'.caller c).awaited = some id → (s.caller c).awaited = some id) :
    Awaits (hist ++ es) s' := by
  intro c id hid
  rw [lastDispatched_append (hes c)]
  exact h c id (hback c id hid)

/-- A caller goes on, and waits for what it waited for before. -/
theorem awaited_goTo {pc : SendPc Dest} (hpc : pc.awaited = (s.caller c).awaited) (d : Caller) :
    ((s.goTo c pc).caller d).awaited = (s.caller d).awaited := by
  by_cases hd : d = c
  · subst hd
    simp only [goTo, Function.update_self]
    exact hpc
  · simp only [goTo, Function.update_of_ne hd]

namespace Answers

/-- Nothing is moved, and at most a call fails. -/
theorem quiet (h : Answers hist s) (hsub : ∀ p x, s'.holds p x → s.holds p x)
    (hqueues : s'.queues = s.queues) (hid : s.messageId.toNat ≤ s'.messageId.toNat)
    (hawaited : ∀ c, (s'.caller c).awaited = (s.caller c).awaited)
    (hes : es = [] ∨ ∃ c, es = [.failed c]) : Answers (hist ++ es) s' := by
  have hfailed : ∀ e ∈ es, ∃ c, e = SendingEvent.failed c := by
    rcases hes with rfl | ⟨c, rfl⟩
    · exact fun e he => absurd he List.not_mem_nil
    · exact fun e he => ⟨c, List.mem_singleton.mp he⟩
  refine ⟨h.held.kept hsub hqueues hid, ?_, ?_, ?_⟩
  · exact fine_of_kept h.fine fun p x hx =>
      ⟨hsub p x hx, Untouched.quiet hawaited hfailed x.messageId⟩
  · refine h.awaits.keep (fun c e he => ?_) fun c id hc => (hawaited c).symm.trans hc
    obtain ⟨d, rfl⟩ := hfailed e he
    rfl
  · have hrecords := h.records.mono hid
    rcases hes with rfl | ⟨c, rfl⟩
    · rw [List.append_nil]
      exact hrecords
    · exact hrecords.append_other _ rfl rfl (by simp)

/-- A message is moved, and nothing else happens. -/
theorem passes (h : Answers hist s) (hmoved : Moved SendItem.messageId s.holds s'.holds p x)
    (hnodup : ∀ q, ((s'.queues q).queue.map SendQueueMessage.messageId).Nodup)
    (hid : s.messageId.toNat ≤ s'.messageId.toNat) (hx : x.messageId.toNat ≤ s'.messageId.toNat)
    (hawaited : ∀ c, (s'.caller c).awaited = (s.caller c).awaited) (hfine : Fine hist s' p x) :
    Answers (hist ++ []) s' := by
  have hnone : ∀ e ∈ ([] : List (SendingEvent Caller Task)), ∃ c, e = .failed c :=
    fun e he => absurd he List.not_mem_nil
  refine ⟨h.held.moved hmoved hnodup hid hx, ?_, ?_, ?_⟩
  · exact fine_of_moved h.fine hmoved ((List.append_nil hist).symm ▸ hfine) fun id _ =>
      Untouched.quiet hawaited hnone id
  · exact h.awaits.keep (fun c e he => absurd he List.not_mem_nil) fun c id hc =>
      (hawaited c).symm.trans hc
  · rw [List.append_nil]
    exact h.records.mono hid

/-- An id is taken for a message. -/
theorem prepares (h : Answers hist s) {destination : Dest} {bytes : List UInt8} {async : Bool}
    (hpc : s.caller c = .idle) (hid : s.messageId.toNat ≤ (s.messageId + 1).toNat) :
    Answers (hist ++ []) ({ s with messageId := s.messageId + 1 }.goTo c
      (.dispatching destination ⟨s.messageId + 1, bytes, async⟩)) := by
  have hlt : s.messageId.toNat < (s.messageId + 1).toNat := by
    rw [UInt64.toNat_add, UInt64.toNat_one] at hid ⊢
    omega
  have hawaited :
      (.dispatching destination ⟨s.messageId + 1, bytes, async⟩ : SendPc Dest).awaited =
        (s.caller c).awaited := by
    rw [hpc]
    rfl
  have hnew : ∀ id, id ∈ dispatchedIds hist ∨ id ∈ storedIds hist → s.messageId + 1 ≠ id := by
    rintro id hmem rfl
    exact absurd (h.records.past _ hmem) (Nat.not_le.mpr hlt)
  exact h.passes (moved_prepares h.held hlt) h.held.nodup hid (Nat.le_refl _)
    (awaited_goTo hawaited) ⟨fun hmem => hnew _ (.inl hmem) rfl, fun hmem => hnew _ (.inr hmem) rfl⟩

/-- A message is pushed. -/
theorem pushes [DecidableEq QueueId] (h : Answers hist s) {destination : Dest}
    {message : SendQueueMessage}
    (hpc : s.caller c = .dispatching destination message) (q : QueueId) :
    Answers (hist ++ [.dispatched c message])
      ((s.setQueue q ((s.queues q).push message)).goTo c (afterPush message)) := by
  have hx := holds_caller hpc
  have hbefore : message.messageId ∉ dispatchedIds hist ∧ message.messageId ∉ storedIds hist :=
    h.fine _ _ hx
  have hbound := h.held.taken _ _ hx
  refine ⟨h.held.moved (moved_pushes h.held hpc) (h.held.nodup_push hx (by simp)) (Nat.le_refl _)
    hbound, ?_, ?_, ?_⟩
  · refine fine_of_moved h.fine (moved_pushes h.held hpc) ⟨?_, c, ?_, fun hsync => ?_⟩ fun id hid =>
      ⟨?_, fun d hd => ?_⟩
    · rw [storedIds_append]
      exact fun hmem => hbefore.2 ((List.append_nil (storedIds hist)) ▸ hmem)
    · exact List.mem_append_right hist (List.mem_singleton_self _)
    · simp only [goTo, Function.update_self, afterPush, hsync]
      rfl
    · intro e he heq
      obtain rfl := List.mem_singleton.mp he
      exact hid (Option.some.inj heq).symm
    · have hdc : d ≠ c := by
        rintro rfl
        rw [hpc] at hd
        cases hd
      simp only [goTo, Function.update_of_ne hdc]
      exact hd
  · intro d id hd
    by_cases hdc : d = c
    · subst hdc
      simp only [goTo, Function.update_self, afterPush] at hd
      split at hd
      · cases hd
      · next hsync =>
          exact ⟨message, lastDispatched_concat hist d message, Option.some.inj hd,
            Bool.eq_false_iff.mpr hsync⟩
    · simp only [goTo, Function.update_of_ne hdc] at hd
      rw [lastDispatched_append]
      · exact h.awaits d id hd
      · intro e he
        obtain rfl := List.mem_singleton.mp he
        exact if_neg (Ne.symm hdc)
  · refine h.records.append _ (fun other hother => ?_) (fun _ h => by cases h)
      fun _ _ _ h => by cases h
    obtain rfl := Option.some.inj hother
    exact ⟨hbefore.1, hbound⟩

/-- A result is returned. -/
theorem returns (h : Answers hist s) {result : Int32} (hpc : s.caller c = .waiting id)
    (hresult : s.sendResults id = some result) :
    Answers (hist ++ [.returned c id result])
      ({ s with sendResults := Function.update s.sendResults id none }.goTo c .idle) := by
  have hawaited : (s.caller c).awaited = some id := by
    rw [hpc]
    rfl
  have hreported : Reported hist s id result := h.fine _ _ (holds_results hresult)
  refine ⟨h.held.kept (fun _ _ hy => (kept_returns h.held hresult hy).1) rfl (Nat.le_refl _),
    ?_, ?_, ?_⟩
  · refine fine_of_kept h.fine fun p y hy => ?_
    obtain ⟨hy, hne⟩ := kept_returns h.held hresult hy
    refine ⟨hy, ⟨fun e he heq => ?_, fun d hd => ?_⟩⟩
    · obtain rfl := List.mem_singleton.mp he
      exact hne (Option.some.inj heq).symm
    · have hdc : d ≠ c := by
        rintro rfl
        exact hne (Option.some.inj (hd.symm.trans hawaited))
      simp only [goTo, Function.update_of_ne hdc]
      exact hd
  · refine h.awaits.keep (fun d e he => ?_) fun d other hd => ?_
    · obtain rfl := List.mem_singleton.mp he
      rfl
    · by_cases hdc : d = c
      · subst hdc
        simp only [goTo, Function.update_self] at hd
        cases hd
      · simp only [goTo, Function.update_of_ne hdc] at hd
        exact hd
  · refine h.records.append _ (fun _ h => by cases h) (fun _ h => by cases h)
      fun d other status heq => ?_
    obtain ⟨rfl, rfl, rfl⟩ := SendingEvent.returned.inj heq
    obtain ⟨message, hlast, hid, hsync⟩ := h.awaits c id hawaited
    exact ⟨message, hlast, hid, hsync, hreported.1⟩

/-- A message is taken off a queue. -/
theorem pops [DecidableEq QueueId] [DecidableEq Task] (h : Answers hist s)
    {message : SendQueueMessage} {rest : List SendQueueMessage}
    (hqueue : (s.queues q).queue = message :: rest) :
    Answers (hist ++ [])
      ((s.setQueue q { s.queues q with queue := rest }).setTask t q (.sending message)) := by
  have hx : s.holds (.queue q) (.message message) := by
    rw [holds, hqueue]
    exact List.mem_cons_self
  have hnodup := h.held.nodup q
  rw [hqueue, List.map_cons, List.nodup_cons] at hnodup
  exact h.passes (moved_pops h.held hqueue) (nodup_setQueue h.held.nodup hnodup.2) (Nat.le_refl _)
    (h.held.taken _ _ hx) (fun _ => rfl) (h.fine _ _ hx)

/-- A message that timed out goes back to the queue. -/
theorem requeues [DecidableEq QueueId] [DecidableEq Task] (h : Answers hist s)
    {message : SendQueueMessage}
    (htask : s.task t = some (q, .requeueing message)) :
    Answers (hist ++ []) ((s.setQueue q ((s.queues q).push message)).setTask t q .idle) := by
  have hx : s.holds (.task t) (.message message) := holds_task htask rfl
  exact h.passes (moved_requeues h.held htask) (h.held.nodup_push hx (by simp)) (Nat.le_refl _)
    (h.held.taken _ _ hx) (fun _ => rfl) (h.fine _ _ hx)

/-- `send` is called for a message: it times out, or the task is done with an asynchronous one, or
it has the result of a synchronous one. -/
theorem sends [DecidableEq Task] (h : Answers hist s) {message : SendQueueMessage}
    (result : SendResult)
    (htask : s.task t = some (q, .sending message)) :
    Answers (hist ++ [.attempted t message result])
      (s.setTask t q (SenderPc.afterSend message result)) := by
  have hx : s.holds (.task t) (.message message) := holds_task htask rfl
  obtain ⟨hstored, hsent⟩ : message.messageId ∉ storedIds hist ∧ Sent hist s message :=
    h.fine _ _ hx
  have hstored' : message.messageId ∉ storedIds (hist ++ [.attempted t message result]) := by
    rw [storedIds_append]
    exact fun hmem => hstored ((List.append_nil (storedIds hist)) ▸ hmem)
  have huntouched : ∀ id, id ≠ message.messageId →
      Untouched [.attempted t message result] s
        (s.setTask t q (SenderPc.afterSend message result)) id := by
    refine fun id hid => ⟨fun e he heq => ?_, fun c hc => hc⟩
    obtain rfl := List.mem_singleton.mp he
    exact hid (Option.some.inj heq).symm
  have hawaits : Awaits (hist ++ [.attempted t message result])
      (s.setTask t q (SenderPc.afterSend message result)) := by
    refine h.awaits.keep (fun c e he => ?_) fun c id hc => hc
    obtain rfl := List.mem_singleton.mp he
    rfl
  have hrecords : Records (hist ++ [.attempted t message result]) s.messageId.toNat :=
    h.records.append_other _ rfl rfl (by simp)
  cases hitem : (SenderPc.afterSend message result).item with
  | none =>
      refine ⟨h.held.kept (fun _ _ hy => (kept_sends h.held htask hitem hy).1) rfl (Nat.le_refl _),
        ?_, hawaits, hrecords⟩
      refine fine_of_kept h.fine fun p y hy => ?_
      obtain ⟨hy, hne⟩ := kept_sends h.held htask hitem hy
      exact ⟨hy, huntouched _ hne⟩
  | some y =>
      have hmoved := moved_sends h.held htask hitem
      have hid : y.messageId = message.messageId := messageId_afterSend hitem
      refine ⟨h.held.moved hmoved h.held.nodup (Nat.le_refl _) (hid ▸ h.held.taken _ _ hx),
        ?_, hawaits, hrecords⟩
      refine fine_of_moved h.fine hmoved ?_ fun id hne => huntouched id (hid ▸ hne)
      obtain ⟨c, hmem, hawaited⟩ := hsent
      rw [SenderPc.afterSend] at hitem
      split at hitem
      · obtain rfl := Option.some.inj hitem
        exact ⟨hstored', c, List.mem_append_left _ hmem, hawaited⟩
      · split at hitem
        · cases hitem
        · next hsync =>
            obtain rfl := Option.some.inj hitem
            exact ⟨hstored', lastStatus_concat hist t message result, c,
              hawaited (Bool.eq_false_iff.mpr hsync)⟩

/-- A result is stored. -/
theorem reports [DecidableEq Task] (h : Answers hist s) {status : Int32}
    (htask : s.task t = some (q, .reporting id status)) :
    Answers (hist ++ [.stored id status]) ((s.store id status).setTask t q .idle) := by
  have hx : s.holds (.task t) (.result id status) := holds_task htask rfl
  obtain ⟨hstored, hstatus, c, hawaited⟩ : id ∉ storedIds hist ∧ Reported hist s id status :=
    h.fine _ _ hx
  have hawaited' : ∀ c, ((((s.store id status).setTask t q .idle).caller c)).awaited =
      (s.caller c).awaited := fun c => SendPc.awaited_wake _
  have hmoved := moved_reports h.held htask
  refine ⟨h.held.moved hmoved h.held.nodup (Nat.le_refl _) (h.held.taken _ _ hx), ?_, ?_, ?_⟩
  · refine fine_of_moved h.fine hmoved ⟨?_, c, (hawaited' c).trans hawaited⟩ fun other hother =>
      ⟨fun e he heq => ?_, fun d hd => (hawaited' d).trans hd⟩
    · rw [lastStatus, List.filterMap_append]
      exact (congrArg List.getLast? (List.append_nil _)).trans hstatus
    · obtain rfl := List.mem_singleton.mp he
      exact hother (Option.some.inj heq).symm
  · refine h.awaits.keep (fun d e he => ?_) fun d other hd => (hawaited' d).symm.trans hd
    obtain rfl := List.mem_singleton.mp he
    rfl
  · refine h.records.append _ (fun _ h => by cases h) (fun other hother => ?_)
      fun _ _ _ h => by cases h
    obtain rfl := Option.some.inj hother
    exact ⟨hstored, h.held.taken _ _ hx⟩

/-- **What a step keeps**, as long as the message id does not wrap around. -/
theorem stepped [DecidableEq QueueId] [DecidableEq Task] (h : Answers hist s)
    (hid : s.messageId.toNat ≤ s'.messageId.toNat) (hst : Stepped s es s') :
    Answers (hist ++ es) s' := by
  cases hst with
  | fails c hpc =>
      exact h.quiet (fun p x hx => hx) rfl hid (fun _ => rfl) (.inr ⟨c, rfl⟩)
  | prepares c destination bytes async hpc => exact h.prepares hpc hid
  | unserialized c hpc =>
      have hawaited : (SendPc.idle : SendPc Dest).awaited = (s.caller c).awaited := by
        rw [hpc]
      exact h.quiet (fun p x hx => (holds_goTo_none rfl hx).2) rfl hid (awaited_goTo hawaited)
        (.inr ⟨c, rfl⟩)
  | pushes c destination message q hpc => exact h.pushes hpc q
  | unconnected c destination message hpc =>
      have hawaited : (SendPc.idle : SendPc Dest).awaited = (s.caller c).awaited := by
        rw [hpc]
        rfl
      exact h.quiet (fun p x hx => (holds_goTo_none rfl hx).2) rfl hid (awaited_goTo hawaited)
        (.inr ⟨c, rfl⟩)
  | returns c id result hpc hresult => exact h.returns hpc hresult
  | sleeps c id hpc =>
      have hawaited : (SendPc.asleep id : SendPc Dest).awaited = (s.caller c).awaited := by
        rw [hpc]
        rfl
      exact h.quiet (fun p x hx => (holds_goTo_none rfl hx).2) rfl hid (awaited_goTo hawaited)
        (.inl rfl)
  | wakes c id hpc =>
      have hawaited : (SendPc.waiting id : SendPc Dest).awaited = (s.caller c).awaited := by
        rw [hpc]
        rfl
      exact h.quiet (fun p x hx => (holds_goTo_none rfl hx).2) rfl hid (awaited_goTo hawaited)
        (.inl rfl)
  | starts t q htask =>
      exact h.quiet (fun p x hx => (holds_setTask_none rfl hx).2) rfl hid (fun _ => rfl) (.inl rfl)
  | pops t q message rest htask hqueue => exact h.pops hqueue
  | findsNothing t q htask =>
      exact h.quiet (fun p x hx => (holds_setTask_none rfl hx).2) rfl hid (fun _ => rfl) (.inl rfl)
  | sends t q message result htask => exact h.sends result htask
  | requeues t q message htask => exact h.requeues htask
  | reports t q id status htask => exact h.reports htask

end Answers

/-! ### Runs -/

variable [DecidableEq QueueId] [DecidableEq Task]

variable {acts : List (Action Dest QueueId Caller Task)}

omit [DecidableEq Caller] [DecidableEq QueueId] [DecidableEq Task] in
/-- At the start nothing is held. -/
theorem not_holds_start :
    ¬({} : MessageSender Dest QueueId Caller Task).holds p x := by
  intro h
  cases p with
  | caller c => cases h
  | queue q => cases h
  | task t =>
      obtain ⟨q, pc, htask, -⟩ := h
      cases htask
  | results =>
      obtain ⟨id, status, -, hresult⟩ := h
      cases hresult

omit [DecidableEq QueueId] [DecidableEq Task] in
theorem answers_start : Answers [] ({} : MessageSender Dest QueueId Caller Task) where
  held := ⟨fun _ _ _ _ hx => absurd hx not_holds_start, fun _ => List.nodup_nil,
    fun _ _ hx => absurd hx not_holds_start⟩
  fine _ _ hx := absurd hx not_holds_start
  awaits _ _ h := by cases h
  records := .start

/-- **In every run of fewer than `2 ^ 64` calls.** -/
theorem answers_of_run (hcalls : idsTaken acts < 2 ^ 64) (hrun : runFrom step {} acts = some s) :
    Answers (history acts) s := by
  have hcount : ∀ pre m, pre <+: acts → runFrom step {} pre = some m →
      m.messageId.toNat = idsTaken pre := by
    intro pre m hpre hm
    have hle : idsTaken pre ≤ idsTaken acts := hpre.sublist.countP_le
    rw [messageId_of_run hm, UInt64.toNat_ofNat_of_lt' (hle.trans_lt hcalls)]
  refine history_inv_of
    (P := fun m a => ∀ m', step m a = some m' → m.messageId.toNat ≤ m'.messageId.toNat)
    (fun acts s => Answers (history acts) s) answers_start (fun pre m a m' hm ih hid hstep => ?_)
    (fun pre a m hpre hm m' hstep => ?_) hrun
  · rw [history, collect_concat hm]
    exact ih.stepped (hid m' hstep) (stepped_of_step hstep)
  · have hm' : runFrom step {} (pre ++ [a]) = some m' := by
      rw [runFrom_append, hm, Option.bind_some, runFrom_singleton, hstep]
    rw [hcount pre m ((List.prefix_append pre [a]).trans hpre) hm, hcount _ m' hpre hm', idsTaken,
      idsTaken, List.countP_append]
    exact Nat.le_add_right _ _

end MessageSender

end Csci6780
