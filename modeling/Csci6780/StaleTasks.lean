import Csci6780.SendPlaces
import Csci6780.OwnSendResults
import Csci6780.MessagePassingClient
import Csci6780.FtpMessages
import Mathlib.Data.Fintype.Basic

/-!
# Tasks of a Failed Attempt

`EnsureConnected` starts a sender task and a receiver task after every attempt to connect, also
after one that failed: then they have the descriptor -1. The tasks of all attempts share the send
queue and the receive queue of the client, and those of a failed attempt stay in the pool when a
later attempt succeeds. A message may then be taken by the task that sends it on -1, and `Receive`
may read the failure that the other one has pushed.

When an attempt that succeeds is the first one, every task that ever takes a message or pushes an
entry has the descriptor of the connection. As long as no attempt succeeds nothing is sent or read.

## Main results

* `Client.only_live_tasks`: everything is sent on `client_fd_`, and no failure is read that comes
  from another descriptor.
* `Client.stale_task_takes`: what a task with another descriptor can do.
* `Client.stale_tasks_interfere`: a message that is sent on -1, and a failure read from -1, on a
  client with a live connection.
-/

namespace Csci6780

namespace MessageSender

/-- The part that sends has never been used: nobody has a message or waits. -/
structure Unused {Task : Type} (s : MessageSender Unit Unit Unit Task) : Prop where
  caller : s.caller () = .idle
  nothing : ∀ p x, ¬s.holds p x

variable {Task : Type} [DecidableEq Task] {s s' : MessageSender Unit Unit Unit Task}

theorem Unused.stepped (h : s.Unused) {es : List (SendingEvent Unit Task)}
    (hid : s'.messageId = s.messageId) (hst : Stepped s es s') : s'.Unused := by
  cases hst with
  | fails c hpc => exact h
  | prepares c destination bytes async hpc => exact absurd hid (by simp [goTo])
  | unserialized c hpc => exact absurd hid (by simp [goTo])
  | pushes c destination message q hpc => exact absurd (holds_caller hpc) (h.nothing _ _)
  | unconnected c destination message hpc => exact absurd (holds_caller hpc) (h.nothing _ _)
  | returns c id result hpc hresult => exact absurd (holds_results hresult) (h.nothing _ _)
  | sleeps c id hpc => exact absurd (h.caller.symm.trans hpc) (by simp)
  | wakes c id hpc => exact absurd (h.caller.symm.trans hpc) (by simp)
  | starts t q htask =>
      exact ⟨h.caller, fun p x hx => h.nothing p x (holds_setTask_none rfl hx).2⟩
  | pops t q message rest htask hqueue =>
      have hx : s.holds (.queue q) (.message message) := by
        rw [holds, hqueue]
        exact List.mem_cons_self
      exact absurd hx (h.nothing _ _)
  | findsNothing t q htask =>
      exact ⟨h.caller, fun p x hx => h.nothing p x (holds_setTask_none rfl hx).2⟩
  | sends t q message result htask => exact absurd (holds_task htask rfl) (h.nothing _ _)
  | requeues t q message htask => exact absurd (holds_task htask rfl) (h.nothing _ _)
  | reports t q id status htask => exact absurd (holds_task htask rfl) (h.nothing _ _)

/-- Nobody takes an id. -/
theorem Unused.run (h : s.Unused) {as : List (Action Unit Unit Unit Task)}
    (hids : ∀ a ∈ as, a.takesId = false) (hrun : runFrom step s as = some s') : s'.Unused := by
  induction as generalizing s with
  | nil => exact Option.some.inj hrun ▸ h
  | cons a as ih =>
      obtain ⟨m, hstep, hrun⟩ := runFrom_cons_eq_some hrun
      have hid : m.messageId = s.messageId := by
        rw [messageId_of_step hstep, hids a List.mem_cons_self]
        exact UInt64.add_zero _
      exact ih (h.stepped hid (stepped_of_step hstep))
        (fun b hb => hids b (List.mem_cons_of_mem _ hb)) hrun

end MessageSender

namespace MessagePassing

/-- The descriptor of a task whose `send` or whose entry it is. -/
def ClientEvent.fd {Msg Caller : Type} : ClientEvent Msg Caller → Option ℤ
  | .sent fd _ _ => some fd
  | .receiveFailed _ fd => some fd
  | .received _ _ => none

namespace Client

variable {Msg Task : Type} [DecidableEq Task]

/-- The step sends nothing but on the connected descriptor, and reads no failure of another one. -/
def Live (pb : Protobuf Msg) (s : Client Msg Unit Task) (a : Action Msg Unit Task) : Prop :=
  ∀ e ∈ s.events pb a, ∀ fd ∈ e.fd, 0 ≤ s.clientFd ∧ fd = s.clientFd

/-- An attempt that succeeds is the first one: no task has been started before. -/
def SucceedsFirst (s : Client Msg Unit Task) : Action Msg Unit Task → Prop
  | .connect _ (some _) => ∀ t, s.sendFd t = none
  | _ => True

instance (pb : Protobuf Msg) (s : Client Msg Unit Task) (a : Action Msg Unit Task) :
    Decidable (s.Live pb a) :=
  inferInstanceAs (Decidable (∀ e ∈ s.events pb a, ∀ fd ∈ e.fd, 0 ≤ s.clientFd ∧ fd = s.clientFd))

instance [Fintype Task] (s : Client Msg Unit Task) (a : Action Msg Unit Task) :
    Decidable (s.SucceedsFirst a) := by
  unfold SucceedsFirst
  split <;> infer_instance

/-- No attempt has succeeded. -/
structure Unconnected (s : Client Msg Unit Task) : Prop where
  fd : s.clientFd < 0
  unused : s.sender.Unused
  stash : s.unProcessedMessages = []
  pc : ∀ timed left reading fd, s.pc () ≠ .receiving timed left reading fd
  fresh : (∀ t, s.sendFd t = none) → (∀ t, s.receiveFd t = none) ∧ s.receiveQueue.queue = [] ∧
    ∀ call, s.pc () ≠ .startingReceiver call

/-- There is a connection, and everything belongs to it. -/
structure Connected (s : Client Msg Unit Task) : Prop where
  fd : 0 ≤ s.clientFd
  pc : ∀ call, s.pc () ≠ .connecting call
  senders : ∀ t, ∀ fd ∈ s.sendFd t, fd = s.clientFd
  receivers : ∀ t, ∀ fd ∈ s.receiveFd t, fd = s.clientFd
  queue : ∀ e ∈ s.receiveQueue.queue, e.fd = s.clientFd
  stash : ∀ e ∈ s.unProcessedMessages, e.fd = s.clientFd
  reading : ∀ timed left reading fd, s.pc () = .receiving timed left reading fd →
    (∀ e ∈ left, e.fd = s.clientFd) ∧ fd = s.clientFd

variable {pb : Protobuf Msg} {s s' : Client Msg Unit Task} {a : Action Msg Unit Task} {c : Unit}

omit [DecidableEq Task] in
@[simp] theorem pc_goTo (s : Client Msg Unit Task) (c : Unit) (pc : ClientPc Msg) :
    (s.goTo c pc).pc () = pc := by
  cases c
  simp only [goTo, Function.update_self]

namespace Unconnected

/-- The part that sends takes no id. -/
theorem unused_step (h : s.Unconnected) (hstep : s.step pb a = some s') : s'.sender.Unused := by
  refine h.unused.run (fun b hb => ?_) (step_sender hstep)
  cases a with
  | proceed c =>
      rw [senderActions] at hb
      split at hb
      · rw [if_pos h.fd] at hb
        exact List.mem_singleton.mp hb ▸ rfl
      · cases hb
  | startSender c t => exact List.mem_singleton.mp hb ▸ rfl
  | push c => exact List.mem_singleton.mp hb ▸ rfl
  | look c => exact List.mem_singleton.mp hb ▸ rfl
  | spuriousWakeup c => exact List.mem_singleton.mp hb ▸ rfl
  | sender t action => exact List.mem_singleton.mp hb ▸ rfl
  | _ => cases hb

omit [DecidableEq Task] in
/-- The part that sends takes a step. -/
theorem sends (h : s.Unconnected) {sender : MessageSender Unit Unit Unit Task}
    (hunused : sender.Unused) : ({ s with sender := sender } : Client Msg Unit Task).Unconnected :=
  ⟨h.fd, hunused, h.stash, h.pc, h.fresh⟩

omit [DecidableEq Task] in
/-- The caller goes on. -/
theorem goTo (h : s.Unconnected) {pc : ClientPc Msg}
    (hreading : ∀ timed left reading fd, pc ≠ .receiving timed left reading fd)
    (hstarting : ∀ call, pc ≠ .startingReceiver call) : (s.goTo c pc).Unconnected := by
  refine ⟨h.fd, h.unused, h.stash, ?_, fun hnone => ?_⟩
  · rw [pc_goTo]
    exact hreading
  · rw [pc_goTo]
    exact ⟨(h.fresh hnone).1, (h.fresh hnone).2.1, hstarting⟩

omit [DecidableEq Task] in
/-- An attempt that fails, or the first one that succeeds. -/
theorem connects (h : s.Unconnected) (socket : Option ℕ) (call : ClientCall Msg)
    (hfirst : s.SucceedsFirst (.connect c socket)) :
    ({ s with clientFd := setUpSocket socket }.goTo c (.startingSender call)).Unconnected ∨
      ({ s with clientFd := setUpSocket socket }.goTo c (.startingSender call)).Connected := by
  cases socket with
  | none =>
      have hless : setUpSocket none < 0 := by decide
      have hfailed : ({ s with clientFd := setUpSocket none } : Client Msg Unit Task).Unconnected :=
        ⟨hless, h.unused, h.stash, h.pc, h.fresh⟩
      exact .inl (hfailed.goTo (by simp) (by simp))
  | some fd =>
      have hnone : ∀ t, s.sendFd t = none := hfirst
      obtain ⟨hreceivers, hqueue, -⟩ := h.fresh hnone
      refine .inr ⟨Int.natCast_nonneg fd, fun call => ?_, fun t d hd => ?_, fun t d hd => ?_,
        fun e he => ?_, fun e he => ?_, fun timed left reading d hd => ?_⟩
      · rw [pc_goTo]
        simp
      · exact absurd ((hnone t).symm.trans hd) (by simp)
      · exact absurd ((hreceivers t).symm.trans hd) (by simp)
      · rw [Client.goTo, hqueue] at he
        cases he
      · rw [Client.goTo, h.stash] at he
        cases he
      · rw [pc_goTo] at hd
        cases hd

/-- **A step without a connection**, which may make one. -/
theorem step (h : s.Unconnected) (hfirst : s.SucceedsFirst a) (hstep : s.step pb a = some s') :
    s'.Unconnected ∨ s'.Connected := by
  have hunused := h.unused_step hstep
  cases stepped_of_step hstep with
  | calls c call hpc hcaller =>
      rw [if_pos h.fd]
      exact .inl (h.goTo (by simp) (by simp))
  | connects c socket call hpc => exact h.connects socket call hfirst
  | startsSender c t call sender hpc hsender =>
      refine .inl ⟨h.fd, hunused, h.stash, ?_, fun hnone => ?_⟩
      · rw [pc_goTo]
        simp
      · have ht := hnone t
        simp only [Client.goTo, Function.update_self] at ht
        cases ht
  | startsReceiver c t call hpc hnew =>
      refine .inl ⟨h.fd, h.unused, h.stash, ?_, fun hnone => ?_⟩
      · rw [pc_goTo]
        simp
      · exact absurd hpc ((h.fresh hnone).2.2 call)
  | proceeds c sender hsender => exact .inl ((h.sends hunused).goTo (by simp) (by simp))
  | receives c timed hpc hfd => exact absurd h.fd hfd
  | sends a sender hsender => exact .inl (h.sends hunused)
  | reads c timed left reading fd n hpc hincomplete hn => exact absurd hpc (h.pc _ _ _ _)
  | timesOut c reading fd hpc hempty => exact absurd hpc (h.pc _ _ _ _)
  | finishes c timed left reading fd hpc hcomplete => exact absurd hpc (h.pc _ _ _ _)
  | receiverRuns t fd result hfd =>
      have hstarted : ¬∀ t, s.sendFd t = none := fun hnone =>
        absurd (((h.fresh hnone).1 t).symm.trans hfd) (by simp)
      rw [receive]
      split
      · exact .inl h
      · exact .inl ⟨h.fd, h.unused, h.stash, h.pc, fun hnone => absurd hnone hstarted⟩

end Unconnected

namespace Connected

/-- One more task is started, or one ends. -/
theorem eq_of_mem_update {f : Task → Option ℤ} {o : Option ℤ} {fd : ℤ} {t : Task}
    (hf : ∀ u, ∀ d ∈ f u, d = fd) (ho : ∀ d ∈ o, d = fd) (u : Task) :
    ∀ d ∈ Function.update f t o u, d = fd := by
  by_cases hu : u = t
  · subst hu
    rw [Function.update_self]
    exact ho
  · rw [Function.update_of_ne hu]
    exact hf u

omit [DecidableEq Task] in
/-- The part that sends takes a step. -/
theorem sends (h : s.Connected) (sender : MessageSender Unit Unit Unit Task) :
    ({ s with sender := sender } : Client Msg Unit Task).Connected :=
  ⟨h.fd, h.pc, h.senders, h.receivers, h.queue, h.stash, h.reading⟩

omit [DecidableEq Task] in
/-- The caller goes on. -/
theorem goTo (h : s.Connected) {pc : ClientPc Msg} (hpc : ∀ call, pc ≠ .connecting call)
    (hreading : ∀ timed left reading fd, pc = .receiving timed left reading fd →
      (∀ e ∈ left, e.fd = s.clientFd) ∧ fd = s.clientFd) : (s.goTo c pc).Connected := by
  refine ⟨h.fd, ?_, h.senders, h.receivers, h.queue, h.stash, ?_⟩
  · rw [pc_goTo]
    exact hpc
  · rw [pc_goTo]
    exact hreading

omit [DecidableEq Task] in
/-- More entries are put aside. -/
theorem keep (h : s.Connected) {fd : ℤ} (hfd : fd = s.clientFd)
    (messages : List ReceiveQueueMessage) :
    ({ s with
      unProcessedMessages := s.unProcessedMessages ++ messages.map (Received.mk fd) } :
        Client Msg Unit Task).Connected := by
  refine ⟨h.fd, h.pc, h.senders, h.receivers, h.queue, fun e he => ?_, h.reading⟩
  rcases List.mem_append.mp he with he | he
  · exact h.stash e he
  · obtain ⟨message, -, rfl⟩ := List.mem_map.mp he
    exact hfd

omit [DecidableEq Task] in
/-- A round of the loop. -/
theorem process (h : s.Connected) {timed : Bool} {left : List Received} {reading : Receiving}
    {response : Received} (hleft : ∀ e ∈ left, e.fd = s.clientFd)
    (hresponse : response.fd = s.clientFd) :
    (s.process c timed left reading response).Connected := by
  rw [process.eq_def]
  split
  · exact h.goTo (by simp) (by simp)
  · refine (h.keep hresponse _).goTo (by simp) ?_
    rintro _ _ _ _ ⟨⟩
    exact ⟨hleft, hresponse⟩

omit [DecidableEq Task] in
/-- What the loop reads next belongs to the connection. -/
theorem next (h : s.Connected) {left : List Received} (hleft : ∀ e ∈ left, e.fd = s.clientFd)
    {n : Received × List Received × Client Msg Unit Task} (hn : s.next left = some n) :
    n.1.fd = s.clientFd ∧ (∀ e ∈ n.2.1, e.fd = s.clientFd) ∧ n.2.2.Connected ∧
      n.2.2.clientFd = s.clientFd := by
  cases left with
  | cons response left =>
      obtain rfl := Option.some.inj hn
      exact ⟨hleft _ List.mem_cons_self, fun e he => hleft e (List.mem_cons_of_mem _ he), h, rfl⟩
  | nil =>
      rw [Client.next] at hn
      split at hn
      · next response rest hqueue =>
          obtain rfl := Option.some.inj hn
          have hmem : ∀ e ∈ response :: rest, e.fd = s.clientFd := hqueue ▸ h.queue
          refine ⟨hmem _ List.mem_cons_self, by simp, ?_, rfl⟩
          exact ⟨h.fd, h.pc, h.senders, h.receivers, fun e he => hmem e (List.mem_cons_of_mem _ he),
            h.stash, h.reading⟩
      · cases hn

/-- A receiver task calls `recv`. -/
theorem receives (h : s.Connected) {t : Task} {fd : ℤ} (result : RecvResult)
    (hfd : s.receiveFd t = some fd) : (s.receive t fd result).Connected := by
  have hreceived : fd = s.clientFd := h.receivers t fd hfd
  rw [receive]
  split
  · exact h
  · next message hentry =>
      have hstays : ∀ d ∈ (if 0 < message.status then some fd else none), d = s.clientFd := by
        intro d hd
        split at hd
        · exact Option.some.inj hd ▸ hreceived
        · cases hd
      refine ⟨h.fd, h.pc, h.senders, eq_of_mem_update h.receivers hstays, fun e he => ?_,
        h.stash, h.reading⟩
      rcases List.mem_append.mp he with he | he
      · exact h.queue e he
      · obtain rfl := List.mem_singleton.mp he
        exact hreceived

/-- **A step with a connection**, which keeps it. -/
theorem step (h : s.Connected) (hstep : s.step pb a = some s') : s'.Connected := by
  have hfd : ¬s.clientFd < 0 := Int.not_lt.mpr h.fd
  have hown : ∀ fd ∈ some s.clientFd, fd = s.clientFd := fun fd hfd => (Option.some.inj hfd).symm
  cases stepped_of_step hstep with
  | calls c call hpc hcaller =>
      rw [if_neg hfd]
      exact h.goTo (by simp) (by simp)
  | connects c socket call hpc => exact absurd hpc (h.pc call)
  | startsSender c t call sender hpc hsender =>
      have hstarted : ({ s with
          sendFd := Function.update s.sendFd t (some s.clientFd)
          sender := sender } : Client Msg Unit Task).Connected :=
        ⟨h.fd, h.pc, eq_of_mem_update h.senders hown, h.receivers, h.queue, h.stash, h.reading⟩
      exact hstarted.goTo (by simp) (by simp)
  | startsReceiver c t call hpc hnew =>
      have hstarted : ({ s with receiveFd := Function.update s.receiveFd t (some s.clientFd) } :
          Client Msg Unit Task).Connected :=
        ⟨h.fd, h.pc, h.senders, eq_of_mem_update h.receivers hown, h.queue, h.stash, h.reading⟩
      exact hstarted.goTo (by simp) (by simp)
  | proceeds c sender hsender => exact (h.sends sender).goTo (by simp) (by simp)
  | receives c timed hpc hconnected =>
      have hemptied : ({ s with unProcessedMessages := [] } : Client Msg Unit Task).Connected :=
        ⟨h.fd, h.pc, h.senders, h.receivers, h.queue, by simp, h.reading⟩
      refine hemptied.goTo (by simp) ?_
      rintro _ _ _ _ ⟨⟩
      exact ⟨h.stash, rfl⟩
  | sends a sender hsender => exact h.sends sender
  | reads c timed left reading fd n hpc hincomplete hn =>
      obtain ⟨hresponse, hleft, hconnected, hsame⟩ := h.next (h.reading _ _ _ _ hpc).1 hn
      exact hconnected.process (hsame ▸ hleft) (hsame ▸ hresponse)
  | timesOut c reading fd hpc hempty => exact h.goTo (by simp) (by simp)
  | finishes c timed left reading fd hpc hcomplete =>
      exact (h.keep (h.reading _ _ _ _ hpc).2 _).goTo (by simp) (by simp)
  | receiverRuns t fd result hreceiver => exact h.receives result hreceiver

end Connected

/-! ### Runs -/

/-- What holds in every state: no attempt has succeeded, or everything belongs to the connection. -/
def Belongs (s : Client Msg Unit Task) : Prop := s.Unconnected ∨ s.Connected

theorem Belongs.step (h : s.Belongs) (hfirst : s.SucceedsFirst a)
    (hstep : s.step pb a = some s') : s'.Belongs := by
  rcases h with h | h
  · exact h.step hfirst hstep
  · exact .inr (h.step hstep)

omit [DecidableEq Task] in
/-- A constructed client has no connection. -/
theorem belongs_start (endpoint : Endpoint) :
    ({ endpoint := endpoint } : Client Msg Unit Task).Belongs := by
  have hunused : ({} : MessageSender Unit Unit Unit Task).Unused :=
    ⟨rfl, fun p x => MessageSender.not_holds_start⟩
  refine .inl ⟨Int.negSucc_lt_zero 0, hunused, rfl, by simp, fun _ => ?_⟩
  exact ⟨fun _ => rfl, rfl, by simp⟩

omit [DecidableEq Task] in
/-- What is sent is sent by a task of the connection. -/
theorem Belongs.live_sendEvents (h : s.Belongs) {t : Task} {result : SendResult} :
    ∀ e ∈ (s.sendEvents t result : List (ClientEvent Msg Unit)), ∀ fd ∈ e.fd,
      0 ≤ s.clientFd ∧ fd = s.clientFd := by
  intro e he fd hfd
  rw [sendEvents] at he
  split at he
  · next q message d htask hsender =>
      obtain rfl := List.mem_singleton.mp he
      obtain rfl := Option.some.inj hfd
      rcases h with h | h
      · exact absurd (MessageSender.holds_task htask rfl) (h.unused.nothing _ _)
      · exact ⟨h.fd, h.senders t _ hsender⟩
  · cases he

omit [DecidableEq Task] in
/-- **A step of such a client.** -/
theorem Belongs.live (h : s.Belongs) (a : Action Msg Unit Task) : s.Live pb a := by
  intro e he fd hfd
  cases a with
  | sender t action =>
      cases action with
      | send result => exact h.live_sendEvents e he fd hfd
      | _ => cases he
  | proceed c =>
      rw [events] at he
      split at he
      · split at he
        · obtain rfl := List.mem_singleton.mp he
          cases hfd
        · cases he
      · cases he
  | read c =>
      rw [events] at he
      split at he
      · next timed left reading d hpc =>
          split at he
          · next n hn =>
              rw [readEvents] at he
              split at he
              · obtain rfl := List.mem_singleton.mp he
                obtain rfl := Option.some.inj hfd
                rcases h with h | h
                · exact absurd hpc (h.pc _ _ _ _)
                · exact ⟨h.fd, (h.next (h.reading _ _ _ _ hpc).1 hn).1⟩
              · cases he
          · cases he
      · cases he
  | timeOut c =>
      obtain rfl := List.mem_singleton.mp he
      cases hfd
  | finish c =>
      rw [events] at he
      split at he
      · obtain rfl := List.mem_singleton.mp he
        cases hfd
      · cases he
  | _ => cases he

/-- **Only the tasks of the connection.** In every run of a client, with any calls one after the
other and any order of the tasks, in which an attempt that succeeds is the first one, every step
sends on `client_fd_` only, and reads no failure but one that comes from `client_fd_`. -/
theorem only_live_tasks (pb : Protobuf Msg) (endpoint : Endpoint)
    (acts : List (Action Msg Unit Task))
    (hfirst : EachStep (step pb) SucceedsFirst { endpoint := endpoint } acts) :
    EachStep (step pb) (Live pb) { endpoint := endpoint } acts := by
  have hbelongs : EachState (step pb) Belongs { endpoint := endpoint } acts :=
    .of_inv Belongs (fun m a m' h hfirst hstep => h.step hfirst hstep) (belongs_start endpoint)
      hfirst
  intro pre a m hpre hm
  exact (hbelongs pre m ((List.prefix_append pre [a]).trans hpre) hm).live a

/-- An attempt succeeds; a message is sent, and `Receive` reads that the server has closed the
connection. -/
def firstAttempt : List (Action FileContents Unit Bool) :=
  [.call () (.send {} true), .connect () (some 3), .startSender () false, .startReceiver () false,
    .proceed (), .push (), .sender false .pop, .sender false (.send (.accepted 4)),
    .receiver false .closed, .call () (.receive false), .proceed (), .read ()]

theorem only_live_tasks_first :
    (runFrom (step fileContentsProto) {} firstAttempt).isSome = true ∧
      EachStep (step fileContentsProto) (Live fileContentsProto) {} firstAttempt :=
  ⟨by decide, only_live_tasks fileContentsProto {} firstAttempt (by decide)⟩

/-- **A task with another descriptor takes what it finds.** As long as it is idle it can take the
next message, and whatever its `send` returns, the message is not sent on `client_fd_`. -/
theorem stale_task_takes {t : Task} {fd : ℤ} {message : SendQueueMessage}
    {rest : List SendQueueMessage} (hfd : s.sendFd t = some fd) (hstale : fd ≠ s.clientFd)
    (htask : s.sender.task t = some ((), .idle))
    (hqueue : (s.sender.queues ()).queue = message :: rest) (result : SendResult) :
    ∃ m, s.step pb (.sender t .pop) = some m ∧
      m.events pb (.sender t (.send result)) = [.sent fd message result] ∧
      ¬m.Live pb (.sender t (.send result)) := by
  have hpop : s.sender.step (.task t .pop) = some ((s.sender.setQueue ()
      { s.sender.queues () with queue := rest }).setTask t () (.sending message)) := by
    simp only [MessageSender.step, htask, SenderPc.step, hqueue, Option.map_some]
    rfl
  have hevents : ({ s with sender := (s.sender.setQueue ()
      { s.sender.queues () with queue := rest }).setTask t () (.sending message) } :
        Client Msg Unit Task).events pb (.sender t (.send result)) =
          [.sent fd message result] := by
    simp only [events, sendEvents, MessageSender.setTask, Function.update_self, hfd]
  refine ⟨_, congrArg (Option.map _) hpop, hevents, fun hlive => ?_⟩
  exact hstale (hlive _ (hevents ▸ List.mem_singleton_self _) fd rfl).2

/-- An attempt fails; the next one succeeds, and the sender task of the first one takes the message;
then `Receive` reads the failure that the receiver task of the first one has pushed. -/
def secondAttempt : List (Action FileContents Unit Bool) :=
  [.call () (.send {} false), .connect () none, .startSender () false, .startReceiver () false,
    .proceed (), .receiver false .failed, .call () (.send {} false), .connect () (some 3),
    .startSender () true, .startReceiver () true, .proceed (), .push (), .sender false .pop,
    .sender false (.send .failed), .sender false .report, .look (), .call () (.receive false),
    .proceed (), .read ()]

/-- **The tasks of a failed attempt interfere.** The client has a connection on descriptor 3 when
its message is sent on -1, and when `Receive` fails because of an entry that was read from -1. -/
theorem stale_tasks_interfere :
    ((runFrom (step fileContentsProto) {} secondAttempt).map fun s => s.clientFd) = some 3 ∧
      collect (step fileContentsProto) (events fileContentsProto) {} secondAttempt =
        [.sent (-1) ⟨1, [0, 0, 0, 0], false⟩ .failed, .receiveFailed () (-1)] ∧
      ¬EachStep (step fileContentsProto) (Live fileContentsProto) {} secondAttempt := by
  decide

end Client

end MessagePassing

end Csci6780
