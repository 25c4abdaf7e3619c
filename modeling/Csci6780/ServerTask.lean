import Csci6780.Lib.Runs
import Csci6780.Node

/-!
# The Server Task and its Descriptors

This module embeds `message_passing::ServerTask` with what it shares: the descriptors of the
process, the send queues of `Server`, and the sender and the receiver task of each connection.

Connections are numbered in the order in which they are accepted. `accept` returns the lowest
descriptor that is not open; those below `base` are open for other purposes (the listening socket
is one). The kernel knows by `fds` which connection has a descriptor. A message in a send queue is
told by the endpoint that `Send` or `SendAsync` was called for.

The pool's status of a receiver task is `RUNNING` until `recv` fails; that of a sender task always
is. `CancelTask` keeps a task from another iteration, and not from what it has begun; here the
tasks may go on after it.

## Main definitions

* `Connections`: the state.
* `Connections.step`: one step of the server task, of a connection's tasks or of a caller of
  `Server`.
* `Connections.WellFormed`: what every step keeps of the tasks.
* `Connections.Use`: what a step does with a descriptor.
-/

namespace Csci6780

namespace MessagePassing

/-- The two tasks of a connection. -/
inductive SocketTaskKind
  | sender
  | receiver
  deriving DecidableEq, Repr

/-- A task in `tasks_`. -/
structure SocketTask where
  connection : ℕ
  kind : SocketTaskKind
  deriving DecidableEq, Repr

/-- Where a sender task stands: before `PopTimed`, before `send`, and before the `Push` of a
message that timed out. -/
inductive SendingPc
  | idle
  | sending (destination : Endpoint)
  | requeueing (destination : Endpoint)
  deriving DecidableEq, Repr

/-- A connection: where it is from, its descriptor, its send queue, and its two tasks. `closed`
records that `CloseDisconnected` has closed it. -/
structure Connection where
  endpoint : Endpoint
  fd : ℕ
  queue : List Endpoint := []
  sender : SendingPc := .idle
  receiving : Bool := true
  closed : Bool := false
  deriving DecidableEq, Repr

/-- The messages that are in the send queue, or taken off it and not done with. -/
def Connection.messages (conn : Connection) : List Endpoint :=
  match conn.sender with
  | .idle => conn.queue
  | .sending destination | .requeueing destination => destination :: conn.queue

/-- A message that is pushed comes after all others. -/
theorem Connection.messages_push (conn : Connection) (destination : Endpoint) :
    { conn with queue := conn.queue ++ [destination] }.messages =
      conn.messages ++ [destination] := by
  unfold Connection.messages
  cases conn.sender <;> rfl

/-- Where the server task stands: between two iterations; in the loop of `CloseDisconnected`, with
the tasks that it has not yet seen; before `accept`; before the callback for a new connection; in
the second loop of `CleanUp`; and after it. -/
inductive ServerTaskPc
  | idle
  | closing (left : List SocketTask)
  | accepting
  | announcing (connection : ℕ)
  | cleaning (left : List SocketTask)
  | ended
  deriving DecidableEq, Repr

/-- The server task and what it shares. `tasks` is `tasks_`, and `sendQueues` names the connection
whose queue `send_queues_` has for an endpoint. -/
structure Connections where
  count : ℕ := 0
  connection : ℕ → Connection := fun _ => ⟨{}, 0, [], .idle, true, false⟩
  fds : ℕ → Option ℕ := fun _ => none
  tasks : List SocketTask := []
  sendQueues : Endpoint → Option ℕ := fun _ => none
  pc : ServerTaskPc := .idle

namespace Connections

/-- Who goes on. The server task: it starts an iteration, looks at a task in `CloseDisconnected`,
ends that loop, waits for a client without success, accepts one, calls the callback, ends (because
it failed or was cancelled), closes a task's descriptor in `CleanUp`, and is done. A receiver task
calls `recv`; a sender task pops a message, calls `send`, and pushes one that timed out. A caller
of `Server` dispatches a message, when the pool says that the server task is running or is not. -/
inductive Action
  | runAtomic
  | look (task : SocketTask)
  | looked
  | timeout
  | accept (endpoint : Endpoint) (fd : ℕ)
  | newClient
  | fail
  | cleanUp (task : SocketTask)
  | done
  | recv (connection : ℕ) (ok : Bool)
  | pop (connection : ℕ)
  | send (connection : ℕ) (timedOut : Bool)
  | requeue (connection : ℕ)
  | dispatch (destination : Endpoint) (running : Bool)
  deriving DecidableEq, Repr

/-- Change one connection. -/
def modify (s : Connections) (c : ℕ) (f : Connection → Connection) : Connections :=
  { s with connection := Function.update s.connection c (f (s.connection c)) }

@[simp] theorem modify_fds (s : Connections) (c : ℕ) (f : Connection → Connection) :
    (s.modify c f).fds = s.fds := rfl

@[simp] theorem modify_count (s : Connections) (c : ℕ) (f : Connection → Connection) :
    (s.modify c f).count = s.count := rfl

theorem modify_connection_self (s : Connections) (c : ℕ) (f : Connection → Connection) :
    (s.modify c f).connection c = f (s.connection c) := by
  simp [modify]

theorem modify_connection_ne (s : Connections) {c k : ℕ} (hk : k ≠ c)
    (f : Connection → Connection) : (s.modify c f).connection k = s.connection k := by
  simp [modify, hk]

/-- What the change of a connection leaves as it is stays so for every connection. -/
theorem modify_same {β : Type} (g : Connection → β) {s : Connections} {c : ℕ}
    {f : Connection → Connection} (h : g (f (s.connection c)) = g (s.connection c)) (k : ℕ) :
    g ((s.modify c f).connection k) = g (s.connection k) := by
  by_cases hk : k = c
  · rw [hk, modify_connection_self, h]
  · rw [modify_connection_ne s hk]

/-- The descriptor of a connection. -/
def fd (s : Connections) (c : ℕ) : ℕ := (s.connection c).fd

/-- The descriptor of the connection is open, and the connection's. -/
def IsOpen (s : Connections) (c : ℕ) : Prop := s.fds (s.fd c) = some c

instance (s : Connections) (c : ℕ) : Decidable (s.IsOpen c) :=
  inferInstanceAs (Decidable (_ = _))

/-- Whether the pool says that a task is running. -/
def running (s : Connections) (t : SocketTask) : Bool :=
  match t.kind with
  | .sender => true
  | .receiver => (s.connection t.connection).receiving

/-- `close(kTask->GetFd())`. -/
def close (s : Connections) (t : SocketTask) : Connections :=
  { s with fds := Function.update s.fds (s.fd t.connection) none }

/-- `CloseDisconnected` closes the descriptor of a connection. -/
def disconnected (s : Connections) (t : SocketTask) : Connections :=
  (s.close t).modify t.connection fun c => { c with closed := true }

theorem disconnected_connection_self (s : Connections) (t : SocketTask) :
    (s.disconnected t).connection t.connection =
      { s.connection t.connection with closed := true } :=
  modify_connection_self (s.close t) t.connection _

theorem disconnected_connection_ne (s : Connections) {t : SocketTask} {k : ℕ}
    (hk : k ≠ t.connection) : (s.disconnected t).connection k = s.connection k :=
  modify_connection_ne (s.close t) hk _

theorem disconnected_endpoint (s : Connections) (t : SocketTask) (k : ℕ) :
    ((s.disconnected t).connection k).endpoint = (s.connection k).endpoint :=
  modify_same Connection.endpoint (s := s.close t) rfl k

theorem disconnected_fd (s : Connections) (t : SocketTask) (k : ℕ) :
    (s.disconnected t).fd k = s.fd k :=
  modify_same Connection.fd (s := s.close t) rfl k

/-- One round of the loop of `CloseDisconnected`. -/
def closeDisconnected (s : Connections) (t : SocketTask) (left : List SocketTask) : Connections :=
  if s.running t then { s with pc := .closing (left.erase t) }
  else
    { s.disconnected t with
      tasks := s.tasks.erase t
      pc := .closing (left.erase t) }

/-- `fd` is the lowest descriptor that is not open. -/
def Lowest (base : ℕ) (s : Connections) (fd : ℕ) : Prop :=
  base ≤ fd ∧ s.fds fd = none ∧ ∀ k < fd, base ≤ k → (s.fds k).isSome = true

instance (base : ℕ) (s : Connections) (fd : ℕ) : Decidable (Lowest base s fd) :=
  inferInstanceAs (Decidable (_ ∧ _ ∧ _))

/-- A new connection and its tasks. -/
def accepted (s : Connections) (endpoint : Endpoint) (fd : ℕ) : Connections :=
  { s with
    count := s.count + 1
    connection := Function.update s.connection s.count { endpoint, fd }
    fds := Function.update s.fds fd (some s.count)
    tasks := s.tasks ++ [⟨s.count, .sender⟩, ⟨s.count, .receiver⟩]
    pc := .announcing s.count }

theorem accepted_connection_self (s : Connections) (endpoint : Endpoint) (fd : ℕ) :
    (s.accepted endpoint fd).connection s.count = { endpoint, fd } :=
  Function.update_self ..

theorem accepted_connection_ne (s : Connections) (endpoint : Endpoint) (fd : ℕ) {k : ℕ}
    (hk : k ≠ s.count) : (s.accepted endpoint fd).connection k = s.connection k :=
  Function.update_of_ne hk _ _

/-- `Server::DispatchSend`: the result, and the state afterwards. `Send` returns -1 and
`SendAsync` returns false where it is false. -/
def dispatchSend (s : Connections) (destination : Endpoint) (running : Bool) :
    Bool × Connections :=
  if running then
    match s.sendQueues destination with
    | none => (false, s)
    | some c =>
        (true, s.modify c fun conn => { conn with queue := conn.queue ++ [destination] })
  else (false, s)

/-- `Server::GetConnected`. -/
def getConnected (s : Connections) (endpoint : Endpoint) : Bool := (s.sendQueues endpoint).isSome

/-- One step of the server task. -/
def stepServer (base : ℕ) (s : Connections) : Action → Option Connections
  | .runAtomic => if s.pc = .idle then some { s with pc := .closing s.tasks } else none
  | .look t =>
      match s.pc with
      | .closing left => if t ∈ left then some (s.closeDisconnected t left) else none
      | _ => none
  | .looked => if s.pc = .closing [] then some { s with pc := .accepting } else none
  | .timeout => if s.pc = .accepting then some { s with pc := .idle } else none
  | .accept endpoint fd =>
      if s.pc = .accepting ∧ Lowest base s fd then some (s.accepted endpoint fd) else none
  | .newClient =>
      match s.pc with
      | .announcing c =>
          some { s with
            sendQueues := Function.update s.sendQueues (s.connection c).endpoint (some c)
            pc := .idle }
      | _ => none
  | .fail =>
      if s.pc = .idle ∨ s.pc = .accepting then some { s with pc := .cleaning s.tasks } else none
  | .cleanUp t =>
      match s.pc with
      | .cleaning left =>
          if t ∈ left then some { s.close t with pc := .cleaning (left.erase t) } else none
      | _ => none
  | .done => if s.pc = .cleaning [] then some { s with pc := .ended } else none
  | _ => none

/-- One step of a connection's receiver or sender task. -/
def stepTask (s : Connections) (c : ℕ) : Action → Option Connections
  | .recv _ ok =>
      if c < s.count ∧ (s.connection c).receiving = true then
        some (s.modify c fun conn => { conn with receiving := ok })
      else none
  | .pop _ =>
      match (s.connection c).sender, (s.connection c).queue with
      | .idle, destination :: queue =>
          some (s.modify c fun conn => { conn with queue, sender := .sending destination })
      | _, _ => none
  | .send _ timedOut =>
      match (s.connection c).sender with
      | .sending destination =>
          some (s.modify c fun conn =>
            { conn with sender := if timedOut then .requeueing destination else .idle })
      | _ => none
  | .requeue _ =>
      match (s.connection c).sender with
      | .requeueing destination =>
          some (s.modify c fun conn =>
            { conn with queue := conn.queue ++ [destination], sender := .idle })
      | _ => none
  | _ => none

/-- One step. -/
def step (base : ℕ) (s : Connections) (a : Action) : Option Connections :=
  match a with
  | .recv c _ | .pop c | .send c _ | .requeue c => s.stepTask c a
  | .dispatch destination running => some (s.dispatchSend destination running).2
  | _ => s.stepServer base a

/-- The kinds of steps. -/
inductive Stepped (base : ℕ) (s : Connections) : Action → Connections → Prop
  | runAtomic (hpc : s.pc = .idle) :
      Stepped base s .runAtomic { s with pc := .closing s.tasks }
  | keeps (t : SocketTask) (left : List SocketTask) (hpc : s.pc = .closing left) (ht : t ∈ left)
      (hrunning : s.running t = true) :
      Stepped base s (.look t) { s with pc := .closing (left.erase t) }
  | closes (t : SocketTask) (left : List SocketTask) (hpc : s.pc = .closing left) (ht : t ∈ left)
      (hrunning : s.running t = false) :
      Stepped base s (.look t)
        { s.disconnected t with
          tasks := s.tasks.erase t
          pc := .closing (left.erase t) }
  | looked (hpc : s.pc = .closing []) : Stepped base s .looked { s with pc := .accepting }
  | timeout (hpc : s.pc = .accepting) : Stepped base s .timeout { s with pc := .idle }
  | accept (endpoint : Endpoint) (fd : ℕ) (hpc : s.pc = .accepting) (hfd : Lowest base s fd) :
      Stepped base s (.accept endpoint fd) (s.accepted endpoint fd)
  | newClient (c : ℕ) (hpc : s.pc = .announcing c) :
      Stepped base s .newClient
        { s with
          sendQueues := Function.update s.sendQueues (s.connection c).endpoint (some c)
          pc := .idle }
  | fail (hpc : s.pc = .idle ∨ s.pc = .accepting) :
      Stepped base s .fail { s with pc := .cleaning s.tasks }
  | cleanUp (t : SocketTask) (left : List SocketTask) (hpc : s.pc = .cleaning left)
      (ht : t ∈ left) :
      Stepped base s (.cleanUp t) { s.close t with pc := .cleaning (left.erase t) }
  | done (hpc : s.pc = .cleaning []) : Stepped base s .done { s with pc := .ended }
  | recv (c : ℕ) (ok : Bool) (hlt : c < s.count) (hreceiving : (s.connection c).receiving = true) :
      Stepped base s (.recv c ok) (s.modify c fun conn => { conn with receiving := ok })
  | pop (c : ℕ) (destination : Endpoint) (queue : List Endpoint)
      (hsender : (s.connection c).sender = .idle)
      (hqueue : (s.connection c).queue = destination :: queue) :
      Stepped base s (.pop c)
        (s.modify c fun conn => { conn with queue, sender := .sending destination })
  | send (c : ℕ) (timedOut : Bool) (destination : Endpoint)
      (hsender : (s.connection c).sender = .sending destination) :
      Stepped base s (.send c timedOut) (s.modify c fun conn =>
        { conn with sender := if timedOut then .requeueing destination else .idle })
  | requeue (c : ℕ) (destination : Endpoint)
      (hsender : (s.connection c).sender = .requeueing destination) :
      Stepped base s (.requeue c) (s.modify c fun conn =>
        { conn with queue := conn.queue ++ [destination], sender := .idle })
  | refused (destination : Endpoint) (running : Bool)
      (h : running = false ∨ s.sendQueues destination = none) :
      Stepped base s (.dispatch destination running) s
  | queued (destination : Endpoint) (c : ℕ) (h : s.sendQueues destination = some c) :
      Stepped base s (.dispatch destination true)
        (s.modify c fun conn => { conn with queue := conn.queue ++ [destination] })

variable {base : ℕ} {s s' : Connections} {a : Action}

/-- **Every step is one of the kinds.** -/
theorem stepped_of_step (hstep : step base s a = some s') : Stepped base s a s' := by
  cases a with
  | runAtomic =>
      simp only [step, stepServer] at hstep
      split at hstep
      · next hpc => exact Option.some.inj hstep ▸ .runAtomic hpc
      · cases hstep
  | look t =>
      simp only [step, stepServer] at hstep
      split at hstep
      · next left hpc =>
          split at hstep
          · next ht =>
              obtain rfl := Option.some.inj hstep
              rw [closeDisconnected]
              split
              · next hrunning => exact .keeps t left hpc ht hrunning
              · next hrunning =>
                  exact .closes t left hpc ht (Bool.eq_false_iff.mpr hrunning)
          · cases hstep
      · cases hstep
  | looked =>
      simp only [step, stepServer] at hstep
      split at hstep
      · next hpc => exact Option.some.inj hstep ▸ .looked hpc
      · cases hstep
  | timeout =>
      simp only [step, stepServer] at hstep
      split at hstep
      · next hpc => exact Option.some.inj hstep ▸ .timeout hpc
      · cases hstep
  | accept endpoint fd =>
      simp only [step, stepServer] at hstep
      split at hstep
      · next h => exact Option.some.inj hstep ▸ .accept endpoint fd h.1 h.2
      · cases hstep
  | newClient =>
      simp only [step, stepServer] at hstep
      split at hstep
      · next c hpc => exact Option.some.inj hstep ▸ .newClient c hpc
      · cases hstep
  | fail =>
      simp only [step, stepServer] at hstep
      split at hstep
      · next hpc => exact Option.some.inj hstep ▸ .fail hpc
      · cases hstep
  | cleanUp t =>
      simp only [step, stepServer] at hstep
      split at hstep
      · next left hpc =>
          split at hstep
          · next ht => exact Option.some.inj hstep ▸ .cleanUp t left hpc ht
          · cases hstep
      · cases hstep
  | done =>
      simp only [step, stepServer] at hstep
      split at hstep
      · next hpc => exact Option.some.inj hstep ▸ .done hpc
      · cases hstep
  | recv c ok =>
      simp only [step, stepTask] at hstep
      split at hstep
      · next h => exact Option.some.inj hstep ▸ .recv c ok h.1 h.2
      · cases hstep
  | pop c =>
      simp only [step, stepTask] at hstep
      split at hstep
      · next destination queue hsender hqueue =>
          exact Option.some.inj hstep ▸ .pop c destination queue hsender hqueue
      · cases hstep
  | send c timedOut =>
      simp only [step, stepTask] at hstep
      split at hstep
      · next destination hsender =>
          exact Option.some.inj hstep ▸ .send c timedOut destination hsender
      · cases hstep
  | requeue c =>
      simp only [step, stepTask] at hstep
      split at hstep
      · next destination hsender => exact Option.some.inj hstep ▸ .requeue c destination hsender
      · cases hstep
  | dispatch destination running =>
      obtain rfl := Option.some.inj hstep
      rw [dispatchSend]
      cases running with
      | false => exact .refused destination false (.inl rfl)
      | true =>
          cases hqueue : s.sendQueues destination with
          | none => exact .refused destination true (.inr hqueue)
          | some c => exact .queued destination c hqueue

/-- What holds of the tasks and of where the server task stands, in every run: `tasks_` is a set,
and a connection that is being announced is open. -/
structure WellFormed (s : Connections) : Prop where
  nodup : s.tasks.Nodup
  lt_count : ∀ t ∈ s.tasks, t.connection < s.count
  closing : ∀ left, s.pc = .closing left → left.Nodup ∧ left ⊆ s.tasks
  announcing : ∀ c, s.pc = .announcing c → c < s.count ∧ (s.connection c).closed = false

theorem WellFormed.init : WellFormed {} where
  nodup := List.nodup_nil
  lt_count _ h := absurd h List.not_mem_nil
  closing _ h := by cases h
  announcing _ h := by cases h

/-- The server task goes on, and nothing else changes. -/
theorem WellFormed.goTo (h : WellFormed s) {pc : ServerTaskPc}
    (hclosing : ∀ left, pc = .closing left → left.Nodup ∧ left ⊆ s.tasks)
    (hannouncing : ∀ c, pc ≠ .announcing c) : WellFormed { s with pc := pc } :=
  { h with
    closing := hclosing
    announcing := fun c hpc => absurd hpc (hannouncing c) }

/-- A connection's task goes on, or a message is queued for it. -/
theorem WellFormed.modify (h : WellFormed s) {c : ℕ} {f : Connection → Connection}
    (hclosed : (f (s.connection c)).closed = (s.connection c).closed) :
    WellFormed (s.modify c f) :=
  { h with
    announcing := fun k hpc => by
      rw [modify_same Connection.closed hclosed]
      exact h.announcing k hpc }

/-- The tasks of a new connection are new. -/
theorem WellFormed.accepted (h : WellFormed s) (endpoint : Endpoint) (fd : ℕ) :
    WellFormed (s.accepted endpoint fd) where
  nodup := by
    refine List.nodup_append.mpr ⟨h.nodup, by simp, ?_⟩
    rintro t ht u hu rfl
    have hlt : t.connection < s.count := h.lt_count t ht
    have hnew : t.connection = s.count := by
      rcases List.mem_pair.mp hu with rfl | rfl <;> rfl
    omega
  lt_count := by
    intro t ht
    rcases List.mem_append.mp ht with ht | ht
    · exact Nat.lt_succ_of_lt (h.lt_count t ht)
    · rcases List.mem_pair.mp ht with rfl | rfl <;> exact Nat.lt_succ_self s.count
  closing := by
    intro left hleft
    cases hleft
  announcing := by
    intro c hc
    obtain rfl := ServerTaskPc.announcing.inj hc
    rw [accepted_connection_self]
    exact ⟨Nat.lt_succ_self _, rfl⟩

/-- **Every step keeps the tasks in order.** -/
theorem WellFormed.step (h : WellFormed s) (hst : Stepped base s a s') : WellFormed s' := by
  cases hst with
  | runAtomic hpc =>
      refine h.goTo (fun left hleft => ?_) (by simp)
      obtain rfl := ServerTaskPc.closing.inj hleft
      exact ⟨h.nodup, List.Subset.refl _⟩
  | keeps t left hpc ht hrunning =>
      refine h.goTo (fun rest hrest => ?_) (by simp)
      obtain rfl := ServerTaskPc.closing.inj hrest
      obtain ⟨hnodup, hsub⟩ := h.closing left hpc
      exact ⟨hnodup.erase t, fun u hu => hsub (List.mem_of_mem_erase hu)⟩
  | closes t left hpc ht hrunning =>
      obtain ⟨hnodup, hsub⟩ := h.closing left hpc
      refine ⟨h.nodup.erase t, fun u hu => h.lt_count u (List.mem_of_mem_erase hu), ?_, by simp⟩
      intro rest hrest
      obtain rfl := ServerTaskPc.closing.inj hrest
      refine ⟨hnodup.erase t, fun u hu => ?_⟩
      obtain ⟨hne, hin⟩ := hnodup.mem_erase_iff.mp hu
      exact h.nodup.mem_erase_iff.mpr ⟨hne, hsub hin⟩
  | accept endpoint fd hpc hfd => exact h.accepted endpoint fd
  | newClient c hpc =>
      have hidle : WellFormed { s with pc := .idle } := h.goTo (by simp) (by simp)
      exact { hidle with }
  | cleanUp t left hpc ht =>
      have hnext : WellFormed { s with pc := .cleaning (left.erase t) } :=
        h.goTo (by simp) (by simp)
      exact { hnext with }
  | looked | timeout | fail | done => exact h.goTo (by simp) (by simp)
  | recv | pop | send | requeue | queued => exact h.modify rfl
  | refused => exact h

/-! ### What a step does with descriptors -/

/-- A use of a descriptor: `accept` returns it, a connection's task calls `recv` or `close` on it,
or `send` with a message for an endpoint. -/
inductive Use
  | accepted (fd : ℕ)
  | received (fd connection : ℕ)
  | closed (fd connection : ℕ)
  | sent (fd : ℕ) (destination : Endpoint)
  deriving DecidableEq, Repr

/-- The uses of a step. -/
def uses (s : Connections) : Action → List Use
  | .look t => if s.running t then [] else [.closed (s.fd t.connection) t.connection]
  | .accept _ fd => [.accepted fd]
  | .cleanUp t => [.closed (s.fd t.connection) t.connection]
  | .recv c _ => [.received (s.fd c) c]
  | .send c _ =>
      match (s.connection c).sender with
      | .sending destination => [.sent (s.fd c) destination]
      | _ => []
  | _ => []

/-- A use that is as it should be: a descriptor that is accepted was not open; one on which a
connection's task calls `recv` or `close` is open and the connection's; and one on which a message
is sent is that of an open connection from the endpoint that the message is for. -/
def Use.Proper (s : Connections) : Use → Prop
  | .accepted fd => s.fds fd = none
  | .received fd c => s.fds fd = some c
  | .closed fd c => s.fds fd = some c
  | .sent fd destination =>
      (s.fds fd).any (fun c => (s.connection c).endpoint = destination) = true

instance (s : Connections) : ∀ u : Use, Decidable (u.Proper s)
  | .accepted _ | .received _ _ | .closed _ _ | .sent _ _ => inferInstanceAs (Decidable (_ = _))

end Connections

end MessagePassing

end Csci6780
