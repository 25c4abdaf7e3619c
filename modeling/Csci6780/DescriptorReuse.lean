import Csci6780.ServerTask

/-!
# Descriptors that are Used Again

The sender and the receiver task of a connection have one descriptor between them.
`CloseDisconnected` closes it when the receiver task has ended, and leaves the sender task and its
queue as they are; `CleanUp` closes it once for each of the two. After that the kernel gives the
number to the next client, and what the sender task still sends goes there.

This cannot happen in a run that is careful: a connection is closed only when there is nothing left
to send on it, nobody sends to a connection that is closed, and the server task does not end once
it has had a client.

## Main results

* `Sound`: what holds between the connections and the kernel along a careful run.
* `descriptors_used_properly`: in a careful run every descriptor is used by its own connection
  while that is open.
-/

namespace Csci6780

namespace MessagePassing

namespace Connections

/-- A step that is careful with descriptors. -/
def Careful (s : Connections) : Action → Prop
  | .look t => s.running t = false → (s.connection t.connection).messages = []
  | .dispatch destination running => running = true → ∀ c ∈ s.sendQueues destination, s.IsOpen c
  | .fail => s.tasks = []
  | _ => True

instance (s : Connections) : ∀ a, Decidable (s.Careful a)
  | .look _ => inferInstanceAs (Decidable (_ → _))
  | .dispatch destination running =>
      inferInstanceAs (Decidable (running = true → ∀ c ∈ s.sendQueues destination, s.IsOpen c))
  | .fail => inferInstanceAs (Decidable (_ = _))
  | .runAtomic | .looked | .timeout | .accept _ _ | .newClient | .cleanUp _ | .done | .recv _ _
  | .pop _ | .send _ _ | .requeue _ => inferInstanceAs (Decidable True)

/-- A step whose uses of descriptors are as they should be. -/
def UsesProperly (s : Connections) (a : Action) : Prop := ∀ u ∈ s.uses a, u.Proper s

instance (s : Connections) (a : Action) : Decidable (s.UsesProperly a) :=
  inferInstanceAs (Decidable (∀ u ∈ s.uses a, u.Proper s))

/-- What holds between the connections and the kernel: a descriptor has the connection that the
kernel says; a connection is open as long as its receiver task is running or in `tasks_`, and as
long as there are messages for it, which are for its endpoint. -/
structure Sound (s : Connections) : Prop extends WellFormed s where
  holder : ∀ fd c, s.fds fd = some c → c < s.count ∧ s.fd c = fd
  receiving : ∀ c < s.count, (s.connection c).receiving = true → s.IsOpen c
  inTasks : ∀ c, ⟨c, .receiver⟩ ∈ s.tasks → s.IsOpen c
  messages : ∀ c, ∀ d ∈ (s.connection c).messages, (s.connection c).endpoint = d ∧ s.IsOpen c
  queues : ∀ e c, s.sendQueues e = some c → c < s.count ∧ (s.connection c).endpoint = e
  cleaning : ∀ left, s.pc = .cleaning left → left = []

variable {base : ℕ} {s s' : Connections} {a : Action}

theorem Sound.init : Sound {} where
  toWellFormed := .init
  holder _ _ h := by cases h
  receiving c h _ := absurd h (Nat.not_lt_zero c)
  inTasks _ h := absurd h List.not_mem_nil
  messages _ _ h := absurd h List.not_mem_nil
  queues _ _ h := by cases h
  cleaning _ h := by cases h

/-- The server task goes on, and nothing else changes. -/
theorem Sound.goTo (h : Sound s) {pc : ServerTaskPc} (hwf : WellFormed { s with pc := pc })
    (hcleaning : ∀ left, pc = .cleaning left → left = []) : Sound { s with pc := pc } :=
  { h with toWellFormed := hwf, cleaning := hcleaning }

/-- A change of a connection that leaves its descriptor leaves all descriptors. -/
theorem modify_isOpen {c : ℕ} {f : Connection → Connection}
    (hfd : (f (s.connection c)).fd = (s.connection c).fd) (k : ℕ) :
    (s.modify c f).IsOpen k ↔ s.IsOpen k := by
  have hsame : (s.modify c f).fd k = s.fd k := modify_same Connection.fd hfd k
  rw [IsOpen, hsame, modify_fds, IsOpen]

/-- A connection's task goes on: what it has to send is for the connection, which is open. -/
theorem Sound.modify (h : Sound s) {c : ℕ} {f : Connection → Connection}
    (hwf : WellFormed (s.modify c f))
    (hfd : (f (s.connection c)).fd = (s.connection c).fd)
    (hendpoint : (f (s.connection c)).endpoint = (s.connection c).endpoint)
    (hreceiving : (f (s.connection c)).receiving = true → (s.connection c).receiving = true)
    (hmessages : ∀ d ∈ (f (s.connection c)).messages,
      (s.connection c).endpoint = d ∧ s.IsOpen c) : Sound (s.modify c f) where
  toWellFormed := hwf
  holder fd k hk := by
    obtain ⟨hlt, hfdk⟩ := h.holder fd k hk
    exact ⟨hlt, (modify_same Connection.fd hfd k).trans hfdk⟩
  receiving k hk hrec := by
    rw [modify_isOpen hfd]
    by_cases hkc : k = c
    · subst hkc
      rw [modify_connection_self] at hrec
      exact h.receiving k hk (hreceiving hrec)
    · rw [modify_connection_ne s hkc] at hrec
      exact h.receiving k hk hrec
  inTasks k hk := (modify_isOpen hfd k).mpr (h.inTasks k hk)
  messages k d hd := by
    rw [modify_isOpen hfd, modify_same Connection.endpoint hendpoint]
    by_cases hkc : k = c
    · subst hkc
      rw [modify_connection_self] at hd
      exact hmessages d hd
    · rw [modify_connection_ne s hkc] at hd
      exact h.messages k d hd
  queues e k hk := by
    rw [modify_same Connection.endpoint hendpoint]
    exact h.queues e k hk
  cleaning := h.cleaning

/-- Two connections that are open have different descriptors. -/
theorem IsOpen.fd_ne {c k : ℕ} (hc : s.IsOpen c) (hk : s.IsOpen k) (hne : k ≠ c) :
    s.fd k ≠ s.fd c := by
  intro hfd
  rw [IsOpen, hfd, hc] at hk
  exact hne (Option.some.inj hk).symm

/-- A task whose status is not `RUNNING` is a receiver task. -/
theorem kind_of_not_running {t : SocketTask} (h : s.running t = false) :
    t = ⟨t.connection, .receiver⟩ := by
  obtain ⟨c, kind⟩ := t
  cases kind with
  | sender => cases h
  | receiver => rfl

/-- What is open stays open when another connection is closed. -/
theorem IsOpen.disconnected {t : SocketTask} {k : ℕ} (hk : s.IsOpen k)
    (ht : s.IsOpen t.connection) (hne : k ≠ t.connection) : (s.disconnected t).IsOpen k := by
  have hfd : s.fd k ≠ s.fd t.connection := ht.fd_ne hk hne
  rw [IsOpen, disconnected_fd]
  exact (Function.update_of_ne hfd none s.fds).trans hk

/-- `CloseDisconnected` closes a connection that has nothing left to send. -/
theorem Sound.closes (h : Sound s) {t : SocketTask} {left : List SocketTask}
    (hwf : WellFormed
      { s.disconnected t with tasks := s.tasks.erase t, pc := .closing (left.erase t) })
    (hpc : s.pc = .closing left) (ht : t ∈ left) (hrunning : s.running t = false)
    (hmessages : (s.connection t.connection).messages = []) :
    Sound { s.disconnected t with tasks := s.tasks.erase t, pc := .closing (left.erase t) } := by
  have hreceiver : t = ⟨t.connection, .receiver⟩ := kind_of_not_running hrunning
  have hopen : s.IsOpen t.connection := h.inTasks _ (hreceiver ▸ (h.closing left hpc).2 ht)
  have hstays : ∀ k, s.IsOpen k → k ≠ t.connection → (s.disconnected t).IsOpen k :=
    fun k hk hne => hk.disconnected hopen hne
  exact
    { toWellFormed := hwf
      holder := by
        intro fd k hk
        change Function.update s.fds (s.fd t.connection) none fd = some k at hk
        by_cases hfdt : fd = s.fd t.connection
        · rw [hfdt, Function.update_self] at hk
          cases hk
        · rw [Function.update_of_ne hfdt] at hk
          exact ⟨(h.holder fd k hk).1, (disconnected_fd s t k).trans (h.holder fd k hk).2⟩
      receiving := by
        intro k hk hrec
        by_cases hkt : k = t.connection
        · subst hkt
          rw [disconnected_connection_self] at hrec
          rw [hreceiver, running, hrec] at hrunning
          cases hrunning
        · rw [disconnected_connection_ne s hkt] at hrec
          exact hstays k (h.receiving k hk hrec) hkt
      inTasks := by
        intro k hk
        obtain ⟨hne, hin⟩ := h.nodup.mem_erase_iff.mp hk
        refine hstays k (h.inTasks k hin) fun hkt => hne ?_
        rw [hkt]
        exact hreceiver.symm
      messages := by
        intro k d hd
        by_cases hkt : k = t.connection
        · subst hkt
          rw [disconnected_connection_self] at hd
          have hd' : d ∈ (s.connection t.connection).messages := hd
          rw [hmessages] at hd'
          exact absurd hd' List.not_mem_nil
        · rw [disconnected_connection_ne s hkt] at hd
          obtain ⟨hdest, hk⟩ := h.messages k d hd
          exact ⟨(disconnected_endpoint s t k).trans hdest, hstays k hk hkt⟩
      queues := fun e k hk =>
        ⟨(h.queues e k hk).1, (disconnected_endpoint s t k).trans (h.queues e k hk).2⟩
      cleaning := by
        intro rest hrest
        cases hrest }

/-- `accept` returns a descriptor that is not open. -/
theorem Sound.accepted (h : Sound s) {endpoint : Endpoint} {fd : ℕ} (hfd : s.fds fd = none) :
    Sound (s.accepted endpoint fd) := by
  have hself : (s.accepted endpoint fd).connection s.count = { endpoint, fd } :=
    accepted_connection_self s endpoint fd
  have hother : ∀ k ≠ s.count, (s.accepted endpoint fd).connection k = s.connection k :=
    fun k hk => accepted_connection_ne s endpoint fd hk
  have hstays : ∀ k ≠ s.count, s.IsOpen k → (s.accepted endpoint fd).IsOpen k := by
    intro k hk hopen
    have hne : s.fd k ≠ fd := by
      rintro rfl
      exact absurd (hopen.symm.trans hfd) (by simp)
    rw [IsOpen, Connections.fd, hother k hk]
    exact (Function.update_of_ne hne _ _).trans hopen
  have hnew : (s.accepted endpoint fd).IsOpen s.count := by
    rw [IsOpen, Connections.fd, hself]
    exact Function.update_self ..
  exact
    { toWellFormed := h.toWellFormed.accepted endpoint fd
      holder := by
        intro k c hk
        change Function.update s.fds fd (some s.count) k = some c at hk
        by_cases hkfd : k = fd
        · rw [hkfd, Function.update_self] at hk
          obtain rfl := Option.some.inj hk
          exact ⟨Nat.lt_succ_self _, (congrArg Connection.fd hself).trans hkfd.symm⟩
        · rw [Function.update_of_ne hkfd] at hk
          obtain ⟨hlt, hfdc⟩ := h.holder k c hk
          refine ⟨Nat.lt_succ_of_lt hlt, ?_⟩
          rw [Connections.fd, hother c (Nat.ne_of_lt hlt)]
          exact hfdc
      receiving := by
        intro k hk hrec
        by_cases hkc : k = s.count
        · exact hkc ▸ hnew
        · rw [hother k hkc] at hrec
          have hlt : k < s.count + 1 := hk
          exact hstays k hkc (h.receiving k (by omega) hrec)
      inTasks := by
        intro k hk
        by_cases hkc : k = s.count
        · exact hkc ▸ hnew
        · refine hstays k hkc (h.inTasks k ?_)
          simpa [Connections.accepted, hkc] using hk
      messages := by
        intro k d hd
        by_cases hkc : k = s.count
        · subst hkc
          rw [hself] at hd
          exact absurd hd List.not_mem_nil
        · rw [hother k hkc] at hd ⊢
          obtain ⟨hdest, hopen⟩ := h.messages k d hd
          exact ⟨hdest, hstays k hkc hopen⟩
      queues := by
        intro e k hk
        obtain ⟨hlt, hend⟩ := h.queues e k hk
        rw [hother k (Nat.ne_of_lt hlt)]
        exact ⟨Nat.lt_succ_of_lt hlt, hend⟩
      cleaning := by
        intro left hleft
        cases hleft }

/-- **A careful step keeps what holds.** -/
theorem Sound.step (h : Sound s) (hcareful : s.Careful a) (hst : Stepped base s a s') :
    Sound s' := by
  have hwf : WellFormed s' := h.toWellFormed.step hst
  cases hst with
  | runAtomic | keeps | looked | timeout | done => exact h.goTo hwf (by simp)
  | closes t left hpc ht hrunning => exact h.closes hwf hpc ht hrunning (hcareful hrunning)
  | accept endpoint fd hpc hfd => exact h.accepted hfd.2.1
  | newClient c hpc =>
      refine { h with toWellFormed := hwf, queues := fun e k hk => ?_, cleaning := by simp }
      change Function.update s.sendQueues (s.connection c).endpoint (some c) e = some k at hk
      by_cases he : e = (s.connection c).endpoint
      · rw [he, Function.update_self] at hk
        obtain rfl := Option.some.inj hk
        exact ⟨(h.announcing c hpc).1, he.symm⟩
      · rw [Function.update_of_ne he] at hk
        exact h.queues e k hk
  | fail hpc =>
      refine h.goTo hwf (fun left hleft => ?_)
      obtain rfl := ServerTaskPc.cleaning.inj hleft
      exact hcareful
  | cleanUp t left hpc ht =>
      -- a careful run has no task to clean up
      rw [h.cleaning left hpc] at ht
      exact absurd ht List.not_mem_nil
  | recv c ok hlt hreceiving =>
      exact h.modify hwf rfl rfl (fun _ => hreceiving) (fun d hd => h.messages c d hd)
  | pop c destination queue hsender hqueue =>
      refine h.modify hwf rfl rfl (fun hrec => hrec) (fun d hd => h.messages c d ?_)
      rw [Connection.messages, hsender, hqueue]
      exact hd
  | send c timedOut destination hsender =>
      refine h.modify hwf rfl rfl (fun hrec => hrec) (fun d hd => h.messages c d ?_)
      rw [Connection.messages, hsender]
      cases timedOut with
      | true => exact hd
      | false => exact List.mem_cons_of_mem destination hd
  | requeue c destination hsender =>
      refine h.modify hwf rfl rfl (fun hrec => hrec) (fun d hd => h.messages c d ?_)
      rw [Connection.messages, hsender]
      exact (List.perm_append_singleton destination _).mem_iff.mp hd
  | refused destination running hrefused => exact h
  | queued destination c hqueue =>
      have hopen : s.IsOpen c := hcareful rfl c hqueue
      refine h.modify hwf rfl rfl (fun hrec => hrec) (fun d hd => ?_)
      rw [Connection.messages_push] at hd
      rcases List.mem_append.mp hd with hd | hd
      · exact h.messages c d hd
      · obtain rfl := List.mem_singleton.mp hd
        exact ⟨(h.queues d c hqueue).2, hopen⟩

/-- A careful step uses descriptors as it should. -/
theorem Sound.usesProperly (h : Sound s) (hcareful : s.Careful a) (hst : Stepped base s a s') :
    s.UsesProperly a := by
  intro u hu
  cases hst with
  | keeps t left hpc ht hrunning =>
      rw [uses, if_pos hrunning] at hu
      exact absurd hu List.not_mem_nil
  | closes t left hpc ht hrunning =>
      rw [uses, hrunning] at hu
      obtain rfl := List.mem_singleton.mp hu
      have hreceiver : t = ⟨t.connection, .receiver⟩ := kind_of_not_running hrunning
      exact h.inTasks _ (hreceiver ▸ (h.closing left hpc).2 ht)
  | accept endpoint fd hpc hfd =>
      obtain rfl := List.mem_singleton.mp hu
      exact hfd.2.1
  | cleanUp t left hpc ht =>
      rw [h.cleaning left hpc] at ht
      exact absurd ht List.not_mem_nil
  | recv c ok hlt hreceiving =>
      obtain rfl := List.mem_singleton.mp hu
      exact h.receiving c hlt hreceiving
  | send c timedOut destination hsender =>
      rw [uses, hsender] at hu
      obtain rfl := List.mem_singleton.mp hu
      have hmessage : destination ∈ (s.connection c).messages := by
        rw [Connection.messages, hsender]
        exact List.mem_cons_self
      obtain ⟨hendpoint, hopen⟩ := h.messages c destination hmessage
      rw [Use.Proper, hopen, Option.any_some]
      exact decide_eq_true hendpoint
  | runAtomic | looked | timeout | newClient | fail | done | pop | requeue | refused | queued =>
      exact absurd hu List.not_mem_nil

/-! ### Accepting and closing in turn -/

/-- The use is the `accept` that returns a descriptor. -/
def Use.accepts (fd : ℕ) : Use → Bool
  | .accepted k => k = fd
  | _ => false

/-- The use closes a descriptor. -/
def Use.closes (fd : ℕ) : Use → Bool
  | .closed k _ => k = fd
  | _ => false

/-- A use that comes in its turn: a descriptor is accepted when it has been closed as many times as
accepted, and closed when it has been accepted once more. -/
def Use.InTurn (before : List Use) : Use → Prop
  | .accepted fd => before.countP (Use.accepts fd) = before.countP (Use.closes fd)
  | .closed fd _ => before.countP (Use.accepts fd) = before.countP (Use.closes fd) + 1
  | _ => True

/-- All descriptors are used properly in a run, and each is closed exactly once before it is
accepted again. -/
def UsedProperly (base : ℕ) (acts : List Action) : Prop :=
  EachStep (step base) UsesProperly {} acts ∧
    ∀ pre a m, pre ++ [a] <+: acts → runFrom (step base) {} pre = some m →
      ∀ u ∈ m.uses a, u.InTurn (collect (step base) uses {} pre)

/-- What is closed properly was open. -/
theorem count_close {c : ℕ} (hopen : s.IsOpen c) (fd : ℕ) :
    [Use.closed (s.fd c) c].countP (Use.accepts fd) + (s.fds fd).isSome.toNat =
      [Use.closed (s.fd c) c].countP (Use.closes fd) +
        (Function.update s.fds (s.fd c) none fd).isSome.toNat := by
  by_cases hfd : s.fd c = fd
  · subst hfd
    rw [hopen, Function.update_self]
    simp [Use.accepts, Use.closes]
  · rw [Function.update_of_ne (Ne.symm hfd)]
    simp [Use.accepts, Use.closes, hfd]

/-- A step with proper uses: what is accepted is opened, and what is closed was open. -/
theorem count_uses (hproper : s.UsesProperly a) (hst : Stepped base s a s') (fd : ℕ) :
    (s.uses a).countP (Use.accepts fd) + (s.fds fd).isSome.toNat =
      (s.uses a).countP (Use.closes fd) + (s'.fds fd).isSome.toNat := by
  cases hst with
  | keeps t left hpc ht hrunning =>
      rw [uses, if_pos hrunning]
      rfl
  | closes t left hpc ht hrunning =>
      have huses : s.uses (.look t) = [.closed (s.fd t.connection) t.connection] := by
        rw [uses, hrunning]
        rfl
      have hopen : s.IsOpen t.connection :=
        hproper (.closed (s.fd t.connection) t.connection) (huses ▸ List.mem_singleton_self _)
      rw [huses]
      exact count_close hopen fd
  | accept endpoint k hpc hk =>
      change _ = _ + (Function.update s.fds k (some s.count) fd).isSome.toNat
      by_cases hfd : k = fd
      · subst hfd
        rw [hk.2.1, Function.update_self]
        simp [uses, Use.accepts, Use.closes]
      · rw [Function.update_of_ne (Ne.symm hfd)]
        simp [uses, Use.accepts, Use.closes, hfd]
  | cleanUp t left hpc ht =>
      have hopen : s.IsOpen t.connection :=
        hproper (.closed (s.fd t.connection) t.connection) (List.mem_singleton_self _)
      exact count_close hopen fd
  | send c timedOut destination hsender =>
      rw [uses, hsender]
      rfl
  | runAtomic | looked | timeout | newClient | fail | done | recv | pop | requeue | refused
  | queued => rfl

/-- In a run that uses descriptors properly, those are open that were accepted once more than
closed. -/
theorem count_uses_of_run {acts : List Action} (hrun : runFrom (step base) {} acts = some s)
    (hproper : EachStep (step base) UsesProperly {} acts) (fd : ℕ) :
    (collect (step base) uses {} acts).countP (Use.accepts fd) =
      (collect (step base) uses {} acts).countP (Use.closes fd) + (s.fds fd).isSome.toNat := by
  refine history_inv_of (fun pre m => (collect (step base) uses {} pre).countP (Use.accepts fd) =
    (collect (step base) uses {} pre).countP (Use.closes fd) + (m.fds fd).isSome.toNat) rfl
    (fun pre m a m' hm ih hP hstep => ?_) hproper hrun
  have hone := count_uses hP (stepped_of_step hstep) fd
  rw [collect_concat hm, List.countP_append, List.countP_append]
  omega

/-- **Descriptors in a careful run.** If `CloseDisconnected` closes a connection only when nothing
is left to send on it, messages are sent only to connections that are open, and the server task
does not end once it has had a client, then every descriptor is used by its own connection while
that is open, and closed exactly once before it is accepted again. -/
theorem descriptors_used_properly {acts : List Action}
    (hrun : runFrom (step base) {} acts = some s')
    (hcareful : EachStep (step base) Careful {} acts) : UsedProperly base acts := by
  have hsound : EachState (step base) Sound {} acts :=
    .of_inv Sound (fun _ _ _ hm hP hstep => hm.step hP (stepped_of_step hstep)) .init hcareful
  have hproper : EachStep (step base) UsesProperly {} acts := by
    intro pre a m hpre hm
    obtain ⟨m', -, hstep, -⟩ := runFrom_after hrun hpre hm
    have hm_sound : Sound m := hsound pre m ((List.prefix_append pre [a]).trans hpre) hm
    exact hm_sound.usesProperly (hcareful pre a m hpre hm) (stepped_of_step hstep)
  refine ⟨hproper, fun pre a m hpre hm u hu => ?_⟩
  have hcount (fd : ℕ) := count_uses_of_run hm
    (fun p b n hp hn => hproper p b n (hp.trans ((List.prefix_append pre [a]).trans hpre)) hn) fd
  have hproper_u : u.Proper m := hproper pre a m hpre hm u hu
  cases u with
  | accepted fd =>
      have hfree : m.fds fd = none := hproper_u
      rw [Use.InTurn, hcount, hfree]
      rfl
  | closed fd c =>
      have hopen : m.fds fd = some c := hproper_u
      rw [Use.InTurn, hcount, hopen]
      rfl
  | received | sent => trivial

/-- A client disconnects when nothing is left to send to it, and the next one has its
descriptor. -/
theorem descriptors_used_properly_reconnected :
    UsedProperly 5
      [.runAtomic, .looked, .accept ⟨"a", 1⟩ 5, .newClient, .dispatch ⟨"a", 1⟩ true, .pop 0,
        .send 0 false, .recv 0 false, .runAtomic, .look ⟨0, .sender⟩, .look ⟨0, .receiver⟩,
        .looked, .accept ⟨"b", 2⟩ 5, .newClient, .dispatch ⟨"b", 2⟩ true, .pop 1,
        .send 1 false] :=
  descriptors_used_properly (Option.some_get (by decide)).symm (by decide)

/-- A client disconnects, and the next one has its descriptor. A message for the first one is sent
to the second. -/
theorem sent_to_other_client :
    ¬∀ (base : ℕ) (acts : List Action) (s' : Connections),
      runFrom (step base) {} acts = some s' → UsedProperly base acts := by
  intro h
  have hused := h 5
    [.runAtomic, .looked, .accept ⟨"a", 1⟩ 5, .newClient, .recv 0 false, .runAtomic,
      .look ⟨0, .sender⟩, .look ⟨0, .receiver⟩, .looked, .accept ⟨"b", 2⟩ 5, .newClient,
      .dispatch ⟨"a", 1⟩ true, .pop 0, .send 0 false]
    _ (Option.some_get (by decide)).symm
  exact absurd hused.1 (by decide)

/-- `CleanUp` closes the descriptor of a connection that still has both tasks twice. -/
theorem cleanUp_closes_again {t u : SocketTask} (hstep : step base s (.cleanUp t) = some s')
    (hsame : u.connection = t.connection) : ¬s'.UsesProperly (.cleanUp u) := by
  intro hproper
  have hopen : s'.IsOpen t.connection :=
    hsame ▸ hproper (.closed (s'.fd u.connection) u.connection) (List.mem_singleton_self _)
  cases stepped_of_step hstep with
  | cleanUp _ left hpc ht =>
      have hclosed : (s.close t).fds (s.fd t.connection) = none := Function.update_self ..
      exact absurd (hopen.symm.trans hclosed) (by simp)

end Connections

end MessagePassing

end Csci6780
