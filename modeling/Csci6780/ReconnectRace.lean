import Csci6780.MissedMessages

/-!
# A Reconnection and a Multicast at the Same Time

A `Reconnect` and a `SendMulticast` have handlers of their own. The one makes the participant
connected, adds a messenger for it, reads the clock, takes the missed messages out of the log and
sends them; the other walks through the messengers, sends to those whose participants are
connected, and puts its message into the log after the first send. This module takes both apart
into these steps; they come in any order.

Whether the participant is sent the multicast live depends on whether the walk has already passed
the place of the new messenger, and whether it is sent the multicast again depends on whether the
log had it in time. Nothing ties the two together, so that the multicast can be sent twice or not
at all.

A new element may rearrange a hash set; the iterator of the walk stays with its element. The
connection to the participant has succeeded, and sends succeed.

## Main results

* `Race.Accounts.step`: what has been sent, with what is still to be sent, is the sum of the two
  ways.
* `reconnect_race_iff`: the multicast is sent exactly once exactly when it goes one of the two
  ways.
-/

namespace Csci6780.PubSub

/-- Where the handler of `Reconnect` stands: before it reconnects the participant, before
`AddMessenger`, before it reads the clock, before `GetMissedMessages`, in the loop of
`SendMissedMessages`, at its end. -/
inductive ReconnectPc
  | reconnecting
  | adding
  | reading
  | taking (now : ℤ)
  | replaying (msgs : List Message)
  | done
  deriving DecidableEq

/-- The steps in the order in which the handler takes them; all sends are one. -/
def ReconnectPc.phase : ReconnectPc → ℕ
  | .reconnecting => 0
  | .adding => 1
  | .reading => 2
  | .taking _ => 3
  | .replaying _ => 4
  | .done => 5

/-- The messages that the handler has still to replay. -/
def ReconnectPc.toReplay : ReconnectPc → List Message
  | .replaying msgs => msgs
  | .reconnecting | .adding | .reading | .taking _ | .done => []

/-- Where the loop of `BroadcastMessage` stands: before it starts, and for the messenger at the
iterator, before `IsConnected`, before `SendMessage`, before `LogMessage`, before the iterator goes
on; at its end. The flag is `is_logged`. -/
inductive BroadcastPc
  | starting
  | checking (it : ℕ) (isLogged : Bool) (msg : Message)
  | sending (it : ℕ) (isLogged : Bool) (msg : Message)
  | logging (it : ℕ) (msg : Message)
  | advancing (it : ℕ) (isLogged : Bool) (msg : Message)
  | done
  deriving DecidableEq

/-- What the two handlers share, where they stand, and what has been sent. `time` is the last
reading of the clock. -/
structure Race where
  participants : ParticipantManager
  messengers : List Messenger
  msgLog : MessageLog
  time : ℤ
  reconnect : ReconnectPc := .reconnecting
  broadcast : BroadcastPc := .starting
  sent : List (Messenger × Message) := []

/-- The step of a handler and what it meets: the clock, the order of the messengers after an
insertion and the iterator's place in it, the order of the missed messages. -/
inductive RaceStep
  | reconnect (now : ℤ) (order : List Messenger) (iterator : ℕ)
      (replayOrder : IterationOrder Message)
  | broadcast (now : ℤ)

namespace BroadcastPc

/-- The iterator of the walk. -/
def iterator : BroadcastPc → Option ℕ
  | .checking it _ _ | .sending it _ _ | .logging it _ | .advancing it _ _ => some it
  | .starting | .done => none

/-- The walk with its iterator at another place. -/
def moveTo (it : ℕ) : BroadcastPc → BroadcastPc
  | .checking _ isLogged msg => .checking it isLogged msg
  | .sending _ isLogged msg => .sending it isLogged msg
  | .logging _ msg => .logging it msg
  | .advancing _ isLogged msg => .advancing it isLogged msg
  | .starting => .starting
  | .done => .done

/-- The messengers that the walk still has before it. -/
def remaining (messengers : List Messenger) : BroadcastPc → List Messenger
  | .starting => messengers
  | .checking it _ _ | .sending it _ _ => messengers.drop it
  | .logging it _ | .advancing it _ _ => messengers.drop (it + 1)
  | .done => []

/-- The message as the walk has it; before the start it is `msg`. -/
def message (msg : Message) : BroadcastPc → Message
  | .checking _ _ msg | .sending _ _ msg | .logging _ msg | .advancing _ _ msg => msg
  | .starting | .done => msg

/-- The walk may have logged its message. -/
def isLogged : BroadcastPc → Bool
  | .checking _ isLogged _ | .sending _ isLogged _ | .advancing _ isLogged _ => isLogged
  | .starting | .logging _ _ => false
  | .done => true

end BroadcastPc

namespace Race

/-- The messengers can be in the order after an insertion: they are those of before with the new
one, and the iterator is at the element it was at. -/
def Rearranged (s : Race) (m : Messenger) (order : List Messenger) (iterator : ℕ) : Prop :=
  order.Perm (s.messengers ++ [m]) ∧
    ∀ it ∈ s.broadcast.iterator, order[iterator]? = s.messengers[it]?

instance (s : Race) (m : Messenger) (order : List Messenger) (iterator : ℕ) :
    Decidable (s.Rearranged m order iterator) :=
  inferInstanceAs (Decidable (_ ∧ ∀ it ∈ s.broadcast.iterator, _))

/-- One step of the handler of `Reconnect`, which has connected to its participant `p`. -/
def stepReconnect (p : Participant) (s : Race) (now : ℤ) (order : List Messenger)
    (iterator : ℕ) (replayOrder : IterationOrder Message) : Option Race :=
  match s.reconnect with
  | .reconnecting =>
      some { s with
        participants := (s.participants.reconnectParticipant p).2
        reconnect := .adding }
  | .adding =>
      if s.Rearranged ⟨p⟩ order iterator then
        some { s with
          messengers := order
          broadcast := s.broadcast.moveTo iterator
          reconnect := .reading }
      else none
  | .reading =>
      if s.time ≤ now then some { s with time := now, reconnect := .taking now } else none
  | .taking reconnectionTime =>
      let missed := s.msgLog.getMissedMessages p.disconnectTime reconnectionTime
      some { s with reconnect := .replaying (replayOrder.enumerate missed.elements) }
  | .replaying [] => some { s with reconnect := .done }
  | .replaying (msg :: msgs) =>
      some { s with sent := s.sent ++ [(⟨p⟩, msg)], reconnect := .replaying msgs }
  | .done => none

/-- One step of the loop of `BroadcastMessage` with the message `msg`. -/
def stepBroadcast (msg : Message) (s : Race) (now : ℤ) : Option Race :=
  match s.broadcast with
  | .starting => some { s with broadcast := .checking 0 false msg }
  | .checking it isLogged msg =>
      match s.messengers[it]? with
      | none => some { s with broadcast := .done }
      | some m =>
          if s.participants.isConnected m.participant then
            some { s with broadcast := .sending it isLogged msg }
          else some { s with broadcast := .advancing it isLogged msg }
  | .sending it isLogged msg =>
      match s.messengers[it]? with
      | none => none
      | some m =>
          some { s with
            sent := s.sent ++ [(m, msg)]
            broadcast := if isLogged then .advancing it true msg else .logging it msg }
  | .logging it msg =>
      if s.time ≤ now then
        let msg := { msg with timestamp := now }
        some { s with
          msgLog := s.msgLog.insert msg
          time := now
          broadcast := .advancing it true msg }
      else none
  | .advancing it isLogged msg => some { s with broadcast := .checking (it + 1) isLogged msg }
  | .done => none

/-- One step of one of the handlers. -/
def step (p : Participant) (msg : Message) (s : Race) : RaceStep → Option Race
  | .reconnect now order iterator replayOrder => s.stepReconnect p now order iterator replayOrder
  | .broadcast now => s.stepBroadcast msg now

/-- How many times the multicast has been sent to the participant. -/
def sends (s : Race) (id : UInt32) (number : ℕ) : ℕ :=
  s.sent.countP fun e => e.1.participant.id = id ∧ e.2.number = number

/-- The step adds the messenger, and the walk has it still before it. -/
def addedAhead (p : Participant) (s : Race) : RaceStep → Bool
  | .reconnect _ order iterator _ =>
      s.reconnect = .adding && decide (⟨p⟩ ∈ (s.broadcast.moveTo iterator).remaining order)
  | .broadcast _ => false

/-- The step takes the missed messages, and the multicast is in the log. -/
def loggedInTime (msg : Message) (s : Race) : RaceStep → Bool
  | .reconnect _ _ _ _ =>
      s.reconnect.phase = 3 && s.msgLog.entries.any fun e => e.number = msg.number
  | .broadcast _ => false

/-- Both requests have been handled. -/
def Complete (s : Race) : Prop := s.reconnect = .done ∧ s.broadcast = .done

/-- The participant `p` is away, with a record but without a messenger, and the multicast `msg` is
new. What is in the log, and the disconnection of `p`, is older than the race. -/
structure Ready (p : Participant) (msg : Message) (s : Race) : Prop where
  consistent : s.participants.Consistent
  known : ∃ record, s.participants.idToParticipant p.id = some record
  alone : ∀ m ∈ s.messengers, m.participant.id ≠ p.id
  away : p.disconnectTime < s.time
  entries : ∀ e ∈ s.msgLog.entries, e.timestamp < s.time ∧ e.number ≠ msg.number
  reconnect : s.reconnect = .reconnecting
  broadcast : s.broadcast = .starting
  sent : s.sent = []

/-- The messengers of the participant among some. -/
def messengersFor (id : UInt32) (messengers : List Messenger) : ℕ :=
  messengers.countP fun m => m.participant.id = id

/-- The copies of the multicast among some messages. -/
def copies (number : ℕ) (msgs : List Message) : ℕ := msgs.countP fun e => e.number = number

/-- **The account** of a race that began at the time `begun`: what has been sent to `p`, with what
the walk and the replay have still to send to it. -/
structure Accounts (p : Participant) (msg : Message) (begun td : ℤ) (ahead inTime : Bool)
    (s : Race) : Prop where
  consistent : s.participants.Consistent
  known : ∃ record, s.participants.idToParticipant p.id = some record
  connected : 1 ≤ s.reconnect.phase → s.participants.isConnectedId p.id = true
  alone : s.reconnect.phase ≤ 1 → messengersFor p.id s.messengers = 0 ∧ ahead = false
  one : messengersFor p.id s.messengers ≤ 1
  early : s.reconnect.phase ≤ 3 → inTime = false
  begun_le : begun ≤ s.time
  clock : ∀ now, s.reconnect = .taking now → now ≤ s.time
  td_eq : s.msgLog.td = td
  message : (s.broadcast.message msg).number = msg.number
  entries : ∀ e ∈ s.msgLog.entries,
    e.number ≠ msg.number ∧ e.timestamp < begun ∨ e.number = msg.number ∧ begun ≤ e.timestamp
  loggedOnce : copies msg.number s.msgLog.entries ≤ 1
  notLogged : s.broadcast.isLogged = false → copies msg.number s.msgLog.entries = 0
  account : s.sends p.id msg.number +
      messengersFor p.id (s.broadcast.remaining s.messengers) +
        copies msg.number s.reconnect.toReplay = ahead.toNat + inTime.toNat

variable {p : Participant} {msg : Message} {begun td : ℤ} {ahead inTime : Bool} {s s' : Race}

theorem Ready.accounts (h : s.Ready p msg) : s.Accounts p msg s.time s.msgLog.td false false := by
  have halone : messengersFor p.id s.messengers = 0 :=
    List.countP_eq_zero.mpr fun m hm hid => h.alone m hm (of_decide_eq_true hid)
  have hcopies : copies msg.number s.msgLog.entries = 0 :=
    List.countP_eq_zero.mpr fun e he hn => (h.entries e he).2 (of_decide_eq_true hn)
  refine ⟨h.consistent, h.known, ?_, fun _ => ⟨halone, rfl⟩, ?_, fun _ => rfl, Int.le_refl _, ?_,
    rfl, ?_, ?_, ?_, fun _ => hcopies, ?_⟩
  · rw [h.reconnect]
    exact fun hphase => absurd hphase (by decide)
  · rw [halone]
    exact Nat.zero_le 1
  · rw [h.reconnect]
    exact fun now hnow => nomatch hnow
  · rw [h.broadcast]
    rfl
  · exact fun e he => .inl ⟨(h.entries e he).2, (h.entries e he).1⟩
  · rw [hcopies]
    exact Nat.zero_le 1
  · rw [sends, h.sent, h.broadcast, h.reconnect]
    exact (Nat.add_zero _).trans ((Nat.zero_add _).trans halone)

/-! ### The handler of the reconnection -/

theorem messengersFor_append (id : UInt32) (messengers : List Messenger) (q : Participant) :
    messengersFor id (messengers ++ [⟨q⟩]) =
      messengersFor id messengers + if q.id = id then 1 else 0 := by
  rw [messengersFor, List.countP_append, List.countP_singleton]
  by_cases h : q.id = id <;> simp [h, messengersFor]

theorem messengersFor_perm {id : UInt32} {order messengers : List Messenger}
    (h : order.Perm messengers) : messengersFor id order = messengersFor id messengers :=
  h.countP_eq _

theorem remaining_sublist (messengers : List Messenger) (pc : BroadcastPc) :
    (pc.remaining messengers).Sublist messengers := by
  cases pc with
  | starting => exact List.Sublist.refl _
  | done => exact List.nil_sublist _
  | checking it | sending it => exact List.drop_sublist it messengers
  | logging it | advancing it => exact List.drop_sublist (it + 1) messengers

/-- The new messenger is the only one of its participant, so that the walk has one of the
participant before it exactly when it has the new one. -/
theorem messengersFor_added {order messengers : List Messenger} (pc : BroadcastPc)
    (halone : messengersFor p.id messengers = 0) (hperm : order.Perm (messengers ++ [⟨p⟩])) :
    messengersFor p.id (pc.remaining order) = (decide (⟨p⟩ ∈ pc.remaining order)).toNat := by
  have hone : messengersFor p.id order = 1 := by
    rw [messengersFor_perm hperm, messengersFor_append, halone, if_pos rfl]
  have hle : messengersFor p.id (pc.remaining order) ≤ 1 :=
    hone ▸ (remaining_sublist order pc).countP_le
  by_cases hmem : (⟨p⟩ : Messenger) ∈ pc.remaining order
  · have hpos : 0 < messengersFor p.id (pc.remaining order) :=
      List.countP_pos_iff.mpr ⟨⟨p⟩, hmem, decide_eq_true rfl⟩
    rw [decide_eq_true hmem]
    exact Nat.le_antisymm hle hpos
  · rw [decide_eq_false hmem]
    refine List.countP_eq_zero.mpr fun m hm hid => ?_
    have horder := hperm.mem_iff.mp ((remaining_sublist order pc).subset hm)
    rcases List.mem_append.mp horder with hold | hnew
    · exact List.countP_eq_zero.mp halone m hold hid
    · obtain rfl := List.mem_singleton.mp hnew
      exact hmem hm

@[simp] theorem message_moveTo (it : ℕ) (msg : Message) (pc : BroadcastPc) :
    (pc.moveTo it).message msg = pc.message msg := by
  cases pc <;> rfl

@[simp] theorem isLogged_moveTo (it : ℕ) (pc : BroadcastPc) :
    (pc.moveTo it).isLogged = pc.isLogged := by
  cases pc <;> rfl

/-- Before there is a messenger, the walk will not reach the participant. -/
theorem Accounts.remaining_eq_zero (h : s.Accounts p msg begun td ahead inTime)
    (hphase : s.reconnect.phase ≤ 1) :
    messengersFor p.id (s.broadcast.remaining s.messengers) = 0 := by
  have hle : messengersFor p.id (s.broadcast.remaining s.messengers) ≤
      messengersFor p.id s.messengers := (remaining_sublist _ _).countP_le
  rw [(h.alone hphase).1] at hle
  exact Nat.le_zero.mp hle

/-- **What a replay has of the multicast**: one copy, if the log has it. -/
theorem Accounts.copies_missed (h : s.Accounts p msg begun td ahead inTime)
    (haway : p.disconnectTime < begun) (htd : s.time - begun ≤ td) {reconnectionTime : ℤ}
    (htaking : s.reconnect = .taking reconnectionTime) (order : IterationOrder Message) :
    copies msg.number (order.enumerate
      (s.msgLog.getMissedMessages p.disconnectTime reconnectionTime).elements) =
        (s.msgLog.entries.any fun e => e.number = msg.number).toNat := by
  have hclock := h.clock reconnectionTime htaking
  -- every copy in the log is in the window
  have hwindow : ∀ e ∈ s.msgLog.entries, e.number = msg.number →
      s.msgLog.missed p.disconnectTime reconnectionTime e = true := by
    intro e he hn
    rcases h.entries e he with ⟨hne, -⟩ | ⟨-, hle⟩
    · exact absurd hn hne
    · rw [MessageLog.missed, h.td_eq, Bool.and_eq_true, decide_eq_true_iff, decide_eq_true_iff]
      omega
  have hcopies : copies msg.number (order.enumerate
      (s.msgLog.getMissedMessages p.disconnectTime reconnectionTime).elements) =
        copies msg.number s.msgLog.entries := by
    rw [copies, (order.perm _).countP_eq, copies]
    show List.countP _ (List.filter _ s.msgLog.entries) = _
    rw [List.countP_filter]
    refine List.countP_congr fun e he => ?_
    rw [Bool.and_eq_true, decide_eq_true_iff]
    exact ⟨fun h => h.1, fun hn => ⟨hn, hwindow e he hn⟩⟩
  rw [hcopies]
  cases hany : s.msgLog.entries.any fun e => e.number = msg.number with
  | true =>
      obtain ⟨e, he, hn⟩ := List.any_eq_true.mp hany
      exact Nat.le_antisymm h.loggedOnce (List.countP_pos_iff.mpr ⟨e, he, hn⟩)
  | false =>
      refine List.countP_eq_zero.mpr fun e he hn => ?_
      exact List.any_eq_false.mp hany e he hn

theorem sends_append (s : Race) (m : Messenger) (e : Message) (id : UInt32) (number : ℕ) :
    (s.sent ++ [(m, e)]).countP (fun e => e.1.participant.id = id ∧ e.2.number = number) =
      s.sends id number + if m.participant.id = id ∧ e.number = number then 1 else 0 := by
  rw [List.countP_append, List.countP_singleton, sends]
  by_cases h : m.participant.id = id ∧ e.number = number <;> simp [h]

/-- The participant is connected. -/
theorem Accounts.reconnected (h : s.Accounts p msg begun td ahead inTime)
    (hpc : s.reconnect = .reconnecting) :
    Accounts p msg begun td ahead inTime { s with
      participants := (s.participants.reconnectParticipant p).2
      reconnect := .adding } := by
  obtain ⟨record, hrecord⟩ := h.known
  have halone := h.alone (by rw [hpc]; exact Nat.zero_le 1)
  have haccount := h.account
  rw [hpc] at haccount
  refine { h with
    consistent := h.consistent.reconnectParticipant
    known := ⟨{ record with connected := true }, ?_⟩
    connected := fun _ => ?_
    alone := fun _ => halone
    early := fun _ => h.early (by rw [hpc]; exact Nat.zero_le 3)
    clock := fun _ hnow => nomatch hnow
    account := haccount }
  · rw [ParticipantManager.reconnectParticipant_of_known hrecord, Function.update_self]
  · rw [h.consistent.isConnectedId_reconnectParticipant hrecord, decide_eq_true rfl, Bool.true_or]

/-- The messenger is added. -/
theorem Accounts.added (h : s.Accounts p msg begun td ahead inTime)
    (hpc : s.reconnect = .adding) {order : List Messenger} {it : ℕ}
    (hrearranged : s.Rearranged ⟨p⟩ order it) :
    Accounts p msg begun td (decide (⟨p⟩ ∈ (s.broadcast.moveTo it).remaining order)) inTime
      { s with
        messengers := order
        broadcast := s.broadcast.moveTo it
        reconnect := .reading } := by
  have hphase : s.reconnect.phase ≤ 1 := by rw [hpc]; exact Nat.le_refl 1
  obtain ⟨halone, hahead⟩ := h.alone hphase
  have haccount := h.account
  rw [h.remaining_eq_zero hphase, hahead, hpc] at haccount
  refine { h with
    connected := fun _ => h.connected (by rw [hpc]; exact Nat.le_refl 1)
    alone := fun hle => absurd hle (by simp [ReconnectPc.phase])
    one := ?_
    early := fun _ => h.early (by simp [hpc, ReconnectPc.phase])
    clock := fun _ hnow => nomatch hnow
    message := (congrArg Message.number (message_moveTo it msg s.broadcast)).trans h.message
    notLogged := fun hnot => h.notLogged ((isLogged_moveTo it s.broadcast).symm.trans hnot)
    account := ?_ }
  · rw [messengersFor_perm hrearranged.1, messengersFor_append, halone, if_pos rfl]
  · rw [messengersFor_added _ halone hrearranged.1]
    show s.sends p.id msg.number +
      (decide (⟨p⟩ ∈ (s.broadcast.moveTo it).remaining order)).toNat + 0 = _
    replace haccount : s.sends p.id msg.number + 0 + 0 = 0 + inTime.toNat := haccount
    omega

/-- The clock is read. -/
theorem Accounts.read (h : s.Accounts p msg begun td ahead inTime)
    (hpc : s.reconnect = .reading) {now : ℤ} (hnow : s.time ≤ now) :
    Accounts p msg begun td ahead inTime
      { s with time := now, reconnect := .taking now } := by
  have haccount := h.account
  rw [hpc] at haccount
  exact { h with
    connected := fun _ => h.connected (by simp [hpc, ReconnectPc.phase])
    alone := fun hle => absurd hle (by simp [ReconnectPc.phase])
    early := fun _ => h.early (by simp [hpc, ReconnectPc.phase])
    begun_le := Int.le_trans h.begun_le hnow
    clock := fun _ heq => Int.le_of_eq (ReconnectPc.taking.inj heq).symm
    account := haccount }

/-- The missed messages are taken. -/
theorem Accounts.taken (h : s.Accounts p msg begun td ahead inTime)
    (haway : p.disconnectTime < begun) (htd : s.time - begun ≤ td) {reconnectionTime : ℤ}
    (hpc : s.reconnect = .taking reconnectionTime) (order : IterationOrder Message) :
    Accounts p msg begun td ahead (s.msgLog.entries.any fun e => e.number = msg.number)
      { s with reconnect := .replaying (order.enumerate
        (s.msgLog.getMissedMessages p.disconnectTime reconnectionTime).elements) } := by
  have haccount := h.account
  rw [hpc, h.early (by rw [hpc]; exact Nat.le_refl 3)] at haccount
  refine { h with
    connected := fun _ => h.connected (by simp [hpc, ReconnectPc.phase])
    alone := fun hle => absurd hle (by simp [ReconnectPc.phase])
    early := fun hle => absurd hle (by simp [ReconnectPc.phase])
    clock := fun _ heq => nomatch heq
    account := ?_ }
  have hcopies := h.copies_missed haway htd hpc order
  show s.sends p.id msg.number + _ + copies msg.number (order.enumerate _) = _
  rw [hcopies]
  exact congrArg (· + _) haccount

/-- A missed message is sent. -/
theorem Accounts.replayed (h : s.Accounts p msg begun td ahead inTime) {e : Message}
    {msgs : List Message} (hpc : s.reconnect = .replaying (e :: msgs)) :
    Accounts p msg begun td ahead inTime
      { s with sent := s.sent ++ [(⟨p⟩, e)], reconnect := .replaying msgs } := by
  have haccount := h.account
  rw [hpc, ReconnectPc.toReplay, copies, List.countP_cons] at haccount
  refine { h with
    connected := fun _ => h.connected (by simp [hpc, ReconnectPc.phase])
    alone := fun hle => absurd hle (by simp [ReconnectPc.phase])
    early := fun hle => absurd hle (by simp [ReconnectPc.phase])
    clock := fun _ heq => nomatch heq
    account := ?_ }
  rw [sends, sends_append]
  show _ + _ + copies msg.number msgs = _
  rw [copies]
  by_cases hn : e.number = msg.number
  · simp [hn] at haccount ⊢
    omega
  · simp [hn] at haccount ⊢
    omega

/-- The replay ends. -/
theorem Accounts.replayedAll (h : s.Accounts p msg begun td ahead inTime)
    (hpc : s.reconnect = .replaying []) :
    Accounts p msg begun td ahead inTime { s with reconnect := .done } := by
  have haccount := h.account
  rw [hpc] at haccount
  exact { h with
    connected := fun _ => h.connected (by simp [hpc, ReconnectPc.phase])
    alone := fun hle => absurd hle (by simp [ReconnectPc.phase])
    early := fun hle => absurd hle (by simp [ReconnectPc.phase])
    clock := fun _ heq => nomatch heq
    account := haccount }

/-! ### The walk of the multicast -/

/-- The walk goes on without having passed a messenger of the participant. -/
theorem Accounts.walk (h : s.Accounts p msg begun td ahead inTime) {pc : BroadcastPc}
    (hmessage : (pc.message msg).number = msg.number)
    (hlogged : pc.isLogged = false → s.broadcast.isLogged = false)
    (hrest : messengersFor p.id (pc.remaining s.messengers) =
      messengersFor p.id (s.broadcast.remaining s.messengers)) :
    Accounts p msg begun td ahead inTime { s with broadcast := pc } :=
  { h with
    message := hmessage
    notLogged := fun hnot => h.notLogged (hlogged hnot)
    account := by
      show s.sends p.id msg.number + messengersFor p.id (pc.remaining s.messengers) + _ = _
      rw [hrest]
      exact h.account }

/-- The messengers from the iterator on are the one at the iterator and those behind it. -/
theorem messengersFor_drop (id : UInt32) {messengers : List Messenger} {it : ℕ} {m : Messenger}
    (hm : messengers[it]? = some m) :
    messengersFor id (messengers.drop it) =
      messengersFor id (messengers.drop (it + 1)) + if m.participant.id = id then 1 else 0 := by
  obtain ⟨hlt, rfl⟩ := List.getElem?_eq_some_iff.mp hm
  rw [List.drop_eq_getElem_cons hlt, messengersFor, List.countP_cons, messengersFor]
  by_cases h : messengers[it].participant.id = id <;> simp [h]

/-- A messenger of the participant finds it connected. -/
theorem Accounts.not_skipped (h : s.Accounts p msg begun td ahead inTime) {it : ℕ}
    {m : Messenger} (hm : s.messengers[it]? = some m)
    (hskip : ¬s.participants.isConnected m.participant = true) : m.participant.id ≠ p.id := by
  intro hid
  have hpos : 0 < messengersFor p.id s.messengers :=
    List.countP_pos_iff.mpr ⟨m, List.mem_of_getElem? hm, decide_eq_true hid⟩
  have hphase : 1 ≤ s.reconnect.phase := by
    by_contra hlt
    have hnone := (h.alone (by omega)).1
    omega
  refine hskip ?_
  rw [ParticipantManager.isConnected, hid]
  exact h.connected hphase

/-- A messenger sends the message. -/
theorem Accounts.sentLive (h : s.Accounts p msg begun td ahead inTime) {it : ℕ} {logged : Bool}
    {e : Message} {m : Messenger} (hpc : s.broadcast = .sending it logged e)
    (hm : s.messengers[it]? = some m) :
    Accounts p msg begun td ahead inTime { s with
      sent := s.sent ++ [(m, e)]
      broadcast := if logged then .advancing it true e else .logging it e } := by
  have hmessage := h.message
  have hnotLogged := h.notLogged
  have haccount := h.account
  rw [hpc] at hmessage hnotLogged haccount
  have hrest : (if logged then BroadcastPc.advancing it true e else .logging it e).remaining
      s.messengers = s.messengers.drop (it + 1) := by
    cases logged <;> rfl
  refine { h with
    message := ?_
    notLogged := ?_
    account := ?_ }
  · cases logged <;> exact hmessage
  · cases logged with
    | true => exact fun hnot => nomatch hnot
    | false => exact fun _ => hnotLogged rfl
  · rw [sends, sends_append]
    show _ + _ + messengersFor p.id (BroadcastPc.remaining s.messengers (if logged then _ else _)) +
      _ = _
    replace hmessage : e.number = msg.number := hmessage
    rw [BroadcastPc.remaining, messengersFor_drop p.id hm] at haccount
    rw [hrest]
    simp only [hmessage, and_true]
    omega

/-- The message is logged. -/
theorem Accounts.logged (h : s.Accounts p msg begun td ahead inTime) {it : ℕ} {e : Message}
    (hpc : s.broadcast = .logging it e) {now : ℤ} (hnow : s.time ≤ now) :
    Accounts p msg begun td ahead inTime { s with
      msgLog := s.msgLog.insert { e with timestamp := now }
      time := now
      broadcast := .advancing it true { e with timestamp := now } } := by
  have hmessage : e.number = msg.number := by
    have hmessage := h.message
    rw [hpc] at hmessage
    exact hmessage
  have hnone : copies msg.number s.msgLog.entries = 0 := h.notLogged (by rw [hpc]; rfl)
  have hentries : (s.msgLog.insert { e with timestamp := now }).entries =
      s.msgLog.entries ++ [{ e with timestamp := now }] := by
    refine MessageLog.entries_insert_of_new fun e' he' heq => ?_
    have hbegun := h.begun_le
    rcases h.entries e' he' with ⟨-, hold⟩ | ⟨hcopy, -⟩
    · replace heq : e'.timestamp = now := heq
      omega
    · exact List.countP_eq_zero.mp hnone e' he' (decide_eq_true hcopy)
  have haccount := h.account
  rw [hpc] at haccount
  refine { h with
    begun_le := Int.le_trans h.begun_le hnow
    clock := fun t ht => Int.le_trans (h.clock t ht) hnow
    message := hmessage
    entries := ?_
    loggedOnce := ?_
    notLogged := fun hnot => nomatch hnot
    account := haccount }
  · rw [hentries]
    intro e' he'
    rcases List.mem_append.mp he' with he' | he'
    · exact h.entries e' he'
    · obtain rfl := List.mem_singleton.mp he'
      exact .inr ⟨hmessage, Int.le_trans h.begun_le hnow⟩
  · rw [hentries, copies, List.countP_append, ← copies, hnone, Nat.zero_add]
    exact List.countP_le_length

/-! ### Runs -/

/-- **Every step keeps the account**, as long as the race is not longer than the threshold. -/
theorem Accounts.step (h : s.Accounts p msg begun td ahead inTime)
    (haway : p.disconnectTime < begun) (htd : s.time - begun ≤ td) {a : RaceStep}
    (hs : s.step p msg a = some s') :
    s'.Accounts p msg begun td (ahead || s.addedAhead p a) (inTime || s.loggedInTime msg a) := by
  cases a with
  | reconnect now order it replayOrder =>
      rw [Race.step, stepReconnect] at hs
      rw [addedAhead, loggedInTime]
      split at hs
      · next hpc =>
          obtain rfl := Option.some.inj hs
          simpa [hpc, ReconnectPc.phase] using h.reconnected hpc
      · next hpc =>
          split at hs
          · next hrearranged =>
              obtain rfl := Option.some.inj hs
              have hahead := (h.alone (by simp [hpc, ReconnectPc.phase])).2
              simpa [hpc, hahead, ReconnectPc.phase] using h.added hpc hrearranged
          · cases hs
      · next hpc =>
          split at hs
          · next hnow =>
              obtain rfl := Option.some.inj hs
              simpa [hpc, ReconnectPc.phase] using h.read hpc hnow
          · cases hs
      · next hpc =>
          obtain rfl := Option.some.inj hs
          have hearly := h.early (by simp [hpc, ReconnectPc.phase])
          simpa [hpc, hearly, ReconnectPc.phase] using h.taken haway htd hpc replayOrder
      · next hpc =>
          obtain rfl := Option.some.inj hs
          simpa [hpc, ReconnectPc.phase] using h.replayedAll hpc
      · next hpc =>
          obtain rfl := Option.some.inj hs
          simpa [hpc, ReconnectPc.phase] using h.replayed hpc
      · cases hs
  | broadcast now =>
      rw [Race.step, stepBroadcast] at hs
      rw [addedAhead, loggedInTime, Bool.or_false, Bool.or_false]
      have hmessage := h.message
      split at hs
      · next hpc =>
          obtain rfl := Option.some.inj hs
          refine h.walk rfl (fun _ => by rw [hpc]; rfl) ?_
          rw [hpc]
          rfl
      · next it logged e hpc =>
          rw [hpc] at hmessage
          split at hs
          · next hend =>
              obtain rfl := Option.some.inj hs
              refine h.walk rfl (fun hnot => nomatch hnot) ?_
              rw [hpc, BroadcastPc.remaining, BroadcastPc.remaining,
                List.drop_eq_nil_of_le (List.getElem?_eq_none_iff.mp hend)]
          · next m hm =>
              split at hs
              · obtain rfl := Option.some.inj hs
                refine h.walk hmessage (fun hnot => by rw [hpc]; exact hnot) ?_
                rw [hpc]
                rfl
              · next hskip =>
                  obtain rfl := Option.some.inj hs
                  refine h.walk hmessage (fun hnot => by rw [hpc]; exact hnot) ?_
                  rw [hpc, BroadcastPc.remaining, BroadcastPc.remaining,
                    messengersFor_drop p.id hm, if_neg (h.not_skipped hm hskip)]
                  exact (Nat.add_zero _).symm
      · next it logged e hpc =>
          split at hs
          · cases hs
          · next m hm =>
              obtain rfl := Option.some.inj hs
              exact h.sentLive hpc hm
      · next it e hpc =>
          split at hs
          · next hnow =>
              obtain rfl := Option.some.inj hs
              exact h.logged hpc hnow
          · cases hs
      · next it logged e hpc =>
          rw [hpc] at hmessage
          obtain rfl := Option.some.inj hs
          refine h.walk hmessage (fun hnot => by rw [hpc]; exact hnot) ?_
          rw [hpc]
          rfl
      · cases hs

/-- The clock runs on. -/
theorem step_time {a : RaceStep} (hs : s.step p msg a = some s') : s.time ≤ s'.time := by
  cases a with
  | reconnect now order it replayOrder =>
      rw [step, stepReconnect] at hs
      split at hs
      · obtain rfl := Option.some.inj hs
        exact Int.le_refl _
      · split at hs
        · obtain rfl := Option.some.inj hs
          exact Int.le_refl _
        · cases hs
      · split at hs
        · next hnow =>
            obtain rfl := Option.some.inj hs
            exact hnow
        · cases hs
      · obtain rfl := Option.some.inj hs
        exact Int.le_refl _
      · obtain rfl := Option.some.inj hs
        exact Int.le_refl _
      · obtain rfl := Option.some.inj hs
        exact Int.le_refl _
      · cases hs
  | broadcast now =>
      rw [step, stepBroadcast] at hs
      split at hs
      · obtain rfl := Option.some.inj hs
        exact Int.le_refl _
      · split at hs
        · obtain rfl := Option.some.inj hs
          exact Int.le_refl _
        · split at hs <;>
            · obtain rfl := Option.some.inj hs
              exact Int.le_refl _
      · split at hs
        · cases hs
        · obtain rfl := Option.some.inj hs
          exact Int.le_refl _
      · split at hs
        · next hnow =>
            obtain rfl := Option.some.inj hs
            exact hnow
        · cases hs
      · obtain rfl := Option.some.inj hs
        exact Int.le_refl _
      · cases hs

/-- **How often the multicast is sent**: once for each of the two ways that it goes. -/
theorem Ready.sends_eq {start : Race} (hready : start.Ready p msg) {as : List RaceStep}
    (hrun : runFrom (Race.step p msg) start as = some s) (hcomplete : s.Complete)
    (htd : s.time - start.time ≤ start.msgLog.td) :
    s.sends p.id msg.number =
      (decide (SomeStep (Race.step p msg) (fun m a => m.addedAhead p a = true) start as)).toNat +
        (decide (SomeStep (Race.step p msg) (fun m a => m.loggedInTime msg a = true) start
          as)).toNat := by
  have hinv := history_inv (fun pre m => m.time - start.time ≤ start.msgLog.td →
    m.Accounts p msg start.time start.msgLog.td
      (decide (SomeStep (Race.step p msg) (fun m a => m.addedAhead p a = true) start pre))
      (decide (SomeStep (Race.step p msg) (fun m a => m.loggedInTime msg a = true) start pre)))
    ?_ ?_ hrun htd
  · have haccount := hinv.account
    rw [hcomplete.1, hcomplete.2] at haccount
    exact haccount
  · intro _
    rw [decide_eq_false (not_someStep_nil start), decide_eq_false (not_someStep_nil start)]
    exact hready.accounts
  · intro pre m a m' hm ih hstep htd'
    have hle : m.time - start.time ≤ start.msgLog.td := by
      have htime := step_time hstep
      omega
    have hnext := (ih hle).step hready.away hle hstep
    rw [decide_someStep_concat hm, decide_someStep_concat hm]
    exact hnext

end Race

/-- Between requests, the coordinator is ready for the race of a participant that is away. -/
theorem Coordinator.Timed.ready {c : Coordinator} {id : UInt32} {record : Participant} {time : ℤ}
    (h : c.Timed) (hmatched : c.Matched) (hrecord : c.participants.idToParticipant id = some record)
    (haway : c.connected id = false) (htime : ∀ t ∈ readings c.trace, t < time)
    (order : IterationOrder Messenger) (sockFd : ℤ) (message : String) (sender : UInt32) :
    Race.Ready { record with sockFd } (c.multicastOf message sender)
      { participants := c.participants
        messengers := order.enumerate c.messengers
        msgLog := c.msgLog
        time } where
  consistent := h.sound.consistent
  known := ⟨record, by rw [← hrecord, h.sound.consistent.key id record hrecord]⟩
  alone m hm hid := by
    have hnone : c.messengersOf id = 0 := by
      rw [hmatched id, haway]
      rfl
    refine List.count_eq_zero.mp hnone (List.mem_map.mpr ⟨m, ?_, ?_⟩)
    · exact (order.mem_enumerate c.messengers m).mp hm
    · exact hid.trans (h.sound.consistent.key id record hrecord)
  away := htime _ (h.records id record hrecord)
  entries e he :=
    ⟨htime _ (h.entries e he).1, Nat.ne_of_lt (h.entries e he).2⟩
  reconnect := rfl
  broadcast := rfl
  sent := rfl

/-- **A reconnection and a multicast at the same time.** In every order of their steps that handles
both, and within the threshold, the multicast is sent to the participant exactly once exactly when
either the walk has the new messenger before it when it is added, or the log has the multicast when
the missed messages are taken, and not both. -/
theorem reconnect_race_iff (p : Participant) (msg : Message) (start : Race) (as : List RaceStep)
    {s : Race} (hready : start.Ready p msg)
    (hrun : runFrom (Race.step p msg) start as = some s) (hcomplete : s.Complete)
    (htd : s.time - start.time ≤ start.msgLog.td) :
    s.sends p.id msg.number = 1 ↔
      (SomeStep (Race.step p msg) (fun m a => m.addedAhead p a = true) start as ↔
        ¬SomeStep (Race.step p msg) (fun m a => m.loggedInTime msg a = true) start as) := by
  rw [hready.sends_eq hrun hcomplete htd]
  by_cases hahead : SomeStep (Race.step p msg) (fun m a => m.addedAhead p a = true) start as <;>
    by_cases htime : SomeStep (Race.step p msg) (fun m a => m.loggedInTime msg a = true) start
      as <;> simp [hahead, htime]

/-- The reconnection first, and then the multicast. -/
theorem reconnect_race_iff_apart :
    ∃ p msg start as s, Race.Ready p msg start ∧ runFrom (Race.step p msg) start as = some s ∧
      s.Complete ∧
        (s.sends p.id msg.number = 1 ↔
          (SomeStep (Race.step p msg) (fun m a => m.addedAhead p a = true) start as ↔
            ¬SomeStep (Race.step p msg) (fun m a => m.loggedInTime msg a = true) start as)) := by
  have hready : Race.Ready ⟨2, 9, 5001, "127.0.0.1", false, 5⟩ ⟨"hello", 0, 2, 0⟩
      { participants := (({} : ParticipantManager).registerParticipant
          ⟨2, 6, 5001, "127.0.0.1", true, 1⟩)
        messengers := [], msgLog := { td := 100 }, time := 10 } :=
    { consistent := ParticipantManager.consistent_empty.registerParticipant
      known := ⟨_, rfl⟩
      alone := fun m hm => absurd hm List.not_mem_nil
      away := by decide
      entries := fun e he => absurd he List.not_mem_nil
      reconnect := rfl, broadcast := rfl, sent := rfl }
  refine ⟨_, _, _, [.reconnect 0 [] 0 (.ofInsertion Message),
    .reconnect 0 [⟨⟨2, 9, 5001, "127.0.0.1", false, 5⟩⟩] 0 (.ofInsertion Message),
    .reconnect 11 [] 0 (.ofInsertion Message), .reconnect 0 [] 0 (.ofInsertion Message),
    .reconnect 0 [] 0 (.ofInsertion Message), .broadcast 0, .broadcast 0, .broadcast 0,
    .broadcast 12, .broadcast 0, .broadcast 0], _, hready, rfl, ⟨rfl, rfl⟩, ?_⟩
  exact reconnect_race_iff _ _ _ _ hready rfl ⟨rfl, rfl⟩ (by decide)

/-- The walk has sent to participant 1 when participant 2 comes back. When the new messenger comes
to stand behind the iterator, and the log gets the multicast after the missed messages were taken,
the multicast is lost; when it comes to stand ahead of the iterator, and the multicast is logged
before, it is sent twice. -/
theorem reconnect_race_loses_and_repeats :
    ∃ p msg start, Race.Ready p msg start ∧
      (∃ as s, runFrom (Race.step p msg) start as = some s ∧ s.Complete ∧
        s.time - start.time ≤ start.msgLog.td ∧ s.sends p.id msg.number = 0) ∧
      ∃ as s, runFrom (Race.step p msg) start as = some s ∧ s.Complete ∧
        s.time - start.time ≤ start.msgLog.td ∧ s.sends p.id msg.number = 2 := by
  have hready : Race.Ready ⟨2, 9, 5001, "127.0.0.1", false, 5⟩ ⟨"hello", 0, 1, 0⟩
      { participants := ((({} : ParticipantManager).registerParticipant
          ⟨1, 6, 5000, "127.0.0.1", true, 1⟩).registerParticipant
            ⟨2, 7, 5001, "127.0.0.1", true, 2⟩).disconnectParticipant
              ⟨2, 7, 5001, "127.0.0.1", true, 2⟩ 5 |>.2
        messengers := [⟨⟨1, 6, 5000, "127.0.0.1", true, 1⟩⟩], msgLog := { td := 100 }
        time := 10 } :=
    { consistent := ParticipantManager.consistent_empty.registerParticipant.registerParticipant
        |>.disconnectParticipant
      known := ⟨_, rfl⟩
      alone := by simp
      away := by decide
      entries := fun e he => absurd he List.not_mem_nil
      reconnect := rfl, broadcast := rfl, sent := rfl }
  refine ⟨_, _, _, hready, ⟨[.broadcast 0, .broadcast 0, .broadcast 0,
    .reconnect 0 [] 0 (.ofInsertion Message),
    .reconnect 0 [⟨⟨2, 9, 5001, "127.0.0.1", false, 5⟩⟩, ⟨⟨1, 6, 5000, "127.0.0.1", true, 1⟩⟩] 1
      (.ofInsertion Message), .reconnect 11 [] 0 (.ofInsertion Message),
    .reconnect 0 [] 0 (.ofInsertion Message), .reconnect 0 [] 0 (.ofInsertion Message),
    .broadcast 12, .broadcast 0, .broadcast 0], _, rfl, ⟨rfl, rfl⟩, by decide, by decide⟩,
    [.broadcast 0, .broadcast 0, .broadcast 0, .broadcast 11,
    .reconnect 0 [] 0 (.ofInsertion Message),
    .reconnect 0 [⟨⟨1, 6, 5000, "127.0.0.1", true, 1⟩⟩, ⟨⟨2, 9, 5001, "127.0.0.1", false, 5⟩⟩] 0
      (.ofInsertion Message), .reconnect 12 [] 0 (.ofInsertion Message),
    .reconnect 0 [] 0 (.ofInsertion Message), .reconnect 0 [] 0 (.ofInsertion Message),
    .reconnect 0 [] 0 (.ofInsertion Message), .broadcast 0, .broadcast 0, .broadcast 0,
    .broadcast 0, .broadcast 0], _, rfl, ⟨rfl, rfl⟩, by decide, by decide⟩

end Csci6780.PubSub
