import Csci6780.Lib.Unordered
import Mathlib.Order.Basic

/-!
# The Coordinator's Message Log

This module embeds `coordinator::MessageLog`: the multicasts that the coordinator has broadcast,
and those among them that a reconnecting participant has missed.

Times are readings of one steady clock, as integers. Beside the fields of the source, a message
has a `number`: which of the coordinator's multicasts it is. No function of the source reads it;
it says which messages are the same multicast.

## Main results

* `MessageLog.mem_getMissedMessages`: the window of the missed messages.
* `MessageLog.mem_insert_of_new`: a message with a new timestamp gets into the log.
-/

namespace Csci6780.PubSub

/-- `MessageLog::Message`, with the number of the multicast. -/
structure Message where
  msg : String
  timestamp : ℤ := 0
  participantId : UInt32
  number : ℕ
  deriving DecidableEq, Repr

/-- What `Message::operator==` compares. -/
def Message.key (m : Message) : ℤ × String × UInt32 := (m.timestamp, m.msg, m.participantId)

/-- `MessageLog`: the messages and the reconnection time threshold `td_`. -/
structure MessageLog where
  coordinatorMessages : UnorderedSet Message.key := .empty
  td : ℤ

namespace MessageLog

/-- `MessageLog::Insert`. -/
def insert (log : MessageLog) (msg : Message) : MessageLog :=
  { log with coordinatorMessages := log.coordinatorMessages.insert msg }

/-- The test in the loop of `MessageLog::GetMissedMessages`. -/
def missed (log : MessageLog) (disconnectionTime reconnectionTime : ℤ) (msg : Message) : Bool :=
  msg.timestamp > disconnectionTime && reconnectionTime - msg.timestamp ≤ log.td

/-- `MessageLog::GetMissedMessages`. -/
def getMissedMessages (log : MessageLog) (disconnectionTime reconnectionTime : ℤ) :
    UnorderedSet Message.key :=
  log.coordinatorMessages.filter (log.missed disconnectionTime reconnectionTime)

/-- The messages in the log. -/
def entries (log : MessageLog) : List Message := log.coordinatorMessages.elements

theorem mem_getMissedMessages (log : MessageLog) (d r : ℤ) (m : Message) :
    m ∈ (log.getMissedMessages d r).elements ↔
      m ∈ log.entries ∧ d < m.timestamp ∧ r - m.timestamp ≤ log.td := by
  rw [getMissedMessages, UnorderedSet.mem_filter, missed, Bool.and_eq_true,
    decide_eq_true_iff, decide_eq_true_iff]
  rfl

theorem mem_of_mem_insert {log : MessageLog} {m m' : Message}
    (h : m' ∈ (log.insert m).entries) : m' ∈ log.entries ∨ m' = m :=
  UnorderedSet.mem_of_mem_insert h

theorem mem_insert_of_mem {log : MessageLog} {m m' : Message} (h : m' ∈ log.entries) :
    m' ∈ (log.insert m).entries :=
  UnorderedSet.mem_insert_of_mem h

/-- A message with a timestamp that no entry has is put behind the others. -/
theorem entries_insert_of_new {log : MessageLog} {m : Message}
    (h : ∀ m' ∈ log.entries, m'.timestamp ≠ m.timestamp) :
    (log.insert m).entries = log.entries ++ [m] := by
  refine UnorderedSet.elements_insert (Bool.eq_false_iff.mpr fun hc => ?_)
  obtain ⟨m', hm', hkey⟩ := (UnorderedSet.contains_iff _ _).mp hc
  exact h m' hm' (congrArg Prod.fst hkey)

theorem mem_insert_of_new {log : MessageLog} {m : Message}
    (h : ∀ m' ∈ log.entries, m'.timestamp ≠ m.timestamp) : m ∈ (log.insert m).entries := by
  rw [entries_insert_of_new h]
  exact List.mem_append_right _ (List.mem_singleton_self m)

end MessageLog

end Csci6780.PubSub
