import Csci6780.ParticipantShell

/-!
# Commands That a Shell Rejects

A shell sends its request first and looks at its own state afterwards. By the time it answers
that it is connected already, or that there is nothing to disconnect from, the coordinator has
served the request. A registration or a reconnection leaves a messenger behind; a disconnection
or a deregistration finds nothing to change only when the coordinator, too, has nothing of the
participant.

## Main results

* `Group.rejected_iff`: exactly the rejected commands that meet `Harmless` leave everything as
  it is.
* `rejected_commands_iff`: the same of runs.
-/

namespace Csci6780.PubSub

namespace Coordinator

/-- The participants, who of them is connected, and the messengers are the same. -/
structure SameRecords (c c' : Coordinator) : Prop where
  records : ∀ id, c'.participants.idToParticipant id = c.participants.idToParticipant id
  connected : ∀ p, p ∈ c'.participants.getAllConnected ↔ p ∈ c.participants.getAllConnected
  messengers : c'.messengers.Perm c.messengers

variable {c c' : Coordinator} {x : Exchange} {id : UInt32}

theorem SameRecords.of_eq (hparticipants : c'.participants = c.participants)
    (hmessengers : c'.messengers = c.messengers) : c.SameRecords c' where
  records _ := by rw [hparticipants]
  connected _ := by rw [hparticipants]
  messengers := hmessengers ▸ List.Perm.refl _

theorem SameRecords.messengersOf_eq (h : c.SameRecords c') (id : UInt32) :
    c'.messengersOf id = c.messengersOf id :=
  (h.messengers.map _).count_eq id

/-- Deleting a messenger is a change when there is one. -/
theorem SameRecords.messengersOf_eq_zero (h : c.SameRecords c')
    (hdelete : c'.messengers =
      (c.determineMessenger x id).elim c.messengers c.messengers.erase) :
    c.messengersOf id = 0 := by
  have hcount := count_delete c x id id
  rw [if_pos rfl, ← hdelete] at hcount
  have hkept : c.messengersOf id - 1 = c.messengersOf id := hcount.symm.trans (h.messengersOf_eq id)
  omega

/-- One messenger more is a change. -/
theorem not_sameRecords_of_append {m : Messenger} (h : c'.messengers = c.messengers ++ [m]) :
    ¬c.SameRecords c' := by
  intro hsame
  have hlen := hsame.messengers.length_eq
  rw [h, List.length_append] at hlen
  exact absurd hlen (by simp)

/-- A registration always changes something. -/
theorem Sound.register_changes (h : c.Sound) {portNumber : UInt32}
    (hrequest : x.request = .register portNumber) (hs : c.serve x = some c') :
    ¬c.SameRecords c' := by
  cases (served_of_serve h.queue hs).2 with
  | register => exact not_sameRecords_of_append rfl
  | _ => cases hrequest.symm.trans ‹_›

/-- So does a reconnection. -/
theorem Sound.reconnect_changes (h : c.Sound) {portNumber : UInt32}
    (hrequest : x.request = .reconnect portNumber id) (hs : c.serve x = some c') :
    ¬c.SameRecords c' := by
  cases (served_of_serve h.queue hs).2 with
  | reconnect => exact not_sameRecords_of_append rfl
  | _ => cases hrequest.symm.trans ‹_›

/-- When a disconnection finds nothing to change. -/
theorem Sound.disconnect_same_iff (h : c.Sound) (hrequest : x.request = .disconnect id)
    (hs : c.serve x = some c') :
    c.SameRecords c' ↔
      c.connected (c.determineParticipant id).id = false ∧ c.messengersOf id = 0 := by
  cases (served_of_serve h.queue hs).2 with
  | disconnect participantId p hrequest' hp =>
      obtain rfl : id = participantId := by
        rw [hrequest] at hrequest'
        exact CoordinatorMessage.disconnect.inj hrequest'
      rw [hp]
      constructor
      · intro hsame
        refine ⟨?_, hsame.messengersOf_eq_zero rfl⟩
        have hgone := ParticipantManager.isConnectedId_disconnectParticipant c.participants p
          x.now p.id
        rw [decide_eq_false (by simp), Bool.false_and] at hgone
        refine ParticipantManager.isConnectedId_eq_false_iff.mpr fun q hq => ?_
        exact ParticipantManager.isConnectedId_eq_false_iff.mp hgone q
          ((hsame.connected q).mpr hq)
      · rintro ⟨hnot, hnone⟩
        refine .of_eq ?_ (delete_eq_self_iff.mpr hnone)
        exact congrArg Prod.snd
          (ParticipantManager.disconnectParticipant_of_not_connected c.participants p x.now hnot)
  | _ => cases hrequest.symm.trans ‹_›

/-- When a deregistration finds nothing to change. -/
theorem Sound.deregister_same_iff (h : c.Sound) (hrequest : x.request = .deregister id)
    (hs : c.serve x = some c') :
    c.SameRecords c' ↔
      c.registered (c.determineParticipant id).id = false ∧ c.messengersOf id = 0 := by
  cases (served_of_serve h.queue hs).2 with
  | deregister participantId p hrequest' hp =>
      obtain rfl : id = participantId := by
        rw [hrequest] at hrequest'
        exact CoordinatorMessage.deregister.inj hrequest'
      rw [hp, not_registered_iff]
      constructor
      · intro hsame
        refine ⟨?_, hsame.messengersOf_eq_zero rfl⟩
        rw [← hsame.records p.id, ParticipantManager.idToParticipant_deregisterParticipant,
          Function.update_self]
      · rintro ⟨hunknown, hnone⟩
        exact .of_eq (h.consistent.deregisterParticipant_of_unknown hunknown)
          (delete_eq_self_iff.mpr hnone)
  | _ => cases hrequest.symm.trans ‹_›

end Coordinator

namespace Group

variable {ι : Type} [DecidableEq ι] {g g' : Group ι} {a : Command ι}

/-- Nothing has changed for a shell: neither at the coordinator, nor its own id or state. -/
structure SameFor (i : ι) (g g' : Group ι) : Prop where
  coordinator : g.coordinator.SameRecords g'.coordinator
  participantId : (g'.shells i).inputParser.participantId = (g.shells i).inputParser.participantId
  connected : (g'.shells i).connected = (g.shells i).connected

/-- The command changes nothing, if it is rejected. -/
def RejectedUnchanged (g : Group ι) (a : Command ι) : Prop :=
  g.Rejects a → ∀ g', g.step a = some g' → SameFor a.shell g g'

/-- What a rejected command has to meet to change nothing: it is a disconnection and the
coordinator has nobody of its id connected, or a deregistration and the coordinator has nobody
of its id registered; and there is no messenger of the id. When the id is unknown, the coordinator
takes participant 0 for it. -/
def Harmless (g : Group ι) (a : Command ι) : Prop :=
  let ip := (g.reader a).inputParser
  let id := ip.participantId.toUInt32
  let named := (g.coordinator.determineParticipant id).id
  match ip.req with
  | .discon => g.coordinator.connected named = false ∧ g.coordinator.messengersOf id = 0
  | .dereg => g.coordinator.registered named = false ∧ g.coordinator.messengersOf id = 0
  | .reg | .recon | .msend | .quit => False

/-- A rejected command meets the condition. -/
def RejectedHarmless (g : Group ι) (a : Command ι) : Prop := g.Rejects a → g.Harmless a

omit [DecidableEq ι] in
/-- A shell that has only answered is what it was, but for the line it has read. -/
theorem SameFor.of_sendConsole {text : String}
    (hsame : g.coordinator.SameRecords g'.coordinator)
    (hshell : g'.shells a.shell = (g.reader a).sendConsole text) : SameFor a.shell g g' where
  coordinator := hsame
  participantId := by
    rw [hshell]
    exact InputParser.participantId_parse _ a.line
  connected := by
    rw [hshell]
    rfl

/-- **Exactly the rejected commands that meet the condition leave everything as it is.** -/
theorem rejected_iff (hsound : g.coordinator.Sound) (h : g.step a = some g')
    (hrejected : (g.shells a.shell).Rejected (g'.shells a.shell)) :
    SameFor a.shell g g' ↔ g.Harmless a := by
  obtain ⟨request, response, hrequest, hserve, hshell⟩ := step_rejected h hrejected
  rw [hshell] at hrejected
  simp only [Harmless]
  cases hreq : (g.reader a).inputParser.req with
  | reg =>
      rw [InputParser.createReq, hreq] at hrequest
      obtain rfl := Option.some.inj hrequest
      exact iff_of_false (fun hsame => hsound.register_changes rfl hserve hsame.coordinator)
        not_false
  | recon =>
      rw [InputParser.createReq, hreq] at hrequest
      obtain rfl := Option.some.inj hrequest
      exact iff_of_false (fun hsame => hsound.reconnect_changes rfl hserve hsame.coordinator)
        not_false
  | discon =>
      rw [InputParser.createReq, hreq] at hrequest
      obtain rfl := Option.some.inj hrequest
      rw [ParticipantShell.afterRequest, hreq] at hrejected hshell
      rw [ParticipantShell.stopReceiver_of_rejected hrejected] at hshell
      rw [← hsound.disconnect_same_iff rfl hserve]
      exact ⟨fun hsame => hsame.coordinator, fun hsame => .of_sendConsole hsame hshell⟩
  | dereg =>
      rw [InputParser.createReq, hreq] at hrequest
      obtain rfl := Option.some.inj hrequest
      rw [ParticipantShell.afterRequest, hreq] at hrejected hshell
      rw [ParticipantShell.stopReceiver_of_rejected hrejected] at hshell
      rw [← hsound.deregister_same_iff rfl hserve]
      exact ⟨fun hsame => hsame.coordinator, fun hsame => .of_sendConsole hsame hshell⟩
  | msend =>
      rw [ParticipantShell.afterRequest, hreq] at hrejected
      exact absurd hrejected (ParticipantShell.not_rejected_of_console rfl)
  | quit =>
      rw [InputParser.createReq, hreq] at hrequest
      cases hrequest

end Group

/-- **In every run of the shells, the commands that are rejected leave everything as it is
exactly when they meet the condition.** -/
theorem rejected_commands_iff {ι : Type} [DecidableEq ι] (td : ℤ) (ds : Descriptors)
    (garbage : ι → Int32 × Int32) (as : List (Command ι)) :
    EachStep Group.step Group.RejectedUnchanged (.start td ds garbage) as ↔
      EachStep Group.step Group.RejectedHarmless (.start td ds garbage) as := by
  have hsound : EachState Group.step (fun g => g.coordinator.Sound) (.start td ds garbage) as :=
    EachState.of_inv_always _ (fun g a g' hg hs => Group.sound_step hg hs)
      (Coordinator.sound_start td ds) as
  constructor
  · rintro h pre a m hpre hm ⟨m', hstep, hrejected⟩
    have hsame := h pre a m hpre hm ⟨m', hstep, hrejected⟩ m' hstep
    exact (Group.rejected_iff (hsound pre m ((List.prefix_append pre [a]).trans hpre) hm) hstep
      hrejected).mp hsame
  · rintro h pre a m hpre hm ⟨m', hstep, hrejected⟩ m'' hstep'
    obtain rfl : m' = m'' := Option.some.inj (hstep.symm.trans hstep')
    have hharmless := h pre a m hpre hm ⟨m', hstep, hrejected⟩
    exact (Group.rejected_iff (hsound pre m ((List.prefix_append pre [a]).trans hpre) hm) hstep
      hrejected).mpr hharmless

/-- A shell that is connected registers again. It answers that it is connected already, and has
another id. -/
theorem rejected_registration_registers :
    ¬EachStep Group.step Group.RejectedUnchanged (.start 10 .ofServer fun _ : Unit => (0, 0))
      [⟨(), "register 5000", true, .smooth .notSet 4 5 1, true⟩,
        ⟨(), "register 5001", true, .smooth .notSet 4 6 2, true⟩] := by
  intro h
  have hsame := h [⟨(), "register 5000", true, .smooth .notSet 4 5 1, true⟩]
    ⟨(), "register 5001", true, .smooth .notSet 4 6 2, true⟩ _ (List.prefix_refl _) rfl
    ⟨_, rfl, "Already connected!", by decide, rfl⟩ _ rfl
  exact absurd hsame.participantId (by decide)

end Csci6780.PubSub
