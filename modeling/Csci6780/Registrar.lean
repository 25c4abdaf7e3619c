import Csci6780.ParticipantManager
import Mathlib.Algebra.Ring.Int.Defs

/-!
# The Registrar and Its Sockets

This module embeds `coordinator::Registrar`: it connects to a participant and keeps the
participant manager up to date. The open descriptors of the process are a table; an entry says
what the descriptor leads to.

What the operating system answers is an input (`Attempt`). It never hands out a descriptor that
is open: an attempt that asks for one counts as a failed `socket()`.

## Main results

* `connectToParticipant_cases`: a connection either fails and leaves the record alone, or leads
  from a descriptor that was closed to the host and port of the record.
-/

namespace Csci6780.PubSub

/-- What an open descriptor leads to. -/
inductive Peer
  | other
  | request
  | unconnected
  | participant (hostname : String) (port : UInt16)
  deriving DecidableEq, Repr

/-- The open descriptors of the process. -/
abbrev Descriptors := ℤ → Option Peer

/-- The descriptors of a server that waits for its first client: the standard streams and the
socket that it listens on. -/
def Descriptors.ofServer : Descriptors := fun fd => if 0 ≤ fd ∧ fd ≤ 3 then some .other else none

/-- The descriptor can be handed out. -/
def Descriptors.free (ds : Descriptors) (fd : ℤ) : Bool := 0 ≤ fd && (ds fd).isNone

/-- Open a descriptor, or change what it leads to. -/
def Descriptors.openAs (ds : Descriptors) (fd : ℤ) (peer : Peer) : Descriptors :=
  Function.update ds fd (some peer)

/-- `close`; closing a descriptor that is not open has no effect. -/
def Descriptors.close (ds : Descriptors) (fd : ℤ) : Descriptors := Function.update ds fd none

/-- Whether a text between the dots of an address is a number up to 255, without leading
zeros. -/
def isOctet (digits : List Char) : Bool :=
  digits.length ≤ 3 && digits.all Char.isDigit && digits ≠ [] &&
    (digits.head? ≠ some '0' || digits.length = 1) &&
    digits.foldl (fun n c => 10 * n + (c.toNat - '0'.toNat)) 0 ≤ 255

/-- Whether `inet_pton(AF_INET, ..)` accepts the address. -/
def inetPton (hostname : String) : Bool :=
  let parts := hostname.toList.splitOn '.'
  parts.length = 4 && parts.all isOctet

/-- The answers to one attempt to connect: of `socket()` and of `connect()`. -/
structure Attempt where
  socketFd : ℤ
  connects : Bool
  deriving DecidableEq, Repr

/-- `SetUpSocket`: the socket, or -1, and the descriptors. A socket that is not connected is
left open. -/
def setUpSocket (ds : Descriptors) (port : UInt16) (hostname : String) (attempt : Attempt) :
    ℤ × Descriptors :=
  if ds.free attempt.socketFd then
    let opened := ds.openAs attempt.socketFd .unconnected
    if inetPton hostname && attempt.connects then
      (attempt.socketFd, opened.openAs attempt.socketFd (.participant hostname port))
    else (-1, opened)
  else (-1, ds)

/-- `kMaxRetryTimes`. -/
def kMaxRetryTimes : ℕ := 3

/-- The loop of `SetUpSocketRetry`, with `remaining` attempts to go. -/
def setUpSocketRetry (port : UInt16) (hostname : String) (attempts : ℕ → Attempt) :
    ℕ → ℤ × Descriptors → ℤ × Descriptors
  | 0, (socket, ds) => (socket, ds)
  | remaining + 1, (_, ds) =>
      let (socket, ds) := setUpSocket ds port hostname (attempts remaining)
      if socket < 0 then setUpSocketRetry port hostname attempts remaining (socket, ds)
      else (socket, ds)

/-- `ConnectToParticipant`: whether it connected, the record and the descriptors. -/
def connectToParticipant (ds : Descriptors) (attempts : ℕ → Attempt) (p : Participant) :
    Bool × Participant × Descriptors :=
  let (sock, ds) := setUpSocketRetry p.port p.hostname attempts kMaxRetryTimes (-1, ds)
  if sock > 0 then (true, { p with sockFd := sock }, ds) else (false, p, ds)

/-- Whether a participant that listens at the address is reached. -/
def reaches (ds : Descriptors) (attempts : ℕ → Attempt) (hostname : String) (port : UInt16) :
    Bool :=
  (setUpSocketRetry port hostname attempts kMaxRetryTimes (-1, ds)).1 > 0

/-! ### What an attempt leaves -/

variable {ds ds' : Descriptors} {port : UInt16} {hostname : String}

/-- Descriptors were opened, and none was touched that was open. -/
def Descriptors.Extends (ds' ds : Descriptors) : Prop := ∀ fd, ds fd ≠ none → ds' fd = ds fd

theorem Descriptors.Extends.refl (ds : Descriptors) : ds.Extends ds := fun _ _ => rfl

theorem Descriptors.Extends.trans {ds₁ ds₂ ds₃ : Descriptors} (h₂ : ds₃.Extends ds₂)
    (h₁ : ds₂.Extends ds₁) : ds₃.Extends ds₁ := by
  intro fd hfd
  have h := h₁ fd hfd
  rw [h₂ fd (h ▸ hfd), h]

theorem Descriptors.free_iff {fd : ℤ} : ds.free fd = true ↔ 0 ≤ fd ∧ ds fd = none := by
  rw [Descriptors.free, Bool.and_eq_true, decide_eq_true_iff, Option.isNone_iff_eq_none]

theorem Descriptors.extends_openAs {fd : ℤ} (peer : Peer) (h : ds fd = none) :
    (ds.openAs fd peer).Extends ds := by
  intro other hother
  have hne : other ≠ fd := by
    rintro rfl
    exact hother h
  exact Function.update_of_ne hne _ _

/-- An attempt fails, or gives a descriptor that was closed and now leads to the participant. -/
theorem setUpSocket_cases (ds : Descriptors) (port : UInt16) (hostname : String)
    (attempt : Attempt) {socket : ℤ} (h : setUpSocket ds port hostname attempt = (socket, ds')) :
    ds'.Extends ds ∧ (socket < 0 ∨
      0 ≤ socket ∧ inetPton hostname = true ∧ ds socket = none ∧
        ds' socket = some (.participant hostname port)) := by
  rw [setUpSocket] at h
  split at h
  · next hfree =>
      obtain ⟨hfd, hclosed⟩ := Descriptors.free_iff.mp hfree
      have hext := Descriptors.extends_openAs .unconnected hclosed
      dsimp only at h
      split at h
      · next hok =>
          obtain ⟨rfl, rfl⟩ := Prod.mk.inj h
          rw [Bool.and_eq_true] at hok
          refine ⟨?_, .inr ⟨hfd, hok.1, hclosed, Function.update_self _ _ _⟩⟩
          intro fd hopen
          have hne : fd ≠ attempt.socketFd := by
            rintro rfl
            exact hopen hclosed
          exact (Function.update_of_ne hne _ _).trans (hext fd hopen)
      · obtain ⟨rfl, rfl⟩ := Prod.mk.inj h
        exact ⟨hext, .inl (by decide)⟩
  · obtain ⟨rfl, rfl⟩ := Prod.mk.inj h
    exact ⟨.refl ds, .inl (by decide)⟩

/-- The attempts together: they fail, or give a descriptor that was closed at the start. -/
theorem setUpSocketRetry_cases (attempts : ℕ → Attempt) (remaining : ℕ) (ds : Descriptors)
    {start socket : ℤ} (hstart : start < 0)
    (h : setUpSocketRetry port hostname attempts remaining (start, ds) = (socket, ds')) :
    ds'.Extends ds ∧ (socket < 0 ∨
      0 ≤ socket ∧ inetPton hostname = true ∧ ds socket = none ∧
        ds' socket = some (.participant hostname port)) := by
  induction remaining generalizing start ds with
  | zero =>
      obtain ⟨rfl, rfl⟩ := Prod.mk.inj h
      exact ⟨.refl ds, .inl hstart⟩
  | succ remaining ih =>
      rw [setUpSocketRetry] at h
      rcases hone : setUpSocket ds port hostname (attempts remaining) with ⟨socket₁, ds₁⟩
      have hcases := setUpSocket_cases ds port hostname _ hone
      rw [hone] at h
      dsimp only at h
      split at h
      · next hneg =>
          have hrest := ih ds₁ hneg h
          refine ⟨hrest.1.trans hcases.1, hrest.2.imp id ?_⟩
          rintro ⟨hsocket, hhost, hclosed, hpeer⟩
          refine ⟨hsocket, hhost, ?_, hpeer⟩
          by_contra hopen
          exact hopen ((hcases.1 socket hopen).symm.trans hclosed)
      · obtain ⟨rfl, rfl⟩ := Prod.mk.inj h
        exact hcases

/-- **A connection** either fails and leaves the record alone, or leads from a descriptor that
was closed to the host and port of the record. -/
theorem connectToParticipant_cases (ds : Descriptors) (attempts : ℕ → Attempt)
    (p : Participant) {connected : Bool} {p' : Participant}
    (h : connectToParticipant ds attempts p = (connected, p', ds')) :
    ds'.Extends ds ∧
      (connected = false ∧ p' = p ∨
        connected = true ∧ inetPton p.hostname = true ∧ ∃ sock, 0 < sock ∧ ds sock = none ∧
          ds' sock = some (.participant p.hostname p.port) ∧ p' = { p with sockFd := sock }) := by
  rw [connectToParticipant] at h
  rcases hretry : setUpSocketRetry p.port p.hostname attempts kMaxRetryTimes (-1, ds)
    with ⟨sock, ds₁⟩
  have hcases := setUpSocketRetry_cases attempts kMaxRetryTimes ds (by decide) hretry
  rw [hretry] at h
  dsimp only at h
  split at h
  · next hpos =>
      cases h
      rcases hcases.2 with hneg | ⟨-, hhost, hclosed, hpeer⟩
      · omega
      · exact ⟨hcases.1, .inr ⟨rfl, hhost, sock, hpos, hclosed, hpeer, rfl⟩⟩
  · cases h
    exact ⟨hcases.1, .inl ⟨rfl, rfl⟩⟩

/-- Whether a connection succeeds depends on the address alone. -/
theorem reaches_of_connect {ds ds' : Descriptors} {attempts : ℕ → Attempt} {p p' : Participant}
    {connected : Bool} (h : connectToParticipant ds attempts p = (connected, p', ds')) :
    reaches ds attempts p.hostname p.port = connected := by
  rw [connectToParticipant] at h
  rw [reaches]
  rcases hretry : setUpSocketRetry p.port p.hostname attempts kMaxRetryTimes (-1, ds)
    with ⟨sock, ds₁⟩
  rw [hretry] at h
  by_cases hpos : sock > 0
  · simp only [hpos, if_true] at h
    cases h
    exact decide_eq_true hpos
  · simp only [hpos, if_false] at h
    cases h
    exact decide_eq_false hpos

/-- No connection succeeds without an address. -/
theorem not_reaches_of_inetPton {hostname : String} (h : inetPton hostname = false)
    (ds : Descriptors) (attempts : ℕ → Attempt) (port : UInt16) :
    reaches ds attempts hostname port = false := by
  rcases hretry : setUpSocketRetry port hostname attempts kMaxRetryTimes (-1, ds) with ⟨sock, ds'⟩
  rw [reaches, hretry, decide_eq_false_iff_not]
  rcases (setUpSocketRetry_cases attempts kMaxRetryTimes ds (by decide) hretry).2 with
    hneg | ⟨-, hhost, -, -⟩
  · exact Int.not_lt.mpr (Int.le_of_lt hneg)
  · rw [h] at hhost
    cases hhost

/-- A connection changes nothing of the record but the descriptor. -/
theorem record_connectToParticipant {ds ds' : Descriptors} {attempts : ℕ → Attempt}
    {p p' : Participant} {connected : Bool}
    (h : connectToParticipant ds attempts p = (connected, p', ds')) :
    p' = { p with sockFd := p'.sockFd } := by
  rcases (connectToParticipant_cases ds attempts p h).2 with ⟨-, rfl⟩ | ⟨-, -, sock, -, -, -, rfl⟩
  · rfl
  · rfl

theorem id_connectToParticipant {ds ds' : Descriptors} {attempts : ℕ → Attempt}
    {p p' : Participant} {connected : Bool}
    (h : connectToParticipant ds attempts p = (connected, p', ds')) : p'.id = p.id := by
  rw [record_connectToParticipant h]

end Csci6780.PubSub
