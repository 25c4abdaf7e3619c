import Csci6780.SendForever

/-!
# Calls that Go On

A client writes a request with `SendForever` and reads the response in a loop around
`ReceiveForever`, which ignores timeouts. This module has what both do on a connection that
delivers: the calls of `send` accept something, and the results of `recv` are segments and timeouts
until the other side closes the connection.

## Main results

* `recvLoop_of_frame`, `recvLoop_of_closed`: what a frame that arrives, or a part of one, does to the
  receive loop.
* `sendForever_of_accepting`: what `SendForever` has sent when it ends.
-/

namespace Csci6780

/-! ### Receiving -/

/-- A segment of a stream, or a timeout. -/
def RecvResult.unhurried : RecvResult → Bool
  | .data segment => segment ≠ [] ∧ segment.length < 2 ^ 32
  | .timedOut => true
  | _ => false

/-- The results of `recv` on a stream that goes on. -/
def Unhurried (incoming : List RecvResult) : Prop := ∀ result ∈ incoming, result.unhurried = true

instance (incoming : List RecvResult) : Decidable (Unhurried incoming) :=
  inferInstanceAs (Decidable (∀ result ∈ incoming, _))

section Receive

variable {incoming tail : List RecvResult} {parser : MessageParser} {body : List UInt8}

theorem Unhurried.append {more : List RecvResult} (h : Unhurried incoming)
    (hmore : Unhurried more) : Unhurried (incoming ++ more) := by
  intro result hresult
  rcases List.mem_append.mp hresult with hresult | hresult
  · exact h result hresult
  · exact hmore result hresult

/-- A parser that is reset holds nothing. -/
theorem MessageParser.WellFormed.ready_resetParser (hwf : parser.WellFormed) :
    parser.resetParser.Ready := by
  refine hwf.resetParser.ready_of_not_hasFrame ?_
  rw [MessageParser.pending_resetParser]
  exact fun hf => absurd hf.1 (by simp)

/-- Bytes that are a frame, when a complete frame has come, have all come. -/
theorem eq_frame_of_hasFrame {U V : List UInt8} (hbody : body.length < 2 ^ 32) (hf : HasFrame U)
    (hbytes : U ++ V = frame body) : U = frame body ∧ V = [] := by
  have hstream : U ++ V = frame body ++ [] := by rw [hbytes, List.append_nil]
  obtain ⟨hframe, hrest⟩ := hf.eq_of_append_eq hbody hstream
  obtain ⟨hafter, rfl⟩ := List.append_eq_nil_iff.mp hrest
  exact ⟨(List.append_nil U).symm.trans hbytes, rfl⟩

/-- **A frame that arrives** in any pieces, with any timeouts, completes the loop, and all of its
bytes are taken. -/
theorem recvLoop_of_frame (hready : parser.Ready) (hun : Unhurried incoming)
    (hbody : body.length < 2 ^ 32) (hbytes : parser.pending ++ arrived incoming = frame body)
    (tail : List RecvResult) :
    ∃ (parser' : MessageParser) (left : List RecvResult), parser'.Ready ∧
      parser'.pending = frame body ∧ Unhurried left ∧ arrived left = [] ∧
      recvLoop true (incoming ++ tail) parser = (.complete, parser', left ++ tail) := by
  induction incoming generalizing parser with
  | nil =>
      have hpending : parser.pending = frame body := (List.append_nil _).symm.trans hbytes
      have hf : HasFrame parser.pending := by
        rw [hpending, ← List.append_nil (frame body)]
        exact hasFrame_frame_append hbody []
      exact ⟨parser, [], hready, hpending, hun, rfl,
        recvLoop_of_complete true hready.wellFormed hf _⟩
  | cons result incoming ih =>
      have htail : Unhurried incoming := fun r hr => hun r (List.mem_cons_of_mem _ hr)
      by_cases hf : HasFrame parser.pending
      · obtain ⟨hpending, hnil⟩ := eq_frame_of_hasFrame hbody hf hbytes
        exact ⟨parser, result :: incoming, hready, hpending, hun, hnil,
          recvLoop_of_complete true hready.wellFormed hf _⟩
      · have hnot : ¬parser.hasCompleteMessage = true :=
          fun hc => hf (hready.wellFormed.hasCompleteMessage_iff.mp hc)
        have hresult := hun result List.mem_cons_self
        cases result with
        | data segment =>
            obtain ⟨-, hlength⟩ : segment ≠ [] ∧ segment.length < 2 ^ 32 :=
              of_decide_eq_true hresult
            obtain ⟨hready', hpending⟩ := hready.wellFormed.ready_addNewData hf hlength
            have hbytes' : (parser.addNewData segment).pending ++ arrived incoming =
                frame body := by
              rw [hpending, List.append_assoc]
              exact hbytes
            obtain ⟨parser', left, h⟩ := ih hready' htail hbytes'
            refine ⟨parser', left, ?_⟩
            rw [List.cons_append, recvLoop, if_neg hnot]
            exact h
        | timedOut =>
            obtain ⟨parser', left, h⟩ := ih hready htail hbytes
            refine ⟨parser', left, ?_⟩
            rw [List.cons_append, recvLoop, if_neg hnot]
            exact h
        | closed => cases hresult
        | failed => cases hresult

/-- **A connection that is closed** before a complete frame has come ends the loop. -/
theorem recvLoop_of_closed (hready : parser.Ready) (hun : Unhurried incoming)
    (hnot : ¬HasFrame (parser.pending ++ arrived incoming)) :
    ∃ parser' : MessageParser, parser'.Ready ∧
      parser'.pending = parser.pending ++ arrived incoming ∧
      recvLoop true (incoming ++ [.closed]) parser = (.closed, parser', []) := by
  have hno : ¬HasFrame parser.pending := fun hf => hnot (hf.append _).1
  have hopen : ¬parser.hasCompleteMessage = true :=
    fun hc => hno (hready.wellFormed.hasCompleteMessage_iff.mp hc)
  induction incoming generalizing parser with
  | nil =>
      refine ⟨parser, hready, (List.append_nil _).symm, ?_⟩
      rw [List.nil_append, recvLoop, if_neg hopen]
  | cons result incoming ih =>
      have htail : Unhurried incoming := fun r hr => hun r (List.mem_cons_of_mem _ hr)
      have hresult := hun result List.mem_cons_self
      cases result with
      | data segment =>
          obtain ⟨-, hlength⟩ : segment ≠ [] ∧ segment.length < 2 ^ 32 :=
            of_decide_eq_true hresult
          obtain ⟨hready', hpending⟩ := hready.wellFormed.ready_addNewData hno hlength
          have hbytes : (parser.addNewData segment).pending ++ arrived incoming =
              parser.pending ++ arrived (.data segment :: incoming) := by
            rw [hpending, List.append_assoc]
            rfl
          have hnot' := hbytes ▸ hnot
          have hno' : ¬HasFrame (parser.addNewData segment).pending :=
            fun hf => hnot' (hf.append _).1
          obtain ⟨parser', hlast, hpend, hrun⟩ := ih hready' htail hnot' hno'
            fun hc => hno' (hready'.wellFormed.hasCompleteMessage_iff.mp hc)
          refine ⟨parser', hlast, hpend.trans hbytes, ?_⟩
          rw [List.cons_append, recvLoop, if_neg hopen]
          exact hrun
      | timedOut =>
          obtain ⟨parser', hlast, hpend, hrun⟩ := ih hready htail hnot hno hopen
          refine ⟨parser', hlast, hpend, ?_⟩
          rw [List.cons_append, recvLoop, if_neg hopen]
          exact hrun
      | closed => cases hresult
      | failed => cases hresult

end Receive

/-! ### Sending -/

section Send

variable {buffer : List UInt8} {socket socket' : Socket} {fuel : ℕ} {result : ℤ}

/-- A call of `send` does nothing to the input side. -/
theorem Socket.incoming_send (h : socket.send buffer = some (result, socket')) :
    socket'.incoming = socket.incoming := by
  rw [Socket.send] at h
  split at h
  · cases h
  all_goals
    cases h
    rfl

theorem sendForeverStep_incoming {total : UInt32} {out : (UInt32 × Socket) ⊕ (ℤ × Socket)}
    (h : sendForeverStep buffer (total, socket) = some out) :
    out.elim (·.2.incoming) (·.2.incoming) = socket.incoming := by
  rw [sendForeverStep] at h
  split at h
  · split at h
    · cases h
    · next hsend =>
        have hincoming := Socket.incoming_send hsend
        split at h
        · cases h
          exact hincoming
        · cases h
          exact hincoming
  · cases h
    rfl

theorem sendForever_incoming (h : sendForever fuel buffer socket = some (result, socket')) :
    socket'.incoming = socket.incoming :=
  whileLoop_inv (fun s => s.2.incoming = socket.incoming)
    (fun r => r.2.incoming = socket.incoming)
    (fun _ _ hsame hstep => (sendForeverStep_incoming hstep).trans hsame)
    (fun _ _ hsame hstep => (sendForeverStep_incoming hstep).trans hsame) rfl h

/-- **While every `send` accepts something**, a `SendForever` that ends has sent the buffer. -/
theorem sendForever_of_accepting (hlen : buffer.length < 2 ^ 31) (hacc : Accepting socket.sends)
    (h : sendForever fuel buffer socket = some (result, socket')) :
    ¬result < 0 ∧ socket'.sent = socket.sent ++ buffer := by
  have hlen' : buffer.length < 2 ^ 32 := by omega
  refine whileLoop_inv
    (fun s => s.1.toNat ≤ buffer.length ∧ s.2.sent = socket.sent ++ buffer.take s.1.toNat ∧
      Accepting s.2.sends)
    (fun r => ¬r.1 < 0 ∧ r.2.sent = socket.sent ++ buffer)
    ?_ ?_ ⟨Nat.zero_le _, (List.append_nil _).symm, hacc⟩ h
  all_goals
    rintro ⟨total, socket₁⟩ ⟨last, socket₂⟩ ⟨hle, hsent, hacc₁⟩ hstep
    rcases Nat.lt_or_ge total.toNat buffer.length with hlt | hge
  · cases hsends : socket₁.sends with
    | nil =>
        rw [sendForeverStep, if_pos hlt, Socket.send, hsends] at hstep
        cases hstep
    | cons first rest =>
        rw [hsends] at hacc₁
        obtain ⟨n, hn, rfl⟩ := hacc₁ first List.mem_cons_self
        obtain ⟨total', socket', htotal, hrest, hmore, hstep'⟩ :=
          sendForeverStep_accepted hlen' hlt hn hsends
        cases hstep.symm.trans hstep'
        replace hsent : socket₁.sent = socket.sent ++ buffer.take total.toNat := hsent
        refine ⟨htotal ▸ Nat.min_le_right _ _, ?_, hrest ▸ hacc₁.tail⟩
        rw [hmore, hsent, List.append_assoc, htotal, ← List.take_add]
        congr 1
        rcases Nat.le_total (total.toNat + n) buffer.length with hroom | hroom
        · rw [Nat.min_eq_left hroom]
        · rw [Nat.min_eq_right hroom, List.take_of_length_le hroom, List.take_length]
  · rw [sendForeverStep, if_neg (by omega)] at hstep
    cases hstep
  · cases hsends : socket₁.sends with
    | nil =>
        rw [sendForeverStep, if_pos hlt, Socket.send, hsends] at hstep
        cases hstep
    | cons first rest =>
        rw [hsends] at hacc₁
        obtain ⟨n, hn, rfl⟩ := hacc₁ first List.mem_cons_self
        obtain ⟨total', socket', -, -, -, hstep'⟩ := sendForeverStep_accepted hlen' hlt hn hsends
        cases hstep.symm.trans hstep'
  · rw [sendForeverStep, if_neg (by omega)] at hstep
    cases hstep
    replace hsent : socket₁.sent = socket.sent ++ buffer.take total.toNat := hsent
    replace hle : total.toNat ≤ buffer.length := hle
    rw [List.take_of_length_le hge] at hsent
    refine ⟨?_, hsent⟩
    rw [toInt_toInt32_of_lt (by omega)]
    omega

/-- One call takes the whole buffer. -/
theorem sendForever_atOnce (hpos : 0 < buffer.length) (hlen : buffer.length < 2 ^ 31)
    (hsends : socket.sends = [.accepted buffer.length]) :
    ∃ result socket', sendForever 2 buffer socket = some (result, socket') := by
  have hzero : (0 : UInt32).toNat < buffer.length := hpos
  obtain ⟨total, socket', htotal, -, -, hstep⟩ :=
    sendForeverStep_accepted (Nat.lt_trans hlen (by omega)) hzero hpos hsends
  have hend : sendForeverStep buffer (total, socket') =
      some (.inr (total.toInt32.toInt, socket')) := by
    rw [UInt32.toNat_zero, Nat.zero_add, Nat.min_self] at htotal
    rw [sendForeverStep, if_neg (by omega)]
  exact ⟨_, _, (whileLoop_continue hstep 1).trans (whileLoop_return hend 0)⟩

end Send

end Csci6780
