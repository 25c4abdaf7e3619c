import Csci6780.Socket
import Csci6780.Lib.Loop

/-!
# SendForever

This module embeds `client_util::SendForever`, of which `participant_util::SendForever` is a
copy: it calls `send` until the whole buffer is accepted, and is meant to ignore calls that
time out. The number of bytes sent so far is a `uint32_t`, to which the result of every call
that does not end the loop is added, and the result of a call that times out is -1. So a timeout
takes back a byte, which is sent again, or, if nothing has been sent yet, makes the number
larger than the length of any buffer.

No `send` accepts `2 ^ 31` bytes at once, so its result is an `int`; the number of bytes that
is returned in the end may not be one.

## Main results

* `goesOn_accepts`, `goesOn_timeouts`: what calls that accept something and calls that time
  out do.
* `sendForever_once_iff`: when the buffer is sent exactly once.
-/

namespace Csci6780

/-- One round of `SendForever`. -/
def sendForeverStep (buffer : List UInt8) :
    UInt32 × Socket → Option ((UInt32 × Socket) ⊕ (ℤ × Socket))
  | (totalBytesSent, socket) =>
      if totalBytesSent.toNat < buffer.length then
        match socket.send (buffer.drop totalBytesSent.toNat) with
        | none => none
        | some (kSendResult, socket) =>
            if kSendResult = -1 ∧ ¬ socket.errno = .again ∨ kSendResult = 0 then
              some (.inr (kSendResult, socket))
            else some (.inl (totalBytesSent + UInt32.ofInt kSendResult, socket))
      else some (.inr (totalBytesSent.toInt32.toInt, socket))

/-- `SendForever`: what it returns and the socket. -/
def sendForever (fuel : ℕ) (buffer : List UInt8) (socket : Socket) : Option (ℤ × Socket) :=
  whileLoop (sendForeverStep buffer) fuel (0, socket)

/-! ### The outcomes of `send` -/

/-- The calls accept something or time out. -/
def Underway (sends : List SendResult) : Prop :=
  ∀ result ∈ sends, result = .timedOut ∨ ∃ n, 0 < n ∧ result = .accepted n

theorem Underway.accepting {sends : List SendResult} (h : Underway sends)
    (hnot : .timedOut ∉ sends) : Accepting sends := by
  intro result hmem
  rcases h result hmem with rfl | haccepted
  · exact absurd hmem hnot
  · exact haccepted

/-- Calls that are underway begin with some that accept something and go on with some that
time out, before another one accepts something. -/
theorem Underway.split {sends : List SendResult} (h : Underway sends) :
    ∃ accepts t more, sends = accepts ++ (List.replicate t .timedOut ++ more) ∧
      Accepting accepts ∧
      (more = [] ∨ ∃ n more', 0 < n ∧ more = .accepted n :: more' ∧ 0 < t) := by
  induction sends with
  | nil => exact ⟨[], 0, [], rfl, accepting_nil, .inl rfl⟩
  | cons result sends ih =>
      obtain ⟨accepts, t, more, rfl, hacc, hmore⟩ :=
        ih fun r hr => h r (List.mem_cons_of_mem _ hr)
      rcases h result List.mem_cons_self with rfl | ⟨n, hn, rfl⟩
      · cases accepts with
        | nil =>
            refine ⟨[], t + 1, more, rfl, accepting_nil, hmore.imp_right ?_⟩
            rintro ⟨n, more', hn, rfl, -⟩
            exact ⟨n, more', hn, rfl, Nat.succ_pos t⟩
        | cons first accepts =>
            obtain ⟨n, hn, rfl⟩ := hacc first List.mem_cons_self
            exact ⟨[], 1, _, rfl, accepting_nil, .inr ⟨n, _, hn, rfl, Nat.one_pos⟩⟩
      · exact ⟨.accepted n :: accepts, t, more, rfl, hacc.cons hn, hmore⟩

/-! ### Rounds -/

section Rounds

variable {buffer : List UInt8} (hlen : buffer.length < 2 ^ 32) {totalBytesSent : UInt32}
  {socket : Socket} {rest : List SendResult}

/-- Adding the result of a `send` that accepts something. -/
theorem toNat_add_ofInt {n : ℕ} (h : totalBytesSent.toNat + n < 2 ^ 32) :
    (totalBytesSent + UInt32.ofInt n).toNat = totalBytesSent.toNat + n := by
  have hn : (UInt32.ofInt n).toNat = n := by
    rw [UInt32.ofInt, UInt32.toNat_ofNat']
    omega
  rw [UInt32.toNat_add, hn]
  exact Nat.mod_eq_of_lt h

/-- Adding the result of a `send` that times out. -/
theorem toNat_add_ofInt_neg_one :
    (totalBytesSent + UInt32.ofInt (-1)).toNat =
      if totalBytesSent.toNat = 0 then 2 ^ 32 - 1 else totalBytesSent.toNat - 1 := by
  have hn : (UInt32.ofInt (-1)).toNat = 2 ^ 32 - 1 := rfl
  have hlt := totalBytesSent.toNat_lt
  rw [UInt32.toNat_add, hn]
  split <;> omega

include hlen in
/-- A call that accepts something. -/
theorem sendForeverStep_accepted (hlt : totalBytesSent.toNat < buffer.length) {n : ℕ} (hn : 0 < n)
    (hsends : socket.sends = .accepted n :: rest) :
    ∃ (total' : UInt32) (socket' : Socket),
      total'.toNat = min (totalBytesSent.toNat + n) buffer.length ∧ socket'.sends = rest ∧
      socket'.sent = socket.sent ++ (buffer.drop totalBytesSent.toNat).take n ∧
      sendForeverStep buffer (totalBytesSent, socket) = some (.inl (total', socket')) := by
  have hcount : ((buffer.drop totalBytesSent.toNat).take n).length =
      min n (buffer.length - totalBytesSent.toNat) := by
    rw [List.length_take, List.length_drop]
  refine ⟨totalBytesSent + UInt32.ofInt ((buffer.drop totalBytesSent.toNat).take n).length,
    { socket with
      sends := rest
      sent := socket.sent ++ (buffer.drop totalBytesSent.toNat).take n }, ?_, rfl, rfl, ?_⟩
  · rw [toNat_add_ofInt (by omega), hcount]
    omega
  · rw [sendForeverStep, if_pos hlt, Socket.send, hsends]
    simp only []
    rw [if_neg (by omega)]

/-- A call that times out. -/
theorem sendForeverStep_timedOut (hlt : totalBytesSent.toNat < buffer.length)
    (hsends : socket.sends = .timedOut :: rest) :
    ∃ (total' : UInt32) (socket' : Socket),
      total'.toNat =
        (if totalBytesSent.toNat = 0 then 2 ^ 32 - 1 else totalBytesSent.toNat - 1) ∧
      socket'.sends = rest ∧ socket'.sent = socket.sent ∧
      sendForeverStep buffer (totalBytesSent, socket) = some (.inl (total', socket')) := by
  refine ⟨_, { socket with sends := rest, errno := .again }, toNat_add_ofInt_neg_one, rfl, rfl, ?_⟩
  rw [sendForeverStep, if_pos hlt, Socket.send, hsends]
  rfl

/-- The result of a call with which `SendForever` gives up: a hard error, or 0. -/
def HardEnd (last : SendResult) (result : ℤ) : Prop :=
  last = .failed ∧ result = -1 ∨ last = .accepted 0 ∧ result = 0

/-- A call with which `SendForever` gives up. -/
theorem sendForeverStep_hardEnd (hlt : totalBytesSent.toNat < buffer.length)
    {last : SendResult} {result : ℤ} (hlast : HardEnd last result)
    (hsends : socket.sends = last :: rest) :
    ∃ socket', sendForeverStep buffer (totalBytesSent, socket) = some (.inr (result, socket')) ∧
      socket'.sends = rest ∧ socket'.sent = socket.sent := by
  rcases hlast with ⟨rfl, rfl⟩ | ⟨rfl, rfl⟩
  · refine ⟨{ socket with sends := rest, errno := .other }, ?_, rfl, rfl⟩
    rw [sendForeverStep, if_pos hlt, Socket.send, hsends]
    rfl
  · refine ⟨{ socket with sends := rest, sent := socket.sent ++ [] }, ?_, rfl,
      List.append_nil _⟩
    rw [sendForeverStep, if_pos hlt, Socket.send, hsends]
    rfl

include hlen in
/-- **Calls that accept something** send the bytes that come next. -/
theorem goesOn_accepts {accepts : List SendResult} (hacc : Accepting accepts)
    (hroom : totalBytesSent.toNat + counted accepts ≤ buffer.length)
    (hsends : socket.sends = accepts ++ rest) :
    ∃ (total' : UInt32) (socket' : Socket),
      total'.toNat = totalBytesSent.toNat + counted accepts ∧ socket'.sends = rest ∧
      socket'.sent =
        socket.sent ++ (buffer.drop totalBytesSent.toNat).take (counted accepts) ∧
      GoesOn (sendForeverStep buffer) accepts.length (totalBytesSent, socket)
        (total', socket') := by
  induction accepts generalizing totalBytesSent socket with
  | nil =>
      refine ⟨totalBytesSent, socket, rfl, hsends, ?_, .refl _⟩
      rw [counted_nil, List.take_zero, List.append_nil]
  | cons result accepts ih =>
      obtain ⟨n, hn, rfl⟩ := hacc result List.mem_cons_self
      rw [counted_accepted] at hroom ⊢
      have hlt : totalBytesSent.toNat < buffer.length := by omega
      obtain ⟨total₁, socket₁, htotal₁, hsends₁, hsent₁, hstep⟩ :=
        sendForeverStep_accepted hlen hlt hn hsends
      rw [Nat.min_eq_left (by omega)] at htotal₁
      have hroom' : total₁.toNat + counted accepts ≤ buffer.length := by omega
      obtain ⟨total', socket', htotal', hrest, hsent, hgoes⟩ := ih hacc.tail hroom' hsends₁
      refine ⟨total', socket', by omega, hrest, ?_, .head hstep hgoes⟩
      rw [hsent, hsent₁, List.take_add, List.append_assoc, List.drop_drop, htotal₁]

include hlen in
/-- From the start, calls that accept something send the beginning of the buffer. -/
theorem goesOn_accepts_start {accepts : List SendResult} (hacc : Accepting accepts)
    (hroom : counted accepts ≤ buffer.length) (hsends : socket.sends = accepts ++ rest) :
    ∃ (total' : UInt32) (socket' : Socket),
      total'.toNat = counted accepts ∧ socket'.sends = rest ∧
      socket'.sent = socket.sent ++ buffer.take (counted accepts) ∧
      GoesOn (sendForeverStep buffer) accepts.length (0, socket) (total', socket') := by
  have hzero : (0 : UInt32).toNat + counted accepts = counted accepts := Nat.zero_add _
  have hgoes := goesOn_accepts hlen hacc (hzero.symm ▸ hroom) hsends
  rwa [hzero, UInt32.toNat_zero, List.drop_zero] at hgoes

/-- **Calls that time out** take back as many bytes. -/
theorem goesOn_timeouts {t : ℕ} (ht : t ≤ totalBytesSent.toNat)
    (hlt : totalBytesSent.toNat < buffer.length)
    (hsends : socket.sends = List.replicate t .timedOut ++ rest) :
    ∃ (total' : UInt32) (socket' : Socket), total'.toNat = totalBytesSent.toNat - t ∧
      socket'.sends = rest ∧ socket'.sent = socket.sent ∧
      GoesOn (sendForeverStep buffer) t (totalBytesSent, socket) (total', socket') := by
  induction t generalizing totalBytesSent socket with
  | zero => exact ⟨totalBytesSent, socket, rfl, hsends, rfl, .refl _⟩
  | succ t ih =>
      obtain ⟨total₁, socket₁, htotal₁, hsends₁, hsent₁, hstep⟩ :=
        sendForeverStep_timedOut hlt hsends
      rw [if_neg (by omega)] at htotal₁
      have hroom : t ≤ total₁.toNat := by omega
      obtain ⟨total', socket', htotal', hrest, hsent, hgoes⟩ := ih hroom (by omega) hsends₁
      exact ⟨total', socket', by omega, hrest, hsent.trans hsent₁, .head hstep hgoes⟩

include hlen in
/-- **One round** ends the loop, with what has been counted or with a call that gives up, or
goes on after a call that accepts something or times out. -/
theorem sendForeverStep_cases {out : (UInt32 × Socket) ⊕ (ℤ × Socket)}
    (h : sendForeverStep buffer (totalBytesSent, socket) = some out) :
    (buffer.length ≤ totalBytesSent.toNat ∧
      out = .inr (totalBytesSent.toInt32.toInt, socket)) ∨
    totalBytesSent.toNat < buffer.length ∧
      ((∃ last result socket', HardEnd last result ∧ socket'.sent = socket.sent ∧
          out = .inr (result, socket')) ∨
        (∃ (n : ℕ) (total' : UInt32) (socket' : Socket), 0 < n ∧
          total'.toNat = min (totalBytesSent.toNat + n) buffer.length ∧
          socket'.sent = socket.sent ++ (buffer.drop totalBytesSent.toNat).take n ∧
          out = .inl (total', socket')) ∨
        ∃ (total' : UInt32) (socket' : Socket),
          total'.toNat =
            (if totalBytesSent.toNat = 0 then 2 ^ 32 - 1 else totalBytesSent.toNat - 1) ∧
          socket'.sent = socket.sent ∧ out = .inl (total', socket')) := by
  rcases Nat.lt_or_ge totalBytesSent.toNat buffer.length with hlt | hge
  · refine .inr ⟨hlt, ?_⟩
    have hend : ∀ last result, HardEnd last result → ∀ rest, socket.sends = last :: rest →
        ∃ socket', socket'.sent = socket.sent ∧ out = .inr (result, socket') := by
      intro last result hlast rest hsends
      obtain ⟨socket', hstep, -, hsent⟩ := sendForeverStep_hardEnd hlt hlast hsends
      exact ⟨socket', hsent, Option.some.inj (h.symm.trans hstep)⟩
    rcases hsends : socket.sends with - | ⟨result, rest⟩
    · rw [sendForeverStep, if_pos hlt, Socket.send, hsends] at h
      cases h
    · cases result with
      | accepted n =>
          rcases Nat.eq_zero_or_pos n with rfl | hn
          · obtain ⟨socket', hsent, hout⟩ := hend _ _ (.inr ⟨rfl, rfl⟩) rest hsends
            exact .inl ⟨_, _, socket', .inr ⟨rfl, rfl⟩, hsent, hout⟩
          · obtain ⟨total', socket', htotal, -, hsent, hstep⟩ :=
              sendForeverStep_accepted hlen hlt hn hsends
            exact .inr (.inl ⟨n, total', socket', hn, htotal, hsent,
              Option.some.inj (h.symm.trans hstep)⟩)
      | timedOut =>
          obtain ⟨total', socket', htotal, -, hsent, hstep⟩ := sendForeverStep_timedOut hlt hsends
          exact .inr (.inr ⟨total', socket', htotal, hsent,
            Option.some.inj (h.symm.trans hstep)⟩)
      | failed =>
          obtain ⟨socket', hsent, hout⟩ := hend _ _ (.inl ⟨rfl, rfl⟩) rest hsends
          exact .inl ⟨_, _, socket', .inl ⟨rfl, rfl⟩, hsent, hout⟩
  · rw [sendForeverStep, if_neg (by omega), Option.some.injEq] at h
    exact .inl ⟨hge, h.symm⟩

end Rounds

/-! ### A buffer that is accepted whole -/

section Complete

variable {buffer : List UInt8} {before rest : List SendResult} {socket : Socket}

/-- `SendForever` sends the buffer once and returns its length. -/
def SendsAll (buffer : List UInt8) (socket : Socket) : Prop :=
  ∃ fuel socket', sendForever fuel buffer socket = some ((buffer.length : ℤ), socket') ∧
    socket'.sent = socket.sent ++ buffer

/-- A loop that ends returns an `int`. -/
theorem sendForever_lt {fuel : ℕ} {result : ℤ} {socket' : Socket}
    (h : sendForever fuel buffer socket = some (result, socket')) : result < 2147483648 := by
  refine whileLoop_inv (fun _ => True) (fun r => r.1 < 2147483648)
    (fun _ _ _ _ => trivial) ?_ trivial h
  rintro ⟨total, socket₁⟩ ⟨result, socket₂⟩ - hstep
  rw [sendForeverStep] at hstep
  split at hstep
  · split at hstep
    · cases hstep
    · split at hstep
      · next hgiveUp =>
          cases hstep
          simp only []
          omega
      · cases hstep
  · cases hstep
    exact total.toInt32.toInt_lt

/-- After a timeout, more bytes have been accepted than are counted, or the count is beyond any
length. -/
def Overcounted (buffer sent : List UInt8) (s : UInt32 × Socket) : Prop :=
  (∃ accepted, s.2.sent = sent ++ accepted ∧ s.1.toNat < accepted.length ∧
    s.1.toNat ≤ buffer.length) ∨ s.1.toNat = 2 ^ 32 - 1

/-- A round that goes on keeps the loop overcounted. -/
theorem Overcounted.step (hlen : buffer.length < 2 ^ 32) {sent : List UInt8}
    {s s' : UInt32 × Socket} (h : Overcounted buffer sent s)
    (hstep : sendForeverStep buffer s = some (.inl s')) : Overcounted buffer sent s' := by
  obtain ⟨total, socket⟩ := s
  rcases sendForeverStep_cases hlen hstep with
    ⟨-, hout⟩ | ⟨hlt, ⟨_, _, _, -, -, hout⟩ | ⟨n, total', socket', hn, htotal, hsent, hout⟩ |
      ⟨total', socket', htotal, hsent, hout⟩⟩
  · cases hout
  · cases hout
  · cases hout
    rcases h with ⟨accepted, hacc, hmore, -⟩ | hwrapped
    · refine .inl ⟨accepted ++ (buffer.drop total.toNat).take n, ?_, ?_, ?_⟩
      · rw [hsent, hacc, List.append_assoc]
      · simp only [List.length_append, List.length_take, List.length_drop]
        simp only [] at hmore
        omega
      · simp only []
        omega
    · simp only [] at hwrapped
      omega
  · cases hout
    rcases h with ⟨accepted, hacc, hmore, hle⟩ | hwrapped
    · by_cases hzero : total.toNat = 0
      · rw [if_pos hzero] at htotal
        exact .inr htotal
      · rw [if_neg hzero] at htotal
        simp only [] at hmore hle
        refine .inl ⟨accepted, hsent.trans hacc, ?_, ?_⟩
        · simp only []
          omega
        · simp only []
          omega
    · simp only [] at hwrapped
      omega

/-- An overcounted loop that ends has sent more than it returns, or returns no length. -/
theorem Overcounted.result (hlen : buffer.length < 2 ^ 31) {sent : List UInt8}
    {s : UInt32 × Socket} (h : Overcounted buffer sent s) {r : ℤ × Socket}
    (hstep : sendForeverStep buffer s = some (.inr r)) :
    ¬ (r.1 = buffer.length ∧ r.2.sent = sent ++ buffer) := by
  obtain ⟨total, socket⟩ := s
  have hlen' : buffer.length < 2 ^ 32 := by omega
  rintro ⟨hresult, hall⟩
  rcases sendForeverStep_cases hlen' hstep with
    ⟨hge, hout⟩ | ⟨hlt, ⟨last, _, _, hlast, -, hout⟩ | ⟨_, _, _, -, -, -, hout⟩ |
      ⟨_, _, -, -, hout⟩⟩
  · cases hout
    rcases h with ⟨accepted, hacc, hmore, hle⟩ | hwrapped
    · have hsame := List.append_cancel_left (hacc.symm.trans hall)
      simp only [hsame] at hmore
      omega
    · have htotal : total = UInt32.ofNat (2 ^ 32 - 1) := UInt32.toNat_inj.mp hwrapped
      have hneg : (UInt32.ofNat (2 ^ 32 - 1)).toInt32.toInt = -1 := rfl
      simp only [htotal, hneg] at hresult
      omega
  · cases hout
    simp only [] at hresult
    rcases hlast with ⟨-, rfl⟩ | ⟨-, rfl⟩
    · omega
    · omega
  · cases hout
  · cases hout

/-- **A loop that has timed out does not send the buffer once.** -/
theorem Overcounted.not_sendsAll (hlen : buffer.length < 2 ^ 31) {sent : List UInt8}
    {s : UInt32 × Socket} (h : Overcounted buffer sent s) {fuel : ℕ} {r : ℤ × Socket}
    (hrun : whileLoop (sendForeverStep buffer) fuel s = some r) :
    ¬ (r.1 = buffer.length ∧ r.2.sent = sent ++ buffer) :=
  whileLoop_inv (Overcounted buffer sent)
    (fun r => ¬ (r.1 = (buffer.length : ℤ) ∧ r.2.sent = sent ++ buffer))
    (fun _ _ hover hstep => hover.step (by omega) hstep)
    (fun _ _ hover hstep => hover.result hlen hstep) h hrun

/-- Without timeouts the buffer is sent once, if its length is an `int`. -/
theorem sendsAll_of_accepting (hlen : buffer.length < 2 ^ 31) (hacc : Accepting before)
    (hsends : socket.sends = before ++ rest) (henough : buffer.length ≤ counted before)
    (hmin : before = [] ∨ counted before.dropLast < buffer.length) : SendsAll buffer socket := by
  have hlen' : buffer.length < 2 ^ 32 := by omega
  have hend : ∀ (total : UInt32) (socket' : Socket), total.toNat = buffer.length →
      sendForeverStep buffer (total, socket') = some (.inr ((buffer.length : ℤ), socket')) := by
    intro total socket' htotal
    rw [sendForeverStep, if_neg (by omega), toInt_toInt32_of_lt (by omega), htotal]
  rcases List.eq_nil_or_concat' before with rfl | ⟨init, last, rfl⟩
  · obtain rfl : buffer = [] := List.eq_nil_of_length_eq_zero (Nat.le_zero.mp henough)
    exact ⟨1, socket, whileLoop_return (hend 0 socket rfl) 0, (List.append_nil _).symm⟩
  · obtain ⟨n, hn, rfl⟩ := hacc last (by simp)
    have hinit : counted init < buffer.length := by
      rcases hmin with hnil | hmin
      · exact absurd hnil (by simp)
      · rwa [List.dropLast_concat] at hmin
    rw [counted_append, counted_accepted, counted_nil] at henough
    rw [List.append_assoc] at hsends
    obtain ⟨total₁, socket₁, htotal₁, hsends₁, hsent₁, hgoes⟩ :=
      goesOn_accepts_start hlen' (fun r hr => hacc r (List.mem_append_left _ hr))
        (Nat.le_of_lt hinit) hsends
    obtain ⟨total₂, socket₂, htotal₂, -, hsent₂, hstep⟩ :=
      sendForeverStep_accepted hlen' (htotal₁ ▸ hinit) hn hsends₁
    rw [Nat.min_eq_right (by omega)] at htotal₂
    obtain ⟨fuel, hrun⟩ := hgoes.returns_iff.mpr
      ⟨2, (whileLoop_continue hstep 1).trans (whileLoop_return (hend total₂ socket₂ htotal₂) 0)⟩
    refine ⟨fuel, socket₂, hrun, ?_⟩
    rw [hsent₂, hsent₁, htotal₁, List.append_assoc, ← List.take_add,
      List.take_of_length_le (by omega)]

/-- **A buffer that is accepted whole** is sent once exactly if its length is an `int` and no
call times out. -/
theorem sendsAll_iff (hunder : Underway before) (hsends : socket.sends = before ++ rest)
    (henough : buffer.length ≤ counted before)
    (hmin : before = [] ∨ counted before.dropLast < buffer.length) :
    SendsAll buffer socket ↔ buffer.length < 2 ^ 31 ∧ .timedOut ∉ before := by
  constructor
  · rintro ⟨fuel, socket', hrun, hsent⟩
    have hlen : buffer.length < 2 ^ 31 := by
      have hint := sendForever_lt hrun
      omega
    have hlen' : buffer.length < 2 ^ 32 := by omega
    refine ⟨hlen, fun hmem => ?_⟩
    -- the calls before the first timeout accept something
    obtain ⟨accepts, more, rfl, hnot⟩ := List.eq_append_cons_of_mem hmem
    have hacc : Accepting accepts :=
      Underway.accepting (fun r hr => hunder r (List.mem_append_left _ hr)) hnot
    have hshort : counted accepts < buffer.length := by
      rcases hmin with hnil | hmin
      · exact absurd hnil (by simp)
      · rw [List.dropLast_append_cons, counted_append] at hmin
        omega
    rw [List.append_assoc] at hsends
    obtain ⟨total₁, socket₁, htotal₁, hsends₁, hsent₁, hgoes⟩ :=
      goesOn_accepts_start hlen' hacc (Nat.le_of_lt hshort) hsends
    obtain ⟨total₂, socket₂, htotal₂, -, hsent₂, hstep⟩ :=
      sendForeverStep_timedOut (htotal₁ ▸ hshort) hsends₁
    have hover : Overcounted buffer socket.sent (total₂, socket₂) := by
      by_cases hzero : total₁.toNat = 0
      · rw [if_pos hzero] at htotal₂
        exact .inr htotal₂
      · rw [if_neg hzero] at htotal₂
        refine .inl ⟨_, hsent₂.trans hsent₁, ?_, ?_⟩
        · simp only [List.length_take]
          omega
        · simp only []
          omega
    obtain ⟨fuel', hrun'⟩ := ((GoesOn.head hstep (.refl _)).returns_iff).mp
      (hgoes.returns_iff.mp ⟨fuel, hrun⟩)
    exact hover.not_sendsAll hlen hrun' ⟨rfl, hsent⟩
  · rintro ⟨hlen, hnot⟩
    exact sendsAll_of_accepting hlen (hunder.accepting hnot) hsends henough hmin

end Complete

/-! ### A send that gives up -/

section GivesUp

variable {n : ℕ} (hn : n < 2 ^ 32) {before rest : List SendResult} {socket : Socket}
  {last : SendResult} {result : ℤ}

/-- `SendForever` returns `result` with `rest` still to come, and what the socket has accepted is
the beginning of the buffer. -/
def FailsWith (buffer : List UInt8) (socket : Socket) (result : ℤ) (rest : List SendResult) :
    Prop :=
  ∃ fuel accepted socket', sendForever fuel buffer socket = some (result, socket') ∧
    socket'.sends = rest ∧ accepted <+: buffer ∧ socket'.sent = socket.sent ++ accepted

/-- What has been accepted stays. -/
theorem sent_prefix_of_whileLoop {buffer : List UInt8} (hlen : buffer.length < 2 ^ 32)
    {s : UInt32 × Socket} {fuel : ℕ} {r : ℤ × Socket}
    (h : whileLoop (sendForeverStep buffer) fuel s = some r) : s.2.sent <+: r.2.sent := by
  refine whileLoop_inv (fun s' => s.2.sent <+: s'.2.sent) (fun r => s.2.sent <+: r.2.sent)
    ?_ ?_ (List.prefix_refl _) h
  · rintro ⟨total, socket⟩ s' hle hstep
    rcases sendForeverStep_cases hlen hstep with
      ⟨-, hout⟩ | ⟨-, ⟨_, _, _, -, -, hout⟩ | ⟨n, total', socket', -, -, hsent, hout⟩ |
        ⟨total', socket', -, hsent, hout⟩⟩
    · cases hout
    · cases hout
    · cases hout
      exact hsent ▸ hle.trans (List.prefix_append _ _)
    · cases hout
      exact hsent ▸ hle
  · rintro ⟨total, socket⟩ r hle hstep
    rcases sendForeverStep_cases hlen hstep with
      ⟨-, hout⟩ | ⟨-, ⟨_, _, socket', -, hsent, hout⟩ | ⟨_, _, _, -, -, -, hout⟩ |
        ⟨_, _, -, -, hout⟩⟩
    · cases hout
      exact hle
    · cases hout
      exact hsent ▸ hle
    · cases hout
    · cases hout

/-- **More timeouts than bytes**: the number of bytes sent wraps, and the loop ends without the
calls that are left. -/
theorem not_failsWith_of_lt {buffer : List UInt8} (hlen : buffer.length < 2 ^ 32)
    {accepts more : List SendResult} (hacc : Accepting accepts)
    (hshort : counted accepts < buffer.length) {t : ℕ} (ht : counted accepts < t)
    (hsends : socket.sends = accepts ++ (List.replicate t .timedOut ++ more))
    (hmore : rest.length < more.length) : ¬ FailsWith buffer socket result rest := by
  rintro ⟨fuel, accepted, socket', hrun, hrest, -, -⟩
  obtain ⟨total₁, socket₁, htotal₁, hsends₁, -, hgoes₁⟩ :=
    goesOn_accepts_start hlen hacc (Nat.le_of_lt hshort) hsends
  obtain ⟨extra, rfl⟩ := Nat.exists_eq_add_of_lt ht
  have hsplit : List.replicate (counted accepts + extra + 1) SendResult.timedOut ++ more =
      List.replicate (counted accepts) .timedOut ++
        (.timedOut :: (List.replicate extra .timedOut ++ more)) := by
    rw [Nat.add_assoc, List.replicate_add, List.append_assoc, List.replicate_succ]
    rfl
  rw [hsplit] at hsends₁
  obtain ⟨total₂, socket₂, htotal₂, hsends₂, -, hgoes₂⟩ :=
    goesOn_timeouts (Nat.le_of_eq htotal₁.symm) (htotal₁ ▸ hshort) hsends₁
  have hlt : total₂.toNat < buffer.length := by omega
  obtain ⟨total₃, socket₃, htotal₃, hsends₃, -, hstep⟩ := sendForeverStep_timedOut hlt hsends₂
  rw [if_pos (by omega)] at htotal₃
  have hend : sendForeverStep buffer (total₃, socket₃) =
      some (.inr (total₃.toInt32.toInt, socket₃)) := by
    rw [sendForeverStep, if_neg (by omega)]
  obtain ⟨fuel', hrun'⟩ := (hgoes₁.trans hgoes₂).returns_iff.mpr
    ⟨2, (whileLoop_continue hstep 1).trans (whileLoop_return hend 0)⟩
  have hsame := congrArg (fun r => r.2.sends.length) (whileLoop_unique hrun hrun')
  simp only [hrest, hsends₃, List.length_append] at hsame
  omega

/-- A buffer whose bytes tell one place from the others. -/
theorem exists_marked (n place : ℕ) : ∃ buffer : List UInt8, buffer.length = n ∧
    ∀ i, i < n → buffer[i]? = some (if i = place then 1 else 0) := by
  refine ⟨(List.range n).map fun i => if i = place then 1 else 0, by simp, fun i hi => ?_⟩
  rw [List.getElem?_map, List.getElem?_range hi]
  rfl

/-- **A call that accepts something after a timeout** is offered an earlier byte in the place of the
next one. -/
theorem not_failsWith_of_resent {buffer : List UInt8} (hlen : buffer.length < 2 ^ 32)
    {accepts more : List SendResult} (hacc : Accepting accepts)
    (hshort : counted accepts < buffer.length)
    (hmark : ∀ i, i < buffer.length → buffer[i]? = some (if i = counted accepts then 1 else 0))
    {t k : ℕ} (ht : 0 < t) (hle : t ≤ counted accepts) (hk : 0 < k)
    (hsends : socket.sends = accepts ++ (List.replicate t .timedOut ++ .accepted k :: more)) :
    ¬ FailsWith buffer socket result rest := by
  rintro ⟨fuel, accepted, socket', hrun, -, hinit, hsent⟩
  obtain ⟨total₁, socket₁, htotal₁, hsends₁, hsent₁, hgoes₁⟩ :=
    goesOn_accepts_start hlen hacc (Nat.le_of_lt hshort) hsends
  obtain ⟨total₂, socket₂, htotal₂, hsends₂, hsent₂, hgoes₂⟩ :=
    goesOn_timeouts (htotal₁ ▸ hle) (htotal₁ ▸ hshort) hsends₁
  have hlt : total₂.toNat < buffer.length := by omega
  obtain ⟨total₃, socket₃, -, -, hsent₃, hstep⟩ := sendForeverStep_accepted hlen hlt hk hsends₂
  obtain ⟨fuel', hrun'⟩ := ((GoesOn.head hstep (.refl _)).returns_iff).mp
    ((hgoes₁.trans hgoes₂).returns_iff.mp ⟨fuel, hrun⟩)
  have hgrown := sent_prefix_of_whileLoop hlen hrun'
  simp only [] at hgrown
  rw [hsent, hsent₃, hsent₂, hsent₁, List.append_assoc, List.prefix_append_right_inj] at hgrown
  obtain ⟨tail, htail⟩ := hgrown.trans hinit
  have hplace : (buffer.take (counted accepts)).length = counted accepts := by
    rw [List.length_take]
    omega
  have hwrong : (buffer.take (counted accepts) ++
      (buffer.drop total₂.toNat).take k)[counted accepts]? = some 0 := by
    rw [List.getElem?_append_right (Nat.le_of_eq hplace), hplace, Nat.sub_self,
      List.getElem?_take_of_lt hk, List.getElem?_drop, Nat.add_zero, hmark _ (by omega),
      if_neg (by omega)]
  have hright := hmark _ hshort
  rw [if_pos rfl, ← htail,
    List.getElem?_append_left (List.getElem?_eq_some_iff.mp hwrong).1, hwrong] at hright
  cases hright

include hn

/-- Timeouts that come last take nothing from what has been accepted. -/
theorem failsWith_of_accepting {accepts : List SendResult} (hacc : Accepting accepts) {t : ℕ}
    (ht : t ≤ counted accepts) (hshort : counted accepts < n) (hlast : HardEnd last result)
    (hsends : socket.sends = accepts ++ (List.replicate t .timedOut ++ last :: rest))
    {buffer : List UInt8} (hbuffer : buffer.length = n) : FailsWith buffer socket result rest := by
  have hlen : buffer.length < 2 ^ 32 := hbuffer ▸ hn
  obtain ⟨total₁, socket₁, htotal₁, hsends₁, hsent₁, hgoes₁⟩ :=
    goesOn_accepts_start hlen hacc (hbuffer ▸ Nat.le_of_lt hshort) hsends
  have hlt : total₁.toNat < buffer.length := by omega
  obtain ⟨total₂, socket₂, htotal₂, hsends₂, hsent₂, hgoes₂⟩ :=
    goesOn_timeouts (htotal₁ ▸ ht) hlt hsends₁
  have hlt' : total₂.toNat < buffer.length := by omega
  obtain ⟨socket₃, hstep, hsends₃, hsent₃⟩ := sendForeverStep_hardEnd hlt' hlast hsends₂
  obtain ⟨fuel, hrun⟩ := (hgoes₁.trans hgoes₂).returns_iff.mpr ⟨1, whileLoop_return hstep 0⟩
  refine ⟨fuel, buffer.take (counted accepts), socket₃, hrun, hsends₃, List.take_prefix _ _, ?_⟩
  rw [hsent₃, hsent₂, hsent₁]

/-- **A send that gives up** has sent the beginning of every buffer of its length exactly if all
timeouts come directly before the end, and are no more than the bytes accepted by then. -/
theorem failsWith_iff (hunder : Underway before) (hshort : counted before < n)
    (hlast : HardEnd last result) (hsends : socket.sends = before ++ last :: rest) :
    (∀ buffer : List UInt8, buffer.length = n → FailsWith buffer socket result rest) ↔
      ∃ accepts t, before = accepts ++ List.replicate t .timedOut ∧ Accepting accepts ∧
        t ≤ counted accepts := by
  constructor
  · intro hall
    obtain ⟨accepts, t, more, rfl, hacc, hmore⟩ := hunder.split
    have hcount : counted accepts < n := by
      rw [counted_append] at hshort
      omega
    rw [List.append_assoc, List.append_assoc] at hsends
    -- the byte after the accepted ones differs from all others
    obtain ⟨buffer, rfl, hmark⟩ := exists_marked n (counted accepts)
    have hfails := hall buffer rfl
    rcases Nat.lt_or_ge (counted accepts) t with hmany | hle
    · refine absurd hfails (not_failsWith_of_lt hn hacc hcount hmany hsends ?_)
      rw [List.length_append, List.length_cons]
      omega
    · rcases hmore with rfl | ⟨k, more', hk, rfl, ht⟩
      · exact ⟨accepts, t, by rw [List.append_nil], hacc, hle⟩
      · exact absurd hfails (not_failsWith_of_resent hn hacc hcount hmark ht hle hk hsends)
  · rintro ⟨accepts, t, rfl, hacc, ht⟩ buffer hbuffer
    rw [List.append_assoc] at hsends
    have hcount : counted accepts < n := by
      rw [counted_append] at hshort
      omega
    exact failsWith_of_accepting hn hacc ht hcount hlast hsends hbuffer

end GivesUp

/-- **When `SendForever` sends the buffer exactly once.** The calls of `before` accept something or
time out. If they are just enough for the buffer, it is sent once and its length returned exactly
if none of them times out and the length is an `int`. If they are not, and a hard error or 0
comes behind them, `SendForever` returns that with the beginning of the buffer sent, whatever the
buffer holds, exactly if the timeouts come last and are no more than the bytes accepted. -/
theorem sendForever_once_iff {before : List SendResult} (hunder : Underway before) :
    (∀ (buffer : List UInt8) (socket : Socket) (rest : List SendResult),
      socket.sends = before ++ rest → buffer.length ≤ counted before →
      before = [] ∨ counted before.dropLast < buffer.length →
      (SendsAll buffer socket ↔ buffer.length < 2 ^ 31 ∧ .timedOut ∉ before)) ∧
    ∀ (n : ℕ) (socket : Socket) (last : SendResult) (result : ℤ) (rest : List SendResult),
      n < 2 ^ 32 → counted before < n → HardEnd last result →
      socket.sends = before ++ last :: rest →
      ((∀ buffer : List UInt8, buffer.length = n → FailsWith buffer socket result rest) ↔
        ∃ accepts t, before = accepts ++ List.replicate t .timedOut ∧ Accepting accepts ∧
          t ≤ counted accepts) :=
  ⟨fun _ _ _ hsends henough hmin => sendsAll_iff hunder hsends henough hmin,
    fun _ _ _ _ _ hn hshort hlast hsends => failsWith_iff hn hunder hshort hlast hsends⟩

/-- Two calls that send a buffer of three bytes, and a hard error in place of the second. -/
theorem sendForever_once_three :
    SendsAll [1, 2, 3] { sends := [.accepted 2, .accepted 5] } ∧
    FailsWith [1, 2, 3] { sends := [.accepted 2, .timedOut, .failed] } (-1) [] := by
  constructor
  · have hunder : Underway [.accepted 2, .accepted 5] := by
      intro result hmem
      simp only [List.mem_cons, List.not_mem_nil, or_false] at hmem
      rcases hmem with rfl | rfl
      · exact .inr ⟨2, by omega, rfl⟩
      · exact .inr ⟨5, by omega, rfl⟩
    exact ((sendForever_once_iff hunder).1 [1, 2, 3] _ [] rfl (by decide) (by decide)).mpr
      (by decide)
  · have hunder : Underway [.accepted 2, .timedOut] := by
      intro result hmem
      simp only [List.mem_cons, List.not_mem_nil, or_false] at hmem
      rcases hmem with rfl | rfl
      · exact .inr ⟨2, by omega, rfl⟩
      · exact .inl rfl
    exact ((sendForever_once_iff hunder).2 3 { sends := [.accepted 2, .timedOut, .failed] } _ _ []
      (by omega) (by decide) (.inl ⟨rfl, rfl⟩) rfl).mpr
      ⟨[.accepted 2], 1, rfl, accepting_singleton (by omega), by decide⟩ [1, 2, 3] rfl

/-- A timeout after the first byte: the byte is sent twice. -/
theorem sendForever_repeats :
    sendForever 5 [1, 2] { sends := [.accepted 1, .timedOut, .accepted 5] } =
        some (2, { sent := [1, 1, 2], errno := .again }) ∧
      ¬ SendsAll [1, 2] { sends := [.accepted 1, .timedOut, .accepted 5] } := by
  have hrun : sendForever 5 [1, 2] { sends := [.accepted 1, .timedOut, .accepted 5] } =
      some (2, { sent := [1, 1, 2], errno := .again }) := rfl
  refine ⟨hrun, ?_⟩
  rintro ⟨fuel, socket', hreturns, hsent⟩
  have hsame := congrArg (fun r => r.2.sent) (whileLoop_unique hrun hreturns)
  simp [hsent] at hsame

end Csci6780
