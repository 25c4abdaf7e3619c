import Csci6780.Bootstrap

/-!
# Entering the Ring

The bootstrap server sends an `EntranceInformation` with the id of the entering server around the
ring. The server before the gap fills in the successor, the server after it the predecessor, and
the bootstrap server, at the end, is to fill in what is missing where the gap is at one of the
ends of the ring. It and the last server ask `IsInitialized()` for what is missing; that says
whether the required members of a message are there, of which proto3 has none, and so it is true.

## Main results

* `entrance_answered_iff`: the entering server learns its true neighbours exactly when it enters
  between two name servers.
-/

namespace Csci6780.HashRing

open Nameserver

/-! ### The ring -/

/-- The place of the bootstrap server in the ring. -/
def Bootstrap.info (bs : Bootstrap) : ServerInfo := serverInfo 0 bs.bootstrap

/-- The place after the start of a row of servers that `last` follows. -/
def firstInfo (row : List Member) (last : ServerInfo) : ServerInfo :=
  (row.head?.map Member.info).getD last

theorem endpoint_firstInfo_cons (n : Member) (row : List Member) (last : ServerInfo) :
    (firstInfo (n :: row) last).endpoint = n.endpoint :=
  endpoint_serverInfo n.server.id n.endpoint

/-- Each server of a row, between `prev` and `last`, knows the one before and the one after it,
and the ids increase. -/
def Linked : ServerInfo → List Member → ServerInfo → Prop
  | _, [], _ => True
  | prev, m :: row, last =>
      prev.id < m.server.id ∧ m.server.predecessorInfo = prev ∧
        m.server.successorInfo = firstInfo row last ∧ Linked m.info row last

/-- The name servers of a ring, in order, starting after the bootstrap server. -/
structure InOrder (bs : Bootstrap) (members : List Member) : Prop where
  nonempty : members ≠ []
  row : Linked bs.info members bs.info
  first : bs.successor = (firstInfo members bs.info).endpoint
  last : bs.predecessorInfo = (members.getLast?.map Member.info).getD bs.info
  apart : ∀ m ∈ members, m.endpoint ≠ bs.bootstrap

/-- The ring is not empty. -/
theorem InOrder.successor_ne {bs : Bootstrap} {members : List Member} (h : InOrder bs members) :
    bs.successor ≠ bs.bootstrap := by
  obtain ⟨n, row, rfl⟩ := List.exists_cons_of_ne_nil h.nonempty
  rw [h.first, endpoint_firstInfo_cons]
  exact h.apart n List.mem_cons_self

/-- Pass an `EntranceInformation` through the name servers. -/
def rippleEntrance (members : List Member) (m : EntranceInformation) : EntranceInformation :=
  (ripple (fun ns m => (ns.handleEntranceInformation m).pass) (members.map Member.server) m).2

/-- The neighbours of the entering server: the greatest id below its own, and the least above it
or, if there is none, the bootstrap server. -/
structure TrueNeighbours (bs : Bootstrap) (members : List Member) (x : UInt32)
    (m : EntranceInformation) : Prop where
  predecessor : ∃ p ∈ bs.info :: members.map Member.info, p.id < x ∧
    (∀ q ∈ bs.info :: members.map Member.info, q.id < x → q.id ≤ p.id) ∧
      m.predecessorInfo = some p
  successor : ∃ p, ((p ∈ members.map Member.info ∧ x < p.id ∧
      ∀ q ∈ members.map Member.info, x < q.id → p.id ≤ q.id) ∨
    (p = bs.info ∧ ∀ q ∈ members.map Member.info, ¬x < q.id)) ∧ m.successorInfo = some p

/-- The entering server is told its true neighbours. -/
def EntranceAnswered (bs : Bootstrap) (members : List Member) (x : UInt32) (source : Endpoint) :
    Prop :=
  ∃ bs' started answer,
    bs.handleEntranceRequest { id := x } source =
      (bs', ((firstInfo members bs.info).endpoint, started)) ∧
      bs'.handleEntranceInformation (rippleEntrance members started) = some (source, answer) ∧
      TrueNeighbours bs members x answer

/-! ### What one server fills in -/

section OneServer

variable (ns : Nameserver) (m : EntranceInformation)

theorem handleEntranceInformation_id : (ns.handleEntranceInformation m).message.id = m.id := by
  simp only [handleEntranceInformation, isInitialized, if_true]
  split <;> split <;> (try split) <;> rfl

/-- The server after the gap fills in the predecessor. -/
theorem handleEntranceInformation_predecessorInfo :
    (ns.handleEntranceInformation m).message.predecessorInfo =
      if m.id < ns.id ∧ ns.predecessorId < m.id then some ns.predecessorInfo
      else m.predecessorInfo := by
  have hswap : ns.id < m.id ∧ m.id < ns.successorId → ¬(m.id < ns.id ∧ ns.predecessorId < m.id) :=
    fun h h' => UInt32.lt_asymm h.1 h'.1
  simp only [handleEntranceInformation, isInitialized, if_true]
  by_cases hsucc : ns.id < m.id ∧ m.id < ns.successorId
  · rw [if_pos hsucc, if_neg (hswap hsucc)]
    split <;> rfl
  · rw [if_neg hsucc]
    by_cases hpred : m.id < ns.id ∧ ns.predecessorId < m.id
    · rw [if_pos hpred, if_pos hpred]
      split <;> rfl
    · rw [if_neg hpred, if_neg hpred]
      split <;> rfl

/-- A member that is as it was, or was absent and has been made present. -/
def OnlyTouched (before after : Option ServerInfo) : Prop :=
  after = before ∨ before = none ∧ after = some {}

/-- The server before the gap fills in the successor. -/
theorem handleEntranceInformation_successorInfo :
    OnlyTouched
      (if ns.id < m.id ∧ m.id < ns.successorId then some ns.successorInfo else m.successorInfo)
      (ns.handleEntranceInformation m).message.successorInfo := by
  have htouch : ∀ o, OnlyTouched o (some (info o)) := by
    intro o
    cases o with
    | none => exact .inr ⟨rfl, rfl⟩
    | some i => exact .inl rfl
  simp only [handleEntranceInformation, isInitialized, if_true]
  by_cases hsucc : ns.id < m.id ∧ m.id < ns.successorId
  · rw [if_pos hsucc, if_pos hsucc]
    split
    · exact htouch _
    · exact .inl rfl
  · rw [if_neg hsucc, if_neg hsucc]
    by_cases hpred : m.id < ns.id ∧ ns.predecessorId < m.id
    · rw [if_pos hpred]
      split
      · exact htouch _
      · exact .inl rfl
    · rw [if_neg hpred]
      split
      · exact htouch _
      · exact .inl rfl

end OneServer

theorem OnlyTouched.trans {a b c : Option ServerInfo} (hab : OnlyTouched a b)
    (hbc : OnlyTouched b c) : OnlyTouched a c := by
  rcases hab with rfl | ⟨rfl, rfl⟩
  · exact hbc
  · rcases hbc with rfl | ⟨hnone, -⟩
    · exact .inr ⟨rfl, rfl⟩
    · cases hnone

theorem OnlyTouched.of_some {a : ServerInfo} {b : Option ServerInfo}
    (h : OnlyTouched (some a) b) : b = some a := by
  rcases h with rfl | ⟨hnone, -⟩
  · rfl
  · cases hnone

/-! ### What a row of servers fills in -/

section Rows

variable {prev last : ServerInfo} {row : List Member} {m : EntranceInformation}

theorem rippleEntrance_cons (n : Member) (row : List Member) (m : EntranceInformation) :
    rippleEntrance (n :: row) m =
      rippleEntrance row (n.server.handleEntranceInformation m).message := rfl

theorem rippleEntrance_append (row row' : List Member) (m : EntranceInformation) :
    rippleEntrance (row ++ row') m = rippleEntrance row' (rippleEntrance row m) := by
  rw [rippleEntrance, List.map_append, ripple_append]
  rfl

theorem rippleEntrance_id (row : List Member) (m : EntranceInformation) :
    (rippleEntrance row m).id = m.id :=
  ripple_keeps EntranceInformation.id
    (fun ns m => handleEntranceInformation_id ns m) (row.map Member.server) m

theorem Linked.lt_of_mem (h : Linked prev row last) {n : Member} (hn : n ∈ row) :
    prev.id < n.server.id := by
  induction row generalizing prev with
  | nil => cases hn
  | cons n' row ih =>
      obtain ⟨hlt, -, -, hrow⟩ := h
      rcases List.mem_cons.mp hn with rfl | hn
      · exact hlt
      · exact UInt32.lt_trans hlt (ih hrow hn)

/-- A row that is linked is linked up to each of its servers and after it. -/
theorem Linked.split {as bs : List Member} {n : Member}
    (h : Linked prev (as ++ n :: bs) last) :
    Linked prev as n.info ∧
      n.server.predecessorInfo = (as.getLast?.map Member.info).getD prev ∧
      Linked n.info bs last := by
  induction as generalizing prev with
  | nil => exact ⟨trivial, h.2.1, h.2.2.2⟩
  | cons a as ih =>
      obtain ⟨hlt, hpred, hsucc, hrow⟩ := h
      obtain ⟨has, hn, hbs⟩ := ih hrow
      refine ⟨⟨hlt, hpred, ?_, has⟩, ?_, hbs⟩
      · rw [hsucc]
        cases as <;> rfl
      · rw [hn]
        cases as with
        | nil => rfl
        | cons a' as => simp [List.getLast?_cons]

/-- Servers with greater ids than the entering one's predecessor leave the message as it is. -/
theorem rippleEntrance_above (h : Linked prev row last) (hprev : m.id < prev.id) :
    (rippleEntrance row m).predecessorInfo = m.predecessorInfo ∧
      OnlyTouched m.successorInfo (rippleEntrance row m).successorInfo := by
  induction row generalizing prev m with
  | nil => exact ⟨rfl, .inl rfl⟩
  | cons n row ih =>
      obtain ⟨hlt, hpred, hsucc, hrow⟩ := h
      have hpredId : n.server.predecessorId = prev.id := congrArg ServerInfo.id hpred
      have hid := handleEntranceInformation_id n.server m
      have habove : m.id < n.server.id := UInt32.lt_trans hprev hlt
      have hrest := ih (m := (n.server.handleEntranceInformation m).message) hrow (hid ▸ habove)
      have hpredInfo := handleEntranceInformation_predecessorInfo n.server m
      rw [if_neg fun h => UInt32.lt_asymm hprev (hpredId ▸ h.2)] at hpredInfo
      have hsuccInfo := handleEntranceInformation_successorInfo n.server m
      rw [if_neg fun h => UInt32.lt_asymm habove h.1] at hsuccInfo
      rw [rippleEntrance_cons]
      exact ⟨hrest.1.trans hpredInfo, hsuccInfo.trans hrest.2⟩

/-- Servers with smaller ids than the entering one leave the predecessor, and the last of them
fills in the successor if it is after the gap. -/
theorem rippleEntrance_below (h : Linked prev row last) (hprev : prev.id < m.id)
    (hrow : ∀ n ∈ row, n.server.id < m.id) :
    (rippleEntrance row m).predecessorInfo = m.predecessorInfo ∧
      OnlyTouched (if row ≠ [] ∧ m.id < last.id then some last else m.successorInfo)
        (rippleEntrance row m).successorInfo := by
  induction row generalizing prev m with
  | nil => exact ⟨rfl, .inl (by simp [rippleEntrance, ripple])⟩
  | cons n row ih =>
      obtain ⟨hlt, hpred, hsucc, hlinked⟩ := h
      have hid := handleEntranceInformation_id n.server m
      have hbelow := hrow n List.mem_cons_self
      have hrest := ih (m := (n.server.handleEntranceInformation m).message) hlinked
        (hid ▸ hbelow) fun n' hn' => hid ▸ hrow n' (List.mem_cons_of_mem n hn')
      have hpredInfo := handleEntranceInformation_predecessorInfo n.server m
      rw [if_neg fun h => UInt32.lt_asymm hbelow h.1] at hpredInfo
      have hsuccInfo := handleEntranceInformation_successorInfo n.server m
      have hsuccId : n.server.successorId = (firstInfo row last).id := congrArg ServerInfo.id hsucc
      rw [hsuccId, hsucc] at hsuccInfo
      rw [rippleEntrance_cons]
      refine ⟨hrest.1.trans hpredInfo, ?_⟩
      cases row with
      | nil =>
          -- the last server before the gap: what follows is `last`
          have hif : (([n] : List Member) ≠ [] ∧ m.id < last.id) ↔
              (n.server.id < m.id ∧ m.id < (firstInfo [] last).id) := by
            simp [firstInfo, hbelow]
          simp only [hif]
          exact hsuccInfo
      | cons n' row =>
          have hnext : ¬(n.server.id < m.id ∧ m.id < (firstInfo (n' :: row) last).id) := fun h =>
            UInt32.lt_asymm (hrow n' (List.mem_cons_of_mem n List.mem_cons_self)) h.2
          rw [if_neg hnext] at hsuccInfo
          have hafter := hrest.2
          rw [hid] at hafter
          by_cases hgap : m.id < last.id
          · rw [if_pos ⟨by simp, hgap⟩] at hafter ⊢
            exact hafter
          · rw [if_neg fun h => hgap h.2] at hafter ⊢
            exact hsuccInfo.trans hafter

theorem Linked.pairwise (h : Linked prev row last) :
    row.Pairwise fun n n' => n.server.id < n'.server.id := by
  induction row generalizing prev with
  | nil => exact List.Pairwise.nil
  | cons n row ih =>
      obtain ⟨-, -, -, hrow⟩ := h
      exact List.pairwise_cons.mpr ⟨fun n' hn' => hrow.lt_of_mem hn', ih hrow⟩

/-- The gap into which an id goes that no server of the row has. -/
theorem exists_gap {x : UInt32} (hnew : ∀ n ∈ row, n.server.id ≠ x) :
    (∀ n ∈ row, n.server.id < x) ∨
      ∃ as b bs, row = as ++ b :: bs ∧ (∀ n ∈ as, n.server.id < x) ∧ x < b.server.id := by
  induction row with
  | nil => exact .inl fun n hn => absurd hn List.not_mem_nil
  | cons n row ih =>
      by_cases hlt : n.server.id < x
      · rcases ih fun n' hn' => hnew n' (List.mem_cons_of_mem n hn') with
          hall | ⟨as, b, bs, rfl, has, hb⟩
        · exact .inl (List.forall_mem_cons.mpr ⟨hlt, hall⟩)
        · exact .inr ⟨n :: as, b, bs, rfl, List.forall_mem_cons.mpr ⟨hlt, has⟩, hb⟩
      · have hne := hnew n List.mem_cons_self
        have hgt : x < n.server.id :=
          UInt32.lt_of_le_of_ne (UInt32.not_lt.mp hlt) (Ne.symm hne)
        exact .inr ⟨[], n, row, rfl, fun n' hn' => absurd hn' List.not_mem_nil, hgt⟩

/-- Through a row with the gap before `b`, the predecessor is filled in by `b`, and the successor
by the server before the gap, if there is one. -/
theorem rippleEntrance_gap {as bs : List Member} {b : Member}
    (h : Linked prev (as ++ b :: bs) last) (hprev : prev.id < m.id)
    (has : ∀ n ∈ as, n.server.id < m.id) (hb : m.id < b.server.id) :
    (rippleEntrance (as ++ b :: bs) m).predecessorInfo =
        some ((as.getLast?.map Member.info).getD prev) ∧
      OnlyTouched (if as ≠ [] then some b.info else m.successorInfo)
        (rippleEntrance (as ++ b :: bs) m).successorInfo := by
  obtain ⟨hlinkedAs, hpredB, hlinkedBs⟩ := h.split
  obtain ⟨-, hbelow⟩ := rippleEntrance_below hlinkedAs hprev has
  have hidAs := rippleEntrance_id as m
  rw [rippleEntrance_append, rippleEntrance_cons]
  generalize rippleEntrance as m = mAs at hbelow hidAs ⊢
  have hidB := handleEntranceInformation_id b.server mAs
  have hpred := handleEntranceInformation_predecessorInfo b.server mAs
  have hsucc := handleEntranceInformation_successorInfo b.server mAs
  have hgap : m.id < b.info.id := hb
  have hbefore : ((as.getLast?.map Member.info).getD prev).id < m.id := by
    cases hlast : as.getLast? with
    | none => exact hprev
    | some a => exact has a (List.mem_of_getLast? hlast)
  have hpredId : b.server.predecessorId = ((as.getLast?.map Member.info).getD prev).id :=
    congrArg ServerInfo.id hpredB
  rw [hidAs, hpredId, if_pos ⟨hb, hbefore⟩, hpredB] at hpred
  rw [hidAs, if_neg fun h => UInt32.lt_asymm hb h.1] at hsucc
  obtain ⟨hafterPred, hafterSucc⟩ :=
    rippleEntrance_above (m := (b.server.handleEntranceInformation mAs).message) hlinkedBs
      (by rw [hidB, hidAs]; exact hb)
  refine ⟨hafterPred.trans hpred, ?_⟩
  simp only [hgap, and_true] at hbelow
  exact hbelow.trans (hsucc.trans hafterSucc)

section Order

variable {as cs : List Member} {b : Member} {x : UInt32}
  (h : (as ++ b :: cs).Pairwise fun n n' => n.server.id < n'.server.id)

include h

/-- Who comes after the gap has no smaller id than the first one after it. -/
theorem le_of_above (has : ∀ n ∈ as, n.server.id < x) {q : Member} (hq : q ∈ as ++ b :: cs)
    (hgt : x < q.server.id) : b.server.id ≤ q.server.id := by
  rcases List.mem_append.mp hq with hq | hq
  · exact absurd (has q hq) (UInt32.lt_asymm hgt)
  · rcases List.mem_cons.mp hq with rfl | hq
    · exact UInt32.le_refl _
    · have hcs := (List.pairwise_append.mp h).2.1
      exact UInt32.le_of_lt ((List.pairwise_cons.mp hcs).1 q hq)

/-- Who comes before the gap has no greater id than the last one before it. -/
theorem le_of_below {a : Member} (hlast : as.getLast? = some a) (hb : x < b.server.id)
    {q : Member} (hq : q ∈ as ++ b :: cs) (hlt : q.server.id < x) :
    q.server.id ≤ a.server.id := by
  obtain ⟨as', rfl⟩ := List.getLast?_eq_some_iff.mp hlast
  obtain ⟨hbelow, habove, -⟩ := List.pairwise_append.mp h
  rcases List.mem_append.mp hq with hq | hq
  · rcases List.mem_append.mp hq with hq | hq
    · have := (List.pairwise_append.mp hbelow).2.2 q hq a (List.mem_singleton_self a)
      exact UInt32.le_of_lt this
    · rw [List.mem_singleton.mp hq]
      exact UInt32.le_refl _
  · rcases List.mem_cons.mp hq with rfl | hq
    · exact absurd hlt (UInt32.lt_asymm hb)
    · have hbq := (List.pairwise_cons.mp habove).1 q hq
      exact absurd hlt (UInt32.lt_asymm (UInt32.lt_trans hb hbq))

end Order

end Rows

/-! ### What the entering server is told -/

section Answers

variable {bs : Bootstrap} {members : List Member} {x : UInt32}

/-- The bootstrap server starts with the id alone, and passes on what comes back. -/
theorem entranceAnswered_iff_ripple (h : InOrder bs members) (source : Endpoint) :
    EntranceAnswered bs members x source ↔
      TrueNeighbours bs members x (rippleEntrance members { id := x }) := by
  have hapart := h.successor_ne
  constructor
  · rintro ⟨bs', started, answer, hstart, hanswer, htrue⟩
    rw [Bootstrap.handleEntranceRequest, if_neg hapart] at hstart
    obtain ⟨-, hmessage⟩ := Prod.mk.inj hstart
    obtain ⟨-, rfl⟩ := Prod.mk.inj hmessage
    obtain ⟨-, rfl⟩ := Prod.mk.inj (Option.some.inj hanswer)
    exact htrue
  · intro htrue
    refine ⟨{ bs with enteringNameserver := source }, { id := x }, _, ?_, rfl, htrue⟩
    rw [Bootstrap.handleEntranceRequest, if_neg hapart, h.first]

/-- **The entering server learns its true neighbours exactly when it enters between two name
servers**, and not before the first or after the last one. -/
theorem entrance_answered_iff (bs : Bootstrap) (members : List Member) (h : InOrder bs members)
    (x : UInt32) (hx : 0 < x) (hnew : ∀ m ∈ members, m.server.id ≠ x) (source : Endpoint) :
    EntranceAnswered bs members x source ↔
      (∃ m ∈ members, m.server.id < x) ∧ ∃ m ∈ members, x < m.server.id := by
  rw [entranceAnswered_iff_ripple h source]
  have hrow := h.row
  have hordered := hrow.pairwise
  rcases exists_gap hnew with hall | ⟨as, b, cs, rfl, has, hb⟩
  · -- after the last server: nobody fills in the predecessor
    refine iff_of_false (fun htrue => ?_) (fun hboth => ?_)
    · obtain ⟨p, -, -, -, hsome⟩ := htrue.predecessor
      have hnone := (rippleEntrance_below (m := { id := x }) hrow hx hall).1
      rw [hnone] at hsome
      cases hsome
    · obtain ⟨-, m, hm, hgt⟩ := hboth
      exact UInt32.lt_asymm hgt (hall m hm)
  · obtain ⟨hpred, hsucc⟩ := rippleEntrance_gap (m := { id := x }) hrow hx has hb
    have hb' : b ∈ as ++ b :: cs := List.mem_append_right _ List.mem_cons_self
    cases hlast : as.getLast? with
    | none =>
        -- before the first server: nobody fills in the successor
        obtain rfl : as = [] := List.getLast?_eq_none_iff.mp hlast
        refine iff_of_false (fun htrue => ?_) (fun hboth => ?_)
        · obtain ⟨p, hp, hsome⟩ := htrue.successor
          rw [if_neg (by simp), hsome] at hsucc
          rcases hp with ⟨-, hgt, -⟩ | ⟨-, hnobody⟩
          · rcases hsucc with hnone | ⟨-, hdefault⟩
            · cases hnone
            · obtain rfl := Option.some.inj hdefault
              exact absurd hgt UInt32.not_lt_zero
          · exact hnobody b.info (List.mem_map_of_mem hb') hb
        · obtain ⟨⟨m, hm, hlt⟩, -⟩ := hboth
          rcases List.mem_cons.mp hm with rfl | hm
          · exact UInt32.lt_asymm hlt hb
          · have hbm := (List.pairwise_cons.mp hordered).1 m hm
            exact UInt32.lt_asymm hlt (UInt32.lt_trans hb hbm)
    | some a =>
        have ha : a ∈ as := List.mem_of_getLast? hlast
        have haMem : a ∈ as ++ b :: cs := List.mem_append_left _ ha
        refine iff_of_true ⟨?_, ?_⟩ ⟨⟨a, haMem, has a ha⟩, b, hb', hb⟩
        · refine ⟨a.info, List.mem_cons_of_mem _ (List.mem_map_of_mem haMem), has a ha, ?_, ?_⟩
          · intro q hq hlt
            rcases List.mem_cons.mp hq with rfl | hq
            · exact UInt32.zero_le
            · obtain ⟨n, hn, rfl⟩ := List.mem_map.mp hq
              exact le_of_below hordered hlast hb hn hlt
          · rw [hpred, hlast]
            rfl
        · refine ⟨b.info, .inl ⟨List.mem_map_of_mem hb', hb, ?_⟩, ?_⟩
          · intro q hq hgt
            obtain ⟨n, hn, rfl⟩ := List.mem_map.mp hq
            exact le_of_above hordered has hn hgt
          · rw [if_pos (List.ne_nil_of_mem ha)] at hsucc
            exact hsucc.of_some

/-- A bootstrap server with the name servers 5 and 9. -/
def bootstrapOfTwo : Bootstrap where
  successor := ⟨"n5", 50⟩
  successorId := 5
  predecessor := ⟨"n9", 90⟩
  predecessorId := 9
  bootstrap := ⟨"b", 4⟩
  port := 4
  id := 0

/-- The two name servers. -/
def twoMembers : List Member := [
  { endpoint := ⟨"n5", 50⟩
    server := { successor := ⟨"n9", 90⟩, successorId := 9, predecessor := ⟨"b", 4⟩
                predecessorId := 0, bootstrap := ⟨"b", 4⟩, port := 50, id := 5 } },
  { endpoint := ⟨"n9", 90⟩
    server := { successor := ⟨"b", 4⟩, successorId := 0, predecessor := ⟨"n5", 50⟩
                predecessorId := 5, bootstrap := ⟨"b", 4⟩, port := 90, id := 9 } }]

theorem inOrder_twoMembers : InOrder bootstrapOfTwo twoMembers where
  nonempty := by decide
  row := ⟨by decide, by decide, by decide, by decide, by decide, by decide, trivial⟩
  first := by decide
  last := by decide
  apart := by decide

theorem entrance_answered_iff_seven :
    EntranceAnswered bootstrapOfTwo twoMembers 7 ⟨"new", 70⟩ ↔
      (∃ m ∈ twoMembers, m.server.id < 7) ∧ ∃ m ∈ twoMembers, 7 < m.server.id :=
  entrance_answered_iff bootstrapOfTwo twoMembers inOrder_twoMembers 7 (by decide) (by decide)
    ⟨"new", 70⟩

/-- A server that enters before the first one is not told its successor. -/
theorem first_place_not_answered : ¬∀ (bs : Bootstrap) (members : List Member),
    InOrder bs members → ∀ x : UInt32, 0 < x → (∀ m ∈ members, m.server.id ≠ x) →
      ∀ source, EntranceAnswered bs members x source := by
  intro h
  obtain ⟨bs', started, answer, hstart, hanswer, htrue⟩ :=
    h bootstrapOfTwo twoMembers inOrder_twoMembers 3 (by decide) (by decide) ⟨"new", 70⟩
  cases hstart
  cases hanswer
  obtain ⟨p, hp, hsome⟩ := htrue.successor
  obtain rfl : ({} : ServerInfo) = p := Option.some.inj hsome
  revert hp
  decide

end Answers

end Csci6780.HashRing
