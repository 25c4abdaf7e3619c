import Csci6780.RingEntrances
import Csci6780.RingRipples

/-!
# Looking up a Key from the Bootstrap Server

`Bootstrap::LookUp` answers from its own pairs, or sends a `LookUpResult` that is to go around the
ring and come back to the bootstrap server's own handler, which writes the answer. Who listens at
which endpoint is a parameter; a message is handed over from server to server until the bootstrap
server has it.

The message is sent through `client_`, which is connected to the bootstrap server itself, and not
to the successor: it comes back at once, and no name server has seen it.

## Main results

* `answer_ring`: a look-up that is sent to the successor comes back from the whole ring.
* `lookUp_answered_iff`: a look-up is answered right exactly when no name server is needed for it.
-/

namespace Csci6780.HashRing

open Nameserver

section Network

variable (setPastEnd : List UInt32 → Option (List UInt32)) (bs : Bootstrap)
  (listening : Endpoint → Option Nameserver)

/-- The lines that are written in the end for a `LookUpResult` that is sent to an endpoint, when it
is handed over `hops` times at most. -/
def answer : ℕ → Endpoint × LookUpResult → Option (List String)
  | 0, _ => none
  | hops + 1, (destination, m) =>
      if destination = bs.bootstrap then Bootstrap.handleLookUpResult setPastEnd m
      else
        (listening destination).bind fun ns =>
          let h := ns.handleLookUpResult m
          answer hops (h.destination, h.message)

/-- The lines that `LookUp` writes and that are written for what it sends. -/
def lookUpConsole (hops : ℕ) (key : UInt32) : Option (List String) :=
  match (bs.lookUp key).sent with
  | none => some (bs.lookUp key).console
  | some message =>
      (answer setPastEnd bs listening hops message).map fun lines =>
        (bs.lookUp key).console ++ lines

/-- The console shows the value that is stored for the key, or that there is none. -/
def LookUpAnswered (stored : UInt32 → Option String) (key : UInt32) : Prop :=
  ∃ hops lines, lookUpConsole setPastEnd bs listening hops key = some lines ∧
    (∀ v, stored key = some v → "Value: " ++ v ∈ lines) ∧
    ("Key not found." ∈ lines ↔ stored key = none)

end Network

variable {setPastEnd : List UInt32 → Option (List UInt32)} {bs : Bootstrap}
  {listening : Endpoint → Option Nameserver}

/-! ### Around the ring -/

theorem rippleLookUp_cons (ns : Nameserver) (row : List Nameserver) (m : LookUpResult) :
    (rippleLookUp (ns :: row) m).2 = (rippleLookUp row (ns.handleLookUpResult m).message).2 := rfl

/-- What is sent to the first server of a row that ends at the bootstrap server. -/
theorem answer_row {row : List Member} {prev : ServerInfo} (hrow : Linked prev row bs.info)
    (hlistening : ∀ n ∈ row, listening n.endpoint = some n.server)
    (hapart : ∀ n ∈ row, n.endpoint ≠ bs.bootstrap) (m : LookUpResult) :
    answer setPastEnd bs listening (row.length + 1) ((firstInfo row bs.info).endpoint, m) =
      Bootstrap.handleLookUpResult setPastEnd (rippleLookUp (row.map Member.server) m).2 := by
  induction row generalizing prev m with
  | nil =>
      have hend : (firstInfo [] bs.info).endpoint = bs.bootstrap := endpoint_serverInfo _ _
      rw [answer, hend, if_pos rfl]
      rfl
  | cons n row ih =>
      obtain ⟨-, -, hsucc, hlinked⟩ := hrow
      have hnext : n.server.successor = (firstInfo row bs.info).endpoint := by
        rw [← hsucc]
        exact (endpoint_serverInfo _ _).symm
      have hrest := ih hlinked (fun n' hn' => hlistening n' (List.mem_cons_of_mem n hn'))
        (fun n' hn' => hapart n' (List.mem_cons_of_mem n hn'))
        (n.server.handleLookUpResult m).message
      rw [List.length_cons, answer, endpoint_firstInfo_cons,
        if_neg (hapart n List.mem_cons_self), hlistening n List.mem_cons_self, Option.bind_some,
        List.map_cons, rippleLookUp_cons, ← hrest, ← hnext]
      rfl

/-- **A look-up that is sent to the successor comes back from the whole ring.** -/
theorem answer_ring {members : List Member} (h : InOrder bs members)
    (hlistening : ∀ n ∈ members, listening n.endpoint = some n.server) (m : LookUpResult) :
    answer setPastEnd bs listening (members.length + 1) (bs.successor, m) =
      Bootstrap.handleLookUpResult setPastEnd (rippleLookUp (members.map Member.server) m).2 := by
  rw [h.first]
  exact answer_row h.row hlistening h.apart m

/-! ### From `LookUp` -/

/-- What `LookUp` sends comes back at once, and is taken for a look-up that nobody answered. -/
theorem lookUpConsole_eq_some (hapart : bs.successor ≠ bs.bootstrap) {key : UInt32}
    (hkey : bs.pairs.find key = none) {lines : List String} :
    (∃ hops, lookUpConsole setPastEnd bs listening hops key = some lines) ↔
      (setPastEnd []).isSome ∧ lines = ["Key not found."] := by
  have hsent : bs.lookUp key = { server := bs, sent := some (bs.bootstrap, { id := 0, key }) } := by
    rw [Bootstrap.lookUp, hkey]
    simp only [if_neg hapart]
    rfl
  have hone : ∀ hops, lookUpConsole setPastEnd bs listening (hops + 1) key =
      (setPastEnd []).map fun _ => ["Key not found."] := by
    intro hops
    rw [lookUpConsole, hsent]
    simp only [answer, if_true, Bootstrap.handleLookUpResult]
    cases setPastEnd [] <;> rfl
  constructor
  · rintro ⟨hops, hlines⟩
    cases hops with
    | zero =>
        rw [lookUpConsole, hsent] at hlines
        cases hlines
    | succ hops =>
        rw [hone hops, Option.map_eq_some_iff] at hlines
        obtain ⟨ids, hids, rfl⟩ := hlines
        exact ⟨by rw [hids]; rfl, rfl⟩
  · rintro ⟨hsome, rfl⟩
    obtain ⟨ids, hids⟩ := Option.isSome_iff_exists.mp hsome
    exact ⟨1, by rw [hone 0, hids]; rfl⟩

/-- What `LookUp` answers from the bootstrap server's own pairs. -/
theorem lookUpConsole_own {key : UInt32} {value : String} (hkey : bs.pairs.find key = some value)
    (hops : ℕ) :
    lookUpConsole setPastEnd bs listening hops key = some ["Value: " ++ value, "Contacted: 0"] := by
  rw [lookUpConsole, Bootstrap.lookUp, hkey]

theorem value_ne_notFound (v : String) : "Value: " ++ v ≠ "Key not found." := by
  intro h
  have hlist := congrArg String.toList h
  simp at hlist

/-- **A look-up is answered right exactly when no name server is needed for it**: the bootstrap
server stores the key itself, or nobody does (and the program survives `set_server_ids`). -/
theorem lookUp_answered_iff (setPastEnd : List UInt32 → Option (List UInt32)) (bs : Bootstrap)
    (members : List Member) (listening : Endpoint → Option Nameserver) (ring : Ring)
    (hring : ring.servers = bs.toNameserver :: members.map Member.server)
    (h : InOrder bs members) (key : UInt32) :
    LookUpAnswered setPastEnd bs listening ring.contents key ↔
      (bs.pairs.find key).isSome ∨ ring.contents key = none ∧ (setPastEnd []).isSome := by
  have hbs : bs.toNameserver ∈ ring.servers := hring ▸ List.mem_cons_self
  cases hkey : bs.pairs.find key with
  | some value =>
      -- answered from the bootstrap server's own pairs
      have hstored : ring.contents key = some value := Ring.contents_of_find hbs hkey
      refine iff_of_true ⟨0, _, lookUpConsole_own hkey 0, ?_, ?_⟩ (.inl rfl)
      · intro v hv
        obtain rfl : value = v := Option.some.inj (hstored.symm.trans hv)
        exact List.mem_cons_self
      · refine iff_of_false ?_ (by simp [hstored])
        rw [List.mem_cons, List.mem_singleton, not_or]
        exact ⟨(value_ne_notFound value).symm, by decide⟩
  | none =>
      constructor
      · rintro ⟨hops, lines, hlines, -, hnotFound⟩
        obtain ⟨hsome, rfl⟩ := (lookUpConsole_eq_some h.successor_ne hkey).mp ⟨hops, hlines⟩
        exact .inr ⟨hnotFound.mp List.mem_cons_self, hsome⟩
      · rintro (hsome | ⟨hstored, hsome⟩)
        · cases hsome
        · obtain ⟨hops, hlines⟩ :=
            (lookUpConsole_eq_some h.successor_ne hkey).mpr ⟨hsome, rfl⟩
          refine ⟨hops, _, hlines, fun v hv => ?_, iff_of_true List.mem_cons_self hstored⟩
          rw [hstored] at hv
          cases hv

/-- A bootstrap server with the upper half of the keys. -/
def upperHalf : Bootstrap where
  bounds := (512, 1023)
  successor := ⟨"n1", 10⟩
  successorId := 1
  predecessor := ⟨"n1", 10⟩
  predecessorId := 1
  bootstrap := ⟨"b", 4⟩
  port := 4
  id := 0

/-- A name server with the lower half, which stores one pair. -/
def lowerHalf : Member where
  endpoint := ⟨"n1", 10⟩
  server :=
    { pairs := ⟨[(7, "seven")], List.nodup_singleton _⟩, bounds := (0, 511)
      successor := ⟨"b", 4⟩, successorId := 0, predecessor := ⟨"b", 4⟩, predecessorId := 0
      bootstrap := ⟨"b", 4⟩, port := 10, id := 1 }

/-- The two as a ring. -/
def twoHalves : Ring where
  servers := [upperHalf.toNameserver, lowerHalf.server]
  ids_nodup := by decide
  disjoint := by
    rw [List.pairwise_pair]
    rintro key ⟨⟨hge, -⟩, -, hle⟩
    exact absurd (UInt32.le_trans hge hle) (by decide)
  placed := by
    intro s hs key hc
    rcases List.mem_cons.mp hs with rfl | hs
    · cases hc
    · obtain rfl := List.mem_singleton.mp hs
      have hkey : key = 7 := by simpa [UnorderedSet.contains, lowerHalf] using hc
      subst hkey
      decide

theorem inOrder_twoHalves : InOrder upperHalf [lowerHalf] where
  nonempty := by decide
  row := ⟨by decide, by decide, by decide, trivial⟩
  first := by decide
  last := by decide
  apart := by decide

theorem lookUp_answered_iff_twoHalves :
    LookUpAnswered some upperHalf (fun _ => some lowerHalf.server) twoHalves.contents 600 ↔
      (upperHalf.pairs.find 600).isSome ∨
        twoHalves.contents 600 = none ∧ (some ([] : List UInt32)).isSome :=
  lookUp_answered_iff some upperHalf [lowerHalf] (fun _ => some lowerHalf.server) twoHalves rfl
    inOrder_twoHalves 600

/-- The value of a name server's key is not found. -/
theorem stored_key_not_found : ¬∀ (setPastEnd : List UInt32 → Option (List UInt32))
    (bs : Bootstrap) (members : List Member) (listening : Endpoint → Option Nameserver)
    (ring : Ring), ring.servers = bs.toNameserver :: members.map Member.server →
    InOrder bs members → (∀ n ∈ members, listening n.endpoint = some n.server) →
    (∀ key, (∃ s ∈ ring.servers, s.Owns key) ↔ key ≤ 1023) → ∀ key,
      LookUpAnswered setPastEnd bs listening ring.contents key := by
  intro h
  have hcover : ∀ key, (∃ s ∈ twoHalves.servers, s.Owns key) ↔ key ≤ 1023 := by
    intro key
    constructor
    · rintro ⟨s, hs, -, hle⟩
      rcases List.mem_cons.mp hs with rfl | hs
      · exact hle
      · obtain rfl := List.mem_singleton.mp hs
        exact UInt32.le_trans hle (by decide)
    · intro hle
      by_cases hlow : key ≤ 511
      · exact ⟨lowerHalf.server, List.mem_cons_of_mem _ (List.mem_singleton_self _),
          UInt32.zero_le, hlow⟩
      · have hlt := UInt32.lt_iff_toNat_lt.mp (UInt32.not_le.mp hlow)
        refine ⟨upperHalf.toNameserver, List.mem_cons_self, ?_, hle⟩
        exact UInt32.le_iff_toNat_le.mpr hlt
  have hanswered := h some upperHalf [lowerHalf] (fun _ => some lowerHalf.server) twoHalves rfl
    inOrder_twoHalves (fun n hn => by rw [List.mem_singleton.mp hn]) hcover 7
  obtain ⟨hops, lines, hlines, hvalue, -⟩ := hanswered
  obtain ⟨-, rfl⟩ :=
    (lookUpConsole_eq_some inOrder_twoHalves.successor_ne rfl).mp ⟨hops, hlines⟩
  exact absurd (hvalue "seven" (by decide)) (by decide)

end Csci6780.HashRing
