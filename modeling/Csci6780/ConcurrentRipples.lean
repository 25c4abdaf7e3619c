import Csci6780.Lib.ConcurrentRipples
import Csci6780.RingRipples

/-!
# Ripples of Several Messages

Every server of the ring sends `LookUpResult`, `InsertResult` and `DeleteResult` messages on as it
gets them, so that several of them are on their way around the ring at the same time. They may
overtake one another: each is sent by a `Client` of its own. The servers that hold the ring's keys
meet the messages in different orders.

The ring still behaves as the one map that it stores: to whoever sends messages into it and gets
them back, each of them is answered by the map in one step, some time between its being sent and
its coming back. Messages are taken to reach the successor's handler, and no server enters or
leaves.

## Main results

* `ripple_eq_answer`: a message that goes around the ring alone is answered by the one map.
* `concurrent_ripples_linearize`: so are messages that go around it at the same time.
-/

namespace Csci6780.HashRing

/-- A message of those that are passed around the ring. -/
inductive RippleMessage
  | lookUp (m : LookUpResult)
  | insert (m : InsertResult)
  | delete (m : DeleteResult)
  deriving DecidableEq

namespace RippleMessage

/-- The key that a message is about. -/
def key : RippleMessage → UInt32
  | lookUp m => m.key
  | insert m => m.key
  | delete m => m.key

/-- A message after servers have added their ids to it. -/
def contacted (ids : List UInt32) : RippleMessage → RippleMessage
  | lookUp m => .lookUp (m.contacted ids)
  | insert m => .insert (m.contacted ids)
  | delete m => .delete (m.contacted ids)

/-- **The one map answers a message.** `owner` names the server that owns a key, and `ids` are those
of all servers. A key that is stored keeps its value. -/
def answer (owner : UInt32 → Option UInt32) (ids : List UInt32)
    (contents : UInt32 → Option String) :
    RippleMessage → (UInt32 → Option String) × RippleMessage
  | lookUp m =>
      match contents m.key with
      | some value =>
          (contents, .lookUp ({ m with value, id := (owner m.key).getD m.id }.contacted ids))
      | none => (contents, .lookUp (m.contacted ids))
  | insert m =>
      match owner m.key with
      | some id =>
          (Function.update contents m.key ((contents m.key).getD m.value),
            .insert ({ m with id }.contacted ids))
      | none => (contents, .insert (m.contacted ids))
  | delete m =>
      (Function.update contents m.key none,
        .delete ({ m with
          deleteSuccess := m.deleteSuccess || (contents m.key).isSome }.contacted ids))

end RippleMessage

/-- `HandleRequest`, of a message that is passed around the ring. -/
def Nameserver.handleRipple (ns : Nameserver) : RippleMessage → Nameserver × RippleMessage
  | .lookUp m => ((ns.handleLookUpResult m).server, .lookUp (ns.handleLookUpResult m).message)
  | .insert m => ((ns.handleInsertResult m).server, .insert (ns.handleInsertResult m).message)
  | .delete m => ((ns.handleDeleteResult m).server, .delete (ns.handleDeleteResult m).message)

open RippleMessage (answer)

/-! ### One server -/

/-- The id and the bounds of a server. -/
def Nameserver.place (ns : Nameserver) : UInt32 × (UInt32 × UInt32) := (ns.id, ns.bounds)

theorem handleRipple_place (ns : Nameserver) (m : RippleMessage) :
    (ns.handleRipple m).1.place = ns.place := by
  cases m with
  | lookUp m => rfl
  | insert m =>
      show (if ns.Owns m.key then { ns with pairs := _ } else ns).place = ns.place
      split <;> rfl
  | delete m =>
      show (if ns.Owns m.key ∧ _ then { ns with pairs := _ } else ns).place = ns.place
      split <;> rfl

theorem handleLookUpResult_key (ns : Nameserver) (m : LookUpResult) :
    (ns.handleLookUpResult m).message.key = m.key := by
  rw [Nameserver.handleLookUpResult]
  by_cases hown : ns.Owns m.key
  · cases ns.pairs.find m.key <;> simp [hown]
  · simp [hown]

/-- **A server looks at a message only if it owns the key.** -/
theorem quiet_handleRipple : Quiet Nameserver.handleRipple Nameserver.Owns RippleMessage.key
    Nameserver.id fun id => RippleMessage.contacted [id] where
  pass ns m hnot := by
    cases m with
    | lookUp m =>
        have hnot' : ¬ns.Owns m.key := hnot
        simp [Nameserver.handleRipple, Nameserver.handleLookUpResult,
          RippleMessage.contacted, LookUpResult.contacted, hnot']
    | insert m =>
        have hnot' : ¬ns.Owns m.key := hnot
        simp [Nameserver.handleRipple, Nameserver.handleInsertResult,
          RippleMessage.contacted, InsertResult.contacted, hnot']
    | delete m =>
        have hnot' : ¬ns.Owns m.key := hnot
        simp [Nameserver.handleRipple, Nameserver.handleDeleteResult,
          RippleMessage.contacted, DeleteResult.contacted, hnot']
  key_handle ns m := by
    cases m with
    | lookUp m => exact handleLookUpResult_key ns m
    | insert m => rfl
    | delete m => rfl
  key_touch id m := by cases m <;> rfl
  owns_handle ns m k := by
    have hbounds : (ns.handleRipple m).1.bounds = ns.bounds :=
      congrArg Prod.snd (handleRipple_place ns m)
    rw [Nameserver.Owns, Nameserver.Owns, hbounds]
  tag_handle ns m := congrArg Prod.fst (handleRipple_place ns m)

/-! ### One message -/

namespace Ring

/-- The id of the server that owns a key. -/
def owner (ring : Ring) (key : UInt32) : Option UInt32 :=
  (ring.servers.find? fun s => s.Owns key).map Nameserver.id

variable {ring ring' : Ring} {s : Nameserver} {key : UInt32}

/-- Two servers of the ring that own one key are one. -/
theorem eq_of_owns {t : Nameserver} (hs : s ∈ ring.servers) (ht : t ∈ ring.servers)
    (hown : s.Owns key) (hown' : t.Owns key) : s = t := by
  obtain ⟨i, hi⟩ := List.mem_iff_getElem?.mp hs
  obtain ⟨j, hj⟩ := List.mem_iff_getElem?.mp ht
  obtain rfl := owner_unique hi hj hown hown'
  exact Option.some.inj (hi.symm.trans hj)

theorem owner_of_owns (hs : s ∈ ring.servers) (hown : s.Owns key) :
    ring.owner key = some s.id := by
  cases hfind : ring.servers.find? fun s => decide (s.Owns key) with
  | none =>
      have hnot := List.find?_eq_none.mp hfind s hs
      exact absurd (decide_eq_true hown) hnot
  | some t =>
      have htrue := List.find?_some hfind
      have ht : t.Owns key := of_decide_eq_true htrue
      obtain rfl := eq_of_owns hs (List.mem_of_find?_eq_some hfind) hown ht
      rw [owner, hfind, Option.map_some]

theorem owner_eq_none (h : ∀ s ∈ ring.servers, ¬s.Owns key) : ring.owner key = none := by
  have hfind : ring.servers.find? (fun s => decide (s.Owns key)) = none :=
    List.find?_eq_none.mpr fun s hs => by
      rw [decide_eq_true_iff]
      exact h s hs
  rw [owner, hfind, Option.map_none]

/-- Servers that stay where they are own the keys that they did. -/
theorem owner_congr (h : ring'.servers.map Nameserver.place = ring.servers.map Nameserver.place) :
    ring'.owner = ring.owner := by
  have hplaces : ∀ r : Ring, r.owner = fun key =>
      ((r.servers.map Nameserver.place).find? fun p => p.2.1 ≤ key ∧ key ≤ p.2.2).map Prod.fst := by
    intro r
    funext key
    rw [List.find?_map, Option.map_map]
    rfl
  rw [hplaces, hplaces, h]

theorem ids_congr (h : ring'.servers.map Nameserver.place = ring.servers.map Nameserver.place) :
    ring'.ids = ring.ids := by
  have hids : ∀ r : Ring, r.ids = (r.servers.map Nameserver.place).map Prod.fst := by
    intro r
    rw [List.map_map]
    rfl
  rw [hids, hids, h]

end Ring

section OneMessage

theorem ripple_lookUp (row : List Nameserver) (m : LookUpResult) :
    ripple Nameserver.handleRipple row (.lookUp m) =
      ((rippleLookUp row m).1, .lookUp (rippleLookUp row m).2) :=
  ripple_kind (fun ns m => (Nameserver.handleLookUpResult ns m).pass) RippleMessage.lookUp
    (fun _ _ => rfl) row m

theorem ripple_insert (row : List Nameserver) (m : InsertResult) :
    ripple Nameserver.handleRipple row (.insert m) =
      ((rippleInsert row m).1, .insert (rippleInsert row m).2) :=
  ripple_kind (fun ns m => (Nameserver.handleInsertResult ns m).pass) RippleMessage.insert
    (fun _ _ => rfl) row m

theorem ripple_delete (row : List Nameserver) (m : DeleteResult) :
    ripple Nameserver.handleRipple row (.delete m) =
      ((rippleDelete row m).1, .delete (rippleDelete row m).2) :=
  ripple_kind (fun ns m => (Nameserver.handleDeleteResult ns m).pass) RippleMessage.delete
    (fun _ _ => rfl) row m

variable (ring : Ring)

/-- The ring answers a message as the one map that it stores does. -/
def Ring.Answers (m : RippleMessage) : Prop :=
  ∃ ring' : Ring, ripple Nameserver.handleRipple ring.servers m =
      (ring'.servers, (answer ring.owner ring.ids ring.contents m).2) ∧
    ring'.contents = (answer ring.owner ring.ids ring.contents m).1

theorem answers_lookUp (m : LookUpResult) : ring.Answers (.lookUp m) := by
  obtain ⟨m', hripple, h⟩ : ∃ m', rippleLookUp ring.servers m = (ring.servers, m') ∧
      LookUpRipple ring m m' := exists_lookUpRipple m
  have hanswer : answer ring.owner ring.ids ring.contents (.lookUp m) =
      (ring.contents, .lookUp m') := by
    cases hc : ring.contents m.key with
    | none =>
        obtain ⟨hvalue, hid⟩ := h.passed (Ring.contents_eq_none.mp hc)
        rw [answer, hc, h.message, hvalue, hid]
        rfl
    | some value =>
        obtain ⟨s, hs, hfind⟩ := Ring.contents_eq_some.mp hc
        obtain ⟨hvalue, hid⟩ := h.found s hs value hfind
        have howner := Ring.owner_of_owns hs (Ring.owns_of_find hs hfind)
        rw [answer, hc, howner, h.message, hvalue, hid]
        rfl
  refine ⟨ring, ?_, ?_⟩
  · rw [ripple_lookUp, hripple, hanswer]
  · rw [hanswer]

theorem answers_delete (m : DeleteResult) : ring.Answers (.delete m) := by
  obtain ⟨ring', m', hripple, h⟩ : ∃ ring' m', rippleDelete ring.servers m =
      (Ring.servers ring', m') ∧ DeleteRipple ring m ring' m' := exists_deleteRipple m
  have hanswer : answer ring.owner ring.ids ring.contents (.delete m) =
      (ring'.contents, .delete m') := by
    obtain ⟨hcontents, hsuccess⟩ := contents_delete h
    rw [answer, hcontents, h.message, hsuccess]
    rfl
  refine ⟨ring', ?_, ?_⟩
  · rw [ripple_delete, hripple, hanswer]
  · rw [hanswer]

/-- What the owner of a key stores for it, the ring does. -/
theorem Ring.find_of_owns {s : Nameserver} {key : UInt32} (hs : s ∈ ring.servers)
    (hown : s.Owns key) : s.pairs.find key = ring.contents key := by
  cases hc : ring.contents key with
  | none => exact Ring.contents_eq_none.mp hc s hs
  | some value =>
      obtain ⟨t, ht, hfind⟩ := Ring.contents_eq_some.mp hc
      obtain rfl := Ring.eq_of_owns hs ht hown (Ring.owns_of_find ht hfind)
      exact hfind

theorem answers_insert (m : InsertResult) : ring.Answers (.insert m) := by
  by_cases hnobody : ∀ s ∈ ring.servers, ¬s.Owns m.key
  · refine ⟨ring, ?_, ?_⟩
    · rw [ripple_insert, rippleInsert_pass hnobody, answer, Ring.owner_eq_none hnobody]
    · rw [answer, Ring.owner_eq_none hnobody]
  · obtain ⟨s, hs, hown⟩ : ∃ s ∈ ring.servers, s.Owns m.key := by
      by_contra hnot
      exact hnobody fun s hs hown => hnot ⟨s, hs, hown⟩
    have howner := Ring.owner_of_owns hs hown
    obtain ⟨i, hi⟩ := List.mem_iff_getElem?.mp hs
    cases hc : ring.contents m.key with
    | none =>
        obtain ⟨ring', m', hripple, h⟩ := exists_insertRipple (Ring.contents_eq_none.mp hc)
        obtain ⟨-, -, hid⟩ := h.stored i s hi hown
        refine ⟨ring', ?_, ?_⟩
        · rw [ripple_insert, hripple, answer, howner, h.message, hid]
          rfl
        · rw [answer, howner, hc, contents_insert h hs hown, Option.getD_none]
    | some value =>
        -- The `insert` of a map leaves the value of a key that it has.
        obtain ⟨pre, post, hservers, -, hpre, hpost⟩ := Ring.split hi hown
        have hripple := rippleInsert_store hservers hown hpre hpost
        have hfind := (ring.find_of_owns hs hown).trans hc
        rw [UnorderedMap.insert_of_find hfind, ← hservers] at hripple
        refine ⟨ring, ?_, ?_⟩
        · rw [ripple_insert, hripple, answer, howner]
        · rw [answer, howner, hc, Option.getD_some, ← hc, Function.update_eq_self]

/-- **A message that goes around the ring alone is answered by the one map**, and the servers stay
where they are. -/
theorem ripple_eq_answer (m : RippleMessage) :
    ∃ ring' : Ring, ripple Nameserver.handleRipple ring.servers m =
        (ring'.servers, (answer ring.owner ring.ids ring.contents m).2) ∧
      ring'.contents = (answer ring.owner ring.ids ring.contents m).1 ∧
      ring'.owner = ring.owner ∧ ring'.ids = ring.ids := by
  obtain ⟨ring', hripple, hcontents⟩ : ring.Answers m := by
    cases m with
    | lookUp m => exact answers_lookUp ring m
    | insert m => exact answers_insert ring m
    | delete m => exact answers_delete ring m
  have hplaces := ripple_keeps_row Nameserver.place handleRipple_place ring.servers m
  rw [hripple] at hplaces
  exact ⟨ring', hripple, hcontents, Ring.owner_congr hplaces, Ring.ids_congr hplaces⟩

end OneMessage

/-! ### Several messages -/

/-- **Messages that go around the ring at the same time are answered by one map**, each in one step
between its being sent and its coming back, and the ring is a ring that stores this map. -/
theorem concurrent_ripples_linearize (ring : Ring) {acts : List (RippleNet.Action RippleMessage)}
    {net : RippleNet Nameserver RippleMessage}
    (hrun : runFrom (RippleNet.step Nameserver.handleRipple) { row := ring.servers } acts =
      some net) :
    ∃ bs ring' served, Ring.servers ring' = net.row ∧
      runFrom (AtomicServer.step (answer ring.owner ring.ids)) { state := ring.contents } bs =
        some { state := ring'.contents, served := served } ∧
      served.length = net.flights.length ∧
      collect (AtomicServer.step (answer ring.owner ring.ids)) AtomicServer.observed
          { state := ring.contents } bs =
        collect (RippleNet.step Nameserver.handleRipple) RippleNet.observed
          { row := ring.servers } acts := by
  obtain ⟨bs, served, hbs, hlength, hevents⟩ :=
    RippleNet.ripples_serialize quiet_handleRipple ring.disjoint hrun
  let R : List Nameserver → (UInt32 → Option String) → Prop := fun row contents =>
    ∃ r : Ring, r.servers = row ∧ r.contents = contents ∧ r.owner = ring.owner ∧ r.ids = ring.ids
  have hserve : ∀ row contents m, R row contents →
      R (ripple Nameserver.handleRipple row m).1 (answer ring.owner ring.ids contents m).1 ∧
      (ripple Nameserver.handleRipple row m).2 = (answer ring.owner ring.ids contents m).2 := by
    rintro row contents m ⟨r, rfl, rfl, howner, hids⟩
    obtain ⟨r', hripple, hcontents, howner', hids'⟩ := ripple_eq_answer r m
    rw [howner, hids] at hcontents hripple
    rw [hripple]
    exact ⟨⟨r', rfl, hcontents, howner'.trans howner, hids'.trans hids⟩, rfl⟩
  obtain ⟨contents, hrun', ⟨ring', hrow, rfl, -⟩, hevents'⟩ :=
    AtomicServer.simulates R hserve ⟨ring, rfl, rfl, rfl, rfl⟩ hbs
  exact ⟨bs, ring', served, hrow, hrun', hlength, hevents'.trans hevents⟩

/-- A look-up overtakes the insertion of its key and comes back first. -/
theorem concurrent_ripples_linearize_twoServers :
    ∃ net, runFrom (RippleNet.step Nameserver.handleRipple) { row := twoServers.servers }
        [.send (.insert ⟨600, "new", 0, []⟩), .send (.lookUp ⟨600, "", [], 0⟩), .deliver 0,
          .deliver 1, .deliver 1, .deliver 0, .deliver 1, .deliver 0] = some net ∧
      ∃ bs ring' served, Ring.servers ring' = net.row ∧
        runFrom (AtomicServer.step (answer twoServers.owner twoServers.ids))
          { state := twoServers.contents } bs =
            some { state := ring'.contents, served := served } ∧
        served.length = net.flights.length ∧
        collect (AtomicServer.step (answer twoServers.owner twoServers.ids)) AtomicServer.observed
            { state := twoServers.contents } bs =
          collect (RippleNet.step Nameserver.handleRipple) RippleNet.observed
            { row := twoServers.servers }
            [.send (.insert ⟨600, "new", 0, []⟩), .send (.lookUp ⟨600, "", [], 0⟩), .deliver 0,
              .deliver 1, .deliver 1, .deliver 0, .deliver 1, .deliver 0] := by
  refine ⟨_, rfl, ?_⟩
  exact concurrent_ripples_linearize twoServers rfl

end Csci6780.HashRing
