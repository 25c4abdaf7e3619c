import Csci6780.Lib.Ripple
import Csci6780.Lib.Runs
import Mathlib.Data.List.InsertIdx

/-!
# Ripples at the Same Time

Several messages go along a row of parties at the same time, and one may overtake another.
`RippleNet` has the parties and the messages that are on their way; which of them is handled next
is for the run to say.

When a party changes, and answers a message, only if it owns the message's key, and no two parties
own one key, a message might as well go along the whole row at the moment in which its owner
handles it: nobody else looks at it. `AtomicServer` is such a row, or anything else that serves a
message in one step, and `ripples_serialize` says that the messages on their way do not show that
they are several.

## Main results

* `ripple_quiet`, `ripple_owner`: a ripple in terms of the key's owner.
* `RippleNet.ripples_serialize`: what comes back from the row comes back from one that serves each
  message in one step.
* `AtomicServer.simulates`: one server stands for another that answers in the same way.
-/

namespace Csci6780

variable {σ μ ι κ τ : Type}

/-! ### The row -/

/-- A message on its way, and the place of the party that is to handle it next. -/
structure Flight (μ : Type) where
  place : ℕ
  message : μ
  deriving DecidableEq, Repr

/-- A row of parties and the messages on their way along it. -/
structure RippleNet (σ μ : Type) where
  row : List σ
  flights : List (Flight μ) := []

/-- What is seen from outside: a message is sent along the row, or comes to its end as the `i`-th of
those that are on their way. -/
inductive RippleEvent (μ : Type)
  | sends (message : μ)
  | arrives (i : ℕ) (message : μ)
  deriving DecidableEq, Repr

namespace RippleNet

/-- A message is sent, or one of those on their way is handled where it is. -/
inductive Action (μ : Type)
  | send (message : μ)
  | deliver (i : ℕ)
  deriving DecidableEq, Repr

/-- One step. -/
def step (handle : σ → μ → σ × μ) (net : RippleNet σ μ) : Action μ → Option (RippleNet σ μ)
  | .send m => some { net with flights := net.flights ++ [⟨0, m⟩] }
  | .deliver i =>
      match net.flights[i]? with
      | none => none
      | some f =>
          match net.row[f.place]? with
          | some s =>
              some
                { row := net.row.set f.place (handle s f.message).1
                  flights := net.flights.set i ⟨f.place + 1, (handle s f.message).2⟩ }
          | none => some { net with flights := net.flights.eraseIdx i }

/-- What a step shows. -/
def observed (net : RippleNet σ μ) : Action μ → List (RippleEvent μ)
  | .send m => [.sends m]
  | .deliver i =>
      match net.flights[i]? with
      | none => []
      | some f =>
          match net.row[f.place]? with
          | some _ => []
          | none => [.arrives i f.message]

end RippleNet

/-! ### Serving in one step -/

/-- A message that has been sent, or that has been served and has not come back. -/
inductive Served (μ : Type)
  | sent (message : μ)
  | answered (message : μ)
  deriving DecidableEq, Repr

/-- A server with its state and the messages that it has been sent. -/
structure AtomicServer (τ μ : Type) where
  state : τ
  served : List (Served μ) := []

namespace AtomicServer

/-- A message is sent, is served, or comes back. -/
inductive Action (μ : Type)
  | send (message : μ)
  | serve (i : ℕ)
  | arrive (i : ℕ)
  deriving DecidableEq, Repr

/-- One step. -/
def step (serve : τ → μ → τ × μ) (server : AtomicServer τ μ) :
    Action μ → Option (AtomicServer τ μ)
  | .send m => some { server with served := server.served ++ [.sent m] }
  | .serve i =>
      match server.served[i]? with
      | some (.sent m) =>
          some
            { state := (serve server.state m).1
              served := server.served.set i (.answered (serve server.state m).2) }
      | _ => none
  | .arrive i =>
      match server.served[i]? with
      | some (.answered _) => some { server with served := server.served.eraseIdx i }
      | _ => none

/-- What a step shows. -/
def observed (server : AtomicServer τ μ) : Action μ → List (RippleEvent μ)
  | .send m => [.sends m]
  | .serve _ => []
  | .arrive i =>
      match server.served[i]? with
      | some (.answered m) => [.arrives i m]
      | _ => []

/-- **One server stands for another** whose states it is related to and that answers the same. -/
theorem simulates {τ' : Type} {serve : τ → μ → τ × μ} {serve' : τ' → μ → τ' × μ}
    (R : τ → τ' → Prop)
    (hserve : ∀ t t' m, R t t' → R (serve t m).1 (serve' t' m).1 ∧
      (serve t m).2 = (serve' t' m).2)
    {server server' : AtomicServer τ μ} {t' : τ'} {acts : List (Action μ)}
    (h0 : R server.state t') (hrun : runFrom (step serve) server acts = some server') :
    ∃ t'', runFrom (step serve') { state := t', served := server.served } acts =
        some { state := t'', served := server'.served } ∧ R server'.state t'' ∧
      collect (step serve') observed { state := t', served := server.served } acts =
        collect (step serve) observed server acts := by
  induction acts generalizing server t' with
  | nil =>
      obtain rfl : server = server' := Option.some.inj hrun
      exact ⟨t', rfl, h0, rfl⟩
  | cons a acts ih =>
      obtain ⟨m, hstep, hrun⟩ := runFrom_cons_eq_some hrun
      obtain ⟨t₁, hstep', hrel⟩ : ∃ t₁, step serve' { state := t', served := server.served } a =
          some { state := t₁, served := m.served } ∧ R m.state t₁ := by
        cases a with
        | send message =>
            obtain rfl := Option.some.inj hstep
            exact ⟨t', rfl, h0⟩
        | serve i =>
            rw [step] at hstep
            split at hstep
            · next message hi =>
                obtain rfl := Option.some.inj hstep
                obtain ⟨hrel, hanswer⟩ := hserve server.state t' message h0
                refine ⟨(serve' t' message).1, ?_, hrel⟩
                rw [step, hi, hanswer]
            · cases hstep
        | arrive i =>
            rw [step] at hstep
            split at hstep
            · next message hi =>
                obtain rfl := Option.some.inj hstep
                refine ⟨t', ?_, h0⟩
                rw [step, hi]
            · cases hstep
      obtain ⟨t'', hrun', hrel', hcollect⟩ := ih hrel hrun
      refine ⟨t'', (runFrom_cons hstep' acts).trans hrun', hrel', ?_⟩
      have hobserved : observed { state := t', served := server.served } a = observed server a := by
        cases a <;> rfl
      rw [collect, collect, hstep, hstep', hobserved, Option.elim_some, Option.elim_some, hcollect]

end AtomicServer

/-! ### Ripples with an owner -/

/-- What parties that do not own a message's key leave on the message. -/
def touchAll (touch : ι → μ → μ) (tags : List ι) (m : μ) : μ := tags.foldl (fun m t => touch t m) m

/-- A party looks at a message only if it owns the message's key; otherwise it only leaves its mark.
What it owns, and its mark, do not change. -/
structure Quiet (handle : σ → μ → σ × μ) (owns : σ → κ → Prop) (key : μ → κ) (tag : σ → ι)
    (touch : ι → μ → μ) : Prop where
  pass : ∀ s m, ¬owns s (key m) → handle s m = (s, touch (tag s) m)
  key_handle : ∀ s m, key (handle s m).2 = key m
  key_touch : ∀ t m, key (touch t m) = key m
  owns_handle : ∀ s m k, owns (handle s m).1 k ↔ owns s k
  tag_handle : ∀ s m, tag (handle s m).1 = tag s

section

variable {handle : σ → μ → σ × μ} {owns : σ → κ → Prop} {key : μ → κ} {tag : σ → ι}
  {touch : ι → μ → μ}

theorem touchAll_append (tags tags' : List ι) (m : μ) :
    touchAll touch (tags ++ tags') m = touchAll touch tags' (touchAll touch tags m) :=
  List.foldl_append ..

theorem Quiet.key_touchAll (hq : Quiet handle owns key tag touch) (tags : List ι) (m : μ) :
    key (touchAll touch tags m) = key m := by
  induction tags generalizing m with
  | nil => rfl
  | cons t tags ih => exact (ih (touch t m)).trans (hq.key_touch t m)

/-- A row in which nobody owns the key leaves its marks. -/
theorem ripple_quiet (hq : Quiet handle owns key tag touch) {row : List σ} {m : μ}
    (hrow : ∀ s ∈ row, ¬owns s (key m)) :
    ripple handle row m = (row, touchAll touch (row.map tag) m) := by
  induction row generalizing m with
  | nil => rfl
  | cons s row ih =>
      have hs := hq.pass s m (hrow s List.mem_cons_self)
      have hrest : ∀ t ∈ row, ¬owns t (key (touch (tag s) m)) := by
        rw [hq.key_touch]
        exact fun t ht => hrow t (List.mem_cons_of_mem s ht)
      rw [ripple, hs, ih hrest]
      rfl

/-- **A row with an owner of the key** changes there only. -/
theorem ripple_owner (hq : Quiet handle owns key tag touch) {pre post : List σ} {s : σ} {m : μ}
    (hpre : ∀ t ∈ pre, ¬owns t (key m)) (hpost : ∀ t ∈ post, ¬owns t (key m)) :
    ripple handle (pre ++ s :: post) m =
      (pre ++ (handle s (touchAll touch (pre.map tag) m)).1 :: post,
        touchAll touch (post.map tag) (handle s (touchAll touch (pre.map tag) m)).2) := by
  have hpost' : ∀ t ∈ post, ¬owns t (key (handle s (touchAll touch (pre.map tag) m)).2) := by
    rw [hq.key_handle, hq.key_touchAll]
    exact hpost
  rw [ripple_append, ripple_quiet hq hpre, ripple, ripple_quiet hq hpost']

/-! ### Where a message is on its way -/

namespace RippleNet

/-- A message on its way has only been touched by those before its place when it has not been
served; when it has, it is only going to be touched by those from its place on. -/
def Tracks (owns : σ → κ → Prop) (key : μ → κ) (tag : σ → ι) (touch : ι → μ → μ) (row : List σ)
    (f : Flight μ) : Served μ → Prop
  | .sent m =>
      f.message = touchAll touch ((row.take f.place).map tag) m ∧
      ∀ j s, j < f.place → row[j]? = some s → ¬owns s (key m)
  | .answered m =>
      m = touchAll touch ((row.drop f.place).map tag) f.message ∧
      ∀ j s, f.place ≤ j → row[j]? = some s → ¬owns s (key f.message)

variable {row : List σ} {f : Flight μ} {x : Served μ} {m : μ} {s : σ} {i : ℕ}

/-- A party that handles another message stays who it is. -/
theorem Tracks.set (h : Tracks owns key tag touch row f x) {s' : σ} (hi : row[i]? = some s)
    (htag : tag s' = tag s) (howns : ∀ k, owns s' k ↔ owns s k) :
    Tracks owns key tag touch (row.set i s') f x := by
  obtain ⟨hlt, rfl⟩ := List.getElem?_eq_some_iff.mp hi
  have htags : (row.set i s').map tag = row.map tag := by
    rw [List.map_set, htag, ← List.getElem_map tag (h := by rwa [List.length_map]),
      List.set_getElem_self]
  have hsame : ∀ (j : ℕ) (t : σ), (row.set i s')[j]? = some t →
      ∃ t', row[j]? = some t' ∧ ∀ k, owns t k ↔ owns t' k := by
    intro j t hj
    rw [List.getElem?_set] at hj
    split at hj
    · next hij =>
        subst hij
        obtain rfl := Option.some.inj hj
        exact ⟨_, hi, howns⟩
    · exact ⟨t, hj, fun _ => Iff.rfl⟩
  cases x with
  | sent m =>
      refine ⟨?_, fun j t hjf hj => ?_⟩
      · rw [List.map_take, htags, ← List.map_take]
        exact h.1
      · obtain ⟨t', ht', hiff⟩ := hsame j t hj
        rw [hiff]
        exact h.2 j t' hjf ht'
  | answered m =>
      refine ⟨?_, fun j t hjf hj => ?_⟩
      · rw [List.map_drop, htags, ← List.map_drop]
        exact h.1
      · obtain ⟨t', ht', hiff⟩ := hsame j t hj
        rw [hiff]
        exact h.2 j t' hjf ht'

theorem tracks_start (row : List σ) (m : μ) : Tracks owns key tag touch row ⟨0, m⟩ (.sent m) :=
  ⟨rfl, fun _ _ hj => absurd hj (Nat.not_lt_zero _)⟩

/-- A party that does not own the key passes the message on. -/
theorem Tracks.pass (hq : Quiet handle owns key tag touch)
    (h : Tracks owns key tag touch row f x) (hs : row[f.place]? = some s)
    (hnot : ¬owns s (key f.message)) :
    Tracks owns key tag touch row ⟨f.place + 1, touch (tag s) f.message⟩ x := by
  obtain ⟨hlt, rfl⟩ := List.getElem?_eq_some_iff.mp hs
  cases x with
  | sent m =>
      obtain ⟨hmessage, hbefore⟩ := h
      refine ⟨?_, fun j t hj hrow => ?_⟩
      · show touch _ f.message = _
        rw [List.take_succ_eq_append_getElem hlt, List.map_append, touchAll_append, hmessage]
        rfl
      · rcases Nat.lt_succ_iff_lt_or_eq.mp hj with hj | rfl
        · exact hbefore j t hj hrow
        · obtain rfl := Option.some.inj (hs.symm.trans hrow)
          rw [hmessage, hq.key_touchAll] at hnot
          exact hnot
  | answered m =>
      obtain ⟨hmessage, hafter⟩ := h
      refine ⟨?_, fun j t hj hrow => ?_⟩
      · rw [List.drop_eq_getElem_cons hlt] at hmessage
        exact hmessage
      · show ¬owns t (key (touch _ f.message))
        rw [hq.key_touch]
        exact hafter j t (Nat.le_of_succ_le hj) hrow

/-- Two parties that own one key are one. -/
theorem owner_unique {j : ℕ} {t : σ} {k : κ}
    (hrow : row.Pairwise fun s t => ∀ k, ¬(owns s k ∧ owns t k)) (hi : row[i]? = some s)
    (hj : row[j]? = some t) (hs : owns s k) (ht : owns t k) : i = j := by
  have hdisjoint := List.pairwise_iff_getElem.mp hrow
  obtain ⟨hlt, rfl⟩ := List.getElem?_eq_some_iff.mp hi
  obtain ⟨hlt', rfl⟩ := List.getElem?_eq_some_iff.mp hj
  rcases Nat.lt_trichotomy i j with hij | hij | hij
  · exact absurd ⟨hs, ht⟩ (hdisjoint _ _ hlt hlt' hij k)
  · exact hij
  · exact absurd ⟨ht, hs⟩ (hdisjoint _ _ hlt' hlt hij k)

/-- A message that its owner handles might as well go along the whole row now. -/
theorem Tracks.answer (hq : Quiet handle owns key tag touch)
    (hrow : row.Pairwise fun s t => ∀ k, ¬(owns s k ∧ owns t k))
    (h : Tracks owns key tag touch row f (.sent m)) (hs : row[f.place]? = some s)
    (hown : owns s (key f.message)) :
    ripple handle row m =
      (row.set f.place (handle s f.message).1,
        touchAll touch ((row.drop (f.place + 1)).map tag) (handle s f.message).2) ∧
    Tracks owns key tag touch (row.set f.place (handle s f.message).1)
      ⟨f.place + 1, (handle s f.message).2⟩ (.answered (ripple handle row m).2) := by
  obtain ⟨hlt, rfl⟩ := List.getElem?_eq_some_iff.mp hs
  obtain ⟨hmessage, -⟩ := h
  have hkey : key f.message = key m := by
    rw [hmessage, hq.key_touchAll]
  have hother : ∀ (j : ℕ) t, row[j]? = some t → j ≠ f.place → ¬owns t (key m) :=
    fun j t hj hne hown' => hne (owner_unique hrow hj hs hown' (hkey ▸ hown))
  have hsplit : row = row.take f.place ++ row[f.place] :: row.drop (f.place + 1) := by
    rw [← List.drop_eq_getElem_cons hlt, List.take_append_drop]
  have hpre : ∀ t ∈ row.take f.place, ¬owns t (key m) := by
    intro t ht
    obtain ⟨j, hj⟩ := List.mem_iff_getElem?.mp ht
    rw [List.getElem?_take] at hj
    split at hj
    · next hjf => exact hother j t hj (Nat.ne_of_lt hjf)
    · cases hj
  have hpost : ∀ t ∈ row.drop (f.place + 1), ¬owns t (key m) := by
    intro t ht
    obtain ⟨j, hj⟩ := List.mem_iff_getElem?.mp ht
    rw [List.getElem?_drop] at hj
    exact hother _ t hj (by omega)
  have hripple : ripple handle row m =
      (row.set f.place (handle row[f.place] f.message).1,
        touchAll touch ((row.drop (f.place + 1)).map tag) (handle row[f.place] f.message).2) := by
    have howner := ripple_owner hq (s := row[f.place]) hpre hpost
    rw [← hsplit, ← hmessage] at howner
    rw [howner, List.set_eq_take_append_cons_drop, if_pos hlt]
  refine ⟨hripple, ?_, fun j t hj hset => ?_⟩
  · show (ripple handle row m).2 = _
    rw [hripple, List.drop_set_of_lt (Nat.lt_succ_self _)]
  · have hne : f.place ≠ j := Nat.ne_of_lt hj
    rw [List.getElem?_set_ne hne] at hset
    show ¬owns t (key (handle _ _).2)
    rw [hq.key_handle, hkey]
    exact hother j t hset hne.symm

/-- At the end of the row, everybody has been asked. -/
theorem Tracks.end_of_row (hq : Quiet handle owns key tag touch)
    (h : Tracks owns key tag touch row f (.sent m)) (hend : row[f.place]? = none) :
    ripple handle row m = (row, f.message) := by
  obtain ⟨hmessage, hbefore⟩ := h
  have hlength := List.getElem?_eq_none_iff.mp hend
  have hnobody : ∀ s ∈ row, ¬owns s (key m) := by
    intro s hs
    obtain ⟨j, hj⟩ := List.mem_iff_getElem?.mp hs
    have hlt := (List.getElem?_eq_some_iff.mp hj).1
    exact hbefore j s (Nat.lt_of_lt_of_le hlt hlength) hj
  rw [ripple_quiet hq hnobody, hmessage, List.take_of_length_le hlength]

theorem Tracks.eq_of_answered (h : Tracks owns key tag touch row f (.answered m))
    (hend : row[f.place]? = none) : m = f.message := by
  have hmessage := h.1
  rw [List.drop_of_length_le (List.getElem?_eq_none_iff.mp hend)] at hmessage
  exact hmessage

/-! ### Every step -/

/-- The messages on their way follow a server that serves them in one step each. -/
structure Follows (owns : σ → κ → Prop) (key : μ → κ) (tag : σ → ι) (touch : ι → μ → μ)
    (row : List σ) (zs : List (Flight μ × Served μ)) : Prop where
  disjoint : row.Pairwise fun s t => ∀ k, ¬(owns s k ∧ owns t k)
  tracks : ∀ z ∈ zs, Tracks owns key tag touch row z.1 z.2

/-- The row and the messages on their way. -/
def ofPairs (row : List σ) (zs : List (Flight μ × Served μ)) : RippleNet σ μ where
  row := row
  flights := zs.map Prod.fst

/-- The row as a server, and the messages that it has been sent. -/
def serverOf (row : List σ) (zs : List (Flight μ × Served μ)) : AtomicServer (List σ) μ where
  state := row
  served := zs.map Prod.snd

variable {zs : List (Flight μ × Served μ)} {net' : RippleNet σ μ} {a : Action μ}

namespace Follows

theorem set (h : Follows owns key tag touch row zs) {g : Flight μ} {y : Served μ}
    (hy : Tracks owns key tag touch row g y) :
    Follows owns key tag touch row (zs.set i (g, y)) where
  disjoint := h.disjoint
  tracks z hz := by
    rcases List.mem_or_eq_of_mem_set hz with hz | rfl
    · exact h.tracks z hz
    · exact hy

theorem append (h : Follows owns key tag touch row zs) (m : μ) :
    Follows owns key tag touch row (zs ++ [(⟨0, m⟩, .sent m)]) where
  disjoint := h.disjoint
  tracks z hz := by
    rcases List.mem_append.mp hz with hz | hz
    · exact h.tracks z hz
    · obtain rfl := List.mem_singleton.mp hz
      exact tracks_start row m

theorem eraseIdx (h : Follows owns key tag touch row zs) (i : ℕ) :
    Follows owns key tag touch row (zs.eraseIdx i) where
  disjoint := h.disjoint
  tracks z hz := h.tracks z (List.mem_of_mem_eraseIdx hz)

/-- The owner of a key changes. -/
theorem setRow (h : Follows owns key tag touch row zs) {s' : σ} (hi : row[i]? = some s)
    (htag : tag s' = tag s) (howns : ∀ k, owns s' k ↔ owns s k) :
    Follows owns key tag touch (row.set i s') zs where
  disjoint := by
    have howns' : (row.map owns).Pairwise fun p q => ∀ k, ¬(p k ∧ q k) :=
      List.pairwise_map.mpr h.disjoint
    have hsame : (row.set i s').map owns = row.map owns := by
      obtain ⟨hlt, rfl⟩ := List.getElem?_eq_some_iff.mp hi
      have heq : owns s' = owns row[i] := funext fun k => propext (howns k)
      rw [List.map_set, heq, ← List.getElem_map owns (h := by rwa [List.length_map]),
        List.set_getElem_self]
    rw [← hsame] at howns'
    exact List.pairwise_map.mp howns'
  tracks z hz := (h.tracks z hz).set hi htag howns

end Follows

/-- The server takes some steps that show what a step of the row shows, and they go on together. -/
def Matched (handle : σ → μ → σ × μ) (owns : σ → κ → Prop) (key : μ → κ) (tag : σ → ι)
    (touch : ι → μ → μ) (row : List σ) (zs : List (Flight μ × Served μ))
    (events : List (RippleEvent μ)) (net' : RippleNet σ μ) : Prop :=
  ∃ bs row' zs', runFrom (AtomicServer.step (ripple handle)) (serverOf row zs) bs =
      some (serverOf row' zs') ∧ net' = ofPairs row' zs' ∧
    Follows owns key tag touch row' zs' ∧
    collect (AtomicServer.step (ripple handle)) AtomicServer.observed (serverOf row zs) bs = events

theorem serverOf_serve (handle : σ → μ → σ × μ) (row : List σ)
    (hi : zs[i]? = some (f, .sent m)) (g : Flight μ) :
    (serverOf row zs).step (ripple handle) (.serve i) =
      some (serverOf (ripple handle row m).1
        (zs.set i (g, .answered (ripple handle row m).2))) := by
  have hserved : (zs.map Prod.snd)[i]? = some (.sent m) := by
    rw [List.getElem?_map, hi]
    rfl
  rw [AtomicServer.step, serverOf, hserved, serverOf, List.map_set]

theorem serverOf_arrive (handle : σ → μ → σ × μ) (row : List σ)
    (hi : zs[i]? = some (f, .answered m)) :
    (serverOf row zs).step (ripple handle) (.arrive i) = some (serverOf row (zs.eraseIdx i)) ∧
    (serverOf row zs).observed (.arrive i) = [.arrives i m] := by
  have hserved : (zs.map Prod.snd)[i]? = some (.answered m) := by
    rw [List.getElem?_map, hi]
    rfl
  constructor
  · rw [AtomicServer.step, serverOf, hserved, serverOf, List.eraseIdx_map]
  · rw [AtomicServer.observed, serverOf, hserved]

/-- A message comes to the end of the row. -/
theorem matched_arrive (hq : Quiet handle owns key tag touch)
    (h : Follows owns key tag touch row zs) (hi : zs[i]? = some (f, x))
    (hend : row[f.place]? = none) :
    Matched handle owns key tag touch row zs [.arrives i f.message]
      (ofPairs row (zs.eraseIdx i)) := by
  have htracks := h.tracks _ (List.mem_of_getElem? hi)
  have hlt := (List.getElem?_eq_some_iff.mp hi).1
  cases x with
  | sent m =>
      -- Nobody owns the key: the server serves the message when it comes back.
      have hserve := serverOf_serve handle row hi f
      rw [Tracks.end_of_row hq htracks hend] at hserve
      have hset : (zs.set i (f, .answered f.message))[i]? = some (f, .answered f.message) :=
        List.getElem?_set_self hlt
      obtain ⟨harrive, hobserved⟩ := serverOf_arrive handle row hset
      rw [List.eraseIdx_set_eq] at harrive
      refine ⟨[.serve i, .arrive i], row, zs.eraseIdx i, ?_, rfl, h.eraseIdx i, ?_⟩
      · rw [runFrom_cons hserve, runFrom_singleton, harrive]
      · rw [collect, hserve, Option.elim_some, collect, harrive, Option.elim_some, hobserved]
        rfl
  | answered m =>
      obtain ⟨harrive, hobserved⟩ := serverOf_arrive handle row hi
      have hmessage : m = f.message := Tracks.eq_of_answered htracks hend
      rw [hmessage] at hobserved
      refine ⟨[.arrive i], row, zs.eraseIdx i, ?_, rfl, h.eraseIdx i, ?_⟩
      · rw [runFrom_singleton, harrive]
      · rw [collect, harrive, Option.elim_some, hobserved]
        rfl

/-- A party handles a message, and answers it if it owns its key. -/
theorem matched_handle (hq : Quiet handle owns key tag touch)
    (h : Follows owns key tag touch row zs) (hi : zs[i]? = some (f, x))
    (hs : row[f.place]? = some s) :
    Matched handle owns key tag touch row zs []
      { row := row.set f.place (handle s f.message).1
        flights := (zs.map Prod.fst).set i ⟨f.place + 1, (handle s f.message).2⟩ } := by
  have htracks := h.tracks _ (List.mem_of_getElem? hi)
  by_cases hown : owns s (key f.message)
  · cases x with
    | sent m =>
        obtain ⟨hripple, hanswered⟩ := htracks.answer hq h.disjoint hs hown
        have hserve := serverOf_serve handle row hi
          ⟨f.place + 1, (handle s f.message).2⟩
        refine ⟨[.serve i], _, _, (runFrom_singleton _ _).trans hserve, ?_, ?_, ?_⟩
        · rw [ofPairs, hripple, List.map_set]
        · have hrow := h.setRow hs (hq.tag_handle s f.message) (hq.owns_handle s f.message)
          rw [congrArg Prod.fst hripple]
          exact hrow.set hanswered
        · rw [collect, hserve, Option.elim_some]
          rfl
    | answered m => exact absurd hown (htracks.2 f.place s (Nat.le_refl _) hs)
  · have hpass := hq.pass s f.message hown
    have hsame : row.set f.place s = row := by
      obtain ⟨hlt, rfl⟩ := List.getElem?_eq_some_iff.mp hs
      exact List.set_getElem_self hlt
    have hserved : (zs.set i (⟨f.place + 1, touch (tag s) f.message⟩, x)).map Prod.snd =
        zs.map Prod.snd := by
      have hx : (zs.map Prod.snd)[i]? = some x := by
        rw [List.getElem?_map, hi]
        rfl
      obtain ⟨hlt, hget⟩ := List.getElem?_eq_some_iff.mp hx
      rw [List.map_set, ← hget, List.set_getElem_self]
    refine ⟨[], row, zs.set i (⟨f.place + 1, touch (tag s) f.message⟩, x), ?_, ?_,
      h.set (htracks.pass hq hs hown), rfl⟩
    · rw [serverOf, serverOf, hserved]
      rfl
    · rw [ofPairs, hpass, hsame, List.map_set]

/-- **Every step is matched**: when the owner handles a message, the server serves it. -/
theorem matched_step (hq : Quiet handle owns key tag touch)
    (h : Follows owns key tag touch row zs) (hstep : (ofPairs row zs).step handle a = some net') :
    Matched handle owns key tag touch row zs ((ofPairs row zs).observed a) net' := by
  cases a with
  | send m =>
      obtain rfl := Option.some.inj hstep
      refine ⟨[.send m], row, zs ++ [(⟨0, m⟩, .sent m)], ?_, ?_, h.append m, rfl⟩
      · rw [runFrom_singleton, AtomicServer.step, serverOf, serverOf, List.map_append]
        rfl
      · rw [ofPairs, ofPairs, List.map_append]
        rfl
  | deliver i =>
      have hflight : (ofPairs row zs).flights[i]? = (zs[i]?).map Prod.fst := List.getElem?_map
      rw [step, hflight] at hstep
      rw [observed, hflight]
      cases hi : zs[i]? with
      | none =>
          rw [hi] at hstep
          cases hstep
      | some z =>
          obtain ⟨f, x⟩ := z
          rw [hi] at hstep
          cases hs : row[f.place]? with
          | none =>
              have hnet : some { ofPairs row zs with flights := (zs.map Prod.fst).eraseIdx i } =
                  some net' := by
                simpa only [Option.map_some, ofPairs, hs] using hstep
              obtain rfl := Option.some.inj hnet
              have harrive := matched_arrive hq h hi hs
              rw [ofPairs, ← List.eraseIdx_map] at harrive
              simpa only [Option.map_some, ofPairs, hs] using harrive
          | some s =>
              have hnet : some
                  { row := row.set f.place (handle s f.message).1
                    flights := (zs.map Prod.fst).set i ⟨f.place + 1, (handle s f.message).2⟩ } =
                  some net' := by
                simpa only [Option.map_some, ofPairs, hs] using hstep
              obtain rfl := Option.some.inj hnet
              simpa only [Option.map_some, ofPairs, hs] using matched_handle hq h hi hs

/-! ### Every run -/

/-- **Messages on their way at the same time come back as one after the other.** Whatever order they
are handled in, a server that serves each of them along the whole row in one step, some time between
its being sent and its coming back, shows the same. -/
theorem ripples_serialize (hq : Quiet handle owns key tag touch)
    (hrow : row.Pairwise fun s t => ∀ k, ¬(owns s k ∧ owns t k)) {net : RippleNet σ μ}
    {acts : List (Action μ)} (hrun : runFrom (step handle) { row := row } acts = some net) :
    ∃ bs served, runFrom (AtomicServer.step (ripple handle)) { state := row } bs =
        some { state := net.row, served := served } ∧
      served.length = net.flights.length ∧
      collect (AtomicServer.step (ripple handle)) AtomicServer.observed { state := row } bs =
        collect (step handle) observed { row := row } acts := by
  let R : RippleNet σ μ → AtomicServer (List σ) μ → Prop := fun net server =>
    ∃ row zs, net = ofPairs row zs ∧ server = serverOf row zs ∧ Follows owns key tag touch row zs
  have hsim : ∀ m n a m', R m n → step handle m a = some m' →
      ∃ bs n', runFrom (AtomicServer.step (ripple handle)) n bs = some n' ∧ R m' n' ∧
        collect (AtomicServer.step (ripple handle)) AtomicServer.observed n bs = observed m a := by
    rintro m n a m' ⟨row, zs, rfl, rfl, h⟩ hstep
    obtain ⟨bs, row', zs', hbs, rfl, h', hevents⟩ := matched_step hq h hstep
    exact ⟨bs, serverOf row' zs', hbs, ⟨row', zs', rfl, rfl, h'⟩, hevents⟩
  have hstart : R { row := row } { state := row } :=
    ⟨row, [], rfl, rfl, hrow, fun z hz => absurd hz List.not_mem_nil⟩
  obtain ⟨bs, server, hbs, ⟨row', zs, rfl, rfl, -⟩, hevents⟩ :=
    runFrom_simulates R hsim hstart hrun
  refine ⟨bs, zs.map Prod.snd, hbs, ?_, hevents⟩
  rw [ofPairs, List.length_map, List.length_map]

end RippleNet

end

end Csci6780
