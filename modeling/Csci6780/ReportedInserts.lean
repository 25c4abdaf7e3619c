import Csci6780.Bootstrap
import Csci6780.Lib.Runs

/-!
# Inserts that the Bootstrap Server Reports

`Bootstrap::Insert` goes by the range of the key, `LookUp` and `Delete` by what is in the table,
which the configuration may have filled with any keys. The table's `insert` keeps the value of a
key that it has; `Insert` does not ask, and reports the insertion all the same.

With no other server in the ring, the commands of the console are all that changes the table.

## Main results

* `find_after`: what no command for a key has touched is still there.
* `reported_inserts_visible_iff`: look-ups see the values of reported inserts exactly if those found
  no other value of their key; they see deletions always.
-/

namespace Csci6780.HashRing.Bootstrap

/-- A command of the console. -/
inductive Command
  | insert (key : UInt32) (val : String)
  | delete (key : UInt32)
  | lookUp (key : UInt32)
  deriving DecidableEq, Repr

/-- The bootstrap server after a command. -/
def execute (bs : Bootstrap) : Command → Bootstrap
  | .insert key val => (bs.insert key val).server
  | .delete key => (bs.delete key).server
  | .lookUp key => (bs.lookUp key).server

/-- A command is a step of the system. -/
def step (bs : Bootstrap) (c : Command) : Option Bootstrap := some (bs.execute c)

/-- No other server is in the ring. -/
def Alone (bs : Bootstrap) : Prop := bs.successor = bs.bootstrap

instance (bs : Bootstrap) : Decidable bs.Alone :=
  inferInstanceAs (Decidable (bs.successor = bs.bootstrap))

/-- `Insert` reports that it has inserted the key here. -/
def ReportsInsert (bs : Bootstrap) (key : UInt32) (val : String) : Prop :=
  "Inserted into: 0" ∈ (bs.insert key val).console

/-- `Delete` reports that it has contacted nobody but this server. -/
def ReportsDelete (bs : Bootstrap) (key : UInt32) : Prop :=
  "Contacted: 0" ∈ (bs.delete key).console

/-- The lines for a value that is stored here. -/
def valueLines (val : String) : List String := ["Value: " ++ val, "Contacted: 0"]

/-- The command deletes the key, or is a reported insert of it. -/
def Touches (key : UInt32) (bs : Bootstrap) : Command → Prop
  | .insert k val => k = key ∧ bs.ReportsInsert k val
  | .delete k => k = key
  | .lookUp _ => False

/-- The command is an insert of the key. -/
def Command.Inserts (key : UInt32) : Command → Prop
  | .insert k _ => k = key
  | .delete _ | .lookUp _ => False

variable {bs : Bootstrap} {key : UInt32} {val : String}

/-! ### One command -/

theorem reportsInsert_iff :
    bs.ReportsInsert key val ↔ bs.bounds.1 ≤ key ∧ key ≤ bs.bounds.2 := by
  rw [ReportsInsert, insert]
  split
  · next h => exact iff_of_true List.mem_cons_self h
  · next h =>
      refine iff_of_false ?_ h
      split <;> simp

theorem find_insert_reported (h : bs.ReportsInsert key val) :
    (bs.insert key val).server.pairs.find key = some ((bs.pairs.find key).getD val) := by
  rw [insert, if_pos (reportsInsert_iff.mp h)]
  exact UnorderedMap.find_insert_self bs.pairs key val

theorem insert_not_reported (h : ¬bs.ReportsInsert key val) :
    (bs.insert key val).server = bs := by
  rw [insert, if_neg fun hin => h (reportsInsert_iff.mpr hin)]
  split <;> rfl

/-- An insert of another key. -/
theorem find_insert_other {k : UInt32} (hk : k ≠ key) :
    (bs.insert k val).server.pairs.find key = bs.pairs.find key := by
  by_cases h : bs.ReportsInsert k val
  · rw [insert, if_pos (reportsInsert_iff.mp h)]
    exact UnorderedMap.find_insert_of_ne bs.pairs (Ne.symm hk) val
  · rw [insert_not_reported h]

theorem delete_of_none {k : UInt32} (h : bs.pairs.find k = none) : (bs.delete k).server = bs := by
  rw [delete, h]
  simp only
  split <;> rfl

theorem find_delete (bs : Bootstrap) (k : UInt32) :
    (bs.delete k).server.pairs.find = Function.update bs.pairs.find k none := by
  cases h : bs.pairs.find k with
  | some old =>
      rw [delete, h]
      exact UnorderedMap.find_erase bs.pairs k
  | none =>
      rw [delete_of_none h, ← h]
      exact (Function.update_eq_self k bs.pairs.find).symm

theorem lookUp_server (bs : Bootstrap) (k : UInt32) : (bs.lookUp k).server = bs := by
  rw [lookUp]
  split
  · rfl
  · split <;> rfl

/-- What a command does not touch stays. -/
theorem find_execute {c : Command} (h : ¬Touches key bs c) :
    (bs.execute c).pairs.find key = bs.pairs.find key := by
  cases c with
  | insert k val =>
      by_cases hk : k = key
      · have hnot : ¬bs.ReportsInsert k val := fun hreports => h ⟨hk, hreports⟩
        rw [execute, insert_not_reported hnot]
      · exact find_insert_other hk
  | delete k =>
      rw [execute, find_delete, Function.update_of_ne (Ne.symm h)]
  | lookUp k => rw [execute, lookUp_server]

/-- The commands leave the place in the ring. -/
theorem alone_execute (c : Command) : (bs.execute c).Alone ↔ bs.Alone := by
  cases c with
  | insert k val =>
      rw [execute, insert]
      split
      · rfl
      · split <;> rfl
  | delete k =>
      rw [execute, delete]
      split
      · rfl
      · split <;> rfl
  | lookUp k => rw [execute, lookUp_server]

/-! ### What a look-up shows -/

theorem lookUp_console_of_find (h : bs.pairs.find key = some val) :
    (bs.lookUp key).console = valueLines val := by
  rw [lookUp, h]
  rfl

theorem lookUp_console_of_none (hbs : bs.Alone) (h : bs.pairs.find key = none) :
    (bs.lookUp key).console = ["Key not found."] := by
  have hring : bs.successor = bs.bootstrap := hbs
  rw [lookUp, h]
  simp only [if_pos hring]

theorem valueLines_inj {v w : String} (h : valueLines v = valueLines w) : v = w := by
  have hline : "Value: " ++ v = "Value: " ++ w := (List.cons.inj h).1
  exact (String.append_right_inj _).mp hline

/-! ### Runs -/

theorem step_eq (m : Bootstrap) (c : Command) : step m c = some (m.execute c) := rfl

/-- **What no command for a key has touched is still there.** -/
theorem find_after {bs bs' : Bootstrap} {commands : List Command}
    (h : EachStep step (fun m c => ¬Touches key m c) bs commands)
    (hrun : runFrom step bs commands = some bs') : bs'.pairs.find key = bs.pairs.find key := by
  have hstates : EachState step (fun m => m.pairs.find key = bs.pairs.find key) bs commands :=
    .of_inv_total step_eq _ (fun m c hm hc => (find_execute hc).trans hm) rfl h
  exact hstates.last hrun

theorem alone_after {bs bs' : Bootstrap} {commands : List Command}
    (hrun : runFrom step bs commands = some bs') (h : bs.Alone) : bs'.Alone := by
  have hstates : EachState step Alone bs commands :=
    .of_inv_total step_eq Alone (fun m c hm _ => (alone_execute c).mpr hm) h
      (EachStep.of_forall (p := fun _ => True) bs fun _ _ => trivial)
  exact hstates.last hrun

/-- In the run, `Insert` of the key is reported in the state `m`, and a `LookUp` of it comes in the
state `m'`, with no `Delete` and no reported `Insert` of the key in between. -/
def LooksUpInsert (bs : Bootstrap) (commands : List Command) (key : UInt32) (val : String)
    (m m' : Bootstrap) : Prop :=
  ∃ pre mid, pre ++ .insert key val :: mid ++ [.lookUp key] <+: commands ∧
    runFrom step bs pre = some m ∧ m.ReportsInsert key val ∧
    EachStep step (fun m c => ¬Touches key m c) (m.insert key val).server mid ∧
    runFrom step (m.insert key val).server mid = some m'

/-- In the run, `Delete` of the key is reported, and a `LookUp` of it comes in the state `m'`, with
no `Insert` of the key in between. -/
def LooksUpDelete (bs : Bootstrap) (commands : List Command) (key : UInt32) (m' : Bootstrap) :
    Prop :=
  ∃ pre mid m, pre ++ .delete key :: mid ++ [.lookUp key] <+: commands ∧
    runFrom step bs pre = some m ∧ m.ReportsDelete key ∧ (∀ c ∈ mid, ¬c.Inserts key) ∧
    runFrom step (m.delete key).server mid = some m'

/-- Every reported insert is seen by the look-ups after it. -/
def InsertsVisible (bs : Bootstrap) (commands : List Command) : Prop :=
  ∀ key val m m', LooksUpInsert bs commands key val m m' →
    (m'.lookUp key).console = valueLines val

/-- Every reported deletion is seen by the look-ups after it. -/
def DeletesVisible (bs : Bootstrap) (commands : List Command) : Prop :=
  ∀ key m', LooksUpDelete bs commands key m' → (m'.lookUp key).console = ["Key not found."]

/-- What a look-up after a reported insert shows: the older value, if there was one. -/
theorem lookUp_console_of_looksUpInsert {commands : List Command} {m m' : Bootstrap}
    (h : LooksUpInsert bs commands key val m m') :
    (m'.lookUp key).console = valueLines ((m.pairs.find key).getD val) := by
  obtain ⟨pre, mid, -, -, hreports, hmid, hm'⟩ := h
  refine lookUp_console_of_find ?_
  rw [find_after hmid hm', find_insert_reported hreports]

theorem deletesVisible (h : bs.Alone) (commands : List Command) : DeletesVisible bs commands := by
  rintro key m' ⟨pre, mid, m, -, hm, -, hmid, hm'⟩
  have hstart : (m.delete key).server.pairs.find key = none := by
    rw [find_delete, Function.update_self]
  have hstates : EachState step (fun n => n.pairs.find key = none) (m.delete key).server mid := by
    refine .of_inv_total step_eq _ (fun n c hn hc => ?_) hstart (EachStep.of_forall _ hmid)
    cases c with
    | insert k val => exact (find_insert_other hc).trans hn
    | delete k =>
        rw [execute, find_delete, Function.update_apply, hn]
        exact ite_self none
    | lookUp k => rw [execute, lookUp_server, hn]
  refine lookUp_console_of_none ?_ (hstates.last hm')
  exact alone_after hm' ((alone_execute (.delete key)).mpr (alone_after hm h))

/-- **When reported inserts are visible.** Reported deletions always are. -/
theorem reported_inserts_visible_iff (h : bs.Alone) (commands : List Command) :
    (InsertsVisible bs commands ↔
      ∀ key val m m', LooksUpInsert bs commands key val m m' →
        m.pairs.find key = none ∨ m.pairs.find key = some val) ∧
    DeletesVisible bs commands := by
  refine ⟨?_, deletesVisible h commands⟩
  refine forall₄_congr fun key val m m' => forall_congr' fun hlook => ?_
  rw [lookUp_console_of_looksUpInsert hlook]
  cases hfind : m.pairs.find key with
  | none => exact iff_of_true rfl (.inl rfl)
  | some old =>
      rw [Option.getD_some]
      constructor
      · exact fun hlines => .inr (congrArg some (valueLines_inj hlines))
      · rintro (hnone | hsome)
        · cases hnone
        · rw [Option.some.inj hsome]

/-- A bootstrap server with one pair from its configuration. -/
def configured : Bootstrap := .construct 4000 ⟨[(7, "old")], by decide⟩ 0 0 0

theorem reported_inserts_visible_iff_configured :
    (InsertsVisible configured [.insert 8 "new", .lookUp 8, .delete 8, .lookUp 8] ↔
      ∀ key val m m',
        LooksUpInsert configured [.insert 8 "new", .lookUp 8, .delete 8, .lookUp 8] key val m m' →
          m.pairs.find key = none ∨ m.pairs.find key = some val) ∧
    DeletesVisible configured [.insert 8 "new", .lookUp 8, .delete 8, .lookUp 8] :=
  reported_inserts_visible_iff (by decide) _

/-- `Insert(7, "new")` is reported, and `LookUp(7)` shows the value of the configuration. -/
theorem reported_insert_not_visible :
    configured.Alone ∧
      (configured.insert 7 "new").console = ["Inserted into: 0", "Contacted: 0"] ∧
      ((configured.insert 7 "new").server.lookUp 7).console = ["Value: old", "Contacted: 0"] ∧
      ¬InsertsVisible configured [.insert 7 "new", .lookUp 7] := by
  refine ⟨by decide, by decide, by decide, fun hvisible => ?_⟩
  have hlook : LooksUpInsert configured [.insert 7 "new", .lookUp 7] 7 "new" configured
      (configured.insert 7 "new").server :=
    ⟨[], [], List.prefix_refl _, rfl, reportsInsert_iff.mpr (by decide), .nil _, rfl⟩
  have hlines := hvisible _ _ _ _ hlook
  revert hlines
  decide

end Csci6780.HashRing.Bootstrap
