import Csci6780.FileAccessManager
import Mathlib.Tactic.FinCases

/-!
# Wake-Ups of the File Access Manager

One condition variable serves the threads that wait for different paths, and every `UnlockFile`
wakes only one of them. If that one waits for another path, which is still locked, it goes back to
sleep, and whoever waits for the path that has been unlocked is not woken any more.

Nobody is forgotten as long as a path that somebody sleeps for is locked, or cared for: a thread is
going to notify that it is unlocked, or has been woken for it (`Attended`). A step loses this only
if it is a notification that wakes a thread of another path although it is the last one that cares.

## Main results

* `AccessMonitor.attended_iff`: which steps keep every path attended.
* `AccessMonitor.wakeups_not_lost`: no wake-up is lost in a run of such steps.
* `AccessMonitor.wakeup_lost`: four threads on two paths that lose one.
-/

namespace Csci6780

/-- The thread is going to notify that the path is unlocked, or has been woken for it. -/
def LockPc.caresFor (key : List Char) (pc : LockPc) : Prop := pc = .notifying key ∨ pc = .woken key

instance (key : List Char) (pc : LockPc) : Decidable (pc.caresFor key) :=
  inferInstanceAs (Decidable (_ ∨ _))

namespace AccessMonitor

variable {Thread : Type}

/-- A thread sleeps in `LockFile` for a path that is not locked, while no thread has been woken and
no notification is to come. -/
structure Lost (s : AccessMonitor Thread) : Prop where
  sleeper : ∃ t key, s.pc t = .asleep key ∧ key ∉ s.manager.lockedFiles
  woken : ∀ t key, s.pc t ≠ .woken key
  notifying : ∀ t key, s.pc t ≠ .notifying key

/-- A path that somebody sleeps for is locked or cared for. -/
def Attended (s : AccessMonitor Thread) : Prop :=
  ∀ t key, s.pc t = .asleep key →
    key ∈ s.manager.lockedFiles ∨ ∃ u, (s.pc u).caresFor key

/-- A notification wakes a thread that waits for the path that was unlocked, unless the path is
locked again, or nobody sleeps for it, or somebody else cares for it. -/
def NotifiesOwn (s : AccessMonitor Thread) : Action Thread → Prop
  | .notifyOne t (some u) =>
      match s.pc t with
      | .notifying key =>
          s.pc u = .asleep key ∨ key ∈ s.manager.lockedFiles ∨ (∀ v, s.pc v ≠ .asleep key) ∨
            ∃ w, w ≠ t ∧ (s.pc w).caresFor key
      | _ => True
  | _ => True

instance [DecidableEq Thread] [Fintype Thread] (s : AccessMonitor Thread) (a : Action Thread) :
    Decidable (s.NotifiesOwn a) := by
  unfold NotifiesOwn
  split
  · split <;> infer_instance
  · infer_instance

variable {s s' : AccessMonitor Thread} {a : Action Thread} {t u : Thread} {key : List Char}

/-- A thread that is forgotten is not attended to. -/
theorem Attended.not_lost (h : Attended s) : ¬s.Lost := by
  rintro ⟨⟨t, key, hpc, hfree⟩, hwoken, hnotifying⟩
  obtain ⟨u, hu | hu⟩ := (h t key hpc).resolve_left hfree
  · exact hnotifying u key hu
  · exact hwoken u key hu

/-- A step that adds no sleeper for an unlocked path, and gives up a path only to somebody who
cares for it. -/
theorem Attended.congr (h : Attended s)
    (hasleep : ∀ t key, s'.pc t = .asleep key →
      s.pc t = .asleep key ∨ key ∈ s'.manager.lockedFiles)
    (hlocked : ∀ key ∈ s.manager.lockedFiles,
      key ∈ s'.manager.lockedFiles ∨ ∃ u, (s'.pc u).caresFor key)
    (hcares : ∀ u key, (s.pc u).caresFor key →
      key ∈ s'.manager.lockedFiles ∨ ∃ v, (s'.pc v).caresFor key) : Attended s' := by
  intro t key hpc
  rcases hasleep t key hpc with hpc | hkey
  · rcases h t key hpc with hkey | ⟨u, hu⟩
    · exact hlocked key hkey
    · exact hcares u key hu
  · exact .inl hkey

variable [DecidableEq Thread]

/-- A thread cares for a path after another one has gone on. -/
theorem caresFor_goTo_of_ne (hne : u ≠ t) {pc : LockPc} (hu : (s.pc u).caresFor key) :
    ((s.goTo t pc).pc u).caresFor key := by
  rw [pc_goTo_of_ne hne]
  exact hu

/-- A thread that goes on to sleep or to leave was asleep there before. -/
theorem asleep_of_goTo {pc : LockPc} (hu : (s.goTo t pc).pc u = .asleep key) :
    s.pc u = .asleep key ∨ pc = .asleep key := by
  by_cases h : u = t
  · subst h
    rw [pc_goTo_self] at hu
    exact .inr hu
  · rw [pc_goTo_of_ne h] at hu
    exact .inl hu

/-- After a notification, whoever else cared still does, and so does who has been woken. -/
theorem caresFor_notified {other : List Char} (hpc : s.pc t = .notifying key)
    (hu : s.pc u = .asleep other) (j : List Char) :
    (∃ v, (((s.goTo t .outside).goTo u (.woken other)).pc v).caresFor j) ↔
      j = other ∨ ∃ w, w ≠ t ∧ (s.pc w).caresFor j := by
  have hne : u ≠ t := by
    rintro rfl
    rw [hpc] at hu
    cases hu
  constructor
  · rintro ⟨v, hv⟩
    by_cases hvu : v = u
    · subst hvu
      rw [pc_goTo_self] at hv
      rcases hv with hv | hv
      · cases hv
      · exact .inl (LockPc.woken.inj hv).symm
    · rw [pc_goTo_of_ne hvu] at hv
      by_cases hvt : v = t
      · subst hvt
        rw [pc_goTo_self] at hv
        rcases hv with hv | hv <;> cases hv
      · rw [pc_goTo_of_ne hvt] at hv
        exact .inr ⟨v, hvt, hv⟩
  · rintro (rfl | ⟨w, hwt, hw⟩)
    · exact ⟨u, .inr (pc_goTo_self _ u _)⟩
    · have hwu : w ≠ u := by
        rintro rfl
        rw [hu] at hw
        rcases hw with hw | hw <;> cases hw
      exact ⟨w, caresFor_goTo_of_ne hwu (caresFor_goTo_of_ne hwt hw)⟩

/-- **Which notifications keep every path attended.** -/
theorem Attended.notifies_iff (h : Attended s) {other : List Char} (hpc : s.pc t = .notifying key)
    (hu : s.pc u = .asleep other) :
    Attended ((s.goTo t .outside).goTo u (.woken other)) ↔
      s.NotifiesOwn (.notifyOne t (some u)) := by
  have hne : u ≠ t := by
    rintro rfl
    rw [hpc] at hu
    cases hu
  rw [NotifiesOwn, hpc, hu]
  constructor
  · intro h'
    by_cases hown : other = key
    · exact .inl (congrArg _ hown)
    refine .inr (Or.imp_right (fun hcares => ?_) (Classical.em (key ∈ s.manager.lockedFiles)))
    by_contra hnot
    rw [not_or, not_forall] at hnot
    obtain ⟨⟨v, hv⟩, hnobody⟩ := hnot
    have hv := not_not.mp hv
    have hvu : v ≠ u := by
      rintro rfl
      exact hown (LockPc.asleep.inj (hu.symm.trans hv))
    have hvt : v ≠ t := by
      rintro rfl
      rw [hpc] at hv
      cases hv
    have hv' : ((s.goTo t .outside).goTo u (.woken other)).pc v = .asleep key := by
      rw [pc_goTo_of_ne hvu, pc_goTo_of_ne hvt, hv]
    rcases (caresFor_notified hpc hu key).mp ((h' v key hv').resolve_left hcares) with heq | hcare
    · exact hown heq.symm
    · exact hnobody hcare
  · intro hown v j hv
    have hvs : s.pc v = .asleep j := by
      rcases asleep_of_goTo hv with hv | hv
      · rcases asleep_of_goTo hv with hv | hv
        · exact hv
        · cases hv
      · cases hv
    refine or_iff_not_imp_left.mpr fun hfree => (caresFor_notified hpc hu j).mpr ?_
    obtain ⟨w, hw⟩ := (h v j hvs).resolve_left hfree
    by_cases hwt : w = t
    · -- the notification was for this path
      subst hwt
      obtain rfl : key = j := by
        rw [hpc] at hw
        rcases hw with hw | hw
        · exact LockPc.notifying.inj hw
        · cases hw
      rcases hown with hown | hlocked | hnobody | hcares
      · exact .inl (LockPc.asleep.inj hown).symm
      · exact absurd hlocked hfree
      · exact absurd hvs (hnobody v)
      · exact .inr hcares
    · exact .inr ⟨w, hwt, hw⟩

/-- Who tests his path notifies nobody. -/
theorem notifiesOwn_of_tests (htests : a.tests t = true) : s.NotifiesOwn a := by
  cases a with
  | notifyOne u sleeper => cases htests
  | _ => trivial

/-- **Which steps keep every path attended.** -/
theorem attended_iff (h : Attended s) (hst : Stepped s a s') : Attended s' ↔ s.NotifiesOwn a := by
  cases hst with
  | locks a t key htests hpc hfree =>
      refine iff_of_true (h.congr (fun v j hv => ?_) (fun j hj => ?_) fun v j hv => ?_)
        (notifiesOwn_of_tests htests)
      · exact (asleep_of_goTo hv).imp_right fun h => nomatch h
      · exact .inl (Finset.mem_insert_of_mem hj)
      · by_cases hvt : v = t
        · subst hvt
          refine .inl (Finset.mem_insert.mpr (.inl ?_))
          rcases hpc with hpc | hpc <;> rw [hpc] at hv <;> rcases hv with hv | hv <;> cases hv
          rfl
        · exact .inr ⟨v, caresFor_goTo_of_ne hvt hv⟩
  | sleeps a t key htests hpc hlocked =>
      refine iff_of_true (h.congr (fun v j hv => ?_) (fun j hj => .inl hj) fun v j hv => ?_)
        (notifiesOwn_of_tests htests)
      · refine (asleep_of_goTo hv).imp_right fun hkey => ?_
        obtain rfl := LockPc.asleep.inj hkey
        exact hlocked
      · by_cases hvt : v = t
        · subst hvt
          refine .inl ?_
          rcases hpc with hpc | hpc <;> rw [hpc] at hv <;> rcases hv with hv | hv <;> cases hv
          exact hlocked
        · exact .inr ⟨v, caresFor_goTo_of_ne hvt hv⟩
  | unlocks t path key hpc =>
      refine iff_of_true (h.congr (fun v j hv => ?_) (fun j hj => ?_) fun v j hv => .inr ?_) trivial
      · exact (asleep_of_goTo hv).imp_right fun h => nomatch h
      · by_cases hjk : j = key
        · exact .inr ⟨t, .inl (hjk ▸ pc_goTo_self _ t _)⟩
        · exact .inl (Finset.mem_erase.mpr ⟨hjk, hj⟩)
      · have hvt : v ≠ t := by
          rintro rfl
          rw [hpc] at hv
          rcases hv with hv | hv <;> cases hv
        exact ⟨v, caresFor_goTo_of_ne hvt hv⟩
  | notifies t u key other hpc hu => exact h.notifies_iff hpc hu
  | notifiesNobody t key hpc hnobody =>
      refine iff_of_true (fun v j hv => ?_) trivial
      rcases asleep_of_goTo hv with hv | hv
      · exact absurd hv (hnobody v j)
      · cases hv
  | spuriousWakeup u key hu =>
      refine iff_of_true (h.congr (fun v j hv => ?_) (fun j hj => .inl hj) fun v j hv => .inr ?_)
        trivial
      · exact (asleep_of_goTo hv).imp_right fun h => nomatch h
      · have hvu : v ≠ u := by
          rintro rfl
          rw [hu] at hv
          rcases hv with hv | hv <;> cases hv
        exact ⟨v, caresFor_goTo_of_ne hvu hv⟩

/-- **No wake-up is lost** in a run of any threads that lock and unlock any paths, if every
notification wakes a thread that waits for the path that was unlocked, unless that path is locked
again, or nobody sleeps for it, or another thread is going to notify for it or has been woken
for it. -/
theorem wakeups_not_lost [Fintype Thread] (currentPath : List Char) (acts : List (Action Thread))
    (hown : EachStep (step currentPath) NotifiesOwn {} acts) :
    EachState (step currentPath) (fun s => ¬Lost s) {} acts := by
  have hstart : Attended ({} : AccessMonitor Thread) := fun t key hpc => nomatch hpc
  have hattended : EachState (step currentPath) Attended {} acts :=
    .of_inv _ (fun s a s' h ha hstep => (attended_iff h (stepped_of_step hstep)).mpr ha) hstart hown
  exact hattended.mono fun s h => h.not_lost

/-- Two threads hold a path each, and a thread waits for each of the paths. -/
def twoHoldersTwoWaiters : List (Action (Fin 4)) :=
  [.lockFile 0 ['/', 'a'], .lockFile 1 ['/', 'b'], .lockFile 2 ['/', 'a'], .lockFile 3 ['/', 'b'],
    .unlockFile 0 ['/', 'a']]

/-- The thread that waits for the path that is unlocked is woken. -/
def wakeOwn : List (Action (Fin 4)) :=
  twoHoldersTwoWaiters ++ [.notifyOne 0 (some 2), .resume 2, .unlockFile 1 ['/', 'b'],
    .notifyOne 1 (some 3), .resume 3]

theorem wakeups_not_lost_own : EachState (step []) (fun s => ¬Lost s) {} wakeOwn :=
  wakeups_not_lost [] wakeOwn (by decide)

/-- The thread that waits for the other path is woken. -/
def wakeOther : List (Action (Fin 4)) :=
  twoHoldersTwoWaiters ++ [.notifyOne 0 (some 3), .resume 3]

/-- The thread that waits for the path that was unlocked is forgotten. -/
theorem wakeup_lost : ∃ s, runFrom (step []) {} wakeOther = some s ∧ Lost s := by
  refine ⟨_, rfl, ⟨2, ['/', 'a'], by decide, by decide⟩, fun t key => ?_, fun t key => ?_⟩
  · fin_cases t <;> exact fun h => nomatch h
  · fin_cases t <;> exact fun h => nomatch h

end AccessMonitor

end Csci6780
