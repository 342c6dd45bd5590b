import LearningDirectory.StepRun
import Mathlib.Data.Finset.Basic
import Mathlib.Data.Int.Notation

/-! The loop of `system_function`: main forks a child and kills it after a sleep, and
`sigchld_handler` waits for the children that have exited. -/
namespace LearningDirectory
open StepRun

/-- Where main is with a `sleep(10)`. -/
inductive Sleep
  | before
  | asleep
  | over
deriving DecidableEq

/-- The call behind it. -/
inductive AfterSleep
  | fork
  | kill
deriving DecidableEq

structure SystemFunction where
  sleep : Sleep := .before
  next : AfterSleep := .fork
  /-- main's variable -/
  pid : ℤ := 0
  running : Finset ℤ := ∅
  /-- children that have exited and not been waited for -/
  exited : Finset ℤ := ∅
  /-- what `waitpid` has returned, unless `fork` has returned it again -/
  reaped : Finset ℤ := ∅
  /-- SIGCHLD is pending -/
  pending : Bool := false
  /-- `sigchld_handler` runs, and main does not -/
  inHandler : Bool := false

inductive SystemStep
  | sleep
  | wake
  | fork (pid : ℤ)
  | kill
  | exit (child : ℤ)
  | sigchld
  | waitpid (childPid : ℤ)

namespace SystemFunction

/-- `fork` has returned `pid` to main. -/
def forked (s : SystemFunction) (pid : ℤ) : Option SystemFunction :=
  if pid < 0 then some { s with pid := pid, sleep := .before }
  -- 0 is for the child, and no child gets the number of one that has not been waited for
  else if pid = 0 ∨ pid ∈ s.running ∨ pid ∈ s.exited then none
  else
    some
      { s with
        pid := pid
        sleep := .before
        next := .kill
        running := insert pid s.running
        reaped := s.reaped.erase pid }

/-- `waitpid(-1,&state,WNOHANG)` has returned `childPid` to the handler. -/
def waited (s : SystemFunction) (childPid : ℤ) : Option SystemFunction :=
  if 0 < childPid then
    if childPid ∈ s.exited then
      some
        { s with exited := s.exited.erase childPid, reaped := insert childPid s.reaped }
    else none
  -- the loop ends when there is no child to wait for
  else if s.exited = ∅ then some { s with inHandler := false }
  else none

end SystemFunction

def systemStep (s : SystemFunction) : SystemStep → Option SystemFunction
  | .sleep =>
    if s.inHandler = false ∧ s.sleep = .before then some { s with sleep := .asleep } else none
  | .wake =>
    if s.inHandler = false ∧ s.sleep = .asleep then some { s with sleep := .over } else none
  | .fork pid =>
    if s.inHandler = false ∧ s.sleep = .over ∧ s.next = .fork then s.forked pid else none
  | .kill =>
    -- `kill(pid,9)`: a child that is killed exits by a step of its own
    if s.inHandler = false ∧ s.sleep = .over ∧ s.next = .kill then
      some { s with sleep := .before, next := .fork }
    else none
  | .exit child =>
    if child ∈ s.running then
      some
        { s with
          running := s.running.erase child, exited := insert child s.exited, pending := true }
    else none
  | .sigchld =>
    -- the signal ends a `sleep`, and is blocked while its handler runs
    if s.pending = true ∧ s.inHandler = false then
      some
        { s with
          pending := false
          inHandler := true
          sleep := if s.sleep = .asleep then .over else s.sleep }
    else none
  | .waitpid childPid => if s.inHandler = true then s.waited childPid else none

/-- A child runs, has exited or has been waited for; and main's variable names a child when it
is to be killed. -/
structure PidsOk (s : SystemFunction) : Prop where
  running : ∀ p ∈ s.running, p ∉ s.exited ∧ p ∉ s.reaped
  exited : ∀ p ∈ s.exited, p ∉ s.reaped
  known : s.next = .kill → s.pid ∈ s.running ∨ s.pid ∈ s.exited ∨ s.pid ∈ s.reaped

theorem pidsOk_start : PidsOk {} where
  running := by simp
  exited := by simp
  known := nofun

theorem pidsOk_forked {s t : SystemFunction} {pid : ℤ} (h : PidsOk s) (hnext : s.next = .fork)
    (hs : s.forked pid = some t) : PidsOk t := by
  rw [SystemFunction.forked] at hs
  split_ifs at hs with hfail hused
  · cases hs
    exact ⟨h.running, h.exited, fun hkill => by cases hnext.symm.trans hkill⟩
  · cases hs
    push Not at hused
    refine ⟨?_, ?_, fun _ => Or.inl (Finset.mem_insert_self ..)⟩
    · intro p hp
      rw [Finset.mem_erase, not_and_or]
      rcases Finset.mem_insert.mp hp with rfl | hp
      · exact ⟨hused.2.2, Or.inl (not_not_intro rfl)⟩
      · exact ⟨(h.running p hp).1, Or.inr (h.running p hp).2⟩
    · intro p hp hreaped
      exact h.exited p hp (Finset.mem_of_mem_erase hreaped)

theorem pidsOk_exit {s t : SystemFunction} {child : ℤ} (h : PidsOk s)
    (hs : systemStep s (.exit child) = some t) : PidsOk t := by
  obtain ⟨hchild, hs⟩ := Option.ite_none_right_eq_some.mp hs
  cases hs
  refine ⟨?_, ?_, ?_⟩
  · intro p hp
    obtain ⟨hne, hp⟩ := Finset.mem_erase.mp hp
    have hexit : p ∉ insert child s.exited :=
      mt Finset.mem_insert.mp (not_or_intro hne (h.running p hp).1)
    exact ⟨hexit, (h.running p hp).2⟩
  · intro p hp
    rcases Finset.mem_insert.mp hp with rfl | hp
    · exact (h.running p hchild).2
    · exact h.exited p hp
  · intro hkill
    rw [Finset.mem_erase, Finset.mem_insert]
    have hknown := h.known hkill
    tauto

theorem pidsOk_waited {s t : SystemFunction} {childPid : ℤ} (h : PidsOk s)
    (hs : s.waited childPid = some t) : PidsOk t := by
  rw [SystemFunction.waited] at hs
  split_ifs at hs with hpos hexited hnone
  · cases hs
    refine ⟨?_, ?_, ?_⟩
    · intro p hp
      obtain ⟨hexit, hreaped⟩ := h.running p hp
      refine ⟨fun hmem => hexit (Finset.mem_of_mem_erase hmem), ?_⟩
      -- what is waited for has exited
      have hne : p ≠ childPid := fun he => hexit (he ▸ hexited)
      exact mt Finset.mem_insert.mp (not_or_intro hne hreaped)
    · intro p hp
      obtain ⟨hne, hp⟩ := Finset.mem_erase.mp hp
      exact mt Finset.mem_insert.mp (not_or_intro hne (h.exited p hp))
    · intro hkill
      rw [Finset.mem_erase, Finset.mem_insert]
      have hknown := h.known hkill
      tauto
  · cases hs
    exact ⟨h.running, h.exited, h.known⟩

theorem pidsOk_step {s t : SystemFunction} {a : SystemStep} (h : PidsOk s)
    (hs : systemStep s a = some t) : PidsOk t := by
  cases a with
  | sleep =>
    obtain ⟨-, hs⟩ := Option.ite_none_right_eq_some.mp hs
    cases hs
    exact ⟨h.running, h.exited, h.known⟩
  | wake =>
    obtain ⟨-, hs⟩ := Option.ite_none_right_eq_some.mp hs
    cases hs
    exact ⟨h.running, h.exited, h.known⟩
  | fork pid =>
    obtain ⟨⟨-, -, hnext⟩, hs⟩ := Option.ite_none_right_eq_some.mp hs
    exact pidsOk_forked h hnext hs
  | kill =>
    obtain ⟨-, hs⟩ := Option.ite_none_right_eq_some.mp hs
    cases hs
    exact ⟨h.running, h.exited, nofun⟩
  | exit child => exact pidsOk_exit h hs
  | sigchld =>
    obtain ⟨-, hs⟩ := Option.ite_none_right_eq_some.mp hs
    cases hs
    exact ⟨h.running, h.exited, h.known⟩
  | waitpid childPid =>
    obtain ⟨-, hs⟩ := Option.ite_none_right_eq_some.mp hs
    exact pidsOk_waited h hs

/-- Main owns the process that it is going to kill exactly as long as no `waitpid` has
returned it. -/
theorem owned_iff_not_reaped {as : List SystemStep} {s : SystemFunction}
    (hr : run systemStep {} as = some s) (hnext : s.next = .kill) :
    s.pid ∈ s.running ∨ s.pid ∈ s.exited ↔ s.pid ∉ s.reaped := by
  have h : PidsOk s := by
    refine run_invariant systemStep (I := fun _ s => PidsOk s) pidsOk_start ?_ hr
    intro _ t a u _ hi hs
    exact pidsOk_step hi hs
  constructor
  · rintro (hrunning | hexited)
    · exact (h.running s.pid hrunning).2
    · exact h.exited s.pid hexited
  · intro hno
    have hknown := h.known hnext
    tauto

/-! ### The process that main kills -/

/-- No `kill` is for a process that has been waited for. -/
def KillsOwned (s : SystemFunction) : SystemStep → Prop
  | .kill => s.next = .kill → s.pid ∉ s.reaped
  | _ => True

/-- Between its `fork` and its `kill`, the handler does not run while the child has exited. -/
def Undisturbed (s : SystemFunction) : SystemStep → Prop
  | .sigchld => s.next = .kill → s.pid ∉ s.exited
  | .exit child => s.next = .kill → s.inHandler = true → s.pid ≠ child
  | _ => True

instance decidableKillsOwned (s : SystemFunction) : (a : SystemStep) → Decidable (KillsOwned s a)
  | .kill => inferInstanceAs (Decidable (s.next = .kill → s.pid ∉ s.reaped))
  | .sleep => isTrue trivial
  | .wake => isTrue trivial
  | .fork _ => isTrue trivial
  | .exit _ => isTrue trivial
  | .sigchld => isTrue trivial
  | .waitpid _ => isTrue trivial

instance decidableUndisturbed (s : SystemFunction) :
    (a : SystemStep) → Decidable (Undisturbed s a)
  | .sigchld => inferInstanceAs (Decidable (s.next = .kill → s.pid ∉ s.exited))
  | .exit child =>
    inferInstanceAs (Decidable (s.next = .kill → s.inHandler = true → s.pid ≠ child))
  | .sleep => isTrue trivial
  | .wake => isTrue trivial
  | .fork _ => isTrue trivial
  | .kill => isTrue trivial
  | .waitpid _ => isTrue trivial

/-- The process that main is going to kill has been waited for, or the handler runs and has
yet to wait for it. -/
def Doomed (s : SystemFunction) : Prop :=
  s.next = .kill ∧ (s.pid ∈ s.reaped ∨ s.inHandler = true ∧ s.pid ∈ s.exited)

theorem not_doomed_fork {s : SystemFunction} (h : s.next = .fork) : ¬ Doomed s := by
  rintro ⟨hkill, -⟩
  cases h.symm.trans hkill

theorem doomed_forked {s t : SystemFunction} {pid : ℤ} (hnext : s.next = .fork)
    (hhandler : s.inHandler = false) (hs : s.forked pid = some t) : ¬ Doomed t := by
  rw [SystemFunction.forked] at hs
  split_ifs at hs with hfail hused
  · cases hs
    exact not_doomed_fork hnext
  · cases hs
    rintro ⟨-, hreaped | ⟨hin, -⟩⟩
    -- the number is that of a new process now
    · exact Finset.notMem_erase pid s.reaped hreaped
    · cases hhandler.symm.trans hin

theorem doomed_waited {s t : SystemFunction} {childPid : ℤ} (hhandler : s.inHandler = true)
    (hs : s.waited childPid = some t) : Doomed t ↔ Doomed s := by
  rw [SystemFunction.waited] at hs
  split_ifs at hs with hpos hexited hnone
  · cases hs
    simp only [Doomed, hhandler, true_and, Finset.mem_insert, Finset.mem_erase]
    apply and_congr_right
    intro _
    -- the child that is waited for goes from the one set to the other
    by_cases he : s.pid = childPid
    · simp only [he, hexited, true_or, or_true]
    · simp only [he, false_or, not_false_eq_true, true_and, ne_eq]
  · cases hs
    simp [Doomed, hnone]

/-- A step other than `kill` keeps what is wrong, and adds to it exactly when it lets the
handler meet the child. -/
theorem doomed_step {s t : SystemFunction} {a : SystemStep} (hs : systemStep s a = some t)
    (ha : a ≠ .kill) : Doomed t ↔ Doomed s ∨ ¬ Undisturbed s a := by
  cases a with
  | sleep =>
    obtain ⟨-, hs⟩ := Option.ite_none_right_eq_some.mp hs
    cases hs
    simp [Doomed, Undisturbed]
  | wake =>
    obtain ⟨-, hs⟩ := Option.ite_none_right_eq_some.mp hs
    cases hs
    simp [Doomed, Undisturbed]
  | fork pid =>
    obtain ⟨⟨hhandler, -, hnext⟩, hs⟩ := Option.ite_none_right_eq_some.mp hs
    refine iff_of_false (doomed_forked hnext hhandler hs) ?_
    rintro (hdoomed | hno)
    · exact not_doomed_fork hnext hdoomed
    · exact hno trivial
  | kill => exact absurd rfl ha
  | exit child =>
    obtain ⟨-, hs⟩ := Option.ite_none_right_eq_some.mp hs
    cases hs
    simp only [Doomed, Undisturbed, Finset.mem_insert, ne_eq, Classical.not_imp, not_not]
    tauto
  | sigchld =>
    obtain ⟨⟨-, hhandler⟩, hs⟩ := Option.ite_none_right_eq_some.mp hs
    cases hs
    simp only [Doomed, Undisturbed, hhandler, Classical.not_imp, not_not, true_and,
      Bool.false_eq_true, false_and, or_false]
    tauto
  | waitpid childPid =>
    obtain ⟨hhandler, hs⟩ := Option.ite_none_right_eq_some.mp hs
    rw [doomed_waited hhandler hs]
    exact (or_iff_left (not_not_intro trivial)).symm

/-- A `kill` is for what main owns exactly when nothing was wrong, and nothing is behind it. -/
theorem doomed_kill {s t : SystemFunction} (hs : systemStep s .kill = some t) :
    (KillsOwned s .kill ↔ ¬ Doomed s) ∧ ¬ Doomed t := by
  obtain ⟨⟨hhandler, -, hnext⟩, hs⟩ := Option.ite_none_right_eq_some.mp hs
  cases hs
  refine ⟨?_, not_doomed_fork rfl⟩
  simp only [KillsOwned, Doomed, hnext, hhandler, true_and, forall_const, Bool.false_eq_true,
    false_and, or_false]

theorem doomed_keeps {s t : SystemFunction} {a : SystemStep} (h : ¬ Doomed s)
    (ha : Undisturbed s a) (hs : systemStep s a = some t) : ¬ Doomed t := by
  by_cases hkill : a = .kill
  · subst hkill
    exact (doomed_kill hs).2
  · rw [doomed_step hs hkill]
    exact not_or_intro h (not_not_intro ha)

theorem doomed_breaks {s t : SystemFunction} {a : SystemStep} (ha : ¬ Undisturbed s a)
    (hs : systemStep s a = some t) : Doomed t := by
  have hkill : a ≠ .kill := by
    rintro rfl
    exact ha trivial
  exact (doomed_step hs hkill).mpr (Or.inr ha)

/-- Only a `kill` of a process that has been waited for ends it. -/
theorem doomed_stays {s t : SystemFunction} {a : SystemStep} (h : Doomed s)
    (ha : KillsOwned s a) (hs : systemStep s a = some t) : Doomed t := by
  by_cases hkill : a = .kill
  · subst hkill
    exact absurd h ((doomed_kill hs).1.mp ha)
  · exact (doomed_step hs hkill).mpr (Or.inl h)

theorem killsOwned_of_not_doomed {s : SystemFunction} (h : ¬ Doomed s) (a : SystemStep) :
    KillsOwned s a := by
  cases a with
  | kill => exact fun hnext hreaped => h ⟨hnext, Or.inl hreaped⟩
  | sleep => trivial
  | wake => trivial
  | fork pid => trivial
  | exit child => trivial
  | sigchld => trivial
  | waitpid childPid => trivial

/-- In every run in which the handler never meets a child between its exit and its `kill`, no
`kill` is for a process that has been waited for; and when main is not about to kill, the runs
with no such `kill` are exactly these. -/
theorem kills_owned_iff (as : List SystemStep) (s : SystemFunction)
    (hr : run systemStep {} as = some s) :
    (Guarded systemStep Undisturbed {} as → Guarded systemStep KillsOwned {} as) ∧
      (s.next = .fork →
        (Guarded systemStep KillsOwned {} as ↔ Guarded systemStep Undisturbed {} as)) := by
  have hstart : ¬ Doomed {} := not_doomed_fork rfl
  have henough (h : Guarded systemStep Undisturbed {} as) :
      Guarded systemStep KillsOwned {} as :=
    guarded_mono systemStep (I := fun s => ¬ Doomed s)
      (fun s a hs _ => killsOwned_of_not_doomed hs a)
      (fun s a t hs ha ht => doomed_keeps hs ha ht) hstart h
  refine ⟨henough, fun hend => ⟨fun h => ?_, henough⟩⟩
  exact guarded_of_settled systemStep (I := fun _ => True) (B := Doomed)
    (fun _ _ _ _ _ _ => trivial) (fun s a t _ ha ht => doomed_breaks ha ht)
    (fun s a t hs ha ht => doomed_stays hs ha ht) trivial hr (not_doomed_fork hend) h

/-- Two children outlive the sleep; the second has the number of the first. -/
def longLived : List SystemStep :=
  [.sleep, .wake, .fork 100, .sleep, .wake, .kill, .sleep, .exit 100, .sigchld, .waitpid 100,
    .waitpid (-1), .fork 100, .sleep, .wake, .kill]

theorem long_lived_owned :
    ∃ s, run systemStep {} longLived = some s ∧ s.next = .fork ∧
      Guarded systemStep KillsOwned {} longLived := by
  have hrun : (run systemStep {} longLived).map SystemFunction.next = some .fork := by decide
  obtain ⟨s, hs, hnext⟩ := Option.map_eq_some_iff.mp hrun
  exact ⟨s, hs, hnext, ((kills_owned_iff longLived s hs).2 hnext).mpr (by decide)⟩

/-- The child exits by itself while main sleeps before its `kill`. -/
def earlyExit : List SystemStep :=
  [.sleep, .wake, .fork 100, .sleep, .exit 100, .sigchld, .waitpid 100, .waitpid (-1), .kill]

theorem early_exit_killed :
    (run systemStep {} earlyExit).isSome ∧ ¬ Guarded systemStep KillsOwned {} earlyExit := by
  decide

end LearningDirectory
