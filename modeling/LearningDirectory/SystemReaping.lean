import LearningDirectory.SystemFunction
import Mathlib.Data.Finset.Card

/-! `sigchld_handler`: every child that has exited is waited for once, though the signals of
several children are one pending signal. -/
namespace LearningDirectory
open StepRun

deriving instance DecidableEq for SystemStep

/-- The step is one of the handler. -/
def SystemStep.handler : SystemStep → Bool
  | .sigchld => true
  | .waitpid _ => true
  | _ => false

/-- What has happened so far to the children with the number `p`: each exits once, and is
returned by one `waitpid`, except the last one if it has not come to that. -/
structure Reckoned (as : List SystemStep) (s : SystemFunction) (p : ℤ) : Prop where
  exits : as.count (.fork p) = as.count (.exit p) + if p ∈ s.running then 1 else 0
  waits : as.count (.exit p) = as.count (.waitpid p) + if p ∈ s.exited then 1 else 0

/-- A child that has exited has a signal pending, or the handler has not ended its loop. -/
structure ReapingOk (s : SystemFunction) : Prop where
  pids : PidsOk s
  running : ∀ p ∈ s.running, 0 < p
  exited : ∀ p ∈ s.exited, 0 < p
  awake : s.exited = ∅ ∨ s.pending = true ∨ s.inHandler = true

theorem count_append_one {as : List SystemStep} {a b : SystemStep} :
    (as ++ [a]).count b = as.count b + if a = b then 1 else 0 := by
  rw [List.count_append, List.count_singleton]
  simp only [beq_iff_eq]

theorem reapingOk_forked {s t : SystemFunction} {pid : ℤ} (h : ReapingOk s) (hpids : PidsOk t)
    (hs : s.forked pid = some t) : ReapingOk t := by
  rw [SystemFunction.forked] at hs
  split_ifs at hs with hfail hused
  · cases hs
    exact ⟨hpids, h.running, h.exited, h.awake⟩
  · cases hs
    push Not at hused
    refine ⟨hpids, fun p hp => ?_, h.exited, h.awake⟩
    rcases Finset.mem_insert.mp hp with rfl | hp
    · omega
    · exact h.running p hp

theorem reapingOk_waited {s t : SystemFunction} {childPid : ℤ} (h : ReapingOk s)
    (hin : s.inHandler = true) (hpids : PidsOk t) (hs : s.waited childPid = some t) :
    ReapingOk t := by
  rw [SystemFunction.waited] at hs
  split_ifs at hs with hpos hexited hnone
  · cases hs
    exact ⟨hpids, h.running, fun p hp => h.exited p (Finset.mem_of_mem_erase hp),
      Or.inr (Or.inr hin)⟩
  · cases hs
    exact ⟨hpids, h.running, h.exited, Or.inl hnone⟩

theorem reapingOk_step {s t : SystemFunction} {a : SystemStep} (h : ReapingOk s)
    (hs : systemStep s a = some t) : ReapingOk t := by
  have hpids := pidsOk_step h.pids hs
  cases a with
  | sleep | wake | kill =>
    obtain ⟨-, hs⟩ := Option.ite_none_right_eq_some.mp hs
    cases hs
    exact ⟨hpids, h.running, h.exited, h.awake⟩
  | fork pid =>
    obtain ⟨-, hs⟩ := Option.ite_none_right_eq_some.mp hs
    exact reapingOk_forked h hpids hs
  | exit child =>
    obtain ⟨hchild, hs⟩ := Option.ite_none_right_eq_some.mp hs
    cases hs
    refine ⟨hpids, fun p hp => h.running p (Finset.mem_of_mem_erase hp), fun p hp => ?_,
      Or.inr (Or.inl rfl)⟩
    rcases Finset.mem_insert.mp hp with rfl | hp
    · exact h.running p hchild
    · exact h.exited p hp
  | sigchld =>
    obtain ⟨-, hs⟩ := Option.ite_none_right_eq_some.mp hs
    cases hs
    -- whatever was pending, the loop of the handler is still to come
    exact ⟨hpids, h.running, h.exited, Or.inr (Or.inr rfl)⟩
  | waitpid childPid =>
    obtain ⟨hin, hs⟩ := Option.ite_none_right_eq_some.mp hs
    exact reapingOk_waited h hin hpids hs

theorem reckoned_same {as : List SystemStep} {s t : SystemFunction} {a : SystemStep} {p : ℤ}
    (h : Reckoned as s p) (hfork : a ≠ .fork p) (hexit : a ≠ .exit p) (hwait : a ≠ .waitpid p)
    (hrunning : p ∈ t.running ↔ p ∈ s.running) (hexited : p ∈ t.exited ↔ p ∈ s.exited) :
    Reckoned (as ++ [a]) t p := by
  refine ⟨?_, ?_⟩
  · rw [count_append_one, count_append_one, if_neg hfork, if_neg hexit]
    simp only [hrunning, Nat.add_zero]
    exact h.exits
  · rw [count_append_one, count_append_one, if_neg hexit, if_neg hwait]
    simp only [hexited, Nat.add_zero]
    exact h.waits

theorem reckoned_forked {as : List SystemStep} {s t : SystemFunction} {pid p : ℤ} (hp : 0 < p)
    (h : Reckoned as s p) (hs : s.forked pid = some t) : Reckoned (as ++ [.fork pid]) t p := by
  rw [SystemFunction.forked] at hs
  split_ifs at hs with hfail hused
  · cases hs
    have hne : SystemStep.fork pid ≠ .fork p := by
      rintro ⟨⟩
      omega
    exact reckoned_same h hne (by simp) (by simp) Iff.rfl Iff.rfl
  · cases hs
    push Not at hused
    by_cases he : pid = p
    · subst he
      refine ⟨?_, ?_⟩
      · have hexits := h.exits
        rw [if_neg hused.2.1] at hexits
        simp only [count_append_one, reduceCtorEq, if_true, if_false, Nat.add_zero]
        rw [if_pos (Finset.mem_insert_self ..), hexits]
      · simp only [count_append_one, reduceCtorEq, if_false, Nat.add_zero]
        exact h.waits
    · have hne : SystemStep.fork pid ≠ .fork p := fun heq => he (SystemStep.fork.inj heq)
      refine reckoned_same h hne (by simp) (by simp) ?_ Iff.rfl
      rw [Finset.mem_insert]
      exact or_iff_right (Ne.symm he)

theorem reckoned_exited {as : List SystemStep} {s : SystemFunction} {child p : ℤ}
    (hpids : PidsOk s) (h : Reckoned as s p) (hchild : child ∈ s.running) :
    Reckoned (as ++ [.exit child])
      { s with
        running := s.running.erase child, exited := insert child s.exited, pending := true } p := by
  by_cases he : child = p
  · subst he
    have hexits := h.exits
    have hwaits := h.waits
    rw [if_pos hchild] at hexits
    rw [if_neg (hpids.running child hchild).1] at hwaits
    refine ⟨?_, ?_⟩
    · simp only [count_append_one, reduceCtorEq, if_true, if_false, Nat.add_zero]
      rw [if_neg (Finset.notMem_erase child s.running), hexits]
    · simp only [count_append_one, reduceCtorEq, if_true, if_false, Nat.add_zero]
      rw [if_pos (Finset.mem_insert_self ..), hwaits]
  · have hne : SystemStep.exit child ≠ .exit p := fun heq => he (SystemStep.exit.inj heq)
    refine reckoned_same h (by simp) hne (by simp) ?_ ?_
    · rw [Finset.mem_erase]
      exact and_iff_right (Ne.symm he)
    · rw [Finset.mem_insert]
      exact or_iff_right (Ne.symm he)

theorem reckoned_waited {as : List SystemStep} {s t : SystemFunction} {childPid p : ℤ}
    (hp : 0 < p) (h : Reckoned as s p) (hs : s.waited childPid = some t) :
    Reckoned (as ++ [.waitpid childPid]) t p := by
  rw [SystemFunction.waited] at hs
  split_ifs at hs with hpos hexited hnone
  · cases hs
    by_cases he : childPid = p
    · subst he
      have hwaits := h.waits
      rw [if_pos hexited] at hwaits
      refine ⟨?_, ?_⟩
      · simp only [count_append_one, reduceCtorEq, if_false, Nat.add_zero]
        exact h.exits
      · simp only [count_append_one, reduceCtorEq, if_true, if_false, Nat.add_zero]
        rw [if_neg (Finset.notMem_erase childPid s.exited), hwaits]
    · have hne : SystemStep.waitpid childPid ≠ .waitpid p :=
        fun heq => he (SystemStep.waitpid.inj heq)
      refine reckoned_same h (by simp) (by simp) hne Iff.rfl ?_
      rw [Finset.mem_erase]
      exact and_iff_right (Ne.symm he)
  · cases hs
    have hne : SystemStep.waitpid childPid ≠ .waitpid p := by
      rintro ⟨⟩
      exact hpos hp
    exact reckoned_same h (by simp) (by simp) hne Iff.rfl Iff.rfl

theorem reckoned_step {as : List SystemStep} {s t : SystemFunction} {a : SystemStep} {p : ℤ}
    (hp : 0 < p) (hpids : PidsOk s) (h : Reckoned as s p) (hs : systemStep s a = some t) :
    Reckoned (as ++ [a]) t p := by
  cases a with
  | sleep | wake | kill | sigchld =>
    obtain ⟨-, hs⟩ := Option.ite_none_right_eq_some.mp hs
    cases hs
    exact reckoned_same h (by simp) (by simp) (by simp) Iff.rfl Iff.rfl
  | fork pid =>
    obtain ⟨-, hs⟩ := Option.ite_none_right_eq_some.mp hs
    exact reckoned_forked hp h hs
  | exit child =>
    obtain ⟨hchild, hs⟩ := Option.ite_none_right_eq_some.mp hs
    cases hs
    exact reckoned_exited hpids h hchild
  | waitpid childPid =>
    obtain ⟨-, hs⟩ := Option.ite_none_right_eq_some.mp hs
    exact reckoned_waited hp h hs

/-- The steps that the handler has to make for the children that have exited. -/
def reapsLeft (s : SystemFunction) : ℕ := s.exited.card + if s.inHandler then 0 else 1

/-- The handler can go on as long as there is a child to wait for. -/
theorem handler_enabled {s : SystemFunction} (h : ReapingOk s) (hleft : s.exited ≠ ∅) :
    ∃ a t, a.handler = true ∧ systemStep s a = some t ∧ t.exited ∪ t.reaped = s.exited ∪ s.reaped ∧
      reapsLeft t < reapsLeft s := by
  cases hin : s.inHandler with
  | true =>
    obtain ⟨child, hchild⟩ := Finset.nonempty_iff_ne_empty.mpr hleft
    refine ⟨.waitpid child,
      { s with exited := s.exited.erase child, reaped := insert child s.reaped }, rfl, ?_, ?_, ?_⟩
    · rw [systemStep, if_pos hin, SystemFunction.waited, if_pos (h.exited child hchild),
        if_pos hchild]
    · rw [Finset.union_insert, ← Finset.insert_union, Finset.insert_erase hchild]
    · have hcard := Finset.card_erase_lt_of_mem hchild
      simp only [reapsLeft, hin, if_true, Nat.add_zero]
      exact hcard
  | false =>
    have hpending : s.pending = true := by
      have hawake := h.awake
      rw [hin] at hawake
      tauto
    refine ⟨.sigchld, _, rfl, if_pos ⟨hpending, hin⟩, rfl, ?_⟩
    simp only [reapsLeft, hin, if_true, Bool.false_eq_true, if_false]
    omega

/-- In every run each child exits once and one `waitpid` returns it; and wherever it is, the
handler alone can wait for all children that have exited, in a step for each and one more. -/
theorem children_reaped (as : List SystemStep) (s : SystemFunction)
    (hr : run systemStep {} as = some s) :
    (∀ p, 0 < p → Reckoned as s p) ∧
      ∃ bs t, (∀ a ∈ bs, a.handler) ∧ bs.length ≤ s.exited.card+1 ∧
        run systemStep s bs = some t ∧ t.exited = ∅ ∧ t.reaped = s.exited ∪ s.reaped := by
  have hstart : ReapingOk {} := ⟨pidsOk_start, by simp, by simp, Or.inl rfl⟩
  have hok : ReapingOk s :=
    run_invariant systemStep (I := fun _ s => ReapingOk s) hstart
      (fun _ _ _ _ _ hi hs => reapingOk_step hi hs) hr
  constructor
  · intro p hp
    have hboth : ReapingOk s ∧ Reckoned as s p := by
      refine run_invariant systemStep (I := fun as s => ReapingOk s ∧ Reckoned as s p)
        ⟨hstart, rfl, rfl⟩ ?_ hr
      intro _ _ _ _ _ hi hs
      exact ⟨reapingOk_step hi.1 hs, reckoned_step hp hi.1.pids hi.2 hs⟩
    exact hboth.2
  · have hdrain (u : SystemFunction)
        (hu : ReapingOk u ∧ u.exited ∪ u.reaped = s.exited ∪ s.reaped) (hleft : ¬ u.exited = ∅) :
        ∃ a v, a.handler = true ∧ systemStep u a = some v ∧
          (ReapingOk v ∧ v.exited ∪ v.reaped = s.exited ∪ s.reaped) ∧
          reapsLeft v < reapsLeft u := by
      obtain ⟨a, v, ha, hv, hsame, hlt⟩ := handler_enabled hu.1 hleft
      exact ⟨a, v, ha, hv, ⟨reapingOk_step hu.1 hv, hsame.trans hu.2⟩, hlt⟩
    obtain ⟨bs, t, hg, ht, ⟨-, hsame⟩, hend, hle⟩ :=
      run_reaches systemStep (G := fun _ a => a.handler = true) hdrain ⟨hok, rfl⟩
    refine ⟨bs, t, forall_of_guarded systemStep ht hg, ?_, ht, hend, ?_⟩
    · have hone : reapsLeft s ≤ s.exited.card+1 := by
        rw [reapsLeft]
        split_ifs <;> omega
      omega
    · rw [hend, Finset.empty_union] at hsame
      exact hsame

/-- Two children have exited, and one signal is pending. -/
def twoExited : List SystemStep :=
  [.sleep, .wake, .fork 100, .sleep, .wake, .kill, .sleep, .wake, .fork 101, .exit 100, .exit 101]

theorem two_exited_reaped : ∃ s, run systemStep {} twoExited = some s ∧
    (∀ p, 0 < p → Reckoned twoExited s p) ∧
      ∃ bs t, (∀ a ∈ bs, a.handler) ∧ bs.length ≤ s.exited.card+1 ∧
        run systemStep s bs = some t ∧ t.exited = ∅ ∧ t.reaped = s.exited ∪ s.reaped := by
  have hsome : (run systemStep {} twoExited).isSome := by decide
  obtain ⟨s, hs⟩ := Option.isSome_iff_exists.mp hsome
  exact ⟨s, hs, children_reaped twoExited s hs⟩

end LearningDirectory
