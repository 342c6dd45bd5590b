import LearningDirectory.SdrOvershoot

/-! `my_sdr` in message mode on its one socket: every worker closes it, and nothing is sent after
the first that does. -/
namespace LearningDirectory
open StepRun

/-- `send` on the closed socket fails; no other file is opened that could take its number. -/
def ClosedFails (s : SdrThreads) : SdrStep → Prop
  | .send _ result => s.sockOpen = false → result = -1
  | _ => True

instance decidableClosedFails (s : SdrThreads) : (a : SdrStep) → Decidable (ClosedFails s a)
  | .send _ result => instDecidableForall (p := s.sockOpen = false) (q := result = -1)
  | .main | .create _ _ | .eof _ | .report _ | .close _ | .exit _ => instDecidableTrue

/-- A `send` that takes the message. -/
def SdrStep.sends : SdrStep → Bool
  | .send _ result => result ≠ -1
  | _ => false

def SdrWorker.sent (w : SdrWorker) : Bool := w ≠ .sending

/-! ### What is sent -/

/-- No more than ten messages are sent, and main has not read of more. -/
structure FewSent (s : SdrThreads) : Prop where
  overshoot : Overshoot s
  bounded : SdrBounded s
  /-- a worker closes the socket before it leaves -/
  notClosed : s.sockOpen = true → ∀ w ∈ s.workers, w ≠ .exiting ∧ w ≠ .exited
  sent : s.workers.countP SdrWorker.sent ≤ 10
  read : ∀ msgCount, s.main = .amount msgCount → msgCount.toNat ≤ 10
  running : s.main ≠ .returned

theorem FewSent.counted {s : SdrThreads} (h : FewSent s) : s.msgCount.toNat ≤ 10 := by
  rw [h.overshoot.count]
  apply Nat.le_trans _ h.sent
  apply List.countP_mono_left
  intro w _ hw
  cases w with
  | sending => cases hw
  | reporting | closing | exiting | exited => rfl

/-- As long as the socket is open no worker has made room for an eleventh. -/
theorem FewSent.created {s : SdrThreads} (h : FewSent s) (hopen : s.sockOpen = true) :
    s.workers.length ≤ 10 := by
  have hpopped : s.popped = 0 := by
    apply List.countP_eq_zero.mpr
    intro w hw
    simpa using (h.notClosed hopen w hw).2
  have hbound := h.bounded.bound
  rw [h.overshoot.max] at hbound
  calc s.workers.length = s.thCtrl.threadqueue.length + s.popped :=
        (queue_add_popped h.bounded.queue).symm
    _ ≤ 10 := by rw [hpopped]; exact hbound

theorem amount_of_returned {s : SdrThreads} (hmsg : s.thCtrl.isfile = false)
    (h : s.mainNext = some .returned) : sdrMsgAmount ≤ s.msgCount := by
  have hfile : ¬ s.thCtrl.isfile = true := Bool.eq_false_iff.mp hmsg
  unfold SdrThreads.mainNext at h
  cases hmain : s.main with
  | test =>
    simp only [hmain, if_neg hfile] at h
    split_ifs at h with hmore
    · cases h
    · exact UInt32.not_lt.mp hmore
  | amount msgCount =>
    simp only [hmain, if_neg hfile] at h
    split_ifs at h <;> cases h
  | queue =>
    simp only [hmain] at h
    split_ifs at h <;> cases h
  | call | create | returned =>
    simp only [hmain] at h
    cases h

theorem fail_ended (s : SdrThreads) : s.fail.ended = true := by
  unfold SdrThreads.fail
  split_ifs <;> rfl

/-- The worker goes on only when its `send` has not failed. -/
theorem result_of_sent {s : SdrThreads} {i : ℕ} {result : ℤ}
    (hs : sdrStep s (.send i result) = some (s.moveTo i .reporting)) : result ≠ -1 := by
  rintro rfl
  have hlive : s.ended = false := (sdrStep_effect hs).1
  rw [sdrStep, if_neg (Bool.eq_false_iff.mp hlive)] at hs
  obtain ⟨-, hfail⟩ := Option.ite_none_right_eq_some.mp hs
  rw [if_pos rfl] at hfail
  have hsame : s.fail = s.moveTo i .reporting := Option.some.inj hfail
  have hended : (s.moveTo i .reporting).ended = true := hsame ▸ fail_ended s
  exact Bool.false_ne_true (hlive.symm.trans hended)

/-- A worker is counted as one that has sent exactly with its `send`. -/
theorem countP_sent_step {s t : SdrThreads} {a : SdrStep} (hmsg : s.thCtrl.isfile = false)
    (hs : sdrStep s a = some t) :
    t.workers.countP SdrWorker.sent =
      s.workers.countP SdrWorker.sent + (if a.sends then 1 else 0) := by
  have hsame {i : ℕ} {w w' : SdrWorker} (hi : s.workers[i]? = some w) (hw : w'.sent = w.sent) :
      (s.moveTo i w').workers.countP SdrWorker.sent = s.workers.countP SdrWorker.sent :=
    countP_set_same hi hw
  obtain ⟨-, he⟩ := sdrStep_effect hs
  cases he with
  | main p hp => rfl
  | created thId hmain =>
    rw [List.countP_append]
    rfl
  | refused thId errId hmain herr => rfl
  | worker _ _ hw =>
    cases hw with
    | failed i hi =>
      rw [fail_workers]
      rfl
    | sentByte i result hi hfile => exact absurd (hmsg.symm.trans hfile) Bool.false_ne_true
    | sent i result hi hm =>
      have htaken : (SdrStep.send i result).sends = true := decide_eq_true (result_of_sent hs)
      obtain ⟨hlt, hw⟩ := List.getElem?_eq_some_iff.mp hi
      rw [if_pos htaken, SdrThreads.moveTo, List.countP_set hlt, hw]
      rfl
    | eof i hi hfile => exact absurd (hmsg.symm.trans hfile) Bool.false_ne_true
    | report i hi =>
      rw [reportDone_workers]
      exact hsame hi rfl
    | close i hi => exact hsame hi rfl
    | exit i c hi hc => exact hsame hi rfl

theorem created_of_sends {s t : SdrThreads} {a : SdrStep} (hs : sdrStep s a = some t)
    (ha : a.sends = true) : t.workers.length = s.workers.length := by
  obtain ⟨-, he⟩ := sdrStep_effect hs
  cases he with
  | worker _ _ hw => exact (worker_frame hw).created
  | main | created | refused => cases ha

/-- Only `close` lets a worker leave, and it closes the socket. -/
theorem notClosed_worker {s t : SdrThreads} {a : SdrStep} (h : FewSent s)
    (he : WorkerEffect s a t) (hopen : t.sockOpen = true) :
    ∀ w ∈ t.workers, w ≠ .exiting ∧ w ≠ .exited := by
  have hmove {i : ℕ} {w' : SdrWorker} (hw' : w' ≠ .exiting ∧ w' ≠ .exited)
      (hopen : s.sockOpen = true) :
      ∀ w ∈ (s.moveTo i w').workers, w ≠ .exiting ∧ w ≠ .exited := by
    intro w hw
    rcases List.mem_or_eq_of_mem_set hw with hold | rfl
    · exact h.notClosed hopen w hold
    · exact hw'
  cases he with
  | failed i hi =>
    rw [fail_sockOpen] at hopen
    rw [fail_workers]
    exact h.notClosed hopen
  | sentByte i result hi hfile => exact h.notClosed hopen
  | sent i result hi hm => exact hmove (by decide) hopen
  | eof i hi hfile => exact hmove (by decide) hopen
  | report i hi =>
    rw [reportDone_sockOpen] at hopen
    rw [reportDone_workers]
    exact hmove (by decide) hopen
  | close i hi => cases hopen
  | exit i c hi hc =>
    exact absurd rfl (h.notClosed hopen .exiting (List.mem_of_getElem? hi)).1

theorem fewSent_step {s t : SdrThreads} {a : SdrStep} (h : FewSent s) (ha : ClosedFails s a)
    (hs : sdrStep s a = some t) : FewSent t := by
  have hsent : t.workers.countP SdrWorker.sent ≤ 10 := by
    cases hsends : a.sends with
    | false =>
      rw [countP_sent_step h.overshoot.message hs, hsends]
      exact h.sent
    | true =>
      -- the socket is open, so all workers together are no more
      have hopen : s.sockOpen = true := by
        cases a with
        | send i result =>
          by_contra hclosed
          exact of_decide_eq_true hsends (ha (Bool.eq_false_iff.mpr hclosed))
        | main | create | eof | report | close | exit => cases hsends
      calc t.workers.countP SdrWorker.sent ≤ t.workers.length := List.countP_le_length
        _ = s.workers.length := created_of_sends hs hsends
        _ ≤ 10 := h.created hopen
  have hover := overshoot_step h.overshoot h.bounded hs
  have hbounded := bounded_step h.bounded hs
  obtain ⟨-, he⟩ := sdrStep_effect hs
  cases he with
  | main p hp =>
    refine ⟨hover, hbounded, h.notClosed, hsent, ?_, ?_⟩
    · intro msgCount (hread : p = .amount msgCount)
      subst hread
      cases mainMove hp with
      | amount hmain => exact h.counted
    · intro (hreturn : p = .returned)
      subst hreturn
      have hread := UInt32.le_iff_toNat_le.mp (amount_of_returned h.overshoot.message hp)
      exact absurd (Nat.le_trans hread h.counted) (by decide)
  | created thId hmain =>
    refine ⟨hover, hbounded, fun hopen w hw => ?_, hsent, nofun, nofun⟩
    rcases List.mem_append.mp hw with hold | hnew
    · exact h.notClosed hopen w hold
    · rw [List.mem_singleton.mp hnew]
      exact ⟨nofun, nofun⟩
  | refused thId errId hmain herr =>
    exact ⟨hover, hbounded, h.notClosed, hsent, nofun, nofun⟩
  | worker _ _ hw =>
    refine ⟨hover, hbounded, notClosed_worker h hw, hsent, ?_, ?_⟩
    · rw [(worker_frame hw).main]
      exact h.read
    · rw [(worker_frame hw).main]
      exact h.running

theorem fewSent_start : FewSent (sdrStart false) where
  overshoot := overshoot_start
  bounded := bounded_start false
  notClosed _ w hw := by cases hw
  sent := Nat.zero_le _
  read := nofun
  running := nofun

/-! ### How it ends -/

def SdrWorker.stepsLeft : SdrWorker → ℕ
  | .sending => 4
  | .reporting => 3
  | .closing => 2
  | .exiting => 1
  | .exited => 0

def SdrThreads.workersLeft (s : SdrThreads) : ℕ := (s.workers.map SdrWorker.stepsLeft).sum

/-- The steps of main until it creates a worker. -/
def SdrMain.stepsLeft : SdrMain → ℕ
  | .test => 5
  | .call => 4
  | .amount _ => 3
  | .queue => 2
  | .create => 1
  | .returned => 0

theorem sum_map_set {α : Type*} (f : α → ℕ) {xs : List α} {i : ℕ} {x : α}
    (hi : xs[i]? = some x) (y : α) :
    ((xs.set i y).map f).sum + f x = (xs.map f).sum + f y := by
  induction xs generalizing i with
  | nil => cases hi
  | cons z zs ih =>
    cases i with
    | zero =>
      obtain rfl : z = x := Option.some.inj hi
      simp only [List.set_cons_zero, List.map_cons, List.sum_cons]
      omega
    | succ i =>
      have hrest := ih (i := i) hi
      simp only [List.set_cons_succ, List.map_cons, List.sum_cons]
      omega

theorem workersLeft_moveTo {s : SdrThreads} {i : ℕ} {w : SdrWorker} (hi : s.workers[i]? = some w)
    {w' : SdrWorker} (hone : w.stepsLeft = w'.stepsLeft+1) :
    (s.moveTo i w').workersLeft + 1 = s.workersLeft := by
  have hsum := sum_map_set SdrWorker.stepsLeft hi w'
  rw [hone] at hsum
  unfold SdrThreads.workersLeft SdrThreads.moveTo
  dsimp only
  omega

theorem workersLeft_le (s : SdrThreads) : s.workersLeft ≤ 4*s.workers.countP SdrWorker.alive := by
  rw [SdrThreads.workersLeft]
  induction s.workers with
  | nil => exact Nat.le_refl 0
  | cons w ws ih =>
    have hone : w.stepsLeft ≤ 4*(if w.alive then 1 else 0) := by cases w <;> decide
    rw [List.map_cons, List.sum_cons, List.countP_cons, Nat.mul_add]
    omega

/-- The first worker that is created may close the socket, and the next one fails to send: so at
most one worker is created before and one after that. -/
def SdrThreads.stepsToFail (s : SdrThreads) : ℕ :=
  if s.ended then 0
  else if s.sockOpen = false ∧ .sending ∈ s.workers then 1
  else 2 + s.workersLeft + s.main.stepsLeft + (if s.workers = [] then 9 else 0)

theorem stepsToFail_le {s : SdrThreads} (h : SdrBounded s) :
    s.stepsToFail ≤ 4*s.thCtrl.threadqueue.length + 16 := by
  have hworkers := workersLeft_le s
  rw [← h.queue] at hworkers
  have hmain : s.main.stepsLeft ≤ 5 := by
    cases s.main <;> simp only [SdrMain.stepsLeft] <;> omega
  unfold SdrThreads.stepsToFail
  split_ifs <;> omega

/-- A worker that has not left the queue goes on, and no socket is closed behind its back. -/
theorem worker_goes_on {s : SdrThreads} (h : FewSent s) (hlive : s.ended = false)
    (hsend : .sending ∈ s.workers → s.sockOpen = true) {w : SdrWorker} (hw : w ∈ s.workers)
    (halive : w ≠ .exited) :
    ∃ a t, ClosedFails s a ∧ sdrStep s a = some t ∧ WorkerEffect s a t ∧ t.ended = false ∧
      t.workersLeft + 1 = s.workersLeft := by
  have hfile : ¬ s.thCtrl.isfile = true := Bool.eq_false_iff.mp h.overshoot.message
  have hopen : ¬ s.ended = true := Bool.eq_false_iff.mp hlive
  obtain ⟨i, hi⟩ := List.mem_iff_getElem?.mp hw
  cases w with
  | sending =>
    have hclosed : s.sockOpen = false → (15 : ℤ) = -1 := fun hc =>
      absurd (hc.symm.trans (hsend hw)) Bool.false_ne_true
    refine ⟨.send i 15, _, hclosed, ?_, .sent i 15 hi h.overshoot.message, hlive,
      workersLeft_moveTo hi rfl⟩
    rw [sdrStep, if_neg hopen]
    exact (if_pos hi).trans ((if_neg (by decide)).trans (by rw [if_neg hfile]))
  | reporting =>
    have hsame : (s.moveTo i .closing).reportDone =
        { s.moveTo i .closing with msgCount := s.msgCount + 1 } := if_neg hfile
    refine ⟨.report i, _, trivial, ?_, .report i hi, ?_, ?_⟩
    · rw [sdrStep, if_neg hopen]
      exact if_pos hi
    · rw [hsame]
      exact hlive
    · rw [hsame]
      exact workersLeft_moveTo hi rfl
  | closing =>
    refine ⟨.close i, _, trivial, ?_, .close i hi, hlive, workersLeft_moveTo hi rfl⟩
    rw [sdrStep, if_neg hopen]
    exact if_pos hi
  | exiting =>
    have hpop := ThreadingCtrl.threadExitingInfo_eq (queue_ne_nil h.bounded.queue hi rfl)
    refine ⟨.exit i, _, trivial, ?_, .exit i _ hi hpop, hlive, workersLeft_moveTo hi rfl⟩
    rw [sdrStep, if_neg hopen]
    exact (if_pos hi).trans (congrArg (Option.map _) hpop)
  | exited => exact absurd rfl halive

/-- On an empty queue main comes one step closer to the next worker. -/
theorem mainNext_closer {s : SdrThreads} (h : FewSent s) (hempty : s.thCtrl.threadqueue = [])
    (hcreate : s.main ≠ .create) :
    ∃ p, s.mainNext = some p ∧ p ≠ .returned ∧ p.stepsLeft < s.main.stepsLeft := by
  have hfile : ¬ s.thCtrl.isfile = true := Bool.eq_false_iff.mp h.overshoot.message
  unfold SdrThreads.mainNext
  cases hmain : s.main with
  | test =>
    have hmore : s.msgCount < sdrMsgAmount :=
      UInt32.lt_iff_toNat_lt.mpr (Nat.lt_of_le_of_lt h.counted (by decide))
    exact ⟨.call, (if_neg hfile).trans (congrArg some (if_pos hmore)), by decide, by decide⟩
  | call =>
    refine ⟨.amount s.msgCount, rfl, by simp, ?_⟩
    rw [SdrMain.stepsLeft, SdrMain.stepsLeft]
    decide
  | amount msgCount =>
    have hread := h.read msgCount hmain
    have hleft : s.thCtrl.amountLeft msgCount = true := by
      rw [ThreadingCtrl.amountLeft, hempty, h.overshoot.amount, decide_eq_true_eq]
      exact Nat.lt_of_le_of_lt hread (by decide)
    refine ⟨.queue, (if_neg hfile).trans (congrArg some (if_pos hleft)), by decide, ?_⟩
    rw [SdrMain.stepsLeft, SdrMain.stepsLeft]
    decide
  | queue =>
    have hfree : s.thCtrl.queueFree = true := by
      rw [ThreadingCtrl.queueFree, hempty, h.overshoot.max]
      decide
    exact ⟨.create, congrArg some (if_pos hfree), by decide, by decide⟩
  | create => exact absurd hmain hcreate
  | returned => exact absurd hmain h.running

/-- Main creates a worker when all others have left. -/
theorem create_closer {s : SdrThreads} (h : FewSent s) (hlive : s.ended = false)
    (hleft : ∀ w ∈ s.workers, w = .exited) (hcreate : s.main = .create) :
    ∃ t, sdrStep s (.create 0 0) = some t ∧ t.stepsToFail < s.stepsToFail := by
  have hopen : ¬ s.ended = true := Bool.eq_false_iff.mp hlive
  have hnone : ¬ (s.sockOpen = false ∧ .sending ∈ s.workers) := fun hx => by
    cases hleft _ hx.2
  have hs : sdrStep s (.create 0 0) =
      some
        { s with
          main := .test
          thCtrl := s.thCtrl.threadCreatingInfo 0 0
          workers := s.workers ++ [.sending] } := by
    rw [sdrStep, if_neg hopen]
    exact if_pos hcreate
  refine ⟨_, hs, ?_⟩
  have hmem : .sending ∈ s.workers ++ [SdrWorker.sending] :=
    List.mem_append_right _ (List.mem_singleton_self _)
  have hne : s.workers ++ [SdrWorker.sending] ≠ [] := List.concat_ne_nil _ _
  unfold SdrThreads.stepsToFail
  rw [if_neg hopen, if_neg hopen, if_neg hnone]
  by_cases hsock : s.sockOpen = true
  · -- with the socket open, those that have left are none
    have hnil : s.workers = [] := by
      apply List.eq_nil_iff_forall_not_mem.mpr
      intro w hw
      exact (h.notClosed hsock w hw).2 (hleft w hw)
    rw [if_neg fun hx => Bool.false_ne_true (hx.1.symm.trans hsock), if_neg hne, if_pos hnil,
      hcreate]
    simp only [SdrThreads.workersLeft, hnil, SdrMain.stepsLeft]
    decide
  · rw [if_pos ⟨Bool.eq_false_iff.mpr hsock, hmem⟩]
    omega

/-- As long as the process runs some thread can bring the failing `send` closer. -/
theorem threads_go_on {s : SdrThreads} (h : FewSent s) (hlive : s.ended = false) :
    ∃ a t, ClosedFails s a ∧ sdrStep s a = some t ∧ t.stepsToFail < s.stepsToFail := by
  have hopen : ¬ s.ended = true := Bool.eq_false_iff.mp hlive
  by_cases howed : s.sockOpen = false ∧ .sending ∈ s.workers
  · obtain ⟨i, hi⟩ := List.mem_iff_getElem?.mp howed.2
    refine ⟨.send i (-1), s.fail, fun _ => rfl, ?_, ?_⟩
    · rw [sdrStep, if_neg hopen]
      exact (if_pos hi).trans (if_pos rfl)
    · rw [SdrThreads.stepsToFail, SdrThreads.stepsToFail, if_pos (fail_ended s), if_neg hopen,
        if_pos howed]
      exact Nat.one_pos
  have hsend : .sending ∈ s.workers → s.sockOpen = true := by
    intro hmem
    by_contra hsock
    exact howed ⟨Bool.eq_false_iff.mpr hsock, hmem⟩
  -- the workers go first: main moves only on an empty queue, where it is not refused
  by_cases hleft : ∀ w ∈ s.workers, w = .exited
  · by_cases hcreate : s.main = .create
    · obtain ⟨t, ht, hlt⟩ := create_closer h hlive hleft hcreate
      exact ⟨.create 0 0, t, trivial, ht, hlt⟩
    have hnone : s.workers.countP SdrWorker.alive = 0 :=
      List.countP_eq_zero.mpr fun w hw => by rw [hleft w hw]; decide
    have hempty : s.thCtrl.threadqueue = [] :=
      List.length_eq_zero_iff.mp (h.bounded.queue.trans hnone)
    obtain ⟨p, hp, hreturn, hlt⟩ := mainNext_closer h hempty hcreate
    refine ⟨.main, { s with main := p, ended := p = .returned }, trivial, ?_, ?_⟩
    · rw [sdrStep, if_neg hopen]
      exact congrArg (Option.map _) hp
    · have hrunning : ¬ decide (p = .returned) = true := mt of_decide_eq_true hreturn
      rw [SdrThreads.stepsToFail, SdrThreads.stepsToFail, if_neg hopen, if_neg howed,
        if_neg hrunning, if_neg howed]
      exact Nat.add_lt_add_right (Nat.add_lt_add_left hlt _) _
  · push Not at hleft
    obtain ⟨w, hw, halive⟩ := hleft
    obtain ⟨a, t, ha, hs, he, hend, hone⟩ := worker_goes_on h hlive hsend hw halive
    refine ⟨a, t, ha, hs, ?_⟩
    have hframe := worker_frame he
    have hnil : t.workers = [] ↔ s.workers = [] := by
      rw [← List.length_eq_zero_iff, hframe.created, List.length_eq_zero_iff]
    rw [SdrThreads.stepsToFail, SdrThreads.stepsToFail, if_neg hopen, if_neg howed,
      if_neg (Bool.eq_false_iff.mp hend), hframe.main]
    simp only [hnil]
    split_ifs <;> omega

/-- When `send` fails on the closed socket, `my_sdr` sends at most ten of its hundred messages,
however the threads take turns, and main never returns; the process can only be ended by a `send`
that fails, and the threads can always bring it there, with four steps at most for a worker in the
queue and sixteen more. -/
theorem ends_in_failure (as : List SdrStep) (s : SdrThreads)
    (h : Guarded sdrStep ClosedFails (sdrStart false) as)
    (hr : run sdrStep (sdrStart false) as = some s) :
    as.countP SdrStep.sends ≤ 10 ∧ s.msgCount.toNat ≤ 10 ∧ s.main ≠ .returned ∧
      (s.ended = false → ∃ bs t, Guarded sdrStep ClosedFails s bs ∧ run sdrStep s bs = some t ∧
        t.ended = true ∧ bs.length ≤ 4*s.thCtrl.threadqueue.length + 16) := by
  have hinv : FewSent s ∧ as.countP SdrStep.sends = s.workers.countP SdrWorker.sent := by
    refine run_rule sdrStep
      (I := fun as s => FewSent s ∧
        as.countP SdrStep.sends = s.workers.countP SdrWorker.sent) ⟨fewSent_start, rfl⟩ ?_ h hr
    intro pre t a u _ hi ha hs
    refine ⟨fewSent_step hi.1 ha hs, ?_⟩
    rw [List.countP_append, List.countP_singleton, hi.2, countP_sent_step hi.1.overshoot.message hs]
  obtain ⟨hfew, hcount⟩ := hinv
  refine ⟨hcount ▸ hfew.sent, hfew.counted, hfew.running, fun hlive => ?_⟩
  have hstep (u : SdrThreads) (hu : FewSent u) (hend : ¬ u.ended = true) :
      ∃ a t, ClosedFails u a ∧ sdrStep u a = some t ∧ FewSent t ∧
        t.stepsToFail < u.stepsToFail := by
    obtain ⟨a, t, ha, ht, hlt⟩ := threads_go_on hu (Bool.eq_false_iff.mpr hend)
    exact ⟨a, t, ha, ht, fewSent_step hu ha ht, hlt⟩
  obtain ⟨bs, t, hg, ht, -, hend, hle⟩ := run_reaches sdrStep hstep hfew
  exact ⟨bs, t, hg, ht, hend,
    Nat.le_trans (Nat.le_add_right _ _) (Nat.le_trans hle (stepsToFail_le hfew.bounded))⟩

/-- One of two workers has sent its message and closed the socket. -/
def oneOfTwoSent : List SdrStep := createOne ++ createOne ++ [.send 0 15, .report 0, .close 0]

theorem one_of_two_fails :
    ∃ s, run sdrStep (sdrStart false) oneOfTwoSent = some s ∧
      ∃ bs t, Guarded sdrStep ClosedFails s bs ∧ run sdrStep s bs = some t ∧ t.ended = true ∧
        bs.length ≤ 4*s.thCtrl.threadqueue.length + 16 :=
  ⟨_, rfl, (ends_in_failure oneOfTwoSent _ (by decide) rfl).2.2.2 rfl⟩

end LearningDirectory
