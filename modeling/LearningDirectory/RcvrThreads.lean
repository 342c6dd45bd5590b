import LearningDirectory.SdrThreads

/-! The threads of `my_rcvr`, where main creates a worker while the queue has room, and the
accounting of the workers in both programs. -/
namespace LearningDirectory
open StepRun

/-- The guard of main's loop reads the queue without the mutex. -/
inductive RcvrMain
  | test
  | create
deriving DecidableEq

inductive RcvrWorker
  | accepting
  | receiving
  | reporting
  | closing
  | exiting
  | exited
deriving DecidableEq

def RcvrWorker.alive (w : RcvrWorker) : Bool := w ≠ .exited

structure RcvrThreads where
  /-- its `isfile` stands for `FILEFLAG` as well -/
  thCtrl : ThreadingCtrl
  main : RcvrMain := .test
  workers : List RcvrWorker := []
  msgCount : UInt32 := 0
  filefinished : Bool := false
  /-- the process has ended -/
  ended : Bool := false

/-- The steps of the main thread, and those of the worker created as the `i`-th. -/
inductive RcvrStep
  | main
  | create (thId : ℕ) (errId : ℤ)
  | accept (i : ℕ)
  | recv (i : ℕ) (recvbytes : ℤ)
  | report (i : ℕ)
  | close (i : ℕ)
  | exit (i : ℕ)
deriving DecidableEq

def RcvrThreads.moveTo (s : RcvrThreads) (i : ℕ) (w : RcvrWorker) : RcvrThreads :=
  { s with workers := s.workers.set i w }

/-- The locked section in which a worker says that it has received. -/
def RcvrThreads.reportDone (s : RcvrThreads) : RcvrThreads :=
  if s.thCtrl.isfile then { s with filefinished := true }
  else { s with msgCount := s.msgCount + 1 }

def rcvrStep (s : RcvrThreads) (a : RcvrStep) : Option RcvrThreads :=
  if s.ended then none
  else match a with
  | .main =>
    -- without room it sleeps and tests again; the loop has no end
    if s.main = .test then
      some { s with main := if s.thCtrl.queueFree then .create else .test }
    else none
  | .create thId errId =>
    -- `pthread_create` and `thread_creating_info` under one lock
    if s.main = .create then
      some
        { s with
          main := .test
          thCtrl := s.thCtrl.threadCreatingInfo thId errId
          workers := if errId = 0 then s.workers ++ [.accepting] else s.workers }
    else none
  | .accept i =>
    -- a failure is only printed
    if s.workers[i]? = some .accepting then some (s.moveTo i .receiving) else none
  | .recv i recvbytes =>
    if s.workers[i]? = some .receiving then
      if recvbytes = -1 then some { s with ended := true }
      -- one byte of the file, or the whole message
      else some (if s.thCtrl.isfile ∧ 0 < recvbytes then s else s.moveTo i .reporting)
    else none
  | .report i =>
    if s.workers[i]? = some .reporting then some (s.moveTo i .closing).reportDone else none
  | .close i =>
    -- `close(thread_sock)`, a socket of its own
    if s.workers[i]? = some .closing then some (s.moveTo i .exiting) else none
  | .exit i =>
    if s.workers[i]? = some .exiting then
      s.thCtrl.threadExitingInfo.map fun c => { s.moveTo i .exited with thCtrl := c }
    else none

def rcvrStart (fileflag : Bool) : RcvrThreads := { thCtrl := .init fileflag }

/-- What a step does to the queue and the workers, and when it gives main the permission. -/
inductive RcvrEffect (s : RcvrThreads) : RcvrThreads → Prop
  | kept (t : RcvrThreads) (hctrl : t.thCtrl = s.thCtrl) (hworkers : t.workers = s.workers)
    (hmain : t.main = .create → s.thCtrl.queueFree = true ∨ s.main = .create) : RcvrEffect s t
  | created (thId : ℕ) (h : s.main = .create) :
    RcvrEffect s
      { s with
        main := .test
        thCtrl := s.thCtrl.threadCreatingInfo thId 0
        workers := s.workers ++ [.accepting] }
  | moved (t : RcvrThreads) (i : ℕ) (w w' : RcvrWorker) (h : s.workers[i]? = some w)
    (hw : w'.alive = w.alive) (hctrl : t.thCtrl = s.thCtrl)
    (hworkers : t.workers = s.workers.set i w') (hmain : t.main = s.main) : RcvrEffect s t
  | left (t : RcvrThreads) (i : ℕ) (h : s.workers[i]? = some .exiting)
    (hctrl : t.thCtrl = { s.thCtrl with threadqueue := s.thCtrl.threadqueue.tail })
    (hworkers : t.workers = s.workers.set i .exited) (hmain : t.main = s.main) : RcvrEffect s t

theorem rcvrStep_effect {s t : RcvrThreads} {a : RcvrStep} (h : rcvrStep s a = some t) :
    RcvrEffect s t := by
  unfold rcvrStep at h
  obtain ⟨-, h⟩ := Option.ite_none_left_eq_some.mp h
  cases a with
  | main =>
    obtain ⟨htest, h⟩ := Option.ite_none_right_eq_some.mp h
    cases h
    refine .kept _ rfl rfl fun hcreate => Or.inl ?_
    by_contra hfull
    simp only [if_neg hfull] at hcreate
    cases hcreate
  | create thId errId =>
    obtain ⟨hmain, h⟩ := Option.ite_none_right_eq_some.mp h
    cases h
    by_cases herr : errId = 0
    · subst herr
      exact .created thId hmain
    · rw [if_neg herr, ThreadingCtrl.threadCreatingInfo_failed _ _ herr]
      exact .kept _ rfl rfl nofun
  | accept i =>
    obtain ⟨hi, h⟩ := Option.ite_none_right_eq_some.mp h
    cases h
    exact .moved _ i _ .receiving hi rfl rfl rfl rfl
  | recv i recvbytes =>
    obtain ⟨hi, h⟩ := Option.ite_none_right_eq_some.mp h
    by_cases hr : recvbytes = -1
    · rw [if_pos hr] at h
      cases h
      exact .kept _ rfl rfl Or.inr
    rw [if_neg hr] at h
    cases h
    split_ifs
    · exact .kept _ rfl rfl Or.inr
    · exact .moved _ i _ .reporting hi rfl rfl rfl rfl
  | report i =>
    obtain ⟨hi, h⟩ := Option.ite_none_right_eq_some.mp h
    cases h
    unfold RcvrThreads.reportDone
    split_ifs
    · exact .moved _ i _ .closing hi rfl rfl rfl rfl
    · exact .moved _ i _ .closing hi rfl rfl rfl rfl
  | close i =>
    obtain ⟨hi, h⟩ := Option.ite_none_right_eq_some.mp h
    cases h
    exact .moved _ i _ .exiting hi rfl rfl rfl rfl
  | exit i =>
    obtain ⟨hi, h⟩ := Option.ite_none_right_eq_some.mp h
    obtain ⟨c, hc, rfl⟩ := Option.map_eq_some_iff.mp h
    exact .left _ i hi (exitingInfo_eq hc) rfl rfl

structure RcvrBounded (s : RcvrThreads) : Prop where
  queue : Accounted RcvrWorker.alive s.thCtrl s.workers
  bound : s.thCtrl.threadqueue.length ≤ s.thCtrl.maxThread.toNat
  permitted : s.main = .create → s.thCtrl.threadqueue.length < s.thCtrl.maxThread.toNat

theorem rcvrBounded_step {s t : RcvrThreads} {a : RcvrStep} (h : RcvrBounded s)
    (hs : rcvrStep s a = some t) : RcvrBounded t := by
  cases rcvrStep_effect hs with
  | kept _ hctrl hworkers hmain =>
    refine ⟨?_, ?_, fun hcreate => ?_⟩
    · rw [hctrl, hworkers]
      exact h.queue
    · rw [hctrl]
      exact h.bound
    · rw [hctrl]
      rcases hmain hcreate with hfree | hheld
      · exact of_decide_eq_true hfree
      · exact h.permitted hheld
  | created thId hmain =>
    refine ⟨accounted_created h.queue rfl thId, ?_, nofun⟩
    rw [ThreadingCtrl.threadqueue_created, ThreadingCtrl.threadCreatingInfo_maxThread,
      List.length_append]
    exact h.permitted hmain
  | moved _ i w w' hi hw hctrl hworkers hmain =>
    refine ⟨?_, ?_, ?_⟩
    · rw [hworkers]
      exact accounted_moved h.queue hi hw (by rw [hctrl])
    · rw [hctrl]
      exact h.bound
    · rw [hctrl, hmain]
      exact h.permitted
  | left _ i hi hctrl hworkers hmain =>
    -- the queue gets shorter and main may still be under the bound
    have hshort : s.thCtrl.threadqueue.tail.length ≤ s.thCtrl.threadqueue.length := by
      rw [List.length_tail]
      exact Nat.sub_le _ _
    refine ⟨?_, ?_, ?_⟩
    · rw [hctrl, hworkers]
      exact accounted_left h.queue hi rfl rfl
    · rw [hctrl]
      exact Nat.le_trans hshort h.bound
    · rw [hctrl, hmain]
      exact fun hcreate => Nat.lt_of_le_of_lt hshort (h.permitted hcreate)

theorem rcvrBounded_start (fileflag : Bool) : RcvrBounded (rcvrStart fileflag) where
  queue := rfl
  bound := Nat.zero_le _
  permitted := nofun

theorem rcvr_bounded {fileflag : Bool} {as : List RcvrStep} {s : RcvrThreads}
    (h : run rcvrStep (rcvrStart fileflag) as = some s) : RcvrBounded s :=
  run_invariant rcvrStep (I := fun _ s => RcvrBounded s) (rcvrBounded_start fileflag)
    (fun _ _ _ _ _ hi hs => rcvrBounded_step hi hs) h

/-- The worker that is about to pop is itself still in the queue. -/
theorem exiting_pops {ω : Type*} {alive : ω → Bool} {c : ThreadingCtrl} {workers : List ω}
    {exiting : ω} (h : Accounted alive c workers) (hw : alive exiting)
    (hmem : exiting ∈ workers) : c.threadExitingInfo.isSome := by
  obtain ⟨i, hi⟩ := List.mem_iff_getElem?.mp hmem
  rw [ThreadingCtrl.threadExitingInfo_eq (queue_ne_nil h hi hw)]
  rfl

/-- In both programs and both modes the queue is as long as there are workers that have not
left it, it keeps to the bound, and no worker pops it when it is empty. -/
theorem workers_accounted (fileflag : Bool) :
    (∀ as s, run rcvrStep (rcvrStart fileflag) as = some s →
      s.thCtrl.threadqueue.length = s.workers.countP RcvrWorker.alive ∧
      s.thCtrl.threadqueue.length ≤ s.thCtrl.maxThread.toNat ∧
      (.exiting ∈ s.workers → s.thCtrl.threadExitingInfo.isSome)) ∧
    (∀ as s, run sdrStep (sdrStart fileflag) as = some s →
      s.thCtrl.threadqueue.length = s.workers.countP SdrWorker.alive ∧
      s.thCtrl.threadqueue.length ≤ s.thCtrl.maxThread.toNat ∧
      (.exiting ∈ s.workers → s.thCtrl.threadExitingInfo.isSome)) := by
  constructor
  · intro as s h
    have hb := rcvr_bounded h
    exact ⟨hb.queue, hb.bound, exiting_pops hb.queue rfl⟩
  · intro as s h
    have hb := sdr_bounded h
    exact ⟨hb.queue, hb.bound, exiting_pops hb.queue rfl⟩

def rcvrLeaving : List RcvrStep :=
  [.main, .create 0 0, .accept 0, .recv 0 15, .report 0, .close 0]

def sdrLeaving : List SdrStep :=
  [.main, .main, .main, .create 0 0, .send 0 1, .eof 0, .report 0, .close 0]

/-- A worker of each program that has come to leave the queue. -/
theorem leaving_workers_accounted :
    (∃ s, run rcvrStep (rcvrStart false) rcvrLeaving = some s ∧ .exiting ∈ s.workers ∧
      s.thCtrl.threadExitingInfo.isSome) ∧
    (∃ s, run sdrStep (sdrStart true) sdrLeaving = some s ∧ .exiting ∈ s.workers ∧
      s.thCtrl.threadExitingInfo.isSome) :=
  ⟨⟨_, rfl, by decide, ((workers_accounted false).1 rcvrLeaving _ rfl).2.2 (by decide)⟩,
    ⟨_, rfl, by decide, ((workers_accounted true).2 sdrLeaving _ rfl).2.2 (by decide)⟩⟩

end LearningDirectory
