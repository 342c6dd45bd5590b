import LearningDirectory.StepRun
import LearningDirectory.ThreadingCtrl

/-! The threads of `my_sdr`: the main thread, which creates workers when it has the
permission, and the workers, which send, report, close the socket and leave the queue. -/
namespace LearningDirectory
open StepRun

/-- Where the main thread is in its loop. In message mode the permission takes three reads
without the mutex: `msg_count` for the argument, and `threadqueue.size()` twice. -/
inductive SdrMain
  | test
  | call
  | amount (msgCount : UInt32)
  | queue
  | create
  | returned
deriving DecidableEq

inductive SdrWorker
  | sending
  | reporting
  | closing
  | exiting
  | exited
deriving DecidableEq

def SdrWorker.alive (w : SdrWorker) : Bool := w ≠ .exited

structure SdrThreads where
  /-- its `isfile` stands for `FILEFLAG` as well -/
  thCtrl : ThreadingCtrl
  main : SdrMain := .test
  workers : List SdrWorker := []
  msgCount : UInt32 := 0
  filefinished : Bool := false
  /-- `localsock` is open -/
  sockOpen : Bool := true
  /-- the process has ended -/
  ended : Bool := false

/-- The steps of the main thread, and those of the worker created as the `i`-th. -/
inductive SdrStep
  | main
  | create (thId : ℕ) (errId : ℤ)
  | send (i : ℕ) (result : ℤ)
  | eof (i : ℕ)
  | report (i : ℕ)
  | close (i : ℕ)
  | exit (i : ℕ)
deriving DecidableEq

/-- `#define MSG_AMOUNT 100` -/
def sdrMsgAmount : UInt32 := 100

def SdrThreads.mainNext (s : SdrThreads) : Option SdrMain :=
  match s.main with
  | .test =>
    if s.thCtrl.isfile then some (if s.filefinished then .returned else .call)
    else some (if s.msgCount < sdrMsgAmount then .call else .returned)
  | .call => some (.amount s.msgCount)
  | .amount msgCount =>
    -- in file mode nothing that the permission reads is changed by a worker that lives on
    if s.thCtrl.isfile then some (if s.thCtrl.fileLeft then .create else .test)
    else some (if s.thCtrl.amountLeft msgCount then .queue else .test)
  | .queue => some (if s.thCtrl.queueFree then .create else .test)
  | .create => none
  | .returned => none

def SdrThreads.moveTo (s : SdrThreads) (i : ℕ) (w : SdrWorker) : SdrThreads :=
  { s with workers := s.workers.set i w }

/-- `exit(-1)` after a failed `send`, in file mode with the failure counted. -/
def SdrThreads.fail (s : SdrThreads) : SdrThreads :=
  if s.thCtrl.isfile then
    { s with
      thCtrl := { s.thCtrl with fileThreadFailCount := s.thCtrl.fileThreadFailCount + 1 }
      ended := true }
  else { s with ended := true }

/-- The locked section in which a worker says that it has succeeded. -/
def SdrThreads.reportDone (s : SdrThreads) : SdrThreads :=
  if s.thCtrl.isfile then { s with filefinished := true }
  else { s with msgCount := s.msgCount + 1 }

def sdrStep (s : SdrThreads) (a : SdrStep) : Option SdrThreads :=
  if s.ended then none
  else match a with
  | .main => s.mainNext.map fun p => { s with main := p, ended := p = .returned }
  | .create thId errId =>
    -- `pthread_create` and `thread_creating_info` under one lock
    if s.main = .create then
      some
        { s with
          main := .test
          thCtrl := s.thCtrl.threadCreatingInfo thId errId
          workers := if errId = 0 then s.workers ++ [.sending] else s.workers }
    else none
  | .send i result =>
    if s.workers[i]? = some .sending then
      if result = -1 then some s.fail
      -- one byte of the file, or the whole message
      else some (if s.thCtrl.isfile then s else s.moveTo i .reporting)
    else none
  | .eof i =>
    if s.workers[i]? = some .sending ∧ s.thCtrl.isfile then some (s.moveTo i .reporting) else none
  | .report i =>
    if s.workers[i]? = some .reporting then some (s.moveTo i .closing).reportDone else none
  | .close i =>
    -- `close(localsock)`, which is the one socket of all workers
    if s.workers[i]? = some .closing then
      some { s.moveTo i .exiting with sockOpen := false }
    else none
  | .exit i =>
    if s.workers[i]? = some .exiting then
      s.thCtrl.threadExitingInfo.map fun c => { s.moveTo i .exited with thCtrl := c }
    else none

def sdrStart (fileflag : Bool) : SdrThreads := { thCtrl := .init fileflag }

/-- What a step of a worker does. -/
inductive WorkerEffect (s : SdrThreads) : SdrStep → SdrThreads → Prop
  | failed (i : ℕ) (h : s.workers[i]? = some .sending) : WorkerEffect s (.send i (-1)) s.fail
  | sentByte (i : ℕ) (result : ℤ) (h : s.workers[i]? = some .sending)
    (hfile : s.thCtrl.isfile = true) : WorkerEffect s (.send i result) s
  | sent (i : ℕ) (result : ℤ) (h : s.workers[i]? = some .sending)
    (hmsg : s.thCtrl.isfile = false) : WorkerEffect s (.send i result) (s.moveTo i .reporting)
  | eof (i : ℕ) (h : s.workers[i]? = some .sending) (hfile : s.thCtrl.isfile = true) :
    WorkerEffect s (.eof i) (s.moveTo i .reporting)
  | report (i : ℕ) (h : s.workers[i]? = some .reporting) :
    WorkerEffect s (.report i) (s.moveTo i .closing).reportDone
  | close (i : ℕ) (h : s.workers[i]? = some .closing) :
    WorkerEffect s (.close i) { s.moveTo i .exiting with sockOpen := false }
  | exit (i : ℕ) (c : ThreadingCtrl) (h : s.workers[i]? = some .exiting)
    (hc : s.thCtrl.threadExitingInfo = some c) :
    WorkerEffect s (.exit i) { s.moveTo i .exited with thCtrl := c }

/-- All that a step can do. -/
inductive SdrEffect (s : SdrThreads) : SdrStep → SdrThreads → Prop
  | main (p : SdrMain) (h : s.mainNext = some p) :
    SdrEffect s .main { s with main := p, ended := p = .returned }
  | created (thId : ℕ) (h : s.main = .create) :
    SdrEffect s (.create thId 0)
      { s with
        main := .test
        thCtrl := s.thCtrl.threadCreatingInfo thId 0
        workers := s.workers ++ [.sending] }
  | refused (thId : ℕ) (errId : ℤ) (h : s.main = .create) (herr : errId ≠ 0) :
    SdrEffect s (.create thId errId) { s with main := .test }
  | worker (a : SdrStep) (t : SdrThreads) (h : WorkerEffect s a t) : SdrEffect s a t

theorem sdrStep_effect {s t : SdrThreads} {a : SdrStep} (h : sdrStep s a = some t) :
    s.ended = false ∧ SdrEffect s a t := by
  unfold sdrStep at h
  by_cases hended : s.ended = true
  · rw [if_pos hended] at h
    cases h
  rw [if_neg hended] at h
  refine ⟨Bool.eq_false_iff.mpr hended, ?_⟩
  cases a with
  | main =>
    obtain ⟨p, hp, rfl⟩ := Option.map_eq_some_iff.mp h
    exact .main p hp
  | create thId errId =>
    obtain ⟨hmain, h⟩ := Option.ite_none_right_eq_some.mp h
    cases h
    by_cases herr : errId = 0
    · subst herr
      exact .created thId hmain
    · rw [if_neg herr, ThreadingCtrl.threadCreatingInfo_failed _ _ herr]
      exact .refused thId errId hmain herr
  | send i result =>
    obtain ⟨hi, h⟩ := Option.ite_none_right_eq_some.mp h
    apply SdrEffect.worker
    by_cases hr : result = -1
    · rw [if_pos hr] at h
      cases h
      rw [hr]
      exact .failed i hi
    rw [if_neg hr] at h
    by_cases hfile : s.thCtrl.isfile = true
    · rw [if_pos hfile] at h
      cases h
      exact .sentByte i result hi hfile
    · rw [if_neg hfile] at h
      cases h
      exact .sent i result hi (Bool.eq_false_iff.mpr hfile)
  | eof i =>
    obtain ⟨hi, h⟩ := Option.ite_none_right_eq_some.mp h
    cases h
    exact .worker _ _ (.eof i hi.1 hi.2)
  | report i =>
    obtain ⟨hi, h⟩ := Option.ite_none_right_eq_some.mp h
    cases h
    exact .worker _ _ (.report i hi)
  | close i =>
    obtain ⟨hi, h⟩ := Option.ite_none_right_eq_some.mp h
    cases h
    exact .worker _ _ (.close i hi)
  | exit i =>
    obtain ⟨hi, h⟩ := Option.ite_none_right_eq_some.mp h
    obtain ⟨c, hc, rfl⟩ := Option.map_eq_some_iff.mp h
    exact .worker _ _ (.exit i c hi hc)

theorem exitingInfo_eq {c c' : ThreadingCtrl} (h : c.threadExitingInfo = some c') :
    c' = { c with threadqueue := c.threadqueue.tail } := by
  by_cases hne : c.threadqueue = []
  · rw [ThreadingCtrl.threadExitingInfo, hne] at h
    cases h
  · rw [ThreadingCtrl.threadExitingInfo_eq hne] at h
    exact (Option.some.inj h).symm

/-- What no worker changes; the queue it can only make shorter. -/
structure WorkerFrame (s t : SdrThreads) : Prop where
  main : t.main = s.main
  created : t.workers.length = s.workers.length
  isfile : t.thCtrl.isfile = s.thCtrl.isfile
  msgAmount : t.thCtrl.msgAmount = s.thCtrl.msgAmount
  maxThread : t.thCtrl.maxThread = s.thCtrl.maxThread
  started : t.thCtrl.fileThreadStartCount = s.thCtrl.fileThreadStartCount
  queue : t.thCtrl.threadqueue.length ≤ s.thCtrl.threadqueue.length
  /-- a failure is counted only when the process ends -/
  failed : t.ended = false → t.thCtrl.fileThreadFailCount = s.thCtrl.fileThreadFailCount

theorem worker_frame {s t : SdrThreads} {a : SdrStep} (h : WorkerEffect s a t) :
    WorkerFrame s t := by
  have hmove (i : ℕ) (w : SdrWorker) : WorkerFrame s (s.moveTo i w) :=
    ⟨rfl, List.length_set, rfl, rfl, rfl, rfl, Nat.le_refl _, fun _ => rfl⟩
  cases h with
  | failed i hi =>
    unfold SdrThreads.fail
    split_ifs
    · exact ⟨rfl, rfl, rfl, rfl, rfl, rfl, Nat.le_refl _, fun hx => by cases hx⟩
    · exact ⟨rfl, rfl, rfl, rfl, rfl, rfl, Nat.le_refl _, fun hx => by cases hx⟩
  | sentByte i result hi hfile => exact ⟨rfl, rfl, rfl, rfl, rfl, rfl, Nat.le_refl _, fun _ => rfl⟩
  | sent i result hi hmsg => exact hmove i _
  | eof i hi hfile => exact hmove i _
  | report i hi =>
    obtain ⟨h1, h2, h3, h4, h5, h6, h7, h8⟩ := hmove i .closing
    unfold SdrThreads.reportDone
    split_ifs
    · exact ⟨h1, h2, h3, h4, h5, h6, h7, h8⟩
    · exact ⟨h1, h2, h3, h4, h5, h6, h7, h8⟩
  | close i hi =>
    obtain ⟨h1, h2, h3, h4, h5, h6, h7, h8⟩ := hmove i .exiting
    exact ⟨h1, h2, h3, h4, h5, h6, h7, h8⟩
  | exit i c hi hc =>
    rw [exitingInfo_eq hc]
    refine ⟨rfl, List.length_set, rfl, rfl, rfl, rfl, ?_, fun _ => rfl⟩
    rw [List.length_tail]
    exact Nat.sub_le _ _

/-- The queue holds the workers that have not left yet. -/
theorem accounted_worker {s t : SdrThreads} {a : SdrStep}
    (h : Accounted SdrWorker.alive s.thCtrl s.workers) (he : WorkerEffect s a t) :
    Accounted SdrWorker.alive t.thCtrl t.workers := by
  cases he with
  | failed i hi =>
    unfold SdrThreads.fail
    split_ifs <;> exact h
  | sentByte i result hi hfile => exact h
  | sent i result hi hmsg => exact accounted_moved h hi rfl rfl
  | eof i hi hfile => exact accounted_moved h hi rfl rfl
  | report i hi =>
    have hmoved : Accounted SdrWorker.alive s.thCtrl (s.workers.set i .closing) :=
      accounted_moved h hi rfl rfl
    unfold SdrThreads.reportDone
    split_ifs <;> exact hmoved
  | close i hi => exact accounted_moved h hi rfl rfl
  | exit i c hi hc =>
    rw [exitingInfo_eq hc]
    exact accounted_left h hi rfl rfl

theorem accounted_step {s t : SdrThreads} {a : SdrStep}
    (h : Accounted SdrWorker.alive s.thCtrl s.workers) (he : SdrEffect s a t) :
    Accounted SdrWorker.alive t.thCtrl t.workers := by
  cases he with
  | main p hp => exact h
  | created thId hmain => exact accounted_created h rfl thId
  | refused thId errId hmain herr => exact h
  | worker _ _ hw => exact accounted_worker h hw

/-! ### The main thread -/

/-- Where the main thread can go next, and what it has found out on the way. -/
inductive MainMove (s : SdrThreads) : SdrMain → Prop
  | amount (h : s.main = .call) : MainMove s (.amount s.msgCount)
  | queue (msgCount : UInt32) (h : s.main = .amount msgCount) (hmsg : s.thCtrl.isfile = false)
    (hleft : s.thCtrl.amountLeft msgCount = true) : MainMove s .queue
  | createFile (hfile : s.thCtrl.isfile = true) (hleft : s.thCtrl.fileLeft = true) :
    MainMove s .create
  | createMsg (h : s.main = .queue) (hfree : s.thCtrl.queueFree = true) : MainMove s .create
  | test : MainMove s .test
  | call : MainMove s .call
  | returned : MainMove s .returned

theorem mainMove {s : SdrThreads} {p : SdrMain} (h : s.mainNext = some p) : MainMove s p := by
  unfold SdrThreads.mainNext at h
  cases hmain : s.main with
  | test =>
    simp only [hmain] at h
    split_ifs at h <;> cases h
    · exact .returned
    · exact .call
    · exact .call
    · exact .returned
  | call =>
    simp only [hmain] at h
    cases h
    exact .amount hmain
  | amount msgCount =>
    simp only [hmain] at h
    split_ifs at h with hfile hleft hleft
    · cases h
      exact .createFile hfile hleft
    · cases h
      exact .test
    · cases h
      exact .queue msgCount hmain (Bool.eq_false_iff.mpr hfile) hleft
    · cases h
      exact .test
  | queue =>
    simp only [hmain] at h
    split_ifs at h with hfree
    · cases h
      exact .createMsg hmain hfree
    · cases h
      exact .test
  | create =>
    simp only [hmain] at h
    cases h
  | returned =>
    simp only [hmain] at h
    cases h

/-- What main has found out in a call of `thread_creating_permit` that no worker disturbs. -/
structure AloneFrom (s t : SdrThreads) : Prop where
  thCtrl : t.thCtrl = s.thCtrl
  msgCount : t.msgCount = s.msgCount
  amount : ∀ msgCount, t.main = .amount msgCount → msgCount = s.msgCount
  queue : t.main = .queue → s.thCtrl.isfile = false ∧ s.thCtrl.amountLeft s.msgCount = true
  create : t.main = .create → s.thCtrl.threadCreatingPermit s.msgCount = true

theorem aloneFrom_main {s t u : SdrThreads} (h : AloneFrom s t) (hs : sdrStep t .main = some u) :
    AloneFrom s u := by
  obtain ⟨-, he⟩ := sdrStep_effect hs
  cases he with
  | worker _ _ hw => cases hw
  | main p hp =>
    cases mainMove hp with
    | amount hmain =>
      refine ⟨h.thCtrl, h.msgCount, fun msgCount hread => ?_, nofun, nofun⟩
      exact (SdrMain.amount.inj hread).symm.trans h.msgCount
    | queue msgCount hmain hmsg hleft =>
      rw [h.thCtrl] at hmsg hleft
      rw [h.amount msgCount hmain] at hleft
      exact ⟨h.thCtrl, h.msgCount, nofun, fun _ => ⟨hmsg, hleft⟩, nofun⟩
    | createFile hfile hleft =>
      rw [h.thCtrl] at hfile hleft
      refine ⟨h.thCtrl, h.msgCount, nofun, nofun, fun _ => ?_⟩
      rw [ThreadingCtrl.threadCreatingPermit, if_pos hfile]
      exact hleft
    | createMsg hmain hfree =>
      obtain ⟨hmsg, hleft⟩ := h.queue hmain
      rw [h.thCtrl] at hfree
      refine ⟨h.thCtrl, h.msgCount, nofun, nofun, fun _ => ?_⟩
      rw [ThreadingCtrl.threadCreatingPermit, if_neg (Bool.eq_false_iff.mp hmsg), hleft, hfree]
      rfl
    | test | call | returned => exact ⟨h.thCtrl, h.msgCount, nofun, nofun, nofun⟩

theorem aloneFrom_run {s t : SdrThreads} (hcall : s.main = .call) {n : ℕ}
    (hr : run sdrStep s (List.replicate n .main) = some t) : AloneFrom s t := by
  induction n generalizing t with
  | zero =>
    obtain rfl : s = t := Option.some.inj hr
    refine ⟨rfl, rfl, fun msgCount hread => ?_, fun hqueue => ?_, fun hcreate => ?_⟩
    · cases hcall.symm.trans hread
    · cases hcall.symm.trans hqueue
    · cases hcall.symm.trans hcreate
  | succ n ih =>
    rw [List.replicate_succ'] at hr
    obtain ⟨u, hu, hs⟩ := (run_append_one sdrStep).mp hr
    exact aloneFrom_main (ih hu) hs

/-- Undisturbed, main creates a worker exactly when `thread_creating_permit` allows it. -/
theorem creates_iff_permit {s : SdrThreads} (hlive : s.ended = false) (hcall : s.main = .call) :
    (∃ n t, run sdrStep s (List.replicate n .main) = some t ∧ t.main = .create) ↔
      s.thCtrl.threadCreatingPermit s.msgCount = true := by
  constructor
  · rintro ⟨n, t, hr, hcreate⟩
    exact (aloneFrom_run hcall hr).create hcreate
  · intro hpermit
    unfold ThreadingCtrl.threadCreatingPermit at hpermit
    by_cases hfile : s.thCtrl.isfile = true
    · rw [if_pos hfile] at hpermit
      refine ⟨2, { s with main := .create, ended := false }, ?_, rfl⟩
      simp [run, sdrStep, SdrThreads.mainNext, hlive, hcall, hfile, hpermit]
    · rw [if_neg hfile, Bool.and_eq_true] at hpermit
      refine ⟨3, { s with main := .create, ended := false }, ?_, rfl⟩
      simp [run, sdrStep, SdrThreads.mainNext, hlive, hcall, hfile, hpermit.1, hpermit.2]

/-! ### The bound on the queue -/

/-- In file mode one thread is started, and the queue never holds more than it. -/
structure FileCounts (s : SdrThreads) : Prop where
  max : s.thCtrl.maxThread = 1
  failed : s.ended = false → s.thCtrl.fileThreadFailCount = 0
  started : s.thCtrl.fileThreadStartCount = 0 ∧ s.thCtrl.threadqueue.length = 0 ∨
    s.thCtrl.fileThreadStartCount = 1 ∧ s.thCtrl.threadqueue.length ≤ 1
  atQueue : s.main ≠ .queue
  permitted : s.main = .create → s.thCtrl.fileThreadStartCount = 0

structure SdrBounded (s : SdrThreads) : Prop where
  queue : Accounted SdrWorker.alive s.thCtrl s.workers
  bound : s.thCtrl.threadqueue.length ≤ s.thCtrl.maxThread.toNat
  permitted : s.main = .create → s.thCtrl.threadqueue.length < s.thCtrl.maxThread.toNat
  file : s.thCtrl.isfile = true → FileCounts s

theorem start_of_fileLeft {s : SdrThreads} (h : FileCounts s) (hended : s.ended = false)
    (hleft : s.thCtrl.fileLeft = true) :
    s.thCtrl.fileThreadStartCount = 0 ∧ s.thCtrl.threadqueue.length = 0 := by
  rcases h.started with hnone | ⟨hone, -⟩
  · exact hnone
  · -- one thread is started and none has failed
    rw [ThreadingCtrl.fileLeft, hone, h.failed hended, h.max] at hleft
    exact absurd hleft (by decide)

theorem bounded_main {s : SdrThreads} {p : SdrMain} (h : SdrBounded s) (hended : s.ended = false)
    (hp : MainMove s p) : SdrBounded { s with main := p, ended := p = .returned } := by
  refine ⟨h.queue, h.bound, ?_, fun hfile => ?_⟩
  · intro (hcreate : p = .create)
    subst hcreate
    change s.thCtrl.threadqueue.length < s.thCtrl.maxThread.toNat
    cases hp with
    | createFile hfile hleft =>
      obtain ⟨-, hnil⟩ := start_of_fileLeft (h.file hfile) hended hleft
      rw [hnil, (h.file hfile).max]
      decide
    | createMsg hq hfree => simpa [ThreadingCtrl.queueFree] using hfree
  · have hf : FileCounts s := h.file hfile
    refine ⟨hf.max, fun _ => hf.failed hended, hf.started, ?_, ?_⟩
    · intro (hq : p = .queue)
      subst hq
      cases hp with
      | queue msgCount hm hmsg hleft => exact Bool.false_ne_true (hmsg.symm.trans hfile)
    · intro (hcreate : p = .create)
      subst hcreate
      cases hp with
      | createFile _ hleft => exact (start_of_fileLeft hf hended hleft).1
      | createMsg hq hfree => exact absurd hq hf.atQueue

theorem bounded_created {s : SdrThreads} (h : SdrBounded s) (hended : s.ended = false)
    (hmain : s.main = .create) (thId : ℕ) :
    SdrBounded
      { s with
        main := .test
        thCtrl := s.thCtrl.threadCreatingInfo thId 0
        workers := s.workers ++ [.sending] } := by
  have hroom := h.permitted hmain
  refine ⟨accounted_created h.queue rfl thId, ?_, nofun, ?_⟩
  · rw [ThreadingCtrl.threadqueue_created, ThreadingCtrl.threadCreatingInfo_maxThread,
      List.length_append]
    exact hroom
  · intro hfile
    rw [ThreadingCtrl.threadCreatingInfo_isfile] at hfile
    have hf : FileCounts s := h.file hfile
    have hstart := hf.permitted hmain
    have hnil : s.thCtrl.threadqueue.length = 0 := by
      have hlt := hroom
      rw [hf.max] at hlt
      exact Nat.lt_one_iff.mp hlt
    refine ⟨?_, fun _ => ?_, Or.inr ⟨?_, ?_⟩, nofun, nofun⟩
    · rw [ThreadingCtrl.threadCreatingInfo_maxThread]
      exact hf.max
    · rw [ThreadingCtrl.threadCreatingInfo_file hfile]
      exact hf.failed hended
    · rw [ThreadingCtrl.threadCreatingInfo_file hfile]
      dsimp only
      rw [hstart]
      rfl
    · rw [ThreadingCtrl.threadqueue_created, List.length_append, hnil]
      exact Nat.le_refl 1

theorem bounded_worker {s t : SdrThreads} {a : SdrStep} (h : SdrBounded s)
    (hended : s.ended = false) (he : WorkerEffect s a t) : SdrBounded t := by
  have hframe := worker_frame he
  refine ⟨accounted_worker h.queue he, ?_, fun hcreate => ?_, fun hfile => ?_⟩
  · rw [hframe.maxThread]
    exact Nat.le_trans hframe.queue h.bound
  · rw [hframe.maxThread]
    exact Nat.lt_of_le_of_lt hframe.queue (h.permitted (hframe.main ▸ hcreate))
  · have hf : FileCounts s := h.file (hframe.isfile ▸ hfile)
    have hq := hframe.queue
    refine ⟨hframe.maxThread.trans hf.max, ?_, ?_, ?_, ?_⟩
    · intro ht
      exact (hframe.failed ht).trans (hf.failed hended)
    · rw [hframe.started]
      rcases hf.started with ⟨hstart, hnil⟩ | ⟨hstart, hone⟩
      · exact Or.inl ⟨hstart, by omega⟩
      · exact Or.inr ⟨hstart, Nat.le_trans hq hone⟩
    · rw [hframe.main]
      exact hf.atQueue
    · rw [hframe.main, hframe.started]
      exact hf.permitted

theorem bounded_step {s t : SdrThreads} {a : SdrStep} (h : SdrBounded s)
    (hs : sdrStep s a = some t) : SdrBounded t := by
  obtain ⟨hended, he⟩ := sdrStep_effect hs
  cases he with
  | main p hp => exact bounded_main h hended (mainMove hp)
  | created thId hmain => exact bounded_created h hended hmain thId
  | refused thId errId hmain herr =>
    refine ⟨h.queue, h.bound, nofun, fun hfile => ?_⟩
    have hf : FileCounts s := h.file hfile
    exact ⟨hf.max, hf.failed, hf.started, nofun, nofun⟩
  | worker _ _ hw => exact bounded_worker h hended hw

theorem bounded_start (fileflag : Bool) : SdrBounded (sdrStart fileflag) where
  queue := rfl
  bound := Nat.zero_le _
  permitted := nofun
  file := by
    intro hfile
    obtain rfl : fileflag = true := hfile
    exact ⟨rfl, fun _ => rfl, Or.inl ⟨rfl, rfl⟩, nofun, nofun⟩

theorem sdr_bounded {fileflag : Bool} {as : List SdrStep} {s : SdrThreads}
    (h : run sdrStep (sdrStart fileflag) as = some s) : SdrBounded s :=
  run_invariant sdrStep (I := fun _ s => SdrBounded s) (bounded_start fileflag)
    (fun _ _ _ _ _ hi hs => bounded_step hi hs) h

end LearningDirectory
