import Mathlib.Algebra.Group.Nat.Defs
import LearningDirectory.StepRun
import LearningDirectory.ThreadingCtrl

/-! The file loop of `my_sdr`: main's permits and creations, and the reports of the threads it
has started. The `exit(-1)` behind a report comes later, if at all within a run. -/
namespace LearningDirectory
open StepRun

inductive FileThread
  | sending
  | failed
  | succeeded
deriving DecidableEq

/-- It has not failed: it sends the file, or has sent it. -/
def FileThread.active (t : FileThread) : Bool := t ≠ .failed

structure FileLoop where
  thCtrl : ThreadingCtrl := .init true
  /-- main has been permitted to create a thread and has not tried yet -/
  permitted : Bool := false
  threads : List FileThread := []

/-- The steps of main, and those of the thread started as the `i`-th. -/
inductive FileStep
  | check (msgCount : UInt32)
  | create (thId : ℕ) (errId : ℤ)
  | fail (i : ℕ)
  | succeed (i : ℕ)

def fileStep (s : FileLoop) : FileStep → Option FileLoop
  | .check msgCount =>
    if s.permitted then none
    else some { s with permitted := s.thCtrl.threadCreatingPermit msgCount }
  | .create thId errId =>
    if s.permitted then
      some
        { thCtrl := s.thCtrl.threadCreatingInfo thId errId
          permitted := false
          threads := if errId = 0 then s.threads ++ [.sending] else s.threads }
    else none
  | .fail i =>
    -- `th_ctrl.file_thread_fail_count++`
    if s.threads[i]? = some .sending then
      some
        { s with
          thCtrl :=
            { s.thCtrl with fileThreadFailCount := s.thCtrl.fileThreadFailCount+1 }
          threads := s.threads.set i .failed }
    else none
  | .succeed i =>
    if s.threads[i]? = some .sending then
      s.thCtrl.threadExitingInfo.map fun thCtrl =>
        { s with thCtrl := thCtrl, threads := s.threads.set i .succeeded }
    else none

/-- The counters are those of the threads, and a permit leaves room for its thread. -/
structure FileOk (s : FileLoop) : Prop where
  isfile : s.thCtrl.isfile = true
  maxThread : s.thCtrl.maxThread = 1
  started : s.thCtrl.fileThreadStartCount.toNat = s.threads.length
  failed : s.thCtrl.fileThreadFailCount.toNat = s.threads.countP (!FileThread.active ·)
  room : s.threads.countP FileThread.active + (if s.permitted then 1 else 0) ≤ 1

theorem fileOk_start : FileOk {} where
  isfile := rfl
  maxThread := rfl
  started := rfl
  failed := rfl
  room := Nat.zero_le 1

theorem length_threads (s : FileLoop) :
    s.threads.length =
      s.threads.countP FileThread.active + s.threads.countP (!FileThread.active ·) := by
  rw [List.length_eq_countP_add_countP FileThread.active]
  simp only [Bool.not_eq_true, Bool.decide_eq_false]

theorem fail_le_start {s : FileLoop} (h : FileOk s) :
    s.thCtrl.fileThreadFailCount ≤ s.thCtrl.fileThreadStartCount := by
  have hsum := length_threads s
  rw [UInt32.le_iff_toNat_le, h.started, h.failed]
  omega

theorem permit_iff {s : FileLoop} (h : FileOk s) (msgCount : UInt32) :
    s.thCtrl.threadCreatingPermit msgCount = true ↔
      (s.thCtrl.fileThreadStartCount.toNat : ℤ) - s.thCtrl.fileThreadFailCount.toNat <
        s.thCtrl.maxThread.toNat := by
  rw [ThreadingCtrl.threadCreatingPermit, if_pos h.isfile]
  exact ThreadingCtrl.fileLeft_iff (fail_le_start h)

theorem fileOk_check {s t : FileLoop} {msgCount : UInt32} (h : FileOk s)
    (hs : fileStep s (.check msgCount) = some t) : FileOk t := by
  obtain ⟨-, hs⟩ := Option.ite_none_left_eq_some.mp hs
  cases hs
  refine ⟨h.isfile, h.maxThread, h.started, h.failed, ?_⟩
  have hroom := h.room
  show s.threads.countP FileThread.active + (if _ then 1 else 0) ≤ 1
  split_ifs with hpermit
  · -- no thread that has not failed is left
    have hless := (permit_iff h msgCount).mp hpermit
    have hsum := length_threads s
    have hone : (1 : UInt32).toNat = 1 := rfl
    rw [h.started, h.failed, h.maxThread, hone] at hless
    omega
  · omega

theorem fileOk_create {s t : FileLoop} {thId : ℕ} {errId : ℤ} (h : FileOk s)
    (hs : fileStep s (.create thId errId) = some t) (hlt : t.threads.length < 2^32) :
    FileOk t := by
  obtain ⟨hpermitted, hs⟩ := Option.ite_none_right_eq_some.mp hs
  cases hs
  -- the permit has left room for one thread
  have hroom := h.room
  rw [if_pos hpermitted] at hroom
  by_cases herr : errId = 0
  · subst herr
    rw [if_pos rfl, List.length_append, List.length_singleton] at hlt
    have hone : (1 : UInt32).toNat = 1 := rfl
    -- the new thread is not the `2^32`-th
    have hstarted : (s.thCtrl.fileThreadStartCount+1).toNat = s.threads.length+1 := by
      rw [UInt32.toNat_add, hone, h.started]
      exact Nat.mod_eq_of_lt hlt
    rw [ThreadingCtrl.threadCreatingInfo_file h.isfile, if_pos rfl]
    refine ⟨h.isfile, h.maxThread, ?_, ?_, ?_⟩
    · rw [List.length_append]
      exact hstarted
    · rw [List.countP_append]
      exact h.failed
    · rw [List.countP_append]
      exact hroom
  · rw [ThreadingCtrl.threadCreatingInfo_failed _ _ herr, if_neg herr]
    exact ⟨h.isfile, h.maxThread, h.started, h.failed, Nat.le_of_succ_le hroom⟩

theorem countP_set_sending {s : FileLoop} {i : ℕ} (hi : s.threads[i]? = some .sending)
    (p : FileThread → Bool) (w : FileThread) :
    (s.threads.set i w).countP p + (if p .sending then 1 else 0) =
      s.threads.countP p + (if p w then 1 else 0) := by
  obtain ⟨hlt, hsending⟩ := List.getElem?_eq_some_iff.mp hi
  have hpos : p .sending = true → 0 < s.threads.countP p := fun hp =>
    List.countP_pos_iff.mpr ⟨_, List.mem_of_getElem? hi, hp⟩
  rw [List.countP_set hlt, hsending]
  split_ifs with hp
  · have hpos := hpos hp
    omega
  · have hpos := hpos hp
    omega
  · rfl
  · rfl

theorem fileOk_fail {s t : FileLoop} {i : ℕ} (h : FileOk s)
    (hs : fileStep s (.fail i) = some t) (hlt : t.threads.length < 2^32) : FileOk t := by
  obtain ⟨hi, hs⟩ := Option.ite_none_right_eq_some.mp hs
  cases hs
  have hactive : (s.threads.set i .failed).countP FileThread.active + 1 =
      s.threads.countP FileThread.active + 0 := countP_set_sending hi FileThread.active .failed
  have hfailed : (s.threads.set i .failed).countP (!FileThread.active ·) + 0 =
      s.threads.countP (!FileThread.active ·) + 1 :=
    countP_set_sending hi (!FileThread.active ·) .failed
  have hsum := length_threads s
  have hroom := h.room
  rw [List.length_set] at hlt
  have hone : (1 : UInt32).toNat = 1 := rfl
  -- there are no more failures than threads
  have hcount : (s.thCtrl.fileThreadFailCount+1).toNat = s.thCtrl.fileThreadFailCount.toNat+1 := by
    rw [UInt32.toNat_add, hone]
    exact Nat.mod_eq_of_lt (by rw [h.failed]; omega)
  refine ⟨h.isfile, h.maxThread, ?_, ?_, ?_⟩
  · rw [List.length_set]
    exact h.started
  · rw [← Nat.add_zero (List.countP _ _), hfailed, hcount, h.failed]
  · show (s.threads.set i .failed).countP FileThread.active + (if s.permitted then 1 else 0) ≤ 1
    omega

theorem fileOk_succeed {s t : FileLoop} {i : ℕ} (h : FileOk s)
    (hs : fileStep s (.succeed i) = some t) : FileOk t := by
  obtain ⟨hi, hs⟩ := Option.ite_none_right_eq_some.mp hs
  obtain ⟨c, hc, rfl⟩ := Option.map_eq_some_iff.mp hs
  have hactive : (s.threads.set i .succeeded).countP FileThread.active + 1 =
      s.threads.countP FileThread.active + 1 := countP_set_sending hi FileThread.active .succeeded
  have hfailed : (s.threads.set i .succeeded).countP (!FileThread.active ·) + 0 =
      s.threads.countP (!FileThread.active ·) + 0 :=
    countP_set_sending hi (!FileThread.active ·) .succeeded
  -- the counters are not touched
  have hctrl : ∃ queue, c = { s.thCtrl with threadqueue := queue } := by
    unfold ThreadingCtrl.threadExitingInfo at hc
    cases hq : s.thCtrl.threadqueue with
    | nil =>
      rw [hq] at hc
      cases hc
    | cons x rest =>
      rw [hq] at hc
      exact ⟨rest, (Option.some.inj hc).symm⟩
  obtain ⟨queue, rfl⟩ := hctrl
  refine ⟨h.isfile, h.maxThread, ?_, ?_, ?_⟩
  · rw [List.length_set]
    exact h.started
  · exact h.failed.trans hfailed.symm
  · rw [Nat.add_right_cancel hactive]
    exact h.room

theorem threads_grow {s t : FileLoop} {a : FileStep} (hs : fileStep s a = some t) :
    s.threads.length ≤ t.threads.length := by
  cases a with
  | check msgCount =>
    obtain ⟨-, hs⟩ := Option.ite_none_left_eq_some.mp hs
    cases hs
    exact Nat.le_refl _
  | create thId errId =>
    obtain ⟨-, hs⟩ := Option.ite_none_right_eq_some.mp hs
    cases hs
    show _ ≤ (if errId = 0 then s.threads ++ [.sending] else s.threads).length
    split_ifs
    · rw [List.length_append]
      exact Nat.le_add_right _ _
    · exact Nat.le_refl _
  | fail i =>
    obtain ⟨-, hs⟩ := Option.ite_none_right_eq_some.mp hs
    cases hs
    exact Nat.le_of_eq List.length_set.symm
  | succeed i =>
    obtain ⟨-, hs⟩ := Option.ite_none_right_eq_some.mp hs
    obtain ⟨c, -, rfl⟩ := Option.map_eq_some_iff.mp hs
    exact Nat.le_of_eq List.length_set.symm

theorem fileOk_step {s t : FileLoop} {a : FileStep} (h : FileOk s)
    (hs : fileStep s a = some t) (hlt : t.threads.length < 2^32) : FileOk t := by
  cases a with
  | check msgCount => exact fileOk_check h hs
  | create thId errId => exact fileOk_create h hs hlt
  | fail i => exact fileOk_fail h hs hlt
  | succeed i => exact fileOk_succeed h hs

/-- What is counted at most once is at one place. -/
theorem eq_of_countP_le_one {α : Type} {p : α → Bool} {xs : List α} (h : xs.countP p ≤ 1)
    {i j : ℕ} {x y : α} (hi : xs[i]? = some x) (hj : xs[j]? = some y) (hx : p x = true)
    (hy : p y = true) : i = j := by
  induction xs generalizing i j with
  | nil => cases hi
  | cons z xs ih =>
    have hone {k : ℕ} {w : α} (hk : xs[k]? = some w) (hw : p w = true) : 0 < xs.countP p :=
      List.countP_pos_iff.mpr ⟨w, List.mem_of_getElem? hk, hw⟩
    rw [List.countP_cons] at h
    cases i with
    | zero =>
      cases j with
      | zero => rfl
      | succ j =>
        cases hi
        rw [if_pos hx] at h
        have hpos := hone hj hy
        omega
    | succ i =>
      cases j with
      | zero =>
        cases hj
        rw [if_pos hy] at h
        have hpos := hone hi hx
        omega
      | succ j => rw [ih (Nat.le_of_add_right_le h) hi hj]

/-- As long as fewer than `2^32` threads have been started, the counters do not wrap: the
permit is the comparison over the integers, and at most `max_thread` threads have not failed.
So no other thread sends while one does, or after one has succeeded. -/
theorem file_senders_bounded (as : List FileStep) (s : FileLoop)
    (hr : run fileStep {} as = some s) (hlt : s.threads.length < 2^32) :
    s.thCtrl.fileThreadFailCount ≤ s.thCtrl.fileThreadStartCount ∧
      (∀ msgCount, s.thCtrl.threadCreatingPermit msgCount = true ↔
        (s.thCtrl.fileThreadStartCount.toNat : ℤ) - s.thCtrl.fileThreadFailCount.toNat <
          s.thCtrl.maxThread.toNat) ∧
      s.threads.countP FileThread.active ≤ s.thCtrl.maxThread.toNat ∧
      ∀ (i j : ℕ) (t : FileThread), s.threads[i]? = some .sending → s.threads[j]? = some t →
        t.active = true → i = j := by
  -- threads are never taken away, so the bound at the end holds all along
  have hok : s.threads.length < 2^32 → FileOk s := by
    refine run_invariant fileStep (I := fun _ s => s.threads.length < 2^32 → FileOk s)
      (fun _ => fileOk_start) ?_ hr
    intro _ t a u _ hi hs hu
    exact fileOk_step (hi (Nat.lt_of_le_of_lt (threads_grow hs) hu)) hs hu
  have h := hok hlt
  have hone : s.threads.countP FileThread.active ≤ 1 :=
    Nat.le_trans (Nat.le_add_right _ _) h.room
  refine ⟨fail_le_start h, permit_iff h, ?_, ?_⟩
  · rw [h.maxThread]
    exact hone
  · intro i j t hi hj hactive
    exact eq_of_countP_le_one hone hi hj rfl hactive

/-- The first sender fails, between a permit and a creation that fails, and the second does not. -/
theorem one_failed_sender_bounded :
    ∃ s, run fileStep {} [.check 0, .create 7 0, .fail 0, .check 0, .create 8 11, .check 0,
        .create 8 0, .succeed 1] = some s ∧
      s.thCtrl.fileThreadFailCount ≤ s.thCtrl.fileThreadStartCount ∧
      s.threads.countP FileThread.active ≤ s.thCtrl.maxThread.toNat := by
  refine ⟨_, rfl, ?_⟩
  obtain ⟨hle, -, hbound, -⟩ := file_senders_bounded [.check 0, .create 7 0, .fail 0, .check 0,
    .create 8 11, .check 0, .create 8 0, .succeed 1] _ rfl (by decide)
  exact ⟨hle, hbound⟩

/-! ### The counters after `2^32` starts -/

def failingRounds (n : ℕ) : List FileStep :=
  (List.range n).flatMap fun i => [.check 0, .create 0 0, .fail i]

/-- `n` threads have been started, one after the other, and all have failed. -/
def afterRounds (n : ℕ) : FileLoop where
  thCtrl :=
    { ThreadingCtrl.init true with
      threadqueue := List.replicate n 0
      fileThreadStartCount := UInt32.ofNat n
      fileThreadFailCount := UInt32.ofNat n }
  threads := List.replicate n .failed

theorem permit_afterRounds (n : ℕ) :
    (afterRounds n).thCtrl.threadCreatingPermit 0 = true := by
  have hleft := ThreadingCtrl.fileLeft_iff (c := (afterRounds n).thCtrl) (UInt32.le_refl _)
  have hsame : (afterRounds n).thCtrl.fileThreadStartCount =
      (afterRounds n).thCtrl.fileThreadFailCount := rfl
  apply hleft.mpr
  rw [hsame, Int.sub_self]
  exact Int.one_pos

theorem run_check_create {s : FileLoop} (hpermitted : s.permitted = false)
    (hpermit : s.thCtrl.threadCreatingPermit 0 = true) (as : List FileStep) :
    run fileStep s (.check 0 :: .create 0 0 :: as) =
      run fileStep
        { thCtrl := s.thCtrl.threadCreatingInfo 0 0, threads := s.threads ++ [.sending] } as := by
  have hcheck : fileStep s (.check 0) = some { s with permitted := true } := by
    rw [fileStep, hpermitted, hpermit]
    rfl
  rw [run_cons, hcheck, Option.bind_some, run_cons]
  rfl

/-- The thread started last fails. -/
theorem fail_last (n : ℕ) :
    fileStep
        { thCtrl := (afterRounds n).thCtrl.threadCreatingInfo 0 0
          threads := (afterRounds n).threads ++ [.sending] } (.fail n) =
      some (afterRounds (n+1)) := by
  have hlength : (afterRounds n).threads.length = n := List.length_replicate
  have hlast : ((afterRounds n).threads ++ [.sending])[n]? = some .sending := by
    rw [List.getElem?_append_right (Nat.le_of_eq hlength), hlength, Nat.sub_self]
    rfl
  have hset : ((afterRounds n).threads ++ [FileThread.sending]).set n .failed =
      (afterRounds (n+1)).threads := by
    rw [List.set_append_right _ _ (Nat.le_of_eq hlength), hlength, Nat.sub_self]
    exact List.replicate_succ'.symm
  have hqueue : List.replicate n 0 ++ [0] = List.replicate (n+1) 0 := List.replicate_succ'.symm
  have hone : UInt32.ofNat n + 1 = UInt32.ofNat (n+1) := (UInt32.ofNat_add n 1).symm
  rw [fileStep, if_pos hlast, hset, ThreadingCtrl.threadCreatingInfo_file rfl]
  simp only [afterRounds, hqueue, hone]

theorem run_failingRounds (n : ℕ) : run fileStep {} (failingRounds n) = some (afterRounds n) := by
  -- one more round at the end: the counters are equal, so main is permitted
  induction n with
  | zero => rfl
  | succ n ih =>
    have hsucc : failingRounds (n+1) =
        failingRounds n ++ [.check 0, .create 0 0, .fail n] := by
      rw [failingRounds, List.range_succ, List.flatMap_append]
      rfl
    rw [hsucc, run_append, ih, Option.bind_some,
      run_check_create rfl (permit_afterRounds n), run_cons, fail_last]
    rfl

/-- The start count wraps to 0 with the next thread, and main is permitted one more. -/
theorem two_more_after_wrap {n : ℕ} (h : UInt32.ofNat n + 1 = 0) :
    ∃ s, run fileStep (afterRounds n) [.check 0, .create 0 0, .check 0, .create 0 0] = some s ∧
      s.threads = List.replicate n .failed ++ [.sending] ++ [.sending] ∧
      s.thCtrl.maxThread = 1 := by
  have hstart : ((afterRounds n).thCtrl.threadCreatingInfo 0 0).fileThreadStartCount = 0 := by
    rw [ThreadingCtrl.threadCreatingInfo_file rfl]
    exact h
  -- no thread has been started, as far as the counter tells
  have hpermit : ((afterRounds n).thCtrl.threadCreatingInfo 0 0).threadCreatingPermit 0 = true := by
    rw [ThreadingCtrl.threadCreatingPermit, ThreadingCtrl.threadCreatingInfo_isfile,
      ThreadingCtrl.fileLeft, hstart, ThreadingCtrl.threadCreatingInfo_maxThread]
    rfl
  rw [run_check_create rfl (permit_afterRounds n), run_check_create rfl hpermit]
  refine ⟨_, rfl, rfl, ?_⟩
  rw [ThreadingCtrl.threadCreatingInfo_maxThread, ThreadingCtrl.threadCreatingInfo_maxThread]
  rfl

/-- After `2^32-1` failures in a row two threads send the file. -/
theorem two_senders_after_wrap :
    ∃ s, run fileStep {}
        (failingRounds (2^32-1) ++ [.check 0, .create 0 0, .check 0, .create 0 0]) = some s ∧
      s.thCtrl.maxThread.toNat < s.threads.countP FileThread.active := by
  have hwrap : UInt32.ofNat (2^32-1) + 1 = 0 := by decide
  obtain ⟨s, hs, hthreads, hmax⟩ := two_more_after_wrap hwrap
  refine ⟨s, ?_, ?_⟩
  · rw [run_append, run_failingRounds]
    exact hs
  · have hfailed : (List.replicate (2^32-1) FileThread.failed).countP FileThread.active = 0 := by
      rw [List.countP_replicate]
      rfl
    rw [hthreads, hmax, List.countP_append, List.countP_append, hfailed]
    decide

end LearningDirectory
