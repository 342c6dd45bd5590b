import Mathlib.Data.List.Basic
import Mathlib.Data.Int.Notation

/-! `threadingctrl`: the queue of running threads, and the permission to create another. -/
namespace LearningDirectory

structure ThreadingCtrl where
  threadqueue : List ℕ := []
  msgAmount : UInt32
  maxThread : UInt32
  fileThreadStartCount : UInt32
  fileThreadFailCount : UInt32
  isfile : Bool

namespace ThreadingCtrl

def init (fileflag : Bool) : ThreadingCtrl where
  msgAmount := 100
  fileThreadStartCount := 0
  fileThreadFailCount := 0
  isfile := fileflag
  maxThread := if fileflag then 1 else 10

def threadCreatingInfo (c : ThreadingCtrl) (thId : ℕ) (errId : ℤ) : ThreadingCtrl :=
  if errId = 0 then
    if c.isfile then
      { c with
        threadqueue := c.threadqueue ++ [thId]
        fileThreadStartCount := c.fileThreadStartCount + 1 }
    else { c with threadqueue := c.threadqueue ++ [thId] }
  -- it only says that it is trying again
  else c

/-- `pop` takes the oldest entry, whoever is leaving; on an empty queue it is undefined. -/
def threadExitingInfo (c : ThreadingCtrl) : Option ThreadingCtrl :=
  match c.threadqueue with
  | [] => none
  | _ :: rest => some { c with threadqueue := rest }

/-- `msg_count+threadqueue.size()<msg_amount`, where `msg_count` is the argument of the call. -/
def amountLeft (c : ThreadingCtrl) (msgCount : UInt32) : Bool :=
  msgCount.toNat + c.threadqueue.length < c.msgAmount.toNat

/-- `threadqueue.size()<max_thread` -/
def queueFree (c : ThreadingCtrl) : Bool := c.threadqueue.length < c.maxThread.toNat

def fileLeft (c : ThreadingCtrl) : Bool :=
  c.fileThreadStartCount < c.maxThread ||
    (c.maxThread ≤ c.fileThreadStartCount &&
      c.fileThreadStartCount - c.fileThreadFailCount < c.maxThread)

def threadCreatingPermit (c : ThreadingCtrl) (msgCount : UInt32) : Bool :=
  if c.isfile then c.fileLeft else c.amountLeft msgCount && c.queueFree

@[simp] theorem threadCreatingInfo_maxThread (c : ThreadingCtrl) (thId : ℕ) (errId : ℤ) :
    (c.threadCreatingInfo thId errId).maxThread = c.maxThread := by
  unfold threadCreatingInfo
  split_ifs <;> rfl

@[simp] theorem threadCreatingInfo_isfile (c : ThreadingCtrl) (thId : ℕ) (errId : ℤ) :
    (c.threadCreatingInfo thId errId).isfile = c.isfile := by
  unfold threadCreatingInfo
  split_ifs <;> rfl

@[simp] theorem threadCreatingInfo_msgAmount (c : ThreadingCtrl) (thId : ℕ) (errId : ℤ) :
    (c.threadCreatingInfo thId errId).msgAmount = c.msgAmount := by
  unfold threadCreatingInfo
  split_ifs <;> rfl

theorem threadqueue_created (c : ThreadingCtrl) (thId : ℕ) :
    (c.threadCreatingInfo thId 0).threadqueue = c.threadqueue ++ [thId] := by
  rw [threadCreatingInfo, if_pos rfl]
  split_ifs <;> rfl

theorem threadCreatingInfo_file {c : ThreadingCtrl} (h : c.isfile = true) (thId : ℕ) :
    c.threadCreatingInfo thId 0 =
      { c with
        threadqueue := c.threadqueue ++ [thId]
        fileThreadStartCount := c.fileThreadStartCount + 1 } := by
  rw [threadCreatingInfo, if_pos rfl, if_pos h]

theorem threadCreatingInfo_failed (c : ThreadingCtrl) (thId : ℕ) {errId : ℤ} (h : errId ≠ 0) :
    c.threadCreatingInfo thId errId = c := if_neg h

theorem threadExitingInfo_eq {c : ThreadingCtrl} (h : c.threadqueue ≠ []) :
    c.threadExitingInfo = some { c with threadqueue := c.threadqueue.tail } := by
  unfold threadExitingInfo
  cases hq : c.threadqueue with
  | nil => exact absurd hq h
  | cons x rest => rfl

/-- With no more failures than starts, the file mode counts as over the integers. -/
theorem fileLeft_iff {c : ThreadingCtrl} (h : c.fileThreadFailCount ≤ c.fileThreadStartCount) :
    c.fileLeft = true ↔
      (c.fileThreadStartCount.toNat : ℤ) - c.fileThreadFailCount.toNat < c.maxThread.toNat := by
  have hdiff : (c.fileThreadStartCount - c.fileThreadFailCount).toNat =
      c.fileThreadStartCount.toNat - c.fileThreadFailCount.toNat := UInt32.toNat_sub_of_le _ _ h
  have hle := UInt32.le_iff_toNat_le.mp h
  rw [fileLeft, Bool.or_eq_true, Bool.and_eq_true, decide_eq_true_eq, decide_eq_true_eq,
    decide_eq_true_eq, UInt32.lt_iff_toNat_lt, UInt32.le_iff_toNat_le, UInt32.lt_iff_toNat_lt,
    hdiff]
  omega

end ThreadingCtrl

/-! ### The threads behind the queue -/

section Accounted

variable {ω : Type*} (alive : ω → Bool)

/-- The queue is as long as there are threads that have not left it. -/
def Accounted (c : ThreadingCtrl) (workers : List ω) : Prop :=
  c.threadqueue.length = workers.countP alive

variable {alive} {c c' : ThreadingCtrl} {workers : List ω} {i : ℕ} {w w' : ω}

theorem accounted_created (h : Accounted alive c workers) (hw : alive w) (thId : ℕ) :
    Accounted alive (c.threadCreatingInfo thId 0) (workers ++ [w]) := by
  rw [Accounted, ThreadingCtrl.threadqueue_created, List.length_append, h, List.countP_append,
    List.countP_singleton, if_pos hw]
  rfl

theorem countP_set_same (hi : workers[i]? = some w) (hw : alive w' = alive w) :
    (workers.set i w').countP alive = workers.countP alive := by
  obtain ⟨hlt, rfl⟩ := List.getElem?_eq_some_iff.mp hi
  have hpos : alive workers[i] → 0 < workers.countP alive := fun ha =>
    List.countP_pos_iff.mpr ⟨workers[i], List.getElem_mem hlt, ha⟩
  rw [List.countP_set hlt, hw]
  split_ifs with ha
  · have hlt' := hpos ha
    omega
  · rfl

theorem accounted_moved (h : Accounted alive c workers) (hi : workers[i]? = some w)
    (hw : alive w' = alive w) (hc : c'.threadqueue = c.threadqueue) :
    Accounted alive c' (workers.set i w') := by
  rw [Accounted, hc, countP_set_same hi hw]
  exact h

theorem queue_ne_nil (h : Accounted alive c workers) (hi : workers[i]? = some w) (hw : alive w) :
    c.threadqueue ≠ [] := by
  intro hnil
  have hpos : 0 < workers.countP alive :=
    List.countP_pos_iff.mpr ⟨w, List.mem_of_getElem? hi, hw⟩
  rw [Accounted, hnil, List.length_nil] at h
  omega

theorem accounted_left (h : Accounted alive c workers) (hi : workers[i]? = some w)
    (hw : alive w) (hw' : alive w' = false) :
    Accounted alive { c with threadqueue := c.threadqueue.tail } (workers.set i w') := by
  obtain ⟨hlt, rfl⟩ := List.getElem?_eq_some_iff.mp hi
  rw [Accounted, List.length_tail, h, List.countP_set hlt, hw, hw']
  rfl

end Accounted

end LearningDirectory
