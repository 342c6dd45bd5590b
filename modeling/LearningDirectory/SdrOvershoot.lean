import LearningDirectory.SdrMessages
import Mathlib.Tactic.Ring

/-! `my_sdr` in message mode, when workers leave the queue between the reads of a permission:
how many more than `MSG_AMOUNT` of them are created at most. -/
namespace LearningDirectory
open StepRun

/-- With `k` workers too many, so many messages are counted: a worker beyond the limit is
created only after one more has left the queue than the last time. -/
def Paid (created count : ℕ) : Prop := ∀ k, created = 100+k → 180 + k*(k+1) ≤ 2*count

/-- While main has the permission, more than `k` workers have left since it read `msg_count`. -/
def OvertakenBy (created popped : ℕ) : Prop :=
  ∀ k, created = 100+k → ∃ m, m < 100 ∧ 180 + k*(k+1) ≤ 2*m ∧ m+k+1 ≤ popped

structure Overshoot (s : SdrThreads) : Prop where
  message : s.thCtrl.isfile = false
  amount : s.thCtrl.msgAmount = sdrMsgAmount
  max : s.thCtrl.maxThread = 10
  created : s.workers.length ≤ 104
  count : s.msgCount.toNat = s.workers.countP SdrWorker.reported
  paid : Paid s.workers.length s.msgCount.toNat
  read : ∀ msgCount, s.main = .amount msgCount → Paid s.workers.length msgCount.toNat
  permitted : s.main = .queue ∨ s.main = .create → OvertakenBy s.workers.length s.popped

theorem paid_mono {created count count' : ℕ} (h : Paid created count) (hle : count ≤ count') :
    Paid created count' := by
  intro k hk
  have hpaid := h k hk
  omega

theorem overtakenBy_mono {created popped popped' : ℕ} (h : OvertakenBy created popped)
    (hle : popped ≤ popped') : OvertakenBy created popped' := by
  intro k hk
  obtain ⟨m, hm, hpaid, hover⟩ := h k hk
  exact ⟨m, hm, hpaid, hover.trans hle⟩

theorem popped_moveTo {s : SdrThreads} {i : ℕ} {w : SdrWorker} (hi : s.workers[i]? = some w)
    (hw : w ≠ .exited) (w' : SdrWorker) : s.popped ≤ (s.moveTo i w').popped := by
  obtain ⟨hlt, he⟩ := List.getElem?_eq_some_iff.mp hi
  rw [SdrThreads.popped, SdrThreads.popped, SdrThreads.moveTo, List.countP_set hlt, he,
    if_neg (by simpa using hw)]
  exact Nat.le_add_right _ _

/-- What a worker does to the two numbers: no one comes back to the queue, and a report is
counted. -/
theorem worker_counts {s t : SdrThreads} {a : SdrStep} (hmsg : s.thCtrl.isfile = false)
    (he : WorkerEffect s a t) :
    s.popped ≤ t.popped ∧
      (t.msgCount = s.msgCount ∧
        t.workers.countP SdrWorker.reported = s.workers.countP SdrWorker.reported ∨
      t.msgCount = s.msgCount+1 ∧
        t.workers.countP SdrWorker.reported = s.workers.countP SdrWorker.reported + 1) := by
  have hfile : ¬ s.thCtrl.isfile = true := Bool.eq_false_iff.mp hmsg
  cases he with
  | failed i hi =>
    rw [SdrThreads.fail, if_neg hfile]
    exact ⟨Nat.le_refl _, Or.inl ⟨rfl, rfl⟩⟩
  | sentByte i result hi hisfile => exact absurd hisfile hfile
  | sent i result hi hm =>
    exact ⟨popped_moveTo hi (by simp) _, Or.inl ⟨rfl, countP_set_same hi rfl⟩⟩
  | eof i hi hisfile => exact absurd hisfile hfile
  | report i hi =>
    obtain ⟨hlt, hw⟩ := List.getElem?_eq_some_iff.mp hi
    have hcount : (s.workers.set i .closing).countP SdrWorker.reported =
        s.workers.countP SdrWorker.reported + 1 := by
      rw [List.countP_set hlt, hw]
      rfl
    have hsame : ¬ (s.moveTo i .closing).thCtrl.isfile = true := hfile
    rw [SdrThreads.reportDone, if_neg hsame]
    exact ⟨popped_moveTo hi (by simp) _, Or.inr ⟨rfl, hcount⟩⟩
  | close i hi =>
    exact ⟨popped_moveTo hi (by simp) _, Or.inl ⟨rfl, countP_set_same hi rfl⟩⟩
  | exit i c hi hc =>
    exact ⟨popped_moveTo hi (by simp) _, Or.inl ⟨rfl, countP_set_same hi rfl⟩⟩

theorem overshoot_worker {s t : SdrThreads} {a : SdrStep} (h : Overshoot s)
    (he : WorkerEffect s a t) : Overshoot t := by
  have hframe := worker_frame he
  obtain ⟨hpopped, hcounts⟩ := worker_counts h.message he
  have hle := List.countP_le_length (p := SdrWorker.reported) (l := s.workers)
  have hcreated := h.created
  have hcount : t.msgCount.toNat = t.workers.countP SdrWorker.reported ∧
      s.msgCount.toNat ≤ t.msgCount.toNat := by
    rcases hcounts with ⟨hmsg, hsame⟩ | ⟨hmsg, hone⟩
    · rw [hmsg, hsame]
      exact ⟨h.count, Nat.le_refl _⟩
    · -- the count stays small, so the addition does not wrap
      have hadd : (s.msgCount+1).toNat = s.msgCount.toNat+1 := by
        have hcount := h.count
        calc (s.msgCount+1).toNat = (s.msgCount.toNat+1) % 2^32 := UInt32.toNat_add _ _
          _ = s.msgCount.toNat+1 := Nat.mod_eq_of_lt (by omega)
      rw [hmsg, hone, hadd, h.count]
      exact ⟨rfl, Nat.le_succ _⟩
  refine ⟨hframe.isfile.trans h.message, hframe.msgAmount.trans h.amount,
    hframe.maxThread.trans h.max, ?_, hcount.1, ?_, ?_, ?_⟩
  · rw [hframe.created]
    exact h.created
  · rw [hframe.created]
    exact paid_mono h.paid hcount.2
  · rw [hframe.created, hframe.main]
    exact h.read
  · rw [hframe.created, hframe.main]
    exact fun hp => overtakenBy_mono (h.permitted hp) hpopped

/-- With `k` workers too many, the first comparison passes only when the queue has become
shorter than it was. -/
theorem overtaken_of_amountLeft {s : SdrThreads} (h : Overshoot s)
    (hqueue : Accounted SdrWorker.alive s.thCtrl s.workers) {msgCount : UInt32}
    (hread : Paid s.workers.length msgCount.toNat)
    (hleft : s.thCtrl.amountLeft msgCount = true) : OvertakenBy s.workers.length s.popped := by
  rw [ThreadingCtrl.amountLeft, h.amount, decide_eq_true_eq] at hleft
  have hleft : msgCount.toNat + s.thCtrl.threadqueue.length < 100 := hleft
  have hsum := queue_add_popped hqueue
  intro k hk
  refine ⟨msgCount.toNat, by omega, hread k hk, by omega⟩

theorem overshoot_created {s : SdrThreads} (h : Overshoot s) (hb : SdrBounded s)
    (hmain : s.main = .create) (thId : ℕ) :
    Overshoot
      { s with
        main := .test
        thCtrl := s.thCtrl.threadCreatingInfo thId 0
        workers := s.workers ++ [.sending] } := by
  have hover := h.permitted (Or.inr hmain)
  have hsum := queue_add_popped hb.queue
  have hroom : s.thCtrl.threadqueue.length < 10 := by
    have hlt := hb.permitted hmain
    rw [h.max] at hlt
    exact hlt
  have hpopped : s.popped ≤ s.msgCount.toNat := h.count ▸ popped_le_reported s
  have hlimit : s.workers.length ≤ 103 := by
    by_contra hfull
    have hle := h.created
    obtain ⟨m, hm, hpaid, -⟩ := hover 4 (by omega)
    omega
  have hpaid : Paid (s.workers.length+1) s.msgCount.toNat := by
    intro k hk
    cases k with
    | zero => omega
    | succ k =>
      obtain ⟨m, -, hpaid, hmore⟩ := hover k (by omega)
      have hnext : (k+1)*(k+1+1) = k*(k+1) + 2*(k+1) := by ring
      omega
  have hlen : (s.workers ++ [SdrWorker.sending]).length = s.workers.length+1 := List.length_append
  refine ⟨?_, ?_, ?_, ?_, ?_, ?_, nofun, ?_⟩
  · rw [ThreadingCtrl.threadCreatingInfo_isfile]
    exact h.message
  · rw [ThreadingCtrl.threadCreatingInfo_msgAmount]
    exact h.amount
  · rw [ThreadingCtrl.threadCreatingInfo_maxThread]
    exact h.max
  · rw [hlen]
    omega
  · rw [List.countP_append]
    exact h.count
  · rw [hlen]
    exact hpaid
  · rintro (hx | hx) <;> cases hx

theorem overshoot_step {s t : SdrThreads} {a : SdrStep} (h : Overshoot s) (hb : SdrBounded s)
    (hs : sdrStep s a = some t) : Overshoot t := by
  obtain ⟨-, he⟩ := sdrStep_effect hs
  cases he with
  | main p hp =>
    refine ⟨h.message, h.amount, h.max, h.created, h.count, h.paid, ?_, ?_⟩
    · intro msgCount (hread : p = .amount msgCount)
      subst hread
      cases mainMove hp with
      | amount hmain => exact h.paid
    · intro (hperm : p = .queue ∨ p = .create)
      cases mainMove hp with
      | queue msgCount hmain hmsg hleft =>
        have hover : OvertakenBy s.workers.length s.popped :=
          overtaken_of_amountLeft h hb.queue (h.read msgCount hmain) hleft
        exact hover
      | createMsg hmain hfree => exact h.permitted (Or.inl hmain)
      | createFile hfile hleft => exact absurd (h.message.symm.trans hfile) (by decide)
      | amount | test | call | returned => rcases hperm with hq | hq <;> cases hq
  | created thId hmain => exact overshoot_created h hb hmain thId
  | refused thId errId hmain herr =>
    refine ⟨h.message, h.amount, h.max, h.created, h.count, h.paid, nofun, ?_⟩
    rintro (hx | hx) <;> cases hx
  | worker _ _ hw => exact overshoot_worker h hw

theorem overshoot_start : Overshoot (sdrStart false) where
  message := rfl
  amount := rfl
  max := rfl
  created := Nat.zero_le _
  count := rfl
  paid k hk := by
    change 0 = 100+k at hk
    omega
  read := nofun
  permitted := by rintro (hx | hx) <;> cases hx

/-- `n` workers, from the `i`-th on, leave between the two reads of a permission. -/
def overtaken (i n : ℕ) : List SdrStep :=
  [.main, .main] ++ (List.range n).flatMap (fun j => workerRun (i+j)) ++ [.main, .main, .create 0 0]

/-- 90 workers come and go, ten more are created, and then each permission is overtaken by one
worker more than the last. -/
def overshootRun : List SdrStep :=
  (List.range 90).flatMap (fun i => createOne ++ workerRun i) ++
    (List.range 10).flatMap (fun _ => createOne) ++
    overtaken 90 1 ++ overtaken 91 2 ++ overtaken 93 3 ++ overtaken 96 4

/-- The step is not a `send` that fails. -/
def SdrStep.Succeeds : SdrStep → Prop
  | .send _ result => result ≠ -1
  | _ => True

instance decidableSucceeds : (a : SdrStep) → Decidable a.Succeeds
  | .send _ result => inferInstanceAs (Decidable (result ≠ -1))
  | .main | .create _ _ | .eof _ | .report _ | .close _ | .exit _ => isTrue trivial

/-- However the threads take turns, `my_sdr` creates at most four workers more than there are
messages; and four it can be, with every `send` successful. -/
theorem overshoot_four :
    (∀ as s, run sdrStep (sdrStart false) as = some s →
      s.workers.length ≤ sdrMsgAmount.toNat+4) ∧
    ∃ as s, (∀ a ∈ as, a.Succeeds) ∧ run sdrStep (sdrStart false) as = some s ∧
      s.workers.length = sdrMsgAmount.toNat+4 := by
  constructor
  · intro as s h
    have hover : Overshoot s :=
      run_invariant sdrStep (I := fun _ s => Overshoot s) overshoot_start
        (fun _ _ _ _ hr hi hs => overshoot_step hi (sdr_bounded hr) hs) h
    exact hover.created
  · have hcreated : (run sdrStep (sdrStart false) overshootRun).map (fun s => s.workers.length) =
        some 104 := by decide +kernel
    obtain ⟨s, hs, hlen⟩ := Option.map_eq_some_iff.mp hcreated
    exact ⟨overshootRun, s, by decide +kernel, hs, hlen⟩

end LearningDirectory
