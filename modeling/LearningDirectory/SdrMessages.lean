import LearningDirectory.SdrThreads

/-! `my_sdr` in message mode: how many workers it starts, and the socket that they share. -/
namespace LearningDirectory
open StepRun

/-! ### The limit -/

/-- The workers that have left the queue. -/
def SdrThreads.popped (s : SdrThreads) : ℕ := s.workers.countP (· = .exited)

/-- With all workers created, main compares `msg_count` as it has read it with a queue that
no more of them have left than that. -/
def NoLateExit (s : SdrThreads) (a : SdrStep) : Prop :=
  match a, s.main with
  | .main, .amount msgCount =>
    s.workers.length = sdrMsgAmount.toNat → s.popped ≤ msgCount.toNat
  | _, _ => True

instance decidableNoLateExit (s : SdrThreads) (a : SdrStep) : Decidable (NoLateExit s a) := by
  unfold NoLateExit
  split <;> infer_instance

/-- In message mode, and not beyond the limit; while main holds the permission, below it. -/
structure WithinLimit (s : SdrThreads) : Prop where
  queue : Accounted SdrWorker.alive s.thCtrl s.workers
  message : s.thCtrl.isfile = false
  amount : s.thCtrl.msgAmount = sdrMsgAmount
  max : s.thCtrl.maxThread = 10
  created : s.workers.length ≤ sdrMsgAmount.toNat
  permitted : s.main = .queue ∨ s.main = .create → s.workers.length < sdrMsgAmount.toNat

theorem queue_add_popped {s : SdrThreads} (h : Accounted SdrWorker.alive s.thCtrl s.workers) :
    s.thCtrl.threadqueue.length + s.popped = s.workers.length := by
  have hpopped : s.popped = s.workers.countP fun w => ¬ w.alive = true := by
    apply List.countP_congr
    intro w _
    cases w <;> decide
  calc s.thCtrl.threadqueue.length + s.popped
      = s.workers.countP SdrWorker.alive + s.workers.countP fun w => ¬ w.alive = true := by
        rw [h, hpopped]
    _ = s.workers.length := (List.length_eq_countP_add_countP _).symm

/-- The first comparison passes only while a worker is left to be created. -/
theorem created_of_amountLeft {s : SdrThreads} (h : WithinLimit s) {msgCount : UInt32}
    (hpopped : s.workers.length = sdrMsgAmount.toNat → s.popped ≤ msgCount.toNat)
    (hleft : s.thCtrl.amountLeft msgCount = true) :
    s.workers.length < sdrMsgAmount.toNat := by
  rw [ThreadingCtrl.amountLeft, h.amount, decide_eq_true_eq] at hleft
  have hsum := queue_add_popped h.queue
  have hle := h.created
  by_contra hnot
  have hall : s.workers.length = sdrMsgAmount.toNat := by omega
  have hlate := hpopped hall
  omega

theorem within_mainNext {s : SdrThreads} {p : SdrMain} (h : WithinLimit s)
    (ha : NoLateExit s .main) (hp : MainMove s p) (hperm : p = .queue ∨ p = .create) :
    s.workers.length < sdrMsgAmount.toNat := by
  cases hp with
  | queue msgCount hmain hmsg hleft =>
    simp only [NoLateExit, hmain] at ha
    exact created_of_amountLeft h ha hleft
  | createMsg hmain hfree => exact h.permitted (Or.inl hmain)
  | createFile hfile hleft => exact absurd (h.message.symm.trans hfile) (by decide)
  | amount | test | call | returned => rcases hperm with hq | hq <;> cases hq

theorem within_step {s t : SdrThreads} {a : SdrStep} (h : WithinLimit s) (ha : NoLateExit s a)
    (hs : sdrStep s a = some t) : WithinLimit t := by
  obtain ⟨-, he⟩ := sdrStep_effect hs
  have hqueue := accounted_step h.queue he
  cases he with
  | main p hp =>
    have hperm := within_mainNext h ha (mainMove hp)
    exact ⟨hqueue, h.message, h.amount, h.max, h.created, hperm⟩
  | created thId hmain =>
    -- this is what the permission was for
    have hlt := h.permitted (Or.inr hmain)
    refine ⟨hqueue, ?_, ?_, ?_, ?_, ?_⟩
    · rw [ThreadingCtrl.threadCreatingInfo_isfile]
      exact h.message
    · rw [ThreadingCtrl.threadCreatingInfo_msgAmount]
      exact h.amount
    · rw [ThreadingCtrl.threadCreatingInfo_maxThread]
      exact h.max
    · rw [List.length_append]
      exact hlt
    · rintro (hx | hx) <;> cases hx
  | refused thId errId hmain herr =>
    refine ⟨hqueue, h.message, h.amount, h.max, h.created, ?_⟩
    rintro (hx | hx) <;> cases hx
  | worker _ _ hw =>
    have hframe := worker_frame hw
    refine ⟨hqueue, hframe.isfile.trans h.message, hframe.msgAmount.trans h.amount,
      hframe.maxThread.trans h.max, ?_, ?_⟩
    · rw [hframe.created]
      exact h.created
    · rw [hframe.main, hframe.created]
      exact h.permitted

theorem within_start : WithinLimit (sdrStart false) where
  queue := rfl
  message := rfl
  amount := rfl
  max := rfl
  created := Nat.zero_le _
  permitted := by rintro (hx | hx) <;> cases hx

/-- In a run in which no worker leaves the queue between the two reads that the permission
compares near the limit, `my_sdr` creates no more workers than there are messages. -/
theorem created_le_amount (as : List SdrStep) (s : SdrThreads)
    (h : run sdrStep (sdrStart false) as = some s)
    (hg : Guarded sdrStep NoLateExit (sdrStart false) as) :
    s.workers.length ≤ sdrMsgAmount.toNat := by
  have hwithin : WithinLimit s :=
    run_rule sdrStep (I := fun _ s => WithinLimit s) within_start
      (fun _ _ _ _ _ hi ha hs => within_step hi ha hs) hg h
  exact hwithin.created

def createOne : List SdrStep := [.main, .main, .main, .main, .create 0 0]

def workerRun (i : ℕ) : List SdrStep := [.send i 15, .report i, .close i, .exit i]

/-- 99 workers come and go one after another, and while the last one is about to send, main is
refused another. -/
def refusedRun : List SdrStep :=
  (List.range 99).flatMap (fun i => createOne ++ workerRun i) ++ createOne ++ [.main, .main, .main]

theorem hundred_workers_within :
    ∃ s, run sdrStep (sdrStart false) refusedRun = some s ∧ s.main = .test ∧
      s.msgCount = 99 ∧ s.workers.length ≤ sdrMsgAmount.toNat := by
  have hrun : ∃ s ∈ run sdrStep (sdrStart false) refusedRun, s.main = .test ∧ s.msgCount = 99 := by
    decide +kernel
  obtain ⟨s, hs, hmain, hcount⟩ := hrun
  exact ⟨s, hs, hmain, hcount, created_le_amount refusedRun s hs (by decide +kernel)⟩

/-- 99 workers come and go one after another. Then main creates the last one and reads
`msg_count` once more; before it reads the queue, that worker is done. -/
def lateExitRun : List SdrStep :=
  (List.range 99).flatMap (fun i => createOne ++ workerRun i) ++ createOne ++
    [.main, .main] ++ workerRun 99 ++ [.main, .main, .create 0 0]

theorem late_exit_creates_more :
    ¬ ∀ (as : List SdrStep) (s : SdrThreads), run sdrStep (sdrStart false) as = some s →
      s.workers.length ≤ sdrMsgAmount.toNat := by
  intro h
  have hcreated : (run sdrStep (sdrStart false) lateExitRun).map (fun s => s.workers.length) =
      some 101 := by decide +kernel
  obtain ⟨s, hs, hlen⟩ := Option.map_eq_some_iff.mp hcreated
  have hle := h lateExitRun s hs
  rw [hlen] at hle
  exact absurd hle (by decide)

/-- The workers whose message `msg_count` counts. -/
def SdrWorker.reported : SdrWorker → Bool
  | .closing | .exiting | .exited => true
  | _ => false

/-- Within the limit `msg_count` is exact, and main has read it when no more than ten of the
workers created had not reported. -/
structure CountRead (s : SdrThreads) : Prop where
  within : WithinLimit s
  count : s.msgCount.toNat = s.workers.countP SdrWorker.reported
  read : ∀ msgCount, s.main = .amount msgCount → s.workers.length ≤ msgCount.toNat + 10

theorem popped_le_reported (s : SdrThreads) :
    s.popped ≤ s.workers.countP SdrWorker.reported := by
  apply List.countP_mono_left
  intro w _ hw
  obtain rfl : w = .exited := of_decide_eq_true hw
  rfl

theorem count_worker {s t : SdrThreads} {a : SdrStep} (h : CountRead s)
    (he : WorkerEffect s a t) : t.msgCount.toNat = t.workers.countP SdrWorker.reported := by
  have hsame {i : ℕ} {w w' : SdrWorker} (hi : s.workers[i]? = some w)
      (hw : w'.reported = w.reported) :
      s.msgCount.toNat = (s.workers.set i w').countP SdrWorker.reported :=
    h.count.trans (countP_set_same hi hw).symm
  cases he with
  | failed i hi =>
    unfold SdrThreads.fail
    split_ifs <;> exact h.count
  | sentByte i result hi hfile => exact h.count
  | sent i result hi hmsg => exact hsame hi rfl
  | eof i hi hfile => exact hsame hi rfl
  | report i hi =>
    obtain ⟨hlt, hw⟩ := List.getElem?_eq_some_iff.mp hi
    have hcount : (s.workers.set i .closing).countP SdrWorker.reported =
        s.workers.countP SdrWorker.reported + 1 := by
      rw [List.countP_set hlt, hw]
      rfl
    -- the count stays below the limit, so the addition does not wrap
    have hle := List.countP_le_length (p := SdrWorker.reported) (l := s.workers.set i .closing)
    have hcreated : s.workers.length ≤ 100 := h.within.created
    rw [List.length_set, hcount, ← h.count] at hle
    have hmsg : (s.moveTo i .closing).thCtrl.isfile = false := h.within.message
    rw [SdrThreads.reportDone, if_neg (Bool.eq_false_iff.mp hmsg)]
    calc (s.msgCount+1).toNat = (s.msgCount.toNat+1) % 2^32 := UInt32.toNat_add _ _
      _ = s.msgCount.toNat+1 := Nat.mod_eq_of_lt (by omega)
      _ = (s.workers.set i .closing).countP SdrWorker.reported := by rw [hcount, h.count]
  | close i hi => exact hsame hi rfl
  | exit i c hi hc => exact hsame hi rfl

theorem read_of_call {s : SdrThreads} (h : CountRead s) (hb : SdrBounded s) :
    s.workers.length ≤ s.msgCount.toNat + 10 := by
  have hqueue : s.thCtrl.threadqueue.length ≤ 10 := by
    have hle := hb.bound
    rw [h.within.max] at hle
    exact hle
  calc s.workers.length = s.thCtrl.threadqueue.length + s.popped :=
        (queue_add_popped h.within.queue).symm
    _ ≤ 10 + s.workers.countP SdrWorker.reported := Nat.add_le_add hqueue (popped_le_reported s)
    _ = s.msgCount.toNat + 10 := by rw [h.count, Nat.add_comm]

theorem countRead_step {s t : SdrThreads} {a : SdrStep} (h : CountRead s) (hb : SdrBounded s)
    (ha : NoLateExit s a) (hs : sdrStep s a = some t) : CountRead t := by
  have hwithin := within_step h.within ha hs
  obtain ⟨-, he⟩ := sdrStep_effect hs
  cases he with
  | main p hp =>
    refine ⟨hwithin, h.count, fun msgCount (hread : p = .amount msgCount) => ?_⟩
    subst hread
    change s.workers.length ≤ msgCount.toNat + 10
    cases mainMove hp with
    | amount hmain => exact read_of_call h hb
  | created thId hmain =>
    refine ⟨hwithin, ?_, nofun⟩
    rw [List.countP_append]
    exact h.count
  | refused thId errId hmain herr => exact ⟨hwithin, h.count, nofun⟩
  | worker _ _ hw =>
    refine ⟨hwithin, count_worker h hw, ?_⟩
    rw [(worker_frame hw).main, (worker_frame hw).created]
    exact h.read

/-- The guard leaves out nothing but the defect: once main compares too small a count, it
goes on to create one worker too many. -/
theorem late_exit_exceeds {as : List SdrStep} {s : SdrThreads}
    (h : run sdrStep (sdrStart false) as = some s)
    (hg : Guarded sdrStep NoLateExit (sdrStart false) as) (hlive : s.ended = false)
    (hlate : ¬ NoLateExit s .main) :
    ∃ t, run sdrStep s [.main, .main, .create 0 0] = some t ∧
      t.workers.length = sdrMsgAmount.toNat + 1 := by
  have hcount : CountRead s :=
    run_rule sdrStep (I := fun _ s => CountRead s) ⟨within_start, rfl, nofun⟩
      (fun _ _ _ _ hr hi ha hs => countRead_step hi (sdr_bounded hr) ha hs) hg h
  obtain ⟨msgCount, hmain⟩ : ∃ msgCount, s.main = .amount msgCount := by
    cases hm : s.main with
    | amount msgCount => exact ⟨msgCount, rfl⟩
    | test | call | queue | create | returned =>
      exact absurd (by simp only [NoLateExit, hm]) hlate
  simp only [NoLateExit, hmain, Classical.not_imp, Nat.not_le] at hlate
  obtain ⟨hall, hpopped⟩ := hlate
  have hread := hcount.read msgCount hmain
  have hsum := queue_add_popped hcount.within.queue
  have hamount : sdrMsgAmount.toNat = 100 := rfl
  have hleft : s.thCtrl.amountLeft msgCount = true := by
    rw [ThreadingCtrl.amountLeft, hcount.within.amount, decide_eq_true_eq]
    omega
  have hfree : s.thCtrl.queueFree = true := by
    have hmax : s.thCtrl.maxThread.toNat = 10 := congrArg UInt32.toNat hcount.within.max
    rw [ThreadingCtrl.queueFree, hmax, decide_eq_true_eq]
    omega
  have hmsg : ¬ s.thCtrl.isfile = true := Bool.eq_false_iff.mp hcount.within.message
  -- main goes on alone: the first comparison, the second, and the creation
  have hfirst : sdrStep s .main = some { s with main := .queue, ended := false } := by
    simp [sdrStep, SdrThreads.mainNext, hmain, hmsg, hlive, hleft]
  have hsecond : sdrStep { s with main := .queue, ended := false } .main =
      some { s with main := .create, ended := false } := by
    simp [sdrStep, SdrThreads.mainNext, hfree]
  refine ⟨{ s with main := .test, thCtrl := s.thCtrl.threadCreatingInfo 0 0,
                   workers := s.workers ++ [.sending], ended := false }, ?_, ?_⟩
  · rw [run_cons, hfirst, Option.bind_some, run_cons, hsecond, Option.bind_some]
    rfl
  · rw [List.length_append, hall]
    rfl

/-! ### The socket -/

/-- A worker whose turn it is to send finds the socket open. -/
def SendsOnOpen (s : SdrThreads) : SdrStep → Prop
  | .send i _ => s.workers[i]? = some .sending → s.sockOpen = true
  | _ => True

/-- A worker that closes the socket is the last that uses it: no other is still to send, and
none is created later. -/
def ClosesLast (s : SdrThreads) : SdrStep → Prop
  | .close i => s.workers[i]? = some .closing → .sending ∉ s.workers
  | .create _ errId => errId = 0 → s.sockOpen = true
  | _ => True

instance decidableSendsOnOpen (s : SdrThreads) (a : SdrStep) : Decidable (SendsOnOpen s a) := by
  cases a <;> unfold SendsOnOpen <;> infer_instance

instance decidableClosesLast (s : SdrThreads) (a : SdrStep) : Decidable (ClosesLast s a) := by
  cases a <;> unfold ClosesLast <;> infer_instance

/-- In message mode, with no worker left to send once the socket is closed. -/
structure NoneToSend (s : SdrThreads) : Prop where
  message : s.thCtrl.isfile = false
  closed : s.sockOpen = false → .sending ∉ s.workers

/-- A worker is left that will send on the closed socket. -/
structure SendOwed (s : SdrThreads) : Prop where
  message : s.thCtrl.isfile = false
  closed : s.sockOpen = false
  owed : .sending ∈ s.workers

theorem not_sending_moveTo {s : SdrThreads} {w : SdrWorker} (hw : w ≠ .sending) (i : ℕ)
    (h : .sending ∉ s.workers) : .sending ∉ (s.moveTo i w).workers := by
  intro hmem
  rcases List.mem_or_eq_of_mem_set hmem with hold | heq
  · exact h hold
  · exact hw heq.symm

theorem sending_moveTo {s : SdrThreads} {i : ℕ} {w w' : SdrWorker}
    (hi : s.workers[i]? = some w) (hw : w ≠ .sending) (h : .sending ∈ s.workers) :
    .sending ∈ (s.moveTo i w').workers := by
  obtain ⟨j, hj⟩ := List.mem_iff_getElem?.mp h
  have hne : i ≠ j := by
    rintro rfl
    exact hw (Option.some.inj (hi.symm.trans hj))
  apply List.mem_of_getElem? (i := j)
  rw [SdrThreads.moveTo, List.getElem?_set_ne hne]
  exact hj

theorem isfile_step {s t : SdrThreads} {a : SdrStep} (he : SdrEffect s a t) :
    t.thCtrl.isfile = s.thCtrl.isfile := by
  cases he with
  | main p hp => rfl
  | created thId hmain => exact ThreadingCtrl.threadCreatingInfo_isfile _ _ _
  | refused thId errId hmain herr => rfl
  | worker _ _ hw => exact (worker_frame hw).isfile

theorem fail_sockOpen (s : SdrThreads) : s.fail.sockOpen = s.sockOpen := by
  unfold SdrThreads.fail
  split_ifs <;> rfl

theorem fail_workers (s : SdrThreads) : s.fail.workers = s.workers := by
  unfold SdrThreads.fail
  split_ifs <;> rfl

theorem reportDone_sockOpen (s : SdrThreads) : s.reportDone.sockOpen = s.sockOpen := by
  unfold SdrThreads.reportDone
  split_ifs <;> rfl

theorem reportDone_workers (s : SdrThreads) : s.reportDone.workers = s.workers := by
  unfold SdrThreads.reportDone
  split_ifs <;> rfl

/-- No worker begins to send again, and only `close` closes the socket. -/
theorem noneToSend_worker {s t : SdrThreads} {a : SdrStep} (h : NoneToSend s)
    (ha : ClosesLast s a) (he : WorkerEffect s a t) :
    t.sockOpen = false → .sending ∉ t.workers := by
  cases he with
  | failed i hi =>
    rw [fail_sockOpen, fail_workers]
    exact h.closed
  | sentByte i result hi hfile => exact h.closed
  | sent i result hi hmsg => exact fun hc => not_sending_moveTo (by decide) i (h.closed hc)
  | eof i hi hfile => exact fun hc => not_sending_moveTo (by decide) i (h.closed hc)
  | report i hi =>
    rw [reportDone_sockOpen, reportDone_workers]
    exact fun hc => not_sending_moveTo (by decide) i (h.closed hc)
  | close i hi => exact fun _ => not_sending_moveTo (by decide) i (ha hi)
  | exit i c hi hc => exact fun hc => not_sending_moveTo (by decide) i (h.closed hc)

theorem noneToSend_step {s t : SdrThreads} {a : SdrStep} (h : NoneToSend s)
    (ha : ClosesLast s a) (hs : sdrStep s a = some t) : NoneToSend t := by
  obtain ⟨-, he⟩ := sdrStep_effect hs
  refine ⟨(isfile_step he).trans h.message, ?_⟩
  cases he with
  | main p hp => exact h.closed
  | created thId hmain =>
    have hopen : s.sockOpen = true := ha rfl
    intro (hc : s.sockOpen = false)
    rw [hopen] at hc
    cases hc
  | refused thId errId hmain herr => exact h.closed
  | worker _ _ hw => exact noneToSend_worker h ha hw

/-- A step that `ClosesLast` does not admit leaves a worker with no socket to send on. -/
theorem owed_of_not_last {s t : SdrThreads} {a : SdrStep} (h : NoneToSend s)
    (ha : ¬ ClosesLast s a) (hs : sdrStep s a = some t) : SendOwed t := by
  obtain ⟨-, he⟩ := sdrStep_effect hs
  have hmsg := (isfile_step he).trans h.message
  cases he with
  | main p hp => exact absurd trivial ha
  | created thId hmain =>
    refine ⟨hmsg, ?_, List.mem_append_right _ (List.mem_singleton_self _)⟩
    apply Bool.eq_false_iff.mpr
    intro hopen
    exact ha fun _ => hopen
  | refused thId errId hmain herr => exact absurd (fun h0 => absurd h0 herr) ha
  | worker _ _ hw =>
    cases hw with
    | close i hi =>
      have hmem : .sending ∈ s.workers := by
        by_contra hno
        exact ha fun _ => hno
      exact ⟨hmsg, rfl, sending_moveTo hi nofun hmem⟩
    | failed | sentByte | sent | eof | report | exit => exact absurd trivial ha

/-- It is still left after every step that is not its own. -/
theorem owed_step {s t : SdrThreads} {a : SdrStep} (h : SendOwed s) (ha : SendsOnOpen s a)
    (hs : sdrStep s a = some t) : SendOwed t := by
  have hno {i : ℕ} (hi : s.workers[i]? = some .sending)
      (ha : s.workers[i]? = some .sending → s.sockOpen = true) : False :=
    Bool.false_ne_true (h.closed.symm.trans (ha hi))
  obtain ⟨-, he⟩ := sdrStep_effect hs
  have hmsg := (isfile_step he).trans h.message
  cases he with
  | main p hp => exact ⟨hmsg, h.closed, h.owed⟩
  | created thId hmain => exact ⟨hmsg, h.closed, List.mem_append_left _ h.owed⟩
  | refused thId errId hmain herr => exact ⟨hmsg, h.closed, h.owed⟩
  | worker _ _ hw =>
    cases hw with
    | failed i hi => exact (hno hi ha).elim
    | sentByte i result hi hfile => exact (hno hi ha).elim
    | sent i result hi hm => exact (hno hi ha).elim
    | eof i hi hfile => exact absurd (h.message.symm.trans hfile) (by decide)
    | report i hi =>
      refine ⟨hmsg, ?_, ?_⟩
      · rw [reportDone_sockOpen]
        exact h.closed
      · rw [reportDone_workers]
        exact sending_moveTo hi nofun h.owed
    | close i hi => exact ⟨hmsg, rfl, sending_moveTo hi nofun h.owed⟩
    | exit i c hi hc => exact ⟨hmsg, h.closed, sending_moveTo hi nofun h.owed⟩

theorem noneToSend_start : NoneToSend (sdrStart false) := ⟨rfl, nofun⟩

/-- No worker sends on the closed socket when each that closes it is the last to use it; and
only then, in a run at whose end no worker is still to send. -/
theorem sends_on_open_iff (as : List SdrStep) :
    (Guarded sdrStep ClosesLast (sdrStart false) as →
      Guarded sdrStep SendsOnOpen (sdrStart false) as) ∧
    ∀ s, run sdrStep (sdrStart false) as = some s → .sending ∉ s.workers →
      Guarded sdrStep SendsOnOpen (sdrStart false) as →
      Guarded sdrStep ClosesLast (sdrStart false) as := by
  constructor
  · refine guarded_mono sdrStep (I := NoneToSend) ?_ ?_ noneToSend_start
    · intro s a h ha
      cases a with
      | send i result =>
        intro hi
        by_contra hclosed
        apply h.closed (Bool.eq_false_iff.mpr hclosed)
        exact List.mem_of_getElem? hi
      | main | create | eof | report | close | exit => trivial
    · exact fun _ _ _ h ha hs => noneToSend_step h ha hs
  · intro s hr hend
    refine guarded_of_settled sdrStep (I := NoneToSend) (B := SendOwed) ?_ ?_ ?_
      noneToSend_start hr (fun h => hend h.owed)
    · exact fun _ _ _ h ha hs => noneToSend_step h ha hs
    · exact fun _ _ _ h ha hs => owed_of_not_last h ha hs
    · exact fun _ _ _ h ha hs => owed_step h ha hs

/-- Two workers send, and then each closes the socket. -/
def bothSend : List SdrStep :=
  createOne ++ createOne ++
    [.send 0 15, .send 1 15, .report 0, .close 0, .report 1, .close 1, .exit 0, .exit 1]

theorem both_send_on_open :
    ∃ s, run sdrStep (sdrStart false) bothSend = some s ∧
      Guarded sdrStep SendsOnOpen (sdrStart false) bothSend :=
  ⟨_, rfl, (sends_on_open_iff bothSend).1 (by decide)⟩

/-- Of two workers the first is done before the second sends. -/
theorem second_sends_on_closed :
    ¬ ∀ as : List SdrStep, Guarded sdrStep SendsOnOpen (sdrStart false) as := by
  intro h
  exact absurd (h (createOne ++ createOne ++ [.send 0 15, .report 0, .close 0, .send 1 (-1)]))
    (by decide)

end LearningDirectory
