import LearningDirectory.FileTransfer

/-! `my_sdr` and `my_rcvr` in file mode: what the destination holds at any moment, and that the
two threads that move the bytes come to their end. -/
namespace LearningDirectory
open FileStream StepRun

/-! ### The destination -/

/-- The destination has a part of what it is to have: all but the outstanding bytes, or less
once its stream is spoilt. -/
structure PartWritten (initial total : Bytes) (s : Transfer) : Prop where
  phases : PhaseOk s
  old : initial <+: s.rcvr.content
  part : s.rcvr.content <+: total
  kept : s.rcvr.good → s.rcvr.content ++ outstanding s = total

theorem partWritten_start (source initial : Bytes) :
    PartWritten initial (initial ++ source) (transferStart source initial) where
  phases := (intact_start source initial).phases
  old := List.prefix_refl initial
  part := List.prefix_append initial source
  kept _ := rfl

theorem partWritten_step {initial total : Bytes} {s t : Transfer} {a : Call}
    (h : PartWritten initial total s) (ht : transferStep s a = some t) :
    PartWritten initial total t := by
  obtain ⟨hok, ⟨hout, hcontent, hgood⟩ | ⟨b, hout, hw⟩ | ⟨-, -, -, hout, hcontent, hgood⟩⟩ :=
    transferStep_effect h.phases ht
  · refine ⟨hok, hcontent ▸ h.old, hcontent ▸ h.part, fun hg => ?_⟩
    rw [hcontent, hout]
    exact h.kept (hgood ▸ hg)
  · cases hgood : s.rcvr.good with
    | true =>
      obtain ⟨hcontent, -⟩ := write_good hgood b
      -- the next byte of the total is the one that is written
      have hkept : t.rcvr.content ++ outstanding t = total := by
        rw [hw, hcontent, List.append_assoc, List.singleton_append, ← hout]
        exact h.kept hgood
      refine ⟨hok, ?_, ⟨outstanding t, hkept⟩, fun _ => hkept⟩
      rw [hw, hcontent]
      exact h.old.trans (List.prefix_append _ _)
    | false =>
      obtain ⟨hcontent, hbad⟩ := write_bad hgood b
      rw [← hw] at hcontent hbad
      refine ⟨hok, hcontent ▸ h.old, hcontent ▸ h.part, fun hg => ?_⟩
      exact absurd (hg.symm.trans hbad) (by decide)
  · refine ⟨hok, hcontent ▸ h.old, hcontent ▸ h.part, fun hg => ?_⟩
    exact absurd (hg.symm.trans hgood) (by decide)

/-- However the four threads take turns, the destination is at every moment its initial content
followed by the first bytes of the source, none of them twice or out of order. -/
theorem destination_is_prefix (source initial : Bytes) (as : List Call) (s : Transfer)
    (h : run transferStep (transferStart source initial) as = some s) :
    ∃ sent, sent <+: source ∧ s.rcvr.content = initial ++ sent := by
  have hpart : PartWritten initial (initial ++ source) s :=
    run_invariant transferStep (I := fun _ s => PartWritten initial (initial ++ source) s)
      (partWritten_start source initial) (fun _ _ _ _ _ hi hs => partWritten_step hi hs) h
  obtain ⟨sent, hsent⟩ := hpart.old
  refine ⟨sent, ?_, hsent.symm⟩
  apply (List.prefix_append_right_inj initial).mp
  rw [hsent]
  exact hpart.part

theorem one_byte_is_prefix :
    ∃ s, run transferStep (transferStart [7] [1, 2]) oneByteCalls = some s ∧
      ∃ sent, sent <+: [7] ∧ s.rcvr.content = [1, 2] ++ sent :=
  ⟨_, rfl, destination_is_prefix [7] [1, 2] oneByteCalls _ rfl⟩

/-! ### The end of the transfer -/

def Call.worker : Call → Bool
  | .sendingThread => true
  | .receivingThread => true
  | _ => false

def Sending.stepsLeft (rest : ℕ) : Sending → ℕ
  | .peek => 3*rest+3
  | .read => 3*rest+2
  | .send _ => 3*rest+4
  | .finish => 2
  | .close => 1
  | .exited => 0

def Receiving.stepsLeft : Receiving → ℕ
  | .recv => 2
  | .write _ => 3
  | .finish => 1
  | .exited => 0
  | .failed => 0

/-- A bound on the steps that the two threads still have to make: three for a byte to be sent,
two for one to be received, and those that announce the end. -/
def stepsLeft (s : Transfer) : ℕ :=
  s.sending.stepsLeft s.sdr.rest.length + s.receiving.stepsLeft +
    2*(s.net.length + s.sending.buffer.length + s.sdr.rest.length)

theorem stepsLeft_sending {s t : Transfer} (h : PhaseOk s) (ht : sendingStep s = some t) :
    stepsLeft t < stepsLeft s := by
  rw [sendingStep] at ht
  cases hs : s.sending with
  | peek =>
    rw [hs] at ht
    cases ht
    simp only [stepsLeft, hs, peek_rest]
    split_ifs <;> simp only [Sending.stepsLeft, Sending.buffer, List.length_nil] <;> omega
  | read =>
    rw [hs] at ht
    have hrest := h.ahead hs
    obtain ⟨b, bs, hb⟩ := List.exists_cons_of_ne_nil hrest
    obtain ⟨hread, hbs⟩ := read_next (h.good_of_rest hrest) hb
    rw [hread] at ht
    cases ht
    simp only [stepsLeft, hs, hbs, hb, Sending.stepsLeft, Sending.buffer, List.length_cons,
      List.length_nil]
    omega
  | send b =>
    rw [hs] at ht
    cases ht
    simp only [stepsLeft, hs, Sending.stepsLeft, Sending.buffer, List.length_append,
      List.length_cons, List.length_nil]
    omega
  | finish =>
    rw [hs] at ht
    cases ht
    simp only [stepsLeft, hs, Sending.stepsLeft, Sending.buffer]
    omega
  | close =>
    rw [hs] at ht
    cases ht
    simp only [stepsLeft, hs, Sending.stepsLeft, Sending.buffer]
    omega
  | exited =>
    rw [hs] at ht
    cases ht

theorem stepsLeft_receiving {s t : Transfer} (ht : receivingStep s = some t) :
    stepsLeft t < stepsLeft s := by
  rw [receivingStep] at ht
  cases hr : s.receiving with
  | recv =>
    rw [hr] at ht
    cases hnet : s.net with
    | nil =>
      rw [hnet] at ht
      dsimp only at ht
      split_ifs at ht
      cases ht
      simp only [stepsLeft, hr, hnet, Receiving.stepsLeft, List.length_nil]
      omega
    | cons b net =>
      rw [hnet] at ht
      cases ht
      simp only [stepsLeft, hr, hnet, Receiving.stepsLeft, List.length_cons]
      omega
  | write b =>
    rw [hr] at ht
    cases ht
    simp only [stepsLeft, hr, Receiving.stepsLeft]
    omega
  | finish =>
    rw [hr] at ht
    cases ht
    simp only [stepsLeft, hr, Receiving.stepsLeft]
    omega
  | exited | failed =>
    rw [hr] at ht
    cases ht

/-- Both threads announce their end before they exit. -/
structure Announced (s : Transfer) : Prop where
  phases : PhaseOk s
  sent : s.sending = .exited → s.closed = true
  received : s.receiving = .exited → s.filefinished = true

/-- The other calls leave the positions of the two threads, or end the sending one. -/
theorem stepsLeft_poll {s t : Transfer} {a : Call} (ha : a.worker = false)
    (ht : transferStep s a = some t) : stepsLeft t ≤ stepsLeft s := by
  cases a with
  | sendingThread | receivingThread => cases ha
  | sdrMain =>
    obtain ⟨⟨p, f⟩, hp, ht⟩ := Option.map_eq_some_iff.mp ht
    obtain ⟨-, hrest, -⟩ := poll_file hp
    dsimp only at ht
    split_ifs at ht
    · cases ht
      simp only [stepsLeft, hrest, Sending.stepsLeft, Sending.buffer, List.length_nil]
      omega
    · cases ht
      simp only [stepsLeft, hrest]
      exact Nat.le_refl _
  | rcvrMain =>
    rw [transferStep, rcvrMainStep] at ht
    split_ifs at ht
    obtain ⟨⟨p, f⟩, -, rfl⟩ := Option.map_eq_some_iff.mp ht
    exact Nat.le_refl _
  | recvError =>
    rw [transferStep] at ht
    split_ifs at ht with hr
    cases ht
    simp only [stepsLeft, hr, Receiving.stepsLeft]
    omega

theorem announced_step {s t : Transfer} {a : Call} (h : Announced s)
    (ht : transferStep s a = some t) : Announced t := by
  obtain ⟨hok, -⟩ := transferStep_effect h.phases ht
  cases a with
  | sendingThread =>
    rw [transferStep, sendingStep] at ht
    cases hs : s.sending with
    | peek =>
      rw [hs] at ht
      cases ht
      refine ⟨hok, fun hx => ?_, h.received⟩
      dsimp only at hx
      split_ifs at hx
    | read | send | finish =>
      rw [hs] at ht
      cases ht
      exact ⟨hok, (fun hx => by cases hx), h.received⟩
    | close =>
      rw [hs] at ht
      cases ht
      exact ⟨hok, fun _ => rfl, h.received⟩
    | exited =>
      rw [hs] at ht
      cases ht
  | sdrMain =>
    obtain ⟨⟨p, f⟩, -, ht⟩ := Option.map_eq_some_iff.mp ht
    dsimp only at ht
    split_ifs at ht
    · cases ht
      exact ⟨hok, fun _ => rfl, h.received⟩
    · cases ht
      exact ⟨hok, h.sent, h.received⟩
  | receivingThread =>
    rw [transferStep, receivingStep] at ht
    cases hr : s.receiving with
    | recv =>
      rw [hr] at ht
      cases hnet : s.net with
      | nil =>
        rw [hnet] at ht
        dsimp only at ht
        split_ifs at ht
        cases ht
        exact ⟨hok, h.sent, fun hx => by cases hx⟩
      | cons b net =>
        rw [hnet] at ht
        cases ht
        exact ⟨hok, h.sent, fun hx => by cases hx⟩
    | write b =>
      rw [hr] at ht
      cases ht
      exact ⟨hok, h.sent, fun hx => by cases hx⟩
    | finish =>
      rw [hr] at ht
      cases ht
      exact ⟨hok, h.sent, fun _ => rfl⟩
    | exited | failed =>
      rw [hr] at ht
      cases ht
  | rcvrMain =>
    rw [transferStep, rcvrMainStep] at ht
    split_ifs at ht
    obtain ⟨⟨p, f⟩, -, rfl⟩ := Option.map_eq_some_iff.mp ht
    exact ⟨hok, h.sent, h.received⟩
  | recvError =>
    rw [transferStep] at ht
    split_ifs at ht
    cases ht
    exact ⟨hok, h.sent, fun hx => by cases hx⟩

/-- One of the two threads can go on until the receiver has announced the end. -/
theorem worker_enabled {s : Transfer} (h : Announced s) (hfail : s.receiving ≠ .failed)
    (hopen : s.filefinished = false) :
    ∃ a t, a.worker = true ∧ transferStep s a = some t := by
  by_cases hsent : s.sending = .exited
  · -- the receiving thread has a byte to receive or finds the socket closed
    have hclosed := h.sent hsent
    refine ⟨.receivingThread, ?_⟩
    rw [transferStep, receivingStep]
    cases hr : s.receiving with
    | recv =>
      cases hnet : s.net with
      | nil => exact ⟨_, rfl, if_pos hclosed⟩
      | cons b net => exact ⟨_, rfl, rfl⟩
    | write b => exact ⟨_, rfl, rfl⟩
    | finish => exact ⟨_, rfl, rfl⟩
    | exited => exact absurd ((h.received hr).symm.trans hopen) (by decide)
    | failed => exact absurd hr hfail
  · refine ⟨.sendingThread, ?_⟩
    rw [transferStep, sendingStep]
    cases hs : s.sending with
    | peek => exact ⟨_, rfl, rfl⟩
    | read => exact ⟨_, rfl, rfl⟩
    | send b => exact ⟨_, rfl, rfl⟩
    | finish => exact ⟨_, rfl, rfl⟩
    | close => exact ⟨_, rfl, rfl⟩
    | exited => exact absurd hs hsent

theorem notFailed_step {s t : Transfer} {a : Call} (ha : a.worker = true)
    (hs : s.receiving ≠ .failed) (ht : transferStep s a = some t) : t.receiving ≠ .failed := by
  cases a with
  | sdrMain | rcvrMain | recvError => cases ha
  | sendingThread =>
    have hsame : t.receiving = s.receiving := by
      rw [transferStep, sendingStep] at ht
      cases hp : s.sending <;> rw [hp] at ht <;> cases ht <;> rfl
    rw [hsame]
    exact hs
  | receivingThread =>
    rw [transferStep, receivingStep] at ht
    cases hr : s.receiving with
    | recv =>
      rw [hr] at ht
      cases hnet : s.net with
      | nil =>
        rw [hnet] at ht
        dsimp only at ht
        split_ifs at ht
        cases ht
        exact fun hx => by cases hx
      | cons b net =>
        rw [hnet] at ht
        cases ht
        exact fun hx => by cases hx
    | write b =>
      rw [hr] at ht
      cases ht
      exact fun hx => by cases hx
    | finish =>
      rw [hr] at ht
      cases ht
      exact fun hx => by cases hx
    | exited | failed =>
      rw [hr] at ht
      cases ht

theorem stepsLeft_step {s t : Transfer} {a : Call} (h : PhaseOk s)
    (ht : transferStep s a = some t) : stepsLeft t + (if a.worker then 1 else 0) ≤ stepsLeft s := by
  cases ha : a.worker with
  | false =>
    rw [if_neg Bool.false_ne_true]
    exact stepsLeft_poll ha ht
  | true =>
    rw [if_pos rfl]
    cases a with
    | sendingThread => exact stepsLeft_sending h ht
    | receivingThread => exact stepsLeft_receiving ht
    | sdrMain | rcvrMain | recvError => cases ha

theorem announced_start (source initial : Bytes) : Announced (transferStart source initial) := by
  refine ⟨(intact_start source initial).phases, ?_, ?_⟩
  · intro hx
    cases hx
  · intro hx
    cases hx

theorem stepsLeft_start (source initial : Bytes) :
    stepsLeft (transferStart source initial) = 5*source.length+5 := by
  have hrest : (transferStart source initial).sdr.rest = source := rfl
  rw [stepsLeft, hrest]
  simp only [transferStart, Sending.stepsLeft, Receiving.stepsLeft, Sending.buffer, List.length_nil]
  omega

/-- In every run the two threads make at most five steps a byte and five more, and wherever it
is, as long as no `recv` has failed, they can bring the transfer to its end within them. -/
theorem transfer_ends (source initial : Bytes) (as : List Call) (s : Transfer)
    (h : run transferStep (transferStart source initial) as = some s) :
    as.countP Call.worker ≤ 5*source.length+5 ∧
      (s.receiving ≠ .failed → ∃ bs t, (∀ a ∈ bs, a.worker) ∧
        as.countP Call.worker + bs.length ≤ 5*source.length+5 ∧
        run transferStep s bs = some t ∧ t.filefinished = true) := by
  have hcount : as.countP Call.worker + stepsLeft s ≤ 5*source.length+5 := by
    rw [← stepsLeft_start source initial]
    refine run_counted transferStep (G := fun _ _ => True) (I := PhaseOk) ?_
      (announced_start source initial).phases (fun _ _ => trivial) h
    intro u a v hu _ hv
    exact ⟨(transferStep_effect hu hv).1, stepsLeft_step hu hv⟩
  have hann : Announced s :=
    run_invariant transferStep (I := fun _ s => Announced s) (announced_start source initial)
      (fun _ _ _ _ _ hi hs => announced_step hi hs) h
  have hdrain (u : Transfer) (hu : Announced u ∧ u.receiving ≠ .failed)
      (hopen : ¬ u.filefinished = true) :
      ∃ a v, a.worker = true ∧ transferStep u a = some v ∧
        (Announced v ∧ v.receiving ≠ .failed) ∧ stepsLeft v < stepsLeft u := by
    obtain ⟨a, v, ha, hv⟩ := worker_enabled hu.1 hu.2 (Bool.eq_false_iff.mpr hopen)
    have hlt := stepsLeft_step hu.1.phases hv
    rw [if_pos ha] at hlt
    exact ⟨a, v, ha, hv, ⟨announced_step hu.1 hv, notFailed_step ha hu.2 hv⟩, hlt⟩
  refine ⟨by omega, fun hfail => ?_⟩
  obtain ⟨bs, t, hg, hr, -, hend, hle⟩ :=
    run_reaches transferStep (G := fun _ a => a.worker = true) hdrain ⟨hann, hfail⟩
  exact ⟨bs, t, forall_of_guarded transferStep hr hg, by omega, hr, hend⟩

theorem one_byte_ends :
    ∃ s, run transferStep (transferStart [7] []) [.sendingThread, .rcvrMain] = some s ∧
      [Call.sendingThread, .rcvrMain].countP Call.worker ≤ 5*1+5 ∧
      ∃ bs t, (∀ a ∈ bs, a.worker) ∧
        [Call.sendingThread, .rcvrMain].countP Call.worker + bs.length ≤ 5*1+5 ∧
        run transferStep s bs = some t ∧ t.filefinished = true := by
  obtain ⟨hcount, hend⟩ := transfer_ends [7] [] [.sendingThread, .rcvrMain] _ rfl
  exact ⟨_, rfl, hcount, hend (by decide)⟩

end LearningDirectory
