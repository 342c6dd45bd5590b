import LearningDirectory.Bytes
import LearningDirectory.FileStream
import LearningDirectory.StepRun

/-! `my_sdr` and `my_rcvr` in file mode, with one stream call at a time: in each program
the thread that moves the bytes and the main thread that polls use the same stream. -/
namespace LearningDirectory
open FileStream StepRun

/-- Where a main thread is in its loop; `routinecheck` makes three calls of `tellg`. -/
inductive Polling
  | test
  | peek
  | tellg (left : ℕ)
  | returned
deriving DecidableEq

inductive Sending
  | peek
  | read
  | send (sendbuff : Byte)
  | finish
  | close
  | exited
deriving DecidableEq

inductive Receiving
  | recv
  | write (recvbuff : Byte)
  | finish
  | exited
  | failed
deriving DecidableEq

structure Transfer where
  sdr : FStream Byte
  sending : Sending := .peek
  sdrMain : Polling := .test
  sdrFinished : Bool := false
  /-- the bytes sent and not yet received, and whether the sender has closed the socket -/
  net : Bytes := []
  closed : Bool := false
  rcvr : FStream Byte
  receiving : Receiving := .recv
  rcvrMain : Polling := .test
  filefinished : Bool := false

/-- Who makes the next call; the last one is a `recv` that reports -1. -/
inductive Call
  | sendingThread
  | sdrMain
  | receivingThread
  | rcvrMain
  | recvError
deriving DecidableEq

/-- A main thread's next call on the stream it polls; `stop` is what ends its loop. -/
def poll (stop : Bool) (f : FStream Byte) : Polling → Option (Polling × FStream Byte)
  | .test => some (if stop then .returned else .peek, f)
  | .peek => some (if f.peek.1.isSome then .tellg 3 else .test, f.peek.2)
  | .tellg 0 => some (.test, f)
  | .tellg (left+1) => some (.tellg left, f.tellg)
  | .returned => none

def sendingStep (s : Transfer) : Option Transfer :=
  match s.sending with
  | .peek =>
    -- `while(f_ctrl.filecontent.peek()!= EOF)`
    let r := s.sdr.peek
    some { s with sdr := r.2, sending := if r.1.isSome then .read else .finish }
  | .read =>
    -- `bzero` has left a zero in the buffer
    let r := s.sdr.read
    some { s with sdr := r.2, sending := .send (r.1.getD 0) }
  | .send sendbuff => some { s with net := s.net ++ [sendbuff], sending := .peek }
  | .finish => some { s with sdrFinished := true, sending := .close }
  | .close => some { s with closed := true, sending := .exited }
  | .exited => none

/-- The return from `main` ends the sending thread and closes its socket. -/
def sdrMainStep (s : Transfer) : Option Transfer :=
  (poll s.sdrFinished s.sdr s.sdrMain).map fun r =>
    if r.1 = .returned then
      { s with sdrMain := r.1, sdr := r.2, sending := .exited, closed := true }
    else { s with sdrMain := r.1, sdr := r.2 }

/-- `recv` waits while there is neither a byte nor the end of the stream. -/
def receivingStep (s : Transfer) : Option Transfer :=
  match s.receiving with
  | .recv =>
    match s.net with
    | b :: net => some { s with net := net, receiving := .write b }
    -- 0 at the end of the stream ends the loop
    | [] => if s.closed then some { s with receiving := .finish } else none
  | .write recvbuff => some { s with rcvr := s.rcvr.write recvbuff, receiving := .recv }
  | .finish => some { s with filefinished := true, receiving := .exited }
  | .exited => none
  | .failed => none

/-- The loop of the receiver's main thread has no end but that of the process. -/
def rcvrMainStep (s : Transfer) : Option Transfer :=
  if s.receiving = .failed then none
  else (poll false s.rcvr s.rcvrMain).map fun r => { s with rcvrMain := r.1, rcvr := r.2 }

def transferStep (s : Transfer) : Call → Option Transfer
  | .sendingThread => sendingStep s
  | .sdrMain => sdrMainStep s
  | .receivingThread => receivingStep s
  | .rcvrMain => rcvrMainStep s
  | .recvError => if s.receiving = .recv then some { s with receiving := .failed } else none

/-- Both constructors of `filectrl` have gone back to the start of their files. -/
def transferStart (source initial : Bytes) : Transfer where
  sdr := { content := source }
  rcvr := { content := initial }

/-! ### The bytes on their way -/

def Sending.buffer : Sending → Bytes
  | .send sendbuff => [sendbuff]
  | _ => []

def Receiving.buffer : Receiving → Bytes
  | .write recvbuff => [recvbuff]
  | _ => []

/-- The source bytes that are still to be written, the next one first. -/
def outstanding (s : Transfer) : Bytes :=
  s.receiving.buffer ++ s.net ++ s.sending.buffer ++ s.sdr.rest

/-- The receiver's main thread does not poll at the end of its file while bytes are still
to be written there. -/
def NoEarlyEof (s : Transfer) : Call → Prop
  | .rcvrMain => s.rcvrMain = .peek → s.rcvr.rest = [] → outstanding s = []
  | _ => True

instance decidableNoEarlyEof (s : Transfer) : (a : Call) → Decidable (NoEarlyEof s a)
  | .sendingThread => isTrue trivial
  | .sdrMain => isTrue trivial
  | .receivingThread => isTrue trivial
  | .rcvrMain => inferInstanceAs (Decidable (s.rcvrMain = .peek → s.rcvr.rest = [] →
      outstanding s = []))
  | .recvError => isTrue trivial

def Sending.done : Sending → Bool
  | .finish => true
  | .close => true
  | .exited => true
  | _ => false

/-- The sender loses nothing: it stops, or finds its stream spoilt, only at the end of the
source, and `filefinished` is set only when the receiver has all that was sent. -/
structure PhaseOk (s : Transfer) : Prop where
  ahead : s.sending = .read → s.sdr.rest ≠ []
  spoilt : s.sdr.good = false → s.sdr.rest = []
  done : s.sending.done → s.sdr.rest = []
  finished : s.sdrFinished → s.sending.done
  closed : s.closed → s.sending.done
  drained : s.receiving = .finish ∨ s.filefinished → s.closed ∧ s.net = [] ∧ s.receiving.buffer = []

/-- A step that neither moves a byte into the destination nor spoils its stream. -/
structure Quiet (s t : Transfer) : Prop where
  outstanding : outstanding t = outstanding s
  content : t.rcvr.content = s.rcvr.content
  good : t.rcvr.good = s.rcvr.good

/-- Before the sending loop has ended, neither program has announced anything. -/
structure Running (s : Transfer) : Prop where
  finished : s.sdrFinished = false
  closed : s.closed = false
  drained : ¬ (s.receiving = .finish ∨ s.filefinished)

theorem PhaseOk.running {s : Transfer} (h : PhaseOk s) (hd : s.sending.done = false) :
    Running s := by
  have hclosed : s.closed = false :=
    Bool.eq_false_iff.mpr fun hc => Bool.false_ne_true (hd.symm.trans (h.closed hc))
  refine ⟨Bool.eq_false_iff.mpr fun hf => ?_, hclosed, fun hr => ?_⟩
  · exact Bool.false_ne_true (hd.symm.trans (h.finished hf))
  · exact Bool.false_ne_true (hclosed.symm.trans (h.drained hr).1)

theorem Running.phaseOk {s : Transfer} (h : Running s) (hahead : s.sending = .read → s.sdr.rest ≠ [])
    (hspoilt : s.sdr.good = false → s.sdr.rest = []) (hdone : s.sending.done → s.sdr.rest = []) :
    PhaseOk s where
  ahead := hahead
  spoilt := hspoilt
  done := hdone
  finished hf := absurd (h.finished.symm.trans hf) Bool.false_ne_true
  closed hc := absurd (h.closed.symm.trans hc) Bool.false_ne_true
  drained hr := absurd hr h.drained

/-- No poll can have spoilt the stream while there is a byte ahead. -/
theorem PhaseOk.good_of_rest {s : Transfer} (h : PhaseOk s) (hrest : s.sdr.rest ≠ []) :
    s.sdr.good := by
  by_contra hbad
  apply hrest
  exact h.spoilt (Bool.eq_false_iff.mpr hbad)

theorem PhaseOk.rest_of_eof {s : Transfer} (h : PhaseOk s) (heof : ¬ s.sdr.peek.1.isSome) :
    s.sdr.rest = [] := by
  by_contra hrest
  have hgood := h.good_of_rest hrest
  apply heof
  exact (peek_isSome _).mpr ⟨hgood, hrest⟩

theorem sendingStep_ok {s t : Transfer} (h : PhaseOk s) (ht : sendingStep s = some t) :
    PhaseOk t ∧ Quiet s t := by
  rw [sendingStep] at ht
  cases hs : s.sending with
  | peek =>
    rw [hs] at ht
    have hrun : Running s := h.running (by rw [hs]; rfl)
    by_cases hb : s.sdr.peek.1.isSome
    · obtain ⟨hgood, hrest⟩ := (peek_isSome _).mp hb
      simp only [hb, if_true] at ht
      cases ht
      refine ⟨Running.phaseOk ⟨hrun.finished, hrun.closed, hrun.drained⟩ ?_ ?_ ?_, ?_, rfl, rfl⟩
      · intro _
        exact (peek_rest _).symm ▸ hrest
      · intro hbad
        exact absurd (((peek_good _).mpr ⟨hgood, hrest⟩).symm.trans hbad) (by decide)
      · intro hx
        cases hx
      · simp [outstanding, peek_rest, hs, Sending.buffer]
    · have hrest : s.sdr.peek.2.rest = [] := (peek_rest _).trans (h.rest_of_eof hb)
      simp only [hb, Bool.false_eq_true, if_false] at ht
      cases ht
      refine ⟨Running.phaseOk ⟨hrun.finished, hrun.closed, hrun.drained⟩ ?_ ?_ ?_, ?_, rfl, rfl⟩
      · intro hx
        cases hx
      · exact fun _ => hrest
      · exact fun _ => hrest
      · simp [outstanding, peek_rest, hs, Sending.buffer]
  | read =>
    rw [hs] at ht
    have hrun : Running s := h.running (by rw [hs]; rfl)
    have hrest := h.ahead hs
    have hgood := h.good_of_rest hrest
    obtain ⟨b, bs, hb⟩ := List.exists_cons_of_ne_nil hrest
    obtain ⟨hread, hbs⟩ := read_next hgood hb
    rw [hread] at ht
    cases ht
    refine ⟨Running.phaseOk ⟨hrun.finished, hrun.closed, hrun.drained⟩ ?_ ?_ ?_, ?_, rfl, rfl⟩
    · intro hx
      cases hx
    · intro hbad
      exact absurd (hgood.symm.trans hbad) (by decide)
    · intro hx
      cases hx
    · simp only [outstanding, hbs, hs, hb, Sending.buffer, Option.getD_some]
      simp
  | send b =>
    rw [hs] at ht
    have hrun : Running s := h.running (by rw [hs]; rfl)
    cases ht
    refine ⟨Running.phaseOk ⟨hrun.finished, hrun.closed, hrun.drained⟩ ?_ h.spoilt ?_, ?_, rfl, rfl⟩
    · intro hx
      cases hx
    · intro hx
      cases hx
    · simp [outstanding, hs, Sending.buffer]
  | finish =>
    rw [hs] at ht
    have hrest : s.sdr.rest = [] := h.done (by rw [hs]; rfl)
    cases ht
    refine ⟨⟨?_, h.spoilt, fun _ => hrest, fun _ => rfl, fun _ => rfl, h.drained⟩, ?_, rfl, rfl⟩
    · intro hx
      cases hx
    · simp [outstanding, hs, Sending.buffer]
  | close =>
    rw [hs] at ht
    have hrest : s.sdr.rest = [] := h.done (by rw [hs]; rfl)
    cases ht
    refine ⟨⟨?_, h.spoilt, fun _ => hrest, fun _ => rfl, fun _ => rfl, ?_⟩, ?_, rfl, rfl⟩
    · intro hx
      cases hx
    · exact fun hr => ⟨rfl, (h.drained hr).2⟩
    · simp [outstanding, hs, Sending.buffer]
  | exited =>
    rw [hs] at ht
    cases ht

/-- The other calls of a polling thread leave the file, and the state of its stream unless
they `peek` at the end. -/
theorem poll_file {stop : Bool} {f f' : FStream Byte} {p p' : Polling}
    (h : poll stop f p = some (p', f')) :
    f'.content = f.content ∧ f'.rest = f.rest ∧
      (f'.good ↔ f.good ∧ (p = .peek → f.rest ≠ [])) := by
  cases p with
  | test =>
    cases h
    exact ⟨rfl, rfl, by simp⟩
  | peek =>
    cases h
    exact ⟨peek_content f, peek_rest f, by simp [peek_good]⟩
  | tellg left =>
    cases left with
    | zero =>
      cases h
      exact ⟨rfl, rfl, by simp⟩
    | succ left =>
      cases h
      exact ⟨tellg_content f, tellg_rest f, by simp [tellg_good]⟩
  | returned => cases h

theorem poll_returned {stop : Bool} {f f' : FStream Byte} {p : Polling}
    (h : poll stop f p = some (.returned, f')) : stop = true := by
  cases p with
  | test =>
    cases stop with
    | true => rfl
    | false => cases h
  | peek =>
    by_cases hb : f.peek.1.isSome
    · simp [poll, hb] at h
    · simp [poll, hb] at h
  | tellg left => cases left <;> cases h
  | returned => cases h

theorem buffer_of_done {p : Sending} (h : p.done) : p.buffer = [] := by
  cases p with
  | send b => cases h
  | peek => rfl
  | read => rfl
  | finish => rfl
  | close => rfl
  | exited => rfl

theorem sdrMainStep_ok {s t : Transfer} (h : PhaseOk s) (ht : sdrMainStep s = some t) :
    PhaseOk t ∧ Quiet s t := by
  rw [sdrMainStep] at ht
  obtain ⟨⟨p, f⟩, hp, ht⟩ := Option.map_eq_some_iff.mp ht
  obtain ⟨-, hrest, hgood⟩ := poll_file hp
  have hspoilt (hbad : f.good = false) : f.rest = [] := by
    rw [hrest]
    by_contra hne
    have hf : f.good := hgood.mpr ⟨h.good_of_rest hne, fun _ => hne⟩
    exact Bool.false_ne_true (hbad.symm.trans hf)
  dsimp only at ht
  split_ifs at ht with hret
  · subst hret
    cases ht
    -- `filefinished` was set, so the thread that is ended had nothing left to send
    have hdone := h.finished (poll_returned hp)
    refine ⟨⟨?_, hspoilt, ?_, fun _ => rfl, fun _ => rfl, ?_⟩, ?_, rfl, rfl⟩
    · intro hx
      cases hx
    · exact fun _ => hrest.trans (h.done hdone)
    · exact fun hr => ⟨rfl, (h.drained hr).2⟩
    · simp only [outstanding, hrest, buffer_of_done hdone, buffer_of_done (p := .exited) rfl]
  · cases ht
    refine ⟨⟨?_, hspoilt, ?_, h.finished, h.closed, h.drained⟩, ?_, rfl, rfl⟩
    · exact fun hr => hrest.symm ▸ h.ahead hr
    · exact fun hd => hrest.trans (h.done hd)
    · simp only [outstanding, hrest]

theorem receivingStep_ok {s t : Transfer} (h : PhaseOk s) (ht : receivingStep s = some t) :
    PhaseOk t ∧
      (Quiet s t ∨ ∃ b, outstanding s = b :: outstanding t ∧ t.rcvr = s.rcvr.write b) := by
  rw [receivingStep] at ht
  cases hr : s.receiving with
  | recv =>
    rw [hr] at ht
    cases hnet : s.net with
    | nil =>
      rw [hnet] at ht
      dsimp only at ht
      split_ifs at ht with hclosed
      cases ht
      refine ⟨⟨h.ahead, h.spoilt, h.done, h.finished, h.closed, ?_⟩, Or.inl ⟨?_, rfl, rfl⟩⟩
      · exact fun _ => ⟨hclosed, rfl, rfl⟩
      · simp [outstanding, hr, hnet, Receiving.buffer]
    | cons b net =>
      rw [hnet] at ht
      cases ht
      refine ⟨⟨h.ahead, h.spoilt, h.done, h.finished, h.closed, ?_⟩, Or.inl ⟨?_, rfl, rfl⟩⟩
      · rintro (hx | hx)
        · cases hx
        · have hempty := (h.drained (Or.inr hx)).2.1
          rw [hnet] at hempty
          cases hempty
      · simp [outstanding, hr, hnet, Receiving.buffer]
  | write b =>
    rw [hr] at ht
    cases ht
    refine ⟨⟨h.ahead, h.spoilt, h.done, h.finished, h.closed, ?_⟩, Or.inr ⟨b, ?_, rfl⟩⟩
    · rintro (hx | hx)
      · cases hx
      · have hempty := (h.drained (Or.inr hx)).2.2
        rw [hr] at hempty
        cases hempty
    · simp [outstanding, hr, Receiving.buffer]
  | finish =>
    rw [hr] at ht
    obtain ⟨hclosed, hnet, -⟩ := h.drained (Or.inl hr)
    cases ht
    refine ⟨⟨h.ahead, h.spoilt, h.done, h.finished, h.closed, ?_⟩, Or.inl ⟨?_, rfl, rfl⟩⟩
    · exact fun _ => ⟨hclosed, hnet, rfl⟩
    · simp [outstanding, hr, Receiving.buffer]
  | exited =>
    rw [hr] at ht
    cases ht
  | failed =>
    rw [hr] at ht
    cases ht

theorem rcvrMainStep_ok {s t : Transfer} (h : PhaseOk s) (ht : rcvrMainStep s = some t) :
    PhaseOk t ∧ outstanding t = outstanding s ∧ t.rcvr.content = s.rcvr.content ∧
      (t.rcvr.good ↔ s.rcvr.good ∧ (s.rcvrMain = .peek → s.rcvr.rest ≠ [])) := by
  rw [rcvrMainStep] at ht
  split_ifs at ht
  obtain ⟨⟨p, f⟩, hp, rfl⟩ := Option.map_eq_some_iff.mp ht
  obtain ⟨hcontent, -, hgood⟩ := poll_file hp
  exact ⟨⟨h.ahead, h.spoilt, h.done, h.finished, h.closed, h.drained⟩, rfl, hcontent, hgood⟩

theorem recvError_ok {s t : Transfer} (h : PhaseOk s) (ht : transferStep s .recvError = some t) :
    PhaseOk t ∧ Quiet s t := by
  rw [transferStep] at ht
  split_ifs at ht with hr
  cases ht
  refine ⟨⟨h.ahead, h.spoilt, h.done, h.finished, h.closed, ?_⟩, ?_, rfl, rfl⟩
  · rintro (hx | hx)
    · cases hx
    · exact ⟨(h.drained (Or.inr hx)).1, (h.drained (Or.inr hx)).2.1, rfl⟩
  · simp [outstanding, hr, Receiving.buffer]

/-- What a step does to the destination. -/
inductive StepEffect (s : Transfer) (a : Call) (t : Transfer) : Prop
  | quiet (h : Quiet s t)
  | write (b : Byte) (hout : outstanding s = b :: outstanding t) (hw : t.rcvr = s.rcvr.write b)
  | spoil (ha : a = .rcvrMain) (hpeek : s.rcvrMain = .peek) (hend : s.rcvr.rest = [])
      (hout : outstanding t = outstanding s) (hcontent : t.rcvr.content = s.rcvr.content)
      (hgood : t.rcvr.good = false)

theorem transferStep_effect {s t : Transfer} {a : Call} (h : PhaseOk s)
    (ht : transferStep s a = some t) : PhaseOk t ∧ StepEffect s a t := by
  cases a with
  | sendingThread => exact (sendingStep_ok h ht).imp_right .quiet
  | sdrMain => exact (sdrMainStep_ok h ht).imp_right .quiet
  | receivingThread =>
    obtain ⟨hok, hquiet | ⟨b, hout, hw⟩⟩ := receivingStep_ok h ht
    · exact ⟨hok, .quiet hquiet⟩
    · exact ⟨hok, .write b hout hw⟩
  | rcvrMain =>
    obtain ⟨hok, hout, hcontent, hgood⟩ := rcvrMainStep_ok h ht
    refine ⟨hok, ?_⟩
    by_cases hend : s.rcvrMain = .peek ∧ s.rcvr.rest = []
    · refine .spoil rfl hend.1 hend.2 hout hcontent (Bool.eq_false_iff.mpr fun ht => ?_)
      exact (hgood.mp ht).2 hend.1 hend.2
    · refine .quiet ⟨hout, hcontent, Bool.eq_iff_iff.mpr (hgood.trans (and_iff_left ?_))⟩
      exact fun hpeek hrest => hend ⟨hpeek, hrest⟩
  | recvError => exact (recvError_ok h ht).imp_right .quiet

/-- Nothing is lost so far, and the stream is good while bytes are to be written. -/
structure Intact (total : Bytes) (s : Transfer) : Prop where
  phases : PhaseOk s
  kept : s.rcvr.content ++ outstanding s = total
  ready : s.rcvr.good = false → outstanding s = []

/-- The destination is short and stays so. -/
structure Lost (total : Bytes) (s : Transfer) : Prop where
  phases : PhaseOk s
  short : s.rcvr.content.length < total.length
  spoilt : s.rcvr.good = false

theorem intact_step {total : Bytes} {s t : Transfer} {a : Call} (h : Intact total s)
    (ha : NoEarlyEof s a) (ht : transferStep s a = some t) : Intact total t := by
  obtain ⟨hok, hquiet | ⟨b, hout, hw⟩ | ⟨rfl, hpeek, hend, hout, hcontent, hgood⟩⟩ :=
    transferStep_effect h.phases ht
  · obtain ⟨hout, hcontent, hgood⟩ := hquiet
    have hkept : t.rcvr.content ++ outstanding t = total := by rw [hcontent, hout, h.kept]
    refine ⟨hok, hkept, fun hbad => ?_⟩
    rw [hgood] at hbad
    exact hout.trans (h.ready hbad)
  -- a byte in hand means that the stream has not been spoilt
  · have hgood : s.rcvr.good := by
      by_contra hbad
      have hempty := h.ready (Bool.eq_false_iff.mpr hbad)
      rw [hout] at hempty
      cases hempty
    obtain ⟨hcontent, hgood'⟩ := write_good hgood b
    -- the byte moves from the front of what is outstanding to the end of the file
    have hkept : t.rcvr.content ++ outstanding t = total := by
      calc t.rcvr.content ++ outstanding t
          = s.rcvr.content ++ [b] ++ outstanding t := by rw [hw, hcontent]
        _ = s.rcvr.content ++ outstanding s := by
          rw [hout, List.append_assoc, List.singleton_append]
        _ = total := h.kept
    refine ⟨hok, hkept, fun hbad => ?_⟩
    rw [hw, hgood'] at hbad
    cases hbad
  · have hempty : outstanding s = [] := ha hpeek hend
    have hkept : t.rcvr.content ++ outstanding t = total := by rw [hcontent, hout, h.kept]
    exact ⟨hok, hkept, fun _ => hout.trans hempty⟩

theorem lost_of_early_eof {total : Bytes} {s t : Transfer} {a : Call} (h : Intact total s)
    (ha : ¬ NoEarlyEof s a) (ht : transferStep s a = some t) : Lost total t := by
  cases a with
  | rcvrMain =>
    have hpoll : s.rcvrMain = .peek ∧ s.rcvr.rest = [] ∧ outstanding s ≠ [] := by
      simpa [NoEarlyEof] using ha
    obtain ⟨hpeek, hend, hout⟩ := hpoll
    obtain ⟨hok, -, hcontent, hgood⟩ := rcvrMainStep_ok h.phases ht
    refine ⟨hok, ?_, Bool.eq_false_iff.mpr fun hg => (hgood.mp hg).2 hpeek hend⟩
    -- what is outstanding now will be missing
    have hpos := List.length_pos_iff.mpr hout
    rw [hcontent, ← h.kept, List.length_append]
    omega
  | sendingThread => exact absurd trivial ha
  | sdrMain => exact absurd trivial ha
  | receivingThread => exact absurd trivial ha
  | recvError => exact absurd trivial ha

theorem lost_step {total : Bytes} {s t : Transfer} {a : Call} (h : Lost total s)
    (ht : transferStep s a = some t) : Lost total t := by
  obtain ⟨hok, ⟨hout, hcontent, hgood⟩ | ⟨b, hout, hw⟩ | ⟨-, -, -, -, hcontent, hgood⟩⟩ :=
    transferStep_effect h.phases ht
  -- writes do nothing any more
  · exact ⟨hok, hcontent ▸ h.short, hgood.trans h.spoilt⟩
  · obtain ⟨hcontent, hgood⟩ := write_bad h.spoilt b
    rw [← hw] at hcontent hgood
    exact ⟨hok, hcontent ▸ h.short, hgood⟩
  · exact ⟨hok, hcontent ▸ h.short, hgood⟩

theorem intact_start (source initial : Bytes) :
    Intact (initial ++ source) (transferStart source initial) := by
  have hrun : Running (transferStart source initial) := ⟨rfl, rfl, by simp [transferStart]⟩
  refine ⟨hrun.phaseOk ?_ ?_ ?_, rfl, ?_⟩
  all_goals
    intro hx
    cases hx

/-- When the receiver has set `filefinished`, its file is the initial content followed by
the source exactly if its main thread never polled at the end of the file while bytes were
still to be written. -/
theorem lossless_iff (source initial : Bytes) (as : List Call) (s : Transfer)
    (h : run transferStep (transferStart source initial) as = some s)
    (hfinished : s.filefinished = true) :
    s.rcvr.content = initial ++ source ↔
      Guarded transferStep NoEarlyEof (transferStart source initial) as := by
  obtain ⟨hintact, hlost⟩ := run_split transferStep (intact_start source initial)
    (fun _ _ _ ht ha hu => intact_step ht ha hu)
    (fun _ _ _ ht ha hu => lost_of_early_eof ht ha hu)
    (fun _ _ _ ht hu => lost_step ht hu) h
  constructor
  · intro heq
    by_contra hg
    have hshort := (hlost hg).short
    rw [heq] at hshort
    exact Nat.lt_irrefl _ hshort
  · intro hg
    obtain ⟨hok, hkept, -⟩ := hintact hg
    -- the socket is closed and drained, so nothing is left to be written
    obtain ⟨hclosed, hnet, hbuf⟩ := hok.drained (Or.inr hfinished)
    have hdone := hok.closed hclosed
    have hempty : outstanding s = [] := by
      simp [outstanding, hnet, hbuf, buffer_of_done hdone, hok.done hdone]
    rw [← hkept, hempty, List.append_nil]

def oneByteCalls : List Call :=
  [.sendingThread, .sendingThread, .sendingThread, .receivingThread, .receivingThread,
    .sendingThread, .sendingThread, .sendingThread, .receivingThread, .receivingThread]

theorem one_byte_arrives :
    ∃ s, run transferStep (transferStart [7] []) oneByteCalls = some s ∧
      s.rcvr.content = [] ++ [7] :=
  ⟨_, rfl, (lossless_iff [7] [] oneByteCalls _ rfl rfl).mpr (by decide)⟩

/-- The receiver's main thread polls its empty file before the byte arrives. -/
theorem polled_transfer_loses_byte :
    ¬ ∀ (source initial : Bytes) (as : List Call) (s : Transfer),
      run transferStep (transferStart source initial) as = some s → s.filefinished = true →
        s.rcvr.content = initial ++ source := by
  intro h
  have hcontent := h [7] [] (.rcvrMain :: .rcvrMain :: oneByteCalls) _ rfl rfl
  cases hcontent

end LearningDirectory
