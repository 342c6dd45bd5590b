import LearningDirectory.ChatReceiver
import LearningDirectory.CsPair
import LearningDirectory.RcvrThreads
import LearningDirectory.SdrSocket
import Mathlib.Logic.Function.Basic

/-! `my_sdr` and `my_rcvr` in message mode: any number of sending processes with a connection
each, and one receiving process. -/
namespace LearningDirectory
open StepRun

/-- What `cout<<buf` puts out of a whole message. -/
def greeting : Bytes := ascii "Hello server!!".toList

/-- `buf` after `bzero` -/
def rcvrBuf : Bytes := List.replicate 80 0

structure MessagePair where
  /-- the processes of `my_sdr`; all are connected -/
  sdr : ℕ → SdrThreads := fun _ => sdrStart false
  /-- what a process has sent and nobody has received -/
  net : ℕ → Bytes := fun _ => []
  rcvr : RcvrThreads := rcvrStart false
  /-- the processes whose connection `accept` has returned -/
  accepted : List ℕ := []
  /-- the process at the other end, for each worker of `my_rcvr` -/
  threadSock : ℕ → Option ℕ := fun _ => none
  buf : ℕ → Bytes := fun _ => rcvrBuf
  /-- what is printed, and for which process -/
  printed : List (Option ℕ × Option Bytes) := []

/-- A step of one process or the other; an `accept` that succeeds and a `recv` of at least a byte
are steps of both. -/
inductive MessageStep
  | sdr (c : ℕ) (a : SdrStep)
  | rcvr (a : RcvrStep)
  | accept (i c : ℕ)
  | recv (i n : ℕ)

/-- The peer has closed its end, and nothing is left to receive. -/
def MessagePair.atEnd (s : MessagePair) (c : ℕ) : Bool :=
  s.net c = [] && (!(s.sdr c).sockOpen || (s.sdr c).ended)

def messageStep (s : MessagePair) : MessageStep → Option MessagePair
  | .sdr c a =>
    (sdrStep (s.sdr c) a).map fun t =>
      { s with
        sdr := Function.update s.sdr c t
        net := if a.sends then Function.update s.net c (s.net c ++ hello) else s.net }
  | .accept i c =>
    -- each connection is returned once
    if c ∈ s.accepted then none
    else (rcvrStep s.rcvr (.accept i)).map fun t =>
      { s with
        rcvr := t
        accepted := s.accepted ++ [c]
        threadSock := Function.update s.threadSock i (some c) }
  | .recv i n =>
    (s.threadSock i).bind fun c =>
      if 0 < n ∧ n ≤ 80 ∧ n ≤ (s.net c).length then
        (rcvrStep s.rcvr (.recv i n)).map fun t =>
          { s with
            rcvr := t
            net := Function.update s.net c ((s.net c).drop n)
            buf := Function.update s.buf i ((s.net c).take n ++ (s.buf i).drop n) }
      else none
  | .rcvr (.recv i recvbytes) =>
    -- an error, or the end of the stream
    if recvbytes = -1 ∨ recvbytes = 0 ∧ (s.threadSock i).any s.atEnd then
      (rcvrStep s.rcvr (.recv i recvbytes)).map fun t => { s with rcvr := t }
    else none
  | .rcvr (.report i) =>
    (rcvrStep s.rcvr (.report i)).map fun t =>
      { s with rcvr := t, printed := s.printed ++ [(s.threadSock i, coutBuf (s.buf i))] }
  | .rcvr a => (rcvrStep s.rcvr a).map fun t => { s with rcvr := t }

/-! ### The buffer of a worker -/

def hellos (k : ℕ) : Bytes := (List.replicate k hello).flatten

theorem greeting_no_nul : (0 : Byte) ∉ greeting := by decide

/-- The first bytes of a connection end within the array, or with what `bzero` has left. -/
theorem coutBuf_received {k n : ℕ} (hn : n ≤ 80) (hlen : n ≤ (hellos k).length) :
    coutBuf ((hellos k).take n ++ rcvrBuf.drop n) = some (greeting.take n) ∧ (0 < n → 0 < k) := by
  cases k with
  | zero =>
    obtain rfl : n = 0 := Nat.le_zero.mp hlen
    exact ⟨by decide, id⟩
  | succ k =>
    refine ⟨?_, fun _ => Nat.succ_pos k⟩
    have hstream : hellos (k+1) = greeting ++ 0 :: hellos k := by
      rw [hellos, List.replicate_succ, List.flatten_cons, hello, greeting, List.append_assoc]
      rfl
    have hlength : greeting.length = 14 := by decide
    rw [hstream]
    rcases Nat.lt_or_ge 14 n with hlong | hshort
    · -- the terminator of the first message has come
      obtain ⟨m, rfl⟩ := Nat.exists_eq_add_of_lt hlong
      have htake : (greeting ++ 0 :: hellos k).take (14+m+1) =
          greeting ++ 0 :: (hellos k).take m := by
        rw [List.take_append, hlength, List.take_of_length_le (by omega),
          show 14+m+1-14 = m+1 by omega, List.take_succ_cons]
      have hgreeting : greeting.take (14+m+1) = greeting :=
        List.take_of_length_le (by omega)
      have hmem : (0 : Byte) ∈ greeting ++ 0 :: ((hellos k).take m ++ rcvrBuf.drop (14+m+1)) :=
        List.mem_append_right _ List.mem_cons_self
      rw [htake, hgreeting, List.append_assoc, List.cons_append, coutBuf, if_pos hmem,
        cString_terminated, cString_eq_self greeting_no_nul]
    · have htake : (greeting ++ 0 :: hellos k).take n = greeting.take n :=
        List.take_append_of_le_length (hshort.trans_eq hlength.symm)
      have hcut : (greeting.take n).length = n := by
        rw [List.length_take, hlength]
        omega
      have hnul : (0 : Byte) ∉ greeting.take n := fun hmem =>
        greeting_no_nul (List.mem_of_mem_take hmem)
      have hrest : rcvrBuf.drop n =
          List.replicate (recvbufSize - (greeting.take n).length) 0 := by
        rw [rcvrBuf, List.drop_replicate, hcut]
        rfl
      rw [htake, hrest]
      have hroom : (greeting.take n).length < recvbufSize := by
        rw [hcut]
        exact Nat.lt_of_le_of_lt hshort (by decide)
      exact (coutBuf_fill hnul (Nat.le_of_lt hroom)).mpr hroom

/-! ### What a step does to the workers -/

/-- Where a step takes a worker of `my_rcvr` in message mode. -/
def RcvrStep.move : RcvrStep → Option (ℕ × RcvrWorker × RcvrWorker)
  | .accept i => some (i, .accepting, .receiving)
  | .recv i recvbytes => if recvbytes = -1 then none else some (i, .receiving, .reporting)
  | .report i => some (i, .reporting, .closing)
  | .close i => some (i, .closing, .exiting)
  | .exit i => some (i, .exiting, .exited)
  | .main | .create _ _ => none

theorem move_recv (i : ℕ) {recvbytes : ℤ} (h : recvbytes ≠ -1) :
    (RcvrStep.recv i recvbytes).move = some (i, .receiving, .reporting) := by
  rw [RcvrStep.move, if_neg h]

def RcvrStep.reports : RcvrStep → Bool
  | .report _ => true
  | _ => false

/-- In message mode each step but main's moves one worker, and only a report is counted. -/
structure RcvrMoved (s : RcvrThreads) (a : RcvrStep) (t : RcvrThreads) : Prop where
  message : t.thCtrl.isfile = false
  count : t.msgCount = if a.reports then s.msgCount+1 else s.msgCount
  moved : ∀ i w w', a.move = some (i, w, w') →
    s.workers[i]? = some w ∧ t.workers = s.workers.set i w'
  kept : a.move = none → t.workers = s.workers ∨ t.workers = s.workers ++ [.accepting]

theorem rcvrStep_moved {s t : RcvrThreads} {a : RcvrStep} (hmsg : s.thCtrl.isfile = false)
    (h : rcvrStep s a = some t) : RcvrMoved s a t := by
  have hfile : ¬ s.thCtrl.isfile = true := Bool.eq_false_iff.mp hmsg
  have hone {i j : ℕ} {v v' w w' : RcvrWorker} {t : RcvrThreads} (hi : s.workers[i]? = some v)
      (ht : t.workers = s.workers.set i v') (he : some (i, v, v') = some (j, w, w')) :
      s.workers[j]? = some w ∧ t.workers = s.workers.set j w' := by
    cases he
    exact ⟨hi, ht⟩
  unfold rcvrStep at h
  obtain ⟨-, h⟩ := Option.ite_none_left_eq_some.mp h
  cases a with
  | main =>
    obtain ⟨-, h⟩ := Option.ite_none_right_eq_some.mp h
    cases h
    exact ⟨hmsg, rfl, (fun _ _ _ hx => by cases hx), fun _ => Or.inl rfl⟩
  | create thId errId =>
    obtain ⟨-, h⟩ := Option.ite_none_right_eq_some.mp h
    cases h
    refine ⟨?_, rfl, (fun _ _ _ hx => by cases hx), fun _ => ?_⟩
    · rw [ThreadingCtrl.threadCreatingInfo_isfile]
      exact hmsg
    · by_cases herr : errId = 0
      · exact Or.inr (if_pos herr)
      · exact Or.inl (if_neg herr)
  | accept i =>
    obtain ⟨hi, h⟩ := Option.ite_none_right_eq_some.mp h
    cases h
    exact ⟨hmsg, rfl, fun _ _ _ hx => hone hi rfl hx, fun hx => by cases hx⟩
  | recv i recvbytes =>
    obtain ⟨hi, h⟩ := Option.ite_none_right_eq_some.mp h
    by_cases hr : recvbytes = -1
    · rw [if_pos hr] at h
      cases h
      refine ⟨hmsg, rfl, fun _ _ _ hx => ?_, fun _ => Or.inl rfl⟩
      rw [RcvrStep.move, if_pos hr] at hx
      cases hx
    · rw [if_neg hr, if_neg fun hx => hfile hx.1] at h
      cases h
      refine ⟨hmsg, rfl, fun _ _ _ hx => ?_, fun hx => ?_⟩
      · exact hone hi rfl ((move_recv i hr).symm.trans hx)
      · cases (move_recv i hr).symm.trans hx
  | report i =>
    obtain ⟨hi, h⟩ := Option.ite_none_right_eq_some.mp h
    cases h
    have hdone : (s.moveTo i .closing).reportDone =
        { s.moveTo i .closing with msgCount := s.msgCount + 1 } := if_neg hfile
    rw [hdone]
    exact ⟨hmsg, rfl, fun _ _ _ hx => hone hi rfl hx, fun hx => by cases hx⟩
  | close i =>
    obtain ⟨hi, h⟩ := Option.ite_none_right_eq_some.mp h
    cases h
    exact ⟨hmsg, rfl, fun _ _ _ hx => hone hi rfl hx, fun hx => by cases hx⟩
  | exit i =>
    obtain ⟨hi, h⟩ := Option.ite_none_right_eq_some.mp h
    obtain ⟨c, hc, rfl⟩ := Option.map_eq_some_iff.mp h
    rw [exitingInfo_eq hc]
    exact ⟨hmsg, rfl, fun _ _ _ hx => hone hi rfl hx, fun hx => by cases hx⟩

/-! ### One message for each process -/

def MessagePair.sentBy (s : MessagePair) (c : ℕ) : ℕ :=
  (s.sdr c).workers.countP SdrWorker.sent

def RcvrWorker.reported : RcvrWorker → Bool
  | .closing | .exiting | .exited => true
  | _ => false

/-- It is the beginning of a message, and empty unless the process has sent one. -/
def OfGreeting (s : MessagePair) (c : ℕ) (text : Option Bytes) : Prop :=
  ∃ n, text = some (greeting.take n) ∧ (0 < n → 0 < s.sentBy c)

/-- What the variables of the `i`-th worker hold, where it is. -/
def LocalsOk (s : MessagePair) (i : ℕ) : Option RcvrWorker → Prop
  | none | some .accepting => s.threadSock i = none ∧ s.buf i = rcvrBuf
  | some .receiving => s.buf i = rcvrBuf
  | some .reporting => ∃ c, s.threadSock i = some c ∧ OfGreeting s c (coutBuf (s.buf i))
  | some .closing | some .exiting | some .exited => True

/-- Nothing has been received from process `c` so far. -/
def Untouched (s : MessagePair) (c : ℕ) : Prop :=
  ∀ i, s.threadSock i = some c → s.rcvr.workers[i]? = some .receiving

/-- It is what a worker has received from its process, and that worker has reported. -/
def PrintedOk (s : MessagePair) (p : Option ℕ × Option Bytes) : Prop :=
  ∃ i c w, s.rcvr.workers[i]? = some w ∧ w.reported = true ∧ s.threadSock i = some c ∧
    p.1 = some c ∧ OfGreeting s c p.2

structure PairOk (s : MessagePair) : Prop where
  message : s.rcvr.thCtrl.isfile = false
  sending : ∀ c, (s.sdr c).thCtrl.isfile = false
  locals : ∀ i : ℕ, LocalsOk s i s.rcvr.workers[i]?
  accepted : ∀ i c, s.threadSock i = some c → c ∈ s.accepted
  apart : ∀ i j c, s.threadSock i = some c → s.threadSock j = some c → i = j
  net : ∀ c, Untouched s c → s.net c = hellos (s.sentBy c)
  printed : ∀ p ∈ s.printed, PrintedOk s p
  once : (s.printed.map Prod.fst).Nodup
  count : s.rcvr.msgCount = UInt32.ofNat s.printed.length

theorem pairOk_start : PairOk {} where
  message := rfl
  sending _ := rfl
  locals _ := ⟨rfl, rfl⟩
  accepted _ _ hx := by cases hx
  apart _ _ _ hx := by cases hx
  net _ _ := rfl
  printed _ hp := by cases hp
  once := List.nodup_nil
  count := rfl

/-- A step of a sending process leaves the receiver alone. -/
structure SdrFrame (s : MessagePair) (c : ℕ) (a : SdrStep) (t : MessagePair) : Prop where
  rcvr : t.rcvr = s.rcvr
  accepted : t.accepted = s.accepted
  threadSock : t.threadSock = s.threadSock
  buf : t.buf = s.buf
  printed : t.printed = s.printed
  sending : ∀ d, (t.sdr d).thCtrl.isfile = (s.sdr d).thCtrl.isfile
  sentBy : ∀ d, t.sentBy d = s.sentBy d + (if d = c ∧ a.sends then 1 else 0)
  net : ∀ d, t.net d = s.net d ++ (if d = c ∧ a.sends then hello else [])

theorem sdr_frame {s t : MessagePair} {c : ℕ} {a : SdrStep}
    (hmsg : (s.sdr c).thCtrl.isfile = false) (hs : messageStep s (.sdr c a) = some t) :
    SdrFrame s c a t := by
  obtain ⟨u, hu, rfl⟩ := Option.map_eq_some_iff.mp hs
  refine ⟨rfl, rfl, rfl, rfl, rfl, fun d => ?_, fun d => ?_, fun d => ?_⟩
  · by_cases hd : d = c
    · subst hd
      simp only [Function.update_self]
      exact isfile_step (sdrStep_effect hu).2
    · simp only [Function.update_of_ne hd]
  · by_cases hd : d = c
    · subst hd
      simp only [MessagePair.sentBy, Function.update_self, true_and]
      exact countP_sent_step hmsg hu
    · simp only [MessagePair.sentBy, Function.update_of_ne hd, hd, false_and, if_false,
        Nat.add_zero]
  · by_cases hsends : a.sends = true
    · by_cases hd : d = c
      · subst hd
        simp only [hsends, if_true, Function.update_self, and_self]
      · simp only [hsends, if_true, Function.update_of_ne hd, hd, false_and, if_false,
          List.append_nil]
    · simp only [hsends, Bool.false_eq_true, and_false, if_false, List.append_nil]

theorem ofGreeting_mono {s t : MessagePair} {c : ℕ} {text : Option Bytes}
    (h : OfGreeting s c text) (hsent : s.sentBy c ≤ t.sentBy c) : OfGreeting t c text := by
  obtain ⟨n, hn, hpos⟩ := h
  exact ⟨n, hn, fun h0 => Nat.lt_of_lt_of_le (hpos h0) hsent⟩

theorem printedOk_mono {s t : MessagePair} {p : Option ℕ × Option Bytes} (h : PrintedOk s p)
    (hworkers : ∀ (i : ℕ) (w : RcvrWorker), s.rcvr.workers[i]? = some w → w.reported = true →
      t.threadSock i = s.threadSock i ∧
        ∃ w', t.rcvr.workers[i]? = some w' ∧ w'.reported = true)
    (hsent : ∀ c, s.sentBy c ≤ t.sentBy c) : PrintedOk t p := by
  obtain ⟨i, c, w, hi, hw, hc, hp, htext⟩ := h
  obtain ⟨hsock, w', hi', hw'⟩ := hworkers i w hi hw
  exact ⟨i, c, w', hi', hw', hsock.trans hc, hp, ofGreeting_mono htext (hsent c)⟩

theorem localsOk_mono {s t : MessagePair} {i : ℕ} {w : Option RcvrWorker} (h : LocalsOk s i w)
    (hsock : t.threadSock i = s.threadSock i) (hbuf : t.buf i = s.buf i)
    (hsent : ∀ c, s.sentBy c ≤ t.sentBy c) : LocalsOk t i w := by
  cases w with
  | none => exact ⟨hsock.trans h.1, hbuf.trans h.2⟩
  | some w =>
    cases w with
    | accepting => exact ⟨hsock.trans h.1, hbuf.trans h.2⟩
    | receiving => exact hbuf.trans h
    | reporting =>
      obtain ⟨c, hc, htext⟩ := h
      exact ⟨c, hsock.trans hc, by rw [hbuf]; exact ofGreeting_mono htext (hsent c)⟩
    | closing | exiting | exited => trivial

theorem pairOk_sdr {s t : MessagePair} {c : ℕ} {a : SdrStep} (h : PairOk s)
    (hs : messageStep s (.sdr c a) = some t) : PairOk t := by
  obtain ⟨hrcvr, haccepted, hsock, hbuf, hprinted, hsending, hsentBy, hnet⟩ :=
    sdr_frame (h.sending c) hs
  have hgrow (d : ℕ) : s.sentBy d ≤ t.sentBy d := hsentBy d ▸ Nat.le_add_right _ _
  refine ⟨?_, fun d => (hsending d).trans (h.sending d), fun i => ?_, ?_, ?_, fun d hd => ?_, ?_,
    ?_, ?_⟩
  · rw [hrcvr]
    exact h.message
  · rw [hrcvr]
    exact localsOk_mono (h.locals i) (by rw [hsock]) (by rw [hbuf]) hgrow
  · rw [hsock, haccepted]
    exact h.accepted
  · rw [hsock]
    exact h.apart
  · have hold : Untouched s d := by
      intro i hi
      rw [← hrcvr]
      exact hd i (hsock ▸ hi)
    rw [hnet, hsentBy, h.net d hold]
    split_ifs
    · rw [hellos, hellos, List.replicate_succ', List.flatten_append, List.flatten_singleton]
    · rw [List.append_nil, Nat.add_zero]
  · rw [hprinted]
    refine fun p hp => printedOk_mono (h.printed p hp) (fun i w hi hw => ?_) hgrow
    exact ⟨by rw [hsock], w, by rw [hrcvr]; exact hi, hw⟩
  · rw [hprinted]
    exact h.once
  · rw [hrcvr, hprinted]
    exact h.count

/-- Main creates a worker, or nothing happens to them. -/
theorem pairOk_kept {s : MessagePair} {t : RcvrThreads} (h : PairOk s)
    (hmsg : t.thCtrl.isfile = false) (hcount : t.msgCount = s.rcvr.msgCount)
    (hworkers : t.workers = s.rcvr.workers ∨ t.workers = s.rcvr.workers ++ [.accepting]) :
    PairOk { s with rcvr := t } := by
  have hold {i : ℕ} {w : RcvrWorker} (hi : s.rcvr.workers[i]? = some w) :
      t.workers[i]? = some w := by
    rcases hworkers with hsame | hnew
    · rw [hsame]
      exact hi
    · obtain ⟨hlt, -⟩ := List.getElem?_eq_some_iff.mp hi
      rw [hnew, List.getElem?_append_left hlt]
      exact hi
  have hnone {i : ℕ} (hi : s.rcvr.workers[i]? = none) :
      t.workers[i]? = none ∨ t.workers[i]? = some .accepting := by
    rcases hworkers with hsame | hnew
    · rw [hsame]
      exact Or.inl hi
    · have hge : s.rcvr.workers.length ≤ i := List.getElem?_eq_none_iff.mp hi
      rw [hnew, List.getElem?_append_right hge]
      cases i - s.rcvr.workers.length with
      | zero => exact Or.inr rfl
      | succ j => exact Or.inl rfl
  refine ⟨hmsg, h.sending, fun i => ?_, h.accepted, h.apart, fun c hc => ?_, fun p hp => ?_,
    h.once, hcount.trans h.count⟩
  · have hlocal := h.locals i
    change LocalsOk s i t.workers[i]?
    cases hi : s.rcvr.workers[i]? with
    | none =>
      rw [hi] at hlocal
      rcases hnone hi with he | he <;> rw [he] <;> exact hlocal
    | some w =>
      rw [hold hi, ← hi]
      exact hlocal
  · apply h.net c
    intro i hi
    have hreceiving : t.workers[i]? = some .receiving := hc i hi
    cases hw : s.rcvr.workers[i]? with
    | none => rcases hnone hw with he | he <;> rw [he] at hreceiving <;> cases hreceiving
    | some w => rw [← hreceiving, hold hw]
  · refine printedOk_mono (h.printed p hp) (fun i w hi hw => ?_) fun _ => Nat.le_refl _
    exact ⟨rfl, w, hold hi, hw⟩

/-- The step of the `i`-th worker from `w` to `w'`, which leaves the variables of the others
alone, and its own socket once it has reported. -/
structure WorkerMoves (s : MessagePair) (i : ℕ) (w w' : RcvrWorker) (t : MessagePair) : Prop where
  worker : s.rcvr.workers[i]? = some w
  workers : t.rcvr.workers = s.rcvr.workers.set i w'
  sdr : t.sdr = s.sdr
  threadSock : ∀ j, j ≠ i → t.threadSock j = s.threadSock j
  buf : ∀ j, j ≠ i → t.buf j = s.buf j
  reported : w.reported = true → w'.reported = true ∧ t.threadSock i = s.threadSock i

section WorkerMoves

variable {s t : MessagePair} {i : ℕ} {w w' : RcvrWorker}

theorem sentBy_moves (hm : WorkerMoves s i w w' t) (c : ℕ) : t.sentBy c = s.sentBy c := by
  rw [MessagePair.sentBy, MessagePair.sentBy, hm.sdr]

theorem worker_moved (hm : WorkerMoves s i w w' t) : t.rcvr.workers[i]? = some w' := by
  obtain ⟨hlt, -⟩ := List.getElem?_eq_some_iff.mp hm.worker
  rw [hm.workers, List.getElem?_set_self hlt]

theorem worker_ne (hm : WorkerMoves s i w w' t) {j : ℕ} (hj : j ≠ i) :
    t.rcvr.workers[j]? = s.rcvr.workers[j]? := by
  rw [hm.workers, List.getElem?_set_ne (Ne.symm hj)]

theorem locals_moves (hm : WorkerMoves s i w w' t) (h : PairOk s)
    (hi : LocalsOk t i (some w')) (j : ℕ) : LocalsOk t j t.rcvr.workers[j]? := by
  by_cases hj : j = i
  · subst hj
    rw [worker_moved hm]
    exact hi
  · rw [worker_ne hm hj]
    exact localsOk_mono (h.locals j) (hm.threadSock j hj) (hm.buf j hj)
      fun c => (sentBy_moves hm c).ge

theorem printed_moves (hm : WorkerMoves s i w w' t) {p : Option ℕ × Option Bytes}
    (hp : PrintedOk s p) : PrintedOk t p := by
  refine printedOk_mono hp (fun j v hj hv => ?_) fun c => (sentBy_moves hm c).ge
  by_cases he : j = i
  · subst he
    obtain rfl := Option.some.inj (hm.worker.symm.trans hj)
    obtain ⟨hreported, hsock⟩ := hm.reported hv
    exact ⟨hsock, w', worker_moved hm, hreported⟩
  · exact ⟨hm.threadSock j he, v, (worker_ne hm he).trans hj, hv⟩

/-- Nothing was received before, unless the worker has just done it. -/
theorem untouched_moves (hm : WorkerMoves s i w w' t) {c : ℕ} (hu : Untouched t c)
    (hfree : s.threadSock i ≠ some c) : Untouched s c := by
  intro j hj
  have hne : j ≠ i := by
    rintro rfl
    exact hfree hj
  rw [← worker_ne hm hne]
  exact hu j ((hm.threadSock j hne).trans hj)

/-- A worker that does not begin or go on to receive holds no untouched connection. -/
theorem not_held (hm : WorkerMoves s i w w' t) (hsock : t.threadSock i = s.threadSock i)
    (hw : w' ≠ .receiving) {c : ℕ} (hu : Untouched t c) : s.threadSock i ≠ some c := by
  intro hc
  have hreceiving := hu i (hsock.trans hc)
  rw [worker_moved hm] at hreceiving
  exact hw (Option.some.inj hreceiving)

end WorkerMoves

/-- A worker goes on and its variables stay as they are. -/
theorem pairOk_quiet {s : MessagePair} {u : RcvrThreads} {a : RcvrStep} {i : ℕ}
    {w w' : RcvrWorker} (h : PairOk s) (hmoved : RcvrMoved s.rcvr a u)
    (ha : a.move = some (i, w, w')) (hquiet : a.reports = false)
    (hreported : w.reported = true → w'.reported = true)
    (hfree : w' = .receiving → s.threadSock i = none)
    (hlocal : LocalsOk s i (some w')) : PairOk { s with rcvr := u } := by
  obtain ⟨hi, hworkers⟩ := hmoved.moved i w w' ha
  have hm : WorkerMoves s i w w' { s with rcvr := u } :=
    ⟨hi, hworkers, rfl, fun _ _ => rfl, fun _ _ => rfl, fun hw => ⟨hreported hw, rfl⟩⟩
  refine ⟨hmoved.message, h.sending, locals_moves hm h hlocal, h.accepted, h.apart,
    fun c hc => ?_, fun p hp => printed_moves hm (h.printed p hp), h.once, ?_⟩
  · refine h.net c (untouched_moves hm hc ?_)
    by_cases hw : w' = .receiving
    · rw [hfree hw]
      exact (Option.some_ne_none _).symm
    · exact not_held hm rfl hw hc
  · rw [hmoved.count, hquiet]
    exact h.count

theorem pairOk_report {s : MessagePair} {u : RcvrThreads} {i : ℕ} (h : PairOk s)
    (hmoved : RcvrMoved s.rcvr (.report i) u) :
    PairOk
      { s with rcvr := u, printed := s.printed ++ [(s.threadSock i, coutBuf (s.buf i))] } := by
  obtain ⟨hi, hworkers⟩ := hmoved.moved i _ _ rfl
  let t : MessagePair :=
    { s with rcvr := u, printed := s.printed ++ [(s.threadSock i, coutBuf (s.buf i))] }
  have hm : WorkerMoves s i .reporting .closing t :=
    ⟨hi, hworkers, rfl, fun _ _ => rfl, fun _ _ => rfl, fun hw => by cases hw⟩
  obtain ⟨c, hc, htext⟩ : LocalsOk s i (some .reporting) := hi ▸ h.locals i
  change PairOk t
  refine ⟨hmoved.message, h.sending, locals_moves hm h trivial, h.accepted, h.apart,
    fun d hd => ?_, fun p hp => ?_, ?_, ?_⟩
  · exact h.net d (untouched_moves hm hd (not_held hm rfl (by decide) hd))
  · rcases List.mem_append.mp hp with hold | hnew
    · exact printed_moves hm (h.printed p hold)
    · obtain rfl := List.mem_singleton.mp hnew
      exact ⟨i, c, .closing, worker_moved hm, rfl, hc, hc, htext⟩
  · rw [List.map_append, List.nodup_append]
    refine ⟨h.once, List.pairwise_singleton _ _, ?_⟩
    rintro x hx y hy rfl
    -- the worker that has printed for this process before is the same one, which has not
    obtain rfl := List.mem_singleton.mp hy
    obtain ⟨p, hp, hpc⟩ := List.mem_map.mp hx
    obtain ⟨j, d, w, hj, hw, hd, hpd, -⟩ := h.printed p hp
    obtain rfl : d = c := Option.some.inj (hpd.symm.trans (hpc.trans hc))
    obtain rfl := h.apart j i d hd hc
    obtain rfl := Option.some.inj (hj.symm.trans hi)
    cases hw
  · rw [hmoved.count, h.count, List.length_append]
    exact (UInt32.ofNat_add _ _).symm

theorem pairOk_recv {s : MessagePair} {u : RcvrThreads} {i c n : ℕ} (h : PairOk s)
    (hmoved : RcvrMoved s.rcvr (.recv i n) u) (hc : s.threadSock i = some c) (hn : n ≤ 80)
    (hlen : n ≤ (s.net c).length) :
    PairOk
      { s with
        rcvr := u
        net := Function.update s.net c ((s.net c).drop n)
        buf := Function.update s.buf i ((s.net c).take n ++ (s.buf i).drop n) } := by
  obtain ⟨hi, hworkers⟩ := hmoved.moved i _ _ (move_recv i (by omega))
  let t : MessagePair :=
    { s with
      rcvr := u
      net := Function.update s.net c ((s.net c).drop n)
      buf := Function.update s.buf i ((s.net c).take n ++ (s.buf i).drop n) }
  have hm : WorkerMoves s i .receiving .reporting t :=
    ⟨hi, hworkers, rfl, fun _ _ => rfl, fun j hj => Function.update_of_ne hj _ _,
      fun hw => by cases hw⟩
  have hbuf : LocalsOk s i (some .receiving) := hi ▸ h.locals i
  have huntouched : Untouched s c := by
    intro j hj
    rw [h.apart j i c hj hc]
    exact hi
  have hnet := h.net c huntouched
  change PairOk t
  refine ⟨hmoved.message, h.sending, locals_moves hm h ?_, h.accepted, h.apart, fun d hd => ?_,
    fun p hp => printed_moves hm (h.printed p hp), h.once, hmoved.count.trans h.count⟩
  · have hnew : t.buf i = (hellos (s.sentBy c)).take n ++ rcvrBuf.drop n := by
      rw [← hnet, ← hbuf]
      exact Function.update_self ..
    rw [hnet] at hlen
    obtain ⟨htext, hpos⟩ := coutBuf_received hn hlen
    refine ⟨c, hc, n, hnew ▸ htext, fun h0 => ?_⟩
    rw [sentBy_moves hm]
    exact hpos h0
  · have hfree := not_held hm rfl (by decide) hd
    have hdc : d ≠ c := fun he => hfree (he ▸ hc)
    rw [sentBy_moves hm, ← h.net d (untouched_moves hm hd hfree)]
    exact Function.update_of_ne hdc _ _

theorem pairOk_accept {s : MessagePair} {u : RcvrThreads} {i c : ℕ} (h : PairOk s)
    (hmoved : RcvrMoved s.rcvr (.accept i) u) (hnew : c ∉ s.accepted) :
    PairOk
      { s with
        rcvr := u
        accepted := s.accepted ++ [c]
        threadSock := Function.update s.threadSock i (some c) } := by
  obtain ⟨hi, hworkers⟩ := hmoved.moved i _ _ rfl
  let t : MessagePair :=
    { s with
      rcvr := u
      accepted := s.accepted ++ [c]
      threadSock := Function.update s.threadSock i (some c) }
  have hm : WorkerMoves s i .accepting .receiving t :=
    ⟨hi, hworkers, rfl, fun j hj => Function.update_of_ne hj _ _, fun _ _ => rfl,
      fun hw => by cases hw⟩
  obtain ⟨hnone, hbuf⟩ : LocalsOk s i (some .accepting) := hi ▸ h.locals i
  -- a worker holds the new connection or one of those before
  have hsock {j d : ℕ} (hj : t.threadSock j = some d) :
      j = i ∧ d = c ∨ j ≠ i ∧ s.threadSock j = some d := by
    by_cases hji : j = i
    · subst hji
      have hself : t.threadSock j = some c := Function.update_self ..
      exact Or.inl ⟨rfl, Option.some.inj (hj.symm.trans hself)⟩
    · exact Or.inr ⟨hji, (hm.threadSock j hji).symm.trans hj⟩
  change PairOk t
  refine ⟨hmoved.message, h.sending, locals_moves hm h hbuf, fun j d hj => ?_,
    fun j k d hj hk => ?_, fun d hd => ?_, fun p hp => printed_moves hm (h.printed p hp), h.once,
    hmoved.count.trans h.count⟩
  · rcases hsock hj with ⟨-, rfl⟩ | ⟨-, hold⟩
    · exact List.mem_append_right _ (List.mem_singleton_self _)
    · exact List.mem_append_left _ (h.accepted j d hold)
  · rcases hsock hj with ⟨rfl, rfl⟩ | ⟨-, hold⟩ <;> rcases hsock hk with ⟨rfl, he⟩ | ⟨-, hold'⟩
    · rfl
    · exact absurd (h.accepted k _ hold') hnew
    · exact absurd (h.accepted j d hold) (he ▸ hnew)
    · exact h.apart j k d hold hold'
  · rw [sentBy_moves hm]
    apply h.net d (untouched_moves hm hd _)
    rw [hnone]
    exact (Option.some_ne_none _).symm

theorem pairOk_step {s t : MessagePair} {a : MessageStep} (h : PairOk s)
    (hs : messageStep s a = some t) : PairOk t := by
  cases a with
  | sdr c a => exact pairOk_sdr h hs
  | accept i c =>
    rw [messageStep] at hs
    split_ifs at hs with hnew
    obtain ⟨u, hu, rfl⟩ := Option.map_eq_some_iff.mp hs
    exact pairOk_accept h (rcvrStep_moved h.message hu) hnew
  | recv i n =>
    obtain ⟨c, hc, hs⟩ := Option.bind_eq_some_iff.mp hs
    obtain ⟨⟨-, hn, hlen⟩, hs⟩ := Option.ite_none_right_eq_some.mp hs
    obtain ⟨u, hu, rfl⟩ := Option.map_eq_some_iff.mp hs
    exact pairOk_recv h (rcvrStep_moved h.message hu) hc hn hlen
  | rcvr a =>
    cases a with
    | main | create thId errId =>
      obtain ⟨u, hu, rfl⟩ := Option.map_eq_some_iff.mp hs
      have hmoved := rcvrStep_moved h.message hu
      exact pairOk_kept h hmoved.message hmoved.count (hmoved.kept rfl)
    | accept i =>
      -- the `accept` that fails
      obtain ⟨u, hu, rfl⟩ := Option.map_eq_some_iff.mp hs
      have hmoved := rcvrStep_moved h.message hu
      have hi := (hmoved.moved i _ _ rfl).1
      obtain ⟨hnone, hbuf⟩ : LocalsOk s i (some .accepting) := hi ▸ h.locals i
      exact pairOk_quiet h hmoved rfl rfl (fun hx => by cases hx) (fun _ => hnone) hbuf
    | recv i recvbytes =>
      obtain ⟨hend, hs⟩ := Option.ite_none_right_eq_some.mp hs
      obtain ⟨u, hu, rfl⟩ := Option.map_eq_some_iff.mp hs
      have hmoved := rcvrStep_moved h.message hu
      by_cases hr : recvbytes = -1
      · exact pairOk_kept h hmoved.message hmoved.count (hmoved.kept (if_pos hr))
      · -- at the end of the stream the array is as `bzero` has left it
        have hmove := move_recv i hr
        have hlocal : LocalsOk s i (some .receiving) := (hmoved.moved i _ _ hmove).1 ▸ h.locals i
        have hbuf : s.buf i = rcvrBuf := hlocal
        obtain ⟨-, hpeer⟩ := hend.resolve_left hr
        cases hc : s.threadSock i with
        | none =>
          rw [hc] at hpeer
          cases hpeer
        | some c =>
          refine pairOk_quiet h hmoved hmove rfl (fun hx => by cases hx) (fun hx => by cases hx)
            ⟨c, hc, 0, ?_, fun h0 => absurd h0 (Nat.lt_irrefl 0)⟩
          rw [hbuf]
          decide
    | report i =>
      obtain ⟨u, hu, rfl⟩ := Option.map_eq_some_iff.mp hs
      exact pairOk_report h (rcvrStep_moved h.message hu)
    | close i | exit i =>
      obtain ⟨u, hu, rfl⟩ := Option.map_eq_some_iff.mp hs
      have hmoved := rcvrStep_moved h.message hu
      exact pairOk_quiet h hmoved rfl rfl (fun _ => rfl) (fun hx => by cases hx) trivial

/-- However many messages a process of `my_sdr` sends and counts, `my_rcvr` counts and prints one
for it at most, in every interleaving; what it prints is the beginning of a message, from inside
the array, and empty when the process has sent none. -/
theorem one_message_each (as : List MessageStep) (s : MessagePair)
    (h : run messageStep {} as = some s) :
    s.rcvr.msgCount = UInt32.ofNat s.printed.length ∧ (s.printed.map Prod.fst).Nodup ∧
      ∀ p ∈ s.printed, ∃ c n, p = (some c, some (greeting.take n)) ∧
        (0 < n → 0 < (s.sdr c).workers.countP SdrWorker.sent) := by
  have hok : PairOk s :=
    run_invariant messageStep (I := fun _ s => PairOk s) pairOk_start
      (fun _ _ _ _ _ hi hs => pairOk_step hi hs) h
  refine ⟨hok.count, hok.once, fun p hp => ?_⟩
  obtain ⟨-, c, -, -, -, -, hc, n, hn, hpos⟩ := hok.printed p hp
  exact ⟨c, n, Prod.ext hc hn, hpos⟩

def twoSent : List SdrStep :=
  createOne ++ createOne ++ [.send 0 15, .report 0, .send 1 15, .report 1]

/-- Process 5 sends and counts two messages; they are received in one piece. -/
def twoInOne : List MessageStep :=
  twoSent.map (.sdr 5) ++
    [.rcvr .main, .rcvr (.create 0 0), .accept 0 5, .recv 0 30, .rcvr (.report 0)]

theorem two_in_one_counted_once : ∃ s, run messageStep {} twoInOne = some s ∧
    (s.sdr 5).msgCount = 2 ∧ s.printed = [(some 5, some greeting)] ∧
    s.rcvr.msgCount = UInt32.ofNat s.printed.length ∧ (s.printed.map Prod.fst).Nodup ∧
      ∀ p ∈ s.printed, ∃ c n, p = (some c, some (greeting.take n)) ∧
        (0 < n → 0 < (s.sdr c).workers.countP SdrWorker.sent) :=
  ⟨_, rfl, rfl, rfl, one_message_each twoInOne _ rfl⟩

end LearningDirectory
