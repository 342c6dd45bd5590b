import LearningDirectory.NetapiRelay

/-! Handlers whose `recv` calls may return anything: a short read, the end of a stream, an
error. The relay branch looks its destination up with 0 for "not found", and 0 is a
descriptor like any other. -/
namespace LearningDirectory
open StepRun

structure Sessions where
  net : Netapi
  phase : ℤ → Phase := fun _ => .head
  /-- a handler has called `exit(-1)`, which ends them all -/
  exited : Bool := false

inductive SessionStep
  | accept (newSock : ℤ)
  | recv (sockfd : ℤ) (r : RecvResult)

def RecvResult.size : RecvResult → ℕ
  | .error => 0
  | .data bytes => bytes.length

/-- What the handler of `sockfd` does next. -/
def Sessions.turn (s : Sessions) (sockfd : ℤ) (r : RecvResult) : Turn :=
  handlerStep s.net (s.phase sockfd) r

def sessionStep (s : Sessions) : SessionStep → Option Sessions
  | .accept newSock =>
    if s.exited then none else some { s with net := serverHandleaccept newSock s.net }
  | .recv sockfd r =>
    -- no `recv` returns more than it was asked for
    if sockfd ∈ s.net.recvsock ∧ s.exited = false ∧ r.size ≤ (s.phase sockfd).size then
      let t := s.turn sockfd r
      some
        { net := t.net
          phase := Function.update s.phase sockfd t.phase
          exited := t.phase = .exited }
    else none

/-- What the relay branch may do with a body: send the message to the entry of its
destination, and nothing if there is none. -/
structure RelayLaw (n : Netapi) (sockfd : ℤ) (h : Head) (headBuf bytes : Bytes) : Prop where
  found : ∀ d, n.regtable.lookup h.toProcname = some d →
    writes sockfd (recvBody n h headBuf (.data bytes)).out =
      [⟨sockfd, d, headBuf ++ fillBuffer 40 bytes⟩]
  missing : h.toProcname ∉ n.regtable →
    writes sockfd (recvBody n h headBuf (.data bytes)).out = []

/-- The turn is one of the relay branch that has received some of a body. -/
def RelayTurn (s : Sessions) (sockfd : ℤ) (r : RecvResult) (h : Head) (headBuf bytes : Bytes) :
    Prop :=
  s.phase sockfd = .body h headBuf ∧ h.toProcname ≠ s.net.processname ∧ r = .data bytes ∧
    bytes ≠ []

/-- The relay law, and that any descriptor passed to `send` is a value of the table. -/
def SendsToEntries (s : Sessions) : SessionStep → Prop
  | .accept _ => True
  | .recv sockfd r =>
    (∀ h headBuf bytes, RelayTurn s sockfd r h headBuf bytes →
      RelayLaw s.net sockfd h headBuf bytes) ∧
    ∀ w ∈ writes sockfd (s.turn sockfd r).out, ∃ name, s.net.regtable.lookup name = some w.dest

/-- A message that is to be sent on is for a registered name. -/
def ToRegistered (s : Sessions) : SessionStep → Prop
  | .accept _ => True
  | .recv sockfd r => ∀ h headBuf bytes, RelayTurn s sockfd r h headBuf bytes →
      h.toProcname ∈ s.net.regtable

theorem writes_relay {n : Netapi} {h : Head} (hpeer : h.toProcname ≠ n.processname) (sockfd : ℤ)
    (headBuf : Bytes) {bytes : Bytes} (hb : bytes ≠ []) :
    writes sockfd (recvBody n h headBuf (.data bytes)).out =
      [⟨sockfd, (n.regtable.lookup h.toProcname).getD 0, headBuf ++ fillBuffer 40 bytes⟩] := by
  rw [recvBody_data n h headBuf hb, bodyOutput, if_neg hpeer, transSock_eq_lookup]
  rfl

theorem relayLaw_iff {n : Netapi} {h : Head} (hpeer : h.toProcname ≠ n.processname) (sockfd : ℤ)
    (headBuf : Bytes) {bytes : Bytes} (hb : bytes ≠ []) :
    RelayLaw n sockfd h headBuf bytes ↔ h.toProcname ∈ n.regtable := by
  have hwrites := writes_relay hpeer sockfd headBuf hb
  constructor
  · intro hlaw
    by_contra hmem
    -- it goes to 0 all the same
    have hnone := hlaw.missing hmem
    rw [hwrites] at hnone
    cases hnone
  · intro hmem
    refine ⟨fun d hd => ?_, fun hmissing => absurd hmem hmissing⟩
    rw [hwrites, hd]
    rfl

/-- Whoever writes is in the relay branch. -/
theorem relayTurn_of_writes {s : Sessions} {sockfd : ℤ} {r : RecvResult} {w : Write}
    (hw : w ∈ writes sockfd (s.turn sockfd r).out) :
    ∃ h headBuf bytes, RelayTurn s sockfd r h headBuf bytes := by
  rw [Sessions.turn] at hw
  cases hphase : s.phase sockfd with
  | head =>
    rw [hphase] at hw
    match r with
    | .error => cases hw
    | .data [] => cases hw
    | .data (b :: bs) =>
      rw [handlerStep, recvHead_data s.net (List.cons_ne_nil b bs)] at hw
      rw [writes, List.filterMap_cons_none rfl] at hw
      change w ∈ writes sockfd (registHead _ s.net).2 at hw
      rw [writes_registHead] at hw
      cases hw
  | body h headBuf =>
    rw [hphase] at hw
    by_cases hlocal : h.toProcname = s.net.processname
    · rw [handlerStep, recvBody, if_pos hlocal] at hw
      match r with
      | .error => cases hw
      | .data [] => cases hw
      | .data (b :: bs) => cases hw
    · match r with
      | .error =>
        rw [handlerStep, recvBody, if_neg hlocal] at hw
        cases hw
      | .data [] =>
        rw [handlerStep, recvBody, if_neg hlocal] at hw
        cases hw
      | .data (b :: bs) => exact ⟨h, headBuf, b :: bs, hphase, hlocal, rfl, List.cons_ne_nil b bs⟩
  | exited =>
    rw [hphase] at hw
    cases hw

theorem sendsToEntries_iff (s : Sessions) (a : SessionStep) :
    SendsToEntries s a ↔ ToRegistered s a := by
  cases a with
  | accept newSock => exact Iff.rfl
  | recv sockfd r =>
    constructor
    · rintro ⟨hlaw, -⟩ h headBuf bytes hturn
      exact (relayLaw_iff hturn.2.1 sockfd headBuf hturn.2.2.2).mp (hlaw h headBuf bytes hturn)
    · intro hreg
      constructor
      · intro h headBuf bytes hturn
        exact (relayLaw_iff hturn.2.1 sockfd headBuf hturn.2.2.2).mpr (hreg h headBuf bytes hturn)
      · intro w hw
        obtain ⟨h, headBuf, bytes, hturn⟩ := relayTurn_of_writes hw
        have hmem := hreg h headBuf bytes hturn
        obtain ⟨hphase, hpeer, rfl, hb⟩ := hturn
        obtain ⟨d, hd⟩ := Option.isSome_iff_exists.mp (AList.lookup_isSome.mpr hmem)
        rw [Sessions.turn, hphase, handlerStep, writes_relay hpeer sockfd headBuf hb, hd] at hw
        cases List.mem_singleton.mp hw
        exact ⟨h.toProcname, hd⟩

/-- In a run from any state, every send of the relay branch goes to the entry of its
destination exactly if every message that is to be sent on is for a registered name. -/
theorem sends_to_entries_iff (s : Sessions) (as : List SessionStep) :
    Guarded sessionStep SendsToEntries s as ↔ Guarded sessionStep ToRegistered s as :=
  guarded_congr sessionStep sendsToEntries_iff s as

/-- A client on descriptor 4 writes to `client1`, which has not registered. -/
def unregisteredSteps : List SessionStep :=
  [.accept 4, .recv 4 (.data (helloFrame.bytes.take 60))]

theorem unregistered_sent_to_zero :
    ¬ ∀ (s : Sessions) (as : List SessionStep), Guarded sessionStep SendsToEntries s as := by
  intro h
  have hlast := ((guarded_append_one sessionStep rfl).mp
    (h { net := serverStart server1.processname }
      (unregisteredSteps ++ [.recv 4 (.data (helloFrame.bytes.drop 60))]))).2
  have hlaw := hlast.1 (frameHead helloFrame) (helloFrame.bytes.take 60)
    (helloFrame.bytes.drop 60)
    ⟨by decide +kernel, by decide +kernel, rfl, drop_frame_ne_nil helloFrame⟩
  have hnone := congrArg List.length (hlaw.missing (by decide +kernel))
  exact absurd hnone (by decide +kernel)

end LearningDirectory
