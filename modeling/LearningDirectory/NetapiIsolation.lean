import LearningDirectory.NetapiSessions

/-! The server when `recv` fails on one connection: what becomes of the others. -/
namespace LearningDirectory
open StepRun

/-- The accepting thread and the handler threads over the object that they share. -/
structure ServerThreads where
  net : Netapi
  /-- threads created by `start_msghandle_thread` that have not run yet -/
  spawned : ℕ := 0
  /-- the descriptor of each handler that has started, and where it waits -/
  handlers : List (ℤ × Phase) := []
  /-- a handler has called `exit(-1)`, which ends them all -/
  exited : Bool := false

inductive ThreadStep
  | accept (newSock : ℤ)
  | start
  | recv (i : ℕ) (r : RecvResult)

namespace ServerThreads

/-- What the `i`-th handler does next, and for which descriptor. -/
def turn (s : ServerThreads) (i : ℕ) (r : RecvResult) : Option (ℤ × Turn) :=
  match s.handlers[i]? with
  | some (sockfd, p) =>
    -- no `recv` returns more than it was asked for
    if r.size ≤ p.size then some (sockfd, handlerStep s.net p r) else none
  | none => none

def afterTurn (s : ServerThreads) (i : ℕ) (t : ℤ × Turn) : ServerThreads :=
  { s with
    net := t.2.net
    handlers := s.handlers.set i (t.1, t.2.phase)
    exited := t.2.phase = .exited }

end ServerThreads

def threadStep (s : ServerThreads) (a : ThreadStep) : Option ServerThreads :=
  if s.exited then none
  else match a with
  | .accept newSock =>
    -- after its message a failed accept goes on, with -1
    some { s with net := serverHandleaccept newSock s.net, spawned := s.spawned+1 }
  | .start =>
    -- `int sockfd = threadarg->recvsock.back();`
    match s.spawned, s.net.back with
    | k+1, some sockfd =>
      some { s with spawned := k, handlers := s.handlers ++ [(sockfd, .head)] }
    | _, _ => none
  | .recv i r => (s.turn i r).map (s.afterTurn i)

/-- The actions of a step. -/
def threadOut (s : ServerThreads) : ThreadStep → List Output
  | .recv i r => ((s.turn i r).map fun t => t.2.out).getD []
  | _ => []

/-- The `i`-th handler takes no step. -/
def Avoids (i : ℕ) (a : ThreadStep) : Prop := ∀ r, a ≠ .recv i r

/-- The handler waits for the body of a message for another process. -/
def InRelayBody (s : ServerThreads) (i : ℕ) : Prop :=
  ∃ sockfd h headBuf, s.handlers[i]? = some (sockfd, .body h headBuf) ∧
    h.toProcname ≠ s.net.processname

/-- The states differ in nothing but the `i`-th handler. -/
def SameBut (i : ℕ) (s s' : ServerThreads) : Prop :=
  i < s.handlers.length ∧ ∃ x, s' = { s with handlers := s.handlers.set i x }

theorem turn_sameBut {s : ServerThreads} {i j : ℕ} (x : ℤ × Phase) (r : RecvResult) (h : j ≠ i) :
    ({ s with handlers := s.handlers.set i x } : ServerThreads).turn j r = s.turn j r := by
  simp only [ServerThreads.turn, List.getElem?_set_ne h.symm]

/-- A step of another thread cannot tell such states apart. -/
theorem sameBut_step (i : ℕ) (s s' : ServerThreads) (a : ThreadStep) (h : SameBut i s s')
    (ha : Avoids i a) :
    Option.Rel (fun t t' => threadOut s a = threadOut s' a ∧ SameBut i t t')
      (threadStep s a) (threadStep s' a) := by
  obtain ⟨hi, x, rfl⟩ := h
  unfold threadStep
  by_cases hexit : s.exited = true
  · rw [if_pos hexit, if_pos hexit]
    exact .none
  rw [if_neg hexit, if_neg hexit]
  cases a with
  | accept newSock => exact .some ⟨rfl, hi, x, rfl⟩
  | start =>
    cases hspawned : s.spawned with
    | zero => exact .none
    | succ k =>
      cases hback : s.net.back with
      | none => exact .none
      | some sockfd =>
        refine .some ⟨rfl, ?_, x, ?_⟩
        · rw [List.length_append]
          exact Nat.lt_add_right _ hi
        · -- the new handler comes behind the `i`-th
          rw [List.set_append_left _ _ hi]
  -- another handler reads its own entry and the object
  | recv j r =>
    have hj : j ≠ i := by
      rintro rfl
      exact ha r rfl
    simp only [threadOut, turn_sameBut x r hj]
    cases s.turn j r with
    | none => exact .none
    | some t =>
      refine .some ⟨trivial, ?_, x, ?_⟩
      · simpa only [ServerThreads.afterTurn, List.length_set] using hi
      · simp only [ServerThreads.afterTurn]
        rw [List.set_comm _ _ hj.symm]

theorem outputs_exited {s : ServerThreads} (h : s.exited = true) (as : List ThreadStep) :
    outputs threadStep threadOut s as = [] := by
  cases as with
  | nil => rfl
  | cons a as =>
    have hnone : threadStep s a = none := if_pos h
    rw [outputs, hnone]

/-- What a failed `recv` does: the handler of a relay body goes back to its start, and every
other calls `exit(-1)`. -/
theorem threadStep_error {s t : ServerThreads} {i : ℕ}
    (h : threadStep s (.recv i .error) = some t) :
    s.exited = false ∧ ∃ sockfd p, s.handlers[i]? = some (sockfd, p) ∧
      t = s.afterTurn i (sockfd, handlerStep s.net p .error) := by
  obtain ⟨hlive, h⟩ := Option.ite_none_left_eq_some.mp h
  obtain ⟨turn, hturn, rfl⟩ := Option.map_eq_some_iff.mp h
  refine ⟨Bool.eq_false_iff.mpr hlive, ?_⟩
  rw [ServerThreads.turn] at hturn
  cases hi : s.handlers[i]? with
  | none =>
    rw [hi] at hturn
    cases hturn
  | some handler =>
    obtain ⟨sockfd, p⟩ := handler
    rw [hi] at hturn
    obtain ⟨-, hturn⟩ := Option.ite_none_right_eq_some.mp hturn
    cases hturn
    exact ⟨sockfd, p, rfl, rfl⟩

theorem handlerStep_error (n : Netapi) (p : Phase) :
    handlerStep n p .error = ⟨n, .head, []⟩ ∧
        (∃ h headBuf, p = .body h headBuf ∧ h.toProcname ≠ n.processname) ∨
      handlerStep n p .error = ⟨n, .exited, []⟩ ∧
        ¬ ∃ h headBuf, p = .body h headBuf ∧ h.toProcname ≠ n.processname := by
  cases p with
  | head => exact Or.inr ⟨rfl, nofun⟩
  | exited => exact Or.inr ⟨rfl, nofun⟩
  -- `handle_msgbody` exits, and the relay branch only skips what needs a body
  | body h headBuf =>
    by_cases hlocal : h.toProcname = n.processname
    · refine Or.inr ⟨?_, ?_⟩
      · rw [handlerStep, recvBody, if_pos hlocal]
        rfl
      · rintro ⟨h', headBuf', heq, hpeer⟩
        cases heq
        exact hpeer hlocal
    · refine Or.inl ⟨?_, h, headBuf, rfl, hlocal⟩
      rw [handlerStep, recvBody, if_neg hlocal]
      rfl

/-- A `recv` that fails leaves `regtable` and `recvsock` as they are. In the body of a message
for another process it also leaves all other threads as they are, and whatever they do next
they do as if the connection had stayed silent. Anywhere else it ends the server. -/
theorem recv_error_isolated {s t : ServerThreads} {i : ℕ}
    (h : threadStep s (.recv i .error) = some t) :
    t.net = s.net ∧
    (InRelayBody s i → t.exited = false ∧ t.spawned = s.spawned ∧
      (∀ j, j ≠ i → t.handlers[j]? = s.handlers[j]?) ∧
      ∀ as, (∀ a ∈ as, Avoids i a) →
        outputs threadStep threadOut t as = outputs threadStep threadOut s as) ∧
    (¬ InRelayBody s i → ∀ as, outputs threadStep threadOut t as = []) := by
  obtain ⟨hlive, sockfd, p, hi, rfl⟩ := threadStep_error h
  have hbody : InRelayBody s i ↔
      ∃ h headBuf, p = .body h headBuf ∧ h.toProcname ≠ s.net.processname := by
    constructor
    · rintro ⟨sockfd', head, headBuf, hi', hpeer⟩
      cases hi.symm.trans hi'
      exact ⟨head, headBuf, rfl, hpeer⟩
    · rintro ⟨head, headBuf, rfl, hpeer⟩
      exact ⟨sockfd, head, headBuf, hi, hpeer⟩
  rcases handlerStep_error s.net p with ⟨hstep, hrelay⟩ | ⟨hstep, hother⟩
  · rw [hstep]
    -- only the handler itself is another
    have hsame : SameBut i s (s.afterTurn i (sockfd, ⟨s.net, .head, []⟩)) := by
      refine ⟨(List.getElem?_eq_some_iff.mp hi).1, (sockfd, .head), ?_⟩
      simp only [ServerThreads.afterTurn, hlive]
      rfl
    refine ⟨rfl, fun _ => ⟨rfl, rfl, ?_, ?_⟩, fun hno => absurd (hbody.mpr hrelay) hno⟩
    · intro j hj
      exact List.getElem?_set_ne hj.symm
    · intro as has
      symm
      exact outputs_congr threadStep threadOut (sameBut_step i) hsame has
  · rw [hstep]
    refine ⟨rfl, fun hrelay => absurd (hbody.mp hrelay) hother, fun _ as => ?_⟩
    exact outputs_exited rfl as

/-- Two connections, whose handlers have started. -/
def twoServed : List ThreadStep := [.accept 4, .start, .accept 5, .start]

/-- The second handler has read the head of a message for `client1`. -/
def relayWaiting : ServerThreads where
  net := { processname := server1.processname, recvsock := [4, 5] }
  handlers := [(4, .head), (5, .body (frameHead helloFrame) (helloFrame.bytes.take 60))]

theorem relay_error_isolated :
    run threadStep { net := serverStart server1.processname }
        (twoServed ++ [.recv 1 (.data (helloFrame.bytes.take 60))]) = some relayWaiting ∧
      ∃ t, threadStep relayWaiting (.recv 1 .error) = some t ∧ t.net = relayWaiting.net ∧
        t.exited = false ∧ ∀ as, (∀ a ∈ as, Avoids 1 a) →
          outputs threadStep threadOut t as = outputs threadStep threadOut relayWaiting as := by
  have hstep : threadStep relayWaiting (.recv 1 .error) =
      some (relayWaiting.afterTurn 1 (5, ⟨relayWaiting.net, .head, []⟩)) := rfl
  obtain ⟨hnet, hrelay, -⟩ := recv_error_isolated hstep
  obtain ⟨hlive, -, -, houts⟩ :=
    hrelay ⟨5, frameHead helloFrame, helloFrame.bytes.take 60, rfl, by decide +kernel⟩
  exact ⟨rfl, _, hstep, hnet, hlive, houts⟩

/-- The first one fails before a head, and the second handler does nothing any more. -/
theorem head_error_ends_all :
    ∃ s t, run threadStep { net := serverStart server1.processname } twoServed = some s ∧
      threadStep s (.recv 0 .error) = some t ∧
      outputs threadStep threadOut t [.recv 1 (.data (regFrame.bytes.take 60))] ≠
        outputs threadStep threadOut s [.recv 1 (.data (regFrame.bytes.take 60))] := by
  refine ⟨_, _, rfl, rfl, ?_⟩
  intro h
  have hlength := congrArg List.length h
  exact absurd hlength (by decide +kernel)

end LearningDirectory
