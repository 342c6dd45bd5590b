import LearningDirectory.ChatReceiver
import LearningDirectory.CsPair
import LearningDirectory.NetapiHandler

/-! The three receive loops when the peer closes the connection. -/
namespace LearningDirectory
open StepRun

/-- One `recv` of `msghandlecalling`; `none` once the loop has been left. -/
def handlerRound (s : Netapi × Phase) (recvbytes : Option Bytes) : Option (Netapi × Phase) :=
  let t := handlerStep s.1 s.2 (recvbytes.elim .error .data)
  if t.phase = .exited then none else some (t.net, t.phase)

/-- One `recv` of the loop of `cs/recv`; -1 ends the process. -/
def csRecvRound (msgCount : UInt32) : Option Bytes → Option UInt32
  | none => none
  | some buf => some (if 0 < buf.length then msgCount+1 else msgCount)

/-- The results of `recv` when the peer sends the chunks and closes: 0 from then on. -/
def peerCloses (chunks : List Bytes) (i : ℕ) : Option Bytes := some (chunks.getD i [])

/-- The loop is left at one of its `recv` calls. -/
def Leaves {σ : Type} (step : σ → Option Bytes → Option σ) (s : σ) (recvs : ℕ → Option Bytes) :
    Prop :=
  ∃ k, run step s ((List.range k).map recvs) = none

theorem msghandlecalling_exited (n : Netapi) (rs : List RecvResult) :
    msghandlecalling n .exited rs = ⟨n, .exited, []⟩ := by
  induction rs with
  | nil => rfl
  | cons r rs ih =>
    rw [msghandlecalling, handlerStep, ih]
    rfl

/-- The rounds are those of `msghandlecalling`. -/
theorem run_handlerRound (n : Netapi) {p : Phase} (hp : p ≠ .exited) (rs : List (Option Bytes)) :
    run handlerRound (n, p) rs =
      let t := msghandlecalling n p (rs.map fun r => r.elim .error .data)
      if t.phase = .exited then none else some (t.net, t.phase) := by
  induction rs generalizing n p with
  | nil => exact (if_neg hp).symm
  | cons r rs ih =>
    rw [run_cons, handlerRound, List.map_cons, msghandlecalling]
    by_cases hexit : (handlerStep n p (r.elim .error .data)).phase = .exited
    -- after `exit(-1)` no further result counts
    · simp only [hexit, if_true, Option.bind_none, msghandlecalling_exited]
    · simp only [if_neg hexit, Option.bind_some]
      exact ih _ hexit

/-- So are those of `recvLoop`. -/
theorem run_csRecvRound {rs : List (Option Bytes)} {msgCount c : UInt32}
    (h : run csRecvRound msgCount rs = some c) : recvLoop rs msgCount = c := by
  induction rs generalizing msgCount with
  | nil => exact Option.some.inj h
  | cons r rs ih =>
    cases r with
    -- the process has ended
    | none => cases h
    | some buf =>
      rw [run_cons] at h
      exact ih h

/-- A loop that goes on after every result that is not -1 is not left. -/
theorem not_leaves {σ : Type} {step : σ → Option Bytes → Option σ} {I : σ → Prop}
    (hstep : ∀ s bytes, I s → ∃ t, step s (some bytes) = some t ∧ I t) {s : σ} (h0 : I s)
    (chunks : List Bytes) : ¬ Leaves step s (peerCloses chunks) := by
  rintro ⟨k, hk⟩
  have hgo (t : σ) (r : Option Bytes) (ht : I t) (hr : ∃ bytes, r = some bytes) :
      ∃ u, step t r = some u ∧ I u := by
    obtain ⟨bytes, rfl⟩ := hr
    exact hstep t bytes ht
  have hlabels : ∀ r ∈ (List.range k).map (peerCloses chunks), ∃ bytes, r = some bytes := by
    intro r hr
    obtain ⟨i, -, rfl⟩ := List.mem_map.mp hr
    exact ⟨_, rfl⟩
  obtain ⟨t, ht, -⟩ := run_total step hgo h0 hlabels
  cases hk.symm.trans ht

theorem handlerRound_data (s : Netapi × Phase) (bytes : Bytes) (hp : s.2 ≠ .exited) :
    ∃ t, handlerRound s (some bytes) = some t ∧ t.2 ≠ .exited := by
  obtain ⟨n, p⟩ := s
  have hphase : (handlerStep n p (.data bytes)).phase ≠ .exited := by
    cases p with
    | exited => exact absurd rfl hp
    | head =>
      cases bytes with
      | nil => exact Phase.noConfusion
      | cons b bs => exact Phase.noConfusion
    | body h headBuf =>
      -- end of stream behind a head, whomever the message is for
      simp only [handlerStep, recvBody]
      split_ifs
      · cases bytes <;> exact Phase.noConfusion
      · cases bytes <;> exact Phase.noConfusion
  exact ⟨_, if_neg hphase, hphase⟩

theorem chatReceiveStep_some (s : ChatReceiver) (bytes : Bytes) :
    ∃ t, chatReceiveStep s (some bytes) = some t := by
  rw [chatReceiveStep, Option.map_some]
  cases bytes.take recvbufSize with
  -- nothing is printed at the end of the stream, and `recv` is called again
  | nil => exact ⟨s, rfl⟩
  | cons b bs => exact ⟨_, rfl⟩

theorem handler_spins (chunks : List Bytes) (n : Netapi) :
    ¬ Leaves handlerRound (n, .head) (peerCloses chunks) := by
  have hstart : ((n, .head) : Netapi × Phase).2 ≠ .exited := Phase.noConfusion
  exact not_leaves handlerRound_data hstart chunks

theorem chat_spins (chunks : List Bytes) : ¬ Leaves chatReceiveStep {} (peerCloses chunks) := by
  apply not_leaves (I := fun _ => True) _ trivial
  intro s bytes _
  obtain ⟨t, ht⟩ := chatReceiveStep_some s bytes
  exact ⟨t, ht, trivial⟩

theorem csRecv_spins (chunks : List Bytes) : ¬ Leaves csRecvRound 0 (peerCloses chunks) := by
  apply not_leaves (I := fun _ => True) _ trivial
  intro msgCount bytes _
  exact ⟨_, rfl, trivial⟩

/-- Whatever the peer has sent before it closes, none of the loops is left. -/
theorem receive_loops_spin (chunks : List Bytes) (n : Netapi) :
    ¬ Leaves handlerRound (n, .head) (peerCloses chunks) ∧
      ¬ Leaves chatReceiveStep {} (peerCloses chunks) ∧
      ¬ Leaves csRecvRound 0 (peerCloses chunks) :=
  ⟨handler_spins chunks n, chat_spins chunks, csRecv_spins chunks⟩

/-- Two letters and the close. -/
theorem spins_after_two :
    ¬ (Leaves handlerRound ({ processname := [] }, .head) (peerCloses [[104, 105]]) ∨
      Leaves chatReceiveStep {} (peerCloses [[104, 105]]) ∨
      Leaves csRecvRound 0 (peerCloses [[104, 105]])) := by
  rintro (hnetapi | hchat | hcs)
  · exact handler_spins _ _ hnetapi
  · exact chat_spins _ hchat
  · exact csRecv_spins _ hcs

end LearningDirectory
