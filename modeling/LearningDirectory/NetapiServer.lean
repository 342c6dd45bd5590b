import LearningDirectory.NetapiStream
import LearningDirectory.StepRun

/-! The netapi server over several connections: accepts push descriptors on `recvsock`,
handlers register names under its last entry and are started from it. -/
namespace LearningDirectory
open StepRun AlternatingReads

/-- The effect of `server_handleaccept` on the object; a failed accept pushes -1. -/
def serverHandleaccept (newSock : ℤ) (n : Netapi) : Netapi :=
  { n with recvsock := n.recvsock ++ [newSock] }

theorem back_serverHandleaccept (newSock : ℤ) (n : Netapi) :
    (serverHandleaccept newSock n).back = some newSock :=
  List.getLast?_concat

def frameHead (f : Frame) : Head := parseHead (f.bytes.take 60)

def handleFrame (n : Netapi) (f : Frame) : Turn :=
  receive n .head [f.bytes.take 60, f.bytes.drop 60]

theorem length_take_frame (f : Frame) : (f.bytes.take 60).length = 60 := by
  rw [List.length_take, f.size]
  rfl

theorem length_drop_frame (f : Frame) : (f.bytes.drop 60).length = 40 := by
  rw [List.length_drop, f.size]

theorem chunkHead_frame (f : Frame) : chunkHead (f.bytes.take 60) = frameHead f := by
  rw [chunkHead, fillBuffer_full (length_take_frame f), frameHead]

theorem take_frame_ne_nil (f : Frame) : f.bytes.take 60 ≠ [] := by
  intro h
  have hl := length_take_frame f
  rw [h] at hl
  cases hl

theorem drop_frame_ne_nil (f : Frame) : f.bytes.drop 60 ≠ [] := by
  intro h
  have hl := length_drop_frame f
  rw [h] at hl
  cases hl

theorem handleFrame_net (n : Netapi) (f : Frame) :
    (handleFrame n f).net = (registHead (frameHead f) n).1 := by
  rw [handleFrame, receive_message n (take_frame_ne_nil f) (drop_frame_ne_nil f),
    chunkHead_frame]
  rfl

/-! ### Registration -/

inductive ServerEvent
  | accept (newSock : ℤ)
  | message (sockfd : ℤ) (f : Frame)
deriving DecidableEq

/-- Accept a connection, or let the handler of an accepted connection process the next
complete message read from it. -/
def serverStep (n : Netapi) : ServerEvent → Option Netapi
  | .accept newSock => some (serverHandleaccept newSock n)
  | .message sockfd f => if sockfd ∈ n.recvsock then some (handleFrame n f).net else none

/-- Every name is bound to a connection that asked for it. -/
def BindsReader (events : List ServerEvent) (n : Netapi) : Prop :=
  ∀ name d, n.regtable.lookup name = some d →
    ∃ f, .message d f ∈ events ∧ (frameHead f).mType = regText ∧ (frameHead f).procname = name

/-- A registration of a new name is read from the connection accepted last. -/
def RegFromLast (n : Netapi) : ServerEvent → Prop
  | .accept _ => True
  | .message sockfd f =>
    (frameHead f).mType = regText → (frameHead f).procname ∉ n.regtable → n.back = some sockfd

instance decidableRegFromLast (n : Netapi) : (e : ServerEvent) → Decidable (RegFromLast n e)
  | .accept _ => isTrue trivial
  | .message sockfd f => inferInstanceAs (Decidable ((frameHead f).mType = regText →
      (frameHead f).procname ∉ n.regtable → n.back = some sockfd))

/-- Names that were asked for stay in the table. -/
def RegKept (events : List ServerEvent) (n : Netapi) : Prop :=
  ∀ d f, .message d f ∈ events → (frameHead f).mType = regText →
    (frameHead f).procname ∈ n.regtable

/-- What a step does: an accept, a message that leaves the table alone, or a registration
under the last entry of `recvsock`. -/
theorem serverStep_cases {n m : Netapi} {e : ServerEvent} (h : serverStep n e = some m) :
    (∃ newSock, e = .accept newSock ∧ m = serverHandleaccept newSock n) ∨
    (∃ sockfd f, e = .message sockfd f ∧ (frameHead f).mType ≠ regText ∧ m = n) ∨
    (∃ sockfd f d, e = .message sockfd f ∧ (frameHead f).mType = regText ∧
      n.back = some d ∧ m = regist (frameHead f).procname d n) := by
  cases e with
  | accept newSock => exact Or.inl ⟨newSock, rfl, (Option.some.inj h).symm⟩
  | message sockfd f =>
    simp only [serverStep] at h
    split at h
    · rename_i hmem
      -- the queue is not empty, so `back` is defined
      have hm := Option.some.inj h
      rw [handleFrame_net] at hm
      by_cases hreg : (frameHead f).mType = regText
      · have hne : n.recvsock ≠ [] := List.ne_nil_of_mem hmem
        have hb : n.back = some (n.recvsock.getLast hne) := List.getLast?_eq_some_getLast hne
        rw [registHead_reg hreg hb] at hm
        exact Or.inr (Or.inr ⟨sockfd, f, _, rfl, hreg, hb, hm.symm⟩)
      · rw [registHead_other n hreg] at hm
        exact Or.inr (Or.inl ⟨sockfd, f, rfl, hreg, hm.symm⟩)
    · cases h

theorem regKept_step {pre : List ServerEvent} {n m : Netapi} {e : ServerEvent}
    (hk : RegKept pre n) (hs : serverStep n e = some m) : RegKept (pre ++ [e]) m := by
  intro s f hmem hreg
  rw [List.mem_append, List.mem_singleton] at hmem
  rcases serverStep_cases hs with ⟨newSock, rfl, rfl⟩ | ⟨s', f', rfl, hother, rfl⟩ |
    ⟨s', f', d, rfl, -, -, rfl⟩
  · rcases hmem with hmem | hmem
    · exact hk s f hmem hreg
    · cases hmem
  · rcases hmem with hmem | hmem
    · exact hk s f hmem hreg
    · cases hmem
      exact absurd hreg hother
  · rw [mem_regist]
    rcases hmem with hmem | hmem
    · exact Or.inr (hk s f hmem hreg)
    · cases hmem
      exact Or.inl rfl

/-- A step keeps all names bound to their readers exactly if a registration of a new
name comes from the connection accepted last. -/
theorem bindsReader_step {pre : List ServerEvent} {n m : Netapi} {e : ServerEvent}
    (hk : RegKept pre n) (hp : BindsReader pre n) (hs : serverStep n e = some m) :
    BindsReader (pre ++ [e]) m ↔ RegFromLast n e := by
  have hold (name : Bytes) (d : ℤ) (hl : n.regtable.lookup name = some d) :
      ∃ f, .message d f ∈ pre ++ [e] ∧ (frameHead f).mType = regText ∧
        (frameHead f).procname = name := by
    obtain ⟨f, hmem, hf⟩ := hp name d hl
    exact ⟨f, List.mem_append_left _ hmem, hf⟩
  rcases serverStep_cases hs with ⟨newSock, rfl, rfl⟩ | ⟨s, f, rfl, hother, rfl⟩ |
    ⟨s, f, d, rfl, hreg, hb, rfl⟩
  -- without a registration the table is as it was
  · exact iff_of_true hold trivial
  · exact iff_of_true hold (fun hreg => absurd hreg hother)
  · constructor
    · intro hbinds _ hnew
      have hl : (regist (frameHead f).procname d n).regtable.lookup (frameHead f).procname =
          some d := by rw [lookup_regist, if_pos ⟨rfl, hnew⟩]
      obtain ⟨f', hmem, hreg', hname⟩ := hbinds _ d hl
      -- the name is new, so no earlier message can have asked for it
      rcases List.mem_append.mp hmem with hpre | hlast
      · exact absurd (hname ▸ hk d f' hpre hreg') hnew
      · cases List.mem_singleton.mp hlast
        exact hb
    · intro hlast name d' hl
      rw [lookup_regist] at hl
      split at hl
      · rename_i hnew
        -- the new entry is the reader's own descriptor
        have hsd := (hlast hreg hnew.2).symm.trans (hb.trans hl)
        exact ⟨f, by rw [← Option.some.inj hsd]; simp, hreg, hnew.1.symm⟩
      · exact hold name d' hl

def serverStart (processname : Bytes) : Netapi := { processname }

/-- In a run of accepts and messages every name stays bound to a connection that asked
for it exactly if each registration of a new name comes from the connection accepted last. -/
theorem binds_reader_iff (processname : Bytes) (events : List ServerEvent) (n : Netapi)
    (h : run serverStep (serverStart processname) events = some n) :
    Always serverStep BindsReader (serverStart processname) events ↔
      Guarded serverStep RegFromLast (serverStart processname) events := by
  apply always_iff_guarded serverStep (I := RegKept) ?_ ?_ ?_ ?_ h
  · intro d f hmem
    cases hmem
  · intro name d hl
    cases hl
  · exact fun pre t a u _ hk hs => regKept_step hk hs
  · exact fun pre t a u hk hp hs => bindsReader_step hk hp hs

theorem single_client_binds_reader :
    Always serverStep BindsReader (serverStart server1.processname)
      [.accept 4, .message 4 regFrame] :=
  (binds_reader_iff server1.processname [.accept 4, .message 4 regFrame] _ rfl).mpr
    (by decide +kernel)

/-- Two clients connect, then the first one registers. -/
def crossedEvents : List ServerEvent := [.accept 4, .accept 5, .message 4 regFrame]

theorem crossed_registration :
    ¬ Always serverStep BindsReader (serverStart server1.processname) crossedEvents := by
  intro h
  obtain ⟨f, hmem, -⟩ := h crossedEvents _ (List.prefix_refl _) rfl
    (frameHead regFrame).procname 5 (by decide +kernel)
  simp [crossedEvents] at hmem

end LearningDirectory
