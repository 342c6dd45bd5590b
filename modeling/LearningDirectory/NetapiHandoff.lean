import LearningDirectory.NetapiServer

/-! The start of the handler threads: each one takes its descriptor from the back of
`recvsock` when it starts to run, not when it is spawned. -/
namespace LearningDirectory
open StepRun

structure Handoff where
  net : Netapi
  /-- threads created by `start_msghandle_thread` that have not run yet -/
  spawned : ℕ
  /-- the descriptors of the handlers that have started, in the order of their starts -/
  serving : List ℤ

inductive HandoffStep
  | accept (newSock : ℤ)
  | start
deriving DecidableEq

/-- An accept returns a descriptor that is not open; the server closes none. -/
def handoffStep (s : Handoff) : HandoffStep → Option Handoff
  | .accept newSock =>
    if newSock ∈ s.net.recvsock then none
    else some { s with net := serverHandleaccept newSock s.net, spawned := s.spawned+1 }
  | .start =>
    -- `int sockfd = threadarg->recvsock.back();`
    match s.spawned, s.net.back with
    | k+1, some sockfd => some { s with spawned := k, serving := s.serving ++ [sockfd] }
    | _, _ => none

def handoffStart (processname : Bytes) : Handoff := ⟨serverStart processname, 0, []⟩

/-- A connection is accepted only once the handlers of the earlier ones have started. -/
def AcceptWhenIdle (s : Handoff) : HandoffStep → Prop
  | .accept _ => s.spawned = 0
  | .start => True

instance decidableAcceptWhenIdle (s : Handoff) : (a : HandoffStep) → Decidable (AcceptWhenIdle s a)
  | .accept _ => inferInstanceAs (Decidable (s.spawned = 0))
  | .start => isTrue trivial

/-- All descriptors but perhaps the last have been handed over, in order. -/
structure Handed (s : Handoff) : Prop where
  waiting : s.spawned ≤ 1
  handed : ∃ rest, s.net.recvsock = s.serving ++ rest ∧ rest.length = s.spawned

/-- Some descriptor has no handler and is no longer at the back of the queue. -/
def Missed (s : Handoff) : Prop :=
  ∃ d ∈ s.net.recvsock, d ∉ s.serving ∧ s.net.back ≠ some d

theorem handoffStep_cases {s t : Handoff} {a : HandoffStep} (h : handoffStep s a = some t) :
    (∃ d, a = .accept d ∧ d ∉ s.net.recvsock ∧
      t = { s with net := serverHandleaccept d s.net, spawned := s.spawned+1 }) ∨
    (∃ k d, a = .start ∧ s.spawned = k+1 ∧ s.net.back = some d ∧
      t = { s with spawned := k, serving := s.serving ++ [d] }) := by
  cases a with
  | accept d =>
    simp only [handoffStep] at h
    split at h
    · cases h
    · rename_i hd
      exact Or.inl ⟨d, rfl, hd, (Option.some.inj h).symm⟩
  | start =>
    simp only [handoffStep] at h
    split at h
    · rename_i k d hk hd
      exact Or.inr ⟨k, d, rfl, hk, hd, (Option.some.inj h).symm⟩
    · cases h

theorem nodup_step {s t : Handoff} {a : HandoffStep} (hn : s.net.recvsock.Nodup)
    (h : handoffStep s a = some t) : t.net.recvsock.Nodup := by
  rcases handoffStep_cases h with ⟨d, rfl, hd, rfl⟩ | ⟨k, d, rfl, -, -, rfl⟩
  · simpa only [serverHandleaccept, List.concat_eq_append] using hn.concat hd
  · exact hn

theorem handed_step {s t : Handoff} {a : HandoffStep} (hs : Handed s) (ha : AcceptWhenIdle s a)
    (h : handoffStep s a = some t) : Handed t := by
  obtain ⟨hw, rest, hrest, hlen⟩ := hs
  rcases handoffStep_cases h with ⟨d, rfl, hd, rfl⟩ | ⟨k, d, rfl, hk, hb, rfl⟩
  -- nothing was waiting, so the new descriptor is the only one to be handed over
  · have hzero : s.spawned = 0 := ha
    obtain rfl : rest = [] := List.length_eq_zero_iff.mp (hlen.trans hzero)
    refine ⟨by simp [hzero], [d], ?_, by simp [hzero]⟩
    simp only [serverHandleaccept, hrest, List.append_nil]
  · obtain ⟨x, rfl⟩ := List.length_eq_one_iff.mp (hlen.trans (by omega : s.spawned = 1))
    -- the one that waits is at the back
    have hx : x = d := by
      rw [Netapi.back, hrest, List.getLast?_concat] at hb
      exact Option.some.inj hb
    refine ⟨by dsimp only; omega, [], ?_, ?_⟩
    · rw [List.append_nil, ← hx]
      exact hrest
    · dsimp only
      rw [List.length_nil]
      omega

theorem missed_step {s t : Handoff} {a : HandoffStep} (hs : Missed s)
    (h : handoffStep s a = some t) : Missed t := by
  obtain ⟨x, hx, hserved, hback⟩ := hs
  -- the queue only grows at its back, and only its back is handed over
  rcases handoffStep_cases h with ⟨d, rfl, hd, rfl⟩ | ⟨k, d, rfl, hk, hb, rfl⟩
  · refine ⟨x, List.mem_append_left _ hx, hserved, ?_⟩
    rw [back_serverHandleaccept]
    intro he
    exact hd (Option.some.inj he ▸ hx)
  · refine ⟨x, hx, ?_, hback⟩
    rw [List.mem_append, List.mem_singleton]
    rintro (hold | rfl)
    · exact hserved hold
    · exact hback hb

/-- An accept while a handler is still to start leaves the connection before it unserved. -/
theorem missed_of_early_accept {s t : Handoff} {a : HandoffStep} (hs : Handed s)
    (hn : s.net.recvsock.Nodup) (ha : ¬ AcceptWhenIdle s a)
    (h : handoffStep s a = some t) : Missed t := by
  obtain ⟨hw, rest, hrest, hlen⟩ := hs
  rcases handoffStep_cases h with ⟨d, rfl, hd, rfl⟩ | ⟨k, d, rfl, -, -, rfl⟩
  · have hone : s.spawned = 1 := by
      have hpos : s.spawned ≠ 0 := ha
      omega
    obtain ⟨x, rfl⟩ := List.length_eq_one_iff.mp (hlen.trans hone)
    have hx : x ∈ s.net.recvsock := by rw [hrest]; simp
    refine ⟨x, List.mem_append_left _ hx, ?_, ?_⟩
    · rw [hrest] at hn
      exact fun hmem => (List.nodup_append.mp hn).2.2 x hmem x (List.mem_singleton_self x) rfl
    · rw [back_serverHandleaccept]
      intro he
      exact hd (Option.some.inj he ▸ hx)
  · exact absurd trivial ha

structure InTurn (s : Handoff) : Prop where
  nodup : s.net.recvsock.Nodup
  handed : Handed s

structure OutOfTurn (s : Handoff) : Prop where
  nodup : s.net.recvsock.Nodup
  missed : Missed s

theorem handoff_split {processname : Bytes} {as : List HandoffStep} {s : Handoff}
    (h : run handoffStep (handoffStart processname) as = some s) :
    (Guarded handoffStep AcceptWhenIdle (handoffStart processname) as → InTurn s) ∧
      (¬ Guarded handoffStep AcceptWhenIdle (handoffStart processname) as → OutOfTurn s) := by
  apply run_split handoffStep ⟨List.nodup_nil, Nat.zero_le 1, [], rfl, rfl⟩ ?_ ?_ ?_ h
  · intro t a u ht ha hu
    exact ⟨nodup_step ht.nodup hu, handed_step ht.handed ha hu⟩
  · intro t a u ht ha hu
    have hmissed : Missed u := missed_of_early_accept ht.handed ht.nodup ha hu
    exact ⟨nodup_step ht.nodup hu, hmissed⟩
  · intro t a u ht hu
    exact ⟨nodup_step ht.nodup hu, missed_step ht.missed hu⟩

/-- Once all spawned handlers have started, each accepted descriptor is served by exactly
one of them exactly if no connection was accepted while a handler was still to start. -/
theorem one_handler_each_iff (processname : Bytes) (as : List HandoffStep) (s : Handoff)
    (h : run handoffStep (handoffStart processname) as = some s) (hidle : s.spawned = 0) :
    (∀ d ∈ s.net.recvsock, s.serving.count d = 1) ↔
      Guarded handoffStep AcceptWhenIdle (handoffStart processname) as := by
  obtain ⟨hturn, hout⟩ := handoff_split h
  constructor
  · intro hall
    by_contra hg
    obtain ⟨d, hd, hserved, -⟩ := (hout hg).missed
    have hone := hall d hd
    rw [List.count_eq_zero_of_not_mem hserved] at hone
    cases hone
  · intro hg d hd
    obtain ⟨hn, -, rest, hrest, hlen⟩ := hturn hg
    obtain rfl : rest = [] := List.length_eq_zero_iff.mp (hlen.trans hidle)
    rw [List.append_nil] at hrest
    rw [← hrest]
    exact List.count_eq_one_of_mem hn hd

theorem two_clients_in_turn :
    ∃ s, run handoffStep (handoffStart []) [.accept 4, .start, .accept 5, .start] = some s ∧
      s.serving.count 4 = 1 :=
  ⟨_, rfl, (one_handler_each_iff [] [.accept 4, .start, .accept 5, .start] _ rfl rfl).mpr
    (by decide) 4 (by decide)⟩

/-- Both connections are accepted before the first handler runs. -/
def earlyAccepts : List HandoffStep := [.accept 4, .accept 5, .start, .start]

theorem early_accepts_share_handler :
    ¬ ∀ s, run handoffStep (handoffStart []) earlyAccepts = some s → s.spawned = 0 →
      ∀ d ∈ s.net.recvsock, s.serving.count d = 1 := by
  intro h
  exact absurd (h _ rfl rfl 4 (by decide)) (by decide)

end LearningDirectory
