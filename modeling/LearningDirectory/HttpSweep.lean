import LearningDirectory.HttpTimeout

/-! A pass of `check_time_out` over the whole of `fds`: no client that has been idle for 30
seconds is left behind it. -/
namespace LearningDirectory
open StepRun HttpServer

/-- The iterator skips no connection, and the clock does not go back. -/
def InOrderOfKeys (s : TimeoutPass) : PassStep → Prop
  | .test fd => ∀ key ∈ s.server.conns, key < fd → ∃ last ∈ s.it, key ≤ last
  | .event _ calls => s.tm ≤ calls.time
  | _ => True

instance decidableInOrderOfKeys (s : TimeoutPass) : (a : PassStep) → Decidable (InOrderOfKeys s a)
  | .test fd => inferInstanceAs (Decidable
      (∀ key ∈ s.server.conns, key < fd → ∃ last ∈ s.it, key ≤ last))
  | .event _ calls => inferInstanceAs (Decidable (s.tm ≤ calls.time))
  | .pass _ => isTrue trivial
  | .close => isTrue trivial

/-- The iterator is at the client or beyond it, and the client is not about to be closed. -/
def TimeoutPass.Behind (s : TimeoutPass) (fd : ℤ) : Prop :=
  (∃ last ∈ s.it, fd ≤ last) ∧ ∀ p ∈ s.tested, p.fd ≠ fd

structure SweepOk (s : TimeoutPass) : Prop where
  table : TableOk s.server
  alive : ∀ fd c, s.server.client fd = some c → s.Behind fd → s.tm - c.lastAliveTime < 30

/-- A branch writes the time of day into the entries that it changes. -/
theorem changed_in_iteration {listenSock : ℤ} {e : Event} {calls : Calls} {s t : HttpServer}
    (h : iteration listenSock e calls s = .ok t) {fd : ℤ} {c : ClientT}
    (hc : t.client fd = some c) : s.client fd = some c ∨ c.lastAliveTime = calls.time := by
  rw [iteration_eq] at h
  cases ha : eventStep listenSock e calls with
  | none =>
    rw [ha] at h
    cases h
    exact Or.inl hc
  | some a =>
    rw [ha] at h
    obtain ⟨f, u, b, hb, rfl⟩ := round_ok h
    have hstep : tableStep { s with held := true } a = some u := by
      rw [tableStep, hb]
      rfl
    have hc : u.client fd = some c := hc
    unfold eventStep at ha
    split_ifs at ha
    · cases ha
      rw [tableStep_accept hstep] at hc
      split_ifs at hc
      · obtain rfl := Option.some.inj hc
        exact Or.inr rfl
      · exact Or.inl hc
    · cases ha
      obtain ⟨c', -, hafter⟩ := tableStep_epollin hstep
      rw [hafter] at hc
      split_ifs at hc
      · obtain rfl := Option.some.inj hc
        exact Or.inr rfl
      · exact Or.inl hc
    · cases ha
      obtain ⟨c', -, hafter⟩ := tableStep_epollout hstep
      rw [hafter] at hc
      split_ifs at hc
      · obtain rfl := Option.some.inj hc
        exact Or.inr rfl
      · exact Or.inl hc

theorem sweepOk_test {listenSock : ℤ} {s t : TimeoutPass} {fd : ℤ} (h : SweepOk s)
    (ha : InOrderOfKeys s (.test fd)) (hs : passStep listenSock s (.test fd) = some t) :
    SweepOk t := by
  rw [passStep] at hs
  obtain ⟨⟨hnone, -, -⟩, hs⟩ := Option.ite_none_right_eq_some.mp hs
  -- the connections before this one are behind the iterator already
  have hbefore (fd' : ℤ) (c' : ClientT) (hc' : s.server.client fd' = some c') (hlt : fd' < fd) :
      s.tm - c'.lastAliveTime < 30 := by
    apply h.alive fd' c' hc'
    refine ⟨ha fd' ((h.table.live fd').mp (Option.isSome_of_mem hc')) hlt, fun p hp => ?_⟩
    rw [Option.isNone_iff_eq_none.mp hnone] at hp
    cases hp
  cases hc : s.server.client fd with
  | none =>
    rw [hc] at hs
    cases hs
    refine ⟨h.table, fun fd' c' hc' hbehind => ?_⟩
    obtain ⟨⟨last, hlast, hle⟩, -⟩ := hbehind
    obtain rfl := Option.some.inj hlast
    apply hbefore fd' c' hc'
    apply lt_of_le_of_ne hle
    rintro rfl
    rw [hc] at hc'
    cases hc'
  | some c =>
    rw [hc] at hs
    cases hs
    refine ⟨h.table, fun fd' c' hc' hbehind => ?_⟩
    obtain ⟨⟨last, hlast, hle⟩, hnot⟩ := hbehind
    obtain rfl := Option.some.inj hlast
    rcases lt_or_eq_of_le hle with hlt | rfl
    · exact hbefore fd' c' hc' hlt
    · obtain rfl := Option.some.inj (hc.symm.trans hc')
      by_contra hidle
      apply hnot ⟨fd', c.serial, false⟩
      · dsimp only
        rw [if_pos (Int.not_lt.mp hidle)]
        rfl
      · rfl

theorem sweepOk_close {listenSock : ℤ} {s t : TimeoutPass} (h : SweepOk s)
    (hs : passStep listenSock s .close = some t) : SweepOk t := by
  rw [passStep] at hs
  cases hp : s.tested with
  | none =>
    rw [hp] at hs
    cases hs
  | some p =>
    rw [hp] at hs
    obtain ⟨-, hs⟩ := Option.ite_none_right_eq_some.mp hs
    obtain ⟨u, hu, rfl⟩ := Option.map_eq_some_iff.mp hs
    cases hc : s.server.client p.fd with
    | none =>
      -- `it->second` has become NULL
      rw [timeoutClose, deref_null hc] at hu
      cases hu
    | some c =>
      obtain ⟨hclose, heffect⟩ := effect_timeout h.table hc
      cases (ok_of_toOption hu).symm.trans hclose
      refine ⟨heffect.ok, fun fd' c' hc' hbehind => ?_⟩
      change (s.server.drop p.fd).client fd' = some c' at hc'
      rw [client_drop] at hc'
      split_ifs at hc' with he
      apply h.alive fd' c' hc'
      refine ⟨hbehind.1, fun q hq => ?_⟩
      rw [hp] at hq
      obtain rfl := Option.some.inj hq
      exact Ne.symm he

theorem sweepOk_event {listenSock : ℤ} {s t : TimeoutPass} {e : Event} {calls : Calls}
    (h : SweepOk s) (ha : InOrderOfKeys s (.event e calls))
    (hs : passStep listenSock s (.event e calls) = some t) : SweepOk t := by
  rw [passStep] at hs
  obtain ⟨hcall, hs⟩ := Option.ite_none_right_eq_some.mp hs
  obtain ⟨u, hu, rfl⟩ := Option.map_eq_some_iff.mp hs
  have hround := ok_of_toOption hu
  obtain ⟨htable, -⟩ := iteration_effect h.table hcall (live_of_iteration hround) hround
  refine ⟨htable, fun fd c hc hbehind => ?_⟩
  rcases changed_in_iteration hround hc with hsame | htime
  · apply h.alive fd c hsame
    refine ⟨hbehind.1, fun p hp => ?_⟩
    exact hbehind.2 (p.after listenSock e) (Option.mem_map_of_mem _ hp)
  · have hclock : s.tm ≤ calls.time := ha
    change s.tm - c.lastAliveTime < 30
    omega

theorem sweepOk_step {listenSock : ℤ} {s t : TimeoutPass} {a : PassStep} (h : SweepOk s)
    (ha : InOrderOfKeys s a) (hs : passStep listenSock s a = some t) : SweepOk t := by
  cases a with
  | pass tm =>
    obtain ⟨-, hs⟩ := Option.ite_none_right_eq_some.mp hs
    cases hs
    refine ⟨h.table, fun fd c hc hbehind => ?_⟩
    -- the iterator is before every key
    obtain ⟨⟨last, hlast, -⟩, -⟩ := hbehind
    cases hlast
  | test fd => exact sweepOk_test h ha hs
  | close => exact sweepOk_close h hs
  | event e calls => exact sweepOk_event h ha hs

/-- Whatever the event loop does meanwhile, a client that the pass has left behind had been
active in the 30 seconds before the pass began, and so have all when the pass has come to
the last key. -/
theorem sweep_leaves_no_idle (listenSock : ℤ) (as : List PassStep) (s : TimeoutPass)
    (h : Guarded (passStep listenSock) InOrderOfKeys {} as)
    (hr : run (passStep listenSock) {} as = some s) :
    (∀ fd c, s.server.client fd = some c → s.Behind fd → s.tm - c.lastAliveTime < 30) ∧
    (s.tested = none → (∀ fd ∈ s.server.conns, ∃ last ∈ s.it, fd ≤ last) →
      ∀ fd c, s.server.client fd = some c → s.tm - c.lastAliveTime < 30) := by
  have hstart : SweepOk {} := by
    refine ⟨tableOk_empty, fun fd c hc => ?_⟩
    cases hc
  have hok : SweepOk s :=
    run_rule (passStep listenSock) (I := fun _ s => SweepOk s) hstart
      (fun _ _ _ _ _ hi ha hs => sweepOk_step hi ha hs) h hr
  refine ⟨hok.alive, fun hend hlast fd c hc => ?_⟩
  apply hok.alive fd c hc
  refine ⟨hlast fd ((hok.table.live fd).mp (Option.isSome_of_mem hc)), fun p hp => ?_⟩
  rw [hend] at hp
  cases hp

/-- Client 5 is idle, client 7 sends a request while the pass is between the two. -/
def sweepOfTwo : List PassStep :=
  [.event ⟨3, true, false⟩ { accept := 5 }, .event ⟨3, true, false⟩ { accept := 7 }, .pass 40,
    .test 5, .close, .event ⟨7, true, false⟩ { time := 41 }, .test 7]

theorem sweep_of_two : ∃ s, run (passStep 3) {} sweepOfTwo = some s ∧ s.server.conns = {7} ∧
    ∀ fd c, s.server.client fd = some c → s.tm - c.lastAliveTime < 30 := by
  have hrun : ∃ s ∈ run (passStep 3) {} sweepOfTwo, s.server.conns = {7} ∧ s.tested = none ∧
      ∀ fd ∈ s.server.conns, ∃ last ∈ s.it, fd ≤ last := by decide +kernel
  obtain ⟨s, hs, hconns, htested, hlast⟩ := hrun
  have hsweep := sweep_leaves_no_idle 3 sweepOfTwo s (by decide +kernel) hs
  exact ⟨s, hs, hconns, hsweep.2 htested hlast⟩

end LearningDirectory
