import LearningDirectory.HttpEvents

/-! `check_time_out`, which tests an entry of `fds` without the mutex and closes it under
the mutex later. -/
namespace LearningDirectory
open StepRun HttpServer

/-- The entry that has been found idle, and the client it had then. -/
structure Tested where
  fd : ℤ
  serial : ℕ
  /-- its `last_alive_time` has been written since -/
  touched : Bool := false

/-- A pass of `check_time_out` beside the event loop. -/
structure TimeoutPass where
  server : HttpServer := {}
  tm : ℤ := 0
  /-- the key that `it` has come to -/
  it : Option ℤ := none
  tested : Option Tested := none

inductive PassStep
  | pass (tm : ℤ)
  | test (fd : ℤ)
  | close
  | event (e : Event) (calls : Calls)

/-- Both branches that work on a client write its `last_alive_time`. -/
def Tested.after (listenSock : ℤ) (p : Tested) (e : Event) : Tested :=
  { p with touched := p.touched || (e.forClient listenSock ∧ e.fd = p.fd) }

def passStep (listenSock : ℤ) (s : TimeoutPass) : PassStep → Option TimeoutPass
  | .pass tm =>
    if s.tested.isNone then some { s with tm := tm, it := none } else none
  | .test fd =>
    -- a map is walked through in the order of its keys
    if s.tested.isNone ∧ (∀ key ∈ s.it, key < fd) ∧ (s.server.fds fd).isSome then
      match s.server.client fd with
      | some c =>
        let idle := 30 ≤ s.tm - c.lastAliveTime
        some { s with it := some fd, tested := if idle then some ⟨fd, c.serial, false⟩ else none }
      | none => some { s with it := some fd }
    else none
  | .close =>
    match s.tested with
    | some p =>
      -- the thread waits for the mutex
      if s.server.held = false then
        (timeoutClose p.fd s.server).toOption.map fun t => { s with server := t, tested := none }
      else none
    | none => none
  | .event e calls =>
    if AcceptResult listenSock s.server e calls then
      (iteration listenSock e calls s.server).toOption.map fun t =>
        { s with server := t, tested := s.tested.map (Tested.after listenSock · e) }
    else none

/-- The entry is there, has the client that was tested, and this client has not been active
since. -/
def Tested.Current (s : HttpServer) (p : Tested) : Prop :=
  (∃ c, s.fds p.fd = some (some c) ∧ c.serial = p.serial) ∧ p.touched = false

def ClosesTested (s : TimeoutPass) : PassStep → Prop
  | .close => ∀ p ∈ s.tested, s.server.held = false → p.Current s.server
  | _ => True

/-- Between the test of an entry and its close the event loop does not work on it. -/
def NoEventBetween (listenSock : ℤ) (s : TimeoutPass) : PassStep → Prop
  | .event e _ => ∀ p ∈ s.tested, e.forClient listenSock → e.fd ≠ p.fd
  | _ => True

instance decidableNoEventBetween (listenSock : ℤ) (s : TimeoutPass) :
    (a : PassStep) → Decidable (NoEventBetween listenSock s a)
  | .pass _ => isTrue trivial
  | .test _ => isTrue trivial
  | .close => isTrue trivial
  | .event e _ => inferInstanceAs (Decidable
      (∀ p ∈ s.tested, e.forClient listenSock → e.fd ≠ p.fd))

structure PassOk (s : TimeoutPass) : Prop where
  table : TableOk s.server
  current : ∀ p ∈ s.tested, p.Current s.server

/-- The client that will be closed has been active since its test. -/
def CloseOwed (s : TimeoutPass) : Prop := ∃ p ∈ s.tested, p.touched = true

/-- A branch that works on a client does not get beyond a NULL entry. -/
theorem live_of_iteration {listenSock : ℤ} {e : Event} {calls : Calls} {s t : HttpServer}
    (ht : iteration listenSock e calls s = .ok t) (hclient : e.forClient listenSock) :
    (s.client e.fd).isSome := by
  by_contra hnull
  have hc : client { s with held := true } e.fd = none := Option.not_isSome_iff_eq_none.mp hnull
  obtain ⟨hlisten, hevent⟩ := hclient
  rw [iteration, if_neg hlisten] at ht
  split_ifs at ht with hin hout
  · obtain ⟨f, u, b, hb, -⟩ := round_ok ht
    rw [epollinBody, deref_null hc] at hb
    cases hb
  · obtain ⟨f, u, b, hb, -⟩ := round_ok ht
    rw [epolloutBody, deref_null hc] at hb
    cases hb
  · exact hevent.elim hin hout

theorem touched_after {listenSock : ℤ} {p : Tested} {e : Event} :
    (p.after listenSock e).touched = true ↔
      p.touched = true ∨ e.forClient listenSock ∧ e.fd = p.fd := by
  simp [Tested.after]

theorem current_after {listenSock : ℤ} {s t : HttpServer} {p : Tested} {e : Event}
    (h : p.Current s) (hclient : t.client p.fd = s.client p.fd)
    (he : e.forClient listenSock → e.fd ≠ p.fd) : (p.after listenSock e).Current t := by
  obtain ⟨⟨c, hc, hserial⟩, htouched⟩ := h
  refine ⟨⟨c, ?_, hserial⟩, ?_⟩
  · apply client_eq_some.mp
    calc t.client p.fd = s.client p.fd := hclient
      _ = some c := client_eq_some.mpr hc
  · rw [Bool.eq_false_iff, Ne, touched_after, not_or, htouched]
    exact ⟨Bool.false_ne_true, fun hon => he hon.1 hon.2⟩

theorem passOk_test {listenSock : ℤ} {s t : TimeoutPass} {fd : ℤ} (h : PassOk s)
    (hs : passStep listenSock s (.test fd) = some t) : PassOk t := by
  rw [passStep] at hs
  obtain ⟨⟨hnone, -, -⟩, hs⟩ := Option.ite_none_right_eq_some.mp hs
  cases hc : s.server.client fd with
  | none =>
    rw [hc] at hs
    cases hs
    exact ⟨h.table, h.current⟩
  | some c =>
    rw [hc] at hs
    cases hs
    refine ⟨h.table, fun p hp => ?_⟩
    dsimp only at hp
    split_ifs at hp with hidle
    · obtain rfl : _ = p := Option.some.inj hp
      exact ⟨⟨c, client_eq_some.mp hc, rfl⟩, rfl⟩
    · cases hp

theorem passOk_close {listenSock : ℤ} {s t : TimeoutPass} (h : PassOk s)
    (hs : passStep listenSock s .close = some t) : PassOk t := by
  rw [passStep] at hs
  cases hp : s.tested with
  | none =>
    rw [hp] at hs
    cases hs
  | some p =>
    rw [hp] at hs
    obtain ⟨-, hs⟩ := Option.ite_none_right_eq_some.mp hs
    obtain ⟨u, hu, rfl⟩ := Option.map_eq_some_iff.mp hs
    obtain ⟨⟨c, hc, -⟩, -⟩ := h.current p hp
    obtain ⟨hclose, heffect⟩ := effect_timeout h.table (client_eq_some.mpr hc)
    cases (ok_of_toOption hu).symm.trans hclose
    exact ⟨heffect.ok, nofun⟩

theorem passOk_event {listenSock : ℤ} {s t : TimeoutPass} {e : Event} {calls : Calls}
    (h : PassOk s) (ha : NoEventBetween listenSock s (.event e calls))
    (hs : passStep listenSock s (.event e calls) = some t) : PassOk t := by
  rw [passStep] at hs
  obtain ⟨hcall, hs⟩ := Option.ite_none_right_eq_some.mp hs
  obtain ⟨u, hu, rfl⟩ := Option.map_eq_some_iff.mp hs
  have hround := ok_of_toOption hu
  obtain ⟨htable, hframe⟩ :=
    iteration_effect h.table hcall (live_of_iteration hround) hround
  refine ⟨htable, fun q hq => ?_⟩
  obtain ⟨p, hp, rfl⟩ := Option.map_eq_some_iff.mp hq
  have hcurrent := h.current p hp
  obtain ⟨⟨c, hc, -⟩, -⟩ := hcurrent
  have hconn : p.fd ∈ s.server.conns :=
    (h.table.live _).mp (Option.isSome_of_mem (client_eq_some.mpr hc))
  exact current_after (h.current p hp) (hframe _ hconn (ha p hp)) (ha p hp)

theorem passOk_step {listenSock : ℤ} {s t : TimeoutPass} {a : PassStep} (h : PassOk s)
    (ha : NoEventBetween listenSock s a) (hs : passStep listenSock s a = some t) : PassOk t := by
  cases a with
  | pass tm =>
    obtain ⟨-, hs⟩ := Option.ite_none_right_eq_some.mp hs
    cases hs
    exact ⟨h.table, h.current⟩
  | test fd => exact passOk_test h hs
  | close => exact passOk_close h hs
  | event e calls => exact passOk_event h ha hs

/-- A step of the event loop that the guard does not admit is activity of the client. -/
theorem owed_of_event {listenSock : ℤ} {s t : TimeoutPass} {a : PassStep}
    (ha : ¬ NoEventBetween listenSock s a) (hs : passStep listenSock s a = some t) :
    CloseOwed t := by
  cases a with
  | pass | test | close => exact absurd trivial ha
  | event e calls =>
    obtain ⟨-, hs⟩ := Option.ite_none_right_eq_some.mp hs
    obtain ⟨u, hu, rfl⟩ := Option.map_eq_some_iff.mp hs
    rw [NoEventBetween] at ha
    push Not at ha
    obtain ⟨p, hp, hclient, he⟩ := ha
    refine ⟨_, Option.mem_map_of_mem _ hp, ?_⟩
    apply touched_after.mpr
    exact Or.inr ⟨hclient, he⟩

/-- The timeout thread goes on only with the close. -/
theorem closeOwed_step {listenSock : ℤ} {s t : TimeoutPass} {a : PassStep} (h : CloseOwed s)
    (ha : ClosesTested s a) (hs : passStep listenSock s a = some t) : CloseOwed t := by
  obtain ⟨p, hp, htouched⟩ := h
  have hsome : ¬ s.tested.isNone := by
    rw [hp]
    exact Bool.false_ne_true
  cases a with
  | pass tm =>
    obtain ⟨hnone, -⟩ := Option.ite_none_right_eq_some.mp hs
    exact absurd hnone hsome
  | test fd =>
    obtain ⟨⟨hnone, -⟩, -⟩ := Option.ite_none_right_eq_some.mp hs
    exact absurd hnone hsome
  | close =>
    rw [passStep, hp] at hs
    obtain ⟨hheld, -⟩ := Option.ite_none_right_eq_some.mp hs
    obtain ⟨-, hfree⟩ := ha p hp hheld
    exact absurd (htouched.symm.trans hfree) (by decide)
  | event e calls =>
    obtain ⟨-, hs⟩ := Option.ite_none_right_eq_some.mp hs
    obtain ⟨u, hu, rfl⟩ := Option.map_eq_some_iff.mp hs
    refine ⟨_, Option.mem_map_of_mem _ hp, ?_⟩
    apply touched_after.mpr
    exact Or.inl htouched

theorem passOk_start : PassOk {} := ⟨tableOk_empty, nofun⟩

/-- The timeout thread closes only clients that it has found idle and that have been idle
since, when the event loop never works on an entry between its test and its close; and only
then, in a run at whose end no close is left to be done. -/
theorem closes_tested_iff (listenSock : ℤ) (as : List PassStep) :
    (Guarded (passStep listenSock) (NoEventBetween listenSock) {} as →
      Guarded (passStep listenSock) ClosesTested {} as) ∧
    ∀ s, run (passStep listenSock) {} as = some s → s.tested = none →
      Guarded (passStep listenSock) ClosesTested {} as →
      Guarded (passStep listenSock) (NoEventBetween listenSock) {} as := by
  constructor
  · refine guarded_mono _ (I := PassOk) ?_ (fun _ _ _ h ha hs => passOk_step h ha hs) passOk_start
    intro s a h _
    cases a with
    | close => exact fun p hp _ => h.current p hp
    | pass | test | event => trivial
  · intro s hr hend
    refine guarded_of_settled _ (I := PassOk) (B := CloseOwed)
      (fun _ _ _ h ha hs => passOk_step h ha hs) (fun _ _ _ _ ha hs => owed_of_event ha hs)
      (fun _ _ _ h ha hs => closeOwed_step h ha hs) passOk_start hr ?_
    rintro ⟨p, hp, -⟩
    rw [hend] at hp
    cases hp

/-- Client 5 is accepted at the time 0 and found idle at the time 40. -/
def idleFound : List PassStep :=
  [.event ⟨3, true, false⟩ { accept := 5 }, .pass 40, .test 5]

theorem idle_client_closed : Guarded (passStep 3) ClosesTested {} (idleFound ++ [.close]) :=
  (closes_tested_iff 3 (idleFound ++ [.close])).1 (by decide)

/-- It sends a request before the timeout thread has the mutex. -/
def activeBeforeClose : List PassStep := idleFound ++ [.event ⟨5, true, false⟩ { time := 41 }]

theorem active_client_closed :
    ¬ ∀ (listenSock : ℤ) (as : List PassStep),
      Guarded (passStep listenSock) ClosesTested {} as := by
  intro h
  have htouched : (run (passStep 3) {} activeBeforeClose).map
      (fun s => (s.tested.map Tested.touched, s.server.held)) = some (some true, false) := by
    decide +kernel
  obtain ⟨s, hs, he⟩ := Option.map_eq_some_iff.mp htouched
  obtain ⟨hp, hheld⟩ := Prod.mk.inj he
  obtain ⟨p, hp, hactive⟩ := Option.map_eq_some_iff.mp hp
  have hlast := ((guarded_append_one _ hs).mp (h 3 (activeBeforeClose ++ [.close]))).2
  obtain ⟨-, hidle⟩ := hlast p hp hheld
  exact absurd (hactive.symm.trans hidle) (by decide)

end LearningDirectory
