import LearningDirectory.HttpEvents

/-! The event loop with its batches, its mutex and the timeout thread, as a run of the table
in which each branch is one step. -/
namespace LearningDirectory
open StepRun HttpServer

namespace HttpServer

def withHeld (s : HttpServer) (b : Bool) : HttpServer := { s with held := b }

@[simp] theorem conns_withHeld (s : HttpServer) (b : Bool) : (s.withHeld b).conns = s.conns := rfl

@[simp] theorem withHeld_withHeld (s : HttpServer) (b b' : Bool) :
    (s.withHeld b).withHeld b' = s.withHeld b' := rfl

theorem epollMod_withHeld (s : HttpServer) (b : Bool) (fd : ℤ) (events : Interest) (result : ℤ) :
    (s.withHeld b).epollMod fd events result = (s.epollMod fd events result).withHeld b := by
  simp only [epollMod]
  split_ifs <;> rfl

end HttpServer

/-- No branch looks at the mutex between its lock and its unlock. -/
theorem branch_withHeld (s : HttpServer) (b : Bool) (a : TableStep) :
    branch (s.withHeld b) a = (branch s a).map fun x => (x.1, x.2.withHeld b) := by
  cases a with
  | accept calls =>
    rw [branch, branch, acceptBody_eq, acceptBody_eq]
    split_ifs <;> rfl
  | epollin fd calls =>
    let r := readn calls.read (List.replicate bufsize 0) bufsize
    have hn : 0 ≤ r.1 := readn_nonneg calls.read (List.replicate bufsize 0) bufsize
    change epollinBody fd r.1 r.2 calls (s.withHeld b) =
      (epollinBody fd r.1 r.2 calls s).map fun x => (x.1, x.2.withHeld b)
    cases hc : s.client fd with
    | none =>
      have hc' : (s.withHeld b).client fd = none := hc
      rw [epollinBody, epollinBody, deref_null hc, deref_null hc']
      rfl
    | some c =>
      have hc' : (s.withHeld b).client fd = some c := hc
      rw [epollinBody_eq hn hc, epollinBody_eq hn hc', epollMod_withHeld]
      rfl
  | epollout fd calls =>
    rw [branch, branch]
    cases hc : s.client fd with
    | none =>
      have hc' : (s.withHeld b).client fd = none := hc
      rw [epolloutBody, epolloutBody, deref_null hc, deref_null hc']
      rfl
    | some c =>
      have hc' : (s.withHeld b).client fd = some c := hc
      rw [epolloutBody_eq hc, epolloutBody_eq hc', conns_withHeld]
      split_ifs <;> rfl
  | timeout fd =>
    rw [branch, branch]
    cases hc : s.client fd with
    | none =>
      have hc' : (s.withHeld b).client fd = none := hc
      rw [timeoutClose, timeoutClose, deref_null hc, deref_null hc']
      rfl
    | some c =>
      have hc' : (s.withHeld b).client fd = some c := hc
      rw [timeoutClose_eq hc, timeoutClose_eq hc', conns_withHeld]
      split_ifs <;> rfl

theorem tableStep_withHeld {s t : HttpServer} {a : TableStep} (h : tableStep s a = some t)
    (b : Bool) : tableStep (s.withHeld b) a = some (t.withHeld b) := by
  obtain ⟨⟨f, u⟩, hu, rfl⟩ := Option.map_eq_some_iff.mp h
  rw [tableStep, branch_withHeld, ok_of_toOption hu]
  rfl

namespace HttpLoop

/-- The steps of the table that a step of the loop makes: a round of the inner loop takes one
branch or none. -/
def tableSteps (listenSock : ℤ) (s : HttpLoop) : HttpStep → List TableStep
  | .epollWait _ => []
  | .handle calls => (s.batch.head?.bind fun p => eventStep listenSock p.event calls).toList
  | .timeout fd _ => [.timeout fd]

end HttpLoop

def tableRun (listenSock : ℤ) (as : List HttpStep) : List TableStep :=
  (outputs (httpStep listenSock) (HttpLoop.tableSteps listenSock) {} as).flatten

/-- A round that ends has taken its branch, whatever became of the mutex. -/
theorem tableStep_of_iteration {listenSock : ℤ} {e : Event} {calls : Calls} {s t : HttpServer}
    (h : iteration listenSock e calls s = .ok t) (b : Bool) :
    run tableStep (s.withHeld b) (eventStep listenSock e calls).toList = some (t.withHeld b) := by
  rw [iteration_eq] at h
  cases ha : eventStep listenSock e calls with
  | none =>
    rw [ha] at h
    cases h
    rfl
  | some a =>
    rw [ha] at h
    obtain ⟨f, u, b', hb, rfl⟩ := round_ok h
    have hstep : tableStep (s.withHeld true) a = some u := by
      rw [tableStep, show branch (s.withHeld true) a = .ok (f, u) from hb]
      rfl
    have hfree := tableStep_withHeld hstep b
    rw [withHeld_withHeld] at hfree
    rw [Option.toList, run_cons, hfree]
    rfl

/-- With the mutex free, the round of a pending event for a client that is there ends. -/
theorem iteration_of_live {listenSock : ℤ} {e : Event} {calls : Calls} {s : HttpServer}
    (h : TableOk s) (hfree : s.held = false) (hcall : AcceptResult listenSock s e calls)
    (hlive : e.forClient listenSock → (s.client e.fd).isSome) :
    ∃ t, iteration listenSock e calls s = .ok t := by
  rw [iteration_eq]
  cases ha : eventStep listenSock e calls with
  | none => exact ⟨s, rfl⟩
  | some a =>
    have hlock : s.lock = .ok (s.withHeld true) := by simp [lock, hfree, withHeld]
    obtain ⟨hadm, -⟩ := eventStep_admissible (s := s) ha hcall hlive
    obtain ⟨f, t, hb, -⟩ := branch_effect h hadm
    have hbody : branch (s.withHeld true) a = .ok (f, t.withHeld true) := by
      rw [branch_withHeld, hb]
      rfl
    -- what the branch leaves locked its unlock can unlock
    refine ⟨if f = .unlock then t.withHeld false else t.withHeld true, ?_⟩
    dsimp only
    rw [hlock]
    change (branch (s.withHeld true) a >>= finish) = _
    rw [hbody]
    cases f with
    | unlock => rfl
    | «continue» => rfl

theorem handle_eq_some {listenSock : ℤ} {s t : HttpLoop} {calls : Calls}
    (h : httpStep listenSock s (.handle calls) = some t) :
    ∃ p rest, s.batch = p :: rest ∧ t.batch = rest ∧
      AcceptResult listenSock s.server p.event calls ∧
      iteration listenSock p.event calls s.server = .ok t.server := by
  rw [httpStep] at h
  cases hbatch : s.batch with
  | nil =>
    rw [hbatch] at h
    cases h
  | cons p rest =>
    rw [hbatch] at h
    dsimp only at h
    split_ifs at h with hcall
    obtain ⟨u, hu, rfl⟩ := Option.map_eq_some_iff.mp h
    exact ⟨p, rest, rfl, rfl, hcall, ok_of_toOption hu⟩

theorem timeout_eq_some {listenSock : ℤ} {s t : HttpLoop} {fd tm : ℤ}
    (h : httpStep listenSock s (.timeout fd tm) = some t) :
    ∃ c, s.server.client fd = some c ∧ s.server.held = false ∧ t.batch = s.batch ∧
      timeoutClose fd s.server = .ok t.server := by
  rw [httpStep] at h
  cases hc : s.server.client fd with
  | none =>
    rw [hc] at h
    cases h
  | some c =>
    rw [hc] at h
    dsimp only at h
    split_ifs at h with htest
    obtain ⟨u, hu, rfl⟩ := Option.map_eq_some_iff.mp h
    exact ⟨c, rfl, htest.2, rfl, ok_of_toOption hu⟩

/-- The table is the server as it is when nobody has the mutex. -/
structure Abstracts (listenSock : ℤ) (s : HttpLoop) (t : HttpServer) : Prop where
  batch : BatchOk listenSock s
  server : t = s.server.withHeld false

theorem abstracts_step {listenSock : ℤ} {s u : HttpLoop} {t : HttpServer} {a : HttpStep}
    (h : Abstracts listenSock s t) (ha : NoPendingClose listenSock s a)
    (hs : httpStep listenSock s a = some u) :
    Guarded tableStep Admissible t (s.tableSteps listenSock a) ∧
      ∃ v, run tableStep t (s.tableSteps listenSock a) = some v ∧ Abstracts listenSock u v := by
  obtain ⟨hbatch, rfl⟩ := h
  have hnext : BatchOk listenSock u := batchOk_step hbatch ha hs
  cases a with
  | epollWait events =>
    rw [httpStep] at hs
    split_ifs at hs
    cases hs
    exact ⟨List.forall_mem_nil _, _, rfl, hnext, rfl⟩
  | handle calls =>
    obtain ⟨p, rest, hb, -, hcall, hround⟩ := handle_eq_some hs
    have hsteps : s.tableSteps listenSock (.handle calls) =
        (eventStep listenSock p.event calls).toList := by
      rw [HttpLoop.tableSteps, hb]
      rfl
    have hlive (hclient : p.event.forClient listenSock) : (s.server.client p.event.fd).isSome :=
      isSome_of_current (hbatch.current p (hb ▸ List.mem_cons_self ..) hclient)
    rw [hsteps]
    refine ⟨?_, _, tableStep_of_iteration hround false, hnext, rfl⟩
    cases he : eventStep listenSock p.event calls with
    | none => exact List.forall_mem_nil _
    | some b =>
      have hfree : AcceptResult listenSock (s.server.withHeld false) p.event calls := hcall
      rw [Option.toList_some, guarded_one]
      exact (eventStep_admissible he hfree hlive).1
  | timeout fd tm =>
    obtain ⟨c, hc, -, -, hclose⟩ := timeout_eq_some hs
    have hstep : tableStep s.server (.timeout fd) = some u.server := by
      rw [tableStep, branch, hclose]
      rfl
    have hfree := tableStep_withHeld hstep false
    refine ⟨(guarded_one tableStep).mpr (Option.isSome_of_mem hc), _, ?_, hnext, rfl⟩
    rw [HttpLoop.tableSteps, run_cons, hfree]
    rfl

/-- A run in which the timeout thread closes no client that has an event pending is a run of
admissible steps of the table, one for each branch taken, and ends in the same table; and while
the mutex is free, the round of whatever event comes next meets no fault. -/
theorem loop_refines_table (listenSock : ℤ) (as : List HttpStep) (s : HttpLoop)
    (h : Guarded (httpStep listenSock) (NoPendingClose listenSock) {} as)
    (hr : run (httpStep listenSock) {} as = some s) :
    (Guarded tableStep Admissible {} (tableRun listenSock as) ∧
      run tableStep {} (tableRun listenSock as) = some (s.server.withHeld false)) ∧
    ∀ p ∈ s.batch.head?, ∀ calls, AcceptResult listenSock s.server p.event calls →
      s.server.held = false → ∃ t, iteration listenSock p.event calls s.server = .ok t := by
  have hstart : Abstracts listenSock {} {} := ⟨batchOk_start listenSock, rfl⟩
  obtain ⟨hguard, t, ht, hbatch, rfl⟩ :=
    run_outputs (httpStep listenSock) tableStep (HttpLoop.tableSteps listenSock)
      (fun _ _ _ _ h ha hs => abstracts_step h ha hs) hstart h hr
  refine ⟨⟨hguard, ht⟩, fun p hp calls hcall hfree => ?_⟩
  apply iteration_of_live hbatch.table hfree hcall
  intro hclient
  exact isSome_of_current (hbatch.current p (List.mem_of_mem_head? hp) hclient)

/-- Client 5 is accepted, closed between two batches, and accepted again. -/
theorem reuse_refines : ∃ s, run (httpStep 3) {} reuseBetweenBatches = some s ∧
    (Guarded tableStep Admissible {} (tableRun 3 reuseBetweenBatches) ∧
      run tableStep {} (tableRun 3 reuseBetweenBatches) = some (s.server.withHeld false)) ∧
    ∀ p ∈ s.batch.head?, ∀ calls, AcceptResult 3 s.server p.event calls →
      ∃ t, iteration 3 p.event calls s.server = .ok t := by
  have hrun : ∃ s ∈ run (httpStep 3) {} reuseBetweenBatches, s.server.held = false := by decide
  obtain ⟨s, hs, hfree⟩ := hrun
  obtain ⟨hrefines, hnext⟩ := loop_refines_table 3 reuseBetweenBatches s (by decide) hs
  exact ⟨s, hs, hrefines, fun p hp calls hcall => hnext p hp calls hcall hfree⟩

end LearningDirectory
