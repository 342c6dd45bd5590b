import LearningDirectory.HttpTable
import Mathlib.Data.List.Nodup

/-! Batches of events: `epoll_wait` reports them all at once, the event loop handles them
one by one, and the timeout thread closes idle clients in between. -/
namespace LearningDirectory
open StepRun HttpServer

/-- An event still to be handled, with the client that `fds` had for its descriptor when
`epoll_wait` reported it. -/
structure Pending where
  event : Event
  reported : Option ℕ

structure HttpLoop where
  server : HttpServer := {}
  batch : List Pending := []

inductive HttpStep
  | epollWait (events : List Event)
  | handle (calls : Calls)
  | timeout (fd tm : ℤ)

/-- The event is for one of the two branches that work on a client. -/
def Event.forClient (listenSock : ℤ) (e : Event) : Prop :=
  e.fd ≠ listenSock ∧ (e.epollin ∨ e.epollout)

instance (listenSock : ℤ) (e : Event) : Decidable (e.forClient listenSock) :=
  inferInstanceAs (Decidable (_ ∧ _))

/-- The object that `fds[fd]` points to, if any. -/
def HttpServer.serialAt (s : HttpServer) (fd : ℤ) : Option ℕ := (s.client fd).map ClientT.serial

def AcceptResult (listenSock : ℤ) (s : HttpServer) (e : Event) (calls : Calls) : Prop :=
  e.fd = listenSock →
    calls.accept = -1 ∨ calls.accept ∉ s.conns ∧ calls.accept ≠ listenSock

instance (listenSock : ℤ) (s : HttpServer) (e : Event) (calls : Calls) :
    Decidable (AcceptResult listenSock s e calls) :=
  inferInstanceAs (Decidable (e.fd = listenSock → _))

def httpStep (listenSock : ℤ) (s : HttpLoop) : HttpStep → Option HttpLoop
  | .epollWait events =>
    -- at most one event a descriptor, each for a registered one
    if s.batch = [] ∧ (events.map Event.fd).Nodup ∧
        ∀ e ∈ events, e.fd = listenSock ∨ (s.server.epoll e.fd).isSome then
      some { s with batch := events.map fun e => ⟨e, s.server.serialAt e.fd⟩ }
    else none
  | .handle calls =>
    match s.batch with
    | [] => none
    | p :: rest =>
      if AcceptResult listenSock s.server p.event calls then
        (iteration listenSock p.event calls s.server).toOption.map fun t => ⟨t, rest⟩
      else none
  | .timeout fd tm =>
    match s.server.client fd with
    | some c =>
      -- the thread waits for the mutex
      if 30 ≤ tm - c.lastAliveTime ∧ s.server.held = false then
        (timeoutClose fd s.server).toOption.map fun t => { s with server := t }
      else none
    | none => none

/-- The client of `fds[fd]` is there, and the one that was there at the report. -/
def Pending.Current (s : HttpServer) (p : Pending) : Prop :=
  ∃ c, s.fds p.event.fd = some (some c) ∧ p.reported = some c.serial

/-- The branch that handles the next event finds the client it was reported for. -/
def AppliedToReported (listenSock : ℤ) (s : HttpLoop) : HttpStep → Prop
  | .handle _ => ∀ p ∈ s.batch.head?, p.event.forClient listenSock → p.Current s.server
  | _ => True

/-- The timeout thread closes no client for which an event is pending. -/
def NoPendingClose (listenSock : ℤ) (s : HttpLoop) : HttpStep → Prop
  | .timeout fd _ => ∀ p ∈ s.batch, p.event.forClient listenSock → p.event.fd ≠ fd
  | _ => True

instance decidableNoPendingClose (listenSock : ℤ) (s : HttpLoop) :
    (a : HttpStep) → Decidable (NoPendingClose listenSock s a)
  | .epollWait _ => isTrue trivial
  | .handle _ => isTrue trivial
  | .timeout fd _ => inferInstanceAs (Decidable
      (∀ p ∈ s.batch, p.event.forClient listenSock → p.event.fd ≠ fd))

/-- The pending events are for different descriptors, and for clients that are still there. -/
structure BatchOk (listenSock : ℤ) (s : HttpLoop) : Prop where
  table : TableOk s.server
  nodup : (s.batch.map fun p => p.event.fd).Nodup
  current : ∀ p ∈ s.batch, p.event.forClient listenSock → p.Current s.server

theorem current_of_client {s t : HttpServer} {p : Pending} (h : p.Current s)
    (ht : t.client p.event.fd = s.client p.event.fd) : p.Current t := by
  obtain ⟨c, hc, hreported⟩ := h
  exact ⟨c, client_eq_some.mp (ht.trans (client_eq_some.mpr hc)), hreported⟩

theorem isSome_of_current {s : HttpServer} {p : Pending} (h : p.Current s) :
    (s.client p.event.fd).isSome := by
  obtain ⟨c, hc, -⟩ := h
  exact Option.isSome_of_mem (client_eq_some.mpr hc)

theorem tableOk_held {s : HttpServer} (h : TableOk s) (b : Bool) :
    TableOk { s with held := b } := ⟨h.live, h.key, h.registered, h.serial⟩

theorem round_ok {s t : HttpServer} {body : HttpServer → Except Fault (Flow × HttpServer)}
    (h : (do finish (← body (← s.lock))) = .ok t) :
    ∃ f u b, body { s with held := true } = .ok (f, u) ∧ t = { u with held := b } := by
  cases hheld : s.held with
  | true =>
    have hlock : s.lock = .error .relock := by simp [lock, hheld]
    rw [hlock] at h
    cases h
  | false =>
    have hlock : s.lock = .ok { s with held := true } := by simp [lock, hheld]
    rw [hlock] at h
    change body { s with held := true } >>= finish = .ok t at h
    match hbody : body { s with held := true } with
    | .error f =>
      rw [hbody] at h
      cases h
    | .ok (.continue, u) =>
      rw [hbody] at h
      cases h
      exact ⟨_, _, _, rfl, rfl⟩
    | .ok (.unlock, u) =>
      rw [hbody] at h
      change u.unlock = .ok t at h
      rw [unlock] at h
      split_ifs at h
      cases h
      exact ⟨_, _, _, rfl, rfl⟩

def eventStep (listenSock : ℤ) (e : Event) (calls : Calls) : Option TableStep :=
  if e.fd = listenSock then some (.accept calls)
  else if e.epollin then some (.epollin e.fd calls)
  else if e.epollout then some (.epollout e.fd calls)
  else none

theorem iteration_eq (listenSock : ℤ) (e : Event) (calls : Calls) (s : HttpServer) :
    iteration listenSock e calls s =
      match eventStep listenSock e calls with
      | some a => do finish (← branch (← s.lock) a)
      | none => .ok s := by
  unfold iteration eventStep
  split_ifs <;> rfl

theorem eventStep_admissible {listenSock : ℤ} {e : Event} {calls : Calls} {s : HttpServer}
    {a : TableStep} (ha : eventStep listenSock e calls = some a)
    (hcall : AcceptResult listenSock s e calls)
    (hlive : e.forClient listenSock → (s.client e.fd).isSome) :
    Admissible s a ∧ ∀ fd, a.target = some fd → e.forClient listenSock ∧ fd = e.fd := by
  unfold eventStep at ha
  split_ifs at ha with hlisten hin hout
  · cases ha
    exact ⟨(hcall hlisten).imp_right And.left, fun fd hfd => by cases hfd⟩
  · cases ha
    have hclient : e.forClient listenSock := ⟨hlisten, Or.inl hin⟩
    exact ⟨hlive hclient, fun fd hfd => ⟨hclient, (Option.some.inj hfd).symm⟩⟩
  · cases ha
    have hclient : e.forClient listenSock := ⟨hlisten, Or.inr hout⟩
    exact ⟨hlive hclient, fun fd hfd => ⟨hclient, (Option.some.inj hfd).symm⟩⟩

theorem iteration_effect {listenSock : ℤ} {e : Event} {calls : Calls} {s t : HttpServer}
    (h : TableOk s) (hcall : AcceptResult listenSock s e calls)
    (hlive : e.forClient listenSock → (s.client e.fd).isSome)
    (ht : iteration listenSock e calls s = .ok t) :
    TableOk t ∧
      ∀ fd ∈ s.conns, (e.forClient listenSock → e.fd ≠ fd) → t.client fd = s.client fd := by
  rw [iteration_eq] at ht
  cases ha : eventStep listenSock e calls with
  | none =>
    rw [ha] at ht
    cases ht
    exact ⟨h, fun _ _ _ => rfl⟩
  | some a =>
    rw [ha] at ht
    obtain ⟨f, u, b, hb, rfl⟩ := round_ok ht
    obtain ⟨hadm, htarget⟩ :=
      eventStep_admissible (s := { s with held := true }) ha hcall hlive
    obtain ⟨f', u', hb', heffect⟩ := branch_effect (tableOk_held h true) hadm
    cases hb.symm.trans hb'
    refine ⟨tableOk_held heffect.ok b, fun fd hfd hne => heffect.frame fd hfd fun htgt => ?_⟩
    obtain ⟨hclient, he⟩ := htarget fd htgt
    exact hne hclient he.symm

theorem batchOk_epollWait {listenSock : ℤ} {s t : HttpLoop} {events : List Event}
    (h : BatchOk listenSock s) (ht : httpStep listenSock s (.epollWait events) = some t) :
    BatchOk listenSock t := by
  rw [httpStep] at ht
  split_ifs at ht with hwait
  obtain ⟨-, hnodup, hregistered⟩ := hwait
  cases ht
  have hfds : (events.map fun e => (⟨e, s.server.serialAt e.fd⟩ : Pending)).map
      (fun p => p.event.fd) = events.map Event.fd := List.map_map
  refine ⟨h.table, hfds ▸ hnodup, fun p hp hclient => ?_⟩
  obtain ⟨e, he, rfl⟩ := List.mem_map.mp hp
  -- registered, hence open, hence live
  have hsome : (s.server.client e.fd).isSome := by
    rw [h.table.live, ← h.table.registered]
    exact (hregistered e he).resolve_left hclient.1
  obtain ⟨c, hc⟩ := Option.isSome_iff_exists.mp hsome
  exact ⟨c, client_eq_some.mp hc, by rw [HttpServer.serialAt, hc]; rfl⟩

theorem batchOk_handle {listenSock : ℤ} {s t : HttpLoop} {calls : Calls}
    (h : BatchOk listenSock s) (ht : httpStep listenSock s (.handle calls) = some t) :
    BatchOk listenSock t := by
  rw [httpStep] at ht
  match hbatch : s.batch with
  | [] =>
    rw [hbatch] at ht
    cases ht
  | p :: rest =>
    rw [hbatch] at ht
    obtain ⟨hok, hnodup, hcurrent⟩ := h
    rw [hbatch] at hnodup hcurrent
    dsimp only at ht
    split_ifs at ht with hcall
    obtain ⟨u, hu, rfl⟩ := Option.map_eq_some_iff.mp ht
    have hp := hcurrent p (List.mem_cons_self ..)
    obtain ⟨htable, hframe⟩ :=
      iteration_effect hok hcall (fun hclient => isSome_of_current (hp hclient))
        (ok_of_toOption hu)
    rw [List.map_cons, List.nodup_cons] at hnodup
    refine ⟨htable, hnodup.2, fun q hq hclient => ?_⟩
    have hq' := hcurrent q (List.mem_cons_of_mem p hq) hclient
    have hconn : q.1.fd ∈ s.server.conns := (hok.live _).mp (isSome_of_current hq')
    apply current_of_client hq'
    apply hframe _ hconn
    -- the events of a batch are for different descriptors
    intro _ he
    exact hnodup.1 (List.mem_map.mpr ⟨q, hq, he.symm⟩)

theorem batchOk_timeout {listenSock : ℤ} {s t : HttpLoop} {fd tm : ℤ}
    (h : BatchOk listenSock s) (hclose : NoPendingClose listenSock s (.timeout fd tm))
    (ht : httpStep listenSock s (.timeout fd tm) = some t) : BatchOk listenSock t := by
  rw [httpStep] at ht
  cases hc : s.server.client fd with
  | none =>
    rw [hc] at ht
    cases ht
  | some c =>
    rw [hc] at ht
    dsimp only at ht
    split_ifs at ht
    obtain ⟨u, hu, rfl⟩ := Option.map_eq_some_iff.mp ht
    obtain ⟨hdrop, heffect⟩ := effect_timeout h.table hc
    cases (ok_of_toOption hu).symm.trans hdrop
    refine ⟨heffect.ok, h.nodup, fun p hp hclient => ?_⟩
    have hp' := h.current p hp hclient
    have hconn : p.1.fd ∈ s.server.conns := (h.table.live _).mp (isSome_of_current hp')
    apply current_of_client hp'
    apply heffect.frame _ hconn
    -- this is where the guard is needed
    intro he
    exact hclose p hp hclient (Option.some.inj he).symm

theorem batchOk_step {listenSock : ℤ} {s t : HttpLoop} {a : HttpStep}
    (h : BatchOk listenSock s) (ha : NoPendingClose listenSock s a)
    (ht : httpStep listenSock s a = some t) : BatchOk listenSock t := by
  cases a with
  | epollWait events => exact batchOk_epollWait h ht
  | handle calls => exact batchOk_handle h ht
  | timeout fd tm => exact batchOk_timeout h ha ht

theorem batchOk_start (listenSock : ℤ) : BatchOk listenSock {} :=
  ⟨tableOk_empty, List.nodup_nil, fun p hp => by cases hp⟩

/-- In a run in which the timeout thread closes no client that has an event pending, every
event is applied to the client it was reported for. -/
theorem events_applied_to_reported (listenSock : ℤ) (as : List HttpStep)
    (h : Guarded (httpStep listenSock) (NoPendingClose listenSock) {} as) :
    Guarded (httpStep listenSock) (AppliedToReported listenSock) {} as := by
  have hmono (s : HttpLoop) (a : HttpStep) (hs : BatchOk listenSock s)
      (_ : NoPendingClose listenSock s a) : AppliedToReported listenSock s a := by
    cases a with
    | handle calls => exact fun p hp => hs.current p (List.mem_of_mem_head? hp)
    | epollWait events => trivial
    | timeout fd tm => trivial
  exact guarded_mono _ hmono (fun s a t hs ha ht => batchOk_step hs ha ht)
    (batchOk_start listenSock) h

/-- Client 5 is closed as idle while nothing is pending, and the descriptor is used again. -/
def reuseBetweenBatches : List HttpStep :=
  [.epollWait [⟨3, true, false⟩], .handle { accept := 5 }, .timeout 5 40,
    .epollWait [⟨3, true, false⟩], .handle { accept := 5, time := 41 },
    .epollWait [⟨5, true, false⟩]]

theorem reused_client_gets_its_event :
    Guarded (httpStep 3) (AppliedToReported 3) {} (reuseBetweenBatches ++ [.handle {}]) := by
  have hpre : Guarded (httpStep 3) (NoPendingClose 3) {} reuseBetweenBatches := by decide
  apply events_applied_to_reported 3
  rw [guarded_append_one (httpStep 3) rfl]
  exact ⟨hpre, trivial⟩

/-- Client 5 is closed as idle while its event is pending. -/
def closeInMidBatch : List HttpStep :=
  [.epollWait [⟨3, true, false⟩], .handle { accept := 5 },
    .epollWait [⟨5, true, false⟩], .timeout 5 40]

theorem event_of_closed_client :
    ¬ ∀ (listenSock : ℤ) (as : List HttpStep),
      Guarded (httpStep listenSock) (AppliedToReported listenSock) {} as := by
  intro h
  have hlast := ((guarded_append_one (httpStep 3) rfl).mp
    (h 3 (closeInMidBatch ++ [.handle {}]))).2
  obtain ⟨c, hc, -⟩ := hlast ⟨⟨5, true, false⟩, some 0⟩ rfl (by decide)
  -- the entry is NULL
  cases hc

end LearningDirectory
