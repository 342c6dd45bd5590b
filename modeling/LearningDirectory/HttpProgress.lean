import LearningDirectory.HttpLock
import LearningDirectory.HttpRefinement
import Mathlib.Data.Finset.Card
import Mathlib.Data.Fintype.EquivFin

/-! Whether the http server gets on: while the mutex is free it can bring every event and every
client to an end, and after an accept branch has kept the mutex nothing changes any more. -/
namespace LearningDirectory
open StepRun HttpServer

/-! ### After the mutex has been kept -/

/-- The round of the event locks the mutex. -/
def Event.TakesBranch (listenSock : ℤ) (e : Event) : Prop :=
  e.fd = listenSock ∨ e.epollin = true ∨ e.epollout = true

/-- Whatever is accepted is set up without an error. -/
def AcceptsSucceed (listenSock : ℤ) (s : HttpLoop) : HttpStep → Prop
  | .handle calls => ∀ p ∈ s.batch.head?, p.event.fd = listenSock → SetupOk calls
  | _ => True

theorem eventStep_of_takesBranch {listenSock : ℤ} {e : Event} (h : e.TakesBranch listenSock)
    (calls : Calls) : (eventStep listenSock e calls).isSome := by
  unfold eventStep
  split_ifs with hlisten hin hout
  · rfl
  · rfl
  · rfl
  · rcases h with hl | hi | ho
    · exact absurd hl hlisten
    · exact absurd hi hin
    · exact absurd ho hout

theorem iteration_held {listenSock : ℤ} {e : Event} {calls : Calls} {s t : HttpServer}
    (hheld : s.held = true) (h : iteration listenSock e calls s = .ok t) :
    t = s ∧ ¬ e.TakesBranch listenSock := by
  rw [iteration_eq] at h
  cases ha : eventStep listenSock e calls with
  | none =>
    rw [ha] at h
    cases h
    refine ⟨rfl, fun hbranch => ?_⟩
    have hsome := eventStep_of_takesBranch hbranch calls
    rw [ha] at hsome
    cases hsome
  | some a =>
    -- the branch begins with a lock of the mutex that its own thread has
    have hlock : s.lock = .error .relock := if_pos hheld
    rw [ha, hlock] at h
    cases h

theorem stopped_step {listenSock : ℤ} {s t : HttpLoop} {a : HttpStep}
    (hheld : s.server.held = true) (h : httpStep listenSock s a = some t) :
    t.server = s.server ∧ ∀ p ∈ s.batch, p.event.TakesBranch listenSock → p ∈ t.batch := by
  cases a with
  | epollWait events =>
    rw [httpStep] at h
    split_ifs at h with hwait
    cases h
    refine ⟨rfl, fun p hp => ?_⟩
    rw [hwait.1] at hp
    cases hp
  | handle calls =>
    obtain ⟨q, rest, hbatch, hrest, -, hround⟩ := handle_eq_some h
    obtain ⟨hsame, hno⟩ := iteration_held hheld hround
    refine ⟨hsame, fun p hp hbranch => ?_⟩
    rw [hbatch] at hp
    rw [hrest]
    rcases List.mem_cons.mp hp with rfl | hp
    · exact absurd hbranch hno
    · exact hp
  | timeout fd tm =>
    obtain ⟨-, -, hfree, -, -⟩ := timeout_eq_some h
    exact absurd (hfree.symm.trans hheld) Bool.false_ne_true

theorem free_httpStep {listenSock : ℤ} {s t : HttpLoop} {a : HttpStep}
    (hfree : s.server.held = false) (h : httpStep listenSock s a = some t) :
    t.server.held = false ↔ AcceptsSucceed listenSock s a := by
  cases a with
  | epollWait events =>
    rw [httpStep] at h
    split_ifs at h
    cases h
    exact iff_of_true hfree trivial
  | handle calls =>
    obtain ⟨p, rest, hbatch, -, -, hround⟩ := handle_eq_some h
    have hiff : LockKept listenSock s.server (.event p.event calls) ↔
        SetupSucceeds listenSock s.server (.event p.event calls) := lockKept_iff hfree _
    rw [lockKept_iff_released hfree, hround] at hiff
    refine Iff.trans hiff ⟨fun hsetup q hq => ?_, fun hsetup => ?_⟩
    · rw [hbatch] at hq
      obtain rfl := Option.some.inj hq
      exact hsetup
    · exact hsetup p (by rw [hbatch]; rfl)
  | timeout fd tm =>
    obtain ⟨-, -, -, -, hclose⟩ := timeout_eq_some h
    exact iff_of_true ((timeoutClose_held hclose).trans hfree) trivial

/-- The mutex is free exactly as long as every connection that was accepted could be set up.
From the first that could not on nothing happens to any client, and every event that is for a
client or the listening socket stays pending. -/
theorem failed_setup_stops (listenSock : ℤ) (as : List HttpStep) (s : HttpLoop)
    (hr : run (httpStep listenSock) {} as = some s) :
    (s.server.held = false ↔ Guarded (httpStep listenSock) (AcceptsSucceed listenSock) {} as) ∧
      (s.server.held = true → ∀ bs t, run (httpStep listenSock) s bs = some t →
        t.server = s.server ∧
          ∀ p ∈ s.batch, p.event.TakesBranch listenSock → p ∈ t.batch) := by
  constructor
  · obtain ⟨hguarded, hkept⟩ :=
      run_split (httpStep listenSock) (G := AcceptsSucceed listenSock)
        (I := fun s => s.server.held = false) (B := fun s => s.server.held = true) rfl
        (fun _ _ _ hi ha hs => (free_httpStep hi hs).mpr ha)
        (fun _ _ _ hi ha hs => eq_true_of_ne_false fun hfree => ha ((free_httpStep hi hs).mp hfree))
        (fun _ _ _ hb hs => by rw [(stopped_step hb hs).1]; exact hb) hr
    refine ⟨fun hfree => ?_, hguarded⟩
    by_contra hno
    exact Bool.false_ne_true (hfree.symm.trans (hkept hno))
  · intro hheld bs t ht
    refine run_invariant (httpStep listenSock)
      (I := fun _ t => t.server = s.server ∧
        ∀ p ∈ s.batch, p.event.TakesBranch listenSock → p ∈ t.batch)
      ⟨rfl, fun p hp _ => hp⟩ ?_ ht
    intro _ u _ v _ hi hs
    have hheld' : u.server.held = true := by rw [hi.1]; exact hheld
    obtain ⟨hsame, hpending⟩ := stopped_step hheld' hs
    exact ⟨hsame.trans hi.1, fun p hp hbranch => hpending p (hi.2 p hp hbranch) hbranch⟩

/-- Client 5 is accepted; then a connection is reported that is gone when it is accepted,
while a request of client 5 is pending. -/
def goneBeforeAccept : List HttpStep :=
  [.epollWait [⟨3, true, false⟩], .handle { accept := 5 },
    .epollWait [⟨3, true, false⟩, ⟨5, true, false⟩], .handle { accept := -1 }]

theorem gone_before_accept_stops : ∃ s, run (httpStep 3) {} goneBeforeAccept = some s ∧
    ¬ Guarded (httpStep 3) (AcceptsSucceed 3) {} goneBeforeAccept ∧
      ∀ bs t, run (httpStep 3) s bs = some t →
        t.server = s.server ∧ ∀ p ∈ s.batch, p.event.TakesBranch 3 → p ∈ t.batch := by
  have hrun : ∃ s ∈ run (httpStep 3) {} goneBeforeAccept, s.server.held = true := by decide
  obtain ⟨s, hs, hheld⟩ := hrun
  obtain ⟨hfree, hstops⟩ := failed_setup_stops 3 goneBeforeAccept s hs
  exact ⟨s, hs, fun hg => by simp [hfree.mpr hg] at hheld, hstops hheld⟩

/-! ### As long as it is free -/

/-- A step opens no connection but the one that it accepts. -/
theorem conns_tableStep {s t : HttpServer} {a : TableStep} {connSock : ℤ} (hs : TableOk s)
    (ht : TableOk t) (ha : ∀ calls, a = .accept calls → calls.accept = connSock)
    (h : tableStep s a = some t) : t.conns ⊆ insert connSock s.conns := by
  intro fd hfd
  rw [Finset.mem_insert, ← hs.live]
  have hlive := (ht.live fd).mpr hfd
  have hold {fd' : ℤ} {c : ClientT} (hc : s.client fd' = some c)
      (hsame : fd ≠ fd' → t.client fd = s.client fd) : (s.client fd).isSome := by
    by_cases he : fd = fd'
    · exact he ▸ Option.isSome_of_mem hc
    · rw [← hsame he]
      exact hlive
  cases a with
  | accept calls =>
    rw [tableStep_accept h] at hlive
    split_ifs at hlive with hnew
    · exact Or.inl (hnew.2.trans (ha calls rfl))
    · exact Or.inr hlive
  | epollin fd' calls =>
    obtain ⟨c, hc, hclient⟩ := tableStep_epollin h
    exact Or.inr (hold hc fun hne => by rw [hclient, if_neg hne])
  | epollout fd' calls =>
    obtain ⟨c, hc, hclient⟩ := tableStep_epollout h
    exact Or.inr (hold hc fun hne => by rw [hclient, if_neg hne])
  | timeout fd' =>
    obtain ⟨c, hc, hclient⟩ := tableStep_timeout h
    exact Or.inr (hold hc fun hne => by rw [hclient, if_neg hne])

theorem accept_eventStep {listenSock : ℤ} {e : Event} {calls calls' : Calls}
    (h : eventStep listenSock e calls = some (.accept calls')) : calls' = calls := by
  unfold eventStep at h
  split_ifs at h
  · cases h
    rfl
  · cases h
  · cases h

theorem conns_iteration {listenSock : ℤ} {e : Event} {calls : Calls} {s t : HttpServer}
    (hs : TableOk s) (ht : TableOk t) (h : iteration listenSock e calls s = .ok t) :
    t.conns ⊆ insert calls.accept s.conns := by
  have hround := tableStep_of_iteration h false
  cases ha : eventStep listenSock e calls with
  | none =>
    rw [ha] at hround
    have hsame : s.withHeld false = t.withHeld false := Option.some.inj hround
    rw [← conns_withHeld t false, ← hsame]
    exact Finset.subset_insert _ _
  | some a =>
    rw [ha, Option.toList_some, run_cons] at hround
    obtain ⟨u, hu, hend⟩ := Option.bind_eq_some_iff.mp hround
    obtain rfl : u = t.withHeld false := Option.some.inj hend
    have hgrow : (t.withHeld false).conns ⊆ insert calls.accept (s.withHeld false).conns := by
      refine conns_tableStep (tableOk_held hs false) (tableOk_held ht false) ?_ hu
      rintro calls' rfl
      rw [accept_eventStep ha]
    exact hgrow

structure Draining (listenSock : ℤ) (s : HttpLoop) : Prop where
  batch : BatchOk listenSock s
  free : s.server.held = false

/-- A pending event may bring one more connection. -/
def HttpLoop.left (s : HttpLoop) : ℕ := 2*s.batch.length + s.server.conns.card

/-- The next event can be handled, by a branch or by none. -/
theorem handle_enabled {listenSock : ℤ} {s : HttpLoop} {p : Pending} {rest : List Pending}
    (h : Draining listenSock s) (hb : s.batch = p :: rest) :
    ∃ calls t, httpStep listenSock s (.handle calls) = some t ∧ Draining listenSock t ∧
      t.left < s.left := by
  -- the listening socket and the open descriptors are not returned again
  obtain ⟨connSock, hnew⟩ :=
    Infinite.exists_notMem_finset (insert (-1) (insert listenSock s.server.conns))
  rw [Finset.mem_insert, Finset.mem_insert] at hnew
  push Not at hnew
  obtain ⟨hsucceeds, hlisten, hclosed⟩ := hnew
  have hp : p ∈ s.batch := hb ▸ List.mem_cons_self ..
  have hcall : AcceptResult listenSock s.server p.event { accept := connSock } :=
    fun _ => Or.inr ⟨hclosed, hlisten⟩
  obtain ⟨v, hv⟩ := iteration_of_live h.batch.table h.free hcall fun hclient =>
    isSome_of_current (h.batch.current p hp hclient)
  have hstep : httpStep listenSock s (.handle { accept := connSock }) = some ⟨v, rest⟩ := by
    rw [httpStep, hb]
    dsimp only
    rw [if_pos hcall, hv]
    rfl
  have hbatch : BatchOk listenSock ⟨v, rest⟩ := batchOk_handle h.batch hstep
  have hsetup : SetupOk { accept := connSock } :=
    ⟨hsucceeds, Int.le_refl 0, Int.le_refl 0, (by decide : (0 : ℤ) ≠ -1)⟩
  refine ⟨_, _, hstep, ⟨hbatch, (free_httpStep h.free hstep).mpr fun _ _ _ => hsetup⟩, ?_⟩
  have hconns : v.conns ⊆ insert connSock s.server.conns :=
    conns_iteration h.batch.table hbatch.table hv
  have hcard := Finset.card_le_card hconns
  have hone := Finset.card_insert_le connSock s.server.conns
  rw [HttpLoop.left, HttpLoop.left, hb, List.length_cons]
  dsimp only
  omega

theorem timeout_enabled {listenSock : ℤ} {s : HttpLoop} (h : Draining listenSock s)
    (hb : s.batch = []) (hconns : s.server.conns ≠ ∅) :
    ∃ fd tm t, httpStep listenSock s (.timeout fd tm) = some t ∧ Draining listenSock t ∧
      t.left < s.left := by
  obtain ⟨fd, hfd⟩ := Finset.nonempty_iff_ne_empty.mpr hconns
  obtain ⟨c, hc⟩ := Option.isSome_iff_exists.mp ((h.batch.table.live fd).mpr hfd)
  have hclose := (effect_timeout h.batch.table hc).1
  have hidle : 30 ≤ c.lastAliveTime+30 - c.lastAliveTime := by omega
  have hstep : httpStep listenSock s (.timeout fd (c.lastAliveTime+30)) =
      some { s with server := s.server.drop fd } := by
    rw [httpStep, hc]
    dsimp only
    rw [if_pos ⟨hidle, h.free⟩, hclose]
    rfl
  have hnone : NoPendingClose listenSock s (.timeout fd (c.lastAliveTime+30)) := by
    intro p hp
    rw [hb] at hp
    cases hp
  refine ⟨fd, _, _, hstep, ⟨batchOk_timeout h.batch hnone hstep, h.free⟩, ?_⟩
  have hcard := Finset.card_erase_lt_of_mem hfd
  simp only [HttpLoop.left, hb]
  exact Nat.add_lt_add_left hcard _

/-- When the timeout thread has closed no client that had an event pending, and the mutex is free,
the two threads can handle the pending events and close all clients, in at most two steps for an
event and one for a client. -/
theorem server_drains (listenSock : ℤ) (as : List HttpStep) (s : HttpLoop)
    (h : Guarded (httpStep listenSock) (NoPendingClose listenSock) {} as)
    (hr : run (httpStep listenSock) {} as = some s) (hfree : s.server.held = false) :
    ∃ bs t, Guarded (httpStep listenSock) (NoPendingClose listenSock) s bs ∧
      run (httpStep listenSock) s bs = some t ∧
      bs.length ≤ 2*s.batch.length + s.server.conns.card ∧ t.batch = [] ∧
      t.server.conns = ∅ ∧ t.server.held = false ∧ ∀ fd, t.server.client fd = none := by
  have hbatch : BatchOk listenSock s :=
    run_rule (httpStep listenSock) (I := fun _ s => BatchOk listenSock s)
      (batchOk_start listenSock) (fun _ _ _ _ _ hi ha hs => batchOk_step hi ha hs) h hr
  have hstep (u : HttpLoop) (hu : Draining listenSock u)
      (hleft : ¬ (u.batch = [] ∧ u.server.conns = ∅)) :
      ∃ a t, NoPendingClose listenSock u a ∧ httpStep listenSock u a = some t ∧
        Draining listenSock t ∧ t.left < u.left := by
    cases hb : u.batch with
    | nil =>
      have hconns : u.server.conns ≠ ∅ := fun hc => hleft ⟨hb, hc⟩
      obtain ⟨fd, tm, t, ht, hdrain, hlt⟩ := timeout_enabled hu hb hconns
      refine ⟨.timeout fd tm, t, fun p hp => ?_, ht, hdrain, hlt⟩
      rw [hb] at hp
      cases hp
    | cons p rest =>
      obtain ⟨calls, t, ht, hdrain, hlt⟩ := handle_enabled hu hb
      exact ⟨.handle calls, t, trivial, ht, hdrain, hlt⟩
  obtain ⟨bs, t, hg, ht, hdrain, ⟨hempty, hconns⟩, hle⟩ :=
    run_reaches (httpStep listenSock) (I := Draining listenSock) hstep ⟨hbatch, hfree⟩
  refine ⟨bs, t, hg, ht, ?_, hempty, hconns, hdrain.free, fun fd => ?_⟩
  · exact Nat.le_trans (Nat.le_add_right _ _) hle
  · rw [← Option.not_isSome_iff_eq_none, hdrain.batch.table.live, hconns]
    exact Finset.notMem_empty fd

/-- A request of client 5 and another connection are pending. -/
def twoPending : List HttpStep :=
  [.epollWait [⟨3, true, false⟩], .handle { accept := 5 },
    .epollWait [⟨5, true, false⟩, ⟨3, true, false⟩]]

theorem two_pending_drain : ∃ s, run (httpStep 3) {} twoPending = some s ∧
    ∃ bs t, Guarded (httpStep 3) (NoPendingClose 3) s bs ∧ run (httpStep 3) s bs = some t ∧
      bs.length ≤ 2*s.batch.length + s.server.conns.card ∧ t.batch = [] ∧
      t.server.conns = ∅ ∧ t.server.held = false ∧ ∀ fd, t.server.client fd = none := by
  have hsome : (run (httpStep 3) {} twoPending).isSome := by decide
  obtain ⟨s, hs⟩ := Option.isSome_iff_exists.mp hsome
  have hfree : (run (httpStep 3) {} twoPending).all fun s => !s.server.held := by decide
  rw [hs] at hfree
  exact ⟨s, hs, server_drains 3 twoPending s (by decide) hs (by simpa using hfree)⟩

end LearningDirectory
