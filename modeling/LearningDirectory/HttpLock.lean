import LearningDirectory.HttpServer
import LearningDirectory.StepRun

/-! The mutex in the event loop: every branch locks it, and the `continue` exits of the
accept branch leave it locked. -/
namespace LearningDirectory
open StepRun HttpServer

/-- A round of the inner `for` loop, or the locked close by the timeout thread, which
waits while the main thread has the mutex. -/
inductive LoopStep
  | event (e : Event) (calls : Calls)
  | timeout (fd : ℤ)

/-- A fault, a deadlock among them, ends the run. -/
def loopStep (listenSock : ℤ) (s : HttpServer) : LoopStep → Option HttpServer
  | .event e calls => (iteration listenSock e calls s).toOption
  -- `pthread_mutex_lock` waits for the main thread
  | .timeout fd => if s.held then none else (timeoutClose fd s).toOption

/-- A round neither locks the mutex while it is held nor unlocks it while it is not, and
it ends with the mutex free if it starts so. -/
def LockKept (listenSock : ℤ) (s : HttpServer) : LoopStep → Prop
  | .event e calls =>
    iteration listenSock e calls s ≠ .error .relock ∧
      iteration listenSock e calls s ≠ .error .badUnlock ∧
      ∀ t, s.held = false → iteration listenSock e calls s = .ok t → t.held = false
  | .timeout _ => True

/-- When a connection is accepted, `accept`, `fcntl` and `epoll_ctl` all succeed. -/
def SetupSucceeds (listenSock : ℤ) (_ : HttpServer) : LoopStep → Prop
  | .event e calls => e.fd = listenSock → SetupOk calls
  | .timeout _ => True

instance decidableSetupSucceeds (listenSock : ℤ) (s : HttpServer) :
    (a : LoopStep) → Decidable (SetupSucceeds listenSock s a)
  | .event e calls => inferInstanceAs (Decidable (e.fd = listenSock → SetupOk calls))
  | .timeout _ => isTrue trivial

/-- The branch comes to its unlock with the mutex as it was, or it stops at a NULL entry
or a closed descriptor. -/
def ToUnlock (s : HttpServer) : Except Fault (Flow × HttpServer) → Prop
  | .ok (f, t) => f = .unlock ∧ t.held = s.held
  | .error f => f = .nullDeref ∨ f = .badClose

theorem toUnlock_accept {calls : Calls} (h : SetupOk calls) (s : HttpServer) :
    ToUnlock s (acceptBody calls s) := by
  rw [acceptBody_eq, if_pos h]
  exact ⟨rfl, rfl⟩

theorem toUnlock_epollin {n : ℤ} (hn : 0 ≤ n) (fd : ℤ) (buf : Bytes) (calls : Calls)
    (s : HttpServer) : ToUnlock s (epollinBody fd n buf calls s) := by
  cases hc : s.client fd with
  | none =>
    rw [epollinBody, deref_null hc]
    exact Or.inl rfl
  | some c =>
    rw [epollinBody_eq hn hc]
    exact ⟨rfl, held_epollMod ..⟩

theorem toUnlock_epollout (fd : ℤ) (calls : Calls) (s : HttpServer) :
    ToUnlock s (epolloutBody fd calls s) := by
  cases hc : s.client fd with
  | none =>
    rw [epolloutBody, deref_null hc]
    exact Or.inl rfl
  | some c =>
    rw [epolloutBody_eq hc]
    split_ifs
    · exact ⟨rfl, rfl⟩
    · exact Or.inr rfl
    · exact ⟨rfl, rfl⟩

theorem timeoutClose_held {fd : ℤ} {s t : HttpServer} (h : timeoutClose fd s = .ok t) :
    t.held = s.held := by
  cases hc : s.client fd with
  | none =>
    rw [timeoutClose, deref_null hc] at h
    cases h
  | some c =>
    rw [timeoutClose_eq hc] at h
    split_ifs at h
    cases h
    rfl

/-- What one round must not do to a free mutex. -/
def Released : Except Fault HttpServer → Prop
  | .ok t => t.held = false
  | .error f => f ≠ .relock ∧ f ≠ .badUnlock

theorem released_round {s : HttpServer} (hs : s.held = false)
    {body : HttpServer → Except Fault (Flow × HttpServer)} (hb : ∀ t, ToUnlock t (body t)) :
    Released (do finish (← body (← s.lock))) := by
  have hlock : s.lock = .ok { s with held := true } := by simp [lock, hs]
  have hu := hb { s with held := true }
  rw [hlock]
  -- a branch that stops at a fault never comes to its unlock
  change Released (body { s with held := true } >>= finish)
  match hbody : body { s with held := true } with
  | .ok (f, t) =>
    rw [hbody] at hu
    obtain ⟨rfl, ht⟩ := hu
    have hunlock : t.unlock = .ok { t with held := false } := if_pos ht
    change Released t.unlock
    rw [hunlock]
    rfl
  | .error f =>
    rw [hbody] at hu
    rcases hu with rfl | rfl
    · exact ⟨by decide, by decide⟩
    · exact ⟨by decide, by decide⟩

theorem lockKept_iff_released {listenSock : ℤ} {s : HttpServer} (hs : s.held = false) (e : Event)
    (calls : Calls) :
    LockKept listenSock s (.event e calls) ↔ Released (iteration listenSock e calls s) := by
  cases hi : iteration listenSock e calls s with
  | ok t => simp [LockKept, Released, hi, hs]
  | error f => simp [LockKept, Released, hi]

theorem held_of_setup_error {listenSock : ℤ} {s : HttpServer} (hs : s.held = false) {e : Event}
    {calls : Calls} (he : e.fd = listenSock) (hsetup : ¬ SetupOk calls) :
    ∃ t, iteration listenSock e calls s = .ok t ∧ t.held = true := by
  have hlock : s.lock = .ok { s with held := true } := by simp [lock, hs]
  have hbody := acceptBody_eq calls { s with held := true }
  rw [if_neg hsetup] at hbody
  rw [iteration, if_pos he, hlock]
  change ∃ t, (acceptBody calls { s with held := true } >>= finish) = .ok t ∧ _
  rw [hbody]
  refine ⟨_, rfl, ?_⟩
  split_ifs <;> rfl

/-- From a free mutex, a round keeps the discipline exactly if a connection that it
accepts is set up without an error. -/
theorem lockKept_iff {listenSock : ℤ} {s : HttpServer} (hs : s.held = false) (a : LoopStep) :
    LockKept listenSock s a ↔ SetupSucceeds listenSock s a := by
  cases a with
  | timeout fd => exact Iff.rfl
  | event e calls =>
    rw [lockKept_iff_released hs]
    by_cases haccept : e.fd = listenSock
    · constructor
      · intro hreleased _
        by_contra hsetup
        obtain ⟨t, ht, hheld⟩ := held_of_setup_error hs haccept hsetup
        rw [ht] at hreleased
        exact Bool.false_ne_true (hreleased.symm.trans hheld)
      · intro hsetup
        rw [iteration, if_pos haccept]
        exact released_round hs (toUnlock_accept (hsetup haccept))
    -- the other two branches release the mutex whatever their calls return
    · refine iff_of_true ?_ (fun h => absurd h haccept)
      have hn := readn_nonneg calls.read (List.replicate bufsize 0) bufsize
      rw [iteration, if_neg haccept]
      split_ifs
      · exact released_round hs (toUnlock_epollin hn e.fd _ calls)
      · exact released_round hs (toUnlock_epollout e.fd calls)
      · exact hs

theorem free_step {listenSock : ℤ} {s t : HttpServer} {a : LoopStep} (hs : s.held = false)
    (hkept : LockKept listenSock s a) (h : loopStep listenSock s a = some t) :
    t.held = false := by
  cases a with
  | timeout fd =>
    rw [loopStep, hs, if_neg Bool.false_ne_true] at h
    exact (timeoutClose_held (ok_of_toOption h)).trans hs
  | event e calls => exact hkept.2.2 t hs (ok_of_toOption h)

/-- Over a whole run that starts with the mutex free, the discipline is kept in every
round exactly if no `accept`, `fcntl` or `epoll_ctl` of an accept branch fails. -/
theorem lock_discipline_iff (listenSock : ℤ) (s : HttpServer) (h : s.held = false)
    (as : List LoopStep) :
    Guarded (loopStep listenSock) (LockKept listenSock) s as ↔
      Guarded (loopStep listenSock) (SetupSucceeds listenSock) s as := by
  -- either guard keeps the mutex free between the rounds, and then they say the same
  constructor
  · intro hkept
    refine guarded_mono _ (I := fun t => t.held = false) ?_ ?_ h hkept
    · intro t a ht
      exact (lockKept_iff ht a).mp
    · intro t a u ht ha hu
      exact free_step ht ha hu
  · intro hsetup
    refine guarded_mono _ (I := fun t => t.held = false) ?_ ?_ h hsetup
    · intro t a ht
      exact (lockKept_iff ht a).mpr
    · intro t a u ht ha hu
      have hkept : LockKept listenSock t a := (lockKept_iff ht a).mpr ha
      exact free_step ht hkept hu

/-- The events of a listening socket 3, with a client accepted as 5. -/
theorem accepted_client_releases :
    Guarded (loopStep 3) (LockKept 3) {} [.event ⟨3, true, false⟩ { accept := 5 }] :=
  (lock_discipline_iff 3 {} rfl [.event ⟨3, true, false⟩ { accept := 5 }]).mpr (by decide)

/-- The connection is gone before it is accepted. -/
theorem failed_accept_keeps_mutex :
    ¬ ∀ (listenSock : ℤ) (s : HttpServer), s.held = false → ∀ as : List LoopStep,
      Guarded (loopStep listenSock) (LockKept listenSock) s as := by
  intro h
  have hkept := h 3 {} rfl [.event ⟨3, true, false⟩ { accept := -1 }]
    ({}, .event ⟨3, true, false⟩ { accept := -1 }) (List.mem_cons_self ..)
  have hfree := hkept.2.2 { held := true } rfl rfl
  exact Bool.false_ne_true hfree.symm

end LearningDirectory
