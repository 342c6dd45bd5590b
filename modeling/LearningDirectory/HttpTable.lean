import LearningDirectory.HttpServer
import LearningDirectory.StepRun

/-! The client table as the branches of the event loop and the timeout thread change it,
each of them in one step. -/
namespace LearningDirectory
open StepRun HttpServer

inductive TableStep
  | accept (calls : Calls)
  | epollin (fd : ℤ) (calls : Calls)
  | epollout (fd : ℤ) (calls : Calls)
  | timeout (fd : ℤ)

def branch (s : HttpServer) : TableStep → Except Fault (Flow × HttpServer)
  | .accept calls => acceptBody calls s
  | .epollin fd calls =>
    let (n, buf) := readn calls.read (List.replicate bufsize 0) bufsize
    epollinBody fd n buf calls s
  | .epollout fd calls => epolloutBody fd calls s
  | .timeout fd => do
    let s ← timeoutClose fd s
    pure (.unlock, s)

/-- A fault ends the run. -/
def tableStep (s : HttpServer) (a : TableStep) : Option HttpServer :=
  (branch s a).toOption.map Prod.snd

/-- The open connection a step works on; an `accept` works on none. -/
def TableStep.target : TableStep → Option ℤ
  | .accept _ => none
  | .epollin fd _ => some fd
  | .epollout fd _ => some fd
  | .timeout fd => some fd

/-- `accept` fails or returns a descriptor that is not open; every other step is taken
for a live entry. -/
def Admissible (s : HttpServer) : TableStep → Prop
  | .accept calls => calls.accept = -1 ∨ calls.accept ∉ s.conns
  | .epollin fd _ => (s.client fd).isSome
  | .epollout fd _ => (s.client fd).isSome
  | .timeout fd => (s.client fd).isSome

instance decidableAdmissible (s : HttpServer) : (a : TableStep) → Decidable (Admissible s a)
  | .accept calls => inferInstanceAs (Decidable (calls.accept = -1 ∨ calls.accept ∉ s.conns))
  | .epollin fd _ => inferInstanceAs (Decidable ((s.client fd).isSome = true))
  | .epollout fd _ => inferInstanceAs (Decidable ((s.client fd).isSome = true))
  | .timeout fd => inferInstanceAs (Decidable ((s.client fd).isSome = true))

structure TableOk (s : HttpServer) : Prop where
  live : ∀ fd, (s.client fd).isSome ↔ fd ∈ s.conns
  key : ∀ fd c, s.client fd = some c → c.fd = fd
  registered : ∀ fd, (s.epoll fd).isSome ↔ fd ∈ s.conns
  -- a descriptor that is reused gets a client with a new serial
  serial : ∀ fd c, s.client fd = some c → c.serial < s.countacp

def ClientT.ident (c : ClientT) : ℤ × ℕ := (c.fd, c.serial)

theorem client_enter (s : HttpServer) (c : ClientT) (fd : ℤ) :
    (s.enter c).client fd = if fd = c.fd then some c else s.client fd := by
  simp only [client, enter, Function.update_apply]
  split_ifs <;> rfl

theorem client_drop (s : HttpServer) (fd fd' : ℤ) :
    (s.drop fd).client fd' = if fd' = fd then none else s.client fd' := by
  simp only [client, drop, Function.update_apply]
  split_ifs <;> rfl

/-! What each step does to the entries, as long as it is not a fault. -/

theorem tableStep_accept {s t : HttpServer} {calls : Calls}
    (h : tableStep s (.accept calls) = some t) (fd : ℤ) :
    t.client fd =
      if SetupOk calls ∧ fd = calls.accept then some (newClient calls s) else s.client fd := by
  rw [tableStep, branch, acceptBody_eq] at h
  split_ifs at h with hsetup hfail
  · cases h
    rw [client_enter]
    simp only [hsetup, true_and]
    rfl
  -- a connection that is refused never gets an entry
  · cases h
    simp only [hsetup, false_and, if_false]
  · cases h
    simp only [hsetup, false_and, if_false]
    rfl

theorem tableStep_epollin {s t : HttpServer} {fd : ℤ} {calls : Calls}
    (h : tableStep s (.epollin fd calls) = some t) :
    ∃ c, s.client fd = some c ∧ ∀ fd', t.client fd' =
      if fd' = fd then some { c with
        readBuf := c.readBuf ++ (readn calls.read (List.replicate bufsize 0) bufsize).2
        lastAliveTime := calls.time }
      else s.client fd' := by
  let r := readn calls.read (List.replicate bufsize 0) bufsize
  change (epollinBody fd r.1 r.2 calls s).toOption.map Prod.snd = some t at h
  cases hc : s.client fd with
  | none =>
    rw [epollinBody, deref_null hc] at h
    cases h
  | some c =>
    -- `readn` never reports a failure, so the first `if` is taken
    have hn : 0 ≤ r.1 := readn_nonneg calls.read (List.replicate bufsize 0) bufsize
    rw [epollinBody_eq hn hc] at h
    cases h
    refine ⟨c, rfl, fun fd' => ?_⟩
    rw [client_store_apply, client_epollMod]

theorem tableStep_epollout {s t : HttpServer} {fd : ℤ} {calls : Calls}
    (h : tableStep s (.epollout fd calls) = some t) :
    ∃ c, s.client fd = some c ∧ ∀ fd', t.client fd' =
      if fd' = fd then
        if (writen calls.write response).1 = response.length ∨ (writen calls.write response).1 < 0
        then none
        else some { c with writeBuf := response, lastAliveTime := calls.time }
      else s.client fd' := by
  rw [tableStep, branch] at h
  cases hc : s.client fd with
  | none =>
    rw [epolloutBody, deref_null hc] at h
    cases h
  | some c =>
    refine ⟨c, rfl, fun fd' => ?_⟩
    rw [epolloutBody_eq hc] at h
    by_cases hend : (writen calls.write response).1 = response.length ∨
      (writen calls.write response).1 < 0
    · rw [if_pos hend] at h ⊢
      split_ifs at h
      · cases h
        exact client_drop s fd fd'
      -- the descriptor is not open, and `close` fails
      · cases h
    · rw [if_neg hend] at h ⊢
      cases h
      exact client_store_apply s fd fd' _

theorem tableStep_timeout {s t : HttpServer} {fd : ℤ} (h : tableStep s (.timeout fd) = some t) :
    ∃ c, s.client fd = some c ∧ ∀ fd', t.client fd' = if fd' = fd then none else s.client fd' := by
  rw [tableStep, branch] at h
  cases hc : s.client fd with
  | none =>
    rw [timeoutClose, deref_null hc] at h
    cases h
  | some c =>
    rw [timeoutClose_eq hc] at h
    split_ifs at h
    · cases h
      exact ⟨c, rfl, fun fd' => client_store_apply _ fd fd' none⟩
    · cases h

theorem tableOk_empty : TableOk {} where
  live fd := by simp [client]
  key fd c h := by cases h
  registered fd := by simp
  serial fd c h := by cases h

theorem tableOk_enter {s : HttpServer} {c : ClientT} (h : TableOk s)
    (hserial : c.serial = s.countacp) : TableOk (s.enter c) where
  live fd := by
    rw [client_enter, enter, Finset.mem_insert]
    split_ifs with he
    · simp [he]
    · simp [he, h.live fd]
  key fd c' hc := by
    rw [client_enter] at hc
    split_ifs at hc with he
    · exact (Option.some.inj hc) ▸ he.symm
    · exact h.key fd c' hc
  registered fd := by
    simp only [enter, Function.update_apply, Finset.mem_insert]
    split_ifs with he
    · simp [he]
    · simp [he, h.registered fd]
  serial fd c' hc := by
    rw [client_enter] at hc
    split_ifs at hc with he
    · obtain rfl := Option.some.inj hc
      exact hserial.trans_lt (Nat.lt_succ_self _)
    · exact (h.serial fd c' hc).trans (Nat.lt_succ_self _)

theorem refuse_eq_self {s : HttpServer} {fd : ℤ} (h : TableOk s) (hfd : fd ∉ s.conns) :
    s.refuse fd = s := by
  -- a descriptor that is not open is not registered
  have hepoll : s.epoll fd = none := by
    rw [← Option.not_isSome_iff_eq_none, h.registered]
    exact hfd
  rw [refuse, Finset.erase_insert hfd, Function.update_eq_self_iff.mpr hepoll.symm]

/-- Buffers, times and events may change as they like: only who is where matters. -/
theorem tableOk_of_same {s t : HttpServer} (h : TableOk s) (hconns : t.conns = s.conns)
    (hepoll : ∀ fd, (t.epoll fd).isSome = (s.epoll fd).isSome) (hcount : t.countacp = s.countacp)
    (hwho : ∀ fd, (t.client fd).map ClientT.ident = (s.client fd).map ClientT.ident) :
    TableOk t := by
  -- every client of `t` is one of `s` with other contents
  have hback (fd : ℤ) (c : ClientT) (hc : t.client fd = some c) :
      ∃ c', s.client fd = some c' ∧ c'.fd = c.fd ∧ c'.serial = c.serial := by
    have hsome : (s.client fd).map ClientT.ident = some c.ident := by rw [← hwho, hc]; rfl
    obtain ⟨c', hc', he⟩ := Option.map_eq_some_iff.mp hsome
    exact ⟨c', hc', congrArg Prod.fst he, congrArg Prod.snd he⟩
  refine ⟨fun fd => ?_, fun fd c hc => ?_, fun fd => ?_, fun fd c hc => ?_⟩
  · rw [hconns, ← h.live fd, ← Option.isSome_map (f := ClientT.ident), hwho, Option.isSome_map]
  · obtain ⟨c', hc', hfd, -⟩ := hback fd c hc
    exact hfd ▸ h.key fd c' hc'
  · rw [hconns, hepoll, h.registered fd]
  · obtain ⟨c', hc', -, hserial⟩ := hback fd c hc
    rw [hcount, ← hserial]
    exact h.serial fd c' hc'

theorem tableOk_store {s : HttpServer} {fd : ℤ} {c c' : ClientT} (h : TableOk s)
    (hc : s.client fd = some c) (hwho : c'.ident = c.ident) : TableOk (s.store fd (some c')) := by
  refine tableOk_of_same h rfl (fun _ => rfl) rfl fun fd' => ?_
  by_cases he : fd' = fd
  · rw [he, client_store, hc, Option.map_some, Option.map_some, hwho]
  · rw [client_store_ne _ he]

theorem tableOk_epollMod {s : HttpServer} (h : TableOk s) (fd : ℤ) (events : Interest)
    (result : ℤ) : TableOk (s.epollMod fd events result) := by
  rw [epollMod]
  split_ifs
  · exact h
  · refine tableOk_of_same h rfl (fun fd' => ?_) rfl (fun _ => rfl)
    simp only [Function.update_apply]
    split_ifs with he
    · rw [he, Option.isSome_map]
    · rfl

theorem tableOk_drop {s : HttpServer} {fd : ℤ} (h : TableOk s) : TableOk (s.drop fd) where
  live fd' := by
    rw [client_drop, drop, Finset.mem_erase]
    split_ifs with he
    · simp [he]
    · simp [he, h.live fd']
  key fd' c hc := by
    rw [client_drop] at hc
    split_ifs at hc
    exact h.key fd' c hc
  registered fd' := by
    simp only [drop, Function.update_apply, Finset.mem_erase]
    split_ifs with he
    · simp [he]
    · simp [he, h.registered fd']
  serial fd' c hc := by
    rw [client_drop] at hc
    split_ifs at hc
    exact h.serial fd' c hc

/-- What an admissible step of a consistent table does: the table stays consistent, and an
open connection that the step does not work on keeps its client. -/
structure Effect (s : HttpServer) (a : TableStep) (t : HttpServer) : Prop where
  ok : TableOk t
  frame : ∀ fd ∈ s.conns, a.target ≠ some fd → t.client fd = s.client fd

theorem effect_drop {s : HttpServer} {fd : ℤ} {a : TableStep} (h : TableOk s)
    (ha : a.target = some fd) : Effect s a (s.drop fd) := by
  refine ⟨tableOk_drop h, fun fd' _ hne => ?_⟩
  rw [client_drop, if_neg]
  rintro rfl
  exact hne ha

theorem effect_store {s t : HttpServer} {fd : ℤ} {c c' : ClientT} {a : TableStep}
    (ht : TableOk t) (hframe : ∀ fd, t.client fd = s.client fd) (hc : s.client fd = some c)
    (hwho : c'.ident = c.ident) (ha : a.target = some fd) :
    Effect s a (t.store fd (some c')) := by
  refine ⟨tableOk_store ht ((hframe fd).trans hc) hwho, fun fd' _ hne => ?_⟩
  have hfd : fd' ≠ fd := by
    rintro rfl
    exact hne ha
  rw [client_store_ne _ hfd, hframe]

theorem effect_accept {s : HttpServer} {calls : Calls} (h : TableOk s)
    (ha : Admissible s (.accept calls)) :
    ∃ f t, branch s (.accept calls) = .ok (f, t) ∧ Effect s (.accept calls) t := by
  by_cases hsetup : SetupOk calls
  · refine ⟨.unlock, s.enter (newClient calls s), ?_, tableOk_enter h rfl, ?_⟩
    · exact (acceptBody_eq calls s).trans (if_pos hsetup)
    -- the new descriptor was not open, so it replaces no client
    · intro fd hfd _
      rw [client_enter, if_neg]
      rintro rfl
      exact ha.resolve_left hsetup.1 hfd
  -- a connection that could not be set up leaves no trace
  · have hsame : (if calls.accept = -1 then s else s.refuse calls.accept) = s := by
      split_ifs with hfail
      · rfl
      · exact refuse_eq_self h (ha.resolve_left hfail)
    have hbody := acceptBody_eq calls s
    rw [if_neg hsetup, hsame] at hbody
    exact ⟨.continue, s, hbody, h, fun _ _ _ => rfl⟩

theorem effect_epollin {s : HttpServer} {fd : ℤ} {c : ClientT} {calls : Calls} (h : TableOk s)
    (hc : s.client fd = some c) :
    ∃ t, branch s (.epollin fd calls) = .ok (.unlock, t) ∧ Effect s (.epollin fd calls) t := by
  -- the exit that frees the client and then writes to it is never taken
  have hn := readn_nonneg calls.read (List.replicate bufsize 0) bufsize
  have hmod : TableOk (s.epollMod fd .epollout calls.epollCtl) := tableOk_epollMod h fd _ _
  refine ⟨_, epollinBody_eq hn hc _ calls, ?_⟩
  exact effect_store hmod (client_epollMod s fd .epollout _) hc rfl rfl

theorem effect_epollout {s : HttpServer} {fd : ℤ} {c : ClientT} {calls : Calls} (h : TableOk s)
    (hc : s.client fd = some c) :
    ∃ t, branch s (.epollout fd calls) = .ok (.unlock, t) ∧ Effect s (.epollout fd calls) t := by
  have hconn : fd ∈ s.conns := (h.live fd).mp (Option.isSome_of_mem hc)
  have hbody := epolloutBody_eq hc calls
  rw [if_pos hconn] at hbody
  split_ifs at hbody
  · exact ⟨_, hbody, effect_drop h rfl⟩
  · exact ⟨_, hbody, effect_store h (fun _ => rfl) hc rfl rfl⟩

theorem effect_timeout {s : HttpServer} {fd : ℤ} {c : ClientT} (h : TableOk s)
    (hc : s.client fd = some c) :
    timeoutClose fd s = .ok (s.drop fd) ∧ Effect s (.timeout fd) (s.drop fd) := by
  have hconn : fd ∈ s.conns := (h.live fd).mp (Option.isSome_of_mem hc)
  -- it closes the key, as the object has its key for its descriptor
  have hclose := timeoutClose_eq hc
  rw [h.key fd c hc, if_pos hconn] at hclose
  exact ⟨hclose, effect_drop h rfl⟩

theorem branch_effect {s : HttpServer} {a : TableStep} (h : TableOk s) (ha : Admissible s a) :
    ∃ f t, branch s a = .ok (f, t) ∧ Effect s a t := by
  cases a with
  | accept calls => exact effect_accept h ha
  | epollin fd calls =>
    obtain ⟨c, hc⟩ := Option.isSome_iff_exists.mp ha
    exact ⟨.unlock, effect_epollin h hc⟩
  | epollout fd calls =>
    obtain ⟨c, hc⟩ := Option.isSome_iff_exists.mp ha
    exact ⟨.unlock, effect_epollout h hc⟩
  | timeout fd =>
    obtain ⟨c, hc⟩ := Option.isSome_iff_exists.mp ha
    obtain ⟨hclose, ht⟩ := effect_timeout h hc
    exact ⟨.unlock, _, by rw [branch, hclose]; rfl, ht⟩

/-- A run of admissible steps from the empty table meets no fault, so it writes through no
NULL entry and closes nothing twice; and at its end the live entries are the open
connections, under their own descriptors and registered. -/
theorem table_consistent (as : List TableStep) (h : Guarded tableStep Admissible {} as) :
    ∃ t, run tableStep {} as = some t ∧
      (∀ fd, (∃ c, t.fds fd = some (some c)) ↔ fd ∈ t.conns) ∧
      ∀ fd c, t.fds fd = some (some c) → c.fd = fd ∧ (t.epoll fd).isSome := by
  have hstep (s : HttpServer) (a : TableStep) (hs : TableOk s) (ha : Admissible s a) :
      ∃ t, tableStep s a = some t ∧ TableOk t := by
    obtain ⟨f, t, hb, ht⟩ := branch_effect hs ha
    exact ⟨t, by rw [tableStep, hb]; rfl, ht.ok⟩
  obtain ⟨t, ht, hok⟩ := run_progress tableStep hstep tableOk_empty h
  refine ⟨t, ht, fun fd => ?_, fun fd c hc => ?_⟩
  · rw [← hok.live fd, Option.isSome_iff_exists]
    simp only [client_eq_some]
  · have hlive : t.client fd = some c := client_eq_some.mpr hc
    refine ⟨hok.key fd c hlive, (hok.registered fd).mpr ?_⟩
    exact (hok.live fd).mp (Option.isSome_of_mem hlive)

/-- Descriptor 5 is accepted, closed as idle and accepted again. -/
theorem reused_descriptor_consistent :
    ∃ t, run tableStep {} [.accept { accept := 5 }, .timeout 5, .accept { accept := 5 }] = some t ∧
      (∀ fd, (∃ c, t.fds fd = some (some c)) ↔ fd ∈ t.conns) ∧
      ∀ fd c, t.fds fd = some (some c) → c.fd = fd ∧ (t.epoll fd).isSome :=
  table_consistent [.accept { accept := 5 }, .timeout 5, .accept { accept := 5 }] (by decide)

end LearningDirectory
