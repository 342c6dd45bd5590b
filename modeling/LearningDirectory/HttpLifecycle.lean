import LearningDirectory.HttpReads
import LearningDirectory.HttpRefinement
import Mathlib.Data.List.ReduceOption

/-! The life of a connection, told by the serial of its `client_t`: it is accepted, its
request is read, it is answered, or it is closed as idle. -/
namespace LearningDirectory
open StepRun HttpServer

inductive LifeEvent
  | accepted
  | read
  | answered
  | timedOut
deriving DecidableEq

/-- What the step does to the client with that serial. -/
def TableStep.happensTo (serial : ℕ) (s : HttpServer) : TableStep → Option LifeEvent
  | .accept calls => if SetupOk calls ∧ s.countacp = serial then some .accepted else none
  | .epollin fd _ => if s.serialAt fd = some serial then some .read else none
  | .epollout fd _ => if s.serialAt fd = some serial then some .answered else none
  | .timeout fd => if s.serialAt fd = some serial then some .timedOut else none

def life (as : List TableStep) (serial : ℕ) : List LifeEvent :=
  (outputs tableStep (TableStep.happensTo serial) {} as).reduceOption

/-- A connection in `fds` waits for its request as long as it is registered for EPOLLIN,
and then for its answer, with a buffer of `BUFSIZE` bytes. -/
inductive Stage (s : HttpServer) (c : ClientT) : List LifeEvent → Prop
  | request (hepoll : s.epoll c.fd = some .epollin) (hread : c.readBuf = []) :
      Stage s c [.accepted]
  | response (hepoll : s.epoll c.fd = some .epollout) (hread : c.readBuf.length = bufsize) :
      Stage s c [.accepted, .read]

/-- The lives of the connections that are closed. -/
def endedLives : List (List LifeEvent) :=
  [[.accepted, .timedOut], [.accepted, .read, .timedOut], [.accepted, .read, .answered]]

/-- The step is taken for an event that the descriptor is registered for, `EPOLL_CTL_MOD`
succeeds, and each `write` fails or takes at least a byte. -/
def Registered (s : HttpServer) : TableStep → Prop
  | .accept _ => True
  | .epollin fd calls => s.epoll fd = some .epollin ∧ calls.epollCtl ≠ -1
  | .epollout fd calls =>
    s.epoll fd = some .epollout ∧ WriteResults calls.write 0 response.length
  | .timeout _ => True

def ClientT.afterRead (c : ClientT) (calls : Calls) : ClientT :=
  { c with
    readBuf := c.readBuf ++ (readn calls.read (List.replicate bufsize 0) bufsize).2
    lastAliveTime := calls.time }

/-- What a step can do to the table, when its events are registered. -/
theorem registered_cases {s t : HttpServer} {a : TableStep} (h : TableOk s)
    (hadm : Admissible s a) (hreg : Registered s a) (ht : tableStep s a = some t) :
    (∃ calls, a = .accept calls ∧ SetupOk calls ∧ calls.accept ∉ s.conns ∧
      t = s.enter (newClient calls s)) ∨
    (∃ calls, a = .accept calls ∧ ¬ SetupOk calls ∧ t = s) ∨
    (∃ fd calls c, a = .epollin fd calls ∧ s.client fd = some c ∧ s.epoll fd = some .epollin ∧
      t = (s.epollMod fd .epollout calls.epollCtl).store fd (some (c.afterRead calls)) ∧
      calls.epollCtl ≠ -1) ∨
    (∃ fd calls c, a = .epollout fd calls ∧ s.client fd = some c ∧
      s.epoll fd = some .epollout ∧ t = s.drop fd) ∨
    (∃ fd c, a = .timeout fd ∧ s.client fd = some c ∧ t = s.drop fd) := by
  cases a with
  | accept calls =>
    rw [tableStep, branch, acceptBody_eq] at ht
    by_cases hsetup : SetupOk calls
    · rw [if_pos hsetup] at ht
      cases ht
      exact Or.inl ⟨calls, rfl, hsetup, hadm.resolve_left hsetup.1, rfl⟩
    · rw [if_neg hsetup] at ht
      cases ht
      refine Or.inr (Or.inl ⟨calls, rfl, hsetup, ?_⟩)
      dsimp only
      split_ifs with hfail
      · rfl
      · exact refuse_eq_self h (hadm.resolve_left hfail)
  | epollin fd calls =>
    obtain ⟨c, hc⟩ := Option.isSome_iff_exists.mp hadm
    let r := readn calls.read (List.replicate bufsize 0) bufsize
    change (epollinBody fd r.1 r.2 calls s).toOption.map Prod.snd = some t at ht
    have hn : 0 ≤ r.1 := readn_nonneg calls.read (List.replicate bufsize 0) bufsize
    rw [epollinBody_eq hn hc] at ht
    cases ht
    exact Or.inr (Or.inr (Or.inl ⟨fd, calls, c, rfl, hc, hreg.1, rfl, hreg.2⟩))
  | epollout fd calls =>
    obtain ⟨c, hc⟩ := Option.isSome_iff_exists.mp hadm
    have hconn : fd ∈ s.conns := (h.live fd).mp hadm
    have hends : (writen calls.write response).1 = response.length ∨
        (writen calls.write response).1 < 0 := by
      rcases writen_results hreg.2 with hall | ⟨_, _, hpart, _⟩
      · exact Or.inl (by rw [hall])
      · right
        rw [hpart]
        exact Int.negSucc_lt_zero 0
    rw [tableStep, branch, epolloutBody_eq hc, if_pos hends, if_pos hconn] at ht
    cases ht
    exact Or.inr (Or.inr (Or.inr (Or.inl ⟨fd, calls, c, rfl, hc, hreg.1, rfl⟩)))
  | timeout fd =>
    obtain ⟨c, hc⟩ := Option.isSome_iff_exists.mp hadm
    obtain ⟨hclose, -⟩ := effect_timeout h hc
    rw [tableStep, branch, hclose] at ht
    cases ht
    exact Or.inr (Or.inr (Or.inr (Or.inr ⟨fd, c, rfl, hc, rfl⟩)))

/-- The connection of every live entry is in the stage that its life has come to, and the
lives of the others are over or have not begun. -/
structure LifeOk (as : List TableStep) (s : HttpServer) : Prop where
  table : TableOk s
  one : ∀ fd fd' n, s.serialAt fd = some n → s.serialAt fd' = some n → fd = fd'
  live : ∀ fd c, s.client fd = some c → Stage s c (life as c.serial)
  ended : ∀ n < s.countacp, (∀ fd, s.serialAt fd ≠ some n) → life as n ∈ endedLives
  unborn : ∀ n, s.countacp ≤ n → life as n = []

theorem life_append_one {as : List TableStep} {s t : HttpServer} {a : TableStep}
    (hr : run tableStep {} as = some s) (ht : tableStep s a = some t) (n : ℕ) :
    life (as ++ [a]) n = life as n ++ (a.happensTo n s).toList := by
  rw [life, outputs_append_one tableStep (TableStep.happensTo n) hr ht, List.reduceOption_append,
    life]
  cases a.happensTo n s <;> rfl

theorem serialAt_client {s : HttpServer} {fd : ℤ} {c : ClientT} (hc : s.client fd = some c) :
    s.serialAt fd = some c.serial := by
  rw [HttpServer.serialAt, hc]
  rfl

theorem client_of_serialAt {s : HttpServer} {fd : ℤ} {n : ℕ} (h : s.serialAt fd = some n) :
    ∃ c, s.client fd = some c ∧ c.serial = n := Option.map_eq_some_iff.mp h

theorem stage_of_same {s t : HttpServer} {c : ClientT} {events : List LifeEvent}
    (h : Stage s c events) (he : t.epoll c.fd = s.epoll c.fd) : Stage t c events := by
  cases h with
  | request hepoll hread => exact .request (he.trans hepoll) hread
  | response hepoll hread => exact .response (he.trans hepoll) hread

theorem lifeOk_start : LifeOk [] {} where
  table := tableOk_empty
  one fd fd' n h := by cases h
  live fd c h := by cases h
  ended n hn := absurd hn (Nat.not_lt_zero n)
  unborn _ _ := rfl

theorem lifeOk_enter {as : List TableStep} {s : HttpServer} {calls : Calls} (h : LifeOk as s)
    (hr : run tableStep {} as = some s) (hsetup : SetupOk calls) (hfd : calls.accept ∉ s.conns)
    (ht : tableStep s (.accept calls) = some (s.enter (newClient calls s))) :
    LifeOk (as ++ [.accept calls]) (s.enter (newClient calls s)) := by
  have hlife (n : ℕ) : life (as ++ [.accept calls]) n =
      life as n ++ if s.countacp = n then [.accepted] else [] := by
    rw [life_append_one hr ht, TableStep.happensTo]
    by_cases hn : s.countacp = n
    · rw [if_pos ⟨hsetup, hn⟩, if_pos hn]
      rfl
    · rw [if_neg fun hboth => hn hboth.2, if_neg hn]
      rfl
  have hself : (s.enter (newClient calls s)).client calls.accept = some (newClient calls s) := by
    rw [client_enter]
    exact if_pos rfl
  have hother (fd : ℤ) (hne : fd ≠ calls.accept) :
      (s.enter (newClient calls s)).client fd = s.client fd := by
    rw [client_enter]
    exact if_neg hne
  have hserial (fd : ℤ) (hne : fd ≠ calls.accept) :
      (s.enter (newClient calls s)).serialAt fd = s.serialAt fd := by
    rw [HttpServer.serialAt, hother fd hne, HttpServer.serialAt]
  have hnew : (s.enter (newClient calls s)).serialAt calls.accept = some s.countacp :=
    serialAt_client hself
  -- the serials so far are below the new one
  have hold (fd : ℤ) (n : ℕ) (hn : s.serialAt fd = some n) : n < s.countacp := by
    obtain ⟨c, hc, rfl⟩ := client_of_serialAt hn
    exact h.table.serial fd c hc
  have hopen (fd : ℤ) (n : ℕ) (hn : s.serialAt fd = some n) : fd ≠ calls.accept := by
    obtain ⟨c, hc, rfl⟩ := client_of_serialAt hn
    rintro rfl
    exact hfd ((h.table.live _).mp (Option.isSome_of_mem hc))
  refine ⟨tableOk_enter h.table rfl, fun fd fd' n hn hn' => ?_, fun fd c hc => ?_,
    fun n hn hgone => ?_, fun n hn => ?_⟩
  · by_cases hfd : fd = calls.accept
    · by_cases hfd' : fd' = calls.accept
      · rw [hfd, hfd']
      · rw [hserial fd' hfd'] at hn'
        rw [hfd, hnew] at hn
        exact absurd (Option.some.inj hn) (hold fd' n hn').ne'
    · rw [hserial fd hfd] at hn
      by_cases hfd' : fd' = calls.accept
      · rw [hfd', hnew] at hn'
        exact absurd (Option.some.inj hn') (hold fd n hn).ne'
      · rw [hserial fd' hfd'] at hn'
        exact h.one fd fd' n hn hn'
  · by_cases he : fd = calls.accept
    · subst he
      obtain rfl := Option.some.inj (hself.symm.trans hc)
      have hbegin : life (as ++ [.accept calls]) (newClient calls s).serial = [.accepted] := by
        rw [hlife, show (newClient calls s).serial = s.countacp from rfl,
          h.unborn _ (Nat.le_refl _), if_pos rfl]
        rfl
      rw [hbegin]
      exact .request (Function.update_self ..) rfl
    · rw [hother fd he] at hc
      have hne : s.countacp ≠ c.serial := (h.table.serial fd c hc).ne'
      rw [hlife, if_neg hne, List.append_nil]
      apply stage_of_same (h.live fd c hc)
      rw [h.table.key fd c hc]
      exact Function.update_of_ne he _ _
  · have hne : s.countacp ≠ n := by
      rintro rfl
      exact hgone calls.accept hnew
    have hlt : n < s.countacp := by
      change n < s.countacp+1 at hn
      omega
    rw [hlife, if_neg hne, List.append_nil]
    apply h.ended n hlt
    intro fd hfd
    apply hgone fd
    rw [hserial fd (hopen fd n hfd)]
    exact hfd
  · have hlt : s.countacp < n := hn
    rw [hlife, if_neg hlt.ne, List.append_nil]
    exact h.unborn n hlt.le

/-- A step for a live entry, which then has the same client in its next stage, or none. -/
theorem lifeOk_moves {as : List TableStep} {s t : HttpServer} {a : TableStep} {fd : ℤ}
    {c : ClientT} {e : LifeEvent} (h : LifeOk as s) (hr : run tableStep {} as = some s)
    (ht : tableStep s a = some t) (hc : s.client fd = some c)
    (happens : ∀ n, a.happensTo n s = if s.serialAt fd = some n then some e else none)
    (htable : TableOk t) (hcount : t.countacp = s.countacp)
    (hother : ∀ fd', fd' ≠ fd → t.client fd' = s.client fd' ∧ t.epoll fd' = s.epoll fd')
    (hself : (∃ c', t.client fd = some c' ∧ c'.serial = c.serial ∧
        Stage t c' (life as c.serial ++ [e])) ∨
      t.client fd = none ∧ life as c.serial ++ [e] ∈ endedLives) : LifeOk (as ++ [a]) t := by
  have hat : s.serialAt fd = some c.serial := serialAt_client hc
  have hlife (n : ℕ) : life (as ++ [a]) n = life as n ++ if c.serial = n then [e] else [] := by
    rw [life_append_one hr ht, happens, hat]
    by_cases hn : c.serial = n
    · rw [if_pos (congrArg some hn), if_pos hn]
      rfl
    · rw [if_neg fun hsome => hn (Option.some.inj hsome), if_neg hn]
      rfl
  have hserial (fd' : ℤ) (hne : fd' ≠ fd) : t.serialAt fd' = s.serialAt fd' := by
    rw [HttpServer.serialAt, (hother fd' hne).1, HttpServer.serialAt]
  -- no entry gets a serial that it did not have
  have hback (fd' : ℤ) (n : ℕ) (hn : t.serialAt fd' = some n) : s.serialAt fd' = some n := by
    by_cases he : fd' = fd
    · subst he
      rcases hself with ⟨c', hc', hsame, -⟩ | ⟨hnone, -⟩
      · rw [hat, ← hsame, ← hn, serialAt_client hc']
      · rw [HttpServer.serialAt, hnone] at hn
        cases hn
    · rw [← hserial fd' he]
      exact hn
  refine ⟨htable, fun fd₁ fd₂ n h₁ h₂ => ?_, fun fd' c' hc' => ?_, fun n hn hgone => ?_,
    fun n hn => ?_⟩
  · exact h.one fd₁ fd₂ n (hback fd₁ n h₁) (hback fd₂ n h₂)
  · by_cases he : fd' = fd
    · subst he
      rcases hself with ⟨c₁, hc₁, hsame, hstage⟩ | ⟨hnone, -⟩
      · obtain rfl := Option.some.inj (hc₁.symm.trans hc')
        rw [hlife, hsame, if_pos rfl]
        exact hstage
      · rw [hnone] at hc'
        cases hc'
    · obtain ⟨hclient, hepoll⟩ := hother fd' he
      rw [hclient] at hc'
      have hne : c.serial ≠ c'.serial := by
        intro hsame
        apply he
        exact h.one fd' fd c'.serial (serialAt_client hc') (hsame ▸ hat)
      rw [hlife, if_neg hne, List.append_nil]
      apply stage_of_same (h.live fd' c' hc')
      rw [h.table.key fd' c' hc']
      exact hepoll
  · rw [hlife]
    by_cases hne : c.serial = n
    · subst hne
      rw [if_pos rfl]
      rcases hself with ⟨c', hc', hsame, -⟩ | ⟨-, hends⟩
      · exact absurd (hsame ▸ serialAt_client hc') (hgone fd)
      · exact hends
    · rw [if_neg hne, List.append_nil]
      apply h.ended n (hcount ▸ hn)
      intro fd' hfd'
      apply hgone fd'
      rw [hserial fd']
      · exact hfd'
      · rintro rfl
        exact hne (Option.some.inj (hat.symm.trans hfd'))
  · have hlt : c.serial < n := Nat.lt_of_lt_of_le (h.table.serial fd c hc) (hcount ▸ hn)
    rw [hlife, if_neg hlt.ne, List.append_nil]
    exact h.unborn n (hcount ▸ hn)

theorem epoll_epollMod {s : HttpServer} {fd : ℤ} {events interest : Interest} {result : ℤ}
    (hepoll : s.epoll fd = some interest) (hok : result ≠ -1) :
    (s.epollMod fd events result).epoll fd = some events := by
  rw [epollMod, if_neg hok]
  simp only [Function.update_self, hepoll, Option.map_some]

theorem epoll_epollMod_ne {s : HttpServer} {fd fd' : ℤ} (events : Interest) (result : ℤ)
    (hne : fd' ≠ fd) : (s.epollMod fd events result).epoll fd' = s.epoll fd' := by
  rw [epollMod]
  split_ifs
  · rfl
  · exact Function.update_of_ne hne _ _

theorem lifeOk_epollin {as : List TableStep} {s : HttpServer} {fd : ℤ} {calls : Calls}
    {c : ClientT} (h : LifeOk as s) (hr : run tableStep {} as = some s)
    (hc : s.client fd = some c) (hepoll : s.epoll fd = some .epollin) (hok : calls.epollCtl ≠ -1)
    (ht : tableStep s (.epollin fd calls) = some
      ((s.epollMod fd .epollout calls.epollCtl).store fd (some (c.afterRead calls)))) :
    LifeOk (as ++ [.epollin fd calls])
      ((s.epollMod fd .epollout calls.epollCtl).store fd (some (c.afterRead calls))) := by
  have hmod : TableOk (s.epollMod fd .epollout calls.epollCtl) := tableOk_epollMod h.table fd _ _
  have hmodClient : (s.epollMod fd .epollout calls.epollCtl).client fd = some c := by
    rw [client_epollMod]
    exact hc
  have hkey : c.fd = fd := h.table.key fd c hc
  refine lifeOk_moves h hr ht hc (fun _ => rfl) (tableOk_store hmod hmodClient rfl) ?_
    (fun fd' hne => ⟨?_, epoll_epollMod_ne .epollout _ hne⟩)
    (Or.inl ⟨c.afterRead calls, ?_, rfl, ?_⟩)
  · rw [epollMod]
    split_ifs <;> rfl
  · rw [client_store_ne _ hne, client_epollMod]
  · exact client_store ..
  · have hstage := h.live fd c hc
    generalize life as c.serial = events at hstage
    cases hstage with
    | request _ hread =>
      refine .response ?_ ?_
      · change (s.epollMod fd .epollout calls.epollCtl).epoll c.fd = _
        rw [hkey]
        exact epoll_epollMod hepoll hok
      · rw [ClientT.afterRead, hread, readn_buf, List.nil_append, List.length_append,
          List.length_replicate]
        have hle := length_readBytes_le calls
        omega
    | response hother _ =>
      rw [hkey, hepoll] at hother
      cases hother

theorem lifeOk_drop {as : List TableStep} {s : HttpServer} {a : TableStep} {fd : ℤ} {c : ClientT}
    {e : LifeEvent} (h : LifeOk as s) (hr : run tableStep {} as = some s)
    (ht : tableStep s a = some (s.drop fd)) (hc : s.client fd = some c)
    (happens : ∀ n, a.happensTo n s = if s.serialAt fd = some n then some e else none)
    (hends : life as c.serial ++ [e] ∈ endedLives) : LifeOk (as ++ [a]) (s.drop fd) := by
  have hother (fd' : ℤ) (hne : fd' ≠ fd) :
      (s.drop fd).client fd' = s.client fd' ∧ (s.drop fd).epoll fd' = s.epoll fd' := by
    rw [client_drop, if_neg hne]
    exact ⟨rfl, Function.update_of_ne hne _ _⟩
  have hnone : (s.drop fd).client fd = none := by
    rw [client_drop, if_pos rfl]
  exact lifeOk_moves h hr ht hc happens (tableOk_drop h.table) rfl hother (Or.inr ⟨hnone, hends⟩)

theorem lifeOk_step {as : List TableStep} {s t : HttpServer} {a : TableStep} (h : LifeOk as s)
    (hr : run tableStep {} as = some s) (hadm : Admissible s a) (hreg : Registered s a)
    (ht : tableStep s a = some t) : LifeOk (as ++ [a]) t := by
  rcases registered_cases h.table hadm hreg ht with
    ⟨calls, rfl, hsetup, hfd, rfl⟩ | ⟨calls, rfl, hsetup, rfl⟩ |
    ⟨fd, calls, c, rfl, hc, hepoll, rfl, hok⟩ | ⟨fd, calls, c, rfl, hc, hepoll, rfl⟩ |
    ⟨fd, c, rfl, hc, rfl⟩
  · exact lifeOk_enter h hr hsetup hfd ht
  -- a refused connection has no life
  · have hlife (n : ℕ) : life (as ++ [.accept calls]) n = life as n := by
      rw [life_append_one hr ht, TableStep.happensTo, if_neg fun hboth => hsetup hboth.1]
      exact List.append_nil _
    refine ⟨h.table, h.one, fun fd c hc => ?_, fun n hn hgone => ?_, fun n hn => ?_⟩
    · rw [hlife]
      exact h.live fd c hc
    · rw [hlife]
      exact h.ended n hn hgone
    · rw [hlife]
      exact h.unborn n hn
  · exact lifeOk_epollin h hr hc hepoll hok ht
  · refine lifeOk_drop h hr ht hc (fun _ => rfl) ?_
    have hstage := h.live fd c hc
    generalize life as c.serial = events at hstage
    cases hstage with
    | request hother _ =>
      rw [h.table.key fd c hc, hepoll] at hother
      cases hother
    | response _ _ => decide
  · refine lifeOk_drop h hr ht hc (fun _ => rfl) ?_
    have hstage := h.live fd c hc
    generalize life as c.serial = events at hstage
    cases hstage with
    | request _ _ => decide
    | response _ _ => decide

/-- An open connection that the step does not work on stays registered as it is. -/
theorem epoll_frame {s t : HttpServer} {a : TableStep} {fd : ℤ} (h : TableOk s)
    (hadm : Admissible s a) (hreg : Registered s a) (ht : tableStep s a = some t)
    (hfd : fd ∈ s.conns) (hne : a.target ≠ some fd) : t.epoll fd = s.epoll fd := by
  have htarget {fd' : ℤ} (ha : a.target = some fd') : fd ≠ fd' := by
    rintro rfl
    exact hne ha
  rcases registered_cases h hadm hreg ht with
    ⟨calls, rfl, -, hnew, rfl⟩ | ⟨calls, rfl, -, rfl⟩ | ⟨fd', calls, c, rfl, -, -, rfl, -⟩ |
    ⟨fd', calls, c, rfl, -, -, rfl⟩ | ⟨fd', c, rfl, -, rfl⟩
  · apply Function.update_of_ne
    rintro rfl
    exact hnew hfd
  · rfl
  · exact epoll_epollMod_ne .epollout _ (htarget rfl)
  · exact Function.update_of_ne (htarget rfl) _ _
  · exact Function.update_of_ne (htarget rfl) _ _

/-- `epoll_wait` reports a client for what it is registered for. -/
def Event.Registered (listenSock : ℤ) (s : HttpServer) (e : Event) : Prop :=
  e.fd ≠ listenSock → (e.epollin → s.epoll e.fd = some .epollin) ∧
    (e.epollout → s.epoll e.fd = some .epollout)

instance (listenSock : ℤ) (s : HttpServer) (e : Event) :
    Decidable (e.Registered listenSock s) := inferInstanceAs (Decidable (_ ≠ _ → _))

/-- The calls that the branch of a client makes succeed, or the connection is broken. -/
def Event.Succeeds (listenSock : ℤ) (calls : Calls) (e : Event) : Prop :=
  e.fd ≠ listenSock → (e.epollin → calls.epollCtl ≠ -1) ∧
    (e.epollout → WriteResults calls.write 0 response.length)

instance (listenSock : ℤ) (calls : Calls) (e : Event) : Decidable (e.Succeeds listenSock calls) :=
  inferInstanceAs (Decidable (_ ≠ _ → _))

/-- The reports and the calls are such, and no client that has an event pending is closed as
idle. -/
def InterestReported (listenSock : ℤ) (s : HttpLoop) : HttpStep → Prop
  | .epollWait events => ∀ e ∈ events, e.Registered listenSock s.server
  | .handle calls => ∀ p ∈ s.batch.head?, p.event.Succeeds listenSock calls
  | .timeout fd tm => NoPendingClose listenSock s (.timeout fd tm)

instance decidableInterestReported (listenSock : ℤ) (s : HttpLoop) :
    (a : HttpStep) → Decidable (InterestReported listenSock s a)
  | .epollWait events =>
    inferInstanceAs (Decidable (∀ e ∈ events, e.Registered listenSock s.server))
  | .handle calls => inferInstanceAs (Decidable
      (∀ p ∈ s.batch.head?, p.event.Succeeds listenSock calls))
  | .timeout fd tm => inferInstanceAs (Decidable (NoPendingClose listenSock s (.timeout fd tm)))

/-- The pending events are still for what their descriptors are registered for. -/
structure ReportsOk (listenSock : ℤ) (s : HttpLoop) (t : HttpServer) : Prop where
  abstracts : Abstracts listenSock s t
  registered : ∀ p ∈ s.batch, p.event.Registered listenSock s.server

theorem noPendingClose_of_reported {listenSock : ℤ} {s : HttpLoop} {a : HttpStep}
    (h : InterestReported listenSock s a) : NoPendingClose listenSock s a := by
  cases a with
  | epollWait | handle => trivial
  | timeout fd tm => exact h

theorem registered_of_event {listenSock : ℤ} {e : Event} {calls : Calls} {s : HttpServer}
    {a : TableStep} (ha : eventStep listenSock e calls = some a) (h : e.Registered listenSock s)
    (hok : e.Succeeds listenSock calls) : Registered s a := by
  unfold eventStep at ha
  split_ifs at ha with hlisten hin hout
  · cases ha
    trivial
  · cases ha
    exact ⟨(h hlisten).1 hin, (hok hlisten).1 hin⟩
  · cases ha
    exact ⟨(h hlisten).2 hout, (hok hlisten).2 hout⟩

def Regular (s : HttpServer) (a : TableStep) : Prop := Admissible s a ∧ Registered s a

theorem epoll_branch {t v : HttpServer} {o : Option TableStep} {fd : ℤ} (h : TableOk t)
    (hg : Guarded tableStep Regular t o.toList) (hv : run tableStep t o.toList = some v)
    (hfd : fd ∈ t.conns) (hne : ∀ a ∈ o, a.target ≠ some fd) : v.epoll fd = t.epoll fd := by
  cases o with
  | none =>
    obtain rfl : t = v := Option.some.inj hv
    rfl
  | some a =>
    rw [Option.toList_some] at hg hv
    obtain ⟨hadm, hreg⟩ := (guarded_one tableStep).mp hg
    rw [run_cons] at hv
    obtain ⟨w, hw, hend⟩ := Option.bind_eq_some_iff.mp hv
    obtain rfl : w = v := Option.some.inj hend
    exact epoll_frame h hadm hreg hw hfd (hne a rfl)

/-- A pending event stays registered when no branch is taken for its descriptor. -/
theorem registered_kept {listenSock : ℤ} {t v : HttpServer} {o : Option TableStep} {e : Event}
    (ht : TableOk t) (hg : Guarded tableStep Regular t o.toList)
    (hv : run tableStep t o.toList = some v) (h : e.Registered listenSock t)
    (hlive : e.forClient listenSock → (t.client e.fd).isSome)
    (hne : e.forClient listenSock → ∀ b ∈ o, b.target ≠ some e.fd) :
    e.Registered listenSock v := by
  have hsame (hclient : e.forClient listenSock) : v.epoll e.fd = t.epoll e.fd :=
    epoll_branch ht hg hv ((ht.live _).mp (hlive hclient)) (hne hclient)
  intro hlisten
  obtain ⟨hin, hout⟩ := h hlisten
  constructor
  · intro hepollin
    rw [hsame ⟨hlisten, Or.inl hepollin⟩]
    exact hin hepollin
  · intro hepollout
    rw [hsame ⟨hlisten, Or.inr hepollout⟩]
    exact hout hepollout

theorem reportsOk_step {listenSock : ℤ} {s u : HttpLoop} {t : HttpServer} {a : HttpStep}
    (h : ReportsOk listenSock s t) (ha : InterestReported listenSock s a)
    (hs : httpStep listenSock s a = some u) :
    Guarded tableStep Regular t (s.tableSteps listenSock a) ∧
      ∃ v, run tableStep t (s.tableSteps listenSock a) = some v ∧ ReportsOk listenSock u v := by
  obtain ⟨⟨hbatch, rfl⟩, hregistered⟩ := h
  obtain ⟨hguard, v, hv, hnext⟩ :=
    abstracts_step ⟨hbatch, rfl⟩ (noPendingClose_of_reported ha) hs
  have htable : TableOk (s.server.withHeld false) := tableOk_held hbatch.table false
  have hkeep {o : Option TableStep} {q : Pending} (ho : s.tableSteps listenSock a = o.toList)
      (hg : Guarded tableStep Regular (s.server.withHeld false) o.toList) (hq : q ∈ s.batch)
      (hne : q.event.forClient listenSock → ∀ b ∈ o, b.target ≠ some q.event.fd) :
      q.event.Registered listenSock u.server := by
    rw [ho, hnext.server] at hv
    have hend : q.event.Registered listenSock (u.server.withHeld false) :=
      registered_kept htable hg hv (hregistered q hq)
        (fun hclient => isSome_of_current (hbatch.current q hq hclient)) hne
    exact hend
  cases a with
  | epollWait events =>
    refine ⟨List.forall_mem_nil _, v, hv, hnext, ?_⟩
    rw [httpStep] at hs
    split_ifs at hs
    cases hs
    intro p hp
    obtain ⟨e, he, rfl⟩ := List.mem_map.mp hp
    exact ha e he
  | handle calls =>
    obtain ⟨p, rest, hb, hrest, hcall, -⟩ := handle_eq_some hs
    have hp : p ∈ s.batch := hb ▸ List.mem_cons_self ..
    have ho : s.tableSteps listenSock (.handle calls) =
        (eventStep listenSock p.event calls).toList := by
      rw [HttpLoop.tableSteps, hb]
      rfl
    have hg : Guarded tableStep Regular (s.server.withHeld false)
        (eventStep listenSock p.event calls).toList := by
      rw [ho] at hguard
      cases he : eventStep listenSock p.event calls with
      | none => exact List.forall_mem_nil _
      | some b =>
        rw [he, Option.toList_some, guarded_one] at hguard
        rw [Option.toList_some, guarded_one]
        have hsucceeds : p.event.Succeeds listenSock calls := ha p (by rw [hb]; rfl)
        exact ⟨hguard, registered_of_event he (hregistered p hp) hsucceeds⟩
    refine ⟨ho ▸ hg, v, hv, hnext, fun q hq => ?_⟩
    rw [hrest] at hq
    have hqs : q ∈ s.batch := hb ▸ List.mem_cons_of_mem p hq
    refine hkeep ho hg hqs fun hclient b hbranch htarget => ?_
    -- the events of a batch are for different descriptors
    have hlive (hp' : p.event.forClient listenSock) : (s.server.client p.event.fd).isSome :=
      isSome_of_current (hbatch.current p hp hp')
    obtain ⟨-, hfd⟩ := eventStep_admissible hbranch hcall hlive
    have hnodup := hbatch.nodup
    rw [hb, List.map_cons, List.nodup_cons] at hnodup
    exact hnodup.1 (List.mem_map.mpr ⟨q, hq, (hfd _ htarget).2⟩)
  | timeout fd tm =>
    have ho : s.tableSteps listenSock (.timeout fd tm) = (some (.timeout fd)).toList := rfl
    have hg : Guarded tableStep Regular (s.server.withHeld false)
        (some (TableStep.timeout fd)).toList := by
      rw [HttpLoop.tableSteps, guarded_one] at hguard
      rw [Option.toList_some, guarded_one]
      exact ⟨hguard, trivial⟩
    obtain ⟨-, -, -, hsame, -⟩ := timeout_eq_some hs
    refine ⟨hg, v, hv, hnext, fun q hq => ?_⟩
    rw [hsame] at hq
    refine hkeep ho hg hq fun hclient b hbranch htarget => ?_
    obtain rfl := Option.some.inj hbranch
    exact ha q hq hclient (Option.some.inj htarget).symm

/-- When `epoll_wait` reports what the descriptors are registered for and the timeout thread
closes no client that has an event pending, every connection has its request read once and is
answered once, in this order, unless it is closed as idle before; the one of a live entry has
come as far as the interest that it is registered for. -/
theorem connection_lives (listenSock : ℤ) (as : List HttpStep) (s : HttpLoop)
    (h : Guarded (httpStep listenSock) (InterestReported listenSock) {} as)
    (hr : run (httpStep listenSock) {} as = some s) :
    (∀ fd c, s.server.client fd = some c →
      Stage s.server c (life (tableRun listenSock as) c.serial)) ∧
    ∀ n < s.server.countacp, (∀ fd, s.server.serialAt fd ≠ some n) →
      life (tableRun listenSock as) n ∈ endedLives := by
  have hstart : ReportsOk listenSock {} {} :=
    ⟨⟨batchOk_start listenSock, rfl⟩, fun p hp => by cases hp⟩
  obtain ⟨hguard, t, ht, ⟨-, rfl⟩, -⟩ :=
    run_outputs (httpStep listenSock) tableStep (HttpLoop.tableSteps listenSock)
      (fun _ _ _ _ h ha hs => reportsOk_step h ha hs) hstart h hr
  have hlife : LifeOk (tableRun listenSock as) (s.server.withHeld false) :=
    run_rule tableStep (I := LifeOk) lifeOk_start
      (fun _ _ _ _ hp hi ha hs => lifeOk_step hi hp ha.1 ha.2 hs) hguard ht
  constructor
  · intro fd c hc
    exact stage_of_same (hlife.live fd c hc) rfl
  · intro n hn hgone
    exact hlife.ended n hn hgone

/-- Client 5 sends its request and waits for the answer. -/
def requestRead : List HttpStep :=
  [.epollWait [⟨3, true, false⟩], .handle { accept := 5 }, .epollWait [⟨5, true, false⟩],
    .handle { read := fun _ => some [71, 69, 84] }]

theorem request_read_lives : ∃ s, run (httpStep 3) {} requestRead = some s ∧
    (∀ fd c, s.server.client fd = some c →
      Stage s.server c (life (tableRun 3 requestRead) c.serial)) ∧
    ∀ n < s.server.countacp, (∀ fd, s.server.serialAt fd ≠ some n) →
      life (tableRun 3 requestRead) n ∈ endedLives := by
  have hsome : (run (httpStep 3) {} requestRead).isSome := by decide +kernel
  obtain ⟨s, hs⟩ := Option.isSome_iff_exists.mp hsome
  exact ⟨s, hs, connection_lives 3 requestRead s (by decide +kernel) hs⟩

end LearningDirectory
