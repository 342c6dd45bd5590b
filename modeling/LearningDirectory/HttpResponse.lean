import LearningDirectory.HttpTable

/-! What the clients receive: the connections are numbered as they are accepted, and each
has the bytes that `writen` has written to its descriptor. -/
namespace LearningDirectory
open StepRun HttpServer

structure HttpConns where
  server : HttpServer := {}
  /-- the number of connections so far -/
  accepted : ℕ := 0
  /-- the connection that an open descriptor belongs to -/
  connOf : ℤ → Option ℕ := fun _ => none
  received : ℕ → Bytes := fun _ => []
  /-- a `write` to it has returned -1 -/
  failed : ℕ → Bool := fun _ => false
  /-- an EPOLLOUT has been handled for it -/
  answered : ℕ → Bool := fun _ => false

namespace HttpConns

/-- `writes` are what the `write`s of the response to it return. -/
def answer (s : HttpConns) (conn : ℕ) (writes : ℕ → ℤ) : HttpConns :=
  { s with
    received := Function.update s.received conn (s.received conn ++ (writen writes response).2)
    failed := Function.update s.failed conn (s.failed conn || decide (WriteFails writes response))
    answered := Function.update s.answered conn true }

/-- What the step means for the connections. -/
def log (s : HttpConns) : TableStep → HttpConns
  | .accept calls =>
    if calls.accept = -1 then s
    else
      { s with
        accepted := s.accepted+1
        connOf := Function.update s.connOf calls.accept (some s.accepted) }
  | .epollout fd calls =>
    match s.connOf fd with
    | some conn => s.answer conn calls.write
    | none => s
  | .epollin _ _ => s
  | .timeout _ => s

/-- The descriptors that `server` has closed belong to no connection any more. -/
def settle (s : HttpConns) (server : HttpServer) : HttpConns :=
  { s with server := server, connOf := fun fd => if fd ∈ server.conns then s.connOf fd else none }

def IsOpen (s : HttpConns) (conn : ℕ) : Prop := ∃ fd ∈ s.server.conns, s.connOf fd = some conn

end HttpConns

def connStep (s : HttpConns) (a : TableStep) : Option HttpConns :=
  (tableStep s.server a).map (s.log a).settle

/-- The step is taken for a live entry, and each `write` fails or takes at least a byte. -/
def Served (s : HttpConns) (a : TableStep) : Prop :=
  Admissible s.server a ∧ match a with
    | .epollout _ calls => WriteResults calls.write 0 response.length
    | _ => True

instance decidableServed (s : HttpConns) : (a : TableStep) → Decidable (Served s a)
  | .accept _ => inferInstanceAs (Decidable (_ ∧ True))
  | .epollin _ _ => inferInstanceAs (Decidable (_ ∧ True))
  | .epollout _ calls => inferInstanceAs (Decidable (_ ∧ WriteResults calls.write 0 _))
  | .timeout _ => inferInstanceAs (Decidable (_ ∧ True))

/-- Every open descriptor belongs to one connection, an open connection has received
nothing, and every other has received its response as far as it could be written. -/
structure ConnsOk (s : HttpConns) : Prop where
  table : TableOk s.server
  mapped : ∀ fd, (s.connOf fd).isSome ↔ fd ∈ s.server.conns
  one : ∀ fd fd' conn, s.connOf fd = some conn → s.connOf fd' = some conn → fd = fd'
  old : ∀ fd conn, s.connOf fd = some conn → conn < s.accepted
  quiet : ∀ conn, s.accepted ≤ conn ∨ s.IsOpen conn →
    s.received conn = [] ∧ s.answered conn = false
  part : ∀ conn, s.received conn <+: response
  whole : ∀ conn, s.received conn = response ∨ s.failed conn = true ∨ s.answered conn = false

theorem isOpen_of_settle {s : HttpConns} {t : HttpServer} {conn : ℕ}
    (h : (s.settle t).IsOpen conn) : ∃ fd ∈ t.conns, s.connOf fd = some conn := by
  obtain ⟨fd, hconn, hfd⟩ := h
  exact ⟨fd, hconn, (Option.ite_none_right_eq_some.mp hfd).2⟩

theorem connsOk_settle {s : HttpConns} {t : HttpServer} (h : ConnsOk s) (ht : TableOk t)
    (hsub : t.conns ⊆ s.server.conns) : ConnsOk (s.settle t) where
  table := ht
  mapped fd := by
    change (if fd ∈ t.conns then s.connOf fd else none).isSome ↔ fd ∈ t.conns
    split_ifs with hfd
    · exact iff_of_true ((h.mapped fd).mpr (hsub hfd)) hfd
    · exact iff_of_false Bool.false_ne_true hfd
  one fd fd' conn hfd hfd' := by
    obtain ⟨-, hfd⟩ := Option.ite_none_right_eq_some.mp hfd
    obtain ⟨-, hfd'⟩ := Option.ite_none_right_eq_some.mp hfd'
    exact h.one fd fd' conn hfd hfd'
  old fd conn hfd := h.old fd conn (Option.ite_none_right_eq_some.mp hfd).2
  quiet conn hconn := by
    apply h.quiet conn
    apply hconn.imp_right
    intro hopen
    obtain ⟨fd, hconn, hfd⟩ := isOpen_of_settle hopen
    exact ⟨fd, hsub hconn, hfd⟩
  part := h.part
  whole := h.whole

/-- The response is written once, to a connection that is being closed. -/
theorem connsOk_answer {s : HttpConns} {conn : ℕ} {writes : ℕ → ℤ} (h : ConnsOk s)
    (hold : conn < s.accepted) (hclosed : ¬ s.IsOpen conn) (hnone : s.received conn = [])
    (hwrites : WriteResults writes 0 response.length) : ConnsOk (s.answer conn writes) where
  table := h.table
  mapped := h.mapped
  one := h.one
  old := h.old
  quiet conn' hconn' := by
    have hne : conn' ≠ conn := by
      rintro rfl
      exact hconn'.elim (Nat.not_le_of_lt hold) hclosed
    simp only [HttpConns.answer, Function.update_of_ne hne]
    exact h.quiet conn' hconn'
  part conn' := by
    by_cases hne : conn' = conn
    · subst hne
      simp only [HttpConns.answer, Function.update_self, hnone, List.nil_append]
      rcases writen_results hwrites with hall | ⟨written, hpart, hfail, -⟩
      · rw [hall]
      · rwa [hfail]
    · simp only [HttpConns.answer, Function.update_of_ne hne]
      exact h.part conn'
  whole conn' := by
    by_cases hne : conn' = conn
    · subst hne
      simp only [HttpConns.answer, Function.update_self, hnone, List.nil_append]
      rcases writen_results hwrites with hall | ⟨written, -, -, hreturned⟩
      · rw [hall]
        exact Or.inl rfl
      · right
        left
        exact Bool.or_eq_true_iff.mpr (Or.inr (decide_eq_true hreturned))
    · simp only [HttpConns.answer, Function.update_of_ne hne]
      exact h.whole conn'

/-- The number of a new connection has not been used. -/
theorem connsOk_enter {s : HttpConns} {c : ClientT} (h : ConnsOk s)
    (hserial : c.serial = s.server.countacp) :
    ConnsOk
      { s with
        server := s.server.enter c
        accepted := s.accepted+1
        connOf := Function.update s.connOf c.fd (some s.accepted) } where
  table := tableOk_enter h.table hserial
  mapped fd := by
    simp only [Function.update_apply, enter, Finset.mem_insert]
    split_ifs with he
    · simp [he]
    · simp [he, h.mapped fd]
  one fd fd' conn hfd hfd' := by
    have hno {fd : ℤ} {conn : ℕ} (hfd : s.connOf fd = some conn) : conn ≠ s.accepted :=
      (h.old fd conn hfd).ne
    simp only [Function.update_apply] at hfd hfd'
    split_ifs at hfd hfd' with he he' he'
    · rw [he, he']
    · exact absurd (Option.some.inj hfd).symm (hno hfd')
    · exact absurd (Option.some.inj hfd').symm (hno hfd)
    · exact h.one fd fd' conn hfd hfd'
  old fd conn hfd := by
    simp only [Function.update_apply] at hfd
    split_ifs at hfd with he
    · cases hfd
      exact Nat.lt_succ_self _
    · exact (h.old fd conn hfd).trans (Nat.lt_succ_self _)
  quiet conn hconn := by
    apply h.quiet conn
    rcases hconn with hlater | ⟨fd, hmem, hfd⟩
    · exact Or.inl (Nat.le_of_succ_le hlater)
    · simp only [Function.update_apply] at hfd
      split_ifs at hfd with he
      · cases hfd
        exact Or.inl le_rfl
      · exact Or.inr ⟨fd, Finset.mem_of_mem_insert_of_ne hmem he, hfd⟩
  part := h.part
  whole := h.whole

/-- A connection that could not be set up was closed at once. -/
theorem connsOk_refuse {s : HttpConns} (h : ConnsOk s) :
    ConnsOk { s with accepted := s.accepted+1 } where
  table := h.table
  mapped := h.mapped
  one := h.one
  old fd conn hfd := (h.old fd conn hfd).trans (Nat.lt_succ_self _)
  quiet conn hconn := h.quiet conn (hconn.imp_left Nat.le_of_succ_le)
  part := h.part
  whole := h.whole

theorem settle_eq {s : HttpConns} {t : HttpServer} (h : ∀ fd, (s.connOf fd).isSome → fd ∈ t.conns) :
    s.settle t = { s with server := t } := by
  have hconn : (fun fd => if fd ∈ t.conns then s.connOf fd else none) = s.connOf := by
    funext fd
    split_ifs with hfd
    · rfl
    · symm
      apply Option.not_isSome_iff_eq_none.mp
      exact mt (h fd) hfd
  rw [HttpConns.settle, hconn]

theorem connsOk_accept {s t : HttpConns} {calls : Calls} (h : ConnsOk s)
    (ha : Admissible s.server (.accept calls)) (hs : connStep s (.accept calls) = some t) :
    ConnsOk t := by
  rw [connStep, tableStep, branch, acceptBody_eq] at hs
  by_cases hsetup : SetupOk calls
  · rw [if_pos hsetup] at hs
    cases hs
    rw [HttpConns.log, if_neg hsetup.1, settle_eq]
    · exact connsOk_enter h rfl
    · intro fd hfd
      simp only [Function.update_apply] at hfd
      split_ifs at hfd with he
      · exact he ▸ Finset.mem_insert_self _ _
      · apply Finset.mem_insert_of_mem
        exact (h.mapped fd).mp hfd
  · rw [if_neg hsetup] at hs
    cases hs
    rw [HttpConns.log]
    split_ifs with hfail
    · exact connsOk_settle h h.table (Finset.Subset.refl _)
    · have hnew : calls.accept ∉ s.server.conns := ha.resolve_left hfail
      -- the descriptor is not open any more, so it belongs to no connection
      have hsame : (fun fd => if fd ∈ s.server.conns then
          Function.update s.connOf calls.accept (some s.accepted) fd else none) =
          fun fd => if fd ∈ s.server.conns then s.connOf fd else none := by
        funext fd
        split_ifs with hfd
        · rw [Function.update_of_ne]
          rintro rfl
          exact hnew hfd
        · rfl
      rw [refuse_eq_self h.table hnew, HttpConns.settle, hsame]
      exact connsOk_settle (connsOk_refuse h) h.table (Finset.Subset.refl _)

theorem connsOk_epollin {s t : HttpConns} {fd : ℤ} {calls : Calls} (h : ConnsOk s)
    (ha : Admissible s.server (.epollin fd calls)) (hs : connStep s (.epollin fd calls) = some t) :
    ConnsOk t := by
  obtain ⟨c, hc⟩ := Option.isSome_iff_exists.mp ha
  obtain ⟨u, hu, heffect⟩ : ∃ u, branch s.server (.epollin fd calls) = .ok (.unlock, u) ∧
      Effect s.server (.epollin fd calls) u := effect_epollin h.table hc
  have hn := readn_nonneg calls.read (List.replicate bufsize 0) bufsize
  have hbody := epollinBody_eq hn hc (readn calls.read (List.replicate bufsize 0) bufsize).2 calls
  cases hbody.symm.trans hu
  rw [connStep, tableStep, hu] at hs
  cases hs
  refine connsOk_settle h heffect.ok (Finset.Subset.antisymm_iff.mp ?_).1
  rw [store, epollMod]
  split_ifs <;> rfl

theorem connsOk_epollout {s t : HttpConns} {fd : ℤ} {calls : Calls} (h : ConnsOk s)
    (ha : Admissible s.server (.epollout fd calls))
    (hwrites : WriteResults calls.write 0 response.length)
    (hs : connStep s (.epollout fd calls) = some t) : ConnsOk t := by
  obtain ⟨c, hc⟩ := Option.isSome_iff_exists.mp ha
  have hconn : fd ∈ s.server.conns := (h.table.live fd).mp ha
  obtain ⟨conn, hfd⟩ := Option.isSome_iff_exists.mp ((h.mapped fd).mpr hconn)
  -- `writen` gives the length or -1, so the connection is closed
  have hbody := epolloutBody_eq hc calls
  rw [if_pos hconn, if_pos] at hbody
  · rw [connStep, tableStep, branch, hbody] at hs
    cases hs
    have hclosed : ConnsOk (s.settle (s.server.drop fd)) :=
      connsOk_settle h (tableOk_drop h.table) (Finset.erase_subset _ _)
    have hquiet := h.quiet conn (Or.inr ⟨fd, hconn, hfd⟩)
    have hgone : ¬ (s.settle (s.server.drop fd)).IsOpen conn := by
      intro hopen
      obtain ⟨fd', hfd', hconn'⟩ := isOpen_of_settle hopen
      apply (Finset.mem_erase.mp hfd').1
      exact h.one fd' fd conn hconn' hfd
    rw [HttpConns.log, hfd]
    exact connsOk_answer hclosed (h.old fd conn hfd) hgone hquiet.1 hwrites
  · rcases writen_results hwrites with hall | ⟨written, -, hfail, -⟩
    · exact Or.inl (congrArg Prod.fst hall)
    · rw [hfail]
      exact Or.inr (show (-1 : ℤ) < 0 by decide)

theorem connsOk_step {s t : HttpConns} {a : TableStep} (h : ConnsOk s) (ha : Served s a)
    (hs : connStep s a = some t) : ConnsOk t := by
  obtain ⟨hadm, hwrites⟩ := ha
  cases a with
  | accept calls => exact connsOk_accept h hadm hs
  | epollin fd calls => exact connsOk_epollin h hadm hs
  | epollout fd calls => exact connsOk_epollout h hadm hwrites hs
  | timeout fd =>
    obtain ⟨c, hc⟩ := Option.isSome_iff_exists.mp hadm
    obtain ⟨hclose, heffect⟩ := effect_timeout h.table hc
    rw [connStep, tableStep, branch, hclose] at hs
    cases hs
    exact connsOk_settle h heffect.ok (Finset.erase_subset _ _)

theorem connsOk_start : ConnsOk {} where
  table := tableOk_empty
  mapped fd := by simp
  one := nofun
  old := nofun
  quiet conn _ := ⟨rfl, rfl⟩
  part conn := List.nil_prefix
  whole conn := Or.inr (Or.inr rfl)

/-- An open connection has received nothing. A closed one has received a prefix of the
response, and all of it unless a `write` to it failed or no EPOLLOUT was handled for it. -/
theorem one_response (as : List TableStep) (s : HttpConns)
    (hg : Guarded connStep Served {} as) (hr : run connStep {} as = some s) (conn : ℕ) :
    (s.IsOpen conn → s.received conn = []) ∧
    (¬ s.IsOpen conn → s.received conn <+: response ∧
      (s.received conn = response ∨ s.failed conn = true ∨ s.answered conn = false)) := by
  have h : ConnsOk s :=
    run_rule connStep (I := fun _ s => ConnsOk s) connsOk_start
      (fun _ _ _ _ _ hi ha hs => connsOk_step hi ha hs) hg hr
  constructor
  · intro hopen
    exact (h.quiet conn (Or.inr hopen)).1
  · intro _
    exact ⟨h.part conn, h.whole conn⟩

/-- Connection 0 is answered in two writes, and connection 1 fails in its second one. The
descriptor of connection 0 is then used by connection 2. -/
def twoAnswered : List TableStep :=
  [.accept { accept := 5 }, .accept { accept := 6 }, .epollin 6 {}, .epollin 5 {},
    .epollout 5 { write := fun _ => 100 },
    .epollout 6 { write := fun i => if i = 0 then 100 else -1 }, .accept { accept := 5 }]

theorem two_answered_once :
    ∃ s, run connStep {} twoAnswered = some s ∧ s.received 0 = response ∧
      s.received 1 <+: response ∧ s.failed 1 = true ∧ s.received 2 = [] := by
  have hrun : ∃ s ∈ run connStep {} twoAnswered,
      (∀ fd ∈ s.server.conns, s.connOf fd ≠ some 0 ∧ s.connOf fd ≠ some 1) ∧
      s.failed 0 = false ∧ s.answered 0 = true ∧ s.failed 1 = true ∧
      ∃ fd ∈ s.server.conns, s.connOf fd = some 2 := by decide +kernel
  obtain ⟨s, hs, hclosed, hfailed, hanswered, hfailed1, hopen⟩ := hrun
  have hprop := one_response twoAnswered s (by decide +kernel) hs
  obtain ⟨-, hwhole⟩ := (hprop 0).2 fun ⟨fd, hconn, hfd⟩ => (hclosed fd hconn).1 hfd
  obtain ⟨hpart, -⟩ := (hprop 1).2 fun ⟨fd, hconn, hfd⟩ => (hclosed fd hconn).2 hfd
  refine ⟨s, hs, ?_, hpart, hfailed1, (hprop 2).1 hopen⟩
  simpa [hfailed, hanswered] using hwhole

end LearningDirectory
