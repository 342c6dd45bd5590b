import LearningDirectory.HttpTable
import Mathlib.Algebra.BigOperators.Intervals
import Mathlib.Algebra.Order.BigOperators.Group.Finset

/-! What the EPOLLOUT branch makes of a response that the socket takes in parts. -/
namespace LearningDirectory
open StepRun HttpServer

/-- The first `k` results, from the `i`-th on, each take a byte or more. -/
def Takes (writes : ℕ → ℤ) (i k : ℕ) : Prop := ∀ j < k, 1 ≤ writes (i+j)

def total (writes : ℕ → ℤ) (i k : ℕ) : ℤ := ∑ j ∈ Finset.range k, writes (i+j)

def Completes (writes : ℕ → ℤ) (n : ℕ) : Prop := ∃ k, Takes writes 0 k ∧ n ≤ total writes 0 k

/-- The first result that is not positive is 0, and the others do not make up `n`. -/
def StopsAtZero (writes : ℕ → ℤ) (n : ℕ) : Prop :=
  ∃ k, Takes writes 0 k ∧ total writes 0 k < n ∧ writes k = 0

theorem total_succ (writes : ℕ → ℤ) (i k : ℕ) :
    total writes i (k+1) = writes i + total writes (i+1) k := by
  rw [total, Finset.sum_range_succ', add_comm, Nat.add_zero, total]
  congr 1
  apply Finset.sum_congr rfl
  intro j _
  rw [Nat.add_right_comm, Nat.add_assoc]

theorem takes_succ {writes : ℕ → ℤ} {i k : ℕ} (hfirst : 1 ≤ writes i)
    (h : Takes writes (i+1) k) : Takes writes i (k+1) := by
  intro j hj
  cases j with
  | zero => exact hfirst
  | succ j =>
    have hlater := h j (Nat.lt_of_succ_lt_succ hj)
    rwa [Nat.add_right_comm, Nat.add_assoc] at hlater

theorem total_mono {writes : ℕ → ℤ} {i k k' : ℕ} (h : Takes writes i k') (hle : k ≤ k') :
    total writes i k ≤ total writes i k' := by
  apply Finset.sum_le_sum_of_subset_of_nonneg
  · exact Finset.range_subset_range.mpr hle
  · intro j hj _
    have hpos := h j (Finset.mem_range.mp hj)
    omega

theorem total_nonneg {writes : ℕ → ℤ} {i k : ℕ} (h : Takes writes i k) : 0 ≤ total writes i k := by
  have hzero := total_mono h (Nat.zero_le k)
  rwa [total, Finset.range_zero, Finset.sum_empty] at hzero

/-- The loop takes results as long as they are positive and bytes are left. -/
theorem writenLoop_split (writes : ℕ → ℤ) (n i : ℕ) (ptr : Bytes) :
    ∃ k, Takes writes i k ∧
      (ptr.length ≤ total writes i k ∧ writenLoop writes n i ptr = ((n : ℤ), ptr) ∨
        total writes i k < ptr.length ∧ writes (i+k) ≤ 0 ∧
          ∃ part, part <+: ptr ∧ part ≠ ptr ∧ writenLoop writes n i ptr = (writes (i+k), part)) := by
  fun_induction writenLoop writes n i ptr with
  -- the first result stops it
  | case1 i ptr hpos nwritten hfail =>
    have hvalue : nwritten = writes i := by omega
    refine ⟨0, fun j hj => absurd hj (Nat.not_lt_zero j), Or.inr ⟨?_, ?_, [], ?_, ?_, ?_⟩⟩
    · rw [total, Finset.range_zero, Finset.sum_empty]
      exact_mod_cast hpos
    · exact hvalue ▸ hfail
    · exact List.nil_prefix
    · exact (List.ne_nil_of_length_pos hpos).symm
    · rw [hvalue, Nat.add_zero]
  -- the first result takes some bytes, and the later ones decide
  | case2 i ptr hpos nwritten hok rest ih =>
    have hfirst : 1 ≤ writes i := by omega
    have hptr : ptr.take nwritten.toNat ++ ptr.drop nwritten.toNat = ptr := List.take_append_drop ..
    have hlength : ((ptr.drop nwritten.toNat).length : ℤ) = ptr.length - nwritten := by
      rw [List.length_drop]
      omega
    obtain ⟨k, htakes, hcase⟩ := ih
    have hnonneg := total_nonneg htakes
    refine ⟨k+1, takes_succ hfirst htakes, ?_⟩
    rw [total_succ]
    rcases hcase with ⟨hall, hend⟩ | ⟨hless, hstop, part, hpart, hne, hend⟩
    · have hrest : rest = ((n : ℤ), ptr.drop nwritten.toNat) := hend
      refine Or.inl ⟨by omega, ?_⟩
      rw [hrest, hptr]
    · have hrest : rest = (writes (i+1+k), part) := hend
      rw [Nat.add_right_comm, Nat.add_assoc] at hrest hstop
      refine Or.inr ⟨by omega, hstop, ptr.take nwritten.toNat ++ part, ?_, ?_, ?_⟩
      · have hprefix := (List.prefix_append_right_inj (ptr.take nwritten.toNat)).mpr hpart
        rwa [hptr] at hprefix
      · intro heq
        apply hne
        exact List.append_cancel_left (heq.trans hptr.symm)
      · rw [hrest]
  -- there is nothing to write
  | case3 i ptr hnil =>
    have hempty : ptr = [] := List.length_eq_zero_iff.mp (Nat.eq_zero_of_not_pos hnil)
    refine ⟨0, fun j hj => absurd hj (Nat.not_lt_zero j), Or.inl ⟨?_, by rw [hempty]⟩⟩
    rw [hempty, total, Finset.range_zero, Finset.sum_empty]
    rfl

/-- The positive results go on to the first that is not. -/
theorem takes_le {writes : ℕ → ℤ} {i k k' : ℕ} (h : Takes writes i k) (hstop : writes (i+k') ≤ 0) :
    k ≤ k' := by
  apply Nat.le_of_not_lt
  intro hlt
  have hpos := h k' hlt
  omega

theorem writen_completes {writes : ℕ → ℤ} {vptr : Bytes} (h : Completes writes vptr.length) :
    writen writes vptr = ((vptr.length : ℤ), vptr) ∧ ¬ StopsAtZero writes vptr.length := by
  obtain ⟨k, htakes, hall⟩ := h
  -- a stop with bytes left would come after all of them
  have hno (k' : ℕ) (htakes' : Takes writes 0 k') (hless : total writes 0 k' < vptr.length)
      (hstop : writes (0+k') ≤ 0) : False := by
    have hmono := total_mono htakes' (takes_le htakes hstop)
    omega
  constructor
  · obtain ⟨k', htakes', ⟨-, hend⟩ | ⟨hless, hstop, -⟩⟩ :=
      writenLoop_split writes vptr.length 0 vptr
    · exact hend
    · exact (hno k' htakes' hless hstop).elim
  · rintro ⟨k', htakes', hless, hzero⟩
    exact hno k' htakes' hless (by rw [Nat.zero_add, hzero])

theorem writen_stops {writes : ℕ → ℤ} {vptr : Bytes} (h : ¬ Completes writes vptr.length) :
    ∃ value part, writen writes vptr = (value, part) ∧ part <+: vptr ∧ part ≠ vptr ∧
      value ≤ 0 ∧ (value = 0 ↔ StopsAtZero writes vptr.length) := by
  obtain ⟨k, htakes, ⟨hall, -⟩ | ⟨hless, hstop, part, hpart, hne, hend⟩⟩ :=
    writenLoop_split writes vptr.length 0 vptr
  · exact absurd ⟨k, htakes, hall⟩ h
  refine ⟨writes (0+k), part, hend, hpart, hne, hstop, ?_⟩
  rw [Nat.zero_add] at hstop ⊢
  constructor
  · intro hzero
    exact ⟨k, htakes, hless, hzero⟩
  · rintro ⟨k', htakes', -, hzero⟩
    -- both are the first result that is not positive
    have hle : k ≤ k' := takes_le htakes (by rw [Nat.zero_add, hzero])
    have hge : k' ≤ k := takes_le htakes' (by rwa [Nat.zero_add])
    rw [Nat.le_antisymm hle hge, hzero]

/-! ### The life of one connection -/

/-- The server during the life of the connection of `fd`. -/
structure OutConn where
  server : HttpServer
  /-- what its descriptor has accepted in all EPOLLOUT events -/
  received : Bytes := []
  /-- the EPOLLOUT branch has closed it -/
  closed : Bool := false

def OutConn.out (fd : ℤ) (s : OutConn) (a : TableStep) (t : HttpServer) : OutConn :=
  match a with
  | .epollout fd' calls =>
    if fd' = fd then
      { server := t
        received := s.received ++ (writen calls.write response).2
        closed := (t.client fd).isNone }
    else { s with server := t }
  -- no other branch writes to a client
  | _ => { s with server := t }

/-- A step of the server while the connection is open. -/
def outStep (fd : ℤ) (s : OutConn) (a : TableStep) : Option OutConn :=
  if Admissible s.server a ∧ (s.server.client fd).isSome then
    (tableStep s.server a).map (s.out fd a)
  else none

/-- Once the branch has closed the connection, it has received the response, once. -/
def OutConn.Whole (s : OutConn) : Prop := s.closed = true → s.received = response

/-- The event answers a connection that has received nothing, and the results that come
before any failure make up the response; or the first that is not positive is 0. -/
def WritesAll (fd : ℤ) (s : OutConn) : TableStep → Prop
  | .epollout fd' calls => fd' = fd →
    StopsAtZero calls.write response.length ∨
      s.received = [] ∧ Completes calls.write response.length
  | _ => True

/-- The response begins with a byte that does not occur in it again. -/
theorem response_head : ∃ rest, response = 72 :: rest ∧ 72 ∉ rest := by
  have hbytes : 72 ∈ response.head? ∧ 72 ∉ response.tail := by decide +kernel
  exact ⟨response.tail, List.eq_cons_of_mem_head? hbytes.1, hbytes.2⟩

theorem response_ne_nil : response ≠ [] := by
  obtain ⟨rest, hresponse, -⟩ := response_head
  rw [hresponse]
  exact List.cons_ne_nil 72 rest

/-- Two parts that both begin at its beginning do not make up the response. -/
theorem append_part_ne {received part : Bytes} (hsome : received ≠ [])
    (hpart : part <+: response) (hne : received ≠ response) : received ++ part ≠ response := by
  intro heq
  obtain ⟨rest, hresponse, honce⟩ := response_head
  cases part with
  | nil => exact hne (by rw [← heq, List.append_nil])
  | cons b bs =>
    -- the part begins with the first byte, which would come a second time
    obtain ⟨b', received, rfl⟩ := List.exists_cons_of_ne_nil hsome
    rw [hresponse] at heq hpart
    obtain ⟨rfl, -⟩ := List.cons_prefix_cons.mp hpart
    apply honce
    rw [← (List.cons.inj heq).2]
    exact List.mem_append_right _ List.mem_cons_self

/-- What an EPOLLOUT event of the connection does to it. -/
theorem tableStep_answers {s t : HttpServer} {fd : ℤ} {calls : Calls}
    (h : tableStep s (.epollout fd calls) = some t) :
    (t.client fd).isNone = true ↔
      (writen calls.write response).1 = response.length ∨ (writen calls.write response).1 < 0 := by
  obtain ⟨c, -, hclient⟩ := tableStep_epollout h
  rw [hclient fd, if_pos rfl]
  split_ifs with hend
  · exact iff_of_true rfl hend
  · exact iff_of_false Bool.false_ne_true hend

/-- An event that does not close the connection leaves the response unfinished, and one
that does finishes it exactly when it writes all of it to a client that has nothing. -/
theorem answer_step {s : OutConn} {fd : ℤ} {calls : Calls} {t : HttpServer}
    (ht : tableStep s.server (.epollout fd calls) = some t) (hopen : s.received ≠ response) :
    ((t.client fd).isSome → s.received ++ (writen calls.write response).2 ≠ response) ∧
    (((t.client fd).isNone = true → s.received ++ (writen calls.write response).2 = response) ↔
      WritesAll fd s (.epollout fd calls)) := by
  have hclose := tableStep_answers ht
  have hpos : 0 < response.length := List.length_pos_of_ne_nil response_ne_nil
  by_cases hall : Completes calls.write response.length
  · -- all of the response is written, and the connection is closed
    obtain ⟨hvalue, hzero⟩ := writen_completes hall
    rw [hvalue] at hclose ⊢
    have hnone : (t.client fd).isNone = true := hclose.mpr (Or.inl rfl)
    constructor
    · intro hsome
      rw [Option.isNone_iff_eq_none.mp hnone] at hsome
      cases hsome
    · simp only [WritesAll, hnone, hzero, hall, and_true, false_or, forall_const]
      constructor
      · intro heq
        exact List.append_left_eq_self.mp heq
      · intro hnil
        rw [hnil, List.nil_append]
  · -- only a part is written; a negative result closes the connection, and 0 does not
    obtain ⟨value, part, hvalue, hpart, hne, hle, hzero⟩ := writen_stops hall
    rw [hvalue] at hclose ⊢
    have hbroken : s.received ++ part ≠ response := by
      by_cases hnil : s.received = []
      · rwa [hnil, List.nil_append]
      · exact append_part_ne hnil hpart hopen
    refine ⟨fun _ => hbroken, ?_⟩
    simp only [WritesAll, ← hzero, hall, and_false, or_false, forall_const]
    constructor
    · intro hwhole
      by_contra hneg
      exact hbroken (hwhole (hclose.mpr (Or.inr (by omega))))
    · intro heq hnone
      rcases hclose.mp hnone with hlength | hneg <;> omega

theorem outStep_cases {fd : ℤ} {s t : OutConn} {a : TableStep} (hs : outStep fd s a = some t) :
    (s.server.client fd).isSome ∧ ∃ u, tableStep s.server a = some u ∧ t = s.out fd a u := by
  rw [outStep] at hs
  split_ifs at hs with hlife
  obtain ⟨u, hu, rfl⟩ := Option.map_eq_some_iff.mp hs
  exact ⟨hlife.2, u, hu, rfl⟩

theorem out_of_ne {fd fd' : ℤ} (hne : fd' ≠ fd) (s : OutConn) (calls : Calls) (t : HttpServer) :
    s.out fd (.epollout fd' calls) t = { s with server := t } := if_neg hne

theorem out_self (fd : ℤ) (s : OutConn) (calls : Calls) (t : HttpServer) :
    s.out fd (.epollout fd calls) t =
      { server := t
        received := s.received ++ (writen calls.write response).2
        closed := (t.client fd).isNone } := if_pos rfl

theorem received_step {fd : ℤ} {s t : OutConn} {a : TableStep}
    (hi : (s.server.client fd).isSome → s.received ≠ response) (hs : outStep fd s a = some t) :
    (t.server.client fd).isSome → t.received ≠ response := by
  obtain ⟨hlive, u, hu, rfl⟩ := outStep_cases hs
  have hopen : s.received ≠ response := hi hlive
  cases a with
  | accept calls => exact fun _ => hopen
  | epollin fd' calls => exact fun _ => hopen
  | timeout fd' => exact fun _ => hopen
  | epollout fd' calls =>
    by_cases he : fd' = fd
    · subst he
      rw [out_self]
      exact (answer_step hu hopen).1
    · rw [out_of_ne he]
      exact fun _ => hopen

theorem whole_step {fd : ℤ} {s t : OutConn} {a : TableStep}
    (hi : (s.server.client fd).isSome → s.received ≠ response) (hw : s.Whole)
    (hs : outStep fd s a = some t) : t.Whole ↔ WritesAll fd s a := by
  obtain ⟨hlive, u, hu, rfl⟩ := outStep_cases hs
  cases a with
  | accept calls => exact iff_of_true hw trivial
  | epollin fd' calls => exact iff_of_true hw trivial
  | timeout fd' => exact iff_of_true hw trivial
  | epollout fd' calls =>
    by_cases he : fd' = fd
    · subst he
      rw [out_self]
      exact (answer_step hu (hi hlive)).2
    · rw [out_of_ne he]
      exact iff_of_true hw (fun hfd => absurd hfd he)

/-- From any state of the server, the EPOLLOUT branch closes a connection only with the
response received once, exactly when the results of no event fail before they make it up. -/
theorem response_whole_iff (fd : ℤ) (server : HttpServer) (as : List TableStep) (s : OutConn)
    (hr : run (outStep fd) { server := server } as = some s) :
    Always (outStep fd) (fun _ s => s.Whole) { server := server } as ↔
      Guarded (outStep fd) (WritesAll fd) { server := server } as := by
  apply always_iff_guarded (outStep fd)
    (I := fun _ s => (s.server.client fd).isSome → s.received ≠ response)
    (P := fun _ s => s.Whole) (fun _ => response_ne_nil.symm)
    (fun h => absurd h Bool.false_ne_true) ?_ ?_ hr
  · intro _ s a t _ hi hs
    exact received_step hi hs
  · intro _ s a t hi hw hs
    exact whole_step hi hw hs

/-- The server after it has accepted descriptor 5. -/
def oneAccepted : HttpServer :=
  ({} : HttpServer).enter { serial := 0, fd := 5, ip := [], lastAliveTime := 0 }

/-- The response is taken in two parts. -/
theorem two_writes_whole :
    ∃ s, run (outStep 5) { server := oneAccepted }
        [.epollin 5 {}, .epollout 5 { write := fun _ => 100 }] = some s ∧
      Always (outStep 5) (fun _ s => s.Whole) { server := oneAccepted }
        [.epollin 5 {}, .epollout 5 { write := fun _ => 100 }] := by
  have hrun : (run (outStep 5) { server := oneAccepted }
      [.epollin 5 {}, .epollout 5 { write := fun _ => 100 }]).isSome := by decide +kernel
  obtain ⟨s, hs⟩ := Option.isSome_iff_exists.mp hrun
  refine ⟨s, hs, (response_whole_iff 5 oneAccepted _ s hs).mpr ?_⟩
  obtain ⟨u, hu, -⟩ := Option.bind_eq_some_iff.mp hs
  have hnil : u.received = [] := by
    obtain ⟨-, v, -, rfl⟩ := outStep_cases hu
    rfl
  rw [guarded_cons (outStep 5) hu, guarded_one]
  refine ⟨trivial, fun _ => Or.inr ⟨hnil, 2, ?_, ?_⟩⟩
  · exact fun _ _ => show (1 : ℤ) ≤ 100 by decide
  · decide +kernel

/-- The socket takes 100 bytes and is full: the branch closes the connection. -/
theorem full_socket_cuts :
    ∃ s, run (outStep 5) { server := oneAccepted }
        [.epollin 5 {}, .epollout 5 { write := fun i => if i = 0 then 100 else -1 }] = some s ∧
      s.closed = true ∧ ¬ s.Whole := by
  have hrun : ((run (outStep 5) { server := oneAccepted }
      [.epollin 5 {}, .epollout 5 { write := fun i => if i = 0 then 100 else -1 }]).map
        fun s => (s.closed, decide (s.received = response))) = some (true, false) := by
    decide +kernel
  obtain ⟨s, hs, hend⟩ := Option.map_eq_some_iff.mp hrun
  obtain ⟨hclosed, hcut⟩ := Prod.mk.inj hend
  exact ⟨s, hs, hclosed, fun hw => of_decide_eq_false hcut (hw hclosed)⟩

end LearningDirectory
