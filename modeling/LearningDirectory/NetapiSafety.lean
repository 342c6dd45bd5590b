import LearningDirectory.NetapiIsolation

/-! What the server keeps to whatever its `recv` calls return: cut reads, ended streams,
errors, and bytes that no client of `client.cpp` would send. -/
namespace LearningDirectory
open StepRun PaddedField

/-- A string as the loops with a `break` at the padding symbol collect it. -/
def FieldText (width : ℕ) (s : Bytes) : Prop := s.length ≤ width ∧ hash ∉ s

theorem fieldText_scanLoop (buf : Bytes) (lo width : ℕ) :
    FieldText width (scanLoop buf lo (lo+width)) := by
  rw [scanLoop, Nat.add_sub_cancel_left]
  exact ⟨length_scan_le width hash _, not_mem_scan width hash _⟩

theorem length_fillBuffer {size : ℕ} {bytes : Bytes} (h : bytes.length ≤ size) :
    (fillBuffer size bytes).length = size := by
  rw [fillBuffer, List.length_append, List.length_replicate]
  omega

/-- What may leave the server: a name goes into the table with what `accept` returned last, a
content is at most a body, and a message is sent on as 100 bytes whose head names another
process, to something that `accept` returned or to 0. A failed `accept` returned -1, and
`server_handleaccept` pushes that too. -/
def OutputOk (n : Netapi) : Output → Prop
  | .head h => FieldText 8 h.procname ∧ FieldText 8 h.toProcname
  | .regist procname recvsockfd => FieldText 8 procname ∧ n.back = some recvsockfd
  | .content text => FieldText 40 text
  | .trans transSock transBuf =>
    transBuf.length = 100 ∧ (parseHead (transBuf.take 60)).toProcname ≠ n.processname ∧
      (transSock = 0 ∨ transSock ∈ n.recvsock)

/-- A handler holds the head it has read. -/
def PhaseOfHead (p : Phase) : Prop :=
  ∀ h headBuf, p = .body h headBuf → headBuf.length = 60 ∧ h = parseHead headBuf

/-- There is a thread for each accept, started or still to start, on what one of them returned,
and the table binds names to what they returned: a descriptor, or the -1 of a failed one. -/
structure ServerOk (s : ServerThreads) : Prop where
  threads : s.handlers.length + s.spawned = s.net.recvsock.length
  served : ∀ x ∈ s.handlers, x.1 ∈ s.net.recvsock
  phases : ∀ x ∈ s.handlers, PhaseOfHead x.2
  entries : ∀ name d, s.net.regtable.lookup name = some d →
    FieldText 8 name ∧ d ∈ s.net.recvsock

/-- The object as one turn of a handler may leave it. -/
structure NetKept (n m : Netapi) : Prop where
  processname : m.processname = n.processname
  recvsock : m.recvsock = n.recvsock
  kept : ∀ name d, n.regtable.lookup name = some d → m.regtable.lookup name = some d
  added : ∀ name d, m.regtable.lookup name = some d →
    n.regtable.lookup name = some d ∨ FieldText 8 name ∧ n.back = some d

theorem netKept_refl (n : Netapi) : NetKept n n :=
  ⟨rfl, rfl, fun _ _ h => h, fun _ _ h => Or.inl h⟩

theorem fieldText_procname (buf : Bytes) : FieldText 8 (parseHead buf).procname :=
  fieldText_scanLoop buf 41 8

theorem fieldText_toProcname (buf : Bytes) : FieldText 8 (parseHead buf).toProcname :=
  fieldText_scanLoop buf 49 8

theorem netKept_regist {procname : Bytes} (h : FieldText 8 procname) {n : Netapi} {d : ℤ}
    (hb : n.back = some d) : NetKept n (regist procname d n) where
  processname := regist_processname _ _ _
  recvsock := regist_recvsock _ _ _
  kept := by
    intro name x hl
    rw [lookup_regist, if_neg ?_]
    · exact hl
    · rintro ⟨rfl, hnew⟩
      -- a name that has an entry keeps it
      exact hnew (AList.lookup_isSome.mp (by rw [hl]; rfl))
  added := by
    intro name x hl
    rw [lookup_regist] at hl
    split at hl
    · rename_i hnew
      exact Or.inr ⟨hnew.1 ▸ h, hb.trans hl⟩
    · exact Or.inl hl

theorem registHead_safe (n : Netapi) (buf : Bytes) :
    NetKept n (registHead (parseHead buf) n).1 ∧
      ∀ o ∈ (registHead (parseHead buf) n).2, OutputOk n o := by
  by_cases hm : (parseHead buf).mType = regText
  · cases hb : n.back with
    | none =>
      rw [registHead, if_pos hm, hb]
      exact ⟨netKept_refl n, List.forall_mem_nil _⟩
    | some d =>
      rw [registHead_reg hm hb]
      refine ⟨netKept_regist (fieldText_procname buf) hb, ?_⟩
      rw [List.forall_mem_singleton]
      exact ⟨fieldText_procname buf, hb⟩
  · rw [registHead_other n hm]
    exact ⟨netKept_refl n, List.forall_mem_nil _⟩

theorem transSock_entry {n : Netapi}
    (hentries : ∀ name d, n.regtable.lookup name = some d → FieldText 8 name ∧ d ∈ n.recvsock)
    (name : Bytes) :
    transSock name n.regtable.entries = 0 ∨ transSock name n.regtable.entries ∈ n.recvsock := by
  rw [transSock_eq_lookup]
  cases h : n.regtable.lookup name with
  | none => exact Or.inl rfl
  | some d => exact Or.inr (hentries name d h).2

theorem bodyOutput_safe {n : Netapi} {headBuf bytes : Bytes} (hbuf : headBuf.length = 60)
    (hsize : bytes.length ≤ 40)
    (hentries : ∀ name d, n.regtable.lookup name = some d → FieldText 8 name ∧ d ∈ n.recvsock) :
    OutputOk n (bodyOutput n (parseHead headBuf) headBuf bytes) := by
  unfold bodyOutput
  split_ifs with hlocal
  · exact fieldText_scanLoop _ 0 40
  · refine ⟨?_, ?_, transSock_entry hentries _⟩
    · rw [List.length_append, hbuf, length_fillBuffer hsize]
    · rw [List.take_left' hbuf]
      exact hlocal

/-- One turn of a handler, whatever its `recv` returned. -/
theorem handlerStep_safe {n : Netapi} {p : Phase} {r : RecvResult} (hp : PhaseOfHead p)
    (hsize : r.size ≤ p.size)
    (hentries : ∀ name d, n.regtable.lookup name = some d → FieldText 8 name ∧ d ∈ n.recvsock) :
    NetKept n (handlerStep n p r).net ∧ PhaseOfHead (handlerStep n p r).phase ∧
      ∀ o ∈ (handlerStep n p r).out, OutputOk n o := by
  have hidle (q : Phase) (hq : q = .head ∨ q = .exited) :
      NetKept n n ∧ PhaseOfHead q ∧ ∀ o ∈ ([] : List Output), OutputOk n o := by
    refine ⟨netKept_refl n, ?_, List.forall_mem_nil _⟩
    rintro h headBuf rfl
    rcases hq with hq | hq <;> cases hq
  cases p with
  | exited => exact hidle .exited (Or.inr rfl)
  | head =>
    cases r with
    | error => exact hidle .exited (Or.inr rfl)
    | data bytes =>
      by_cases hnil : bytes = []
      · subst hnil
        exact hidle .head (Or.inl rfl)
      · have hlen : (fillBuffer 60 bytes).length = 60 := length_fillBuffer hsize
        obtain ⟨hnet, hout⟩ := registHead_safe n (fillBuffer 60 bytes)
        rw [handlerStep, recvHead_data n hnil]
        refine ⟨hnet, ?_, List.forall_mem_cons.mpr ⟨?_, hout⟩⟩
        · intro h headBuf he
          obtain ⟨rfl, rfl⟩ := Phase.body.inj he
          exact ⟨hlen, rfl⟩
        · exact ⟨fieldText_procname _, fieldText_toProcname _⟩
  | body h headBuf =>
    obtain ⟨hbuf, rfl⟩ := hp h headBuf rfl
    cases r with
    | error =>
      rw [handlerStep, recvBody]
      split_ifs
      · exact hidle .exited (Or.inr rfl)
      · exact hidle .head (Or.inl rfl)
    | data bytes =>
      by_cases hnil : bytes = []
      · subst hnil
        rw [handlerStep, recvBody]
        split_ifs
        · exact hidle .head (Or.inl rfl)
        · exact hidle .head (Or.inl rfl)
      · rw [handlerStep, recvBody_data n _ _ hnil]
        refine ⟨netKept_refl n, (hidle .head (Or.inl rfl)).2.1, ?_⟩
        rw [List.forall_mem_singleton]
        exact bodyOutput_safe hbuf hsize hentries

theorem bodies_kept {l : List (ℤ × Phase)} {i : ℕ} {P : ℤ × Phase → Prop}
    (h : ∀ x ∈ l, P x) {y : ℤ × Phase} (hy : P y) : ∀ x ∈ l.set i y, P x := by
  intro x hx
  rcases List.mem_or_eq_of_mem_set hx with hold | rfl
  · exact h x hold
  · exact hy

/-- The handler of a step that reads, and that its `recv` returned no more than it asked for. -/
theorem turn_eq_some {s : ServerThreads} {i : ℕ} {r : RecvResult} {t : ℤ × Turn}
    (h : s.turn i r = some t) : ∃ p, s.handlers[i]? = some (t.1, p) ∧ r.size ≤ p.size ∧
      t.2 = handlerStep s.net p r := by
  rw [ServerThreads.turn] at h
  cases hi : s.handlers[i]? with
  | none =>
    rw [hi] at h
    cases h
  | some handler =>
    obtain ⟨sockfd, p⟩ := handler
    rw [hi] at h
    obtain ⟨hsize, h⟩ := Option.ite_none_right_eq_some.mp h
    cases h
    exact ⟨p, rfl, hsize, rfl⟩

theorem serverOk_recv {s : ServerThreads} (hs : ServerOk s) {i : ℕ} {r : RecvResult}
    {t : ℤ × Turn} (h : s.turn i r = some t) :
    ServerOk (s.afterTurn i t) ∧ NetKept s.net t.2.net ∧ ∀ o ∈ t.2.out, OutputOk s.net o := by
  obtain ⟨p, hi, hsize, hturn⟩ := turn_eq_some h
  have hmem := List.mem_of_getElem? hi
  obtain ⟨hnet, hphase, hout⟩ := handlerStep_safe (hs.phases _ hmem) hsize hs.entries
  rw [← hturn] at hnet hphase hout
  refine ⟨⟨?_, ?_, ?_, ?_⟩, hnet, hout⟩
  · rw [ServerThreads.afterTurn, List.length_set, hnet.recvsock]
    exact hs.threads
  · rw [ServerThreads.afterTurn, hnet.recvsock]
    exact bodies_kept hs.served (hs.served (t.1, p) hmem)
  · exact bodies_kept hs.phases hphase
  · intro name d hl
    rw [ServerThreads.afterTurn, hnet.recvsock]
    rcases hnet.added name d hl with hold | ⟨hname, hb⟩
    · exact hs.entries name d hold
    · exact ⟨hname, List.mem_of_getLast? hb⟩

theorem serverOk_step {s t : ServerThreads} {a : ThreadStep} (hs : ServerOk s)
    (h : threadStep s a = some t) :
    ServerOk t ∧ (∀ name d, s.net.regtable.lookup name = some d →
      t.net.regtable.lookup name = some d) ∧ ∀ o ∈ threadOut s a, OutputOk s.net o := by
  obtain ⟨-, h⟩ := Option.ite_none_left_eq_some.mp h
  cases a with
  | accept newSock =>
    obtain rfl := Option.some.inj h
    refine ⟨⟨?_, ?_, hs.phases, ?_⟩, fun _ _ hl => hl, List.forall_mem_nil _⟩
    · rw [serverHandleaccept, List.length_append, List.length_singleton, ← hs.threads]
      exact (Nat.add_assoc _ _ _).symm
    · exact fun x hx => List.mem_append_left _ (hs.served x hx)
    · exact fun name d hl => ⟨(hs.entries name d hl).1,
        List.mem_append_left _ (hs.entries name d hl).2⟩
  | start =>
    dsimp only at h
    split at h
    · rename_i k sockfd hk hb
      obtain rfl := Option.some.inj h
      have hlast : sockfd ∈ s.net.recvsock := List.mem_of_getLast? hb
      refine ⟨⟨?_, ?_, ?_, hs.entries⟩, fun _ _ hl => hl, List.forall_mem_nil _⟩
      · have hthreads := hs.threads
        rw [List.length_append, List.length_singleton]
        dsimp only
        omega
      · exact List.forall_mem_append.mpr ⟨hs.served, List.forall_mem_singleton.mpr hlast⟩
      · refine List.forall_mem_append.mpr ⟨hs.phases, List.forall_mem_singleton.mpr ?_⟩
        intro head headBuf he
        cases he
    · cases h
  | recv i r =>
    obtain ⟨turn, hturn, rfl⟩ := Option.map_eq_some_iff.mp h
    obtain ⟨hok, hnet, hout⟩ := serverOk_recv hs hturn
    refine ⟨hok, hnet.kept, ?_⟩
    rw [threadOut, hturn]
    exact hout

theorem serverOk_start (processname : Bytes) : ServerOk { net := serverStart processname } where
  threads := rfl
  served := List.forall_mem_nil _
  phases := List.forall_mem_nil _
  entries := by
    intro name d hl
    cases hl

end LearningDirectory
