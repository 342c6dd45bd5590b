import LearningDirectory.NetapiServer

/-! Relaying between many connections. Each handler reads a head in one step and a body
in another, where it looks the destination up and sends; registrations and accepts of
other connections come in between. -/
namespace LearningDirectory
open StepRun PaddedField

/-- One `send` of the relay branch: who handled the message, and where it went. -/
structure Write where
  handler : ℤ
  dest : ℤ
  buf : Bytes

structure Relay where
  net : Netapi
  /-- the bytes of each client that its handler has not read yet -/
  pending : ℤ → Bytes
  phase : ℤ → Phase
  sent : List Write

inductive RelayStep
  | accept (newSock : ℤ)
  | turn (sockfd : ℤ)
deriving DecidableEq

def Phase.size : Phase → ℕ
  | .head => 60
  | .body _ _ => 40
  | .exited => 0

def Phase.isBody : Phase → Bool
  | .body _ _ => true
  | _ => false

def writes (sockfd : ℤ) (out : List Output) : List Write :=
  out.filterMap fun
    | .trans d buf => some ⟨sockfd, d, buf⟩
    | _ => none

/-- An accept returns a descriptor that is not open. A handler takes its next turn when
the whole of what its `recv` asks for is there. -/
def relayStep (s : Relay) : RelayStep → Option Relay
  | .accept newSock =>
    if newSock ∈ s.net.recvsock then none
    else some { s with net := serverHandleaccept newSock s.net }
  | .turn sockfd =>
    -- a full read, as a `recv` that waits for all it asks for makes it
    let size := (s.phase sockfd).size
    if sockfd ∈ s.net.recvsock ∧ 0 < size ∧ size ≤ (s.pending sockfd).length then
      let t := handlerStep s.net (s.phase sockfd) (.data ((s.pending sockfd).take size))
      some
        { net := t.net
          pending := Function.update s.pending sockfd ((s.pending sockfd).drop size)
          phase := Function.update s.phase sockfd t.phase
          sent := s.sent ++ writes sockfd t.out }
    else none

/-- Before the first accept; `input` is what each client is going to send. -/
def relayStart (processname : Bytes) (input : ℤ → List Frame) : Relay where
  net := serverStart processname
  pending := fun s => stream (input s)
  phase := fun _ => .head
  sent := []

/-- The bytes the relay branch has written to `d`. -/
def wireTo (s : Relay) (d : ℤ) : Bytes :=
  s.sent.flatMap fun w => if w.dest = d then w.buf else []

/-- The tables found at the body turns of one handler, in order: the `k`-th one is the
table when the `k`-th message of its client is printed or sent on. -/
def bodyTables (tr : List (Relay × RelayStep)) (sockfd : ℤ) : List RegTable :=
  tr.filterMap fun p =>
    if p.2 = .turn sockfd ∧ (p.1.phase sockfd).isBody then some p.1.net.regtable else none

/-- The messages of a client that are for another process and find `d` in the table of
their turn. -/
def relayedFrames (processname : Bytes) (frames : List Frame) (tables : List RegTable)
    (d : ℤ) : List Frame :=
  (frames.zip tables).filterMap fun p =>
    if (frameHead p.1).toProcname ≠ processname ∧
      p.2.lookup (frameHead p.1).toProcname = some d then some p.1 else none

/-- A connection whose messages `left` are not yet dealt with: it waits for the head of
the first one, or has read that head and waits for the body. -/
inductive ConnAt (s : Relay) (sockfd : ℤ) : List Frame → Prop
  | atHead (left : List Frame) (hphase : s.phase sockfd = .head)
      (hpending : s.pending sockfd = stream left) : ConnAt s sockfd left
  | atBody (f : Frame) (rest : List Frame)
      (hphase : s.phase sockfd = .body (frameHead f) (f.bytes.take 60))
      (hpending : s.pending sockfd = f.bytes.drop 60 ++ stream rest) :
      ConnAt s sockfd (f :: rest)

theorem stream_cons (f : Frame) (fs : List Frame) :
    stream (f :: fs) = f.bytes.take 60 ++ (f.bytes.drop 60 ++ stream fs) := by
  rw [← List.append_assoc, List.take_append_drop]
  rfl

theorem connAt_congr {s t : Relay} {sockfd : ℤ} {left : List Frame}
    (hphase : t.phase sockfd = s.phase sockfd) (hpending : t.pending sockfd = s.pending sockfd)
    (h : ConnAt s sockfd left) : ConnAt t sockfd left := by
  cases h with
  | atHead _ hp hb => exact .atHead left (hphase.trans hp) (hpending.trans hb)
  | atBody f rest hp hb => exact .atBody f rest (hphase.trans hp) (hpending.trans hb)

def bodyWrites (n : Netapi) (sockfd : ℤ) (f : Frame) : List Write :=
  if (frameHead f).toProcname = n.processname then []
  else [⟨sockfd, transSock (frameHead f).toProcname n.regtable.entries, f.bytes⟩]

theorem writes_registHead (sockfd : ℤ) (h : Head) (n : Netapi) :
    writes sockfd (registHead h n).2 = [] :=
  filterMap_registHead (fun _ _ => rfl) h n

theorem writes_bodyOutput (n : Netapi) (sockfd : ℤ) (f : Frame) :
    writes sockfd [bodyOutput n (frameHead f) (f.bytes.take 60) (f.bytes.drop 60)] =
      bodyWrites n sockfd f := by
  unfold bodyOutput bodyWrites
  rw [fillBuffer_full (length_drop_frame f), List.take_append_drop]
  split <;> rfl

theorem handlerStep_head (n : Netapi) (f : Frame) :
    handlerStep n .head (.data (f.bytes.take 60)) =
      ⟨(registHead (frameHead f) n).1, .body (frameHead f) (f.bytes.take 60),
        .head (frameHead f) :: (registHead (frameHead f) n).2⟩ := by
  have h := recvHead_data n (take_frame_ne_nil f)
  rw [fillBuffer_full (length_take_frame f)] at h
  exact h

theorem handlerStep_body (n : Netapi) (f : Frame) :
    handlerStep n (.body (frameHead f) (f.bytes.take 60)) (.data (f.bytes.drop 60)) =
      ⟨n, .head, [bodyOutput n (frameHead f) (f.bytes.take 60) (f.bytes.drop 60)]⟩ :=
  recvBody_data n _ _ (drop_frame_ne_nil f)

/-- What a step does when each connection has whole messages before it: an accept, a head
turn, which may register, or a body turn, which may send the frame on. -/
theorem relayStep_cases {s t : Relay} {a : RelayStep} (h : relayStep s a = some t)
    (left : ℤ → List Frame) (hconn : ∀ sockfd, ConnAt s sockfd (left sockfd)) :
    (∃ d, a = .accept d ∧ t = { s with net := serverHandleaccept d s.net }) ∨
    (∃ sockfd f rest, a = .turn sockfd ∧ left sockfd = f :: rest ∧
      s.phase sockfd = .head ∧
      t = { net := (registHead (frameHead f) s.net).1
            pending := Function.update s.pending sockfd (f.bytes.drop 60 ++ stream rest)
            phase := Function.update s.phase sockfd (.body (frameHead f) (f.bytes.take 60))
            sent := s.sent }) ∨
    (∃ sockfd f rest, a = .turn sockfd ∧ left sockfd = f :: rest ∧
      s.phase sockfd = .body (frameHead f) (f.bytes.take 60) ∧
      t = { net := s.net
            pending := Function.update s.pending sockfd (stream rest)
            phase := Function.update s.phase sockfd .head
            sent := s.sent ++ bodyWrites s.net sockfd f }) := by
  cases a with
  | accept d =>
    simp only [relayStep] at h
    split at h
    · cases h
    · exact Or.inl ⟨d, rfl, (Option.some.inj h).symm⟩
  | turn sockfd =>
    simp only [relayStep] at h
    split at h
    · rename_i hready
      obtain ⟨-, -, hlen⟩ := hready
      have ht := (Option.some.inj h).symm
      have hc := hconn sockfd
      generalize hl : left sockfd = l at hc
      cases hc with
      | atHead _ hp hb =>
        rw [hp] at hlen ht
        cases l with
        | nil =>
          -- no message is left, so the read cannot be full
          rw [hb] at hlen
          exact absurd hlen (by decide)
        | cons f rest =>
          have htake : (s.pending sockfd).take 60 = f.bytes.take 60 := by
            rw [hb, stream_cons, List.take_left' (length_take_frame f)]
          have hdrop : (s.pending sockfd).drop 60 = f.bytes.drop 60 ++ stream rest := by
            rw [hb, stream_cons, List.drop_left' (length_take_frame f)]
          refine Or.inr (Or.inl ⟨sockfd, f, rest, rfl, hl, hp, ht.trans ?_⟩)
          simp only [Phase.size, htake, hdrop, handlerStep_head]
          change Relay.mk _ _ _ (s.sent ++ writes sockfd (registHead (frameHead f) s.net).2) = _
          rw [writes_registHead, List.append_nil]
      | atBody f rest hp hb =>
        rw [hp] at ht
        have htake : (s.pending sockfd).take 40 = f.bytes.drop 60 := by
          rw [hb, List.take_left' (length_drop_frame f)]
        have hdrop : (s.pending sockfd).drop 40 = stream rest := by
          rw [hb, List.drop_left' (length_drop_frame f)]
        refine Or.inr (Or.inr ⟨sockfd, f, rest, rfl, hl, hp, ht.trans ?_⟩)
        simp only [Phase.size, htake, hdrop, handlerStep_body, writes_bodyOutput]
    · cases h

theorem filterMap_append_one {α β : Type*} (xs : List α) (x : α) (p : α → Prop) [DecidablePred p]
    (f : α → β) :
    (xs ++ [x]).filterMap (fun y => if p y then some (f y) else none) =
      xs.filterMap (fun y => if p y then some (f y) else none) ++ if p x then [f x] else [] := by
  rw [List.filterMap_append]
  congr 1
  by_cases h : p x
  · simp only [List.filterMap_cons, List.filterMap_nil, if_pos h]
  · simp only [List.filterMap_cons, List.filterMap_nil, if_neg h]

theorem zip_append_one {α β : Type*} {xs rest : List α} {ys : List β} (x : α) (y : β)
    (h : xs.length = ys.length) :
    (xs ++ x :: rest).zip (ys ++ [y]) = (xs ++ x :: rest).zip ys ++ [(x, y)] := by
  -- what is beyond the shorter list does not count
  have hold : (xs ++ x :: rest).zip ys = xs.zip ys := by
    have hz : (xs ++ x :: rest).zip (ys ++ []) = xs.zip ys ++ (x :: rest).zip [] :=
      List.zip_append h
    rwa [List.append_nil, List.zip_nil_right, List.append_nil] at hz
  rw [List.zip_append h, hold, List.zip_cons_cons, List.zip_nil_right]

theorem relayedFrames_append_one (processname : Bytes) {frames rest : List Frame}
    {tables : List RegTable} {f : Frame} (table : RegTable) (d : ℤ)
    (hk : frames.drop tables.length = f :: rest) :
    relayedFrames processname frames (tables ++ [table]) d =
      relayedFrames processname frames tables d ++
        if (frameHead f).toProcname ≠ processname ∧
          table.lookup (frameHead f).toProcname = some d then [f] else [] := by
  -- the next table belongs to the first frame not yet dealt with
  have hlen : (frames.take tables.length).length = tables.length := by
    have hpos := congrArg List.length hk
    rw [List.length_drop, List.length_cons] at hpos
    rw [List.length_take]
    omega
  have hsplit : frames = frames.take tables.length ++ f :: rest := by
    rw [← hk, List.take_append_drop]
  have hzip : frames.zip (tables ++ [table]) = frames.zip tables ++ [(f, table)] := by
    rw [hsplit]
    exact zip_append_one f table hlen
  rw [relayedFrames, hzip]
  exact filterMap_append_one _ (f, table)
    (fun p => (frameHead p.1).toProcname ≠ processname ∧
      p.2.lookup (frameHead p.1).toProcname = some d) Prod.fst

def loggedFrames (log : List (ℤ × ℤ × Frame)) (sockfd d : ℤ) : List Frame :=
  log.filterMap fun e => if e.1 = sockfd ∧ e.2.1 = d then some e.2.2 else none

theorem loggedFrames_append_one (log : List (ℤ × ℤ × Frame)) (s0 d0 sockfd d : ℤ) (f : Frame) :
    loggedFrames (log ++ [(s0, d0, f)]) sockfd d =
      loggedFrames log sockfd d ++ if s0 = sockfd ∧ d0 = d then [f] else [] :=
  filterMap_append_one log (s0, d0, f) (fun e => e.1 = sockfd ∧ e.2.1 = d) fun e => e.2.2

theorem bodyTables_append_one (tr : List (Relay × RelayStep)) (s : Relay) (a : RelayStep)
    (sockfd : ℤ) :
    bodyTables (tr ++ [(s, a)]) sockfd = bodyTables tr sockfd ++
      if a = .turn sockfd ∧ (s.phase sockfd).isBody then [s.net.regtable] else [] :=
  filterMap_append_one tr (s, a) (fun p => p.2 = .turn sockfd ∧ (p.1.phase sockfd).isBody)
    fun p => p.1.net.regtable

theorem transSock_eq_iff (name : Bytes) (t : RegTable) {d : ℤ} (hd : d ≠ 0) :
    transSock name t.entries = d ↔ t.lookup name = some d := by
  rw [transSock_eq_lookup]
  cases t.lookup name with
  | none => simp [Ne.symm hd]
  | some d' => simp

/-- What holds of a state when its handlers found the tables `tables` at their body turns:
each connection is where its messages say, and the sends are those of its frames that
found their destination. -/
structure RelayInv (processname : Bytes) (input : ℤ → List Frame)
    (tables : ℤ → List RegTable) (s : Relay) : Prop where
  name : s.net.processname = processname
  count : ∀ sockfd, (tables sockfd).length ≤ (input sockfd).length
  conn : ∀ sockfd, ConnAt s sockfd ((input sockfd).drop (tables sockfd).length)
  log : ∃ log : List (ℤ × ℤ × Frame), s.sent = log.map (fun e => ⟨e.1, e.2.1, e.2.2.bytes⟩) ∧
    ∀ sockfd d, d ≠ 0 → loggedFrames log sockfd d =
      relayedFrames processname (input sockfd) (tables sockfd) d

section Step

variable {processname : Bytes} {input : ℤ → List Frame} {tables : ℤ → List RegTable} {s : Relay}

theorem relayInv_accept (hi : RelayInv processname input tables s) (d : ℤ) :
    RelayInv processname input tables { s with net := serverHandleaccept d s.net } where
  name := hi.name
  count := hi.count
  conn := fun sockfd => connAt_congr (s := s) rfl rfl (hi.conn sockfd)
  log := hi.log

theorem relayInv_head (hi : RelayInv processname input tables s) {s0 : ℤ} {f : Frame}
    {rest : List Frame} (hleft : (input s0).drop (tables s0).length = f :: rest) :
    RelayInv processname input tables
      { net := (registHead (frameHead f) s.net).1
        pending := Function.update s.pending s0 (f.bytes.drop 60 ++ stream rest)
        phase := Function.update s.phase s0 (.body (frameHead f) (f.bytes.take 60))
        sent := s.sent } where
  name := (registHead_processname _ _).trans hi.name
  count := hi.count
  conn := by
    intro sockfd
    by_cases h : sockfd = s0
    · subst h
      rw [hleft]
      exact .atBody f rest (Function.update_self ..) (Function.update_self ..)
    · exact connAt_congr (Function.update_of_ne h ..) (Function.update_of_ne h ..)
        (hi.conn sockfd)
  log := hi.log

theorem relayInv_body (hi : RelayInv processname input tables s) {s0 : ℤ} {f : Frame}
    {rest : List Frame} (hleft : (input s0).drop (tables s0).length = f :: rest)
    {tables' : ℤ → List RegTable} (h0 : tables' s0 = tables s0 ++ [s.net.regtable])
    (hother : ∀ sockfd, sockfd ≠ s0 → tables' sockfd = tables sockfd) :
    RelayInv processname input tables'
      { net := s.net
        pending := Function.update s.pending s0 (stream rest)
        phase := Function.update s.phase s0 .head
        sent := s.sent ++ bodyWrites s.net s0 f } where
  name := hi.name
  count := by
    intro sockfd
    by_cases h : sockfd = s0
    · subst h
      have hpos := congrArg List.length hleft
      rw [List.length_drop, List.length_cons] at hpos
      rw [h0, List.length_append, List.length_singleton]
      omega
    · rw [hother sockfd h]
      exact hi.count sockfd
  conn := by
    intro sockfd
    by_cases h : sockfd = s0
    · subst h
      have hrest : (input sockfd).drop (tables' sockfd).length = rest := by
        rw [h0, List.length_append, List.length_singleton, ← List.drop_drop, hleft]
        rfl
      rw [hrest]
      exact .atHead rest (Function.update_self ..) (Function.update_self ..)
    · rw [hother sockfd h]
      exact connAt_congr (Function.update_of_ne h ..) (Function.update_of_ne h ..)
        (hi.conn sockfd)
  log := by
    obtain ⟨log, hsent, hlog⟩ := hi.log
    have hold (sockfd d : ℤ) (h : sockfd ≠ s0) (hd : d ≠ 0) :
        loggedFrames log sockfd d =
          relayedFrames processname (input sockfd) (tables' sockfd) d := by
      rw [hother sockfd h, hlog sockfd d hd]
    by_cases hlocal : (frameHead f).toProcname = s.net.processname
    -- a message for the server is printed and not sent on
    · refine ⟨log, ?_, ?_⟩
      · rw [bodyWrites, if_pos hlocal, List.append_nil, hsent]
      · intro sockfd d hd
        by_cases h : sockfd = s0
        · subst h
          rw [h0, relayedFrames_append_one _ _ _ hleft,
            if_neg (fun hf => hf.1 (hlocal.trans hi.name)), List.append_nil, hlog sockfd d hd]
        · exact hold sockfd d h hd
    -- any other is sent to what the table has, or to 0
    · refine ⟨log ++ [(s0, transSock (frameHead f).toProcname s.net.regtable.entries, f)],
        ?_, ?_⟩
      · rw [bodyWrites, if_neg hlocal, hsent, List.map_append]
        rfl
      · intro sockfd d hd
        rw [loggedFrames_append_one]
        by_cases h : sockfd = s0
        · subst h
          have hiff := transSock_eq_iff (frameHead f).toProcname s.net.regtable hd
          rw [hi.name] at hlocal
          rw [h0, relayedFrames_append_one _ _ _ hleft, hlog sockfd d hd]
          simp only [hiff, ne_eq, hlocal, not_false_eq_true, true_and]
        · rw [if_neg (fun he => h he.1.symm), List.append_nil]
          exact hold sockfd d h hd

end Step

theorem relayInv_start (processname : Bytes) (input : ℤ → List Frame) :
    RelayInv processname input (fun _ => []) (relayStart processname input) where
  name := rfl
  count := fun _ => Nat.zero_le _
  conn := fun _ => .atHead _ rfl rfl
  log := by
    refine ⟨[], rfl, ?_⟩
    intro sockfd d _
    rw [relayedFrames, List.zip_nil_right]
    rfl

theorem relay_inv {processname : Bytes} {input : ℤ → List Frame} {as : List RelayStep}
    {s : Relay} (h : run relayStep (relayStart processname input) as = some s) :
    RelayInv processname input
      (bodyTables (trace relayStep (relayStart processname input) as)) s := by
  refine run_invariant relayStep (I := fun pre s => RelayInv processname input
    (bodyTables (trace relayStep (relayStart processname input) pre)) s) ?_ ?_ h
  · exact relayInv_start processname input
  · intro pre t a u hr hi hs
    rw [trace_append_one relayStep a hr]
    -- only a body turn adds to the tables found
    have hsame (hno : ∀ sockfd, ¬ (a = .turn sockfd ∧ (t.phase sockfd).isBody = true)) :
        bodyTables (trace relayStep (relayStart processname input) pre ++ [(t, a)]) =
          bodyTables (trace relayStep (relayStart processname input) pre) := by
      funext sockfd
      rw [bodyTables_append_one, if_neg (hno sockfd), List.append_nil]
    rcases relayStep_cases hs _ hi.conn with ⟨d, rfl, rfl⟩ |
      ⟨s0, f, rest, rfl, hleft, hphase, rfl⟩ | ⟨s0, f, rest, rfl, hleft, hphase, rfl⟩
    · rw [hsame (fun _ hb => by cases hb.1)]
      exact relayInv_accept hi d
    · rw [hsame ?_]
      · exact relayInv_head hi hleft
      · rintro sockfd ⟨he, hb⟩
        cases he
        rw [hphase] at hb
        cases hb
    · apply relayInv_body hi hleft
      · rw [bodyTables_append_one, if_pos ⟨rfl, by rw [hphase]; rfl⟩]
      · intro sockfd hne
        rw [bodyTables_append_one, if_neg (fun hb => hne (by cases hb.1; rfl)),
          List.append_nil]

def sentTo (log : List (ℤ × ℤ × Frame)) (d : ℤ) : List (ℤ × Frame) :=
  log.filterMap fun e => if e.2.1 = d then some (e.1, e.2.2) else none

theorem flatten_sentTo (log : List (ℤ × ℤ × Frame)) (d : ℤ) :
    (log.map fun e => (⟨e.1, e.2.1, e.2.2.bytes⟩ : Write)).flatMap
      (fun w => if w.dest = d then w.buf else []) =
      ((sentTo log d).map fun e => e.2.bytes).flatten := by
  induction log with
  | nil => rfl
  | cons e log ih =>
    rw [List.map_cons, List.flatMap_cons, ih]
    by_cases h : e.2.1 = d
    · simp only [sentTo, List.filterMap_cons, if_pos h, List.map_cons, List.flatten_cons]
    · simp only [sentTo, List.filterMap_cons, if_neg h, List.nil_append]

theorem sentTo_sender (log : List (ℤ × ℤ × Frame)) (sockfd d : ℤ) :
    ((sentTo log d).filterMap fun e => if e.1 = sockfd then some e.2 else none) =
      loggedFrames log sockfd d := by
  rw [sentTo, List.filterMap_filterMap, loggedFrames]
  apply List.filterMap_congr
  intro e _
  by_cases h : e.2.1 = d
  · simp only [h, ↓reduceIte, and_true, Option.bind_some]
  · simp only [h, ↓reduceIte, and_false, Option.bind_none]

theorem relayedFrames_subset (processname : Bytes) (frames : List Frame)
    (tables : List RegTable) (d : ℤ) : relayedFrames processname frames tables d ⊆ frames := by
  intro f hf
  obtain ⟨p, hp, he⟩ := List.mem_filterMap.mp hf
  split at he
  · obtain rfl := Option.some.inj he
    exact (List.of_mem_zip hp).1
  · cases he

/-- The bytes the relay branch writes to a client are whole frames, one after the other;
those of each sender are exactly its frames for other processes that the table maps to
that client at their turn, each once and in the order they were sent. -/
theorem relay_fidelity (processname : Bytes) (input : ℤ → List Frame) (as : List RelayStep)
    (s : Relay) (h : run relayStep (relayStart processname input) as = some s) (d : ℤ)
    (hd : d ≠ 0) :
    ∃ frames : List (ℤ × Frame),
      wireTo s d = (frames.map fun e => e.2.bytes).flatten ∧
      (∀ e ∈ frames, e.2 ∈ input e.1) ∧
      ∀ sockfd,
        (bodyTables (trace relayStep (relayStart processname input) as) sockfd).length ≤
          (input sockfd).length ∧
        (frames.filterMap fun e => if e.1 = sockfd then some e.2 else none) =
          relayedFrames processname (input sockfd)
            (bodyTables (trace relayStep (relayStart processname input) as) sockfd) d := by
  obtain ⟨-, hcount, -, log, hsent, hlog⟩ := relay_inv h
  have hsender (sockfd : ℤ) := (sentTo_sender log sockfd d).trans (hlog sockfd d hd)
  refine ⟨sentTo log d, ?_, ?_, fun sockfd => ⟨hcount sockfd, hsender sockfd⟩⟩
  · rw [wireTo, hsent, flatten_sentTo]
  · intro e he
    apply relayedFrames_subset
    rw [← hsender e.1]
    exact List.mem_filterMap.mpr ⟨e, he, if_pos rfl⟩

/-- `client1` registers on descriptor 4, then a second client sends it a message on 5. -/
def helloFrame : Frame where
  bytes := sendmsg (ascii ['c', 'l', 'i', 'e', 'n', 't', '2']) (inetNtop 127 0 0 1) 50001
    (ascii ['n', 'o', 'r']) (ascii ['h', 'e', 'l', 'l', 'o'])
    (ascii ['c', 'l', 'i', 'e', 'n', 't', '1'])
  size := by decide

def helloInput (sockfd : ℤ) : List Frame :=
  if sockfd = 4 then [regFrame] else if sockfd = 5 then [helloFrame] else []

def helloSteps : List RelayStep :=
  [.accept 4, .turn 4, .turn 4, .accept 5, .turn 5, .turn 5]

theorem hello_relayed :
    ∃ s, run relayStep (relayStart server1.processname helloInput) helloSteps = some s ∧
      wireTo s 4 = helloFrame.bytes ∧
      ∃ frames : List (ℤ × Frame), wireTo s 4 = (frames.map fun e => e.2.bytes).flatten ∧
        ∀ e ∈ frames, e.2 ∈ helloInput e.1 := by
  have hrun : (run relayStep (relayStart server1.processname helloInput) helloSteps).map
      (fun s => wireTo s 4) = some helloFrame.bytes := by decide +kernel
  obtain ⟨s, hs, hhello⟩ := Option.map_eq_some_iff.mp hrun
  obtain ⟨frames, hwire, hmem, -⟩ :=
    relay_fidelity server1.processname helloInput helloSteps s hs 4 (by decide)
  exact ⟨s, hs, hhello, frames, hwire, hmem⟩

end LearningDirectory
