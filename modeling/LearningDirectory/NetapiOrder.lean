import LearningDirectory.NetapiNetwork

/-! How the server keeps up with its clients when no call fails: each connection has one
handler, which takes the messages of its client one after the other. -/
namespace LearningDirectory
open StepRun PaddedField

theorem lookup_set {κ β : Type*} [DecidableEq κ] {l : List (κ × β)} (hn : (l.map Prod.fst).Nodup)
    {i : ℕ} {k : κ} {v : β} (hi : l[i]? = some (k, v)) (w : β) (x : κ) :
    (l.set i (k, w)).lookup x = if x = k then some w else l.lookup x := by
  induction l generalizing i with
  | nil => cases hi
  | cons e l ih =>
    obtain ⟨k', v'⟩ := e
    rw [List.map_cons, List.nodup_cons] at hn
    cases i with
    | zero =>
      cases hi
      rw [List.set_cons_zero, List.lookup_cons, List.lookup_cons]
      by_cases hx : x = k
      · subst hx
        simp only [beq_self_eq_true, ↓reduceIte]
      · simp only [beq_eq_false_iff_ne.mpr hx, if_neg hx]
    | succ i =>
      have hi' : l[i]? = some (k, v) := by simpa using hi
      -- the keys differ, so the first entry is for another one
      have hne : k' ≠ k := by
        rintro rfl
        exact hn.1 (List.mem_map.mpr ⟨(k', v), List.mem_of_getElem? hi', rfl⟩)
      rw [List.set_cons_succ, List.lookup_cons, List.lookup_cons, ih hn.2 hi']
      by_cases hx : x = k'
      · subst hx
        simp only [beq_self_eq_true, if_neg hne]
      · simp only [beq_eq_false_iff_ne.mpr hx]

/-- Where the handler of `sockfd` waits; before it has started, at its first head. -/
def ServerThreads.phaseAt (s : ServerThreads) (sockfd : ℤ) : Phase :=
  (s.handlers.lookup sockfd).getD .head

/-- The accepts and starts among the steps of the server. -/
def ServerThreads.handoff (s : ServerThreads) : Handoff :=
  ⟨s.net, s.spawned, s.handlers.map Prod.fst⟩

theorem serving_afterTurn {s : ServerThreads} {i : ℕ} {sockfd : ℤ} {ph : Phase}
    (hi : s.handlers[i]? = some (sockfd, ph)) (t : Turn) :
    (s.afterTurn i (sockfd, t)).handoff.serving = s.handoff.serving := by
  obtain ⟨hlt, he⟩ := List.getElem?_eq_some_iff.mp hi
  simp only [ServerThreads.handoff, ServerThreads.afterTurn, List.map_set]
  have hlt' : i < (s.handlers.map Prod.fst).length := by
    rw [List.length_map]
    exact hlt
  have hd : (s.handlers.map Prod.fst)[i] = sockfd := by
    rw [List.getElem_map, he]
  rw [← hd, List.set_getElem_self]

theorem phaseAt_afterTurn {s : ServerThreads} (hn : s.handoff.serving.Nodup) {i : ℕ} {sockfd : ℤ}
    {ph : Phase} (hi : s.handlers[i]? = some (sockfd, ph)) (t : Turn) :
    (s.afterTurn i (sockfd, t)).phaseAt = Function.update s.phaseAt sockfd t.phase := by
  funext x
  simp only [ServerThreads.phaseAt, ServerThreads.afterTurn, lookup_set hn hi,
    Function.update_apply]
  split <;> rfl

theorem phaseAt_handler {s : ServerThreads} (hn : s.handoff.serving.Nodup) {i : ℕ} {sockfd : ℤ}
    {ph : Phase} (hi : s.handlers[i]? = some (sockfd, ph)) : s.phaseAt sockfd = ph := by
  have hset := lookup_set hn hi ph sockfd
  obtain ⟨hlt, he⟩ := List.getElem?_eq_some_iff.mp hi
  rw [← he, List.set_getElem_self, if_pos rfl] at hset
  rw [ServerThreads.phaseAt, hset]
  rfl

/-- A new handler waits where its connection was taken to be. -/
theorem phaseAt_start (s : ServerThreads) (k : ℕ) (d x : ℤ) :
    ServerThreads.phaseAt { s with spawned := k, handlers := s.handlers ++ [(d, .head)] } x =
      s.phaseAt x := by
  simp only [ServerThreads.phaseAt, List.lookup_append]
  cases s.handlers.lookup x with
  | some ph => rfl
  | none =>
    show (List.lookup x [(d, Phase.head)]).getD .head = .head
    rw [List.lookup_cons]
    cases x == d <;> rfl

theorem phaseAt_not_serving {s : ServerThreads} {d : ℤ} (h : d ∉ s.handoff.serving) :
    s.phaseAt d = .head := by
  have hnone : s.handlers.lookup d = none := by
    rw [List.lookup_eq_none_iff]
    intro e he
    apply bne_iff_ne.mpr
    rintro rfl
    exact h (List.mem_map.mpr ⟨e, he, rfl⟩)
  rw [ServerThreads.phaseAt, hnone]
  rfl

/-- A handler before the messages `left`: it waits for the head of the first one, or has read
that head and waits for the body. -/
inductive HandlerAt (wire : Bytes) : Phase → List Frame → Prop
  | atHead (left : List Frame) (hwire : wire = stream left) : HandlerAt wire .head left
  | atBody (f : Frame) (rest : List Frame) (hwire : wire = f.bytes.drop 60 ++ stream rest) :
      HandlerAt wire (.body (frameHead f) (f.bytes.take 60)) (f :: rest)

def transmitted (out : List Output) : List Bytes :=
  out.filterMap fun
    | .trans _ buf => some buf
    | _ => none

/-- The contents of the calls whose messages are for the server. -/
def printedOf (processname : Bytes) (ks : List ClientCall) : List Bytes :=
  ks.filterMap fun k =>
    if k.message.toProcname.text = processname then some k.message.content.text else none

/-- The messages for other processes. -/
def passedOn (processname : Bytes) (c : Client) (ks : List ClientCall) : List Bytes :=
  ks.filterMap fun k =>
    if k.message.toProcname.text ≠ processname then some (callFrame c k).bytes else none

/-- Of the calls of `p` the handler has dealt with `done`: their contents are printed or their
messages sent on. Those in `left` are still to be read. -/
structure CallsAccounted (processname : Bytes) (p : Peer) (ph : Phase) (out : List Output)
    (done left : List ClientCall) : Prop where
  calls : p.calls = done ++ left
  position : HandlerAt p.wire ph (left.map (callFrame p.client))
  contents : contents out = printedOf processname done
  sends : transmitted out = passedOn processname p.client done

/-- Each connection has one handler, which deals with the messages of its client in turn. -/
structure NetInOrder (processname : Bytes) (s : Network) : Prop where
  name : s.server.net.processname = processname
  live : s.server.exited = false
  nodup : s.server.net.recvsock.Nodup
  handed : Handed s.server.handoff
  connected : ∀ sockfd ∈ s.server.net.recvsock, (s.peer sockfd).isSome
  silent : ∀ sockfd, s.peer sockfd = none → s.outOf sockfd = []
  accounted : ∀ sockfd p, s.peer sockfd = some p → ∃ done left,
    CallsAccounted processname p (s.server.phaseAt sockfd) (s.outOf sockfd) done left

theorem NetInOrder.serving_nodup {processname : Bytes} {s : Network} (hi : NetInOrder processname s) :
    s.server.handoff.serving.Nodup := by
  obtain ⟨-, rest, hrest, -⟩ := hi.handed
  have hn := hi.nodup
  rw [show s.server.net.recvsock = _ from hrest] at hn
  exact (List.nodup_append.mp hn).1

/-- What a full read makes of a message: it takes its head, or the body after the head. -/
inductive ReadsFrame (n : Netapi) (f : Frame) : Phase → Bytes → Turn → Prop
  | head : ReadsFrame n f .head (f.bytes.take 60)
      ⟨(registHead (frameHead f) n).1, .body (frameHead f) (f.bytes.take 60),
        .head (frameHead f) :: (registHead (frameHead f) n).2⟩
  | body : ReadsFrame n f (.body (frameHead f) (f.bytes.take 60)) (f.bytes.drop 60)
      ⟨n, .head, [bodyOutput n (frameHead f) (f.bytes.take 60) (f.bytes.drop 60)]⟩

theorem readsFrame_of_full (n : Netapi) {wire : Bytes} {ph : Phase} {left : List Frame}
    {bytes : Bytes} (hat : HandlerAt wire ph left) (hpre : bytes <+: wire)
    (hne : bytes ≠ []) (hsize : ph.size = bytes.length) :
    ∃ f rest, left = f :: rest ∧ ReadsFrame n f ph bytes (handlerStep n ph (.data bytes)) := by
  have hbytes : bytes = wire.take bytes.length := List.prefix_iff_eq_take.mp hpre
  rw [← hsize] at hbytes
  cases hat with
  | atHead _ hwire =>
    cases left with
    | nil =>
      -- nothing is left to be read
      rw [hwire] at hpre
      exact absurd (List.prefix_nil.mp hpre) hne
    | cons f rest =>
      rw [hwire, stream_cons, Phase.size, List.take_left' (length_take_frame f)] at hbytes
      rw [hbytes, handlerStep_head]
      exact ⟨f, rest, rfl, .head⟩
  | atBody f rest hwire =>
    rw [hwire, Phase.size, List.take_left' (length_drop_frame f)] at hbytes
    rw [hbytes, handlerStep_body]
    exact ⟨f, rest, rfl, .body⟩

theorem readsFrame_net {n : Netapi} {f : Frame} {ph : Phase} {bytes : Bytes} {turn : Turn}
    (h : ReadsFrame n f ph bytes turn) :
    turn.net.processname = n.processname ∧ turn.net.recvsock = n.recvsock ∧
      turn.phase ≠ .exited := by
  cases h with
  | head => exact ⟨registHead_processname _ _, registHead_recvsock _ _, Phase.noConfusion⟩
  | body => exact ⟨rfl, rfl, Phase.noConfusion⟩

theorem handlerAt_body {wire buf : Bytes} {h : Head} {f : Frame} {rest : List Frame}
    (hat : HandlerAt wire (.body h buf) (f :: rest)) : wire = f.bytes.drop 60 ++ stream rest := by
  generalize hph : Phase.body h buf = ph at hat
  cases hat with
  | atHead _ _ => cases hph
  | atBody _ _ hwire => exact hwire

/-- The handler moves on in the message, or to the next one. -/
theorem readsFrame_position {n : Netapi} {wire : Bytes} {f : Frame} {rest : List Frame}
    {ph : Phase} {bytes : Bytes} {turn : Turn} (hat : HandlerAt wire ph (f :: rest))
    (h : ReadsFrame n f ph bytes turn) :
    HandlerAt (wire.drop bytes.length) turn.phase (if ph.isBody then rest else f :: rest) := by
  cases h with
  | head =>
    cases hat with
    | atHead _ hwire =>
      refine .atBody f rest ?_
      rw [hwire, stream_cons, List.drop_left]
  | body =>
    refine .atHead rest ?_
    rw [handlerAt_body hat, List.drop_left]

/-- A handler that finds a stream ended before a head just calls `recv` again. -/
theorem afterRecv_nil {s : Network} (hlive : s.server.exited = false) {i : ℕ} {sockfd : ℤ}
    {p : Peer} (hh : s.server.handlers[i]? = some (sockfd, .head)) (hp : s.peer sockfd = some p) :
    s.afterRecv i sockfd p [] (handlerStep s.server.net .head (.data [])) = s := by
  obtain ⟨⟨net, spawned, handlers, exited⟩, peer, log⟩ := s
  obtain rfl : exited = false := hlive
  have hset : handlers.set i (sockfd, .head) = handlers := by
    obtain ⟨hlt, he⟩ := List.getElem?_eq_some_iff.mp hh
    rw [← he, List.set_getElem_self]
  have hpeer : Function.update peer sockfd (some (p.read [])) = peer :=
    Function.update_eq_self_iff.mpr hp.symm
  show Network.mk ⟨net, spawned, handlers.set i (sockfd, .head), false⟩
    (Function.update peer sockfd (some (p.read []))) (log ++ []) = _
  rw [hset, hpeer, List.append_nil]

theorem handlerAt_ended {wire : Bytes} {ph : Phase} {left : List Frame}
    (h : HandlerAt wire ph left) (hwire : wire = []) : ph = .head := by
  cases h with
  | atHead _ _ => rfl
  | atBody f rest hbody =>
    exact absurd (List.append_eq_nil_iff.mp (hbody.symm.trans hwire)).1 (drop_frame_ne_nil f)

/-- What an admitted step does: a client connects, calls `sendmsg` or exits, the server accepts
a connection, starts its handler, or finds a stream ended, or a handler reads a head or a
body. -/
theorem networkStep_cases {processname : Bytes} {s t : Network} {a : NetworkStep}
    (hi : NetInOrder processname s) (hg : Steady s a) (h : networkStep s a = some t) :
    (∃ d c, a = .connect d c ∧ s.peer d = none ∧ t = s.setPeer d { client := c }) ∨
    (∃ d k p, a = .call d k ∧ s.peer d = some p ∧ p.Calls k ∧ t = s.setPeer d (p.sends k)) ∨
    (∃ d p, a = .exit d ∧ s.peer d = some p ∧ t = s.setPeer d { p with exited := true }) ∨
    (∃ d, a = .accept d ∧ (s.peer d).isSome ∧ d ∉ s.server.net.recvsock ∧
      s.server.spawned = 0 ∧
      t = { s with server := { s.server with
        net := serverHandleaccept d s.server.net, spawned := s.server.spawned+1 } }) ∨
    (∃ k d, a = .start ∧ s.server.spawned = k+1 ∧ s.server.net.back = some d ∧
      t = { s with server := { s.server with
        spawned := k, handlers := s.server.handlers ++ [(d, .head)] } }) ∨
    (∃ i d p, a = .recv i [] ∧ s.server.handlers[i]? = some (d, .head) ∧ s.peer d = some p ∧
      p.wire = [] ∧ t = s) ∨
    (∃ i bytes d ph p turn done k rest, a = .recv i bytes ∧
      s.server.handlers[i]? = some (d, ph) ∧ s.peer d = some p ∧
      CallsAccounted processname p ph (s.outOf d) done (k :: rest) ∧
      ReadsFrame s.server.net (callFrame p.client k) ph bytes turn ∧
      t = s.afterRecv i d p bytes turn) := by
  have hlive := hi.live
  cases a with
  | connect d c =>
    obtain ⟨hnot, hs⟩ := Option.ite_none_left_eq_some.mp h
    rw [not_or, Bool.not_eq_true, Option.isSome_eq_false_iff, Option.isNone_iff_eq_none] at hnot
    exact Or.inl ⟨d, c, rfl, hnot.2, (Option.some.inj hs).symm⟩
  | call d k =>
    simp only [networkStep] at h
    cases hp : s.peer d with
    | none =>
      rw [hp] at h
      cases h
    | some p =>
      rw [hp] at h
      obtain ⟨hcalls, hs⟩ := Option.ite_none_right_eq_some.mp h
      exact Or.inr (Or.inl ⟨d, k, p, rfl, hp, hcalls, (Option.some.inj hs).symm⟩)
  | exit d =>
    simp only [networkStep] at h
    cases hp : s.peer d with
    | none =>
      rw [hp] at h
      cases h
    | some p =>
      rw [hp] at h
      exact Or.inr (Or.inr (Or.inl ⟨d, p, rfl, hp, (Option.some.inj h).symm⟩))
  | accept d =>
    obtain ⟨hok, hs⟩ := Option.ite_none_right_eq_some.mp h
    obtain ⟨hfail, hidle⟩ := hg
    obtain ⟨hsome, hnew⟩ := hok.resolve_left hfail
    rw [threadStep, if_neg (Bool.eq_false_iff.mp hlive)] at hs
    exact Or.inr (Or.inr (Or.inr (Or.inl ⟨d, rfl, hsome, hnew, hidle,
      (Option.some.inj hs).symm⟩)))
  | start =>
    obtain ⟨u, hu, rfl⟩ := Option.map_eq_some_iff.mp h
    rw [threadStep, if_neg (Bool.eq_false_iff.mp hlive)] at hu
    split at hu
    · rename_i k d hk hd
      obtain rfl := Option.some.inj hu
      exact Or.inr (Or.inr (Or.inr (Or.inr (Or.inl ⟨k, d, rfl, hk, hd, rfl⟩))))
    · cases hu
  | recv i bytes =>
    simp only [networkStep, ServerThreads.turn] at h
    cases hh : s.server.handlers[i]? with
    | none =>
      rw [hh] at h
      cases h
    | some handler =>
      obtain ⟨d, ph⟩ := handler
      simp only [hh] at h
      split at h
      · rename_i d' turn hturn
        obtain ⟨hsize, hturn⟩ := Option.ite_none_right_eq_some.mp hturn
        obtain ⟨rfl, rfl⟩ := Prod.mk.inj (Option.some.inj hturn)
        cases hp : s.peer d with
        | none =>
          rw [hp] at h
          cases h
        | some p =>
          simp only [hp] at h
          obtain ⟨⟨-, hpre, hend⟩, hs⟩ := Option.ite_none_right_eq_some.mp h
          obtain ⟨done, left, hacc⟩ := hi.accounted d p hp
          rw [phaseAt_handler hi.serving_nodup hh] at hacc
          by_cases hnil : bytes = []
          · subst hnil
            have hhead := handlerAt_ended hacc.position (hend rfl).1
            subst hhead
            exact Or.inr (Or.inr (Or.inr (Or.inr (Or.inr (Or.inl ⟨i, d, p, rfl, hh, hp,
              (hend rfl).1, (Option.some.inj hs).symm.trans (afterRecv_nil hlive hh hp)⟩)))))
          · have hfull : ph.size = bytes.length := by
              rcases hg with hnil' | hlen
              · exact absurd hnil' hnil
              · rw [hh] at hlen
                exact Option.some.inj hlen
            obtain ⟨f, fs, hleft, hreads⟩ :=
              readsFrame_of_full s.server.net hacc.position hpre hnil hfull
            obtain ⟨k, rest, rfl, rfl, -⟩ := List.map_eq_cons_iff.mp hleft
            exact Or.inr (Or.inr (Or.inr (Or.inr (Or.inr (Or.inr
              ⟨i, bytes, d, ph, p, _, done, k, rest, rfl, hh, hp, hacc, hreads,
                (Option.some.inj hs).symm⟩)))))
      · cases h
  | recvError i => exact absurd hg id

/-! ### The invariant -/

theorem outOf_afterRecv (s : Network) (i : ℕ) (d : ℤ) (p : Peer) (bytes : Bytes) (t : Turn)
    (x : ℤ) : (s.afterRecv i d p bytes t).outOf x = s.outOf x ++ if x = d then t.out else [] := by
  have hnew : (t.out.map fun o => (d, o)).filterMap
      (fun e => if e.1 = x then some e.2 else none) = if x = d then t.out else [] := by
    rw [List.filterMap_map]
    by_cases h : x = d
    · subst h
      simp only [Function.comp_def, ↓reduceIte, List.filterMap_some]
    · simp only [Function.comp_def, if_neg (Ne.symm h), if_neg h, List.filterMap_none]
  rw [Network.outOf, Network.afterRecv, List.filterMap_append, hnew]
  rfl

theorem transmitted_append (xs ys : List Output) :
    transmitted (xs ++ ys) = transmitted xs ++ transmitted ys := List.filterMap_append

theorem contents_append (xs ys : List Output) :
    contents (xs ++ ys) = contents xs ++ contents ys := List.filterMap_append

theorem transmitted_registHead (h : Head) (n : Netapi) : transmitted (registHead h n).2 = [] :=
  filterMap_registHead (fun _ _ => rfl) h n

theorem handlerAt_append {wire : Bytes} {ph : Phase} {left : List Frame}
    (h : HandlerAt wire ph left) (f : Frame) : HandlerAt (wire ++ f.bytes) ph (left ++ [f]) := by
  have hstream (fs : List Frame) : stream fs ++ f.bytes = stream (fs ++ [f]) := by
    simp only [stream, List.map_append, List.map_cons, List.map_nil, List.flatten_append,
      List.flatten_cons, List.flatten_nil, List.append_nil]
  cases h with
  | atHead _ hwire => exact .atHead _ (by rw [hwire, hstream])
  | atBody g rest hwire =>
    rw [List.cons_append]
    exact .atBody g _ (by rw [hwire, List.append_assoc, hstream])

theorem callsAccounted_sends {processname : Bytes} {p : Peer} {ph : Phase} {out : List Output}
    {done left : List ClientCall} (h : CallsAccounted processname p ph out done left)
    (k : ClientCall) : CallsAccounted processname (p.sends k) ph out done (left ++ [k]) where
  calls := by rw [Peer.sends, h.calls, List.append_assoc]
  position := by
    rw [List.map_append]
    exact handlerAt_append h.position (callFrame p.client k)
  contents := h.contents
  sends := h.sends

/-- A body read prints the content or sends the frame on, a head read neither. -/
theorem readsFrame_outputs {n : Netapi} {f : Frame} {ph : Phase} {bytes : Bytes} {turn : Turn}
    (h : ReadsFrame n f ph bytes turn) :
    contents turn.out = (if ph.isBody ∧ (frameHead f).toProcname = n.processname then
      [parseBody (f.bytes.drop 60)] else []) ∧
    transmitted turn.out = (if ph.isBody ∧ (frameHead f).toProcname ≠ n.processname then
      [f.bytes] else []) := by
  cases h with
  | head => exact ⟨contents_registHead (frameHead f) n, transmitted_registHead (frameHead f) n⟩
  | body =>
    rw [bodyOutput, fillBuffer_full (length_drop_frame f), List.take_append_drop]
    by_cases hlocal : (frameHead f).toProcname = n.processname
    · rw [if_pos hlocal, if_pos ⟨rfl, hlocal⟩, if_neg (fun h => h.2 hlocal)]
      exact ⟨rfl, rfl⟩
    · rw [if_neg hlocal, if_neg (fun h => hlocal h.2), if_pos ⟨rfl, hlocal⟩]
      exact ⟨rfl, rfl⟩

theorem callFrame_dest (c : Client) (k : ClientCall) :
    (frameHead (callFrame c k)).toProcname = k.message.toProcname.text := by
  rw [callFrame, frameHead_message]
  rfl

theorem callFrame_content (c : Client) (k : ClientCall) :
    parseBody ((callFrame c k).bytes.drop 60) = k.message.content.text :=
  parseBody_wire (f := c.fields k.message) c.fiveDigits serverPort_five

/-- A full read is accounted for: a head is put in hand, a body makes its message done. -/
theorem callsAccounted_read {processname : Bytes} {n : Netapi} (hname : n.processname = processname)
    {p : Peer} {ph : Phase} {out : List Output} {done rest : List ClientCall} {k : ClientCall}
    {bytes : Bytes} {turn : Turn} (h : CallsAccounted processname p ph out done (k :: rest))
    (hr : ReadsFrame n (callFrame p.client k) ph bytes turn) :
    CallsAccounted processname (p.read bytes) turn.phase (out ++ turn.out)
      (done ++ if ph.isBody then [k] else []) (if ph.isBody then rest else k :: rest) := by
  obtain ⟨hcontents, hsends⟩ := readsFrame_outputs hr
  have hat : HandlerAt p.wire ph (callFrame p.client k :: rest.map (callFrame p.client)) :=
    h.position
  have hposition : HandlerAt (p.read bytes).wire turn.phase _ := readsFrame_position hat hr
  rw [callFrame_dest, callFrame_content, hname] at hcontents
  rw [callFrame_dest, hname] at hsends
  cases hbody : ph.isBody with
  | false =>
    simp only [hbody, Bool.false_eq_true, false_and, if_false] at hcontents hsends hposition ⊢
    refine ⟨?_, hposition, ?_, ?_⟩
    · rw [Peer.read_calls, h.calls, List.append_nil]
    · rw [contents_append, h.contents, hcontents, List.append_nil, List.append_nil]
    · rw [transmitted_append, h.sends, hsends, List.append_nil, List.append_nil, Peer.read_client]
  | true =>
    simp only [hbody, true_and, if_true] at hcontents hsends hposition ⊢
    refine ⟨?_, hposition, ?_, ?_⟩
    · rw [Peer.read_calls, h.calls, List.append_assoc, List.singleton_append]
    · rw [contents_append, h.contents, hcontents]
      exact (filterMap_append_one done k
        (fun k => k.message.toProcname.text = processname) fun k => k.message.content.text).symm
    · rw [transmitted_append, h.sends, hsends, Peer.read_client]
      exact (filterMap_append_one done k (fun k => k.message.toProcname.text ≠ processname)
        fun k => (callFrame p.client k).bytes).symm

theorem peer_update {peer : ℤ → Option Peer} {d x : ℤ} {p q : Peer}
    (h : Function.update peer d (some p) x = some q) : x = d ∧ q = p ∨ x ≠ d ∧ peer x = some q := by
  by_cases hx : x = d
  · rw [hx, Function.update_self] at h
    exact Or.inl ⟨hx, (Option.some.inj h).symm⟩
  · rw [Function.update_of_ne hx] at h
    exact Or.inr ⟨hx, h⟩

theorem peer_update_none {peer : ℤ → Option Peer} {d x : ℤ} {p : Peer}
    (h : Function.update peer d (some p) x = none) : x ≠ d ∧ peer x = none := by
  by_cases hx : x = d
  · rw [hx, Function.update_self] at h
    cases h
  · rw [Function.update_of_ne hx] at h
    exact ⟨hx, h⟩

theorem peer_update_isSome {peer : ℤ → Option Peer} {x : ℤ} (d : ℤ) (p : Peer)
    (h : (peer x).isSome) : (Function.update peer d (some p) x).isSome := by
  by_cases hx : x = d
  · rw [hx, Function.update_self]
    rfl
  · rw [Function.update_of_ne hx]
    exact h

section Step

variable {processname : Bytes} {s : Network} (hi : NetInOrder processname s)
include hi

/-- A change of one peer that keeps it accounted for. -/
theorem netInOrder_setPeer {d : ℤ} {p : Peer}
    (hacc : ∃ done left, CallsAccounted processname p (s.server.phaseAt d) (s.outOf d) done left) :
    NetInOrder processname (s.setPeer d p) where
  name := hi.name
  live := hi.live
  nodup := hi.nodup
  handed := hi.handed
  connected := fun x hx => peer_update_isSome d p (hi.connected x hx)
  silent := fun x hx => hi.silent x (peer_update_none hx).2
  accounted := by
    intro x q hq
    rcases peer_update hq with ⟨rfl, rfl⟩ | ⟨-, hold⟩
    · exact hacc
    · exact hi.accounted x q hold

theorem not_serving {d : ℤ} (h : d ∉ s.server.net.recvsock) :
    d ∉ s.server.handoff.serving := by
  obtain ⟨-, rest, hrest, -⟩ := hi.handed
  intro hmem
  apply h
  rw [show s.server.net.recvsock = _ from hrest]
  exact List.mem_append_left _ hmem

theorem netInOrder_connect {d : ℤ} (c : Client) (hnew : s.peer d = none) :
    NetInOrder processname (s.setPeer d { client := c }) := by
  apply netInOrder_setPeer hi
  -- a descriptor nobody has connected has no handler, and nothing of it in the log
  have hfresh : d ∉ s.server.net.recvsock := by
    intro hmem
    have hsome := hi.connected d hmem
    rw [hnew] at hsome
    cases hsome
  rw [phaseAt_not_serving (not_serving hi hfresh), hi.silent d hnew]
  exact ⟨[], [], rfl, .atHead [] rfl, rfl, rfl⟩

theorem netInOrder_accept {d : ℤ} (hsome : (s.peer d).isSome) (hnew : d ∉ s.server.net.recvsock)
    (hidle : s.server.spawned = 0) :
    NetInOrder processname { s with server := { s.server with
      net := serverHandleaccept d s.server.net, spawned := s.server.spawned+1 } } := by
  have hstep : handoffStep s.server.handoff (.accept d) = some
      { s.server.handoff with
        net := serverHandleaccept d s.server.net, spawned := s.server.spawned+1 } := if_neg hnew
  refine ⟨hi.name, hi.live, nodup_step hi.nodup hstep,
    handed_step (a := .accept d) hi.handed hidle hstep, ?_, hi.silent, hi.accounted⟩
  intro x hx
  rcases List.mem_append.mp hx with hold | hlast
  · exact hi.connected x hold
  · obtain rfl := List.mem_singleton.mp hlast
    exact hsome

theorem netInOrder_startThread {k : ℕ} {d : ℤ} (hspawned : s.server.spawned = k+1)
    (hback : s.server.net.back = some d) :
    NetInOrder processname { s with server := { s.server with
      spawned := k, handlers := s.server.handlers ++ [(d, .head)] } } := by
  have hstep : handoffStep s.server.handoff .start = some
      { s.server.handoff with
        spawned := k, serving := s.server.handoff.serving ++ [d] } := by
    have hs : s.server.handoff.spawned = k+1 := hspawned
    have hb : s.server.handoff.net.back = some d := hback
    simp only [handoffStep, hs, hb]
  have hhanded := handed_step (a := .start) hi.handed trivial hstep
  refine ⟨hi.name, hi.live, hi.nodup, ?_, hi.connected, hi.silent, ?_⟩
  · rw [ServerThreads.handoff, List.map_append]
    exact hhanded
  · intro x p hp
    rw [phaseAt_start]
    exact hi.accounted x p hp

theorem netInOrder_recv {i : ℕ} {d : ℤ} {ph : Phase} {p : Peer} {bytes : Bytes} {turn : Turn}
    {done rest : List ClientCall} {k : ClientCall}
    (hh : s.server.handlers[i]? = some (d, ph))
    (hacc : CallsAccounted processname p ph (s.outOf d) done (k :: rest))
    (hr : ReadsFrame s.server.net (callFrame p.client k) ph bytes turn) :
    NetInOrder processname (s.afterRecv i d p bytes turn) := by
  obtain ⟨hname, hsock, hgo⟩ := readsFrame_net hr
  refine ⟨hname.trans hi.name, decide_eq_false hgo, ?_, ?_, ?_, ?_, ?_⟩
  · rw [Network.afterRecv, ServerThreads.afterTurn, hsock]
    exact hi.nodup
  · obtain ⟨hwait, rest, hrest, hlen⟩ := hi.handed
    refine ⟨hwait, rest, ?_, hlen⟩
    rw [Network.afterRecv, serving_afterTurn hh]
    exact hsock.trans hrest
  · exact fun x hx => peer_update_isSome d _ (hi.connected x (hsock ▸ hx))
  · intro x hx
    obtain ⟨hne, hnone⟩ := peer_update_none hx
    rw [outOf_afterRecv, if_neg hne, List.append_nil]
    exact hi.silent x hnone
  · intro x q hq
    have hphase := phaseAt_afterTurn hi.serving_nodup hh turn
    rw [outOf_afterRecv, show (s.afterRecv i d p bytes turn).server.phaseAt x = _ from
      congrFun hphase x]
    rcases peer_update hq with ⟨rfl, rfl⟩ | ⟨hne, hold⟩
    · rw [Function.update_self, if_pos rfl]
      exact ⟨_, _, callsAccounted_read hi.name hacc hr⟩
    · rw [Function.update_of_ne hne, if_neg hne, List.append_nil]
      exact hi.accounted x q hold

end Step

theorem netInOrder_step {processname : Bytes} {s t : Network} {a : NetworkStep}
    (hi : NetInOrder processname s) (hg : Steady s a) (h : networkStep s a = some t) :
    NetInOrder processname t := by
  rcases networkStep_cases hi hg h with ⟨d, c, -, hnew, rfl⟩ | ⟨d, k, p, -, hp, -, rfl⟩ |
    ⟨d, p, -, hp, rfl⟩ | ⟨d, -, hsome, hnew, hidle, rfl⟩ | ⟨k, d, -, hspawned, hback, rfl⟩ |
    ⟨i, d, p, -, -, -, -, rfl⟩ | ⟨i, bytes, d, ph, p, turn, done, k, rest, -, hh, -, hacc, hr, rfl⟩
  · exact netInOrder_connect hi c hnew
  · obtain ⟨done, left, hacc⟩ := hi.accounted d p hp
    exact netInOrder_setPeer hi ⟨done, _, callsAccounted_sends hacc k⟩
  · obtain ⟨done, left, hacc⟩ := hi.accounted d p hp
    exact netInOrder_setPeer hi ⟨done, left, hacc.calls, hacc.position, hacc.contents, hacc.sends⟩
  · exact netInOrder_accept hi hsome hnew hidle
  · exact netInOrder_startThread hi hspawned hback
  · exact hi
  · exact netInOrder_recv hi hh hacc hr

theorem netInOrder_start_state (processname : Bytes) :
    NetInOrder processname (networkStart processname) where
  name := rfl
  live := rfl
  nodup := List.nodup_nil
  handed := ⟨Nat.zero_le 1, [], rfl, rfl⟩
  connected := fun _ hx => absurd hx List.not_mem_nil
  silent := fun _ _ => rfl
  accounted := by
    intro x p hp
    cases hp

theorem netInOrder_run {processname : Bytes} {as : List NetworkStep} {s : Network}
    (hg : Guarded networkStep Steady (networkStart processname) as)
    (h : run networkStep (networkStart processname) as = some s) : NetInOrder processname s :=
  run_rule networkStep (I := fun _ s => NetInOrder processname s)
    (netInOrder_start_state processname) (fun _ _ _ _ _ hi ha hs => netInOrder_step hi ha hs) hg h

end LearningDirectory
