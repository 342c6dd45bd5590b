import LearningDirectory.NetapiDelivery

/-! The network refines the relay of whole messages: a run in which no call fails looks to the
relay as if each client had announced beforehand what it is going to send. -/
namespace LearningDirectory
open StepRun PaddedField

def Network.framesOf (s : Network) (d : ℤ) : List Frame :=
  ((s.peer d).map fun p => p.calls.map (callFrame p.client)).getD []

def Network.wireOf (s : Network) (d : ℤ) : Bytes := ((s.peer d).map Peer.wire).getD []

/-- The relay's view of the network. -/
structure Matches (s : Network) (r : Relay) : Prop where
  net : r.net = s.server.net
  phase : r.phase = s.server.phaseAt
  pending : r.pending = s.wireOf
  sent : r.sent = s.sent

/-- One client is going to send `bytes` behind all it was going to send. -/
def Relay.more (d : ℤ) (bytes : Bytes) (r : Relay) : Relay :=
  { r with pending := Function.update r.pending d (r.pending d ++ bytes) }

theorem relayStep_more (d : ℤ) (bytes : Bytes) {r u : Relay} {a : RelayStep}
    (h : relayStep r a = some u) : relayStep (r.more d bytes) a = some (u.more d bytes) := by
  cases a with
  | accept newSock =>
    obtain ⟨hnew, hu⟩ := Option.ite_none_left_eq_some.mp h
    obtain rfl := Option.some.inj hu
    exact if_neg hnew
  | turn sockfd =>
    simp only [relayStep] at h ⊢
    obtain ⟨⟨hmem, hpos, hle⟩, hu⟩ := Option.ite_none_right_eq_some.mp h
    obtain rfl := Option.some.inj hu
    by_cases hd : sockfd = d
    · subst hd
      have hpending : (r.more sockfd bytes).pending sockfd = r.pending sockfd ++ bytes :=
        Function.update_self ..
      have hphase : (r.more sockfd bytes).phase = r.phase := rfl
      have hle' : (r.phase sockfd).size ≤ (r.pending sockfd ++ bytes).length :=
        hle.trans (List.length_append ▸ Nat.le_add_right _ _)
      -- what the turn takes is in front of the new bytes
      rw [hpending, hphase, if_pos ⟨hmem, hpos, hle'⟩, List.take_append_of_le_length hle,
        List.drop_append_of_le_length hle]
      simp only [Relay.more, Function.update_idem, Function.update_self]
    · have hpending : (r.more d bytes).pending sockfd = r.pending sockfd :=
        Function.update_of_ne hd ..
      have hphase : (r.more d bytes).phase = r.phase := rfl
      rw [hpending, hphase, if_pos ⟨hmem, hpos, hle⟩]
      simp only [Relay.more, Function.update_of_ne (Ne.symm hd), Function.update_comm hd]

theorem run_relay_more (d : ℤ) (bytes : Bytes) {r u : Relay} {as : List RelayStep}
    (h : run relayStep r as = some u) :
    ∃ bs, run relayStep (r.more d bytes) bs = some (u.more d bytes) := by
  have hstep (s t : Relay) (a : RelayStep) (w : Relay) (hR : t = s.more d bytes) (_ : True)
      (hw : relayStep s a = some w) :
      ∃ bs v, run relayStep t bs = some v ∧ v = w.more d bytes := by
    subst hR
    refine ⟨[a], w.more d bytes, ?_, rfl⟩
    rw [run_cons, relayStep_more d bytes hw]
    rfl
  obtain ⟨bs, v, hv, rfl⟩ := run_simulation relayStep relayStep (G := fun _ _ => True) hstep rfl
    (fun _ _ => trivial) h
  exact ⟨bs, hv⟩

theorem relayStart_more (processname : Bytes) (input : ℤ → List Frame) (d : ℤ) (f : Frame) :
    (relayStart processname input).more d f.bytes =
      relayStart processname (Function.update input d (input d ++ [f])) := by
  simp only [Relay.more, relayStart]
  congr 1
  funext x
  by_cases h : x = d
  · subst h
    simp only [Function.update_self, stream, List.map_append, List.map_cons, List.map_nil,
      List.flatten_append, List.flatten_cons, List.flatten_nil, List.append_nil]
  · simp only [Function.update_of_ne h]

section Step

variable {processname : Bytes} {s : Network}

theorem framesOf_setPeer (s : Network) (d : ℤ) (p : Peer) :
    (s.setPeer d p).framesOf =
      Function.update s.framesOf d (p.calls.map (callFrame p.client)) := by
  funext x
  by_cases h : x = d
  · subst h
    simp only [Network.framesOf, Network.setPeer, Function.update_self, Option.map_some,
      Option.getD_some]
  · simp only [Network.framesOf, Network.setPeer, Function.update_of_ne h]

theorem wireOf_setPeer (s : Network) (d : ℤ) (p : Peer) :
    (s.setPeer d p).wireOf = Function.update s.wireOf d p.wire := by
  funext x
  by_cases h : x = d
  · subst h
    simp only [Network.wireOf, Network.setPeer, Function.update_self, Option.map_some,
      Option.getD_some]
  · simp only [Network.wireOf, Network.setPeer, Function.update_of_ne h]

/-- What a client does that sends nothing is not seen by the relay. -/
theorem matches_setPeer {r : Relay} {d : ℤ} {p : Peer} (hm : Matches s r)
    (hwire : s.wireOf d = p.wire) : Matches (s.setPeer d p) r where
  net := hm.net
  phase := hm.phase
  pending := by rw [hm.pending, wireOf_setPeer, ← hwire, Function.update_eq_self]
  sent := hm.sent

theorem matches_sends {r : Relay} {d : ℤ} {p : Peer} (hm : Matches s r) (hp : s.peer d = some p)
    (k : ClientCall) :
    Matches (s.setPeer d (p.sends k)) (r.more d (callFrame p.client k).bytes) where
  net := hm.net
  phase := hm.phase
  pending := by
    have hwire : s.wireOf d = p.wire := by rw [Network.wireOf, hp]; rfl
    rw [wireOf_setPeer, Relay.more, hm.pending, hwire]
    rfl
  sent := hm.sent

theorem readsFrame_turn {n : Netapi} {wire : Bytes} {f : Frame} {rest : List Frame} {ph : Phase}
    {bytes : Bytes} {turn : Turn} (hat : HandlerAt wire ph (f :: rest))
    (h : ReadsFrame n f ph bytes turn) :
    turn = handlerStep n ph (.data bytes) ∧ bytes = wire.take ph.size ∧
      bytes.length = ph.size := by
  cases h with
  | head =>
    cases hat with
    | atHead _ hwire =>
      refine ⟨(handlerStep_head n f).symm, ?_, length_take_frame f⟩
      rw [hwire, stream_cons, Phase.size, List.take_left' (length_take_frame f)]
  | body =>
    refine ⟨(handlerStep_body n f).symm, ?_, length_drop_frame f⟩
    rw [handlerAt_body hat, Phase.size, List.take_left' (length_drop_frame f)]

/-- A full read of a handler is a turn of the relay. -/
theorem matches_recv (hi : NetInOrder processname s) {r : Relay} (hm : Matches s r) {i : ℕ} {d : ℤ}
    {ph : Phase} {p : Peer} {bytes : Bytes} {turn : Turn} {done rest : List ClientCall}
    {k : ClientCall} (hh : s.server.handlers[i]? = some (d, ph)) (hp : s.peer d = some p)
    (hacc : CallsAccounted processname p ph (s.outOf d) done (k :: rest))
    (hr : ReadsFrame s.server.net (callFrame p.client k) ph bytes turn) :
    ∃ u, relayStep r (.turn d) = some u ∧ Matches (s.afterRecv i d p bytes turn) u := by
  have hat : HandlerAt p.wire ph (callFrame p.client k :: rest.map (callFrame p.client)) :=
    hacc.position
  obtain ⟨hturn, hbytes, hlen⟩ := readsFrame_turn hat hr
  obtain ⟨hpos, hle⟩ := handlerAt_full hacc.position (List.cons_ne_nil _ _)
  have hmem : d ∈ r.net.recvsock := by
    rw [hm.net]
    by_contra hno
    exact not_serving hi hno (List.mem_map.mpr ⟨(d, ph), List.mem_of_getElem? hh, rfl⟩)
  have hphase : r.phase d = ph := by
    rw [hm.phase]
    exact phaseAt_handler hi.serving_nodup hh
  have hpending : r.pending d = p.wire := by
    rw [hm.pending, Network.wireOf, hp]
    rfl
  simp only [relayStep, hphase, hpending]
  rw [if_pos ⟨hmem, hpos, hle⟩, ← hbytes, hm.net, ← hturn]
  refine ⟨_, rfl, rfl, ?_, ?_, ?_⟩
  · dsimp only
    rw [hm.phase]
    exact (phaseAt_afterTurn hi.serving_nodup hh turn).symm
  · have hrest : p.wire.drop ph.size = (p.read bytes).wire := by rw [Peer.read, hlen]
    have hwire := wireOf_setPeer s d (p.read bytes)
    dsimp only
    rw [hm.pending, hrest]
    exact hwire.symm
  · dsimp only
    rw [sent_afterRecv, hm.sent]

end Step

/-- Some run of the relay, given what the clients have sent so far, ends in the relay's view of
the network. -/
def Refines (processname : Bytes) (s : Network) : Prop :=
  ∃ as r, run relayStep (relayStart processname s.framesOf) as = some r ∧ Matches s r

theorem refines_congr {processname : Bytes} {s t : Network} (h : Refines processname s)
    (hframes : t.framesOf = s.framesOf) (hmatch : ∀ r, Matches s r → Matches t r) :
    Refines processname t := by
  obtain ⟨as, r, hr, hm⟩ := h
  exact ⟨as, r, by rw [hframes]; exact hr, hmatch r hm⟩

theorem refines_step {processname : Bytes} {s t : Network} {a : NetworkStep}
    (hi : NetInOrder processname s) (hrefines : Refines processname s) (hg : Steady s a)
    (h : networkStep s a = some t) : Refines processname t := by
  rcases networkStep_cases hi hg h with ⟨d, c, -, hnew, rfl⟩ | ⟨d, k, p, -, hp, -, rfl⟩ |
    ⟨d, p, -, hp, rfl⟩ | ⟨d, -, -, hnew, -, rfl⟩ | ⟨k, d, -, -, -, rfl⟩ | ⟨-, -, -, -, -, -, -, rfl⟩ |
    ⟨i, bytes, d, ph, p, turn, done, k, rest, -, hh, hp, hacc, hr, rfl⟩
  · have hframes : s.framesOf d = [] := by rw [Network.framesOf, hnew]; rfl
    have hwire : s.wireOf d = [] := by rw [Network.wireOf, hnew]; rfl
    refine refines_congr hrefines ?_ fun r hm => matches_setPeer hm hwire
    rw [framesOf_setPeer, List.map_nil, ← hframes, Function.update_eq_self]
  · obtain ⟨as, r, hr, hm⟩ := hrefines
    obtain ⟨bs, hbs⟩ := run_relay_more d (callFrame p.client k).bytes hr
    have hframes : s.framesOf d = p.calls.map (callFrame p.client) := by
      rw [Network.framesOf, hp]
      rfl
    -- the relay would have known of this message from the start
    refine ⟨bs, _, ?_, matches_sends hm hp k⟩
    rw [relayStart_more, hframes] at hbs
    rw [framesOf_setPeer, Peer.sends, List.map_append]
    exact hbs
  · have hframes : s.framesOf d = p.calls.map (callFrame p.client) := by
      rw [Network.framesOf, hp]
      rfl
    have hwire : s.wireOf d = p.wire := by rw [Network.wireOf, hp]; rfl
    refine refines_congr hrefines ?_ fun r hm => matches_setPeer hm hwire
    rw [framesOf_setPeer, ← hframes, Function.update_eq_self]
  · obtain ⟨as, r, hr, hm⟩ := hrefines
    refine ⟨as ++ [.accept d], { r with net := serverHandleaccept d r.net }, ?_, ?_, hm.phase,
      hm.pending, hm.sent⟩
    · refine (run_append_one relayStep).mpr ⟨r, hr, if_neg ?_⟩
      rw [hm.net]
      exact hnew
    · rw [hm.net]
  · refine refines_congr hrefines rfl fun r hm => ⟨hm.net, hm.phase.trans ?_, hm.pending, hm.sent⟩
    funext x
    exact (phaseAt_start s.server k d x).symm
  · exact hrefines
  · obtain ⟨as, r, hrun, hm⟩ := hrefines
    obtain ⟨u, hu, hmu⟩ := matches_recv hi hm hh hp hacc hr
    have hframes : s.framesOf d = p.calls.map (callFrame p.client) := by
      rw [Network.framesOf, hp]
      rfl
    have hsame : (s.afterRecv i d p bytes turn).framesOf = s.framesOf := by
      have hset := framesOf_setPeer s d (p.read bytes)
      rw [Peer.read_calls, Peer.read_client, ← hframes, Function.update_eq_self] at hset
      exact hset
    refine ⟨as ++ [.turn d], u, ?_, hmu⟩
    rw [hsame]
    exact (run_append_one relayStep).mpr ⟨r, hrun, hu⟩

theorem refines_run {processname : Bytes} {as : List NetworkStep} {s : Network}
    (hg : Guarded networkStep Steady (networkStart processname) as)
    (h : run networkStep (networkStart processname) as = some s) : Refines processname s := by
  have hboth : NetInOrder processname s ∧ Refines processname s := by
    refine run_rule networkStep (I := fun _ s => NetInOrder processname s ∧ Refines processname s)
      ⟨netInOrder_start_state processname, [], relayStart processname fun _ => [], rfl,
        rfl, rfl, rfl, rfl⟩ ?_ hg h
    rintro - t a u - ⟨hi, hrefines⟩ hsteady hu
    exact ⟨netInOrder_step hi hsteady hu, refines_step hi hrefines hsteady hu⟩
  exact hboth.2

end LearningDirectory
