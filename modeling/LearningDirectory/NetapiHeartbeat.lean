import LearningDirectory.NetapiRefinement

/-! Messages for the server itself that are no registrations: heartbeats, deregistrations and
contents to be printed. The other clients cannot tell whether they were sent. -/
namespace LearningDirectory
open StepRun PaddedField

/-- The message can change the table or is sent on. -/
def Matters (processname : Bytes) (f : Frame) : Prop :=
  (frameHead f).mType = regText ∨ (frameHead f).toProcname ≠ processname

instance (processname : Bytes) (f : Frame) : Decidable (Matters processname f) :=
  inferInstanceAs (Decidable (_ ∨ _))

def mattering (processname : Bytes) (fs : List Frame) : List Frame :=
  fs.filter fun f => Matters processname f

/-- The handler of a connection with the messages `left` before it in `s`, and in `t` with
those of them that matter: both are before or within the same message, unless `s` is within
one that does not matter. -/
inductive ErasedAt (processname : Bytes) (s t : Relay) (sockfd : ℤ) : List Frame → Prop
  | atHead (left : List Frame) (hs : s.phase sockfd = .head)
      (hspending : s.pending sockfd = stream left) (ht : t.phase sockfd = .head)
      (htpending : t.pending sockfd = stream (mattering processname left)) :
      ErasedAt processname s t sockfd left
  | within (f : Frame) (rest : List Frame) (hf : Matters processname f)
      (hs : s.phase sockfd = .body (frameHead f) (f.bytes.take 60))
      (hspending : s.pending sockfd = f.bytes.drop 60 ++ stream rest)
      (ht : t.phase sockfd = .body (frameHead f) (f.bytes.take 60))
      (htpending : t.pending sockfd =
        f.bytes.drop 60 ++ stream (mattering processname rest)) :
      ErasedAt processname s t sockfd (f :: rest)
  | skipping (f : Frame) (rest : List Frame) (hf : ¬ Matters processname f)
      (hs : s.phase sockfd = .body (frameHead f) (f.bytes.take 60))
      (hspending : s.pending sockfd = f.bytes.drop 60 ++ stream rest)
      (ht : t.phase sockfd = .head)
      (htpending : t.pending sockfd = stream (mattering processname rest)) :
      ErasedAt processname s t sockfd (f :: rest)

/-- Relays that differ in messages that do not matter. -/
structure Erased (processname : Bytes) (s t : Relay) : Prop where
  name : s.net.processname = processname
  net : t.net = s.net
  sent : t.sent = s.sent
  conn : ∀ sockfd, ∃ left, ErasedAt processname s t sockfd left

theorem erasedAt_connAt {processname : Bytes} {s t : Relay} {sockfd : ℤ} {left : List Frame}
    (h : ErasedAt processname s t sockfd left) : ConnAt s sockfd left := by
  cases h with
  | atHead _ hs hp _ _ => exact .atHead left hs hp
  | within f rest _ hs hp _ _ => exact .atBody f rest hs hp
  | skipping f rest _ hs hp _ _ => exact .atBody f rest hs hp

theorem erasedAt_congr {processname : Bytes} {s s' t t' : Relay} {sockfd : ℤ}
    {left : List Frame} (hs : s'.phase sockfd = s.phase sockfd)
    (hsp : s'.pending sockfd = s.pending sockfd) (ht : t'.phase sockfd = t.phase sockfd)
    (htp : t'.pending sockfd = t.pending sockfd) (h : ErasedAt processname s t sockfd left) :
    ErasedAt processname s' t' sockfd left := by
  cases h with
  | atHead _ h1 h2 h3 h4 =>
    exact .atHead left (hs.trans h1) (hsp.trans h2) (ht.trans h3) (htp.trans h4)
  | within f rest hf h1 h2 h3 h4 =>
    exact .within f rest hf (hs.trans h1) (hsp.trans h2) (ht.trans h3) (htp.trans h4)
  | skipping f rest hf h1 h2 h3 h4 =>
    exact .skipping f rest hf (hs.trans h1) (hsp.trans h2) (ht.trans h3) (htp.trans h4)

/-- A turn at the head of a message that is there. -/
theorem relayStep_head {t : Relay} {sockfd : ℤ} {f : Frame} {rest : List Frame}
    (hmem : sockfd ∈ t.net.recvsock) (hphase : t.phase sockfd = .head)
    (hpending : t.pending sockfd = stream (f :: rest)) :
    relayStep t (.turn sockfd) = some
      { net := (registHead (frameHead f) t.net).1
        pending := Function.update t.pending sockfd (f.bytes.drop 60 ++ stream rest)
        phase := Function.update t.phase sockfd (.body (frameHead f) (f.bytes.take 60))
        sent := t.sent } := by
  rw [stream_cons] at hpending
  have hlen : (60 : ℕ) ≤ (t.pending sockfd).length := by
    rw [hpending, List.length_append, length_take_frame]
    omega
  have htake : (t.pending sockfd).take 60 = f.bytes.take 60 := by
    rw [hpending, List.take_left' (length_take_frame f)]
  have hdrop : (t.pending sockfd).drop 60 = f.bytes.drop 60 ++ stream rest := by
    rw [hpending, List.drop_left' (length_take_frame f)]
  simp only [relayStep, hphase, Phase.size]
  rw [if_pos ⟨hmem, by decide, hlen⟩, htake, hdrop, handlerStep_head]
  change some (Relay.mk _ _ _ (t.sent ++ writes sockfd (registHead (frameHead f) t.net).2)) = _
  rw [writes_registHead, List.append_nil]

/-- A turn at the body of a message that is there. -/
theorem relayStep_body {t : Relay} {sockfd : ℤ} {f : Frame} {rest : List Frame}
    (hmem : sockfd ∈ t.net.recvsock)
    (hphase : t.phase sockfd = .body (frameHead f) (f.bytes.take 60))
    (hpending : t.pending sockfd = f.bytes.drop 60 ++ stream rest) :
    relayStep t (.turn sockfd) = some
      { net := t.net
        pending := Function.update t.pending sockfd (stream rest)
        phase := Function.update t.phase sockfd .head
        sent := t.sent ++ bodyWrites t.net sockfd f } := by
  have hlen : (40 : ℕ) ≤ (t.pending sockfd).length := by
    rw [hpending, List.length_append, length_drop_frame]
    omega
  have htake : (t.pending sockfd).take 40 = f.bytes.drop 60 := by
    rw [hpending, List.take_left' (length_drop_frame f)]
  have hdrop : (t.pending sockfd).drop 40 = stream rest := by
    rw [hpending, List.drop_left' (length_drop_frame f)]
  simp only [relayStep, hphase, Phase.size]
  rw [if_pos ⟨hmem, by decide, hlen⟩, htake, hdrop, handlerStep_body, writes_bodyOutput]

theorem mattering_cons_of_matters {processname : Bytes} {f : Frame} (rest : List Frame)
    (h : Matters processname f) :
    mattering processname (f :: rest) = f :: mattering processname rest :=
  List.filter_cons_of_pos (decide_eq_true h)

theorem mattering_cons_of_not {processname : Bytes} {f : Frame} (rest : List Frame)
    (h : ¬ Matters processname f) :
    mattering processname (f :: rest) = mattering processname rest :=
  List.filter_cons_of_neg (by simpa using h)

theorem relayStep_mem {s t : Relay} {sockfd : ℤ} (h : relayStep s (.turn sockfd) = some t) :
    sockfd ∈ s.net.recvsock := by
  simp only [relayStep] at h
  exact (Option.ite_none_right_eq_some.mp h).1.1

section Step

variable {processname : Bytes} {s t : Relay} (he : Erased processname s t)
include he

/-- What a step does to the connections it is not about. -/
theorem erased_update {s' t' : Relay} {d : ℤ} (hname : s'.net.processname = processname)
    (hnet : t'.net = s'.net) (hsent : t'.sent = s'.sent)
    (hs : ∀ x, x ≠ d → s'.phase x = s.phase x ∧ s'.pending x = s.pending x)
    (ht : ∀ x, x ≠ d → t'.phase x = t.phase x ∧ t'.pending x = t.pending x)
    (hd : ∃ left, ErasedAt processname s' t' d left) : Erased processname s' t' where
  name := hname
  net := hnet
  sent := hsent
  conn := by
    intro x
    by_cases hx : x = d
    · rw [hx]
      exact hd
    · obtain ⟨left, hleft⟩ := he.conn x
      exact ⟨left, erasedAt_congr (hs x hx).1 (hs x hx).2 (ht x hx).1 (ht x hx).2 hleft⟩

theorem erased_head {d : ℤ} {f : Frame} {rest : List Frame} (hmem : d ∈ s.net.recvsock)
    (hphase : s.phase d = .head) (hat : ErasedAt processname s t d (f :: rest)) :
    ∃ bs t', run relayStep t bs = some t' ∧ Erased processname
      { net := (registHead (frameHead f) s.net).1
        pending := Function.update s.pending d (f.bytes.drop 60 ++ stream rest)
        phase := Function.update s.phase d (.body (frameHead f) (f.bytes.take 60))
        sent := s.sent } t' := by
  have hname := (registHead_processname (frameHead f) s.net).trans he.name
  cases hat with
  | within _ _ _ hs _ _ _ =>
    rw [hphase] at hs
    cases hs
  | skipping _ _ _ hs _ _ _ =>
    rw [hphase] at hs
    cases hs
  | atHead _ _ _ ht htpending =>
    by_cases hf : Matters processname f
    · -- both read the head
      rw [mattering_cons_of_matters rest hf] at htpending
      refine ⟨[.turn d], _, (run_cons ..).trans (by
        rw [relayStep_head (he.net ▸ hmem) ht htpending]; rfl), ?_⟩
      refine erased_update he (d := d) hname (by rw [he.net]) he.sent ?_ ?_ ?_
      · exact fun x hx => ⟨Function.update_of_ne hx .., Function.update_of_ne hx ..⟩
      · exact fun x hx => ⟨Function.update_of_ne hx .., Function.update_of_ne hx ..⟩
      · exact ⟨f :: rest, .within f rest hf (Function.update_self ..) (Function.update_self ..)
          (Function.update_self ..) (Function.update_self ..)⟩
    · -- the other has no such message; it registers nothing
      rw [mattering_cons_of_not rest hf] at htpending
      have hreg : (frameHead f).mType ≠ regText := fun h => hf (Or.inl h)
      refine ⟨[], t, rfl, ?_⟩
      refine erased_update he (d := d) hname ?_ he.sent ?_ (fun _ _ => ⟨rfl, rfl⟩) ?_
      · rw [registHead_other s.net hreg]
        exact he.net
      · exact fun x hx => ⟨Function.update_of_ne hx .., Function.update_of_ne hx ..⟩
      · exact ⟨f :: rest, .skipping f rest hf (Function.update_self ..) (Function.update_self ..)
          ht htpending⟩

theorem erased_body {d : ℤ} {f : Frame} {rest : List Frame} (hmem : d ∈ s.net.recvsock)
    (hphase : s.phase d = .body (frameHead f) (f.bytes.take 60))
    (hat : ErasedAt processname s t d (f :: rest)) :
    ∃ bs t', run relayStep t bs = some t' ∧ Erased processname
      { net := s.net
        pending := Function.update s.pending d (stream rest)
        phase := Function.update s.phase d .head
        sent := s.sent ++ bodyWrites s.net d f } t' := by
  cases hat with
  | atHead _ hs _ _ _ =>
    rw [hphase] at hs
    cases hs
  | within _ _ _ _ _ ht htpending =>
    refine ⟨[.turn d], _, (run_cons ..).trans (by
      rw [relayStep_body (he.net ▸ hmem) ht htpending]; rfl), ?_⟩
    refine erased_update he (d := d) he.name he.net (by rw [he.sent, he.net]) ?_ ?_ ?_
    · exact fun x hx => ⟨Function.update_of_ne hx .., Function.update_of_ne hx ..⟩
    · exact fun x hx => ⟨Function.update_of_ne hx .., Function.update_of_ne hx ..⟩
    · exact ⟨rest, .atHead rest (Function.update_self ..) (Function.update_self ..)
        (Function.update_self ..) (Function.update_self ..)⟩
  | skipping _ _ hf _ _ ht htpending =>
    -- a message that does not matter is for the server and not sent on
    have hlocal : (frameHead f).toProcname = s.net.processname := by
      rw [he.name]
      by_contra hpeer
      exact hf (Or.inr hpeer)
    refine ⟨[], t, rfl, ?_⟩
    refine erased_update he (d := d) he.name he.net ?_ ?_ (fun _ _ => ⟨rfl, rfl⟩) ?_
    · rw [bodyWrites, if_pos hlocal, List.append_nil]
      exact he.sent
    · exact fun x hx => ⟨Function.update_of_ne hx .., Function.update_of_ne hx ..⟩
    · exact ⟨rest, .atHead rest (Function.update_self ..) (Function.update_self ..) ht htpending⟩

theorem erased_step {a : RelayStep} {s' : Relay} (h : relayStep s a = some s') :
    ∃ bs t', run relayStep t bs = some t' ∧ Erased processname s' t' := by
  choose left hleft using he.conn
  rcases relayStep_cases h left (fun d => erasedAt_connAt (hleft d)) with ⟨d, rfl, rfl⟩ |
    ⟨d, f, rest, rfl, hl, hphase, rfl⟩ | ⟨d, f, rest, rfl, hl, hphase, rfl⟩
  · have hnew : d ∉ t.net.recvsock := by
      rw [he.net]
      exact (Option.ite_none_left_eq_some.mp h).1
    refine ⟨[.accept d], { t with net := serverHandleaccept d t.net }, (run_cons ..).trans ?_,
      he.name, by rw [he.net], he.sent,
      fun x => ⟨left x, erasedAt_congr (s := s) (t := t) rfl rfl rfl rfl (hleft x)⟩⟩
    have haccept : relayStep t (.accept d) =
        some { t with net := serverHandleaccept d t.net } := if_neg hnew
    rw [haccept]
    rfl
  · exact erased_head he (relayStep_mem h) hphase (hl ▸ hleft d)
  · exact erased_body he (relayStep_mem h) hphase (hl ▸ hleft d)

end Step

/-- A run of the relay can be repeated without the messages that do not matter. -/
theorem run_erased {processname : Bytes} {input : ℤ → List Frame} {as : List RelayStep}
    {s : Relay} (h : run relayStep (relayStart processname input) as = some s) :
    ∃ bs t, run relayStep (relayStart processname fun d => mattering processname (input d)) bs =
      some t ∧ Erased processname s t := by
  have hstart : Erased processname (relayStart processname input)
      (relayStart processname fun d => mattering processname (input d)) :=
    ⟨rfl, rfl, rfl, fun d => ⟨input d, .atHead (input d) rfl rfl rfl rfl⟩⟩
  exact run_simulation relayStep relayStep (G := fun _ _ => True) (R := Erased processname)
    (fun u v a w he _ hw => erased_step he hw) hstart (fun _ _ => trivial) h

/-- The calls that the server named `server1` does more with than print their content. -/
def ClientCall.matters : ClientCall → Bool
  | .reg => true
  | .heartbeat => false
  | .dereg => false
  | .sendmsgTo _ toProcname => toProcname.text != server1Name.text

def Network.matteringOf (s : Network) (d : ℤ) : List Frame :=
  ((s.peer d).map fun p => (p.calls.filter ClientCall.matters).map (callFrame p.client)).getD []

theorem matters_callFrame (c : Client) (k : ClientCall) :
    Matters server1Name.text (callFrame c k) ↔ k.matters = true := by
  have htype : (frameHead (callFrame c k)).mType = k.message.mType := by
    rw [callFrame, frameHead_message]
    rfl
  rw [Matters, htype, callFrame_dest]
  cases k with
  | reg => exact iff_of_true (Or.inl rfl) rfl
  | heartbeat => exact iff_of_false (by decide) (by decide)
  | dereg => exact iff_of_false (by decide) (by decide)
  | sendmsgTo content toProcname =>
    have hnor : norText ≠ regText := by decide
    simp only [ClientCall.message, ClientCall.matters, hnor, false_or, bne_iff_ne]

theorem mattering_framesOf (s : Network) (d : ℤ) :
    mattering server1Name.text (s.framesOf d) = s.matteringOf d := by
  rw [Network.framesOf, Network.matteringOf]
  cases s.peer d with
  | none => rfl
  | some p =>
    rw [Option.map_some, Option.getD_some, Option.map_some, Option.getD_some, mattering,
      List.filter_map]
    refine congrArg (List.map (callFrame p.client)) (List.filter_congr fun k _ => ?_)
    rw [Bool.eq_iff_iff, Function.comp_apply, decide_eq_true_iff]
    exact matters_callFrame p.client k

end LearningDirectory
