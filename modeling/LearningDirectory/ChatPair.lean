import LearningDirectory.ChatReceiver

/-! The two chat clients and the two connections between them: what is printed at one end is
what was typed at the other. -/
namespace LearningDirectory
open StepRun

inductive Chatter
  | chatchit
  | chitchat
deriving DecidableEq

def Chatter.peer : Chatter → Chatter
  | .chatchit => .chitchat
  | .chitchat => .chatchit

structure ChatPair where
  client : Chatter → ChatClient
  receiver : Chatter → ChatReceiver := fun _ => {}
  /-- what has been sent to it and not yet received -/
  wire : Chatter → Bytes := fun _ => []

/-- A step of the main loop or a sending thread of one of them, or a `recv` of its receiving
thread that takes that many bytes. -/
inductive ChatPairStep
  | client (who : Chatter) (a : ChatStep)
  | recv (who : Chatter) (recvbytes : ℕ)
deriving DecidableEq

/-- What the step passes to `send`. -/
def ChatClient.sends (s : ChatClient) : ChatStep → Bytes
  | .send i =>
    match s.threads[i]? with
    | some (.copied content) => content
    | _ => []
  | _ => []

def chatPairStep (s : ChatPair) : ChatPairStep → Option ChatPair
  | .client who a =>
    (chatStep (s.client who) a).map fun c =>
      { s with
        client := Function.update s.client who c
        wire := Function.update s.wire who.peer (s.wire who.peer ++ (s.client who).sends a) }
  | .recv who recvbytes =>
    if 0 < recvbytes ∧ recvbytes ≤ recvbufSize ∧ recvbytes ≤ (s.wire who).length then
      (chatReceiveStep (s.receiver who) (some ((s.wire who).take recvbytes))).map fun r =>
        { s with
          receiver := Function.update s.receiver who r
          wire := Function.update s.wire who ((s.wire who).drop recvbytes) }
    else none

def chatPairStart (lines : Chatter → List Bytes) : ChatPair where
  client who := chatStart (lines who)

/-- No `recv` of that client fills its array. -/
def ShortRecv (who : Chatter) : ChatPairStep → Prop
  | .recv who' recvbytes => who' = who → recvbytes < recvbufSize
  | _ => True

instance decidableShortRecv (who : Chatter) : (a : ChatPairStep) → Decidable (ShortRecv who a)
  | .recv who' recvbytes => inferInstanceAs (Decidable (who' = who → recvbytes < recvbufSize))
  | .client _ _ => isTrue trivial

/-- At that client the lines come one by one. -/
def TypesOneByOne (who : Chatter) (s : ChatPair) : ChatPairStep → Prop
  | .client who' a => who' = who → OneByOne (s.client who) a
  | _ => True

instance decidableTypesOneByOne (who : Chatter) (s : ChatPair) :
    (a : ChatPairStep) → Decidable (TypesOneByOne who s a)
  | .client who' a => inferInstanceAs (Decidable (who' = who → OneByOne (s.client who) a))
  | .recv _ _ => isTrue trivial

theorem peer_ne (who : Chatter) : who.peer ≠ who := by
  cases who <;> decide

theorem peer_peer (who : Chatter) : who.peer.peer = who := by
  cases who <;> rfl

theorem eq_or_eq_peer (who who' : Chatter) : who' = who ∨ who' = who.peer := by
  cases who <;> cases who' <;> decide

theorem sent_flatten_step {s t : ChatClient} {a : ChatStep} (hs : chatStep s a = some t) :
    t.sent.flatten = s.sent.flatten ++ s.sends a := by
  cases a with
  | line =>
    obtain ⟨-, rfl⟩ := chatStep_line hs
    exact (List.append_nil _).symm
  | spawn =>
    obtain ⟨-, hs⟩ := Option.ite_none_right_eq_some.mp hs
    cases hs
    exact (List.append_nil _).symm
  | copy i =>
    obtain ⟨-, hs⟩ := Option.ite_none_right_eq_some.mp hs
    cases hs
    exact (List.append_nil _).symm
  | send i =>
    obtain ⟨content, hi, rfl⟩ := chatStep_send hs
    simp only [ChatClient.sends, hi, List.flatten_append, List.flatten_singleton]

/-- What a client has printed and what is still on its way to it are, in this order, what its
peer has sent. -/
structure Conveyed (who : Chatter) (s : ChatPair) : Prop where
  buf : (s.receiver who).buf = List.replicate recvbufSize 0
  clean : NulFree (s.client who.peer)
  printed : ∃ chunks : List Bytes, (s.receiver who).printed = chunks.map some ∧
    chunks.flatten ++ s.wire who = (s.client who.peer).sent.flatten

theorem conveyed_client {who who' : Chatter} {s : ChatPair} {a : ChatStep} {c : ChatClient}
    (h : Conveyed who s) (hc : chatStep (s.client who') a = some c) :
    Conveyed who
      { s with
        client := Function.update s.client who' c
        wire := Function.update s.wire who'.peer
          (s.wire who'.peer ++ (s.client who').sends a) } := by
  rcases eq_or_eq_peer who who' with rfl | rfl
  -- it has sent to its peer
  · refine ⟨h.buf, ?_, ?_⟩
    · dsimp only
      rw [Function.update_of_ne (peer_ne who')]
      exact h.clean
    · dsimp only
      rw [Function.update_of_ne (peer_ne who'), Function.update_of_ne (peer_ne who').symm]
      exact h.printed
  · obtain ⟨chunks, hprinted, hsent⟩ := h.printed
    rw [peer_peer]
    refine ⟨h.buf, ?_, chunks, hprinted, ?_⟩
    · dsimp only
      rw [Function.update_self]
      exact nulFree_step h.clean hc
    · dsimp only
      rw [Function.update_self, Function.update_self, ← List.append_assoc, hsent,
        sent_flatten_step hc]

theorem conveyed_recv {who who' : Chatter} {s t : ChatPair} {recvbytes : ℕ} (h : Conveyed who s)
    (ha : ShortRecv who (.recv who' recvbytes))
    (hs : chatPairStep s (.recv who' recvbytes) = some t) : Conveyed who t := by
  obtain ⟨⟨hpos, hle, hwire⟩, hs⟩ := Option.ite_none_right_eq_some.mp hs
  obtain ⟨r, hr, rfl⟩ := Option.map_eq_some_iff.mp hs
  by_cases he : who' = who
  · subst he
    obtain ⟨chunks, hprinted, hsent⟩ := h.printed
    let chunk := (s.wire who').take recvbytes
    have hlen : chunk.length = recvbytes := by
      rw [List.length_take, Nat.min_eq_left hwire]
    have hfits : 1 ≤ chunk.length ∧ chunk.length ≤ recvbufSize := by
      rw [hlen]
      exact ⟨hpos, hle⟩
    -- contents have no NUL, so neither have their pieces
    have hclean : 0 ∉ chunk := by
      intro hmem
      have hall : 0 ∈ (s.client who'.peer).sent.flatten := by
        rw [← hsent]
        exact List.mem_append_right _ (List.mem_of_mem_take hmem)
      obtain ⟨content, hcontent, hzero⟩ := List.mem_flatten.mp hall
      exact h.clean.sent content hcontent hzero
    have hout : coutBuf (chunk ++ List.replicate (recvbufSize - chunk.length) 0) = some chunk := by
      apply (coutBuf_fill hclean hfits.2).mpr
      rw [hlen]
      exact ha rfl
    rw [chatReceiveStep_chunk h.buf hfits.1 hfits.2, hout] at hr
    cases hr
    refine ⟨?_, h.clean, chunks ++ [chunk], ?_, ?_⟩
    · dsimp only
      rw [Function.update_self]
    · dsimp only
      rw [Function.update_self, hprinted, List.map_append]
      rfl
    · dsimp only
      rw [Function.update_self, List.flatten_append, List.flatten_singleton, List.append_assoc,
        List.take_append_drop]
      exact hsent
  · refine ⟨?_, h.clean, ?_⟩
    · dsimp only
      rw [Function.update_of_ne (Ne.symm he)]
      exact h.buf
    · dsimp only
      rw [Function.update_of_ne (Ne.symm he), Function.update_of_ne (Ne.symm he)]
      exact h.printed

theorem conveyed_step {who : Chatter} {s t : ChatPair} {a : ChatPairStep} (h : Conveyed who s)
    (ha : ShortRecv who a) (hs : chatPairStep s a = some t) : Conveyed who t := by
  cases a with
  | client who' a =>
    obtain ⟨c, hc, rfl⟩ := Option.map_eq_some_iff.mp hs
    exact conveyed_client h hc
  | recv who' recvbytes => exact conveyed_recv h ha hs

theorem typed_step {who : Chatter} {lines : List Bytes} {s t : ChatPair} {a : ChatPairStep}
    (h : ∃ handed, InOrder lines handed (s.client who)) (ha : TypesOneByOne who s a)
    (hs : chatPairStep s a = some t) : ∃ handed, InOrder lines handed (t.client who) := by
  cases a with
  | client who' a =>
    obtain ⟨c, hc, rfl⟩ := Option.map_eq_some_iff.mp hs
    by_cases he : who' = who
    · subst he
      dsimp only
      rw [Function.update_self]
      exact inOrder_step h (ha rfl) hc
    · dsimp only
      rw [Function.update_of_ne (Ne.symm he)]
      exact h
  | recv who' recvbytes =>
    obtain ⟨-, hs⟩ := Option.ite_none_right_eq_some.mp hs
    obtain ⟨r, -, rfl⟩ := Option.map_eq_some_iff.mp hs
    exact h

/-- No line of the peer fills its array. Whatever goes the other way meanwhile: a client whose
`recv`s do not fill its own prints what its peer sends, in order and without loss; and when at
the peer the lines come one by one, that is its lines, each up to a NUL and without the empty
ones, and all of them once everything is sent and received. -/
theorem chat_conveys (lines : Chatter → List Bytes) (who : Chatter)
    (hshort : ∀ line ∈ lines who.peer, line.length < sendbufSize) (as : List ChatPairStep)
    (s : ChatPair) (hr : run chatPairStep (chatPairStart lines) as = some s)
    (hg : ∀ a ∈ as, ShortRecv who a) :
    ∃ chunks : List Bytes, (s.receiver who).printed = chunks.map some ∧
      chunks.flatten ++ s.wire who = (s.client who.peer).sent.flatten ∧
      (Guarded chatPairStep (TypesOneByOne who.peer) (chatPairStart lines) as →
        (s.client who.peer).sent <+: handedOn (lines who.peer) ∧
        ((s.client who.peer).Finished → s.wire who = [] →
          chunks.flatten = (handedOn (lines who.peer)).flatten)) := by
  have hstart : Conveyed who (chatPairStart lines) :=
    ⟨rfl, nulFree_start (lines who.peer), [], rfl, rfl⟩
  have hconveyed : Conveyed who s :=
    run_rule chatPairStep (I := fun _ s => Conveyed who s) hstart
      (fun _ _ _ _ _ hi ha hs => conveyed_step hi ha hs) (guarded_of_forall chatPairStep hg) hr
  obtain ⟨chunks, hprinted, hsent⟩ := hconveyed.printed
  refine ⟨chunks, hprinted, hsent, fun htyped => ?_⟩
  obtain ⟨handed, horder⟩ : ∃ handed, InOrder (lines who.peer) handed (s.client who.peer) :=
    run_rule chatPairStep
      (I := fun _ s => ∃ handed, InOrder (lines who.peer) handed (s.client who.peer))
      ⟨[], inOrder_start hshort⟩ (fun _ _ _ _ _ hi ha hs => typed_step hi ha hs) htyped hr
  constructor
  · refine horder.sent.trans ?_
    rw [horder.all, List.append_assoc]
    exact List.prefix_append _ _
  · intro hend hempty
    rw [hempty, List.append_nil] at hsent
    rw [hsent, sent_of_finished horder hend]

/-- One client sends two lines; the other sends one meanwhile and receives both in one piece. -/
def crossedLines : List ChatPairStep :=
  [.client .chatchit .line, .client .chatchit .spawn, .client .chitchat .line,
    .client .chatchit (.copy 0), .client .chatchit (.send 0), .client .chitchat .spawn,
    .client .chatchit .line, .client .chatchit .spawn, .client .chatchit (.copy 1),
    .client .chitchat (.copy 0), .client .chatchit (.send 1), .recv .chitchat 6]

theorem crossed_lines_conveyed :
    ∃ s, run chatPairStep (chatPairStart fun _ => twoLines) crossedLines = some s ∧
      ∃ chunks : List Bytes, (s.receiver .chitchat).printed = chunks.map some ∧
        chunks.flatten = (handedOn twoLines).flatten := by
  have hrun : ∃ s ∈ run chatPairStep (chatPairStart fun _ => twoLines) crossedLines,
      (s.client .chatchit).cin.lines = [] ∧ (s.client .chatchit).stored = false ∧
      (∀ t ∈ (s.client .chatchit).threads, t = .done) ∧ s.wire .chitchat = [] := by decide
  obtain ⟨s, hs, hread, hspawned, hdone, hempty⟩ := hrun
  obtain ⟨chunks, hprinted, -, htyped⟩ :=
    chat_conveys (fun _ => twoLines) .chitchat (by decide) crossedLines s hs (by decide)
  exact ⟨s, hs, chunks, hprinted, (htyped (by decide)).2 ⟨hread, hspawned, hdone⟩ hempty⟩

end LearningDirectory
