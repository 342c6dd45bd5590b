import LearningDirectory.NetapiOrder
import Mathlib.Algebra.Order.BigOperators.Group.List

/-! What becomes of the messages of the clients: each is printed or sent on once and in turn,
what is sent on goes to the process it names, and nothing is left over in the end. -/
namespace LearningDirectory
open StepRun PaddedField

/-- What the relay branch has sent to `d`. -/
def Network.receivedBy (s : Network) (d : ℤ) : Bytes :=
  s.sent.flatMap fun w => if w.dest = d then w.buf else []

theorem writes_of_handler (d x : ℤ) (o : Output) :
    ((writes d [o]).filter fun w => w.handler = x).map Write.buf =
      if d = x then transmitted [o] else [] := by
  cases o with
  | trans dest buf =>
    by_cases h : d = x
    · simp only [writes, List.filterMap_cons, List.filterMap_nil, h, decide_true,
        List.filter_cons_of_pos, List.filter_nil, List.map_cons, List.map_nil, transmitted,
        ↓reduceIte]
    · simp only [writes, List.filterMap_cons, List.filterMap_nil, h, decide_false,
        Bool.false_eq_true, not_false_eq_true, List.filter_cons_of_neg, List.filter_nil,
        List.map_nil, ↓reduceIte]
  | _ => exact (ite_self _).symm

theorem sent_of_handler (s : Network) (x : ℤ) :
    (s.sent.filter fun w => w.handler = x).map Write.buf = transmitted (s.outOf x) := by
  rw [Network.sent, Network.outOf]
  induction s.log with
  | nil => rfl
  | cons e log ih =>
    rw [List.flatMap_cons, List.filter_append, List.map_append, ih, writes_of_handler,
      List.filterMap_cons]
    split_ifs
    · exact (transmitted_append [e.2] _).symm
    · rfl

theorem mem_transmitted {s : Network} {w : Write} (hw : w ∈ s.sent) :
    w.buf ∈ transmitted (s.outOf w.handler) := by
  rw [← sent_of_handler]
  exact List.mem_map_of_mem (List.mem_filter.mpr ⟨hw, by simp⟩)

theorem passedOn_prefix (processname : Bytes) (c : Client) (done left : List ClientCall) :
    passedOn processname c done <+: passedOn processname c (done ++ left) := by
  rw [passedOn, passedOn, List.filterMap_append]
  exact List.prefix_append _ _

def client2Name : ProcName :=
  ⟨ascii ['c', 'l', 'i', 'e', 'n', 't', '2'], by decide, by decide⟩

def client1 : Client := ⟨client1Name, ipText 127 0 0 1, 50000, five_digits_50000⟩
def client2 : Client := ⟨client2Name, ipText 127 0 0 1, 50001, by decide⟩

def helloCall : ClientCall :=
  .sendmsgTo ⟨ascii ['h', 'e', 'l', 'l', 'o'], by decide, by decide⟩ client1Name

def readSteps (i : ℕ) (c : Client) (k : ClientCall) : List NetworkStep :=
  [.recv i ((callFrame c k).bytes.take 60), .recv i ((callFrame c k).bytes.drop 60)]

/-- A client connects and registers. -/
def joinSteps (d : ℤ) (i : ℕ) (c : Client) : List NetworkStep :=
  [.connect d c, .call d .reg, .accept d, .start] ++ readSteps i c .reg

/-- Two clients join, and a heartbeat and a message for the first one leave the second. -/
def sayHello : List NetworkStep :=
  joinSteps 4 0 client1 ++ joinSteps 5 1 client2 ++ [.call 5 .heartbeat, .call 5 helloCall]

def readHello : List NetworkStep :=
  readSteps 1 client2 .heartbeat ++ readSteps 1 client2 helloCall ++ [.exit 5, .recv 1 []]

theorem hello_steady : Guarded networkStep Steady (networkStart server1.processname)
    (sayHello ++ readHello) := by decide +kernel

theorem hello_received :
    (run networkStep (networkStart server1.processname) (sayHello ++ readHello)).map
      (fun s => s.receivedBy 4) = some (callFrame client2 helloCall).bytes := by decide +kernel

/-- A new name is registered by the handler of the connection accepted last. -/
def RegistersLast (s : Network) : NetworkStep → Prop
  | .recv i bytes => ∀ x ∈ s.server.handlers[i]?, x.2 = .head →
      (chunkHead bytes).mType = regText → (chunkHead bytes).procname ∉ s.server.net.regtable →
        s.server.net.back = some x.1
  | _ => True

instance decidableRegistersLast (s : Network) : (a : NetworkStep) → Decidable (RegistersLast s a)
  | .connect _ _ => isTrue trivial
  | .call _ _ => isTrue trivial
  | .exit _ => isTrue trivial
  | .accept _ => isTrue trivial
  | .start => isTrue trivial
  | .recv i bytes => inferInstanceAs (Decidable (∀ x ∈ s.server.handlers[i]?, x.2 = .head →
      (chunkHead bytes).mType = regText → (chunkHead bytes).procname ∉ s.server.net.regtable →
        s.server.net.back = some x.1))
  | .recvError _ => isTrue trivial

/-- The client at `d` is the process that the call is for. -/
def AddressedTo (s : Network) (d : ℤ) (k : ClientCall) : Prop :=
  ∃ q, s.peer d = some q ∧ q.client.processname.text = k.message.toProcname.text

/-- Each name in the table is bound to the client of that name, and what was sent on went to
the process it was for, or to 0 for want of an entry. -/
structure Addressed (s : Network) : Prop where
  entries : ∀ name d, s.server.net.regtable.lookup name = some d →
    ∃ q, s.peer d = some q ∧ q.client.processname.text = name
  sent : ∀ w ∈ s.sent, ∃ p k, s.peer w.handler = some p ∧ k ∈ p.calls ∧
    w.buf = (callFrame p.client k).bytes ∧ (w.dest = 0 ∨ AddressedTo s w.dest k)

/-- A message of the handler's client, sent on to the process that it names, or to 0 when that
has no entry. -/
def SentOn (s : Network) (w : Write) : Prop :=
  ∃ p k, s.peer w.handler = some p ∧ k ∈ p.calls ∧ w.buf = (callFrame p.client k).bytes ∧
    match s.server.net.regtable.lookup k.message.toProcname.text with
    | none => w.dest = 0
    | some d => w.dest = d ∧ AddressedTo s d k

/-- Clients stay what they are and only add to their calls. -/
def Grows (s t : Network) : Prop :=
  ∀ d p, s.peer d = some p → ∃ q, t.peer d = some q ∧ q.client = p.client ∧ p.calls <+: q.calls

theorem grows_update {s t : Network} {d : ℤ} {p q : Peer} (hp : s.peer d = some p)
    (ht : t.peer = Function.update s.peer d (some q)) (hclient : q.client = p.client)
    (hcalls : p.calls <+: q.calls) : Grows s t := by
  intro x p' hp'
  rw [ht]
  by_cases h : x = d
  · subst h
    obtain rfl := Option.some.inj (hp.symm.trans hp')
    exact ⟨q, Function.update_self .., hclient, hcalls⟩
  · exact ⟨p', (Function.update_of_ne h ..).trans hp', rfl, List.prefix_refl _⟩

theorem grows_step {processname : Bytes} {s t : Network} {a : NetworkStep}
    (hi : NetInOrder processname s) (hg : Steady s a) (h : networkStep s a = some t) :
    Grows s t := by
  have hsame (u : Network) (hu : u.peer = s.peer) : Grows s u :=
    fun d p hp => ⟨p, by rw [hu]; exact hp, rfl, List.prefix_refl _⟩
  rcases networkStep_cases hi hg h with ⟨d, c, -, hnew, rfl⟩ | ⟨d, k, p, -, hp, -, rfl⟩ |
    ⟨d, p, -, hp, rfl⟩ | ⟨d, -, -, -, -, rfl⟩ | ⟨k, d, -, -, -, rfl⟩ | ⟨-, -, -, -, -, -, -, rfl⟩ |
    ⟨i, bytes, d, ph, p, turn, done, k, rest, -, -, hp, -, -, rfl⟩
  · intro x p hp
    have hx : x ≠ d := by
      rintro rfl
      rw [hnew] at hp
      cases hp
    exact ⟨p, (Function.update_of_ne hx ..).trans hp, rfl, List.prefix_refl _⟩
  · exact grows_update hp rfl rfl (List.prefix_append _ _)
  · exact grows_update hp rfl rfl (List.prefix_refl _)
  · exact hsame _ rfl
  · exact hsame _ rfl
  · exact hsame _ rfl
  · exact grows_update hp rfl rfl (List.prefix_refl _)

theorem named_grows {s t : Network} (hgrow : Grows s t) {d : ℤ} {name : Bytes}
    (h : ∃ q, s.peer d = some q ∧ q.client.processname.text = name) :
    ∃ q, t.peer d = some q ∧ q.client.processname.text = name := by
  obtain ⟨q, hq, hname⟩ := h
  obtain ⟨q', hq', hclient, -⟩ := hgrow d q hq
  exact ⟨q', hq', by rw [hclient]; exact hname⟩

theorem addressed_grows {s t : Network} (ha : Addressed s) (hgrow : Grows s t)
    (htable : t.server.net.regtable = s.server.net.regtable) (hsent : t.sent = s.sent) :
    Addressed t where
  entries := by
    intro name d hl
    rw [htable] at hl
    exact named_grows hgrow (ha.entries name d hl)
  sent := by
    intro w hw
    rw [hsent] at hw
    obtain ⟨p, k, hp, hk, hbuf, hdest⟩ := ha.sent w hw
    obtain ⟨p', hp', hclient, hcalls⟩ := hgrow _ p hp
    refine ⟨p', k, hp', hcalls.subset hk, by rw [hclient]; exact hbuf, ?_⟩
    exact hdest.imp_right (named_grows hgrow)

theorem writes_append (d : ℤ) (xs ys : List Output) :
    writes d (xs ++ ys) = writes d xs ++ writes d ys := List.filterMap_append

theorem sent_afterRecv (s : Network) (i : ℕ) (d : ℤ) (p : Peer) (bytes : Bytes) (t : Turn) :
    (s.afterRecv i d p bytes t).sent = s.sent ++ writes d t.out := by
  have hnew (out : List Output) :
      (out.map fun o => (d, o)).flatMap (fun e => writes e.1 [e.2]) = writes d out := by
    induction out with
    | nil => rfl
    | cons o out ih =>
      rw [List.map_cons, List.flatMap_cons, ih]
      exact (writes_append d [o] out).symm
  rw [Network.sent, Network.afterRecv, List.flatMap_append, hnew]
  rfl

theorem writes_readsFrame {n : Netapi} {f : Frame} {ph : Phase} {bytes : Bytes} {turn : Turn}
    (h : ReadsFrame n f ph bytes turn) (d : ℤ) :
    writes d turn.out = if ph.isBody then bodyWrites n d f else [] := by
  cases h with
  | head => exact writes_registHead d (frameHead f) n
  | body => exact writes_bodyOutput n d f

/-- An entry is an old one, or the one that a `reg` head has just made. -/
theorem lookup_registHead {h : Head} {n : Netapi} {name : Bytes} {d : ℤ}
    (hl : (registHead h n).1.regtable.lookup name = some d) :
    n.regtable.lookup name = some d ∨
      h.mType = regText ∧ name = h.procname ∧ h.procname ∉ n.regtable ∧ n.back = some d := by
  by_cases hm : h.mType = regText
  · cases hb : n.back with
    | none =>
      rw [registHead, if_pos hm, hb] at hl
      exact Or.inl hl
    | some b =>
      rw [registHead_reg hm hb, lookup_regist] at hl
      split at hl
      · rename_i hnew
        exact Or.inr ⟨hm, hnew.1, hnew.2, hl⟩
      · exact Or.inl hl
  · rw [registHead_other n hm] at hl
    exact Or.inl hl

theorem callFrame_procname (c : Client) (k : ClientCall) :
    (frameHead (callFrame c k)).procname = c.processname.text := by
  rw [callFrame, frameHead_message]
  rfl

theorem lookup_readsFrame {n : Netapi} {f : Frame} {ph : Phase} {bytes : Bytes} {turn : Turn}
    (h : ReadsFrame n f ph bytes turn) {name : Bytes} {d : ℤ}
    (hl : turn.net.regtable.lookup name = some d) :
    n.regtable.lookup name = some d ∨
      ph = .head ∧ (chunkHead bytes).mType = regText ∧ (chunkHead bytes).procname = name ∧
        (chunkHead bytes).procname ∉ n.regtable ∧ n.back = some d ∧
        (frameHead f).procname = name := by
  cases h with
  | head =>
    rcases lookup_registHead hl with hold | ⟨hm, rfl, hnew, hb⟩
    · exact Or.inl hold
    · rw [chunkHead_frame]
      exact Or.inr ⟨rfl, hm, rfl, hnew, hb, rfl⟩
  | body => exact Or.inl hl

theorem mem_bodyWrites {n : Netapi} {d : ℤ} {f : Frame} {w : Write}
    (h : w ∈ bodyWrites n d f) : w.handler = d ∧ w.buf = f.bytes ∧
      w.dest = (n.regtable.lookup (frameHead f).toProcname).getD 0 := by
  unfold bodyWrites at h
  split at h
  · cases h
  · obtain rfl := List.mem_singleton.mp h
    exact ⟨rfl, rfl, transSock_eq_lookup _ _⟩

/-- With the table of that moment. -/
theorem sentOn_readsFrame {processname : Bytes} {s : Network} {d : ℤ} {ph : Phase} {p : Peer}
    {bytes : Bytes} {turn : Turn} {done rest : List ClientCall} {k : ClientCall}
    (ha : Addressed s) (hp : s.peer d = some p)
    (hacc : CallsAccounted processname p ph (s.outOf d) done (k :: rest))
    (hr : ReadsFrame s.server.net (callFrame p.client k) ph bytes turn) {w : Write}
    (hw : w ∈ writes d turn.out) : SentOn s w := by
  rw [writes_readsFrame hr] at hw
  split at hw
  · obtain ⟨rfl, hbuf, hdest⟩ := mem_bodyWrites hw
    rw [callFrame_dest] at hdest
    have hk : k ∈ p.calls := by
      rw [hacc.calls]
      exact List.mem_append_right _ (List.mem_cons_self ..)
    refine ⟨p, k, hp, hk, hbuf, ?_⟩
    cases hl : s.server.net.regtable.lookup k.message.toProcname.text with
    | none =>
      rw [hl] at hdest
      exact hdest
    | some x =>
      rw [hl] at hdest
      exact ⟨hdest, ha.entries _ x hl⟩
  · cases hw

/-- Nothing of it changes later. -/
theorem sentOn_grows {s t : Network} {w : Write} (hw : SentOn s w) (hgrow : Grows s t) :
    ∃ p k, t.peer w.handler = some p ∧ k ∈ p.calls ∧ w.buf = (callFrame p.client k).bytes ∧
      (w.dest = 0 ∨ AddressedTo t w.dest k) := by
  obtain ⟨p, k, hp, hk, hbuf, hdest⟩ := hw
  obtain ⟨p', hp', hclient, hcalls⟩ := hgrow _ p hp
  refine ⟨p', k, hp', hcalls.subset hk, by rw [hclient]; exact hbuf, ?_⟩
  split at hdest
  · exact Or.inl hdest
  · obtain ⟨rfl, haddressed⟩ := hdest
    exact Or.inr (named_grows hgrow haddressed)

theorem addressed_recv {processname : Bytes} {s : Network} {i : ℕ} {d : ℤ} {ph : Phase}
    {p : Peer} {bytes : Bytes} {turn : Turn} {done rest : List ClientCall} {k : ClientCall}
    (ha : Addressed s) (hlast : RegistersLast s (.recv i bytes))
    (hh : s.server.handlers[i]? = some (d, ph)) (hp : s.peer d = some p)
    (hacc : CallsAccounted processname p ph (s.outOf d) done (k :: rest))
    (hr : ReadsFrame s.server.net (callFrame p.client k) ph bytes turn) :
    Addressed (s.afterRecv i d p bytes turn) := by
  have hgrow : Grows s (s.afterRecv i d p bytes turn) :=
    grows_update hp rfl rfl (List.prefix_refl _)
  have hold : Addressed { s.afterRecv i d p bytes turn with
      server := { (s.afterRecv i d p bytes turn).server with net := s.server.net }
      log := s.log } :=
    addressed_grows ha hgrow rfl rfl
  constructor
  · intro name x hl
    rcases lookup_readsFrame hr hl with hbefore | ⟨rfl, hm, rfl, hnew, hb, hname⟩
    · exact hold.entries name x hbefore
    · -- the new entry is the descriptor of the handler that read it
      have hx := hlast (d, .head) hh rfl hm hnew
      obtain rfl : x = d := Option.some.inj (hb.symm.trans hx)
      refine ⟨p.read bytes, Function.update_self .., ?_⟩
      rw [Peer.read_client, ← hname, callFrame_procname]
  · intro w hw
    rw [sent_afterRecv, List.mem_append] at hw
    rcases hw with hbefore | hnow
    · exact hold.sent w hbefore
    · exact sentOn_grows (sentOn_readsFrame ha hp hacc hr hnow) hgrow

theorem addressed_step {processname : Bytes} {s t : Network} {a : NetworkStep}
    (hi : NetInOrder processname s) (ha : Addressed s) (hg : Steady s a) (hlast : RegistersLast s a)
    (h : networkStep s a = some t) : Addressed t := by
  have hgrow := grows_step hi hg h
  rcases networkStep_cases hi hg h with ⟨d, c, -, -, rfl⟩ | ⟨d, k, p, -, -, -, rfl⟩ |
    ⟨d, p, -, -, rfl⟩ | ⟨d, -, -, -, -, rfl⟩ | ⟨k, d, -, -, -, rfl⟩ | ⟨-, -, -, -, -, -, -, rfl⟩ |
    ⟨i, bytes, d, ph, p, turn, done, k, rest, rfl, hh, hp, hacc, hr, rfl⟩
  · exact addressed_grows ha hgrow rfl rfl
  · exact addressed_grows ha hgrow rfl rfl
  · exact addressed_grows ha hgrow rfl rfl
  · exact addressed_grows ha hgrow rfl rfl
  · exact addressed_grows ha hgrow rfl rfl
  · exact ha
  · exact addressed_recv ha hlast hh hp hacc hr

/-- What a step sends on goes where the table says at that moment. -/
theorem sentOn_step {processname : Bytes} {s t : Network} {a : NetworkStep}
    (hi : NetInOrder processname s) (ha : Addressed s) (hg : Steady s a)
    (h : networkStep s a = some t) :
    ∃ new, t.sent = s.sent ++ new ∧ ∀ w ∈ new, SentOn s w := by
  have hsame (u : Network) (hu : u.log = s.log) :
      ∃ new, u.sent = s.sent ++ new ∧ ∀ w ∈ new, SentOn s w :=
    ⟨[], by rw [Network.sent, hu, Network.sent, List.append_nil], fun _ hw => nomatch hw⟩
  rcases networkStep_cases hi hg h with ⟨d, c, -, -, rfl⟩ | ⟨d, k, p, -, -, -, rfl⟩ |
    ⟨d, p, -, -, rfl⟩ | ⟨d, -, -, -, -, rfl⟩ | ⟨k, d, -, -, -, rfl⟩ | ⟨-, -, -, -, -, -, -, rfl⟩ |
    ⟨i, bytes, d, ph, p, turn, done, k, rest, -, -, hp, hacc, hr, rfl⟩
  · exact hsame _ rfl
  · exact hsame _ rfl
  · exact hsame _ rfl
  · exact hsame _ rfl
  · exact hsame _ rfl
  · exact hsame _ rfl
  · exact ⟨writes d turn.out, sent_afterRecv .., fun w hw => sentOn_readsFrame ha hp hacc hr hw⟩

/-- The body of the message for the first client is still to be read. -/
def helloInHand : List NetworkStep :=
  sayHello ++ readSteps 1 client2 .heartbeat ++
    [.recv 1 ((callFrame client2 helloCall).bytes.take 60)]

/-- A handler reads some bytes. -/
def NetworkStep.isRead : NetworkStep → Prop
  | .recv _ bytes => bytes ≠ []
  | _ => False

instance decidableIsRead : (a : NetworkStep) → Decidable a.isRead
  | .recv _ bytes => inferInstanceAs (Decidable (bytes ≠ []))
  | .connect _ _ => isFalse id
  | .call _ _ => isFalse id
  | .exit _ => isFalse id
  | .accept _ => isFalse id
  | .start => isFalse id
  | .recvError _ => isFalse id

/-- The descriptor that the next body goes to, when it is one for another process. -/
def Phase.relaysTo (n : Netapi) : Phase → Option ℤ
  | .body h _ =>
    if h.toProcname = n.processname then none
    else some (transSock h.toProcname n.regtable.entries)
  | _ => none

section
variable (room : Network → ℤ → Bool)

/-- A `send` to `d` comes back. The second one to a process that has exited ends the server with
SIGPIPE, and one to a socket without room waits; `room` says when there is some. A descriptor
that is no client's gives -1, and the handler goes on. -/
def SendReturns (s : Network) (d : ℤ) : Prop :=
  ∀ q ∈ s.peer d, q.exited = false ∧ room s d = true

instance (s : Network) (d : ℤ) : Decidable (SendReturns room s d) :=
  inferInstanceAs (Decidable (∀ q ∈ s.peer d, q.exited = false ∧ room s d = true))

/-- Each message is sent on only when that `send` comes back. -/
def RelaysThrough (s : Network) : NetworkStep → Prop
  | .recv i bytes => bytes ≠ [] → ∀ x ∈ s.server.handlers[i]?,
      ∀ d ∈ x.2.relaysTo s.server.net, SendReturns room s d
  | _ => True

instance decidableRelaysThrough (s : Network) :
    (a : NetworkStep) → Decidable (RelaysThrough room s a)
  | .recv i bytes => inferInstanceAs (Decidable (bytes ≠ [] → ∀ x ∈ s.server.handlers[i]?,
      ∀ d ∈ x.2.relaysTo s.server.net, SendReturns room s d))
  | .connect _ _ | .call _ _ | .exit _ | .accept _ | .start | .recvError _ => isTrue trivial

/-- The handler of `d` has a message in hand for a process that has exited or that has no room
for it. -/
def HeldUp (s : Network) (d : ℤ) : Prop :=
  ∃ x ∈ (s.server.phaseAt d).relaysTo s.server.net, ¬ SendReturns room s x

end

/-- The full reads of the handlers, without one whose message would be held up. -/
def FullRead (room : Network → ℤ → Bool) (s : Network) (a : NetworkStep) : Prop :=
  Steady s a ∧ RelaysThrough room s a ∧ a.isRead

instance (room : Network → ℤ → Bool) (s : Network) (a : NetworkStep) :
    Decidable (FullRead room s a) := inferInstanceAs (Decidable (_ ∧ _ ∧ _))

def Network.unreadAt (s : Network) (d : ℤ) : ℕ := ((s.peer d).map fun p => p.wire.length).getD 0

/-- The bytes that are still to be read by the handlers. -/
def Network.unread (s : Network) : ℕ := (s.server.handoff.serving.map s.unreadAt).sum

theorem fullRead_cases {room : Network → ℤ → Bool} {processname : Bytes} {s t : Network}
    {a : NetworkStep} (hi : NetInOrder processname s) (hg : FullRead room s a)
    (h : networkStep s a = some t) :
    ∃ i bytes d ph p turn done k rest, a = .recv i bytes ∧
      s.server.handlers[i]? = some (d, ph) ∧ s.peer d = some p ∧
      CallsAccounted processname p ph (s.outOf d) done (k :: rest) ∧
      ReadsFrame s.server.net (callFrame p.client k) ph bytes turn ∧
      t = s.afterRecv i d p bytes turn := by
  obtain ⟨hsteady, -, hread⟩ := hg
  rcases networkStep_cases hi hsteady h with ⟨d, c, rfl, -, -⟩ | ⟨d, k, p, rfl, -, -, -⟩ |
    ⟨d, p, rfl, -, -⟩ | ⟨d, rfl, -, -, -, -⟩ | ⟨k, d, rfl, -, -, -⟩ | ⟨i, d, p, rfl, -, -, -, -⟩ |
    hrecv
  · exact absurd hread id
  · exact absurd hread id
  · exact absurd hread id
  · exact absurd hread id
  · exact absurd hread id
  · exact absurd rfl hread
  · exact hrecv

theorem serving_afterRecv {s : Network} {i : ℕ} {d : ℤ} {ph : Phase}
    (hh : s.server.handlers[i]? = some (d, ph)) (p : Peer) (bytes : Bytes) (turn : Turn) :
    (s.afterRecv i d p bytes turn).server.handoff.serving = s.server.handoff.serving :=
  serving_afterTurn hh turn

theorem readsFrame_bytes {n : Netapi} {wire : Bytes} {f : Frame} {rest : List Frame}
    {ph : Phase} {bytes : Bytes} {turn : Turn} (hat : HandlerAt wire ph (f :: rest))
    (h : ReadsFrame n f ph bytes turn) : bytes ≠ [] ∧ bytes.length ≤ wire.length := by
  cases h with
  | head =>
    cases hat with
    | atHead _ hwire =>
      refine ⟨take_frame_ne_nil f, ?_⟩
      rw [hwire, stream_cons, List.length_append]
      exact Nat.le_add_right _ _
  | body =>
    refine ⟨drop_frame_ne_nil f, ?_⟩
    rw [handlerAt_body hat, List.length_append]
    exact Nat.le_add_right _ _

/-- A full read leaves less to be read. -/
theorem unread_afterRecv {processname : Bytes} {s : Network} {i : ℕ} {d : ℤ} {ph : Phase}
    {p : Peer} {bytes : Bytes} {turn : Turn} {done rest : List ClientCall} {k : ClientCall}
    (hh : s.server.handlers[i]? = some (d, ph)) (hp : s.peer d = some p)
    (hacc : CallsAccounted processname p ph (s.outOf d) done (k :: rest))
    (hr : ReadsFrame s.server.net (callFrame p.client k) ph bytes turn) :
    (s.afterRecv i d p bytes turn).unread < s.unread := by
  have hat : HandlerAt p.wire ph (callFrame p.client k :: rest.map (callFrame p.client)) :=
    hacc.position
  obtain ⟨hne, hle⟩ := readsFrame_bytes hat hr
  have hpos : 0 < bytes.length := List.length_pos_iff.mpr hne
  have hself : (s.afterRecv i d p bytes turn).unreadAt d = p.wire.length - bytes.length := by
    rw [Network.unreadAt, Network.afterRecv_peer, Function.update_self, Option.map_some,
      Option.getD_some, Peer.read, List.length_drop]
  have hbefore : s.unreadAt d = p.wire.length := by
    rw [Network.unreadAt, hp, Option.map_some, Option.getD_some]
  have hother (x : ℤ) (hx : x ≠ d) : (s.afterRecv i d p bytes turn).unreadAt x = s.unreadAt x := by
    rw [Network.unreadAt, Network.afterRecv_peer, Function.update_of_ne hx, Network.unreadAt]
  rw [Network.unread, Network.unread, serving_afterRecv hh]
  apply List.sum_lt_sum
  · intro x _
    by_cases hx : x = d
    · subst hx
      omega
    · exact (hother x hx).le
  · refine ⟨d, List.mem_map.mpr ⟨(d, ph), List.mem_of_getElem? hh, rfl⟩, ?_⟩
    omega

theorem unread_fullRead {room : Network → ℤ → Bool} {processname : Bytes} {s t : Network}
    {a : NetworkStep} (hi : NetInOrder processname s) (ha : FullRead room s a)
    (h : networkStep s a = some t) : t.unread < s.unread := by
  obtain ⟨i, bytes, d, ph, p, turn, done, k, rest, -, hh, hp, hacc, hr, rfl⟩ :=
    fullRead_cases hi ha h
  exact unread_afterRecv hh hp hacc hr

theorem handlerAt_nil {wire : Bytes} {ph : Phase} (h : HandlerAt wire ph []) : wire = [] := by
  cases h with
  | atHead _ hwire => exact hwire

theorem handlerAt_full {wire : Bytes} {ph : Phase} {left : List Frame}
    (h : HandlerAt wire ph left) (hne : left ≠ []) : 0 < ph.size ∧ ph.size ≤ wire.length := by
  cases h with
  | atHead _ hwire =>
    obtain ⟨f, rest, rfl⟩ := List.exists_cons_of_ne_nil hne
    rw [hwire, stream_cons, List.length_append, length_take_frame, Phase.size]
    omega
  | atBody f rest hwire =>
    rw [hwire, List.length_append, length_drop_frame, Phase.size]
    omega

theorem networkStep_recv {s : Network} (hlive : s.server.exited = false) {i : ℕ} {d : ℤ}
    {ph : Phase} {p : Peer} {bytes : Bytes} (hh : s.server.handlers[i]? = some (d, ph))
    (hp : s.peer d = some p) (hpre : bytes <+: p.wire) (hne : bytes ≠ [])
    (hsize : bytes.length = ph.size) :
    networkStep s (.recv i bytes) =
      some (s.afterRecv i d p bytes (handlerStep s.server.net ph (.data bytes))) := by
  have hturn : s.server.turn i (.data bytes) =
      some (d, handlerStep s.server.net ph (.data bytes)) := by
    rw [ServerThreads.turn, hh]
    exact if_pos hsize.le
  have hoffers : p.Offers bytes := ⟨hpre, fun h => absurd h hne⟩
  simp only [networkStep, hturn, hp]
  exact if_pos ⟨hlive, hoffers⟩

/-- A handler whose client has a message left can make a full read, unless it is held up. -/
theorem fullRead_enabled {room : Network → ℤ → Bool} {processname : Bytes} {s : Network}
    (hi : NetInOrder processname s) {d : ℤ} (hd : d ∈ s.server.handoff.serving) {p : Peer}
    (hp : s.peer d = some p) {out : List Output} {done left : List ClientCall}
    (hacc : CallsAccounted processname p (s.server.phaseAt d) out done left) (hne : left ≠ [])
    (hfree : ¬ HeldUp room s d) :
    ∃ a t, FullRead room s a ∧ networkStep s a = some t := by
  obtain ⟨⟨d', ph⟩, hmem, rfl⟩ := List.mem_map.mp hd
  obtain ⟨i, hh⟩ := List.mem_iff_getElem?.mp hmem
  have hat := hacc.position
  have hphase : s.server.phaseAt d' = ph := phaseAt_handler hi.serving_nodup hh
  rw [hphase] at hat
  obtain ⟨hpos, hle⟩ := handlerAt_full hat (by simpa using hne)
  have hlen : (p.wire.take ph.size).length = ph.size := by
    rw [List.length_take]
    exact Nat.min_eq_left hle
  have hbytes : p.wire.take ph.size ≠ [] :=
    List.ne_nil_of_length_pos (by rw [hlen]; exact hpos)
  have hthrough : RelaysThrough room s (.recv i (p.wire.take ph.size)) := by
    intro _ x hx e he
    obtain rfl : (d', ph) = x := Option.some.inj (hh.symm.trans hx)
    by_contra hno
    exact hfree ⟨e, by rw [hphase]; exact he, hno⟩
  refine ⟨.recv i (p.wire.take ph.size), _, ⟨Or.inr ?_, hthrough, hbytes⟩,
    networkStep_recv hi.live hh hp (List.take_prefix _ _) hbytes hlen⟩
  rw [hh, hlen]
  rfl

/-- Every message of `p` has been printed or sent on. -/
structure AllDone (processname : Bytes) (s : Network) (d : ℤ) (p : Peer) : Prop where
  wire : p.wire = []
  contents : contents (s.outOf d) = printedOf processname p.calls
  sends : transmitted (s.outOf d) = passedOn processname p.client p.calls

def helloReads : List NetworkStep :=
  readSteps 1 client2 .heartbeat ++ readSteps 1 client2 helloCall

end LearningDirectory
