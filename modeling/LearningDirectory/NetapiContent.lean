import LearningDirectory.NetapiRoundTrip
import LearningDirectory.NetapiStream

/-! `client_sendmsg_to` as the server's handler loop sees it. `body_padding` never cuts,
so what a long content leaves beyond byte 40 is read as further messages. -/
namespace LearningDirectory
open PaddedField AlternatingReads

/-- The table and the relay descriptors after messages with these heads, each sent on or not. -/
def effect (n : Netapi) : List (Head × Bool) → RegTable × List ℤ
  | [] => (n.regtable, [])
  | (h, sent) :: ms =>
    let n' := (registHead h n).1
    let r := effect n' ms
    (r.1, if sent then transSock h.toProcname n'.regtable.entries :: r.2 else r.2)

theorem visible_message (processname c b : Bytes) (cs : List Bytes) :
    visible processname (c :: b :: cs) =
      (chunkHead c, (chunkHead c).toProcname != processname) :: visible processname cs := by
  simp only [visible, messages, List.map_cons, Option.isSome_some, Bool.true_and]

/-- The loop has the effect its messages announce. -/
theorem receive_effect (n : Netapi) (cs : List Bytes) (hne : ∀ c ∈ cs, c ≠ []) :
    ((receive n .head cs).net.regtable, relays (receive n .head cs).out) =
      effect n (visible n.processname cs) := by
  induction cs using messages.induct generalizing n with
  | case1 => rfl
  | case2 c =>
    rw [receive_head n (hne c (List.mem_singleton_self c))]
    simp only [relays_cons_head, relays_registHead]
    rfl
  | case3 c b cs ih =>
    simp only [List.forall_mem_cons] at hne
    obtain ⟨hc, hb, hcs⟩ := hne
    have hrest := ih (registHead (chunkHead c) n).1 hcs
    rw [registHead_processname] at hrest
    rw [receive_message n hc hb, visible_message]
    simp only [List.cons_append, relays_cons_head, relays_append, relays_registHead,
      List.nil_append, relays_cons_bodyOutput, registHead_processname]
    have h1 := congrArg Prod.fst hrest
    have h2 := congrArg Prod.snd hrest
    dsimp only at h1 h2
    rw [h1, h2]
    rfl

theorem effect_relays_length (n : Netapi) (ms : List (Head × Bool)) :
    (effect n ms).2.length = ms.countP (·.2) := by
  induction ms generalizing n with
  | nil => rfl
  | cons m ms ih =>
    obtain ⟨h, sent⟩ := m
    cases sent with
    | false =>
      simp only [effect, Bool.false_eq_true, ↓reduceIte, ih, List.countP_cons, Nat.add_zero]
    | true => simp only [effect, ↓reduceIte, List.length_cons, ih, List.countP_cons]

theorem decoded_eq_visible (processname : Bytes) (cs : List Bytes) :
    decoded cs = (visible processname cs).map Prod.fst := by
  rw [decoded, visible, List.map_map]
  rfl

/-- Flags that follow from their keys, but for the last one, follow from the keys and
the number of flags set. -/
theorem flags_eq_of_count {κ : Type*} (q : κ → Bool) (xs ys : List (κ × Bool))
    (hx : ∀ x ∈ xs.dropLast, x.2 = q x.1) (hy : ∀ y ∈ ys.dropLast, y.2 = q y.1)
    (hk : xs.map Prod.fst = ys.map Prod.fst)
    (hc : xs.countP (·.2) = ys.countP (·.2)) : xs = ys := by
  induction xs generalizing ys with
  | nil => exact (List.map_eq_nil_iff.mp hk.symm).symm
  | cons x xs ih =>
    cases ys with
    | nil => cases hk
    | cons y ys =>
      obtain ⟨x1, x2⟩ := x
      obtain ⟨y1, y2⟩ := y
      simp only [List.map_cons, List.cons.injEq] at hk
      obtain ⟨rfl, ht⟩ := hk
      have hnil : xs = [] ↔ ys = [] := by
        rw [← List.map_eq_nil_iff (f := Prod.fst), ht, List.map_eq_nil_iff]
      by_cases hxs : xs = []
      · -- the last flag is settled by the count
        obtain rfl := hxs
        obtain rfl := hnil.mp rfl
        cases x2 <;> cases y2 <;> first | rfl | cases hc
      · -- any other flag by its key
        have hys : ys ≠ [] := fun h => hxs (hnil.mpr h)
        rw [List.dropLast_cons_of_ne_nil hxs, List.forall_mem_cons] at hx
        rw [List.dropLast_cons_of_ne_nil hys, List.forall_mem_cons] at hy
        obtain rfl : x2 = y2 := hx.1.trans hy.1.symm
        simp only [List.countP_cons, Nat.add_right_cancel_iff] at hc
        rw [ih ys hx.2 hy.2 ht hc]

/-- Only the last message can lack its body. -/
theorem messages_dropLast (cs : List Bytes) : ∀ m ∈ (messages cs).dropLast, m.2.isSome := by
  induction cs using messages.induct with
  | case1 => exact List.forall_mem_nil _
  | case2 c => exact List.forall_mem_nil _
  | case3 c b cs ih =>
    by_cases h : messages cs = []
    · rw [messages, h]
      exact List.forall_mem_nil _
    · rw [messages, List.dropLast_cons_of_ne_nil h, List.forall_mem_cons]
      exact ⟨rfl, ih⟩

theorem visible_dropLast (processname : Bytes) (cs : List Bytes) :
    ∀ x ∈ (visible processname cs).dropLast, x.2 = (x.1.toProcname != processname) := by
  intro x hx
  rw [visible, ← List.map_dropLast] at hx
  obtain ⟨m, hm, rfl⟩ := List.mem_map.mp hx
  simp only [messages_dropLast cs m hm, Bool.true_and]

/-- Two deliveries look the same to the loop when their heads do and equally many
messages are sent on. -/
theorem visible_eq_iff (processname : Bytes) (cs ds : List Bytes) :
    visible processname cs = visible processname ds ↔
      decoded cs = decoded ds ∧
        (visible processname cs).countP (·.2) = (visible processname ds).countP (·.2) := by
  rw [decoded_eq_visible processname, decoded_eq_visible processname]
  constructor
  · intro h
    rw [h]
    exact ⟨rfl, rfl⟩
  · rintro ⟨hh, hc⟩
    exact flags_eq_of_count (fun h : Head => h.toProcname != processname) _ _
      (visible_dropLast _ _) (visible_dropLast _ _) hh hc

/-- After the handler loop took in the streams `s` and `t` from one state, the messages
handled with their heads, the table and the relay descriptors are the same. -/
structure SameEffect (n : Netapi) (s t : Bytes) : Prop where
  heads : heads (receive n .head (uncut 60 40 s)).out =
    heads (receive n .head (uncut 60 40 t)).out
  regtable : (receive n .head (uncut 60 40 s)).net.regtable =
    (receive n .head (uncut 60 40 t)).net.regtable
  relays : relays (receive n .head (uncut 60 40 s)).out =
    relays (receive n .head (uncut 60 40 t)).out

theorem sameEffect_iff_visible (n : Netapi) (s t : Bytes) :
    SameEffect n s t ↔
      visible n.processname (uncut 60 40 s) = visible n.processname (uncut 60 40 t) := by
  have hs := (uncut_delivers (a := 60) (b := 40) s).nonempty
  have ht := (uncut_delivers (a := 60) (b := 40) t).nonempty
  have es := receive_effect n _ hs
  have et := receive_effect n _ ht
  constructor
  · rintro ⟨hh, -, hr⟩
    -- a head shows whether its message is for a peer, the relays whether its body came
    rw [heads_receive n _ hs, heads_receive n _ ht] at hh
    refine (visible_eq_iff _ _ _).mpr ⟨hh, ?_⟩
    rw [← effect_relays_length n, ← effect_relays_length n, ← es, ← et, hr]
  · intro hv
    -- table and relays are functions of what is visible
    have he := es.trans ((congrArg (effect n) hv).trans et.symm)
    refine ⟨?_, congrArg Prod.fst he, congrArg Prod.snd he⟩
    rw [heads_receive n _ hs, heads_receive n _ ht, decoded_eq_visible n.processname,
      decoded_eq_visible n.processname, hv]

/-- A connected client: its process name fits the name field and its port has five digits. -/
structure Client where
  processname : ProcName
  localIp : IpText
  localPort : UInt16
  fiveDigits : 10000 ≤ localPort.toNat

/-- The string `client_sendmsg_to` sends. -/
def clientSendmsgTo (c : Client) (content : Bytes) (toProcname : ProcName) : Bytes :=
  sendmsg c.processname.text c.localIp.text c.localPort (ascii ['n', 'o', 'r']) content
    toProcname.text

/-- What `body_padding` leaves of a content behind the 40 bytes of the body. -/
def spill (content : Bytes) : Bytes := (bodyPadding content).drop 40

theorem length_bodyPadding (content : Bytes) : 40 ≤ (bodyPadding content).length := by
  by_cases h : content.length ≤ 40
  · rw [bodyPadding, padding_eq_pad 40 content (h.trans_lt (by decide)), length_pad]
    omega
  · obtain ⟨k, hk⟩ := padding_append 40 content
    rw [bodyPadding, hk, List.length_append]
    omega

theorem spill_eq_nil_iff (content : Bytes) : spill content = [] ↔ content.length ≤ 40 := by
  rw [spill, List.drop_eq_nil_iff]
  constructor
  · -- padding never makes a content shorter
    intro h
    obtain ⟨k, hk⟩ := padding_append 40 content
    rw [bodyPadding, hk, List.length_append] at h
    omega
  · intro h
    rw [bodyPadding, padding_eq_pad 40 content (h.trans_lt (by decide)), length_pad,
      max_eq_right h]

def serverIp : IpText := ⟨serverAddr, by decide, by decide⟩

/-- The head `client_sendmsg_to` puts before every content. -/
def clientHead (c : Client) (toProcname : ProcName) : Bytes :=
  headText (pad 15 hash c.localIp.text) (decimal c.localPort.toNat)
    (pad 15 hash serverIp.text) (decimal serverPort.toNat) (isfileText false)
    (pad 8 hash c.processname.text) (pad 8 hash toProcname.text) (ascii ['n', 'o', 'r'])

theorem clientSendmsgTo_eq (c : Client) (content : Bytes) (toProcname : ProcName) :
    clientSendmsgTo c content toProcname = clientHead c toProcname ++ bodyPadding content := by
  have hip (s : IpText) : ipPadding s.text = pad 15 hash s.text := padding_text (by decide) s
  have hname (s : ProcName) : namePadding s.text = pad 8 hash s.text := padding_text (by decide) s
  have hserver : ipPadding serverAddr = pad 15 hash serverIp.text := hip serverIp
  simp only [clientSendmsgTo, sendmsg, msgWriteIpPort, fillMsg, serialize, clientHead, headText,
    isfileText, hip, hname, hserver]

theorem length_clientHead (c : Client) (toProcname : ProcName) :
    (clientHead c toProcname).length = 60 := by
  have hp := (length_decimal_five c.localPort.toNat_lt).mpr c.fiveDigits
  have hq := (length_decimal_five serverPort.toNat_lt).mpr (by decide)
  rw [clientHead, length_headText, hp, hq]
  rfl

/-- The server reads the message itself and then whatever the content spilt. -/
theorem uncut_clientSendmsgTo (c : Client) (content : Bytes) (toProcname : ProcName) :
    uncut 60 40 (clientSendmsgTo c content toProcname) =
      clientHead c toProcname :: (bodyPadding content).take 40 :: uncut 60 40 (spill content) := by
  -- padding makes the body at least 40 bytes, so both reads are full
  have hbody : ((bodyPadding content).take 40).length = 40 := by
    rw [List.length_take]
    exact Nat.min_eq_left (length_bodyPadding content)
  have hsplit : clientSendmsgTo c content toProcname =
      clientHead c toProcname ++ ((bodyPadding content).take 40 ++ spill content) := by
    rw [clientSendmsgTo_eq, spill, List.take_append_drop]
  rw [hsplit, uncut_append (length_clientHead c toProcname),
    uncut_append hbody]

theorem visible_clientSendmsgTo (processname : Bytes) (c : Client) (content : Bytes)
    (toProcname : ProcName) :
    visible processname (uncut 60 40 (clientSendmsgTo c content toProcname)) =
      (chunkHead (clientHead c toProcname),
        (chunkHead (clientHead c toProcname)).toProcname != processname) ::
        visible processname (uncut 60 40 (spill content)) := by
  rw [uncut_clientSendmsgTo, visible_message]

theorem visible_eq_nil_iff (processname s : Bytes) :
    visible processname (uncut 60 40 s) = [] ↔ s = [] := by
  rw [visible, List.map_eq_nil_iff, ← List.length_eq_zero_iff, length_messages]
  constructor
  · intro h
    by_contra hs
    have hpos := List.length_pos_iff.mpr (uncut_ne_nil (a := 60) (b := 40) hs)
    omega
  · rintro rfl
    rfl

/-- A content that fits the body field has the same effect as another one exactly if that
fits too. Two that do not fit have the same effect exactly if their bytes beyond the body,
read as messages, show the same heads and the same messages to send on. -/
theorem contents_agree_iff (n : Netapi) (c : Client) (toProcname : ProcName) (c1 c2 : Bytes) :
    SameEffect n (clientSendmsgTo c c1 toProcname) (clientSendmsgTo c c2 toProcname) ↔
      c1.length ≤ 40 ∧ c2.length ≤ 40 ∨
      40 < c1.length ∧ 40 < c2.length ∧
        visible n.processname (uncut 60 40 (spill c1)) =
          visible n.processname (uncut 60 40 (spill c2)) := by
  have hnil (content : Bytes) :
      visible n.processname (uncut 60 40 (spill content)) = [] ↔ content.length ≤ 40 :=
    (visible_eq_nil_iff _ _).trans (spill_eq_nil_iff content)
  rw [sameEffect_iff_visible, visible_clientSendmsgTo, visible_clientSendmsgTo,
    List.cons_inj_right]
  constructor
  · intro h
    -- nothing beyond the body is seen of a content exactly if it fits
    by_cases h1 : c1.length ≤ 40
    · have h2 := (hnil c1).mpr h1
      rw [h] at h2
      exact Or.inl ⟨h1, (hnil c2).mp h2⟩
    · have h2 := mt (hnil c1).mp h1
      rw [h] at h2
      exact Or.inr ⟨not_le.mp h1, not_le.mp (mt (hnil c2).mpr h2), h⟩
  · rintro (⟨h1, h2⟩ | ⟨-, -, h⟩)
    · rw [(hnil c1).mpr h1, (hnil c2).mpr h2]
    · exact h

theorem five_digits_50000 : 10000 ≤ (50000 : UInt16).toNat := by decide

/-- A client whose message for `server1` drags a registration as `client2` behind it. -/
def forgingClient : Client where
  processname := client1Name
  localIp := ipText 127 0 0 1
  localPort := 50000
  fiveDigits := five_digits_50000

def forgedContent : Bytes :=
  List.replicate 40 hash ++ sendmsg (ascii ['c', 'l', 'i', 'e', 'n', 't', '2'])
    (inetNtop 127 0 0 1) 50000 regText [] (ascii ['s', 'e', 'r', 'v', 'e', 'r', '1'])

theorem forged_content_differs :
    ¬ SameEffect server1 (clientSendmsgTo forgingClient (ascii ['h', 'i']) server1Name)
      (clientSendmsgTo forgingClient forgedContent server1Name) := by
  intro h
  have hheads := congrArg List.length h.heads
  exact absurd hheads (by decide +kernel)

end LearningDirectory
