import LearningDirectory.NetapiContent
import LearningDirectory.NetapiRelay

/-! A whole session of one client: `sendmsg` called for one message after another, and
`handle_msghead` called for one after another on the other side. -/
namespace LearningDirectory
open PaddedField AlternatingReads

/-- What one call of `handle_msghead` leaves, with the bytes that its `recv` calls took
from the stream and those still there. -/
structure MsgheadCall where
  net : Netapi
  out : List Output
  taken : Bytes
  rest : Bytes

/-- `handle_msghead` on a stream whose `recv` calls return all they ask for. -/
def handleMsghead (n : Netapi) (stream : Bytes) : MsgheadCall :=
  let headBuf := stream.take 60
  let rest := stream.drop 60
  let t := recvHead n (.data headBuf)
  match t.phase with
  | .body h buf =>
    -- the body is read in `handle_msgbody` or in the relay branch
    let bodyBuf := rest.take 40
    let u := recvBody t.net h buf (.data bodyBuf)
    ⟨u.net, t.out ++ u.out, headBuf ++ bodyBuf, rest.drop 40⟩
  | _ => ⟨t.net, t.out, headBuf, rest⟩

/-- The first `k` calls of the loop in `msghandlecalling`, and the bytes left after them. -/
def msgheadCalls : ℕ → Netapi → Bytes → List MsgheadCall × Bytes
  | 0, _, stream => ([], stream)
  | k+1, n, stream =>
    let r := handleMsghead n stream
    let rs := msgheadCalls k r.net r.rest
    (r :: rs.1, rs.2)

def contents (out : List Output) : List Bytes :=
  out.filterMap fun
    | .content text => some text
    | _ => none

/-- The arguments of one call of `sendmsg`. -/
structure Message where
  mType : Bytes
  mTypeSize : mType.length = 3
  content : Content
  toProcname : ProcName

def Client.fields (c : Client) (m : Message) : Fields where
  fromIp := c.localIp
  toIp := serverIp
  fromPort := c.localPort
  toPort := serverPort
  isfile := false
  source := c.processname
  dest := m.toProcname
  mtype := m.mType
  mtypeSize := m.mTypeSize
  content := m.content

/-- The string one call of `sendmsg` sends. -/
def Client.sends (c : Client) (m : Message) : Bytes :=
  sendmsg c.processname.text c.localIp.text c.localPort m.mType m.content.text m.toProcname.text

/-- All that the client sends. -/
def sessionStream (c : Client) (ms : List Message) : Bytes := (ms.map c.sends).flatten

/-- The call takes the bytes of the message, decodes its head and, when the message is for
the server itself, its content. -/
structure Handles (processname : Bytes) (c : Client) (m : Message) (r : MsgheadCall) : Prop where
  taken : r.taken = c.sends m
  head : heads r.out = [(c.fields m).head]
  content : contents r.out = if m.toProcname.text = processname then [m.content.text] else []

theorem serverPort_five : 10000 ≤ serverPort.toNat := by decide

def messageFrame (c : Client) (m : Message) : Frame where
  bytes := c.sends m
  size := length_wire_five (f := c.fields m) c.fiveDigits serverPort_five

theorem frameHead_message (c : Client) (m : Message) :
    frameHead (messageFrame c m) = (c.fields m).head :=
  parseHead_wire (f := c.fields m) c.fiveDigits serverPort_five

theorem handleMsghead_frame (n : Netapi) (f : Frame) (rest : Bytes) :
    handleMsghead n (f.bytes ++ rest) =
      ⟨(registHead (frameHead f) n).1,
        .head (frameHead f) :: (registHead (frameHead f) n).2 ++
          [bodyOutput (registHead (frameHead f) n).1 (frameHead f) (f.bytes.take 60)
            (f.bytes.drop 60)],
        f.bytes, rest⟩ := by
  have hsplit : f.bytes ++ rest = f.bytes.take 60 ++ (f.bytes.drop 60 ++ rest) := by
    rw [← List.append_assoc, List.take_append_drop]
  have hhead : (f.bytes ++ rest).take 60 = f.bytes.take 60 := by
    rw [hsplit, List.take_left' (length_take_frame f)]
  have hrest : (f.bytes ++ rest).drop 60 = f.bytes.drop 60 ++ rest := by
    rw [hsplit, List.drop_left' (length_take_frame f)]
  have hturn : recvHead n (.data (f.bytes.take 60)) = _ := handlerStep_head n f
  have hbody := handlerStep_body (registHead (frameHead f) n).1 f
  rw [handlerStep] at hbody
  simp only [handleMsghead, hhead, hrest, hturn, List.take_left' (length_drop_frame f),
    List.drop_left' (length_drop_frame f), hbody, List.take_append_drop]

theorem contents_registHead (h : Head) (n : Netapi) : contents (registHead h n).2 = [] :=
  filterMap_registHead (fun _ _ => rfl) h n

theorem contents_bodyOutput (n : Netapi) (c : Client) (m : Message) :
    contents [bodyOutput n (frameHead (messageFrame c m)) ((messageFrame c m).bytes.take 60)
      ((messageFrame c m).bytes.drop 60)] =
      if m.toProcname.text = n.processname then [m.content.text] else [] := by
  have hdest : (frameHead (messageFrame c m)).toProcname = m.toProcname.text := by
    rw [frameHead_message]
    rfl
  have hbody : parseBody ((messageFrame c m).bytes.drop 60) = m.content.text :=
    parseBody_wire (f := c.fields m) c.fiveDigits serverPort_five
  rw [bodyOutput, hdest, fillBuffer_full (length_drop_frame _), hbody]
  split_ifs <;> rfl

theorem handles_message (n : Netapi) (c : Client) (m : Message) (rest : Bytes) :
    Handles n.processname c m (handleMsghead n ((messageFrame c m).bytes ++ rest)) := by
  rw [handleMsghead_frame]
  refine ⟨rfl, ?_, ?_⟩
  · rw [List.cons_append, heads_cons_head, heads_append, heads_registHead, List.nil_append,
      heads_cons_bodyOutput, frameHead_message]
    rfl
  · have hcontent := contents_bodyOutput (registHead (frameHead (messageFrame c m)) n).1 c m
    rw [registHead_processname] at hcontent
    rw [List.cons_append, contents, List.filterMap_cons_none rfl, List.filterMap_append]
    change contents (registHead _ n).2 ++ contents _ = _
    rw [contents_registHead, List.nil_append, hcontent]

/-- One message is two reads of the uncut delivery. -/
theorem receive_frame (n : Netapi) (f : Frame) (rest : Bytes) :
    (receive n .head (uncut 60 40 (f.bytes ++ rest))).out =
      (handleMsghead n (f.bytes ++ rest)).out ++
        (receive (handleMsghead n (f.bytes ++ rest)).net .head (uncut 60 40 rest)).out := by
  have hsplit : f.bytes ++ rest = f.bytes.take 60 ++ (f.bytes.drop 60 ++ rest) := by
    rw [← List.append_assoc, List.take_append_drop]
  have huncut : uncut 60 40 (f.bytes ++ rest) =
      f.bytes.take 60 :: f.bytes.drop 60 :: uncut 60 40 rest := by
    rw [hsplit, uncut_append (length_take_frame f), uncut_append (length_drop_frame f)]
  rw [huncut, receive_message n (take_frame_ne_nil f) (drop_frame_ne_nil f), chunkHead_frame,
    fillBuffer_full (length_take_frame f), handleMsghead_frame]
  simp only [List.append_assoc, List.cons_append, List.nil_append]

theorem sessionStream_cons (c : Client) (m : Message) (ms : List Message) :
    sessionStream c (m :: ms) = (messageFrame c m).bytes ++ sessionStream c ms := rfl

theorem processname_handleMsghead (n : Netapi) (f : Frame) (rest : Bytes) :
    (handleMsghead n (f.bytes ++ rest)).net.processname = n.processname := by
  rw [handleMsghead_frame, registHead_processname]

/-- Over a whole session the `k`-th call handles the `k`-th message, no byte is left, and
this is all that the loop does with the stream. -/
theorem session_aligned (n : Netapi) (c : Client) (ms : List Message) :
    List.Forall₂ (Handles n.processname c) ms
        (msgheadCalls ms.length n (sessionStream c ms)).1 ∧
      (msgheadCalls ms.length n (sessionStream c ms)).2 = [] ∧
      (receive n .head (uncut 60 40 (sessionStream c ms))).out =
        (msgheadCalls ms.length n (sessionStream c ms)).1.flatMap MsgheadCall.out := by
  induction ms generalizing n with
  | nil => exact ⟨.nil, rfl, rfl⟩
  | cons m ms ih =>
    have hhandles := handles_message n c m (sessionStream c ms)
    have hname := processname_handleMsghead n (messageFrame c m) (sessionStream c ms)
    have hreceive := receive_frame n (messageFrame c m) (sessionStream c ms)
    -- the call leaves the stream of the other messages
    have hrest : (handleMsghead n ((messageFrame c m).bytes ++ sessionStream c ms)).rest =
        sessionStream c ms := by rw [handleMsghead_frame]
    obtain ⟨hall, hleft, hout⟩ :=
      ih (handleMsghead n ((messageFrame c m).bytes ++ sessionStream c ms)).net
    rw [hname] at hall
    rw [sessionStream_cons, List.length_cons, msgheadCalls]
    simp only [hrest]
    refine ⟨.cons hhandles hall, hleft, ?_⟩
    rw [hreceive, List.flatMap_cons, hout]

end LearningDirectory
