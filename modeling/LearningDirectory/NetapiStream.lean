import LearningDirectory.NetapiHandler

/-! What the handler loop makes of a byte stream: message by message when the chunks
are taken as they come, and how that depends on the places where the stream is cut. -/
namespace LearningDirectory
open PaddedField AlternatingReads

/-- A complete message on the wire. -/
structure Frame where
  bytes : Bytes
  size : bytes.length = 100
deriving DecidableEq

def stream (frames : List Frame) : Bytes := (frames.map Frame.bytes).flatten

theorem length_stream (frames : List Frame) : (stream frames).length = (60+40)*frames.length := by
  induction frames with
  | nil => rfl
  | cons f fs ih =>
    simp only [stream, List.map_cons, List.flatten_cons, List.length_append, f.size,
      List.length_cons] at ih ⊢
    omega

def heads (out : List Output) : List Head :=
  out.filterMap fun
    | .head h => some h
    | _ => none

def relays (out : List Output) : List ℤ :=
  out.filterMap fun
    | .trans s _ => some s
    | _ => none

/-- The chunks of a delivery taken in pairs of a head and its body. -/
def messages : List Bytes → List (Bytes × Option Bytes)
  | [] => []
  -- the last body may not have come yet
  | [h] => [(h, none)]
  | h :: b :: cs => (h, some b) :: messages cs

def chunkHead (c : Bytes) : Head := parseHead (fillBuffer 60 c)

def decoded (cs : List Bytes) : List Head := (messages cs).map fun m => chunkHead m.1

/-- The head of each message and whether the server sends the message on. -/
def visible (processname : Bytes) (cs : List Bytes) : List (Head × Bool) :=
  (messages cs).map fun m =>
    (chunkHead m.1, m.2.isSome && (chunkHead m.1).toProcname != processname)

theorem length_messages (cs : List Bytes) : (messages cs).length = (cs.length+1)/2 := by
  induction cs using messages.induct with
  | case1 => rfl
  | case2 h => simp only [messages, List.length_cons, List.length_nil, Nat.zero_add,
      Nat.reduceAdd, Nat.reduceDiv]
  | case3 h b cs ih =>
    simp only [messages, List.length_cons, ih]
    omega

theorem heads_registHead (h : Head) (n : Netapi) : heads (registHead h n).2 = [] :=
  filterMap_registHead (fun _ _ => rfl) h n

theorem relays_registHead (h : Head) (n : Netapi) : relays (registHead h n).2 = [] :=
  filterMap_registHead (fun _ _ => rfl) h n

theorem heads_append (xs ys : List Output) : heads (xs ++ ys) = heads xs ++ heads ys :=
  List.filterMap_append

theorem relays_append (xs ys : List Output) : relays (xs ++ ys) = relays xs ++ relays ys :=
  List.filterMap_append

theorem heads_cons_head (h : Head) (out : List Output) :
    heads (.head h :: out) = h :: heads out := rfl

theorem relays_cons_head (h : Head) (out : List Output) :
    relays (.head h :: out) = relays out := rfl

theorem heads_cons_bodyOutput (n : Netapi) (h : Head) (headBuf bytes : Bytes)
    (out : List Output) : heads (bodyOutput n h headBuf bytes :: out) = heads out := by
  unfold bodyOutput
  split <;> rfl

theorem relays_cons_bodyOutput (n : Netapi) (h : Head) (headBuf bytes : Bytes)
    (out : List Output) :
    relays (bodyOutput n h headBuf bytes :: out) =
      if h.toProcname != n.processname then
        transSock h.toProcname n.regtable.entries :: relays out
      else relays out := by
  unfold bodyOutput
  by_cases hp : h.toProcname = n.processname
  · rw [if_pos hp, hp, if_neg (by simp)]
    rfl
  · rw [if_neg hp, if_pos (by simpa using hp)]
    rfl

theorem receive_head (n : Netapi) {c : Bytes} (hc : c ≠ []) :
    receive n .head [c] =
      ⟨(registHead (chunkHead c) n).1, .body (chunkHead c) (fillBuffer 60 c),
        .head (chunkHead c) :: (registHead (chunkHead c) n).2⟩ := by
  rw [receive_cons, receive_nil, List.append_nil]
  exact recvHead_data n hc

/-- One complete message: the head is parsed and registered, then the body is printed
or the message is sent on, and the loop is back at its start. -/
theorem receive_message (n : Netapi) {c b : Bytes} (hc : c ≠ []) (hb : b ≠ [])
    (cs : List Bytes) :
    receive n .head (c :: b :: cs) =
      ⟨(receive (registHead (chunkHead c) n).1 .head cs).net,
        (receive (registHead (chunkHead c) n).1 .head cs).phase,
        .head (chunkHead c) :: (registHead (chunkHead c) n).2 ++
          bodyOutput (registHead (chunkHead c) n).1 (chunkHead c) (fillBuffer 60 c) b ::
            (receive (registHead (chunkHead c) n).1 .head cs).out⟩ := by
  -- two turns of the handler, one for each chunk
  have h1 : handlerStep n .head (.data c) = _ := recvHead_data n hc
  have h2 (m : Netapi) (h : Head) (buf : Bytes) :
      handlerStep m (.body h buf) (.data b) = ⟨m, .head, [bodyOutput m h buf b]⟩ :=
    recvBody_data m h buf hb
  rw [receive_cons, receive_cons, h1]
  simp only [h2]
  rfl

theorem heads_receive (n : Netapi) (cs : List Bytes) (hne : ∀ c ∈ cs, c ≠ []) :
    heads (receive n .head cs).out = decoded cs := by
  induction cs using messages.induct generalizing n with
  | case1 => rfl
  | case2 c =>
    rw [receive_head n (hne c (List.mem_singleton_self c))]
    simp only [heads_cons_head, heads_registHead]
    rfl
  | case3 c b cs ih =>
    simp only [List.forall_mem_cons] at hne
    obtain ⟨hc, hb, hcs⟩ := hne
    rw [receive_message n hc hb]
    simp only [List.cons_append, heads_cons_head, heads_append, heads_registHead,
      List.nil_append, heads_cons_bodyOutput, ih _ hcs]
    rfl

/-! ### Cutting the stream -/

/-- The uncut delivery: every `recv` returns all the bytes it asked for. -/
def uncutFrames (frames : List Frame) : List Bytes := uncut 60 40 (stream frames)

/-- A cut delivery makes the loop take more heads than frames were sent. -/
theorem heads_length_iff (n : Netapi) (frames : List Frame) (cs : List Bytes)
    (hd : Delivers 60 40 cs (stream frames)) :
    (heads (receive n .head cs).out).length = frames.length ↔ Full 60 40 cs := by
  -- heads are counted by reads, and reads by how many are short
  have hlen : cs.flatten.length = (60+40)*frames.length := by
    rw [hd.joins, length_stream]
  have hle := reads_le hd.fits hlen
  rw [heads_receive n cs hd.nonempty, decoded, List.length_map, length_messages,
    full_iff_reads hd.fits hlen]
  have hcap := length_flatten_le 60 40 cs hd.fits
  constructor
  · intro h
    omega
  · intro h
    omega

/-- Among ways of delivering a stream of frames that include the uncut one, the receiver
cannot tell any two apart exactly when none of them cuts a read short. -/
theorem deliveries_agree_iff_uncut (n : Netapi) (frames : List Frame)
    (network : Set (List Bytes)) (hdel : ∀ cs ∈ network, Delivers 60 40 cs (stream frames))
    (huncut : uncutFrames frames ∈ network) :
    (∀ cs ∈ network, ∀ ds ∈ network, (receive n .head cs).out = (receive n .head ds).out) ↔
      ∀ cs ∈ network, Full 60 40 cs := by
  have hfull : Full 60 40 (uncutFrames frames) :=
    uncut_full (length_stream frames)
  constructor
  · intro h cs hcs
    -- the heads tell a cut delivery from the uncut one
    have hout := h cs hcs _ huncut
    have hcount := (heads_length_iff n frames _ (hdel _ huncut)).mpr hfull
    rw [← hout] at hcount
    exact (heads_length_iff n frames cs (hdel cs hcs)).mp hcount
  · intro h cs hcs ds hds
    -- the full reads of one stream are the same chunks
    have hjoin : cs.flatten = ds.flatten := (hdel cs hcs).joins.trans (hdel ds hds).joins.symm
    rw [full_unique (h cs hcs) (h ds hds) hjoin]

/-- A server with one open connection. -/
def server1 : Netapi where
  processname := ascii ['s', 'e', 'r', 'v', 'e', 'r', '1']
  recvsock := [4]

/-- The message `client_reg` sends from port 50000. -/
def regFrame : Frame where
  bytes := sendmsg (ascii ['c', 'l', 'i', 'e', 'n', 't', '1']) (inetNtop 127 0 0 1) 50000
    regText (ascii ['t', 'h', 'i', 's', ' ', 'i', 's', ' ', 'a', ' ', 'r', 'e', 'g', ' ',
      'm', 's', 'g']) (ascii ['s', 'e', 'r', 'v', 'e', 'r', '1'])
  size := by decide

/-- The same frame with the first read returning all but the message type. -/
def cutRegFrame : List Bytes :=
  [regFrame.bytes.take 57, (regFrame.bytes.drop 57).take 40, regFrame.bytes.drop 97]

theorem cutRegFrame_delivers : Delivers 60 40 cutRegFrame (stream [regFrame]) where
  joins := by decide
  nonempty := by decide
  fits := ⟨by decide, by decide, by decide, trivial⟩

theorem cut_pair_not_full :
    ¬ ∀ cs ∈ ({uncutFrames [regFrame], cutRegFrame} : Set (List Bytes)),
      ∀ ds ∈ ({uncutFrames [regFrame], cutRegFrame} : Set (List Bytes)),
        (receive server1 .head cs).out = (receive server1 .head ds).out := by
  have hdel : ∀ cs ∈ ({uncutFrames [regFrame], cutRegFrame} : Set (List Bytes)),
      Delivers 60 40 cs (stream [regFrame]) := by
    rintro cs (rfl | rfl)
    · exact uncut_delivers _
    · exact cutRegFrame_delivers
  intro h
  have hfull := (deliveries_agree_iff_uncut server1 [regFrame] _ hdel (Or.inl rfl)).mp h
    cutRegFrame (Or.inr rfl)
  exact absurd hfull (by decide)

theorem deliveries_differ :
    ¬ ∀ cs ds, Delivers 60 40 cs (stream [regFrame]) → Delivers 60 40 ds (stream [regFrame]) →
      (receive server1 .head cs).out = (receive server1 .head ds).out := by
  intro h
  have hout := h _ _ (uncut_delivers _) cutRegFrame_delivers
  have hheads := congrArg (fun out => (heads out).length) hout
  exact absurd hheads (by decide)

end LearningDirectory
