import LearningDirectory.NetapiMsg
import LearningDirectory.AlternatingReads
import Mathlib.Data.List.AList

/-! The server side of `netapi.cpp`: registration, `handle_msghead` and
`handle_msgbody` cut at their `recv` calls, and the loop of `msghandlecalling`. -/
namespace LearningDirectory
open PaddedField AlternatingReads

/-- What one `recv` reports: -1, or the bytes it copied, none at end of stream. -/
inductive RecvResult
  | error
  | data (bytes : Bytes)
deriving DecidableEq

abbrev RegTable := AList (fun _ : Bytes => ℤ)

structure Netapi where
  processname : Bytes
  recvsock : List ℤ := []
  regtable : RegTable := ∅

/-- `recvsock.back()`, undefined before the first accept. -/
def Netapi.back (n : Netapi) : Option ℤ := n.recvsock.getLast?

def regist (procname : Bytes) (recvsockfd : ℤ) (n : Netapi) : Netapi :=
  -- `map::insert` keeps the entry of a name that is already there
  if procname ∈ n.regtable then n
  else { n with regtable := n.regtable.insert procname recvsockfd }

/-- The scan of the relay branch through `regtable`. -/
def transSock (toProcname : Bytes) : List (Sigma fun _ : Bytes => ℤ) → ℤ
  -- `int trans_sock=0;`
  | [] => 0
  | ⟨first, second⟩ :: rest => if first = toProcname then second else transSock toProcname rest

/-- What a handler puts out: the decoded head it prints, its calls of `regist`, the
content it prints, and what the relay branch passes to `send`. -/
inductive Output
  | head (h : Head)
  | regist (procname : Bytes) (recvsockfd : ℤ)
  | content (text : Bytes)
  | trans (transSock : ℤ) (transBuf : Bytes)
deriving DecidableEq

/-- Where a handler thread waits: for a head, for the body of a head, or nowhere
after `exit(-1)`. -/
inductive Phase
  | head
  | body (h : Head) (headBuf : Bytes)
  | exited
deriving DecidableEq

/-- A buffer cleared by `bzero` and then filled from its start. -/
def fillBuffer (size : ℕ) (bytes : Bytes) : Bytes :=
  bytes ++ List.replicate (size - bytes.length) 0

structure Turn where
  net : Netapi
  phase : Phase
  out : List Output

def regText : Bytes := ascii ['r', 'e', 'g']

/-- `if(m_type.str()=="reg") regist(procname.str(),recvsock.back());` -/
def registHead (h : Head) (n : Netapi) : Netapi × List Output :=
  if h.mType = regText then
    match n.back with
    | some d => (regist h.procname d n, [.regist h.procname d])
    -- `back` of an empty queue, which no handler thread meets
    | none => (n, [])
  else (n, [])

/-- `handle_msghead` up to its second `recv`. -/
def recvHead (n : Netapi) : RecvResult → Turn
  | .error => ⟨n, .exited, []⟩
  -- 0 is neither positive nor -1, so the loop just calls again
  | .data [] => ⟨n, .head, []⟩
  | .data bytes =>
    let headBuf := fillBuffer 60 bytes
    let h := parseHead headBuf
    let r := registHead h n
    ⟨r.1, .body h headBuf, .head h :: r.2⟩

/-- `handle_msgbody`: a message for the server itself. -/
def handleMsgbody (n : Netapi) : RecvResult → Turn
  | .error => ⟨n, .exited, []⟩
  | .data [] => ⟨n, .head, []⟩
  | .data bytes => ⟨n, .head, [.content (parseBody (fillBuffer 40 bytes))]⟩

/-- The relay branch. -/
def recvTrans (n : Netapi) (h : Head) (headBuf : Bytes) : RecvResult → Turn
  -- this `recv` is only tested for a positive count, an error does not exit
  | .error => ⟨n, .head, []⟩
  | .data [] => ⟨n, .head, []⟩
  | .data bytes =>
    ⟨n, .head, [.trans (transSock h.toProcname n.regtable.entries)
      (headBuf ++ fillBuffer 40 bytes)]⟩

/-- `handle_msghead` from the dispatch on the destination name to its end. -/
def recvBody (n : Netapi) (h : Head) (headBuf : Bytes) (r : RecvResult) : Turn :=
  if h.toProcname = n.processname then handleMsgbody n r else recvTrans n h headBuf r

/-- What a handler thread does with the result of the `recv` it waits for. -/
def handlerStep (n : Netapi) : Phase → RecvResult → Turn
  | .head, r => recvHead n r
  | .body h headBuf, r => recvBody n h headBuf r
  | .exited, _ => ⟨n, .exited, []⟩

/-- The loop of `msghandlecalling` over the results of its `recv` calls. -/
def msghandlecalling (n : Netapi) (p : Phase) : List RecvResult → Turn
  | [] => ⟨n, p, []⟩
  | r :: rs =>
    let s := handlerStep n p r
    let t := msghandlecalling s.net s.phase rs
    ⟨t.net, t.phase, s.out ++ t.out⟩

/-- The loop on a connection whose reads return these chunks. -/
def receive (n : Netapi) (p : Phase) (cs : List Bytes) : Turn :=
  msghandlecalling n p (cs.map .data)

theorem transSock_eq_lookup (toProcname : Bytes) (t : RegTable) :
    transSock toProcname t.entries = (t.lookup toProcname).getD 0 := by
  obtain ⟨l, hl⟩ := t
  show transSock toProcname l = (List.dlookup toProcname l).getD 0
  -- the induction is on the entries alone, that the keys differ is not needed
  clear hl
  induction l with
  | nil => rfl
  | cons e l ih =>
    obtain ⟨first, second⟩ := e
    by_cases h : first = toProcname
    · subst h
      simp [transSock]
    · rw [transSock, if_neg h, ih, List.dlookup_cons_ne _ _ (Ne.symm h)]

theorem fillBuffer_full {size : ℕ} {bytes : Bytes} (h : bytes.length = size) :
    fillBuffer size bytes = bytes := by
  rw [fillBuffer, h, Nat.sub_self, List.replicate_zero, List.append_nil]

@[simp] theorem regist_processname (s : Bytes) (d : ℤ) (n : Netapi) :
    (regist s d n).processname = n.processname := by
  unfold regist
  split <;> rfl

@[simp] theorem regist_recvsock (s : Bytes) (d : ℤ) (n : Netapi) :
    (regist s d n).recvsock = n.recvsock := by
  unfold regist
  split <;> rfl

theorem lookup_regist (s k : Bytes) (d : ℤ) (n : Netapi) :
    (regist s d n).regtable.lookup k =
      if k = s ∧ s ∉ n.regtable then some d else n.regtable.lookup k := by
  unfold regist
  split
  · rename_i hs
    rw [if_neg (fun h => h.2 hs)]
  · rename_i hs
    by_cases hk : k = s
    · subst hk
      rw [if_pos ⟨rfl, hs⟩, AList.lookup_insert]
    · rw [if_neg (fun h => hk h.1), AList.lookup_insert_ne hk]

theorem mem_regist (s k : Bytes) (d : ℤ) (n : Netapi) :
    k ∈ (regist s d n).regtable ↔ k = s ∨ k ∈ n.regtable := by
  unfold regist
  split
  · rename_i hs
    exact ⟨Or.inr, fun h => h.elim (fun hk => hk ▸ hs) id⟩
  · exact AList.mem_insert _

theorem registHead_reg {h : Head} {n : Netapi} {d : ℤ} (hm : h.mType = regText)
    (hb : n.back = some d) :
    registHead h n = (regist h.procname d n, [.regist h.procname d]) := by
  rw [registHead, if_pos hm, hb]

theorem registHead_other {h : Head} (n : Netapi) (hm : h.mType ≠ regText) :
    registHead h n = (n, []) := if_neg hm

@[simp] theorem registHead_processname (h : Head) (n : Netapi) :
    (registHead h n).1.processname = n.processname := by
  unfold registHead
  split
  · cases n.back with
    | none => rfl
    | some d => exact regist_processname _ _ _
  · rfl

/-- What a head makes the handler put out before its body is a registration or nothing. -/
theorem filterMap_registHead {β : Type*} {f : Output → Option β}
    (hf : ∀ procname sockfd, f (.regist procname sockfd) = none) (h : Head) (n : Netapi) :
    (registHead h n).2.filterMap f = [] := by
  unfold registHead
  split
  · cases n.back with
    | none => rfl
    | some d => exact List.filterMap_cons_none (hf h.procname d)
  · rfl

@[simp] theorem registHead_recvsock (h : Head) (n : Netapi) :
    (registHead h n).1.recvsock = n.recvsock := by
  unfold registHead
  split
  · cases n.back with
    | none => rfl
    | some d => exact regist_recvsock _ _ _
  · rfl

theorem recvHead_data (n : Netapi) {bytes : Bytes} (h : bytes ≠ []) :
    recvHead n (.data bytes) =
      ⟨(registHead (parseHead (fillBuffer 60 bytes)) n).1,
        .body (parseHead (fillBuffer 60 bytes)) (fillBuffer 60 bytes),
        .head (parseHead (fillBuffer 60 bytes)) ::
          (registHead (parseHead (fillBuffer 60 bytes)) n).2⟩ := by
  cases bytes with
  | nil => exact absurd rfl h
  | cons b bs => rfl

/-- The output of a body read: the content here, the whole frame to a peer. -/
def bodyOutput (n : Netapi) (h : Head) (headBuf bytes : Bytes) : Output :=
  if h.toProcname = n.processname then .content (parseBody (fillBuffer 40 bytes))
  else .trans (transSock h.toProcname n.regtable.entries) (headBuf ++ fillBuffer 40 bytes)

theorem recvBody_data (n : Netapi) (h : Head) (headBuf : Bytes) {bytes : Bytes}
    (hb : bytes ≠ []) :
    recvBody n h headBuf (.data bytes) = ⟨n, .head, [bodyOutput n h headBuf bytes]⟩ := by
  cases bytes with
  | nil => exact absurd rfl hb
  | cons b bs =>
    unfold recvBody bodyOutput
    split <;> rfl

theorem receive_nil (n : Netapi) (p : Phase) : receive n p [] = ⟨n, p, []⟩ := rfl

theorem receive_cons (n : Netapi) (p : Phase) (c : Bytes) (cs : List Bytes) :
    receive n p (c :: cs) =
      ⟨(receive (handlerStep n p (.data c)).net (handlerStep n p (.data c)).phase cs).net,
        (receive (handlerStep n p (.data c)).net (handlerStep n p (.data c)).phase cs).phase,
        (handlerStep n p (.data c)).out ++
          (receive (handlerStep n p (.data c)).net (handlerStep n p (.data c)).phase cs).out⟩ :=
  rfl

end LearningDirectory
