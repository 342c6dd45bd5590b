import LearningDirectory.HttpTable

/-! What `readn` was meant to deliver, and what the EPOLLIN branch appends to `read_buf`. -/
namespace LearningDirectory
open StepRun HttpServer

/-- The bytes that arrive until `nleft` of them are there or the end of file is reached;
`none` when a `read` fails before that. -/
def delivery (reads : ℕ → Option Bytes) (i nleft : ℕ) : Option Bytes :=
  if 0 < nleft then
    match (reads i).map (List.take nleft) with
    | none => none
    | some [] => some []
    | some (b :: bs) =>
      (delivery reads (i+1) (nleft - (b :: bs).length)).map fun rest => b :: bs ++ rest
  else some []
termination_by nleft
decreasing_by
  rw [List.length_cons]
  omega

/-- The contract of `readn`: the count and the bytes, or a negative value. -/
def ReadnResult : Option Bytes → ℤ × Bytes → Prop
  | some bytes, (n, buf) => n = bytes.length ∧ buf.take bytes.length = bytes
  | none, (n, _) => n < 0

instance decidableReadnResult :
    (delivered : Option Bytes) → (result : ℤ × Bytes) → Decidable (ReadnResult delivered result)
  | some bytes, (n, buf) =>
    inferInstanceAs (Decidable (n = bytes.length ∧ buf.take bytes.length = bytes))
  | none, (n, _) => inferInstanceAs (Decidable (n < 0))

theorem delivery_cons {reads : ℕ → Option Bytes} {i nleft : ℕ} {b : Byte} {bs : Bytes}
    (hpos : 0 < nleft) (hread : reads i = some (b :: bs)) :
    delivery reads i nleft = (delivery reads (i+1) (nleft - ((b :: bs).take nleft).length)).map
      fun rest => (b :: bs).take nleft ++ rest := by
  obtain ⟨m, rfl⟩ := Nat.exists_eq_succ_of_ne_zero hpos.ne'
  rw [delivery, if_pos hpos, hread]
  rfl

/-- The loop takes one `read` and forgets its count, so `readn` keeps its contract only
when there is nothing to count. -/
theorem readn_result_iff (reads : ℕ → Option Bytes) (vptr : Bytes) (n : ℕ) :
    ReadnResult (delivery reads 0 n) (readn reads vptr n) ↔ n = 0 ∨ reads 0 = some [] := by
  rw [readn, readnLoop_eq]
  rcases Nat.eq_zero_or_pos n with rfl | hpos
  · rw [delivery]
    simp [ReadnResult]
  rw [if_pos hpos, Nat.sub_self]
  cases hread : reads 0 with
  -- a failed `read` makes it 1
  | none =>
    rw [delivery, if_pos hpos, hread]
    simp [ReadnResult, hpos.ne']
  | some bytes =>
    cases bytes with
    | nil =>
      rw [delivery, if_pos hpos, hread]
      simp [ReadnResult]
    | cons b bs =>
      -- something was delivered, and the value is 0
      have hright : ¬ (n = 0 ∨ some (b :: bs) = some []) := by simp [hpos.ne']
      rw [delivery_cons hpos hread]
      refine iff_of_false ?_ hright
      cases delivery reads 1 (n - ((b :: bs).take n).length) with
      | none => exact lt_irrefl (0 : ℤ)
      | some rest =>
        rintro ⟨hcount, -⟩
        have hlen : ((b :: bs).take n ++ rest).length = 0 := Int.ofNat.inj hcount.symm
        rw [List.length_append, List.length_take, List.length_cons] at hlen
        omega

/-- Three bytes and the end of file: the bytes are in the buffer, the count is 0. -/
theorem readn_three_bytes :
    ¬ ReadnResult (delivery (fun i => if i = 0 then some [71, 69, 84] else some []) 0 8)
      (readn (fun i => if i = 0 then some [71, 69, 84] else some []) (List.replicate 8 0) 8) := by
  decide +kernel

/-- What the `read` of an EPOLLIN event takes from the connection. -/
def readBytes (calls : Calls) : Bytes := ((calls.read 0).map (List.take bufsize)).getD []

theorem length_readBytes_le (calls : Calls) : (readBytes calls).length ≤ bufsize := by
  rw [readBytes]
  cases calls.read 0 with
  | none => exact Nat.zero_le _
  | some bytes => exact List.length_take_le ..

/-- The bytes read, and the zeros of `memset` behind them. -/
theorem readn_buf (calls : Calls) :
    (readn calls.read (List.replicate bufsize 0) bufsize).2 =
      readBytes calls ++ List.replicate (bufsize - (readBytes calls).length) 0 := by
  have hpos : 0 < bufsize := by decide
  rw [readn, readnLoop_eq, if_pos hpos, Nat.sub_self, storeAt, List.take_zero, List.nil_append,
    Nat.zero_add, List.drop_replicate, readBytes]

/-- The server, and what has been read from the connection of each descriptor since it was
accepted. -/
structure InputConns where
  server : HttpServer := {}
  input : ℤ → Bytes := fun _ => []

namespace InputConns

def incoming (s : InputConns) : TableStep → ℤ → Bytes
  | .accept calls =>
    if SetupOk calls then Function.update s.input calls.accept [] else s.input
  | .epollin fd calls => Function.update s.input fd (s.input fd ++ readBytes calls)
  | .epollout _ _ => s.input
  | .timeout _ => s.input

def ReadBufOk (s : InputConns) : Prop :=
  ∀ fd c, s.server.client fd = some c → c.readBuf = s.input fd

end InputConns

def inputStep (s : InputConns) (a : TableStep) : Option InputConns :=
  (tableStep s.server a).map fun t => { server := t, input := s.incoming a }

/-- The `read` of an EPOLLIN event fills the whole array. -/
def FillsBuf : TableStep → Prop
  | .epollin _ calls => (readBytes calls).length = bufsize
  | _ => True

/-- A step that answers or closes changes no `read_buf`. -/
def KeepsReadBuf (s t : HttpServer) : Prop :=
  ∀ fd c', t.client fd = some c' → ∃ c, s.client fd = some c ∧ c'.readBuf = c.readBuf

theorem keepsReadBuf_store {s t : HttpServer} {fd : ℤ} {c : ClientT} {p : Option ClientT}
    (ht : ∀ fd', t.client fd' = if fd' = fd then p else s.client fd') (hc : s.client fd = some c)
    (hp : ∀ c', p = some c' → c'.readBuf = c.readBuf) : KeepsReadBuf s t := by
  intro fd' c' hc'
  rw [ht] at hc'
  split_ifs at hc' with he
  · exact ⟨c, he ▸ hc, hp c' hc'⟩
  · exact ⟨c', hc', rfl⟩

theorem keepsReadBuf_epollout {s t : HttpServer} {fd : ℤ} {calls : Calls}
    (h : tableStep s (.epollout fd calls) = some t) : KeepsReadBuf s t := by
  obtain ⟨c, hc, hclient⟩ := tableStep_epollout h
  apply keepsReadBuf_store hclient hc
  intro c' hc'
  split_ifs at hc'
  cases hc'
  rfl

theorem keepsReadBuf_timeout {s t : HttpServer} {fd : ℤ}
    (h : tableStep s (.timeout fd) = some t) : KeepsReadBuf s t := by
  obtain ⟨c, hc, hclient⟩ := tableStep_timeout h
  apply keepsReadBuf_store hclient hc
  intro c' hnone
  cases hnone

theorem readBufOk_keeps {s : InputConns} {t : HttpServer} (h : s.ReadBufOk)
    (hkeep : KeepsReadBuf s.server t) : InputConns.ReadBufOk { s with server := t } := by
  intro fd c' hc'
  obtain ⟨c, hc, hsame⟩ := hkeep fd c' hc'
  exact hsame.trans (h fd c hc)

theorem readBufOk_accept {s : InputConns} {t : HttpServer} {calls : Calls} (h : s.ReadBufOk)
    (ht : tableStep s.server (.accept calls) = some t) :
    InputConns.ReadBufOk { server := t, input := s.incoming (.accept calls) } := by
  intro fd c hc
  rw [tableStep_accept ht] at hc
  by_cases hsetup : SetupOk calls
  · -- the entry of its descriptor is the new one
    simp only [hsetup, true_and] at hc
    simp only [InputConns.incoming, if_pos hsetup, Function.update_apply]
    split_ifs at hc ⊢ with he
    -- a new client has no bytes, whatever its descriptor was used for before
    · cases hc
      rfl
    · exact h fd c hc
  · -- no client was entered, and the input is as it was
    rw [if_neg (fun hand => hsetup hand.1)] at hc
    simp only [InputConns.incoming, if_neg hsetup]
    exact h fd c hc

/-- An EPOLLIN keeps `read_buf` right exactly when there is nothing to add to the bytes. -/
theorem readBufOk_epollin {s : InputConns} {t : HttpServer} {fd : ℤ} {calls : Calls}
    (h : s.ReadBufOk) (ht : tableStep s.server (.epollin fd calls) = some t) :
    InputConns.ReadBufOk { server := t, input := s.incoming (.epollin fd calls) } ↔
      (readBytes calls).length = bufsize := by
  obtain ⟨c, hc, hclient⟩ := tableStep_epollin ht
  -- the branch appends the whole array, whatever `readn` returned
  rw [readn_buf] at hclient
  have hbuf : c.readBuf = s.input fd := h fd c hc
  have hle : (readBytes calls).length ≤ bufsize := length_readBytes_le calls
  constructor
  · intro hok
    -- the two lengths can only agree when there are no zeros
    have hnew := hok fd _ ((hclient fd).trans (if_pos rfl))
    have hsize := congrArg List.length hnew
    simp only [InputConns.incoming, Function.update_self, hbuf, List.length_append,
      List.length_replicate] at hsize
    omega
  · intro hfull fd' c' hc'
    rw [hclient fd'] at hc'
    simp only [InputConns.incoming, Function.update_apply]
    split_ifs at hc' ⊢ with he
    · cases hc'
      rw [hfull, Nat.sub_self, List.replicate_zero, List.append_nil, hbuf]
    · exact h fd' c' hc'

theorem readBufOk_step {s t : InputConns} {a : TableStep} (h : s.ReadBufOk)
    (hs : inputStep s a = some t) : t.ReadBufOk ↔ FillsBuf a := by
  obtain ⟨u, hu, rfl⟩ := Option.map_eq_some_iff.mp hs
  cases a with
  | accept calls => exact iff_of_true (readBufOk_accept h hu) trivial
  | epollin fd calls => exact readBufOk_epollin h hu
  | epollout fd calls => exact iff_of_true (readBufOk_keeps h (keepsReadBuf_epollout hu)) trivial
  | timeout fd => exact iff_of_true (readBufOk_keeps h (keepsReadBuf_timeout hu)) trivial

/-- `read_buf` is what the clients sent throughout a run exactly when each EPOLLIN of the
run reads 8192 bytes. -/
theorem read_buf_iff (as : List TableStep) (s : InputConns) (hr : run inputStep {} as = some s) :
    Always inputStep (fun _ s => s.ReadBufOk) {} as ↔
      Guarded inputStep (fun _ a => FillsBuf a) {} as := by
  apply always_iff_guarded inputStep (I := fun _ _ => True) trivial (P := fun _ s => s.ReadBufOk)
    ?_ (fun _ _ _ _ _ _ _ => trivial) (fun _ _ _ _ _ h hs => readBufOk_step h hs) hr
  exact nofun

/-- A client is accepted and sends `bytes`. -/
def sentOnce (bytes : Bytes) : List TableStep :=
  [.accept { accept := 5 }, .epollin 5 { read := fun _ => some bytes }]

theorem full_read_buf :
    ∃ s, run inputStep {} (sentOnce (List.replicate 8192 71)) = some s ∧
      Always inputStep (fun _ s => s.ReadBufOk) {} (sentOnce (List.replicate 8192 71)) := by
  have hrun : (run inputStep {} (sentOnce (List.replicate 8192 71))).isSome := by decide +kernel
  obtain ⟨s, hs⟩ := Option.isSome_iff_exists.mp hrun
  refine ⟨s, hs, (read_buf_iff _ s hs).mpr ?_⟩
  apply guarded_of_forall inputStep
  rw [sentOnce, List.forall_mem_cons, List.forall_mem_singleton]
  exact ⟨trivial, show (readBytes _).length = bufsize by decide +kernel⟩

/-- `GET` is three bytes, and `read_buf` has 8192. -/
theorem short_read_buf :
    ∃ s, run inputStep {} (sentOnce [71, 69, 84]) = some s ∧ ¬ s.ReadBufOk := by
  have hrun : ((run inputStep {} (sentOnce [71, 69, 84])).bind fun s =>
      (s.server.client 5).map fun c => ((s.input 5).length, c.readBuf.length)) =
      some (3, 8192) := by
    decide +kernel
  obtain ⟨s, hs, hclient⟩ := Option.bind_eq_some_iff.mp hrun
  obtain ⟨c, hc, hsizes⟩ := Option.map_eq_some_iff.mp hclient
  obtain ⟨hinput, hbuf⟩ := Prod.mk.inj hsizes
  refine ⟨s, hs, fun hok => ?_⟩
  have hsame : c.readBuf.length = (s.input 5).length := congrArg List.length (hok 5 c hc)
  omega

end LearningDirectory
