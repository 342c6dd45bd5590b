import LearningDirectory.NetapiServer

/-! A message that is cut off by the end of its stream. -/
namespace LearningDirectory
open PaddedField

/-- The reads of the first `k` bytes of a frame, as full as they allow, and then 0. -/
def cutReads (f : Frame) (k zeros : ℕ) : List Bytes :=
  (f.bytes.take k).take 60 :: (f.bytes.take k).drop 60 :: List.replicate zeros []

/-- `regtable` is as before and nothing has been passed to `send`. -/
def NoEffect (n : Netapi) (t : Turn) : Prop := t.net.regtable = n.regtable ∧ relays t.out = []

/-- The head makes `regist` enter a name. -/
def Binds (n : Netapi) (h : Head) : Prop :=
  h.mType = regText ∧ n.recvsock ≠ [] ∧ h.procname ∉ n.regtable

theorem regtable_registHead (h : Head) (n : Netapi) :
    (registHead h n).1.regtable = n.regtable ↔ ¬ Binds n h := by
  by_cases hm : h.mType = regText
  · cases hb : n.back with
    -- there is no descriptor to bind a name to
    | none =>
      have hnil : n.recvsock = [] := List.getLast?_eq_none_iff.mp hb
      rw [registHead, if_pos hm, hb]
      exact iff_of_true rfl (fun hbinds => hbinds.2.1 hnil)
    | some d =>
      have hsome : n.recvsock ≠ [] := by
        intro hnil
        rw [Netapi.back, hnil] at hb
        cases hb
      rw [registHead_reg hm hb, regist]
      split_ifs with hname
      · exact iff_of_true rfl (fun hbinds => hbinds.2.2 hname)
      · refine iff_of_false ?_ (fun hno => hno ⟨hm, hsome, hname⟩)
        intro hsame
        -- the name is in the new table and not in the old one
        apply hname
        rw [← hsame]
        exact (AList.mem_insert _).mpr (Or.inl rfl)
  · rw [registHead_other n hm]
    exact iff_of_true rfl (fun hbinds => hm hbinds.1)

/-- A head that ends before its last byte has a NUL in its type. -/
theorem mType_chunkHead_short {c : Bytes} (hc : c.length < 60) : (chunkHead c).mType ≠ regText := by
  intro hreg
  have hlast : (chunkHead c).mType[2]? = regText[2]? := congrArg (·[2]?) hreg
  -- the 60th byte is still as `bzero` left it
  have hbyte : (chunkHead c).mType[2]? = some 0 := by
    simp only [chunkHead, parseHead, copyLoop, slice, fillBuffer, Nat.reduceSub]
    rw [List.getElem?_take_of_lt (by decide), List.getElem?_drop,
      List.getElem?_append_right (by omega), List.getElem?_replicate, if_pos (by omega)]
  rw [hbyte] at hlast
  exact absurd hlast (by decide)

theorem receive_zeros (n : Netapi) (zeros : ℕ) :
    receive n .head (List.replicate zeros []) = ⟨n, .head, []⟩ := by
  induction zeros with
  | zero => rfl
  | succ zeros ih =>
    have hzero : handlerStep n .head (.data []) = ⟨n, .head, []⟩ := rfl
    rw [List.replicate_succ, receive_cons, hzero, ih]
    rfl

/-- The stream ends within the head or behind it: the handler is back at its start. -/
theorem receive_cut_head (n : Netapi) {c : Bytes} (hc : c ≠ []) (zeros : ℕ) :
    receive n .head (c :: [] :: List.replicate zeros []) =
      ⟨(registHead (chunkHead c) n).1, .head,
        .head (chunkHead c) :: (registHead (chunkHead c) n).2⟩ := by
  have hhead : handlerStep n .head (.data c) = _ := recvHead_data n hc
  have hbody (m : Netapi) (h : Head) (headBuf : Bytes) :
      handlerStep m (.body h headBuf) (.data []) = ⟨m, .head, []⟩ := by
    simp only [handlerStep, recvBody]
    split_ifs <;> rfl
  rw [receive_cons, receive_cons, hhead]
  simp only [hbody, receive_zeros, List.append_nil]
  rfl

theorem noEffect_cut_head (n : Netapi) {c : Bytes} (hc : c ≠ []) (zeros : ℕ) :
    NoEffect n (receive n .head (c :: [] :: List.replicate zeros [])) ↔ ¬ Binds n (chunkHead c) := by
  rw [receive_cut_head n hc, NoEffect, relays_cons_head, relays_registHead, regtable_registHead]
  exact and_iff_left rfl

theorem noEffect_cut_body (n : Netapi) {c b : Bytes} (hc : c ≠ []) (hb : b ≠ []) (zeros : ℕ) :
    NoEffect n (receive n .head (c :: b :: List.replicate zeros [])) ↔
      ¬ Binds n (chunkHead c) ∧ (chunkHead c).toProcname = n.processname := by
  rw [receive_message n hc hb, receive_zeros, NoEffect, regtable_registHead, List.cons_append,
    relays_cons_head, relays_append, relays_registHead, List.nil_append, relays_cons_bodyOutput,
    registHead_processname]
  apply and_congr_right
  intro _
  by_cases hlocal : (chunkHead c).toProcname = n.processname
  -- the local branch prints the body, and sends nothing
  · rw [if_neg (by simp [hlocal])]
    exact iff_of_true rfl hlocal
  · rw [if_pos (by simpa using hlocal)]
    exact iff_of_false (List.cons_ne_nil _ _) hlocal

theorem cutReads_head (f : Frame) {k : ℕ} (hk : k ≤ 60) (zeros : ℕ) :
    cutReads f k zeros = f.bytes.take k :: [] :: List.replicate zeros [] := by
  have hlength : (f.bytes.take k).length ≤ 60 := (List.length_take_le ..).trans hk
  rw [cutReads, List.take_of_length_le hlength, List.drop_of_length_le hlength]

theorem cutReads_body (f : Frame) {k : ℕ} (hk : 60 < k) (zeros : ℕ) :
    ∃ b, b ≠ [] ∧ cutReads f k zeros = f.bytes.take 60 :: b :: List.replicate zeros [] := by
  have hsize := f.size
  refine ⟨(f.bytes.take k).drop 60, ?_, ?_⟩
  · apply List.ne_nil_of_length_pos
    rw [List.length_drop, List.length_take]
    omega
  · rw [cutReads, List.take_take, Nat.min_eq_left hk.le]

/-- A message cut off after `k` bytes has no effect exactly when it is cut within the head,
or its head enters no name and it ends with the head or is for the server itself. -/
theorem truncated_no_effect_iff (n : Netapi) (f : Frame) (k zeros : ℕ) (hk : k < 100) :
    NoEffect n (receive n .head (cutReads f k zeros)) ↔
      k < 60 ∨ ¬ Binds n (frameHead f) ∧ (k = 60 ∨ (frameHead f).toProcname = n.processname) := by
  have hsize := f.size
  rcases Nat.lt_or_ge 60 k with hbody | hhead
  · -- the head is complete, and a part of the body comes
    obtain ⟨b, hb, hreads⟩ := cutReads_body f hbody zeros
    rw [hreads, noEffect_cut_body n (take_frame_ne_nil f) hb, chunkHead_frame]
    have hnot : ¬ k < 60 := by omega
    have hne : k ≠ 60 := by omega
    simp only [hnot, hne, false_or]
  rw [cutReads_head f hhead]
  rcases Nat.eq_zero_or_pos k with rfl | hpos
  · -- nothing at all comes
    have hzeros : receive n .head ([] :: [] :: List.replicate zeros []) = ⟨n, .head, []⟩ :=
      receive_zeros n (zeros+2)
    rw [List.take_zero, hzeros]
    exact iff_of_true ⟨rfl, rfl⟩ (Or.inl (by decide))
  have hlength : (f.bytes.take k).length = k := by
    rw [List.length_take]
    omega
  have hc : f.bytes.take k ≠ [] := List.ne_nil_of_length_pos (by omega)
  rw [noEffect_cut_head n hc]
  rcases Nat.lt_or_eq_of_le hhead with hlt | rfl
  · -- the type is not complete
    have hother := mType_chunkHead_short (c := f.bytes.take k) (by omega)
    exact iff_of_true (fun hbinds => hother hbinds.1) (Or.inl hlt)
  · rw [chunkHead_frame]
    simp only [lt_irrefl, false_or, true_or, and_true]

theorem reg_cut_in_head_no_effect :
    NoEffect server1 (receive server1 .head (cutReads regFrame 59 1)) :=
  (truncated_no_effect_iff server1 regFrame 59 1 (by decide)).mpr (Or.inl (by decide))

/-- The head of a reg message alone registers. -/
theorem reg_cut_behind_head_binds :
    ¬ NoEffect server1 (receive server1 .head (cutReads regFrame 60 1)) := by
  rintro ⟨htable, -⟩
  have hentry := congrArg (AList.lookup (ascii "client1".toList)) htable
  exact absurd hentry (by decide)

end LearningDirectory
