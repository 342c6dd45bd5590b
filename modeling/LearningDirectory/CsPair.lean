import LearningDirectory.AlternatingReads
import LearningDirectory.Bytes

/-! The pair `cs/send` and `cs/recv`: the sender counts the calls of `send` and the receiver
those of `recv`. -/
namespace LearningDirectory
open AlternatingReads

/-- `"Hello server!!"` with its terminator. -/
def hello : Bytes := ascii "Hello server!!".toList ++ [0]

/-- `#define MSG_AMOUNT 10000` of the sender -/
def csMsgAmount : UInt32 := 10000

structure CsSender where
  msgCount : UInt32 := 0
  /-- what `send` has taken so far -/
  stream : Bytes := []

/-- The send loop over the results of `send`, of which -1 ends the process. -/
def sendLoop : List ℤ → CsSender → CsSender
  | [], s => s
  | sendbytes :: rest, s =>
    if s.msgCount < csMsgAmount then
      if sendbytes = -1 then s
      else if 0 < sendbytes then
        sendLoop rest
          { msgCount := s.msgCount+1, stream := s.stream ++ hello.take sendbytes.toNat }
      else sendLoop rest s
    else s

/-- The receive loop over the results of `recv`; `none` is -1, which ends the process. -/
def recvLoop : List (Option Bytes) → UInt32 → UInt32
  | [], msgCount => msgCount
  | none :: _, msgCount => msgCount
  | some buf :: rest, msgCount =>
    recvLoop rest (if 0 < buf.length then msgCount+1 else msgCount)

/-- Whole messages only, and no more than the loop sends. -/
structure Counted (s : CsSender) : Prop where
  stream : s.stream.length = 15 * s.msgCount.toNat
  amount : s.msgCount ≤ csMsgAmount

theorem sendLoop_counted {sends : List ℤ} (hwhole : ∀ r ∈ sends, 0 < r → r = 15)
    {s : CsSender} (h : Counted s) : Counted (sendLoop sends s) := by
  induction sends generalizing s with
  | nil => exact h
  | cons sendbytes rest ih =>
    obtain ⟨hfirst, hrest⟩ := List.forall_mem_cons.mp hwhole
    rw [sendLoop]
    split_ifs with hmore hfail hsent
    · exact h
    · apply ih hrest
      have hlt : s.msgCount.toNat < 10000 := hmore
      have hone : (1 : UInt32).toNat = 1 := rfl
      have hcount : (s.msgCount+1).toNat = s.msgCount.toNat+1 := by
        rw [UInt32.toNat_add, hone]
        exact Nat.mod_eq_of_lt (by omega)
      refine ⟨?_, ?_⟩
      · rw [hfirst hsent, hcount, List.length_append, h.stream]
        rfl
      · change (s.msgCount+1).toNat ≤ 10000
        omega
    · exact ih hrest h
    · exact h

theorem recvLoop_nonempty {chunks : List Bytes} (h : ∀ c ∈ chunks, 0 < c.length)
    (msgCount : UInt32) :
    recvLoop (chunks.map some) msgCount = msgCount + UInt32.ofNat chunks.length := by
  induction chunks generalizing msgCount with
  | nil => simp [recvLoop]
  | cons c chunks ih =>
    obtain ⟨hc, hchunks⟩ := List.forall_mem_cons.mp h
    rw [List.map_cons, recvLoop, if_pos hc, ih hchunks, List.length_cons, UInt32.ofNat_add,
      UInt32.add_assoc, UInt32.add_comm 1]
    rfl

/-- No empty piece: there are at most as many pieces as bytes. -/
theorem length_le_flatten {chunks : List Bytes} (h : ∀ c ∈ chunks, 0 < c.length) :
    chunks.length ≤ chunks.flatten.length := by
  induction chunks with
  | nil => exact Nat.zero_le _
  | cons c chunks ih =>
    obtain ⟨hc, hchunks⟩ := List.forall_mem_cons.mp h
    have hle := ih hchunks
    rw [List.flatten_cons, List.length_append, List.length_cons]
    omega

/-- The receiver counts as many messages as the sender exactly if each `recv` returns one. -/
theorem counts_agree_iff (sends : List ℤ) (hwhole : ∀ r ∈ sends, 0 < r → r = 15)
    (chunks : List Bytes) (hchunks : ∀ c ∈ chunks, 0 < c.length ∧ c.length ≤ 15)
    (hall : chunks.flatten = (sendLoop sends {}).stream) :
    recvLoop (chunks.map some) 0 = (sendLoop sends {}).msgCount ↔
      ∀ c ∈ chunks, c.length = 15 := by
  have hcounted : Counted (sendLoop sends {}) := sendLoop_counted hwhole ⟨rfl, by decide⟩
  have hnonempty : ∀ c ∈ chunks, 0 < c.length := fun c hc => (hchunks c hc).1
  have hamount : (sendLoop sends {}).msgCount.toNat ≤ 10000 := hcounted.amount
  have hstream := hcounted.stream
  rw [← hall] at hstream
  -- so the receiver's counter does not wrap
  have hcount : (UInt32.ofNat chunks.length).toNat = chunks.length := by
    have hpieces := length_le_flatten hnonempty
    rw [UInt32.toNat_ofNat']
    exact Nat.mod_eq_of_lt (by omega)
  -- a stream is cut into the fewest pieces when every piece is full
  have hfits : Fits 15 15 chunks := fits_same.mpr fun c hc => (hchunks c hc).2
  rw [recvLoop_nonempty hnonempty, UInt32.zero_add, ← UInt32.toNat_inj, hcount, ← full_same,
    full_iff_length 15 15 chunks hfits, asked_same, hstream]
  omega

theorem whole_messages_agree :
    recvLoop ([hello, hello].map some) 0 = (sendLoop [15, 0, 15] {}).msgCount :=
  (counts_agree_iff [15, 0, 15] (by decide) [hello, hello] (by decide) rfl).mpr (by decide)

/-- The one message comes in two pieces. -/
theorem cut_message_counted_twice :
    ¬ ∀ (sends : List ℤ) (chunks : List Bytes), (∀ r ∈ sends, 0 < r → r = 15) →
      (∀ c ∈ chunks, 0 < c.length ∧ c.length ≤ 15) → chunks.flatten = (sendLoop sends {}).stream →
      recvLoop (chunks.map some) 0 = (sendLoop sends {}).msgCount := by
  intro h
  exact absurd (h [15] [hello.take 7, hello.drop 7] (by decide) (by decide) rfl) (by decide)

end LearningDirectory
