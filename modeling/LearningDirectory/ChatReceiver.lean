import LearningDirectory.ChatClient

/-! `receiving_thread` of the chat clients, over the results of its `recv` calls. -/
namespace LearningDirectory
open StepRun

def recvbufSize : ℕ := 80

/-- What `cout<<buf` puts out. When the array has no NUL it reads on behind the array, and
nothing is known of what comes. -/
def coutBuf (buf : Bytes) : Option Bytes := if 0 ∈ buf then some (cString buf) else none

structure ChatReceiver where
  buf : Bytes := List.replicate recvbufSize 0
  printed : List (Option Bytes) := []

/-- One `recv` of the loop; -1 ends the loop and the process. -/
def chatReceiveStep (s : ChatReceiver) (recvbytes : Option Bytes) : Option ChatReceiver :=
  match recvbytes.map (List.take recvbufSize) with
  | none => none
  -- 0 is not negative
  | some [] => some s
  | some (b :: bs) =>
    some
      { buf := List.replicate recvbufSize 0
        printed := s.printed ++ [coutBuf (b :: bs ++ s.buf.drop (b :: bs).length)] }

theorem chatReceiveStep_chunk {s : ChatReceiver} {chunk : Bytes}
    (hbuf : s.buf = List.replicate recvbufSize 0) (hpos : 1 ≤ chunk.length)
    (hle : chunk.length ≤ recvbufSize) :
    chatReceiveStep s (some chunk) =
      some
        { buf := List.replicate recvbufSize 0
          printed := s.printed ++
            [coutBuf (chunk ++ List.replicate (recvbufSize - chunk.length) 0)] } := by
  obtain ⟨b, bs, rfl⟩ := List.exists_cons_of_length_pos hpos
  rw [← List.drop_replicate, ← hbuf, chatReceiveStep, Option.map_some, List.take_of_length_le hle,
    hbuf]

/-- A text that fills the array leaves no NUL behind it. -/
theorem coutBuf_fill {chunk : Bytes} (hnul : 0 ∉ chunk) (hle : chunk.length ≤ recvbufSize) :
    coutBuf (chunk ++ List.replicate (recvbufSize - chunk.length) 0) = some chunk ↔
      chunk.length < recvbufSize := by
  rcases Nat.lt_or_eq_of_le hle with hlt | hfull
  · -- the first byte that `bzero` left behind it ends the text
    obtain ⟨m, hm⟩ : ∃ m, recvbufSize - chunk.length = m+1 :=
      Nat.exists_eq_add_of_le' (Nat.sub_pos_of_lt hlt)
    refine iff_of_true ?_ hlt
    rw [hm, List.replicate_succ, coutBuf, if_pos, cString_terminated, cString_eq_self hnul]
    exact List.mem_append_right _ List.mem_cons_self
  · refine iff_of_false ?_ hfull.not_lt
    rw [hfull, Nat.sub_self, List.replicate_zero, List.append_nil, coutBuf, if_neg hnul]
    nofun

theorem run_receiving {chunks : List Bytes}
    (h : ∀ c ∈ chunks, 1 ≤ c.length ∧ c.length ≤ recvbufSize) {s : ChatReceiver}
    (hbuf : s.buf = List.replicate recvbufSize 0) :
    ∃ t, run chatReceiveStep s (chunks.map some) = some t ∧
      t.printed = s.printed ++
        chunks.map fun c => coutBuf (c ++ List.replicate (recvbufSize - c.length) 0) := by
  -- on the chunks, from any state whose array is clear
  induction chunks generalizing s with
  | nil => exact ⟨s, rfl, (List.append_nil _).symm⟩
  | cons c chunks ih =>
    obtain ⟨⟨hpos, hle⟩, hrest⟩ := List.forall_mem_cons.mp h
    have hstep := chatReceiveStep_chunk hbuf hpos hle
    -- `bzero` has cleared the array for the next chunk
    rw [List.map_cons, run_cons, hstep, Option.bind_some]
    let u : ChatReceiver :=
      { printed := s.printed ++
          [coutBuf (c ++ List.replicate (recvbufSize - c.length) 0)] }
    obtain ⟨t, ht, hprinted⟩ := ih (s := u) hrest rfl
    refine ⟨t, ht, ?_⟩
    rw [hprinted, List.append_assoc]
    rfl

/-- The loop takes in every chunk, and it prints each as it is, from inside the array, exactly
when none of them fills the array. -/
theorem printed_iff (chunks : List Bytes)
    (h : ∀ c ∈ chunks, 1 ≤ c.length ∧ c.length ≤ recvbufSize ∧ 0 ∉ c) :
    ∃ s, run chatReceiveStep {} (chunks.map some) = some s ∧
      (s.printed = chunks.map some ↔ ∀ c ∈ chunks, c.length < recvbufSize) := by
  have hsizes (c : Bytes) (hc : c ∈ chunks) : 1 ≤ c.length ∧ c.length ≤ recvbufSize :=
    ⟨(h c hc).1, (h c hc).2.1⟩
  obtain ⟨s, hs, hprinted⟩ := run_receiving hsizes (s := {}) rfl
  refine ⟨s, hs, ?_⟩
  rw [hprinted, List.nil_append, List.map_inj_left]
  apply forall₂_congr
  intro c hc
  exact coutBuf_fill (h c hc).2.2 (hsizes c hc).2

theorem two_chunks_printed :
    ∃ s, run chatReceiveStep {} ([[104, 105], [33]].map some) = some s ∧
      s.printed = [[104, 105], [33]].map some := by
  obtain ⟨s, hs, hiff⟩ := printed_iff [[104, 105], [33]] (by decide)
  exact ⟨s, hs, hiff.mpr (by decide)⟩

/-- 80 letters in one `recv`: there is no NUL in the array. -/
theorem full_chunk_unterminated :
    ∃ s, run chatReceiveStep {} ([List.replicate 80 97].map some) = some s ∧
      s.printed ≠ [List.replicate 80 97].map some := by
  have hrun : (run chatReceiveStep {} ([List.replicate 80 97].map some)).map
      ChatReceiver.printed = some [none] := by decide
  obtain ⟨s, hs, hprinted⟩ := Option.map_eq_some_iff.mp hrun
  refine ⟨s, hs, ?_⟩
  rw [hprinted]
  decide

end LearningDirectory
