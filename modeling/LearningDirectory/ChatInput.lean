import LearningDirectory.ChatClient

/-! The main loop of a chat client alone: what it hands to the sending threads, whatever
these do with it. -/
namespace LearningDirectory
open StepRun

/-- The contents that `k` rounds of the loop hand on. -/
def mainLoop : ℕ → Cin → Bytes → List Bytes
  | 0, _, _ => []
  | k+1, cin, sendbuf =>
    let r := cin.getline sendbuf
    typed [cString r.2] ++ mainLoop k r.1 r.2

/-- The client, and what main has handed to the threads it created. -/
structure ChatInput where
  client : ChatClient
  handed : List Bytes := []

def handStep (s : ChatInput) (a : ChatStep) : Option ChatInput :=
  (chatStep s.client a).map fun t =>
    { client := t
      handed := match a with
        | .spawn => s.handed ++ typed [s.client.sendingContent]
        | _ => s.handed }

theorem length_threads_step {s t : ChatInput} {a : ChatStep}
    (h : s.client.threads.length = s.handed.length) (hs : handStep s a = some t) :
    t.client.threads.length = t.handed.length := by
  obtain ⟨u, hu, rfl⟩ := Option.map_eq_some_iff.mp hs
  cases a with
  | line =>
    obtain ⟨-, rfl⟩ := chatStep_line hu
    exact h
  | spawn =>
    obtain ⟨-, hu⟩ := Option.ite_none_right_eq_some.mp hu
    cases hu
    -- no thread for an empty content, and nothing handed on
    by_cases hnil : s.client.sendingContent = []
    · simp only [hnil, if_true]
      rw [h, show typed [[]] = [] from rfl, List.append_nil]
    · simp only [hnil, if_false]
      rw [typed_one hnil, List.length_append, List.length_append, h]
      rfl
  | copy i =>
    obtain ⟨-, hu⟩ := Option.ite_none_right_eq_some.mp hu
    cases hu
    exact List.length_set.trans h
  | send i =>
    obtain ⟨-, -, rfl⟩ := chatStep_send hu
    exact List.length_set.trans h

/-- Main creates a thread for each content that it hands on, and no other. -/
theorem length_threads_eq_handed {lines : List Bytes} {as : List ChatStep} {s : ChatInput}
    (hr : run handStep { client := chatStart lines } as = some s) :
    s.client.threads.length = s.handed.length :=
  run_invariant handStep (I := fun _ s => s.client.threads.length = s.handed.length) rfl
    (fun _ _ _ _ _ h hs => length_threads_step h hs) hr

theorem cString_storeStr (buf str : Bytes) : cString (storeStr buf str) = cString str := by
  rw [storeStr, cString_terminated]

theorem flatten_typed (content : Bytes) : (typed [content]).flatten = content := by
  by_cases hnil : content = []
  · rw [hnil]
    rfl
  · rw [typed_one hnil, List.flatten_singleton]

theorem getline_failed (lines : List Bytes) (buf : Bytes) :
    Cin.getline { lines := lines, fail := true } buf =
      ({ lines := lines, fail := true }, storeStr buf []) := rfl

theorem getline_end (buf : Bytes) :
    Cin.getline { lines := [] } buf = ({ lines := [], fail := true }, storeStr buf []) := rfl

theorem getline_short {line : Bytes} (h : line.length < sendbufSize) (rest : List Bytes)
    (buf : Bytes) :
    Cin.getline { lines := line :: rest } buf = ({ lines := rest }, storeStr buf line) :=
  if_pos h

theorem getline_long {line : Bytes} (h : ¬ line.length < sendbufSize) (rest : List Bytes)
    (buf : Bytes) :
    Cin.getline { lines := line :: rest } buf =
      ({ lines := line.drop (sendbufSize-1) :: rest, fail := true },
        storeStr buf (line.take (sendbufSize-1))) :=
  if_neg h

/-- A stream that has failed gives empty strings for ever. -/
theorem mainLoop_failed (k : ℕ) (lines : List Bytes) (buf : Bytes) :
    mainLoop k { lines := lines, fail := true } buf = [] := by
  induction k generalizing buf with
  | zero => rfl
  | succ k ih =>
    rw [mainLoop, getline_failed, cString_storeStr, ih]
    rfl

theorem mainLoop_end (k : ℕ) (buf : Bytes) : mainLoop k { lines := [] } buf = [] := by
  cases k with
  | zero => rfl
  | succ k =>
    rw [mainLoop, getline_end, cString_storeStr, mainLoop_failed]
    rfl

theorem flatten_mainLoop_short {line : Bytes} (h : line.length < sendbufSize) (k : ℕ)
    (rest : List Bytes) (buf : Bytes) :
    (mainLoop (k+1) { lines := line :: rest } buf).flatten =
      cString line ++ (mainLoop k { lines := rest } (storeStr buf line)).flatten := by
  rw [mainLoop, getline_short h, cString_storeStr, List.flatten_append, flatten_typed]

/-- After a line that does not fit nothing is handed on. -/
theorem flatten_mainLoop_long {line : Bytes} (h : ¬ line.length < sendbufSize) (k : ℕ)
    (rest : List Bytes) (buf : Bytes) :
    (mainLoop (k+1) { lines := line :: rest } buf).flatten =
      cString (line.take (sendbufSize-1)) := by
  rw [mainLoop, getline_long h, cString_storeStr, mainLoop_failed, List.append_nil, flatten_typed]

theorem length_cString_le (buf : Bytes) : (cString buf).length ≤ buf.length :=
  (List.takeWhile_sublist _).length_le

/-- A NUL costs the line its end. -/
theorem length_cString_lt {line : Bytes} (h : 0 ∈ line) : (cString line).length < line.length := by
  apply lt_of_le_of_ne (length_cString_le line)
  intro hlength
  have hsame : cString line = line := (List.takeWhile_prefix _).eq_of_length hlength
  exact zero_notMem_cString line (hsame.symm ▸ h)

theorem length_mainLoop_le (k : ℕ) (lines : List Bytes) (buf : Bytes) :
    (mainLoop k { lines := lines } buf).flatten.length ≤ lines.flatten.length := by
  induction lines generalizing k buf with
  | nil =>
    rw [mainLoop_end]
  | cons line rest ih =>
    cases k with
    | zero => exact Nat.zero_le _
    | succ k =>
      rw [List.flatten_cons, List.length_append]
      by_cases hshort : line.length < sendbufSize
      · have hline := length_cString_le line
        have hrest := ih k (storeStr buf line)
        rw [flatten_mainLoop_short hshort, List.length_append]
        omega
      · have htake := length_cString_le (line.take (sendbufSize-1))
        rw [List.length_take] at htake
        rw [flatten_mainLoop_long hshort]
        omega

/-- When the loop has had a round for each line, it has handed on all that was typed exactly
when every line fits and has no NUL. -/
theorem mainLoop_flatten_iff {k : ℕ} {lines : List Bytes} (hk : lines.length ≤ k) (buf : Bytes) :
    (mainLoop k { lines := lines } buf).flatten = lines.flatten ↔
      ∀ line ∈ lines, line.length < sendbufSize ∧ 0 ∉ line := by
  -- on the lines: each takes one round while the stream has not failed
  induction lines generalizing k buf with
  | nil =>
    rw [mainLoop_end]
    exact iff_of_true rfl (List.forall_mem_nil _)
  | cons line rest ih =>
    obtain ⟨k, rfl⟩ : ∃ j, k = j+1 := Nat.exists_eq_add_of_le' (Nat.one_le_of_lt hk)
    have hrest : rest.length ≤ k := Nat.le_of_succ_le_succ hk
    rw [List.forall_mem_cons, List.flatten_cons]
    by_cases hshort : line.length < sendbufSize
    · rw [flatten_mainLoop_short hshort]
      by_cases hnul : 0 ∈ line
      · refine iff_of_false ?_ (fun h => h.1.2 hnul)
        intro heq
        -- the later lines cannot make up for what is lost
        have hlength := congrArg List.length heq
        have hline := length_cString_lt hnul
        have hle := length_mainLoop_le k rest (storeStr buf line)
        rw [List.length_append, List.length_append] at hlength
        omega
      · rw [cString_eq_self hnul, List.append_cancel_left_eq, ih hrest]
        exact (and_iff_right ⟨hshort, hnul⟩).symm
    · rw [flatten_mainLoop_long hshort]
      refine iff_of_false ?_ (fun h => hshort h.1.1)
      intro heq
      -- at most 79 bytes of 80 or more
      have hlength := congrArg List.length heq
      have htake := length_cString_le (line.take (sendbufSize-1))
      have hsize : sendbufSize = 80 := rfl
      rw [List.length_take] at htake
      rw [List.length_append] at hlength
      omega

/-- After `n` rounds and perhaps a line that is stored: the round in progress began with `cin`
and `sendbuf`. -/
structure InputOk (lines : List Bytes) (n : ℕ) (cin : Cin) (sendbuf : Bytes) (s : ChatInput) :
    Prop where
  rounds : ∀ k, mainLoop (n+k) (chatStart lines).cin (chatStart lines).sendbuf =
    s.handed ++ mainLoop k cin sendbuf
  fresh : s.client.stored = false → s.client.cin = cin ∧ s.client.sendbuf = sendbuf
  held : s.client.stored = true → s.client.cin = (cin.getline sendbuf).1 ∧
    s.client.sendbuf = (cin.getline sendbuf).2 ∧
    s.client.sendingContent = cString s.client.sendbuf

theorem inputOk_start (lines : List Bytes) :
    InputOk lines 0 (chatStart lines).cin (chatStart lines).sendbuf
      { client := chatStart lines } where
  rounds k := by rw [Nat.zero_add, List.nil_append]
  fresh _ := ⟨rfl, rfl⟩
  held := nofun

theorem inputOk_line {lines : List Bytes} {n : ℕ} {cin : Cin} {sendbuf : Bytes} {s t : ChatInput}
    (h : InputOk lines n cin sendbuf s) (hs : handStep s .line = some t) :
    InputOk lines n cin sendbuf t := by
  obtain ⟨u, hu, rfl⟩ := Option.map_eq_some_iff.mp hs
  obtain ⟨hstored, rfl⟩ := chatStep_line hu
  obtain ⟨hcin, hbuf⟩ := h.fresh hstored
  -- the round has stored its line and not handed it on
  refine ⟨h.rounds, nofun, fun _ => ?_⟩
  simp only [hcin, hbuf, and_self]

theorem inputOk_spawn {lines : List Bytes} {n : ℕ} {cin : Cin} {sendbuf : Bytes} {s t : ChatInput}
    (h : InputOk lines n cin sendbuf s) (hs : handStep s .spawn = some t) :
    InputOk lines (n+1) (cin.getline sendbuf).1 (cin.getline sendbuf).2 t := by
  obtain ⟨u, hu, rfl⟩ := Option.map_eq_some_iff.mp hs
  obtain ⟨hstored, hu⟩ := Option.ite_none_right_eq_some.mp hu
  cases hu
  obtain ⟨hcin, hbuf, hcontent⟩ := h.held hstored
  refine ⟨fun k => ?_, fun _ => ⟨hcin, hbuf⟩, nofun⟩
  -- the first of the `k+1` rounds that are to come is this one
  rw [Nat.add_assoc, Nat.add_comm 1, h.rounds (k+1), mainLoop, hcontent, hbuf, List.append_assoc]

theorem inputOk_step {lines : List Bytes} {n : ℕ} {cin : Cin} {sendbuf : Bytes}
    {s t : ChatInput} {a : ChatStep} (h : InputOk lines n cin sendbuf s)
    (hs : handStep s a = some t) :
    ∃ cin' sendbuf', InputOk lines (n + [a].count .spawn) cin' sendbuf' t := by
  cases a with
  | line => exact ⟨cin, sendbuf, inputOk_line h hs⟩
  | spawn => exact ⟨_, _, inputOk_spawn h hs⟩
  -- the threads touch nothing of main's
  | copy i =>
    obtain ⟨u, hu, rfl⟩ := Option.map_eq_some_iff.mp hs
    obtain ⟨-, hu⟩ := Option.ite_none_right_eq_some.mp hu
    cases hu
    exact ⟨cin, sendbuf, h.rounds, h.fresh, h.held⟩
  | send i =>
    obtain ⟨u, hu, rfl⟩ := Option.map_eq_some_iff.mp hs
    obtain ⟨-, -, rfl⟩ := chatStep_send hu
    exact ⟨cin, sendbuf, h.rounds, h.fresh, h.held⟩

/-- In every run of the client in which main has had a round for each line, it has handed on
what was typed exactly when every line fits the array and has no NUL. -/
theorem handed_flatten_iff (lines : List Bytes) (as : List ChatStep) (s : ChatInput)
    (hr : run handStep { client := chatStart lines } as = some s)
    (hrounds : lines.length ≤ as.count .spawn) :
    s.handed.flatten = lines.flatten ↔ ∀ line ∈ lines, line.length < sendbufSize ∧ 0 ∉ line := by
  obtain ⟨cin, sendbuf, h⟩ : ∃ cin sendbuf, InputOk lines (as.count .spawn) cin sendbuf s := by
    refine run_invariant handStep
      (I := fun pre s => ∃ cin sendbuf, InputOk lines (pre.count .spawn) cin sendbuf s)
      ⟨_, _, inputOk_start lines⟩ ?_ hr
    rintro pre s a t - ⟨cin, sendbuf, h⟩ hs
    rw [List.count_append]
    exact inputOk_step h hs
  have hrun := h.rounds 0
  rw [mainLoop, List.append_nil] at hrun
  rw [← hrun]
  exact mainLoop_flatten_iff hrounds _

theorem short_lines_handed :
    ∃ s, run handStep { client := chatStart [[104, 105], []] } [.line, .spawn, .line, .spawn] =
        some s ∧
      s.handed.flatten = [104, 105] := by
  have hrun : (run handStep { client := chatStart [[104, 105], []] }
      [.line, .spawn, .line, .spawn]).isSome := by decide
  obtain ⟨s, hs⟩ := Option.isSome_iff_exists.mp hrun
  exact ⟨s, hs, (handed_flatten_iff [[104, 105], []] _ s hs (by decide)).mpr (by decide)⟩

/-- 80 letters and then a line of one: 79 letters are handed on. -/
theorem long_line_silences :
    ∃ s, run handStep { client := chatStart [List.replicate 80 97, [98]] }
        [.line, .spawn, .line, .spawn] = some s ∧
      s.handed.flatten ≠ [List.replicate 80 97, [98]].flatten := by
  have hrun : ((run handStep { client := chatStart [List.replicate 80 97, [98]] }
      [.line, .spawn, .line, .spawn]).map fun s => s.handed) =
      some [List.replicate 79 97] := by decide
  obtain ⟨s, hs, hhanded⟩ := Option.map_eq_some_iff.mp hrun
  exact ⟨s, hs, by rw [hhanded]; decide⟩

end LearningDirectory
