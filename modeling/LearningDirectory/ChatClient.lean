import LearningDirectory.Bytes
import LearningDirectory.StepRun
import Mathlib.Data.List.TakeWhile

/-! The chat clients `chatchit` and `chitchat`, which differ only in their ports: the main
loop and the sending threads, which read the one argument that main overwrites. -/
namespace LearningDirectory
open StepRun

/-! ### The input -/

/-- `cin`: the lines that are still to be extracted, without their newlines. -/
structure Cin where
  lines : List Bytes
  fail : Bool := false

def sendbufSize : ℕ := 80

/-- `str` and its terminator at the start of the array. -/
def storeStr (buf str : Bytes) : Bytes := str ++ 0 :: buf.drop (str.length+1)

/-- `cin.getline(sendbuf,sizeof(sendbuf))`, and the array afterwards. -/
def Cin.getline (cin : Cin) (buf : Bytes) : Cin × Bytes :=
  if cin.fail then (cin, storeStr buf [])
  else match cin.lines with
  -- at the end of the input nothing is extracted
  | [] => ({ cin with fail := true }, storeStr buf [])
  | line :: rest =>
    if line.length < sendbufSize then ({ cin with lines := rest }, storeStr buf line)
    else
      ({ lines := line.drop (sendbufSize-1) :: rest, fail := true },
        storeStr buf (line.take (sendbufSize-1)))

/-- The text that a `string` takes from an array: up to the first NUL. -/
def cString (buf : Bytes) : Bytes := buf.takeWhile (· ≠ 0)

/-! ### The threads -/

inductive ChatThread
  | ready
  | copied (content : Bytes)
  | done
deriving DecidableEq

structure ChatClient where
  cin : Cin
  sendbuf : Bytes := List.replicate sendbufSize 0
  /-- `arg_2.sending_content` -/
  sendingContent : Bytes := []
  /-- main has stored a line and not yet looked at what it has stored -/
  stored : Bool := false
  threads : List ChatThread := []
  /-- the contents that have been sent -/
  sent : List Bytes := []

/-- The two steps of the main loop, and those of the sending thread created as the `i`-th. -/
inductive ChatStep
  | line
  | spawn
  | copy (i : ℕ)
  | send (i : ℕ)
deriving DecidableEq

def chatStep (s : ChatClient) : ChatStep → Option ChatClient
  | .line =>
    if s.stored then none
    else
      let (cin, sendbuf) := s.cin.getline s.sendbuf
      some
        { s with
          cin := cin
          sendbuf := sendbuf
          sendingContent := cString sendbuf
          stored := true }
  | .spawn =>
    if s.stored then
      some
        { s with
          stored := false
          threads := if s.sendingContent = [] then s.threads else s.threads ++ [.ready] }
    else none
  | .copy i =>
    if s.threads[i]? = some .ready then
      some { s with threads := s.threads.set i (.copied s.sendingContent) }
    else none
  | .send i =>
    match s.threads[i]? with
    | some (.copied content) =>
      some { s with threads := s.threads.set i .done, sent := s.sent ++ [content] }
    | _ => none

def chatStart (lines : List Bytes) : ChatClient := { cin := { lines := lines } }

/-- Every line is read and handed on, and every thread has finished. -/
structure ChatClient.Finished (s : ChatClient) : Prop where
  read : s.cin.lines = []
  spawned : s.stored = false
  finished : ∀ t ∈ s.threads, t = .done

/-- Main stores the next line when no thread is still to copy the last one, and a thread sends
when those created before it have sent. -/
def OneByOne (s : ChatClient) : ChatStep → Prop
  | .line => .ready ∉ s.threads
  | .send i => ∀ j < i, s.threads[j]? = some .done
  | _ => True

instance decidableOneByOne (s : ChatClient) : (a : ChatStep) → Decidable (OneByOne s a)
  | .line => inferInstanceAs (Decidable (_ ∉ _))
  | .spawn => isTrue trivial
  | .copy _ => isTrue trivial
  | .send i => inferInstanceAs (Decidable (∀ j < i, s.threads[j]? = some .done))

/-- The non-empty lines. -/
def typed (lines : List Bytes) : List Bytes := lines.filter (· ≠ [])

/-- What main makes of them. -/
def handedOn (lines : List Bytes) : List Bytes := typed (lines.map cString)

theorem cString_terminated (str rest : Bytes) : cString (str ++ 0 :: rest) = cString str := by
  induction str with
  | nil => rfl
  | cons b str ih =>
    rw [cString] at ih
    simp only [cString, List.cons_append, List.takeWhile_cons, ih]

theorem zero_notMem_cString (buf : Bytes) : 0 ∉ cString buf := by
  intro h
  have hne := List.mem_takeWhile_imp h
  simp at hne

theorem cString_eq_self {line : Bytes} (h : 0 ∉ line) : cString line = line := by
  rw [cString, List.takeWhile_eq_self_iff]
  intro b hb
  rw [decide_eq_true_eq]
  rintro rfl
  exact h hb

theorem handedOn_eq_typed {lines : List Bytes} (h : ∀ line ∈ lines, 0 ∉ line) :
    handedOn lines = typed lines := by
  rw [handedOn, List.map_congr_left (g := id), List.map_id]
  intro line hline
  exact cString_eq_self (h line hline)

theorem typed_one {line : Bytes} (h : line ≠ []) : typed [line] = [line] := by simp [typed, h]

/-- Lines that fit, and a stream that fails only at its end. -/
structure CinOk (cin : Cin) : Prop where
  short : ∀ line ∈ cin.lines, line.length < sendbufSize
  failed : cin.fail = true → cin.lines = []

theorem getline_ok {cin : Cin} (h : CinOk cin) (buf : Bytes) :
    CinOk (cin.getline buf).1 ∧
      handedOn cin.lines =
        typed [cString (cin.getline buf).2] ++ handedOn (cin.getline buf).1.lines := by
  obtain ⟨lines, fail⟩ := cin
  obtain ⟨hshort, hfailed⟩ := h
  have hnil : typed [cString (storeStr buf [])] = [] := by
    rw [storeStr, cString_terminated]
    rfl
  unfold Cin.getline
  cases fail with
  | true =>
    obtain rfl : lines = [] := hfailed rfl
    refine ⟨⟨hshort, hfailed⟩, ?_⟩
    change handedOn [] = typed [cString (storeStr buf [])] ++ handedOn []
    rw [hnil, List.nil_append]
  | false =>
    cases lines with
    | nil =>
      refine ⟨⟨hshort, fun _ => rfl⟩, ?_⟩
      change handedOn [] = typed [cString (storeStr buf [])] ++ handedOn []
      rw [hnil, List.nil_append]
    | cons line rest =>
      have hline := List.forall_mem_cons.mp hshort
      simp only [Bool.false_eq_true, if_false, if_pos hline.1]
      refine ⟨⟨hline.2, nofun⟩, ?_⟩
      rw [storeStr, cString_terminated, handedOn, handedOn, typed, typed, typed,
        ← List.filter_append]
      rfl

/-- What main has stored and not handed on. -/
def ChatClient.pending (s : ChatClient) : List Bytes :=
  if s.stored then typed [s.sendingContent] else []

/-- The contents `handed` to the threads so far, one a thread, are sent from the first on,
and main overwrites none of them too early. -/
structure InOrder (lines handed : List Bytes) (s : ChatClient) : Prop where
  cin : CinOk s.cin
  all : handedOn lines = handed ++ s.pending ++ handedOn s.cin.lines
  created : s.threads.length = handed.length
  sent : s.sent <+: handed
  done : ∀ i, s.threads[i]? = some ChatThread.done ↔ i < s.sent.length
  copied : ∀ (i : ℕ) content, s.threads[i]? = some (ChatThread.copied content) →
    handed[i]? = some content
  ready : ∀ i : ℕ, s.threads[i]? = some ChatThread.ready →
    s.stored = false ∧ handed[i]? = some s.sendingContent

theorem getElem?_append_one {α : Type*} {l : List α} {a b : α} {i : ℕ} :
    (l ++ [a])[i]? = some b ↔ l[i]? = some b ∨ i = l.length ∧ a = b := by
  grind

theorem getElem?_set_some {α : Type*} {l : List α} {a b c : α} {i j : ℕ} (hi : l[i]? = some c) :
    (l.set i a)[j]? = some b ↔ j = i ∧ a = b ∨ j ≠ i ∧ l[j]? = some b := by
  grind

theorem isPrefix_append_one {α : Type*} {l m : List α} {a : α} (h : l <+: m)
    (ha : m[l.length]? = some a) : l ++ [a] <+: m := by
  obtain ⟨rest, rfl⟩ := h
  rw [List.getElem?_append_right le_rfl, Nat.sub_self] at ha
  cases rest with
  | nil => cases ha
  | cons b rest =>
    cases ha
    exact ⟨rest, List.append_assoc ..⟩

theorem getElem?_of_isPrefix {α : Type*} {l m : List α} {a : α} {i : ℕ} (h : l <+: m)
    (hi : l[i]? = some a) : m[i]? = some a := by
  obtain ⟨hlt, rfl⟩ := List.getElem?_eq_some_iff.mp hi
  exact List.prefix_iff_getElem?.mp h i hlt

theorem chatStep_line {s t : ChatClient} (hs : chatStep s .line = some t) :
    s.stored = false ∧ t =
      { s with
        cin := (s.cin.getline s.sendbuf).1
        sendbuf := (s.cin.getline s.sendbuf).2
        sendingContent := cString (s.cin.getline s.sendbuf).2
        stored := true } := by
  obtain ⟨hstored, hs⟩ := Option.ite_none_left_eq_some.mp hs
  exact ⟨Bool.eq_false_iff.mpr hstored, (Option.some.inj hs).symm⟩

theorem chatStep_send {s t : ChatClient} {i : ℕ} (hs : chatStep s (.send i) = some t) :
    ∃ content, s.threads[i]? = some (.copied content) ∧
      t = { s with threads := s.threads.set i .done, sent := s.sent ++ [content] } := by
  rw [chatStep] at hs
  split at hs
  case h_1 content hi => exact ⟨content, hi, (Option.some.inj hs).symm⟩
  case h_2 => cases hs

theorem inOrder_line {lines handed : List Bytes} {s t : ChatClient} (h : InOrder lines handed s)
    (ha : OneByOne s .line) (hs : chatStep s .line = some t) : InOrder lines handed t := by
  obtain ⟨hstored, rfl⟩ := chatStep_line hs
  obtain ⟨hcin, hnext⟩ := getline_ok h.cin s.sendbuf
  refine ⟨hcin, ?_, h.created, h.sent, h.done, h.copied, ?_⟩
  · have hall := h.all
    rw [ChatClient.pending, hstored, if_neg Bool.false_ne_true, List.append_nil, hnext] at hall
    rw [hall, List.append_assoc]
    rfl
  · intro i hi
    exact absurd (List.mem_of_getElem? hi) ha

theorem inOrder_spawn {lines handed : List Bytes} {s t : ChatClient} (h : InOrder lines handed s)
    (hs : chatStep s .spawn = some t) : ∃ handed', InOrder lines handed' t := by
  obtain ⟨hstored, hs⟩ := Option.ite_none_right_eq_some.mp hs
  cases hs
  have hready (i : ℕ) : s.threads[i]? ≠ some .ready := by
    intro hi
    exact Bool.false_ne_true ((h.ready i hi).1.symm.trans hstored)
  have hall := h.all
  rw [ChatClient.pending, if_pos hstored] at hall
  by_cases hempty : s.sendingContent = []
  · refine ⟨handed, ?_⟩
    rw [if_pos hempty]
    refine ⟨h.cin, ?_, h.created, h.sent, h.done, h.copied, fun i hi => absurd hi (hready i)⟩
    rw [hall, hempty]
    rfl
  · refine ⟨handed ++ [s.sendingContent], ?_⟩
    rw [if_neg hempty]
    refine ⟨h.cin, ?_, ?_, ?_, ?_, ?_, ?_⟩
    · rw [hall, typed_one hempty]
      exact congrArg (· ++ _) (List.append_nil _).symm
    · rw [List.length_append, List.length_append, h.created]
      rfl
    · exact h.sent.trans (List.prefix_append _ _)
    · intro i
      rw [getElem?_append_one, ← h.done i]
      exact or_iff_left nofun
    · intro i content hi
      rcases getElem?_append_one.mp hi with hold | ⟨-, hnew⟩
      · apply getElem?_append_one.mpr
        exact Or.inl (h.copied i content hold)
      · cases hnew
    · intro i hi
      rcases getElem?_append_one.mp hi with hold | ⟨rfl, -⟩
      · exact absurd hold (hready i)
      · refine ⟨rfl, ?_⟩
        apply getElem?_append_one.mpr
        exact Or.inr ⟨h.created, rfl⟩

theorem inOrder_copy {lines handed : List Bytes} {s t : ChatClient} {i : ℕ}
    (h : InOrder lines handed s) (hs : chatStep s (.copy i) = some t) :
    InOrder lines handed t := by
  obtain ⟨hi, hs⟩ := Option.ite_none_right_eq_some.mp hs
  cases hs
  obtain ⟨hstored, hcontent⟩ := h.ready i hi
  refine ⟨h.cin, h.all, ?_, h.sent, ?_, ?_, ?_⟩
  · rw [List.length_set]
    exact h.created
  · intro j
    rw [getElem?_set_some hi, ← h.done j]
    constructor
    · rintro (⟨-, hx⟩ | ⟨-, hj⟩)
      · cases hx
      · exact hj
    · intro hj
      refine Or.inr ⟨?_, hj⟩
      rintro rfl
      cases hi.symm.trans hj
  · intro j content hj
    rcases (getElem?_set_some hi).mp hj with ⟨rfl, hx⟩ | ⟨-, hold⟩
    · cases hx
      exact hcontent
    · exact h.copied j content hold
  · intro j hj
    rcases (getElem?_set_some hi).mp hj with ⟨-, hx⟩ | ⟨-, hold⟩
    · cases hx
    · exact h.ready j hold

theorem inOrder_send {lines handed : List Bytes} {s t : ChatClient} {i : ℕ}
    (h : InOrder lines handed s) (ha : OneByOne s (.send i))
    (hs : chatStep s (.send i) = some t) : InOrder lines handed t := by
  obtain ⟨content, hi, rfl⟩ := chatStep_send hs
  -- the first thread that has not sent
  have hfirst : i = s.sent.length := by
    have hle : ¬ i < s.sent.length := by
      rw [← h.done i, hi]
      nofun
    have hge : ¬ s.sent.length < i := by
      intro hlt
      have hdone := ha _ hlt
      rw [h.done] at hdone
      omega
    omega
  have hcontent := h.copied i content hi
  refine ⟨h.cin, h.all, ?_, ?_, ?_, ?_, ?_⟩
  · rw [List.length_set]
    exact h.created
  · exact isPrefix_append_one h.sent (hfirst ▸ hcontent)
  · intro j
    rw [getElem?_set_some hi, h.done j, List.length_append, List.length_singleton]
    simp only [and_true]
    omega
  · intro j content' hj
    rcases (getElem?_set_some hi).mp hj with ⟨-, hx⟩ | ⟨-, hold⟩
    · cases hx
    · exact h.copied j content' hold
  · intro j hj
    rcases (getElem?_set_some hi).mp hj with ⟨-, hx⟩ | ⟨-, hold⟩
    · cases hx
    · exact h.ready j hold

theorem inOrder_step {lines : List Bytes} {s t : ChatClient} {a : ChatStep}
    (h : ∃ handed, InOrder lines handed s) (ha : OneByOne s a) (hs : chatStep s a = some t) :
    ∃ handed, InOrder lines handed t := by
  obtain ⟨handed, h⟩ := h
  cases a with
  | line => exact ⟨handed, inOrder_line h ha hs⟩
  | spawn => exact inOrder_spawn h hs
  | copy i => exact ⟨handed, inOrder_copy h hs⟩
  | send i => exact ⟨handed, inOrder_send h ha hs⟩

theorem inOrder_start {lines : List Bytes} (h : ∀ line ∈ lines, line.length < sendbufSize) :
    InOrder lines [] (chatStart lines) where
  cin := ⟨h, nofun⟩
  all := rfl
  created := rfl
  sent := List.nil_prefix
  done i := iff_of_false nofun (Nat.not_lt_zero i)
  copied := nofun
  ready := nofun

theorem sent_of_finished {lines handed : List Bytes} {s : ChatClient} (h : InOrder lines handed s)
    (hend : s.Finished) : s.sent = handedOn lines := by
  have hlen : handed.length ≤ s.sent.length := by
    by_contra hmore
    have hlt : s.sent.length < s.threads.length := by
      rw [h.created]
      omega
    have hlast : s.threads[s.sent.length]? = some .done := by
      rw [List.getElem?_eq_getElem hlt, hend.finished _ (List.getElem_mem hlt)]
    rw [h.done] at hlast
    omega
  have hsent : s.sent = handed := h.sent.eq_of_length_le hlen
  rw [hsent, h.all, ChatClient.pending, hend.spawned, hend.read]
  simp [handedOn, typed]

/-! ### What a step out of order does -/

theorem sent_step {s t : ChatClient} {a : ChatStep} (hs : chatStep s a = some t) :
    s.sent <+: t.sent := by
  cases a with
  | line =>
    obtain ⟨-, rfl⟩ := chatStep_line hs
    exact List.prefix_refl _
  | spawn =>
    obtain ⟨-, hs⟩ := Option.ite_none_right_eq_some.mp hs
    cases hs
    exact List.prefix_refl _
  | copy i =>
    obtain ⟨-, hs⟩ := Option.ite_none_right_eq_some.mp hs
    cases hs
    exact List.prefix_refl _
  | send i =>
    obtain ⟨-, -, rfl⟩ := chatStep_send hs
    exact List.prefix_append _ _

theorem nonempty_of_mem_typed {lines : List Bytes} {line : Bytes} (h : line ∈ typed lines) :
    line ≠ [] := of_decide_eq_true (List.mem_filter.mp h).2

/-- The content has been overwritten before any thread has copied it. -/
structure Overwritten (lines : List Bytes) (content : Bytes) (s : ChatClient) : Prop where
  cin : CinOk s.cin
  mem : content ∈ handedOn lines
  unsent : content ∉ s.sent
  uncopied : ∀ i : ℕ, s.threads[i]? ≠ some (ChatThread.copied content)
  replaced : s.sendingContent ≠ content
  passed : content ∉ handedOn s.cin.lines

theorem overwritten_line {lines : List Bytes} {content : Bytes} {s t : ChatClient}
    (h : Overwritten lines content s) (hs : chatStep s .line = some t) :
    Overwritten lines content t := by
  obtain ⟨-, rfl⟩ := chatStep_line hs
  obtain ⟨hcin, hnext⟩ := getline_ok h.cin s.sendbuf
  have hpassed := h.passed
  rw [hnext, List.mem_append, not_or] at hpassed
  refine ⟨hcin, h.mem, h.unsent, h.uncopied, ?_, hpassed.2⟩
  intro (he : cString (s.cin.getline s.sendbuf).2 = content)
  rw [he, typed_one (nonempty_of_mem_typed h.mem)] at hpassed
  exact hpassed.1 (List.mem_singleton_self _)

theorem overwritten_step {lines : List Bytes} {content : Bytes} {s t : ChatClient} {a : ChatStep}
    (h : Overwritten lines content s) (hs : chatStep s a = some t) :
    Overwritten lines content t := by
  cases a with
  | line => exact overwritten_line h hs
  | spawn =>
    obtain ⟨-, hs⟩ := Option.ite_none_right_eq_some.mp hs
    cases hs
    refine ⟨h.cin, h.mem, h.unsent, fun i => ?_, h.replaced, h.passed⟩
    dsimp only
    split_ifs
    · exact h.uncopied i
    · rw [Ne, getElem?_append_one]
      exact fun hi => hi.elim (h.uncopied i) nofun
  | copy i =>
    obtain ⟨hi, hs⟩ := Option.ite_none_right_eq_some.mp hs
    cases hs
    refine ⟨h.cin, h.mem, h.unsent, fun j => ?_, h.replaced, h.passed⟩
    rw [Ne, getElem?_set_some hi]
    rintro (⟨-, he⟩ | ⟨-, hj⟩)
    · exact h.replaced (ChatThread.copied.inj he)
    · exact h.uncopied j hj
  | send i =>
    obtain ⟨content', hi, rfl⟩ := chatStep_send hs
    refine ⟨h.cin, h.mem, ?_, fun j => ?_, h.replaced, h.passed⟩
    · rw [List.mem_append, List.mem_singleton, not_or]
      refine ⟨h.unsent, ?_⟩
      rintro rfl
      exact h.uncopied i hi
    · rw [Ne, getElem?_set_some hi]
      exact fun hj => hj.elim nofun fun hold => h.uncopied j hold.2

/-- Something will be missing, or something has been sent out of turn. -/
def Spoilt (lines : List Bytes) (s : ChatClient) : Prop :=
  (∃ content, Overwritten lines content s) ∨ ¬ s.sent <+: handedOn lines

theorem spoilt_step {lines : List Bytes} {s t : ChatClient} {a : ChatStep} (h : Spoilt lines s)
    (hs : chatStep s a = some t) : Spoilt lines t := by
  rcases h with ⟨content, hover⟩ | hsent
  · exact Or.inl ⟨content, overwritten_step hover hs⟩
  · exact Or.inr fun hprefix => hsent ((sent_step hs).trans hprefix)

/-- What a thread has still to copy was handed to no other thread. -/
theorem unsent_of_ready {lines handed : List Bytes} {s : ChatClient} {i : ℕ}
    (hnodup : handed.Nodup) (h : InOrder lines handed s) (hi : s.threads[i]? = some .ready) :
    s.sendingContent ∉ s.sent ∧
      ∀ j : ℕ, s.threads[j]? ≠ some (ChatThread.copied s.sendingContent) := by
  obtain ⟨-, hcontent⟩ := h.ready i hi
  have hmine {j : ℕ} (hj : handed[j]? = some s.sendingContent) : j = i := by
    obtain ⟨hlt, -⟩ := List.getElem?_eq_some_iff.mp hj
    apply (List.getElem?_inj hlt hnodup).mp
    exact hj.trans hcontent.symm
  constructor
  · intro hsent
    obtain ⟨j, hj⟩ := List.mem_iff_getElem?.mp hsent
    obtain ⟨hlt, -⟩ := List.getElem?_eq_some_iff.mp hj
    obtain rfl := hmine (getElem?_of_isPrefix h.sent hj)
    cases hi.symm.trans ((h.done j).mpr hlt)
  · intro j hj
    obtain rfl := hmine (h.copied j _ hj)
    cases hi.symm.trans hj

/-- Main overwrites a content that the last thread has still to copy. -/
theorem overwritten_of_line {lines handed : List Bytes} {s t : ChatClient}
    (hnodup : (handedOn lines).Nodup) (h : InOrder lines handed s) (ha : ¬ OneByOne s .line)
    (hs : chatStep s .line = some t) : Overwritten lines s.sendingContent t := by
  obtain ⟨i, hi⟩ := List.mem_iff_getElem?.mp (not_not.mp ha)
  obtain ⟨hstored, hcontent⟩ := h.ready i hi
  have hall := h.all
  rw [ChatClient.pending, hstored, if_neg Bool.false_ne_true, List.append_nil] at hall
  rw [hall, List.nodup_append] at hnodup
  obtain ⟨hhanded, -, hdisjoint⟩ := hnodup
  obtain ⟨hunsent, huncopied⟩ := unsent_of_ready hhanded h hi
  have hmem : s.sendingContent ∈ handed := List.mem_of_getElem? hcontent
  have hlines : s.sendingContent ∈ handedOn lines := hall ▸ List.mem_append_left _ hmem
  obtain ⟨-, rfl⟩ := chatStep_line hs
  obtain ⟨hcin, hnext⟩ := getline_ok h.cin s.sendbuf
  have hpassed : s.sendingContent ∉ handedOn s.cin.lines := fun hx => hdisjoint _ hmem _ hx rfl
  rw [hnext, List.mem_append, not_or] at hpassed
  refine ⟨hcin, hlines, hunsent, huncopied, ?_, hpassed.2⟩
  intro (he : cString (s.cin.getline s.sendbuf).2 = s.sendingContent)
  rw [he, typed_one (nonempty_of_mem_typed hlines)] at hpassed
  exact hpassed.1 (List.mem_singleton_self _)

/-- A thread sends before an earlier one. -/
theorem unordered_of_send {lines handed : List Bytes} {s t : ChatClient} {i : ℕ}
    (hnodup : (handedOn lines).Nodup) (h : InOrder lines handed s) (ha : ¬ OneByOne s (.send i))
    (hs : chatStep s (.send i) = some t) : ¬ t.sent <+: handedOn lines := by
  obtain ⟨content, hi, rfl⟩ := chatStep_send hs
  intro hprefix
  have hhanded : handed <+: handedOn lines := by
    rw [h.all, List.append_assoc]
    exact List.prefix_append _ _
  have hcontent : (handedOn lines)[i]? = some content :=
    getElem?_of_isPrefix hhanded (h.copied i content hi)
  have hlast : (handedOn lines)[s.sent.length]? = some content :=
    getElem?_of_isPrefix hprefix List.getElem?_concat_length
  obtain ⟨hlt, -⟩ := List.getElem?_eq_some_iff.mp hcontent
  have hfirst : i = s.sent.length :=
    (List.getElem?_inj hlt hnodup).mp (hcontent.trans hlast.symm)
  apply ha
  intro j hj
  rw [h.done j]
  omega

theorem spoilt_of_not_oneByOne {lines : List Bytes} {s t : ChatClient} {a : ChatStep}
    (hnodup : (handedOn lines).Nodup) (h : ∃ handed, InOrder lines handed s)
    (ha : ¬ OneByOne s a) (hs : chatStep s a = some t) : Spoilt lines t := by
  obtain ⟨handed, h⟩ := h
  cases a with
  | line => exact Or.inl ⟨_, overwritten_of_line hnodup h ha hs⟩
  | send i => exact Or.inr (unordered_of_send hnodup h ha hs)
  | spawn | copy => exact absurd trivial ha

/-- What is handed on has no NUL, whatever has been typed. -/
structure NulFree (s : ChatClient) : Prop where
  content : 0 ∉ s.sendingContent
  copied : ∀ content, ChatThread.copied content ∈ s.threads → 0 ∉ content
  sent : ∀ content ∈ s.sent, 0 ∉ content

theorem nulFree_step {s t : ChatClient} {a : ChatStep} (h : NulFree s)
    (hs : chatStep s a = some t) : NulFree t := by
  cases a with
  | line =>
    obtain ⟨-, rfl⟩ := chatStep_line hs
    exact ⟨zero_notMem_cString _, h.copied, h.sent⟩
  | spawn =>
    obtain ⟨-, hs⟩ := Option.ite_none_right_eq_some.mp hs
    cases hs
    refine ⟨h.content, fun content hmem => ?_, h.sent⟩
    dsimp only at hmem
    split_ifs at hmem
    · exact h.copied content hmem
    · rcases List.mem_append.mp hmem with hold | hnew
      · exact h.copied content hold
      · cases List.mem_singleton.mp hnew
  | copy i =>
    obtain ⟨-, hs⟩ := Option.ite_none_right_eq_some.mp hs
    cases hs
    refine ⟨h.content, fun content hmem => ?_, h.sent⟩
    rcases List.mem_or_eq_of_mem_set hmem with hold | hnew
    · exact h.copied content hold
    · cases hnew
      exact h.content
  | send i =>
    obtain ⟨content, hi, rfl⟩ := chatStep_send hs
    have hclean : 0 ∉ content := h.copied content (List.mem_of_getElem? hi)
    refine ⟨h.content, fun content' hmem => ?_, ?_⟩
    · rcases List.mem_or_eq_of_mem_set hmem with hold | hnew
      · exact h.copied content' hold
      · cases hnew
    · rw [List.forall_mem_append, List.forall_mem_singleton]
      exact ⟨h.sent, hclean⟩

theorem nulFree_start (lines : List Bytes) : NulFree (chatStart lines) where
  content := List.not_mem_nil
  copied _ h := absurd h List.not_mem_nil
  sent _ h := absurd h List.not_mem_nil

/-- When all has been read and sent, the contents sent are the non-empty lines if no line has a
NUL, main has never overwritten a content before it was copied, and the threads have sent in
the order of their creation; and only then, as far as the lines can be told apart. -/
theorem lines_sent_iff (lines : List Bytes) (hshort : ∀ line ∈ lines, line.length < sendbufSize)
    (as : List ChatStep) (s : ChatClient) (hr : run chatStep (chatStart lines) as = some s)
    (hend : s.Finished) :
    ((∀ line ∈ lines, 0 ∉ line) ∧ Guarded chatStep OneByOne (chatStart lines) as →
      s.sent = typed lines) ∧
    (s.sent = typed lines → (∀ line ∈ lines, 0 ∉ line) ∧
      ((typed lines).Nodup → Guarded chatStep OneByOne (chatStart lines) as)) := by
  constructor
  · rintro ⟨hnul, hg⟩
    obtain ⟨handed, h⟩ : ∃ handed, InOrder lines handed s :=
      run_rule chatStep (I := fun _ s => ∃ handed, InOrder lines handed s)
        ⟨[], inOrder_start hshort⟩ (fun _ _ _ _ _ hi ha hs => inOrder_step hi ha hs) hg hr
    rw [sent_of_finished h hend, handedOn_eq_typed hnul]
  · intro hsent
    have hclean : NulFree s :=
      run_invariant chatStep (I := fun _ s => NulFree s) (nulFree_start lines)
        (fun _ _ _ _ _ hi hs => nulFree_step hi hs) hr
    have hnul : ∀ line ∈ lines, 0 ∉ line := by
      intro line hline
      by_cases hempty : line = []
      · rw [hempty]
        exact List.not_mem_nil
      · apply hclean.sent line
        rw [hsent]
        apply List.mem_filter.mpr
        exact ⟨hline, decide_eq_true hempty⟩
    refine ⟨hnul, fun hnodup => ?_⟩
    rw [← handedOn_eq_typed hnul] at hnodup hsent
    by_contra hg
    have hspoilt : Spoilt lines s :=
      (run_split chatStep (I := fun s => ∃ handed, InOrder lines handed s)
        ⟨[], inOrder_start hshort⟩ (fun _ _ _ h ha hs => inOrder_step h ha hs)
        (fun _ _ _ h ha hs => spoilt_of_not_oneByOne hnodup h ha hs)
        (fun _ _ _ h hs => spoilt_step h hs) hr).2 hg
    rcases hspoilt with ⟨content, hover⟩ | hprefix
    · exact hover.unsent (hsent ▸ hover.mem)
    · exact hprefix (hsent ▸ List.prefix_refl _)

def twoLines : List Bytes := [ascii "one".toList, ascii "two".toList]

/-- The second line comes when the first has been sent. -/
def slowlyTyped : List ChatStep :=
  [.line, .spawn, .copy 0, .send 0, .line, .spawn, .copy 1, .send 1]

theorem slowly_typed_sent :
    ∃ s, run chatStep (chatStart twoLines) slowlyTyped = some s ∧ s.sent = typed twoLines :=
  ⟨_, rfl, (lines_sent_iff twoLines (by decide) slowlyTyped _ rfl ⟨rfl, rfl, by decide⟩).1
    ⟨by decide, by decide⟩⟩

/-- The second line comes before the first thread has looked at its argument. -/
def pasted : List ChatStep := [.line, .spawn, .line, .spawn, .copy 0, .copy 1, .send 0, .send 1]

theorem pasted_line_lost :
    ¬ ∀ lines : List Bytes, (∀ line ∈ lines, line.length < sendbufSize) →
      ∀ (as : List ChatStep) (s : ChatClient), run chatStep (chatStart lines) as = some s →
        s.Finished → s.sent = typed lines := by
  intro h
  exact absurd (h twoLines (by decide) pasted _ rfl ⟨rfl, rfl, by decide⟩) (by decide)

end LearningDirectory
