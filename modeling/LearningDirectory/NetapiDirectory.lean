import LearningDirectory.KeyedChanges
import LearningDirectory.NetapiServer

/-! The directory that the reg and deg messages of a run describe, against the table that
`regist` keeps: `map::insert` never replaces a binding, and nothing handles a deg message. -/
namespace LearningDirectory
open StepRun KeyedChanges

def degText : Bytes := ascii ['d', 'e', 'g']

/-- What a message read from `sockfd` says of the name it comes from. -/
def frameChange (sockfd : ℤ) (f : Frame) : Option (Change Bytes ℤ) :=
  if (frameHead f).mType = regText then some ⟨(frameHead f).procname, some sockfd⟩
  else if (frameHead f).mType = degText then some ⟨(frameHead f).procname, none⟩
  else none

def eventChange : ServerEvent → Option (Change Bytes ℤ)
  | .accept _ => none
  | .message sockfd f => frameChange sockfd f

def changes (events : List ServerEvent) : List (Change Bytes ℤ) := events.filterMap eventChange

/-- The reference: a reg binds its name anew, a deg removes it. -/
def directory (events : List ServerEvent) : Bytes → Option ℤ := replay (changes events)

/-- Each reg message is read from the connection accepted last. -/
def RegsFromLast (n : Netapi) : ServerEvent → Prop
  | .accept _ => True
  | .message sockfd f => (frameHead f).mType = regText → n.back = some sockfd

instance decidableRegsFromLast (n : Netapi) : (e : ServerEvent) → Decidable (RegsFromLast n e)
  | .accept _ => isTrue trivial
  | .message sockfd f =>
    inferInstanceAs (Decidable ((frameHead f).mType = regText → n.back = some sockfd))

/-- The table is the directory, so a frame for another process goes to the connection
from which its destination registered last. -/
structure Describes (events : List ServerEvent) (n : Netapi) : Prop where
  table : ∀ name, n.regtable.lookup name = directory events name
  relay : ∀ f d, (frameHead f).toProcname ≠ n.processname →
    directory events (frameHead f).toProcname = some d →
      (recvBody n (frameHead f) (f.bytes.take 60) (.data (f.bytes.drop 60))).out =
        [.trans d f.bytes]

/-- Every name that a reg message binds is last mentioned by a reg from the connection that
bound it first. -/
def FirstIsLast (events : List ServerEvent) : Prop :=
  ∀ name d, firstBound (changes events) name = some d →
    lastChange (changes events) name = some (some d)

theorem changes_append_one (events : List ServerEvent) (e : ServerEvent) :
    changes (events ++ [e]) = changes events ++ (eventChange e).toList := by
  rw [changes, List.filterMap_append]
  cases h : eventChange e <;> simp [changes, h]

theorem frameChange_reg {f : Frame} (sockfd : ℤ) (h : (frameHead f).mType = regText) :
    frameChange sockfd f = some ⟨(frameHead f).procname, some sockfd⟩ := if_pos h

/-- Only a reg message binds a name. -/
theorem value_of_other {sockfd : ℤ} {f : Frame} {c : Change Bytes ℤ}
    (h : (frameHead f).mType ≠ regText) (hc : frameChange sockfd f = some c) :
    c.value = none := by
  rw [frameChange, if_neg h] at hc
  split_ifs at hc
  cases hc
  rfl

theorem firstBound_of_unbound {cs : List (Change Bytes ℤ)} {c : Option (Change Bytes ℤ)}
    (h : ∀ c' ∈ c, c'.value = none) (name : Bytes) :
    firstBound (cs ++ c.toList) name = firstBound cs name := by
  cases c with
  | none => rw [Option.toList_none, List.append_nil]
  | some c =>
    rw [Option.toList_some, firstBound_append_one, h c rfl, ite_self, Option.or_none]

theorem lookup_step {pre : List ServerEvent} {n m : Netapi} {e : ServerEvent}
    (h : ∀ name, n.regtable.lookup name = firstBound (changes pre) name)
    (hreg : RegsFromLast n e) (hs : serverStep n e = some m) (name : Bytes) :
    m.regtable.lookup name = firstBound (changes (pre ++ [e])) name := by
  rw [changes_append_one]
  rcases serverStep_cases hs with ⟨newSock, rfl, rfl⟩ | ⟨s, f, rfl, hother, rfl⟩ |
    ⟨s, f, d, rfl, hmsg, hb, rfl⟩
  · rw [firstBound_of_unbound (fun c hc => by cases hc)]
    exact h name
  · have hnone : ∀ c ∈ eventChange (.message s f), c.value = none := by
      intro c hc
      exact value_of_other hother hc
    rw [firstBound_of_unbound hnone]
    exact h name
  · -- the descriptor at the back is the reader's
    have hd : s = d := Option.some.inj ((hreg hmsg).symm.trans hb)
    subst hd
    rw [eventChange, frameChange_reg s hmsg, Option.toList_some, firstBound_append_one,
      lookup_regist, ← h name]
    by_cases hname : name = (frameHead f).procname
    · subst hname
      by_cases hmem : (frameHead f).procname ∈ n.regtable
      · obtain ⟨d', hd'⟩ := Option.isSome_iff_exists.mp (AList.lookup_isSome.mpr hmem)
        rw [if_neg (fun hn => hn.2 hmem), hd']
        rfl
      · rw [if_pos ⟨rfl, hmem⟩, AList.lookup_eq_none.mpr hmem, if_pos rfl]
        rfl
    · rw [if_neg (fun hn => hname hn.1), if_neg (Ne.symm hname), Option.or_none]

/-- The table holds the first binding of each name. -/
theorem lookup_eq_firstBound {processname : Bytes} {events : List ServerEvent} {n : Netapi}
    (h : run serverStep (serverStart processname) events = some n)
    (hreg : Guarded serverStep RegsFromLast (serverStart processname) events) (name : Bytes) :
    n.regtable.lookup name = firstBound (changes events) name := by
  have hinv : ∀ name, n.regtable.lookup name = firstBound (changes events) name :=
    run_rule serverStep (I := fun pre n =>
      ∀ name, n.regtable.lookup name = firstBound (changes pre) name)
      (fun _ => rfl) (fun pre t a u _ hi ha hs => lookup_step hi ha hs) hreg h
  exact hinv name

theorem recvBody_relay {n : Netapi} {f : Frame} {d : ℤ}
    (hpeer : (frameHead f).toProcname ≠ n.processname)
    (hd : n.regtable.lookup (frameHead f).toProcname = some d) :
    (recvBody n (frameHead f) (f.bytes.take 60) (.data (f.bytes.drop 60))).out =
      [.trans d f.bytes] := by
  rw [recvBody_data n _ _ (drop_frame_ne_nil f), bodyOutput, if_neg hpeer, transSock_eq_lookup,
    hd, fillBuffer_full (length_drop_frame f), List.take_append_drop]
  rfl

/-- When each reg message comes from the connection accepted last, the table is the
directory exactly if every registered name was last mentioned by a reg from its first
connection. -/
theorem describes_iff (processname : Bytes) (events : List ServerEvent) (n : Netapi)
    (h : run serverStep (serverStart processname) events = some n)
    (hreg : Guarded serverStep RegsFromLast (serverStart processname) events) :
    Describes events n ↔ FirstIsLast events := by
  have htable (name : Bytes) := lookup_eq_firstBound h hreg name
  rw [FirstIsLast, ← firstBound_eq_replay_iff]
  constructor
  · intro hdesc name
    rw [← htable]
    exact hdesc.table name
  · intro hfirst
    have heq (name : Bytes) : n.regtable.lookup name = directory events name :=
      (htable name).trans (hfirst name)
    refine ⟨heq, fun f d hpeer hd => ?_⟩
    exact recvBody_relay hpeer ((heq _).trans hd)

theorem single_registration_described :
    ∃ n, run serverStep (serverStart server1.processname) [.accept 4, .message 4 regFrame] =
        some n ∧
      Describes [.accept 4, .message 4 regFrame] n := by
  refine ⟨_, rfl, (describes_iff server1.processname _ _ rfl (by decide +kernel)).mpr ?_⟩
  have hchanges : changes [.accept 4, .message 4 regFrame] =
      [⟨(frameHead regFrame).procname, some 4⟩] := by decide +kernel
  intro name d hfirst
  rw [hchanges] at hfirst ⊢
  by_cases hname : (frameHead regFrame).procname = name
  · subst hname
    cases hfirst
    decide +kernel
  · simp [firstBound, hname] at hfirst

/-- `client1` connects anew and registers again. -/
def reconnectEvents : List ServerEvent :=
  [.accept 4, .message 4 regFrame, .accept 5, .message 5 regFrame]

theorem reconnect_not_described :
    ¬ ∀ (processname : Bytes) (events : List ServerEvent) (n : Netapi),
      run serverStep (serverStart processname) events = some n →
      Guarded serverStep RegsFromLast (serverStart processname) events →
        Describes events n := by
  intro h
  have hdesc := h server1.processname reconnectEvents _ rfl (by decide +kernel)
  have htable := hdesc.table (frameHead regFrame).procname
  revert htable
  decide +kernel

end LearningDirectory
