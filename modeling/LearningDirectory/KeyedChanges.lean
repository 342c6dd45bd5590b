import Mathlib.Data.List.Induction
import Mathlib.Logic.Function.Basic

/-! A log of changes to keys, each of which binds its key to a value or removes it: what
the whole log says of a key, and what a table says that never gives up its first entry. -/
namespace KeyedChanges

structure Change (κ ν : Type*) where
  key : κ
  value : Option ν
deriving DecidableEq

variable {κ ν : Type*} [DecidableEq κ]

/-- Later changes of a key replace earlier ones. -/
def replay (cs : List (Change κ ν)) : κ → Option ν :=
  cs.foldl (fun d c => Function.update d c.key c.value) fun _ => none

def lastChange (cs : List (Change κ ν)) (k : κ) : Option (Option ν) :=
  ((cs.filter fun c => c.key = k).getLast?).map Change.value

/-- The value of the first change that binds the key. -/
def firstBound (cs : List (Change κ ν)) (k : κ) : Option ν :=
  cs.findSome? fun c => if c.key = k then c.value else none

theorem replay_append_one (cs : List (Change κ ν)) (c : Change κ ν) :
    replay (cs ++ [c]) = Function.update (replay cs) c.key c.value := by
  rw [replay, List.foldl_append]
  rfl

theorem lastChange_append_one (cs : List (Change κ ν)) (c : Change κ ν) (k : κ) :
    lastChange (cs ++ [c]) k = if c.key = k then some c.value else lastChange cs k := by
  rw [lastChange, List.filter_append]
  by_cases h : c.key = k
  · rw [List.filter_cons_of_pos (by simpa using h), List.filter_nil, List.getLast?_concat,
      if_pos h]
    rfl
  · rw [List.filter_cons_of_neg (by simpa using h), List.filter_nil, List.append_nil, if_neg h]
    rfl

theorem firstBound_append_one (cs : List (Change κ ν)) (c : Change κ ν) (k : κ) :
    firstBound (cs ++ [c]) k =
      (firstBound cs k).or (if c.key = k then c.value else none) := by
  rw [firstBound, List.findSome?_append, List.findSome?_singleton]
  rfl

/-- The last change of a key decides. -/
theorem replay_eq (cs : List (Change κ ν)) (k : κ) : replay cs k = (lastChange cs k).join := by
  induction cs using List.reverseRecOn with
  | nil => rfl
  | append_singleton cs c ih =>
    rw [replay_append_one, lastChange_append_one, Function.update_apply]
    by_cases h : c.key = k
    · rw [if_pos h.symm, if_pos h, Option.join_some]
    · rw [if_neg (Ne.symm h), if_neg h, ih]

theorem firstBound_isSome {cs : List (Change κ ν)} {k : κ} {v : ν}
    (h : lastChange cs k = some (some v)) : (firstBound cs k).isSome := by
  rw [lastChange, Option.map_eq_some_iff] at h
  obtain ⟨c, hc, hv⟩ := h
  have hmem := List.mem_filter.mp (List.mem_of_getLast? hc)
  rw [firstBound, List.findSome?_isSome_iff]
  refine ⟨c, hmem.1, ?_⟩
  rw [if_pos (by simpa using hmem.2), hv]
  rfl

/-- A table that keeps first entries is right about a log exactly if each key it holds was
bound to that same value by its last change. -/
theorem firstBound_eq_replay_iff (cs : List (Change κ ν)) :
    (∀ k, firstBound cs k = replay cs k) ↔
      ∀ k v, firstBound cs k = some v → lastChange cs k = some (some v) := by
  constructor
  · intro h k v hfirst
    rw [h k, replay_eq, Option.join_eq_some_iff] at hfirst
    exact hfirst
  · intro h k
    cases hfirst : firstBound cs k with
    | some v => rw [replay_eq, h k v hfirst, Option.join_some]
    | none =>
      -- a key that was never bound is not bound by its last change either
      rw [replay_eq]
      cases hlast : (lastChange cs k).join with
      | none => rfl
      | some v =>
        have hsome := firstBound_isSome (Option.join_eq_some_iff.mp hlast)
        rw [hfirst] at hsome
        cases hsome

end KeyedChanges
