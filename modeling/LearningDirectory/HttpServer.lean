import LearningDirectory.HttpIo
import Mathlib.Data.Finset.Basic
import Mathlib.Logic.Function.Basic

/-! The http server: the branches of its event loop, the close of an idle client by
`check_time_out`, and what they do to the table `fds` and to the kernel's own tables. -/
namespace LearningDirectory

structure ClientT where
  /-- the `countacp` of its `new client_t`, which tells the objects apart -/
  serial : ℕ
  fd : ℤ
  ip : Bytes
  readBuf : Bytes := []
  writeBuf : Bytes := []
  lastAliveTime : ℤ

/-- What a client socket is registered for, edge-triggered in both cases. -/
inductive Interest
  | epollin
  | epollout
deriving DecidableEq

/-- `fds` maps a descriptor to a pointer, which may be NULL. `conns` and `epoll` are the
kernel's: the accepted descriptors that are open, and the registered ones. -/
structure HttpServer where
  fds : ℤ → Option (Option ClientT) := fun _ => none
  conns : Finset ℤ := ∅
  epoll : ℤ → Option Interest := fun _ => none
  /-- `fds_mutex` is held by the main thread -/
  held : Bool := false
  countacp : ℕ := 0

/-- What the program does not survive: `->` on NULL, `close` of a descriptor that is not
open, and the two misuses of the mutex. -/
inductive Fault
  | nullDeref
  | badClose
  | relock
  | badUnlock
deriving DecidableEq

/-- What the calls made in one round of the event loop return. -/
structure Calls where
  accept : ℤ := -1
  inetNtoa : Bytes := []
  fcntl : FcntlCmd → ℤ := fun _ => 0
  epollCtl : ℤ := 0
  read : ℕ → Option Bytes := fun _ => none
  write : ℕ → ℤ := fun _ => -1
  /-- `errno == EAGAIN` -/
  eagain : Bool := false
  time : ℤ := 0

/-- How a branch ends: at its `pthread_mutex_unlock`, or by a `continue` before it. -/
inductive Flow
  | unlock
  | continue
deriving DecidableEq

namespace HttpServer

/-- The client that `fds[fd]->` reaches. -/
def client (s : HttpServer) (fd : ℤ) : Option ClientT := (s.fds fd).join

def deref (s : HttpServer) (fd : ℤ) : Except Fault ClientT :=
  match s.client fd with
  | some c => .ok c
  -- a missing entry is a NULL as well: `[]` makes one
  | none => .error .nullDeref

def store (s : HttpServer) (fd : ℤ) (p : Option ClientT) : HttpServer :=
  { s with fds := Function.update s.fds fd (some p) }

/-- `fds[fd]->last_alive_time=time(NULL)` -/
def touch (s : HttpServer) (fd time : ℤ) : Except Fault HttpServer := do
  let c ← s.deref fd
  pure (s.store fd (some { c with lastAliveTime := time }))

def close (s : HttpServer) (fd : ℤ) : Except Fault HttpServer :=
  -- the kernel takes a closed descriptor out of the epoll set
  if fd ∈ s.conns then
    .ok { s with conns := s.conns.erase fd, epoll := Function.update s.epoll fd none }
  else .error .badClose

def epollDel (s : HttpServer) (fd : ℤ) : HttpServer :=
  { s with epoll := Function.update s.epoll fd none }

def epollMod (s : HttpServer) (fd : ℤ) (events : Interest) (result : ℤ) : HttpServer :=
  if result = -1 then s
  else { s with epoll := Function.update s.epoll fd ((s.epoll fd).map fun _ => events) }

def lock (s : HttpServer) : Except Fault HttpServer :=
  if s.held then .error .relock else .ok { s with held := true }

def unlock (s : HttpServer) : Except Fault HttpServer :=
  if s.held then .ok { s with held := false } else .error .badUnlock

end HttpServer

/-! ### The branches of the event loop, between lock and unlock -/

def bufsize : ℕ := 8192

def oNonblock : ℕ := 2048

def acceptBody (calls : Calls) (s : HttpServer) : Except Fault (Flow × HttpServer) :=
  let connSock := calls.accept
  -- each of the three error exits is a `continue` with the mutex held
  if connSock = -1 then .ok (.continue, s)
  else
    let s := { s with conns := insert connSock s.conns }
    if setFl calls.fcntl oNonblock < 0 then do
      let s ← s.close connSock
      pure (.continue, s)
    else if calls.epollCtl = -1 then do
      let s ← s.close connSock
      pure (.continue, s)
    else
      let s := { s with epoll := Function.update s.epoll connSock (some .epollin) }
      let clientPtr : ClientT :=
        { serial := s.countacp, fd := connSock, ip := calls.inetNtoa, lastAliveTime := calls.time }
      .ok (.unlock, { s with countacp := s.countacp+1 }.store connSock (some clientPtr))

/-- `n` and `buf` are what `readn` left before the mutex was taken. -/
def epollinBody (fd n : ℤ) (buf : Bytes) (calls : Calls) (s : HttpServer) :
    Except Fault (Flow × HttpServer) := do
  let c ← s.deref fd
  let s := s.store fd (some { c with readBuf := c.readBuf ++ buf })
  if 0 ≤ n then
    let s ← (s.epollMod fd .epollout calls.epollCtl).touch fd calls.time
    pure (.unlock, s)
  -- a `continue` again, for which `readn` would have to be negative
  else if calls.eagain then pure (.continue, s)
  else
    let c ← s.deref fd
    let s ← s.close c.fd
    -- the entry is set to NULL and then written to
    let s ← (s.store fd none).touch fd calls.time
    pure (.unlock, s)

def page : Bytes := ascii
  "<html><head><title>hello world</title></head><body>hello world!!!</body></html>".toList

def response : Bytes :=
  ascii "HTTP/1.1 200 Ok\r\n".toList ++ ascii "Content-Type: text/html\r\n".toList ++
    (ascii "Content-Length: ".toList ++ decimal page.length ++ ascii "\r\n".toList) ++
    ascii "\r\n".toList ++ page

def epolloutBody (fd : ℤ) (calls : Calls) (s : HttpServer) :
    Except Fault (Flow × HttpServer) := do
  let c ← s.deref fd
  let s := s.store fd (some { c with writeBuf := response })
  let n := (writen calls.write response).1
  let s ← s.touch fd calls.time
  if n = response.length ∨ n < 0 then
    let s ← (s.epollDel fd).close fd
    pure (.unlock, s.store fd none)
  -- `write` returned 0
  else pure (.unlock, s)

/-- The locked part of `check_time_out`, for the entry of `fd`. -/
def timeoutClose (fd : ℤ) (s : HttpServer) : Except Fault HttpServer := do
  let c ← s.deref fd
  -- the descriptor is the one in the object, not the key
  let s ← (s.epollDel c.fd).close c.fd
  pure (s.store fd none)

/-! ### One round of the event loop -/

structure Event where
  fd : ℤ
  epollin : Bool
  epollout : Bool
deriving DecidableEq

/-- The end of a branch; `continue` jumps over the unlock. -/
def finish : Flow × HttpServer → Except Fault HttpServer
  | (.unlock, s) => s.unlock
  | (.continue, s) => .ok s

def iteration (listenSock : ℤ) (e : Event) (calls : Calls) (s : HttpServer) :
    Except Fault HttpServer :=
  if e.fd = listenSock then do
    finish (← acceptBody calls (← s.lock))
  else if e.epollin then do
    -- the only call that is made before the mutex is taken
    let (n, buf) := readn calls.read (List.replicate bufsize 0) bufsize
    finish (← epollinBody e.fd n buf calls (← s.lock))
  else if e.epollout then do
    finish (← epolloutBody e.fd calls (← s.lock))
  else .ok s

/-! ### What the branches do to an entry -/

theorem ok_of_toOption {ε α : Type*} {x : Except ε α} {a : α} (h : x.toOption = some a) :
    x = .ok a := by
  cases x with
  | error e => cases h
  | ok b => exact congrArg _ (Option.some.inj h)

namespace HttpServer

variable {s : HttpServer} {fd : ℤ} {c : ClientT}

theorem client_eq_some : s.client fd = some c ↔ s.fds fd = some (some c) := by
  rw [client, Option.join_eq_some_iff]

theorem deref_client (h : s.client fd = some c) : s.deref fd = .ok c := by
  rw [deref, h]

theorem deref_null (h : s.client fd = none) : s.deref fd = .error .nullDeref := by
  rw [deref, h]

@[simp] theorem client_store (s : HttpServer) (fd : ℤ) (p : Option ClientT) :
    (s.store fd p).client fd = p := by
  simp only [client, store, Function.update_self, Option.join_some]

@[simp] theorem store_store (s : HttpServer) (fd : ℤ) (p q : Option ClientT) :
    (s.store fd p).store fd q = s.store fd q := by
  simp only [store, Function.update_idem]

theorem client_store_ne {fd' : ℤ} (p : Option ClientT) (h : fd' ≠ fd) :
    (s.store fd p).client fd' = s.client fd' := by
  simp only [client, store, Function.update_of_ne h]

theorem client_store_apply (s : HttpServer) (fd fd' : ℤ) (p : Option ClientT) :
    (s.store fd p).client fd' = if fd' = fd then p else s.client fd' := by
  split_ifs with he
  · rw [he, client_store]
  · exact client_store_ne p he

theorem touch_client (time : ℤ) (h : s.client fd = some c) :
    s.touch fd time = .ok (s.store fd (some { c with lastAliveTime := time })) := by
  rw [touch, deref_client h]
  rfl

theorem client_epollMod (s : HttpServer) (fd : ℤ) (events : Interest) (result fd' : ℤ) :
    (s.epollMod fd events result).client fd' = s.client fd' := by
  rw [epollMod]
  split_ifs <;> rfl

theorem held_epollMod (s : HttpServer) (fd : ℤ) (events : Interest) (result : ℤ) :
    (s.epollMod fd events result).held = s.held := by
  rw [epollMod]
  split_ifs <;> rfl

def enter (s : HttpServer) (c : ClientT) : HttpServer :=
  { s with
    fds := Function.update s.fds c.fd (some (some c))
    conns := insert c.fd s.conns
    epoll := Function.update s.epoll c.fd (some .epollin)
    countacp := s.countacp+1 }

def refuse (s : HttpServer) (fd : ℤ) : HttpServer :=
  { s with conns := (insert fd s.conns).erase fd, epoll := Function.update s.epoll fd none }

def drop (s : HttpServer) (fd : ℤ) : HttpServer :=
  { s with
    fds := Function.update s.fds fd (some none)
    conns := s.conns.erase fd
    epoll := Function.update s.epoll fd none }

theorem close_epollDel (s : HttpServer) (fd : ℤ) :
    (s.epollDel fd).close fd =
      if fd ∈ s.conns then
        .ok { s with conns := s.conns.erase fd, epoll := Function.update s.epoll fd none }
      else .error .badClose := by
  rw [close, epollDel]
  simp only [Function.update_idem]

end HttpServer

open HttpServer

/-- All that has to succeed for an accepted connection to be entered into `fds`. -/
def SetupOk (calls : Calls) : Prop :=
  calls.accept ≠ -1 ∧ 0 ≤ calls.fcntl .getfl ∧
    0 ≤ calls.fcntl (.setfl ((calls.fcntl .getfl).toNat ||| oNonblock)) ∧ calls.epollCtl ≠ -1

instance (calls : Calls) : Decidable (SetupOk calls) := by
  unfold SetupOk
  infer_instance

def newClient (calls : Calls) (s : HttpServer) : ClientT :=
  { serial := s.countacp, fd := calls.accept, ip := calls.inetNtoa, lastAliveTime := calls.time }

theorem acceptBody_eq (calls : Calls) (s : HttpServer) :
    acceptBody calls s =
      if SetupOk calls then .ok (.unlock, s.enter (newClient calls s))
      else .ok (.continue, if calls.accept = -1 then s else s.refuse calls.accept) := by
  by_cases haccept : calls.accept = -1
  · simp [acceptBody, SetupOk, haccept]
  have hclose : close { s with conns := insert calls.accept s.conns } calls.accept =
      .ok (s.refuse calls.accept) := by
    rw [close, if_pos (Finset.mem_insert_self ..), refuse]
  by_cases hset : setFl calls.fcntl oNonblock < 0
  -- the second error exit
  · have hno : ¬ SetupOk calls := by
      rintro ⟨-, hget, hsetfl, -⟩
      rcases setFl_neg.mp hset with h | h <;> omega
    rw [acceptBody, if_neg haccept, if_pos hset, if_neg hno, if_neg haccept, hclose]
    rfl
  have hflags := mt setFl_neg.mpr hset
  push Not at hflags
  by_cases hctl : calls.epollCtl = -1
  -- the third
  · have hno : ¬ SetupOk calls := fun h => h.2.2.2 hctl
    rw [acceptBody, if_neg haccept, if_neg hset, if_pos hctl, if_neg hno, if_neg haccept, hclose]
    rfl
  · rw [acceptBody, if_neg haccept, if_neg hset, if_neg hctl,
      if_pos ⟨haccept, hflags.1, hflags.2, hctl⟩]
    rfl

theorem epollinBody_eq {fd n : ℤ} {s : HttpServer} {c : ClientT} (hn : 0 ≤ n)
    (h : s.client fd = some c) (buf : Bytes) (calls : Calls) :
    epollinBody fd n buf calls s = .ok (.unlock, (s.epollMod fd .epollout calls.epollCtl).store fd
      (some { c with readBuf := c.readBuf ++ buf, lastAliveTime := calls.time })) := by
  have hmod (t : HttpServer) (p : Option ClientT) :
      (t.store fd p).epollMod fd .epollout calls.epollCtl =
        (t.epollMod fd .epollout calls.epollCtl).store fd p := by
    simp only [epollMod]
    split_ifs <;> rfl
  let c' : ClientT := { c with readBuf := c.readBuf ++ buf }
  have htouch : ((s.store fd (some c')).epollMod fd .epollout calls.epollCtl).touch fd calls.time =
      .ok ((s.epollMod fd .epollout calls.epollCtl).store fd
        (some { c' with lastAliveTime := calls.time })) := by
    rw [hmod, touch_client calls.time (client_store ..), store_store]
  rw [epollinBody, deref_client h]
  show (if 0 ≤ n then _ else _) = _
  rw [if_pos hn, htouch]
  rfl

theorem epolloutBody_eq {fd : ℤ} {s : HttpServer} {c : ClientT} (h : s.client fd = some c)
    (calls : Calls) :
    epolloutBody fd calls s =
      if (writen calls.write response).1 = response.length ∨ (writen calls.write response).1 < 0
      then if fd ∈ s.conns then .ok (.unlock, s.drop fd) else .error .badClose
      else .ok (.unlock,
        s.store fd (some { c with writeBuf := response, lastAliveTime := calls.time })) := by
  let c' : ClientT := { c with writeBuf := response }
  have htouch : (s.store fd (some c')).touch fd calls.time =
      .ok (s.store fd (some { c' with lastAliveTime := calls.time })) := by
    rw [touch_client calls.time (client_store ..), store_store]
  rw [epolloutBody, deref_client h]
  change ((s.store fd (some c')).touch fd calls.time >>= _) = _
  rw [htouch]
  change (if _ then _ else _) = _
  refine if_congr Iff.rfl ?_ rfl
  -- the two stores into the entry are overwritten by the NULL
  rw [close_epollDel]
  change (if fd ∈ s.conns then _ else _) >>= _ = _
  split_ifs
  · simp only [store, drop, bind, pure, Except.bind, Except.pure, Function.update_idem]
  · rfl

theorem timeoutClose_eq {fd : ℤ} {s : HttpServer} {c : ClientT} (h : s.client fd = some c) :
    timeoutClose fd s =
      if c.fd ∈ s.conns then
        .ok ({ s with
          conns := s.conns.erase c.fd
          epoll := Function.update s.epoll c.fd none }.store fd none)
      else .error .badClose := by
  rw [timeoutClose, deref_client h]
  change (((s.epollDel c.fd).close c.fd) >>= _) = _
  rw [close_epollDel]
  split_ifs <;> rfl

end LearningDirectory
