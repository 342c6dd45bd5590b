import LearningDirectory.NetapiFraming
import LearningDirectory.NetapiHandoff
import LearningDirectory.NetapiIsolation

/-! The client processes of `client.cpp` and the server, joined by byte streams. Clients
connect and send while the server accepts, starts its handlers and reads. -/
namespace LearningDirectory
open StepRun PaddedField

/-- The functions of `client.cpp` that call `sendmsg`. -/
inductive ClientCall
  | reg
  | heartbeat
  | dereg
  | sendmsgTo (content : Content) (toProcname : ProcName)
deriving DecidableEq

def regContent : Content :=
  ⟨ascii ['t', 'h', 'i', 's', ' ', 'i', 's', ' ', 'a', ' ', 'r', 'e', 'g', ' ', 'm', 's', 'g'],
    by decide, by decide⟩

def heartContent : Content :=
  ⟨ascii ['t', 'h', 'i', 's', ' ', 'i', 's', ' ', 'a', ' ', 'h', 'e', 'a', 'r', 't', ' ', 'm',
    's', 'g'], by decide, by decide⟩

def deregContent : Content :=
  ⟨ascii ['t', 'h', 'i', 's', ' ', 'i', 's', ' ', 'a', ' ', 'd', 'e', 'g', ' ', 'm', 's', 'g'],
    by decide, by decide⟩

def norText : Bytes := ascii ['n', 'o', 'r']

/-- What each of them passes to `sendmsg`. -/
def ClientCall.message : ClientCall → Message
  | .reg => ⟨regText, rfl, regContent, server1Name⟩
  | .heartbeat => ⟨ascii ['h', 'r', 't'], rfl, heartContent, server1Name⟩
  | .dereg => ⟨ascii ['d', 'e', 'g'], rfl, deregContent, server1Name⟩
  | .sendmsgTo content toProcname => ⟨norText, rfl, content, toProcname⟩

def callFrame (c : Client) (k : ClientCall) : Frame := messageFrame c k.message

/-- The process at the other end of a connection. -/
structure Peer where
  client : Client
  /-- the calls that its main thread and its heartbeat thread have made, in the order of
  their `send`s -/
  calls : List ClientCall := []
  /-- what the server has not read yet -/
  wire : Bytes := []
  exited : Bool := false

structure Network where
  server : ServerThreads
  /-- the processes by the descriptor that `accept` returns, or will return, for them -/
  peer : ℤ → Option Peer := fun _ => none
  /-- what the handlers have put out, each entry with the descriptor of its handler -/
  log : List (ℤ × Output) := []

inductive NetworkStep
  | connect (sockfd : ℤ) (c : Client)
  | call (sockfd : ℤ) (k : ClientCall)
  | exit (sockfd : ℤ)
  | accept (newSock : ℤ)
  | start
  | recv (i : ℕ) (bytes : Bytes)
  | recvError (i : ℕ)

namespace Peer

/-- `client_reg` in `client_startup` comes before any other call. -/
def Calls (p : Peer) (k : ClientCall) : Prop := p.exited = false ∧ (p.calls = [] → k = .reg)

instance (p : Peer) (k : ClientCall) : Decidable (p.Calls k) :=
  inferInstanceAs (Decidable (_ ∧ _))

/-- One `send` puts the whole message behind what is already there. -/
def sends (p : Peer) (k : ClientCall) : Peer :=
  { p with calls := p.calls ++ [k], wire := p.wire ++ (callFrame p.client k).bytes }

/-- What a `recv` may return: some of the bytes that are there, or none when the process has
gone and nothing is left. -/
def Offers (p : Peer) (bytes : Bytes) : Prop :=
  bytes <+: p.wire ∧ (bytes = [] → p.wire = [] ∧ p.exited = true)

instance (p : Peer) (bytes : Bytes) : Decidable (p.Offers bytes) :=
  inferInstanceAs (Decidable (_ ∧ _))

def read (p : Peer) (bytes : Bytes) : Peer := { p with wire := p.wire.drop bytes.length }

@[simp] theorem read_client (p : Peer) (bytes : Bytes) : (p.read bytes).client = p.client := rfl
@[simp] theorem read_calls (p : Peer) (bytes : Bytes) : (p.read bytes).calls = p.calls := rfl

end Peer

namespace Network

def setPeer (s : Network) (sockfd : ℤ) (p : Peer) : Network :=
  { s with peer := Function.update s.peer sockfd (some p) }

/-- After the `i`-th handler took in `bytes` from `sockfd`. -/
def afterRecv (s : Network) (i : ℕ) (sockfd : ℤ) (p : Peer) (bytes : Bytes) (t : Turn) :
    Network where
  server := s.server.afterTurn i (sockfd, t)
  peer := Function.update s.peer sockfd (some (p.read bytes))
  log := s.log ++ t.out.map fun o => (sockfd, o)

@[simp] theorem afterRecv_peer (s : Network) (i : ℕ) (sockfd : ℤ) (p : Peer) (bytes : Bytes)
    (t : Turn) : (s.afterRecv i sockfd p bytes t).peer =
      Function.update s.peer sockfd (some (p.read bytes)) := rfl

/-- What the handlers of `sockfd` have put out. -/
def outOf (s : Network) (sockfd : ℤ) : List Output :=
  s.log.filterMap fun e => if e.1 = sockfd then some e.2 else none

/-- Each entry of the log that is a `send` of the relay branch. -/
def sent (s : Network) : List Write :=
  s.log.flatMap fun e => writes e.1 [e.2]

end Network

/-- The steps of the server are those of its threads, with `recv` fed by the connections. A `send`
always comes back: that one to an exited process may end the server (SIGPIPE) and that one
without room waits is left out, which only adds runs. -/
def networkStep (s : Network) : NetworkStep → Option Network
  | .connect sockfd c =>
    if sockfd < 0 ∨ (s.peer sockfd).isSome then none
    else some (s.setPeer sockfd { client := c })
  | .call sockfd k =>
    match s.peer sockfd with
    | some p => if p.Calls k then some (s.setPeer sockfd (p.sends k)) else none
    | none => none
  | .exit sockfd =>
    match s.peer sockfd with
    | some p => some (s.setPeer sockfd { p with exited := true })
    | none => none
  | .accept newSock =>
    -- a failed accept returns -1
    if newSock = -1 ∨ (s.peer newSock).isSome ∧ newSock ∉ s.server.net.recvsock then
      (threadStep s.server (.accept newSock)).map fun t => { s with server := t }
    else none
  | .start => (threadStep s.server .start).map fun t => { s with server := t }
  | .recv i bytes =>
    match s.server.turn i (.data bytes) with
    | some (sockfd, t) =>
      match s.peer sockfd with
      | some p =>
        if s.server.exited = false ∧ p.Offers bytes then some (s.afterRecv i sockfd p bytes t)
        else none
      | none => none
    | none => none
  | .recvError i => (threadStep s.server (.recv i .error)).map fun t => { s with server := t }

/-- Before any process has connected. -/
def networkStart (processname : Bytes) : Network where
  server := { net := serverStart processname }

/-- No call fails, an accept waits until the handlers of the earlier connections have
started, and a `recv` waits for all it asks for or the end of the stream. -/
def Steady (s : Network) : NetworkStep → Prop
  | .accept newSock => newSock ≠ -1 ∧ s.server.spawned = 0
  | .recv i bytes =>
    bytes = [] ∨ (s.server.handlers[i]?).map (fun x => x.2.size) = some bytes.length
  | .recvError _ => False
  | _ => True

instance decidableSteady (s : Network) : (a : NetworkStep) → Decidable (Steady s a)
  | .connect _ _ => isTrue trivial
  | .call _ _ => isTrue trivial
  | .exit _ => isTrue trivial
  | .accept newSock => inferInstanceAs (Decidable (newSock ≠ -1 ∧ s.server.spawned = 0))
  | .start => isTrue trivial
  | .recv i bytes => inferInstanceAs (Decidable (bytes = [] ∨
      (s.server.handlers[i]?).map (fun x => x.2.size) = some bytes.length))
  | .recvError _ => isFalse id

end LearningDirectory
