import EnclaveNetworkGateway.TcpStream
import EnclaveNetworkGateway.Transition

/-!
# The echo server

`run_echo_server` accepts one connection after the other and spawns a task for each of them.
The clients at the other ends do what they want.
-/
namespace EnclaveNetworkGateway

/-- Where the task of a connection is: not spawned yet, as the connection waits to be accepted,
at `read`, at `write_all` with what is left of the buffer, at `peer_addr().unwrap()` behind the
loop, or past it. An exit of the server takes its tasks with it. -/
inductive EchoTask where
  | backlog
  | reading
  | writing (rest : Bytes)
  | closing (ret : Except String Unit)
  | ended (ret : Except String Unit)
  | panicked
  | aborted
  deriving DecidableEq

namespace EchoTask

/-- `let mut buf = [0; 1024]`. -/
def bufferSize : ℕ := 1024

/-- `write_all` goes on as long as something is left. -/
def writeAll (rest : Bytes) : EchoTask := if rest = [] then reading else writing rest

/-- What a poll of the stream does to the task. -/
def poll : EchoTask → StreamOp → Option EchoTask
  | reading, .read bs => if bs.length ≤ bufferSize then some (writeAll bs) else none
  | reading, .readEof => some (closing (.ok ()))
  | reading, .readErr => some (closing (.error "Failed to receive data from client"))
  | writing rest, .write offer n => if offer = rest then some (writeAll (rest.drop n)) else none
  | writing _, .writeErr => some (closing (.error "Failed to send data to client"))
  | _, _ => none

/-- The bytes that the task has read and not written; a task that has left its loop takes
nothing more. -/
def conduit : EchoTask → Conduit UInt8
  | backlog | reading => 1
  | writing rest => .flow rest
  | closing _ | ended _ | panicked | aborted => .cut []

end EchoTask

/-- A connection from a client on the left to the server on the right, with all the bytes that
the client has sent and got. -/
structure EchoSession where
  stream : TcpStream
  task : EchoTask
  sent : Bytes
  got : Bytes
  deriving DecidableEq

inductive EchoAct where
  | serve (op : StreamOp)
  | peerAddr (ok : Bool)
  | client (op : StreamOp)
  | clientShutdown
  | clientDrop
  | sever (d : Side) (n : ℕ)
  deriving DecidableEq, Repr

namespace EchoSession

def new (cap : ℕ) (h : 0 < cap) : EchoSession := ⟨.new cap h, .backlog, [], []⟩

/-- A poll of the stream by the task. -/
def serve (c : EchoSession) (op : StreamOp) : Option EchoSession :=
  (c.task.poll op).bind fun t => (c.stream.io .right op).map fun s =>
    { c with stream := s, task := t }

/-- The task logs the address of the client, which a connection that was reset does not have,
and drops the stream. -/
def peerAddr (c : EchoSession) (ok : Bool) : Option EchoSession :=
  match c.task with
  | .closing ret =>
    if ok then some { c with stream := c.stream.drop .right, task := .ended ret }
    else if c.stream.mayFail .right then
      some { c with stream := c.stream.drop .right, task := .panicked }
    else none
  | _ => none

/-- A poll of the stream by the client. -/
def client (c : EchoSession) (op : StreamOp) : Option EchoSession :=
  (c.stream.io .left op).map fun s =>
    { c with stream := s, sent := c.sent ++ op.written, got := c.got ++ op.taken }

def step (c : EchoSession) : EchoAct → Option EchoSession
  | .serve op => c.serve op
  | .peerAddr ok => c.peerAddr ok
  | .client op => c.client op
  | .clientShutdown => (c.stream.shutdown .left).map fun s => { c with stream := s }
  | .clientDrop => some { c with stream := c.stream.drop .left }
  | .sever d n => some { c with stream := c.stream.sever d n }

/-- The server exits: the stream is dropped, unless that has happened before. -/
def abort (c : EchoSession) : EchoSession :=
  match c.task with
  | .ended _ | .panicked => c
  | _ => { c with stream := c.stream.drop .right, task := .aborted }

end EchoSession

/-- The server with all connections, the oldest first. -/
structure EchoServer where
  sessions : List EchoSession
  listening : Bool
  deriving DecidableEq

/-- `accept` takes the oldest connection that waits; `acceptFailed` and `peerAddrFailed` are the
two `?` of the loop, which end the server. -/
inductive EchoServerAct where
  | connect (cap : ℕ) (h : 0 < cap)
  | accept
  | acceptFailed
  | peerAddrFailed
  | session (i : ℕ) (a : EchoAct)
  deriving Repr

namespace EchoServer

def new : EchoServer := ⟨[], true⟩

def waiting (s : EchoServer) : Option ℕ := s.sessions.findIdx? (·.task = .backlog)

def exit (s : EchoServer) : EchoServer := ⟨s.sessions.map EchoSession.abort, false⟩

/-- A step of the session with index `i`. -/
def update (s : EchoServer) (i : ℕ) (f : EchoSession → Option EchoSession) : Option EchoServer :=
  (s.sessions[i]?.bind f).map fun c => { s with sessions := s.sessions.set i c }

def step (s : EchoServer) : EchoServerAct → Option EchoServer
  | .connect cap h =>
    if s.listening then some { s with sessions := s.sessions ++ [.new cap h] } else none
  | .accept =>
    if s.listening then
      s.waiting.bind fun i => s.update i fun c => some { c with task := .reading }
    else none
  | .acceptFailed => if s.listening then some s.exit else none
  | .peerAddrFailed =>
    if s.listening ∧ (s.waiting.bind (s.sessions[·]?)).any (·.stream.mayFail .right) then
      some s.exit
    else none
  | .session i a => s.update i (·.step a)

variable {s s' : EchoServer}

/-- What the life of one session keeps holds of all sessions of the server. -/
theorem forall_of_run {I : EchoSession → Prop} (hnew : ∀ cap h, I (.new cap h))
    (haccept : ∀ c, c.task = .backlog → I c → I { c with task := .reading })
    (habort : ∀ c, I c → I c.abort) (hstep : ∀ c a c', I c → c.step a = some c' → I c')
    {as : List EchoServerAct} (hrun : run step new as = some s) : ∀ c ∈ s.sessions, I c := by
  have hset : ∀ (s s' : EchoServer) i f, (∀ c ∈ s.sessions, I c) →
      (∀ c c', s.sessions[i]? = some c → I c → f c = some c' → I c') →
      s.update i f = some s' → ∀ c ∈ s'.sessions, I c := by
    intro s s' i f hs hf h
    obtain ⟨c', hc', rfl⟩ := Option.map_eq_some_iff.mp h
    obtain ⟨c, hc, hfc⟩ := Option.bind_eq_some_iff.mp hc'
    intro x hx
    cases List.mem_or_eq_of_mem_set hx with
    | inl hmem => exact hs x hmem
    | inr heq => exact heq ▸ hf c c' hc (hs c (List.mem_of_getElem? hc)) hfc
  have hexit : ∀ s : EchoServer, (∀ c ∈ s.sessions, I c) → ∀ c ∈ s.exit.sessions, I c := by
    intro s hs c hc
    obtain ⟨b, hb, rfl⟩ := List.mem_map.mp hc
    exact habort b (hs b hb)
  refine Run.invariant (I := fun s : EchoServer => ∀ c ∈ s.sessions, I c) ?_ ?_ hrun
  · intro s a s' hs h
    cases a with
    | connect cap hcap =>
      simp only [step] at h
      split_ifs at h
      obtain rfl := Option.some.inj h
      intro c hc
      cases List.mem_append.mp hc with
      | inl hmem => exact hs c hmem
      | inr hmem => exact List.mem_singleton.mp hmem ▸ hnew cap hcap
    | accept =>
      simp only [step] at h
      split_ifs at h
      obtain ⟨i, hi, hupdate⟩ := Option.bind_eq_some_iff.mp h
      refine hset s s' i _ hs (fun c c' hc hI hc' => ?_) hupdate
      obtain rfl := Option.some.inj hc'
      obtain ⟨hlt, htask, _⟩ := List.findIdx?_eq_some_iff_getElem.mp hi
      rw [List.getElem?_eq_getElem hlt] at hc
      obtain rfl := Option.some.inj hc
      exact haccept _ (by simpa using htask) hI
    | acceptFailed =>
      simp only [step] at h
      split_ifs at h
      obtain rfl := Option.some.inj h
      exact hexit s hs
    | peerAddrFailed =>
      simp only [step] at h
      split_ifs at h
      obtain rfl := Option.some.inj h
      exact hexit s hs
    | session i a => exact hset s s' i _ hs (fun c c' _ hI => hstep c a c' hI) h
  · simp [new]

end EchoServer

end EnclaveNetworkGateway
