import EnclaveNetworkGateway.DuplexPipe

/-!
# A session of `negotiate_async`

The rats-tls handle and the socket live in one tuple behind an `Arc`. Its owners are
the future of `negotiate_async`, the blocking closure that negotiates, and the writer
and the reader task. A step is one call of the library, from its start or up to its
return, or what an owner does between two of them.
-/
namespace EnclaveNetworkGateway

/-- The functions that take the handle of a session. -/
inductive FfiCall where
  | negotiate
  | transmit
  | receive
  deriving DecidableEq, Repr

/-- What happens to the handle and to the socket. -/
inductive SessionEvent where
  | call (c : FfiCall)
  | ret (c : FfiCall) (ok : Bool)
  | cleanup
  | cleanupRet
  | socketClosed
  deriving DecidableEq, Repr

/-- Whether `rats_tls_cleanup` runs on the handle, or has run. -/
inductive HandleState where
  | live
  | cleaning
  | cleaned
  deriving DecidableEq, Repr

/-- `Arc<(RatsTls, TcpStream)>` with its history. Before the `Arc` is made its parts have
one owner, the future. -/
structure SessionArc where
  strong : ℕ
  handle : HandleState
  socketOpen : Bool
  trace : List SessionEvent
  deriving DecidableEq, Repr

namespace SessionArc

def new : SessionArc := ⟨1, .live, true, []⟩

def clone (a : SessionArc) : SessionArc := { a with strong := a.strong + 1 }

def emit (a : SessionArc) (ev : SessionEvent) : SessionArc := { a with trace := a.trace ++ [ev] }

def closeSocket (a : SessionArc) : SessionArc :=
  { a with socketOpen := false, trace := a.trace ++ [.socketClosed] }

/-- One owner goes. The last one drops the tuple, field by field: `RatsTls` first, whose
`drop` is `rats_tls_cleanup`. -/
def release (a : SessionArc) : SessionArc :=
  if a.strong = 1 then
    { a with strong := 0, handle := .cleaning, trace := a.trace ++ [.cleanup] }
  else { a with strong := a.strong - 1 }

end SessionArc

namespace Session

/-- The future: not polled yet, with the socket in blocking mode missing, with the `Arc`,
at the first `.await`, past it, with the writer task spawned, and gone. -/
inductive Caller where
  | unpolled
  | std
  | shared
  | awaiting
  | negotiated
  | writerSpawned
  | returned (ok : Bool)
  | dropped
  deriving DecidableEq, Repr

/-- The closure that negotiates. A closure that is never started ends with no result. -/
inductive Negotiator where
  | unspawned
  | queued
  | calling
  | done (ok : Bool)
  | finished (result : Option Bool)
  deriving DecidableEq, Repr

/-- The writer task: `off` and `len` are `w_off` and `r_len`. `unwinding` is the panic of
`w_off += w_len` past the range of `usize`. -/
inductive Writer where
  | unspawned
  | queued
  | reading
  | looping (off len : ℕ)
  | calling (off len : ℕ)
  | leaving
  | left
  | unwinding
  | ended
  deriving DecidableEq, Repr

/-- The reader task. `unwinding` is the panic of `&buf[..r_len]` past the buffer. -/
inductive Reader where
  | unspawned
  | queued
  | looping
  | calling
  | writing
  | leaving
  | left
  | unwinding
  | ended
  deriving DecidableEq, Repr

inductive CallerEvent where
  | intoStd (ok : Bool)
  | setNonblocking (ok : Bool)
  | spawn
  | join
  | drop
  deriving DecidableEq, Repr

inductive NegotiatorEvent where
  | call
  | ret (ok : Bool)
  | discard
  | drop
  deriving DecidableEq, Repr

/-- `none` is an error of the read or of the transmit. -/
inductive WriterEvent where
  | start
  | discard
  | read (r : Option ℕ)
  | call
  | ret (w : Option ℕ)
  | next
  | shutdown
  | drop
  deriving DecidableEq, Repr

inductive ReaderEvent where
  | start
  | discard
  | call
  | ret (r : Option ℕ)
  | write (ok : Bool)
  | shutdown
  | drop
  deriving DecidableEq, Repr

end Session

open Session in
structure Session where
  caller : Caller
  negotiator : Negotiator
  writer : Writer
  reader : Reader
  arc : SessionArc
  deriving DecidableEq, Repr

open Session in
inductive SessionAct where
  | caller (ev : CallerEvent)
  | negotiator (ev : NegotiatorEvent)
  | writer (ev : WriterEvent)
  | reader (ev : ReaderEvent)
  | cleanupRet
  | closeSocket
  deriving DecidableEq, Repr

namespace Session

/-- The future that `negotiate_async` returns. -/
def new : Session := ⟨.unpolled, .unspawned, .unspawned, .unspawned, .new⟩

/-- A step of the future. It can be dropped before its first poll and at its `.await`. -/
def callerStep (s : Session) (ev : CallerEvent) : Option Session :=
  match s.caller, ev with
  | .unpolled, .intoStd true => some { s with caller := .std }
  | .unpolled, .intoStd false | .std, .setNonblocking false =>
    -- `?`: the stream is dropped with the result, then `self`
    some { s with caller := .returned false, arc := s.arc.closeSocket.release }
  | .std, .setNonblocking true => some { s with caller := .shared }
  | .shared, .spawn => some { s with
      caller := .awaiting
      negotiator := .queued
      arc := s.arc.clone }
  | .awaiting, .join =>
    match s.negotiator with
    | .finished (some true) => some { s with caller := .negotiated }
    | .finished _ => some { s with caller := .returned false, arc := s.arc.release }
    | _ => none
  | .negotiated, .spawn => some { s with
      caller := .writerSpawned
      writer := .queued
      arc := s.arc.clone }
  -- the last clone is moved into the reader task
  | .writerSpawned, .spawn => some { s with caller := .returned true, reader := .queued }
  | .unpolled, .drop | .awaiting, .drop => some { s with caller := .dropped, arc := s.arc.release }
  | _, _ => none

def negotiatorStep (s : Session) (ev : NegotiatorEvent) : Option Session :=
  match s.negotiator, ev with
  | .queued, .call => some { s with negotiator := .calling, arc := s.arc.emit (.call .negotiate) }
  | .calling, .ret ok => some { s with
      negotiator := .done ok
      arc := s.arc.emit (.ret .negotiate ok) }
  | .queued, .discard => some { s with negotiator := .finished none, arc := s.arc.release }
  | .done ok, .drop => some { s with negotiator := .finished (some ok), arc := s.arc.release }
  | _, _ => none

/-- The number of values of a `usize`. -/
def usizeSize : ℕ := 2 ^ 64

def writerStep (s : Session) (ev : WriterEvent) : Option Session :=
  match s.writer, ev with
  | .queued, .start => some { s with writer := .reading }
  | .queued, .discard => some { s with writer := .ended, arc := s.arc.release }
  | .reading, .read none => some { s with writer := .leaving }
  | .reading, .read (some r) =>
    if r = 0 then some { s with writer := .leaving }
    else if r ≤ duplexSize then some { s with writer := .looping 0 r }
    else none
  | .looping off len, .call =>
    if off < len then some { s with
      writer := .calling off len
      arc := s.arc.emit (.call .transmit) }
    else none
  | .looping off len, .next => if off < len then none else some { s with writer := .reading }
  | .calling off len, .ret (some w) => some { s with
      writer := if off + w < usizeSize then .looping (off + w) len else .unwinding
      arc := s.arc.emit (.ret .transmit true) }
  | .calling _ _, .ret none => some { s with
      writer := .leaving
      arc := s.arc.emit (.ret .transmit false) }
  | .leaving, .shutdown => some { s with writer := .left }
  | .left, .drop | .unwinding, .drop => some { s with writer := .ended, arc := s.arc.release }
  | _, _ => none

def readerStep (s : Session) (ev : ReaderEvent) : Option Session :=
  match s.reader, ev with
  | .queued, .start => some { s with reader := .looping }
  | .queued, .discard => some { s with reader := .ended, arc := s.arc.release }
  | .looping, .call => some { s with reader := .calling, arc := s.arc.emit (.call .receive) }
  | .calling, .ret (some r) => some { s with
      reader := if r ≤ duplexSize then .writing else .unwinding
      arc := s.arc.emit (.ret .receive true) }
  | .calling, .ret none => some { s with
      reader := .leaving
      arc := s.arc.emit (.ret .receive false) }
  | .writing, .write ok => some { s with reader := if ok then .looping else .leaving }
  | .leaving, .shutdown => some { s with reader := .left }
  | .left, .drop | .unwinding, .drop => some { s with reader := .ended, arc := s.arc.release }
  | _, _ => none

def step (s : Session) : SessionAct → Option Session
  | .caller ev => s.callerStep ev
  | .negotiator ev => s.negotiatorStep ev
  | .writer ev => s.writerStep ev
  | .reader ev => s.readerStep ev
  | .cleanupRet =>
    if s.arc.handle = .cleaning then some { s with
      arc := { s.arc with handle := .cleaned, trace := s.arc.trace ++ [.cleanupRet] } }
    else none
  | .closeSocket =>
    if s.arc.handle = .cleaned ∧ s.arc.socketOpen then some { s with arc := s.arc.closeSocket }
    else none

/-! ## Owners -/

def Caller.holds : Caller → Bool
  | .returned _ | .dropped => false
  | _ => true

def Negotiator.holds : Negotiator → Bool
  | .queued | .calling | .done _ => true
  | _ => false

def Writer.holds : Writer → Bool
  | .unspawned | .ended => false
  | _ => true

def Reader.holds : Reader → Bool
  | .unspawned | .ended => false
  | _ => true

/-- The number of owners. -/
def holders (s : Session) : ℕ :=
  s.caller.holds.toNat + s.negotiator.holds.toNat + s.writer.holds.toNat + s.reader.holds.toNat

def Writer.isCalling : Writer → Bool
  | .calling _ _ => true
  | _ => false

/-- Whether the owner that makes such calls is inside one. -/
def inCall (s : Session) : FfiCall → Bool
  | .negotiate => s.negotiator = .calling
  | .transmit => s.writer.isCalling
  | .receive => s.reader = .calling

end Session

end EnclaveNetworkGateway
