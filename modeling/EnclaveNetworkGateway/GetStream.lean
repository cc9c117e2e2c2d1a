import EnclaveNetworkGateway.HandleOwnership

/-!
# Getting a stream

`get_enta_stream` and `get_entg_stream` of ENTG and `connect_to_entg` of ENTA accept or make
one TCP connection and upgrade it to rats-tls if the option asks for that. They are futures:
`main` polls them, and drops them where they wait.
-/
namespace EnclaveNetworkGateway

/-- The two ways to a TCP connection, `listen_on_port` and `connect_to`. -/
inductive Target where
  | listenOnPort (port : UInt16)
  | connectTo (addr : String)
  deriving DecidableEq, Repr

/-- The arguments of a call that gets a stream. -/
structure GetStream where
  target : Target
  ratsTls : Bool
  isServer : Bool
  deriving DecidableEq, Repr

def getEntaStream (entaListenPort : UInt16) (entaRatsTls : Bool) : GetStream :=
  ⟨.listenOnPort entaListenPort, entaRatsTls, true⟩

def getEntgStream (entgConnect : Option String) (entgListenPort : UInt16) (entgRatsTls : Bool) :
    GetStream where
  target :=
    match entgConnect with
    | some addr => .connectTo addr
    | none => .listenOnPort entgListenPort
  ratsTls := entgRatsTls
  isServer := entgConnect.isNone

/-- `connect_to_entg` of ENTA. -/
def connectToEntg (entgConnect : String) (entgRatsTls : Bool) : GetStream :=
  ⟨.connectTo entgConnect, entgRatsTls, false⟩

/-- `Pin<Box<dyn AsyncStream>>`: a `TcpStream`, or the `DuplexStream` of a session. -/
inductive AsyncStream where
  | tcp
  | duplex
  deriving DecidableEq, Repr

/-- The errors that `?` returns on the way to a stream. -/
inductive StreamError where
  | bind (port : UInt16)
  | accept
  | connect (addr : String)
  | peerAddr
  | init (err : UInt32)
  | negotiation
  deriving DecidableEq, Repr

/-! ## `upgrade_to_rats_tls` -/

def utf8 (s : String) : Bytes := s.toUTF8.data.toList

/-- The four names that `upgrade_to_rats_tls` asks for. The server proves what it is, the
client verifies it. -/
def upgradeNames (server : Bool) : RatsTls.TypeNames where
  tlsType := some (utf8 "openssl")
  crypto := some (utf8 "openssl")
  attester := some (utf8 (if server then "sgx_ecdsa" else "nullattester"))
  verifier := some (utf8 (if server then "nullverifier" else "sgx_ecdsa"))

/-- The call of `RatsTls::new`, with the errors that the library reports. -/
def upgradeToRatsTls (server : Bool) (initErr callbackErr : UInt32) :
    Option (RatsTls.RatsTlsConf × Except UInt32 Unit) :=
  RatsTls.new server 0 (upgradeNames server) false initErr callbackErr

/-! ## The future -/

/-- Where the future stands: not polled yet, at `accept` with the listener, at
`TcpStream::connect`, with the connection, about to upgrade it, inside `negotiate_async`,
past its end, and dropped. -/
inductive GetState where
  | start
  | accepting
  | connecting
  | connected
  | upgrading
  | negotiating
  | finished
  | dropped
  deriving DecidableEq, Repr

inductive Descriptor where
  | listener
  | socket
  deriving DecidableEq, Repr

inductive DescriptorCall where
  | accept
  | peerAddr
  deriving DecidableEq, Repr

abbrev DescriptorEvent := ResourceEvent DescriptorCall Descriptor

/-- A future with the stream that `main` has from it, the configuration that it has passed to
`rats_tls_init`, its session, and what has happened to its descriptors. -/
structure StreamTask where
  state : GetState
  stream : Option AsyncStream
  conf : Option RatsTls.RatsTlsConf
  session : Option Session
  trace : List DescriptorEvent
  deriving DecidableEq

/-- What the outside answers within a poll. -/
inductive PollEvent where
  | bind (ok : Bool)
  | accept (ok : Bool)
  | connect
  | connected (ok : Bool)
  | peerAddr (ok : Bool)
  | ratsTls (initErr callbackErr : UInt32)
  | negotiate (ev : Session.CallerEvent)
  deriving DecidableEq, Repr

/-- How far a poll has come. -/
inductive Progress where
  | going
  | ready (r : Except StreamError AsyncStream)
  | panicked
  deriving DecidableEq

namespace StreamTask

def new : StreamTask := ⟨.start, none, none, none, []⟩

def enter (t : StreamTask) (state : GetState) (evs : List DescriptorEvent) : StreamTask :=
  { t with state := state, trace := t.trace ++ evs }

/-- The session has got to `s`, and its socket may be closed by that. -/
def withSession (t : StreamTask) (s s' : Session) : StreamTask :=
  { t with
    session := some s'
    trace := t.trace ++ if s.arc.socketOpen && !s'.arc.socketOpen then [.release .socket] else [] }

/-- `tls.negotiate_async(stream)`, up to the result of its future. -/
def negotiate (t : StreamTask) (ev : Session.CallerEvent) : Option (StreamTask × Progress) :=
  match t.session with
  | none => none
  | some s => if ev = .drop then none else (s.step (.caller ev)).map fun s' =>
    match s'.caller with
    | .returned true => ((t.withSession s s').enter .finished [], .ready (.ok .duplex))
    | .returned false => ((t.withSession s s').enter .finished [], .ready (.error .negotiation))
    | _ => (t.withSession s s', .going)

/-- A part of a poll, up to the next answer from outside. -/
def advance (a : GetStream) (t : StreamTask) (ev : PollEvent) : Option (StreamTask × Progress) :=
  match t.state, ev with
  | .start, .bind ok =>
    match a.target with
    | .listenOnPort port =>
      if ok then some (t.enter .accepting [.make .listener], .going)
      else some (t.enter .finished [], .ready (.error (.bind port)))
    | .connectTo _ => none
  | .accepting, .accept ok =>
    if ok then
      -- the listener is dropped with `listen_on_port`
      some (t.enter .connected [.use .accept .listener, .make .socket, .release .listener], .going)
    else
      some (t.enter .finished [.use .accept .listener, .release .listener],
        .ready (.error .accept))
  | .start, .connect =>
    match a.target with
    | .connectTo _ => some (t.enter .connecting [], .going)
    | .listenOnPort _ => none
  | .connecting, .connected ok =>
    match a.target with
    | .connectTo addr =>
      if ok then some (t.enter .connected [.make .socket], .going)
      else some (t.enter .finished [], .ready (.error (.connect addr)))
    | .listenOnPort _ => none
  | .connected, .peerAddr ok =>
    if ok then
      if a.ratsTls then some (t.enter .upgrading [.use .peerAddr .socket], .going)
      else some (t.enter .finished [.use .peerAddr .socket], .ready (.ok .tcp))
    else
      some (t.enter .finished [.use .peerAddr .socket, .release .socket],
        .ready (.error .peerAddr))
  | .upgrading, .ratsTls initErr callbackErr =>
    match upgradeToRatsTls a.isServer initErr callbackErr with
    | none => some (t, .panicked)
    | some (c, .ok ()) =>
      some ({ t with state := .negotiating, conf := some c, session := some .new }, .going)
    | some (c, .error err) =>
      some ({ t.enter .finished [.release .socket] with conf := some c },
        .ready (.error (.init err)))
  | .negotiating, .negotiate ev => t.negotiate ev
  | _, _ => none

/-- The future waits for something outside, and the poll ends. -/
def waits (t : StreamTask) : Bool :=
  match t.state with
  | .accepting | .connecting => true
  | .negotiating => t.session.any (·.caller = .awaiting)
  | _ => false

/-- `main` has the value of the future. -/
def store (t : StreamTask) (st : AsyncStream) : StreamTask := { t with stream := some st }

/-- `main` drops the future, or the stream that it has from it. -/
def drop (t : StreamTask) : Option StreamTask :=
  match t.state with
  | .start | .connecting => some (t.enter .dropped [])
  | .accepting => some (t.enter .dropped [.release .listener])
  | .negotiating =>
    match t.session with
    | none => none
    | some s => (s.step (.caller .drop)).map fun s' => (t.withSession s s').enter .dropped []
  | .finished =>
    some { t.enter .dropped (if t.stream = some .tcp then [.release .socket] else []) with
      stream := none }
  | .connected | .upgrading | .dropped => none

/-- A step of the session outside of its future: a blocking task, or the drop of the tuple. -/
def background (t : StreamTask) (a : SessionAct) : Option StreamTask :=
  match a, t.session with
  | .caller _, _ | _, none => none
  | a, some s => (s.step a).map fun s' => t.withSession s s'

end StreamTask

end EnclaveNetworkGateway
